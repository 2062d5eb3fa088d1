import Sm120.Flash.Build

namespace Sm120.Flash

open Lib

def headDimValues : List ℕ := [64, 128]

theorem map_getD_range (ns : List ℕ) : (List.range ns.length).map (fun i ↦ ns.getD i 0) = ns := by
  apply List.ext_getElem
  · simp
  · intro i _ hi
    simp [hi]

namespace MMnNkN

/-- The arguments of `config_name` and `make_config`. -/
structure Params where
  headDim : ℕ
  blockM : ℕ
  blockN : ℕ
  warpsM : ℕ
  warpsN : ℕ
  stage : ℕ
deriving DecidableEq

namespace Params

def configName (t : Params) : List Char :=
  "hd".toList ++ decimal t.headDim ++ "_bm".toList ++ decimal t.blockM ++ "_bn".toList ++
    decimal t.blockN ++
    "_wm".toList ++ decimal t.warpsM ++ "_wn".toList ++ decimal t.warpsN ++ "_s".toList ++
      decimal t.stage

def numbers (t : Params) : List ℕ :=
  [t.headDim, t.blockM, t.blockN, t.warpsM, t.warpsN, t.warpsM * t.warpsN, t.stage,
    smemBytes t.headDim t.blockM t.blockN t.warpsN t.stage]

def isValidConfig (t : Params) (maxSmem : ℕ) : Bool :=
  MMnNkN.isValidConfig t.headDim t.blockM t.blockN t.warpsM t.warpsN t.stage maxSmem

def groups (t : Params) : List ℕ := [t.headDim, t.blockM, t.blockN, t.warpsM, t.warpsN, t.stage]

def ofGroups (ns : List ℕ) : Params where
  headDim := ns.getD 0 0
  blockM := ns.getD 1 0
  blockN := ns.getD 2 0
  warpsM := ns.getD 3 0
  warpsN := ns.getD 4 0
  stage := ns.getD 5 0

end Params

/-- The literals of `CONFIG_NAME_RE`. -/
def literals : List (List Char) :=
  ["hd".toList, "_bm".toList, "_bn".toList, "_wm".toList, "_wn".toList, "_s".toList]

def headDimToBm : ℕ → List ℕ
  | 64 => [32, 64, 128]
  | 128 => [32, 64, 128]
  | _ => []

def headDimToBn : ℕ → List ℕ
  | 64 => [32, 64, 128]
  | 128 => [32, 64]
  | _ => []

def warpRange : List ℕ := [16, 32, 64]

def blockShapes (headDim : ℕ) : List (ℕ × ℕ) :=
  (headDimToBm headDim).flatMap fun blockM ↦ (headDimToBn headDim).map fun blockN ↦ (blockM, blockN)

def warpShapes (blockM blockN : ℕ) : List (ℕ × ℕ) :=
  warpRange.foldl (fun shapes warpMRange ↦
    if blockM % warpMRange ≠ 0 then shapes
    else
      let warpsM := blockM / warpMRange
      warpRange.foldl (fun shapes warpNRange ↦
        if blockN % warpNRange ≠ 0 then shapes
        else
          let warpsN := blockN / warpNRange
          if 0 < warpsM ∧ 0 < warpsN ∧ (warpsM, warpsN) ∉ shapes then shapes ++ [(warpsM, warpsN)]
            else shapes)
        shapes)
    []

/-- The tuples that `default_configs` tries. -/
def candidates : List Params :=
  headDimValues.flatMap fun headDim ↦ (blockShapes headDim).flatMap fun (blockM, blockN) ↦
    (warpShapes blockM blockN).map fun (warpsM, warpsN) ↦
    ⟨headDim, blockM, blockN, warpsM, warpsN, configStage⟩

def gets : List (CMakeVar × ℕ) :=
  [(.headDim, 0), (.bm, 1), (.bn, 2), (.warpsM, 3), (.warpsN, 4), (.nwarps, 5), (.stage, 6),
    (.smemBytes, 7), (.cfgName, 8)]

def table : List CMakeVar := [.headDim, .bm, .bn, .warpsM, .warpsN, .nwarps, .stage, .smemBytes]

def template : List CMakeVar := [.headDim, .bm, .bn, .warpsM, .warpsN, .stage]

theorem literals_separate : Separates literals := separates_of_all (by decide)

theorem literals_ident : ∀ lit ∈ literals, ∀ c ∈ lit, isIdentChar c = true :=
  isIdentChar_of_all (by decide)

theorem groups_ofGroups (ns : List ℕ) (h : ns.length = 6) : (Params.ofGroups ns).groups = ns := by
  have hmap : (Params.ofGroups ns).groups = (List.range 6).map fun i ↦ ns.getD i 0 := rfl
  rw [hmap, ← h, map_getD_range]

theorem configName_eq (t : Params) : t.configName = fillPattern literals t.groups := by
  unfold Params.configName literals Params.groups
  simp only [fillPattern_cons, fillPattern_nil, List.append_assoc, List.append_nil]

theorem numbers_injective : Function.Injective Params.numbers := by
  intro t t' h
  cases t
  cases t'
  simp only [Params.numbers, List.cons.injEq] at h
  obtain ⟨rfl, rfl, rfl, rfl, rfl, -, rfl, -⟩ := h
  rfl

theorem candidates_nodup : candidates.Nodup := by decide +kernel

def variant : Variant Params where
  literals := literals
  expected := "hd<head_dim>_bm<block_m>_bn<block_n>_wm<warps_m>_wn<warps_n>_s<stage>"
  groups := Params.groups
  ofGroups := Params.ofGroups
  configName := Params.configName
  numbers := Params.numbers
  isValidConfig := Params.isValidConfig
  candidates := candidates
  separates := literals_separate
  groups_length _ := rfl
  ofGroups_groups _ := rfl
  groups_ofGroups := groups_ofGroups
  configName_eq := configName_eq
  numbers_injective := numbers_injective
  gets := gets
  table := table
  template := template
  literals_ne := List.cons_ne_nil _ _
  literals_ident := literals_ident
  candidates_nodup := candidates_nodup
  name_get _ := rfl
  table_gets _ := rfl
  template_gets _ := rfl

theorem defaultConfigs_ne : variant.defaultConfigs (100 * 1024) ≠ [] := by decide +kernel

/-- Without a request the generator lists its defaults, which nobody named. -/
theorem defaults_not_listed : ∃ configs, variant.generateConfigs .asciiOnly 100 [] = .ok configs ∧
    ¬ variant.Listed .asciiOnly [] (100 * 1024) configs := by
  refine ⟨_, rfl, ?_⟩
  intro h
  obtain ⟨ts, hts, -, hconfigs⟩ := h.tuples
  cases hts
  exact defaultConfigs_ne hconfigs

/-- Leading zeros do not make another configuration. -/
example : variant.generateConfigs .asciiOnly 100
    ["hd064_bm64_bn64_wm4_wn2_s2".toList, "hd64_bm64_bn64_wm04_wn2_s2".toList] =
      .ok [variant.makeConfig ⟨64, 64, 64, 4, 2, 2⟩] := by decide +kernel

end MMnNkN

namespace MMn1k1

structure Params where
  headDim : ℕ
  blockM : ℕ
  blockN : ℕ
  nwarps : ℕ
  stage : ℕ
deriving DecidableEq

namespace Params

def configName (t : Params) : List Char :=
  "hd".toList ++ decimal t.headDim ++ "_bm".toList ++ decimal t.blockM ++ "_bn".toList ++
    decimal t.blockN ++
    "_w".toList ++ decimal t.nwarps ++ "_s".toList ++ decimal t.stage

def numbers (t : Params) : List ℕ :=
  [t.headDim, t.blockM, t.blockN, t.nwarps, t.stage, smemBytes t.headDim t.blockM t.blockN t.stage]

def isValidConfig (t : Params) (maxSmem : ℕ) : Bool :=
  MMn1k1.isValidConfig t.headDim t.blockM t.blockN t.nwarps t.stage maxSmem

def groups (t : Params) : List ℕ := [t.headDim, t.blockM, t.blockN, t.nwarps, t.stage]

def ofGroups (ns : List ℕ) : Params where
  headDim := ns.getD 0 0
  blockM := ns.getD 1 0
  blockN := ns.getD 2 0
  nwarps := ns.getD 3 0
  stage := ns.getD 4 0

end Params

def literals : List (List Char) :=
  ["hd".toList, "_bm".toList, "_bn".toList, "_w".toList, "_s".toList]

def headDimToBm : ℕ → List ℕ
  | 64 => [128, 256]
  | 128 => [64, 128]
  | _ => []

def headDimToBn : ℕ → List ℕ
  | 64 => [32, 64]
  | 128 => [32, 64]
  | _ => []

def blockShapes (headDim : ℕ) : List (ℕ × ℕ) :=
  (headDimToBm headDim).flatMap fun blockM ↦ (headDimToBn headDim).map fun blockN ↦ (blockM, blockN)

def candidates : List Params :=
  headDimValues.flatMap fun headDim ↦ (blockShapes headDim).flatMap fun (blockM, blockN) ↦
    nwarpValues.map fun nwarps ↦ ⟨headDim, blockM, blockN, nwarps, configStage⟩

def gets : List (CMakeVar × ℕ) :=
  [(.headDim, 0), (.bm, 1), (.bn, 2), (.nwarps, 3), (.stage, 4), (.smemBytes, 5), (.cfgName, 6)]

def table : List CMakeVar := [.headDim, .bm, .bn, .nwarps, .stage, .smemBytes]

def template : List CMakeVar := [.headDim, .bm, .bn, .nwarps, .stage]

theorem literals_separate : Separates literals := separates_of_all (by decide)

theorem literals_ident : ∀ lit ∈ literals, ∀ c ∈ lit, isIdentChar c = true :=
  isIdentChar_of_all (by decide)

theorem groups_ofGroups (ns : List ℕ) (h : ns.length = 5) : (Params.ofGroups ns).groups = ns := by
  have hmap : (Params.ofGroups ns).groups = (List.range 5).map fun i ↦ ns.getD i 0 := rfl
  rw [hmap, ← h, map_getD_range]

theorem configName_eq (t : Params) : t.configName = fillPattern literals t.groups := by
  unfold Params.configName literals Params.groups
  simp only [fillPattern_cons, fillPattern_nil, List.append_assoc, List.append_nil]

theorem numbers_injective : Function.Injective Params.numbers := by
  intro t t' h
  cases t
  cases t'
  simp only [Params.numbers, List.cons.injEq] at h
  obtain ⟨rfl, rfl, rfl, rfl, rfl, -⟩ := h
  rfl

theorem candidates_nodup : candidates.Nodup := by decide +kernel

def variant : Variant Params where
  literals := literals
  expected := "hd<head_dim>_bm<block_m>_bn<block_n>_w<nwarps>_s<stage>"
  groups := Params.groups
  ofGroups := Params.ofGroups
  configName := Params.configName
  numbers := Params.numbers
  isValidConfig := Params.isValidConfig
  candidates := candidates
  separates := literals_separate
  groups_length _ := rfl
  ofGroups_groups _ := rfl
  groups_ofGroups := groups_ofGroups
  configName_eq := configName_eq
  numbers_injective := numbers_injective
  gets := gets
  table := table
  template := template
  literals_ne := List.cons_ne_nil _ _
  literals_ident := literals_ident
  candidates_nodup := candidates_nodup
  name_get _ := rfl
  table_gets _ := rfl
  template_gets _ := rfl

end MMn1k1

theorem names_exact (D : DigitTable) : MMnNkN.variant.NamesExact D ∧ MMn1k1.variant.NamesExact D :=
  ⟨Variant.namesExact MMnNkN.variant D, Variant.namesExact MMn1k1.variant D⟩

end Sm120.Flash
