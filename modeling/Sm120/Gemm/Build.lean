import Sm120.Gemm.Config
import Sm120.Gemm.Registry
import Sm120.Lib.CMake
import Sm120.Lib.Guard
import Sm120.Lib.Pattern

namespace Sm120.Gemm

open Lib

def typeConfigs : List (List Char × List Char) := [("bf16".toList, "bf16".toList)]

def bmValues : List ℕ := [64, 128]

def bnValues : List ℕ := [64, 128]

def bkValues : List ℕ := [64, 128]

def cwgValues : List ℕ := [2, 4]

def bsWValues : List ℕ := [4, 8]

def isPow2 (warpsN : ℕ) : Bool := warpsN &&& (warpsN - 1) = 0

def legalWarpShapes (bm bn cwg : ℕ) : List (ℕ × ℕ) :=
  let totalConsumerWarps := 4 * cwg
  (List.range' 1 totalConsumerWarps).filterMap fun warpsM ↦
    if totalConsumerWarps % warpsM ≠ 0 then none
    else
      let warpsN := totalConsumerWarps / warpsM
      if bm % warpsM ≠ 0 ∨ bn % warpsN ≠ 0 then none
      else if !isPow2 warpsN then none
      else if bm % (16 * warpsM) ≠ 0 then none
      else if bn % (8 * warpsN) ≠ 0 then none
      else some (warpsM, warpsN)

/-- A tuple of `generate_configs`, without its name. -/
structure Params where
  typeName : List Char
  typeCpp : List Char
  bm : ℕ
  bn : ℕ
  bk : ℕ
  stage : ℕ
  cwg : ℕ
  warpsM : ℕ
  warpsN : ℕ
  bsW : ℕ
deriving DecidableEq

namespace Params

def numbers (t : Params) : List ℕ := [t.bm, t.bn, t.bk, t.stage, t.cwg, t.warpsM, t.warpsN, t.bsW]

def configName (t : Params) : List Char :=
  t.typeName ++ "_bm".toList ++ decimal t.bm ++ "_bn".toList ++ decimal t.bn ++ "_bk".toList ++
    decimal t.bk ++
    "_s".toList ++ decimal t.stage ++ "_cwg".toList ++ decimal t.cwg ++ "_wm".toList ++
      decimal t.warpsM ++
      "_wn".toList ++ decimal t.warpsN ++ "_bsw".toList ++ decimal t.bsW

def isValid (t : Params) (maxSmem : ℕ) : Bool :=
  isValidConfig t.bm t.bn t.bk t.stage t.cwg t.warpsM t.warpsN t.bsW maxSmem

/-- A line of the generated `configs.cmake`. -/
def text (t : Params) : List Char :=
  ['|'].intercalate ([t.typeName, t.typeCpp] ++ t.numbers.map decimal ++ [t.configName])

end Params

def candidates : List Params :=
  typeConfigs.flatMap fun (typeName, typeCpp) ↦
    bmValues.flatMap fun bm ↦
      bnValues.flatMap fun bn ↦
        bkValues.flatMap fun bk ↦
          stageValues.flatMap fun stage ↦
            cwgValues.flatMap fun cwg ↦
              (legalWarpShapes bm bn cwg).flatMap fun (warpsM, warpsN) ↦
                bsWValues.map fun bsW ↦ ⟨typeName, typeCpp, bm, bn, bk, stage, cwg, warpsM,
                  warpsN, bsW⟩

def generateConfigs (maxSmemKb : ℕ) : List Params :=
  let maxSmem := maxSmemKb * 1024
  candidates.filter fun t ↦ t.isValid maxSmem

structure Instance where
  T : List Char
  bM : ℕ
  bN : ℕ
  bK : ℕ
  stage : ℕ
  cwg : ℕ
  warpsM : ℕ
  warpsN : ℕ
  bsW : ℕ
deriving DecidableEq

/-- A row of `kGemmConfigs`. -/
structure Row extends GemmConfig where
  stage : ℕ
  cwg : ℕ
  warpsM : ℕ
  warpsN : ℕ
  bsW : ℕ
  smemBytes : ℕ
  run : Instance
deriving DecidableEq

/-- A file that is configured from `gemm.cu.in`. -/
structure KernelSource where
  file : List Char
  inst : Instance
  maxDynamicSmemBytes : Int32
deriving DecidableEq

namespace KernelSource

variable (k : KernelSource)

def smemBytes : ℕ :=
  k.inst.stage * (k.inst.bM * k.inst.bK + k.inst.bN * k.inst.bK) * 2 + k.inst.bM * k.inst.bN * 2 +
    2 * k.inst.stage * 8

/-- The assertions of `gemm.cu.in`, in order. -/
def staticAsserts : List Bool :=
  [k.inst.T = "bf16".toList ∨ k.inst.T = "cutlass::half_t".toList,
    0 < k.inst.bM ∧ 0 < k.inst.bN ∧ 0 < k.inst.bK,
    k.inst.stage = 2 ∨ k.inst.stage = 3,
    0 < k.inst.warpsM ∧ 0 < k.inst.warpsN,
    0 < k.inst.bsW,
    k.inst.stage = 2 ∨ k.inst.stage = 3,
    k.inst.cwg = 1 ∨ k.inst.cwg = 2 ∨ k.inst.cwg = 3 ∨ k.inst.cwg = 4,
    k.inst.bM % 32 = 0 ∧ k.inst.bN % 64 = 0 ∧ k.inst.bK % 64 = 0,
    k.inst.warpsM * k.inst.warpsN = 4 * k.inst.cwg,
    k.inst.bM % (16 * k.inst.warpsM) = 0 ∧ k.inst.bN % (8 * k.inst.warpsN) = 0,
    (4 * k.inst.cwg + 4) * warpSize ≤ maxThreadsPerBlock,
    k.inst.bM * k.inst.bN ≤ maxTileElements,
    k.inst.bM * k.inst.bN / (4 * k.inst.cwg * warpSize) ≤ maxAccumElementsPerThread,
    (k.smemBytes : ℤ) ≤ k.maxDynamicSmemBytes.toInt,
    k.inst.bsW = 1 ∨ k.inst.bsW = 2 ∨ k.inst.bsW = 4 ∨ k.inst.bsW = 8 ∨ k.inst.bsW = 16]

end KernelSource

inductive BuildError
  | generator (code : ℕ)
  | notGenerated (onlyConfig : List Char)
  | listIndex
deriving DecidableEq

def BuildError.text : BuildError → String
  | generator code => s!"gemm/gemm_configs.py failed with code {code}"
  | notGenerated onlyConfig =>
    s!"GEMM_TN_ONLY_CONFIG='{String.ofList onlyConfig}' was not generated by gemm_configs.py"
  | listIndex => "list index out of range"

structure ConfigsCMake where
  maxSmemBytes : List Char
  configs : List Char
deriving DecidableEq

/-- `main` of `gemm_configs.py`, as `execute_process` and `include` see it. -/
def generate (maxSmemKb : ℕ) : Except BuildError ConfigsCMake :=
  let configs := generateConfigs maxSmemKb
  if configs = [] then .error (.generator 1)
  else .ok ⟨decimal (maxSmemKb * 1024), cmakeJoin (configs.map Params.text)⟩

def listGet (cfgList : List (List Char)) (i : ℕ) : Except BuildError (List Char) :=
  match cfgList[i]? with
  | some value => .ok value
  | none => .error .listIndex

/-- One turn of the loop that looks for `GEMM_TN_ONLY_CONFIG`. -/
def filterStep (onlyConfig filtered cfg : List Char) : Except BuildError (List Char) := do
  let cfgName ← listGet (cmakeList (replaceChar '|' ';' cfg)) 10
  if cfgName = onlyConfig then return cmakeAppend filtered cfg else return filtered

def selectConfigs (onlyConfig configs : List Char) : Except BuildError (List Char) :=
  if isOff onlyConfig then .ok configs
  else do
    let filtered ← (cmakeList configs).foldlM (filterStep onlyConfig) []
    if isOff filtered then .error (.notGenerated onlyConfig) else return filtered

def configure (maxSmemBytes cfg : List Char) : Except BuildError (Row × KernelSource) := do
  let cfgList := cmakeList (replaceChar '|' ';' cfg)
  let _typeName ← listGet cfgList 0
  let typeCpp ← listGet cfgList 1
  let bm ← listGet cfgList 2
  let bn ← listGet cfgList 3
  let bk ← listGet cfgList 4
  let stage ← listGet cfgList 5
  let cwg ← listGet cfgList 6
  let warpsM ← listGet cfgList 7
  let warpsN ← listGet cfgList 8
  let bsW ← listGet cfgList 9
  let cfgName ← listGet cfgList 10
  let inst : Instance :=
    ⟨typeCpp, intLiteral bm, intLiteral bn, intLiteral bk, intLiteral stage, intLiteral cwg,
    intLiteral warpsM, intLiteral warpsN, intLiteral bsW⟩
  let smem :=
    intLiteral stage * (intLiteral bm * intLiteral bk + intLiteral bn * intLiteral bk) * 2 +
    intLiteral bm * intLiteral bn * 2 + 2 * intLiteral stage * 8
  return (⟨⟨cfgName, intLiteral bm, intLiteral bn, intLiteral bk⟩, intLiteral stage, intLiteral cwg,
      intLiteral warpsM, intLiteral warpsN, intLiteral bsW, smem, inst⟩,
    ⟨"gemm_".toList ++ cfgName ++ ".cu".toList, inst, Int32.ofNat (intLiteral maxSmemBytes)⟩)

/-- What `cmake` makes of its two cache variables: the rows of the registry, and the kernels. -/
def build (maxSmemKb : ℕ) (onlyConfig : List Char) :
    Except BuildError (List (Row × KernelSource)) := do
  let generated ← generate maxSmemKb
  let configs ← selectConfigs onlyConfig generated.configs
  (cmakeList configs).mapM (configure generated.maxSmemBytes)

namespace Params

def Typed (t : Params) : Prop := (t.typeName, t.typeCpp) ∈ typeConfigs

def inst (t : Params) : Instance :=
  ⟨t.typeCpp, t.bm, t.bn, t.bk, t.stage, t.cwg, t.warpsM, t.warpsN, t.bsW⟩

def instantiated (maxSmemKb : ℕ) (t : Params) : Row × KernelSource :=
  (⟨⟨t.configName, t.bm, t.bn, t.bk⟩, t.stage, t.cwg, t.warpsM, t.warpsN, t.bsW,
    smemBytes t.bm t.bn t.bk t.stage,
      t.inst⟩,
    ⟨"gemm_".toList ++ t.configName ++ ".cu".toList, t.inst, Int32.ofNat (maxSmemKb * 1024)⟩)

end Params

def requested (maxSmemKb : ℕ) (onlyConfig : List Char) : List Params :=
  if isOff onlyConfig then generateConfigs maxSmemKb
  else (generateConfigs maxSmemKb).filter fun t ↦ t.configName = onlyConfig

section Generator

theorem isPow2_of_mul {warpsM warpsN cwg : ℕ} (h : warpsM * warpsN = 4 * cwg)
    (hcwg : cwg ∈ cwgValues) : isPow2 warpsN = true := by
  simp only [cwgValues, List.mem_cons, List.not_mem_nil, or_false] at hcwg
  have hN : warpsN ∣ 4 * cwg := Dvd.intro_left _ h
  rcases hcwg with rfl | rfl
  · have hmem : warpsN ∈ Nat.divisors 8 := Nat.mem_divisors.2 ⟨hN, by decide⟩
    have hall : ∀ n ∈ Nat.divisors 8, isPow2 n = true := by decide
    exact hall warpsN hmem
  · have hmem : warpsN ∈ Nat.divisors 16 := Nat.mem_divisors.2 ⟨hN, by decide⟩
    have hall : ∀ n ∈ Nat.divisors 16, isPow2 n = true := by decide
    exact hall warpsN hmem

/-- The warp shapes that the generator tries leave out none that it would accept. -/
theorem mem_legalWarpShapes {bm bn cwg warpsM warpsN : ℕ} (hcwg : cwg ∈ cwgValues) :
    (warpsM, warpsN) ∈ legalWarpShapes bm bn cwg ↔
      warpsM * warpsN = 4 * cwg ∧ bm % (16 * warpsM) = 0 ∧ bn % (8 * warpsN) = 0 := by
  have hpos : 0 < 4 * cwg := by
    simp only [cwgValues, List.mem_cons, List.not_mem_nil, or_false] at hcwg
    omega
  simp only [legalWarpShapes, List.mem_filterMap]
  constructor
  · intro ⟨m, _, h⟩
    split_ifs at h with hmod hdiv hpow hm hn
    obtain ⟨rfl, rfl⟩ := Prod.mk.inj (Option.some.inj h)
    exact ⟨Nat.mul_div_cancel' (Nat.dvd_of_mod_eq_zero (not_not.1 hmod)), not_not.1 hm,
      not_not.1 hn⟩
  · intro ⟨hmul, hm, hn⟩
    have hM : 0 < warpsM := Nat.pos_of_mul_pos_right (hmul ▸ hpos)
    have hdvd : warpsM ∣ 4 * cwg := Dvd.intro _ hmul
    have hdiv : 4 * cwg / warpsM = warpsN := by rw [← hmul, Nat.mul_div_cancel_left _ hM]
    refine ⟨warpsM, ?_, ?_⟩
    · have hle := Nat.le_of_dvd hpos hdvd
      rw [List.mem_range'_1]
      omega
    · have hbm : bm % warpsM = 0 :=
        Nat.mod_eq_zero_of_dvd ((Dvd.intro_left 16 rfl).trans (Nat.dvd_of_mod_eq_zero hm))
      have hbn : bn % warpsN = 0 :=
        Nat.mod_eq_zero_of_dvd ((Dvd.intro_left 8 rfl).trans (Nat.dvd_of_mod_eq_zero hn))
      have hpow := isPow2_of_mul hmul hcwg
      rw [if_neg (not_not.2 (Nat.mod_eq_zero_of_dvd hdvd)), hdiv, if_neg (by simp [hbm, hbn]),
        if_neg (by simp [hpow]), if_neg (not_not.2 hm), if_neg (not_not.2 hn)]

theorem mem_generateConfigs {maxSmemKb : ℕ} {t : Params} : t ∈ generateConfigs maxSmemKb ↔
    t.Typed ∧ t.bm ∈ bmValues ∧ t.bn ∈ bnValues ∧ t.bk ∈ bkValues ∧ t.stage ∈ stageValues ∧
    t.cwg ∈ cwgValues ∧ t.bsW ∈ bsWValues ∧ t.isValid (maxSmemKb * 1024) = true := by
  simp only [generateConfigs, candidates, List.mem_filter, List.mem_flatMap, List.mem_map,
    Prod.exists]
  constructor
  · rintro ⟨⟨typeName, typeCpp, htype, bm, hbm, bn, hbn, bk, hbk, stage, hstage, cwg, hcwg, warpsM,
      warpsN, -, bsW, hbsW,
      rfl⟩, hvalid⟩
    exact ⟨htype, hbm, hbn, hbk, hstage, hcwg, hbsW, hvalid⟩
  · intro ⟨htype, hbm, hbn, hbk, hstage, hcwg, hbsW, hvalid⟩
    obtain ⟨-, -, -, hwarps, -, ⟨hm, hn⟩, -⟩ := isValidConfig_spec hvalid
    exact ⟨⟨_, _, htype, _, hbm, _, hbn, _, hbk, _, hstage, _, hcwg, _, _,
      (mem_legalWarpShapes hcwg).2 ⟨hwarps, hm, hn⟩, _, hbsW, rfl⟩, hvalid⟩

/-- The loops go through the tuples in lexicographic order. -/
theorem candidates_nodup : candidates.Nodup := by
  let rank (t : Params) : ℕ :=
    [t.bm, t.bn, t.bk, t.stage, t.cwg, t.warpsM, t.bsW].foldl (fun n x ↦ 256 * n + x) 0
  have hchain : (candidates.map rank).IsChain (· < ·) := by decide +kernel
  exact (List.isChain_iff_pairwise.1 hchain).nodup.of_map rank

theorem generateConfigs_nodup (maxSmemKb : ℕ) : (generateConfigs maxSmemKb).Nodup :=
  List.Nodup.filter _ candidates_nodup

/-- The smallest tile takes 41 KiB. -/
theorem generateConfigs_eq_nil {maxSmemKb : ℕ} : generateConfigs maxSmemKb = [] ↔
    maxSmemKb < 41 := by
  constructor
  · intro h
    by_contra hle
    have hsmall : (⟨"bf16".toList, "bf16".toList, 64, 64, 64, 2, 2, 4, 2, 4⟩ :
        Params) ∈ generateConfigs maxSmemKb := by
      refine mem_generateConfigs.2
        ⟨List.mem_singleton.2 rfl, by decide, by decide, by decide, by decide, by decide,
        by decide, ?_⟩
      have hsmem : ¬ smemBytes 64 64 64 2 > maxSmemKb * 1024 := by
        have : smemBytes 64 64 64 2 = 40992 := rfl
        omega
      simp only [Params.isValid, isValidConfig, if_neg hsmem]
      decide
    rw [h] at hsmall
    cases hsmall
  · intro h
    apply List.eq_nil_iff_forall_not_mem.2
    intro t ht
    obtain ⟨-, hbm, hbn, hbk, hstage, -, -, hvalid⟩ := mem_generateConfigs.1 ht
    obtain ⟨-, -, -, -, -, -, hsmem⟩ := isValidConfig_spec hvalid
    have hle : smemBytes 64 64 64 2 ≤ smemBytes t.bm t.bn t.bk t.stage := by
      have hall : ∀ bm ∈ bmValues, ∀ bn ∈ bnValues, ∀ bk ∈ bkValues, ∀ stage ∈ stageValues,
          smemBytes 64 64 64 2 ≤ smemBytes bm bn bk stage := by decide
      exact hall _ hbm _ hbn _ hbk _ hstage
    have h40992 : smemBytes 64 64 64 2 = 40992 := rfl
    omega

end Generator

namespace Params

def literals : List (List Char) :=
  ["_bm", "_bn", "_bk", "_s", "_cwg", "_wm", "_wn", "_bsw"].map String.toList

section Names

variable {t t' : Params}

theorem configName_eq (t : Params) :
    t.configName = t.typeName ++ fillPattern literals t.numbers := by
  unfold configName literals numbers
  simp only [List.map_cons, List.map_nil, fillPattern_cons, fillPattern_nil, List.append_nil,
    List.append_assoc]

theorem literals_ident : ∀ lit ∈ literals, ∀ c ∈ lit, isIdentChar c = true :=
  isIdentChar_of_all (by decide)

theorem Typed.ident (ht : t.Typed) : (∀ c ∈ t.typeName, isIdentChar c = true) ∧
    ∀ c ∈ t.typeCpp, isIdentChar c = true := by
  obtain ⟨hname, hcpp⟩ := Prod.mk.inj (List.mem_singleton.1 ht)
  rw [hname, hcpp]
  exact ⟨List.all_eq_true.1 (by decide), List.all_eq_true.1 (by decide)⟩

theorem configName_ident (ht : t.Typed) : ∀ c ∈ t.configName, isIdentChar c = true := by
  intro c hc
  rw [configName_eq, List.mem_append] at hc
  rcases hc with hc | hc
  · exact ht.ident.1 c hc
  · rcases mem_fillPattern hc with hc | ⟨lit, hlit, hc⟩
    · exact isIdentChar_of_isDigit hc
    · exact literals_ident lit hlit c hc

theorem length_configName_le {maxSmemKb : ℕ} (h : t ∈ generateConfigs maxSmemKb) :
    t.configName.length ≤ 60 := by
  obtain ⟨htype, hbm, hbn, hbk, hstage, hcwg, hbsW, hvalid⟩ := mem_generateConfigs.1 h
  obtain ⟨-, -, -, hwarps, -⟩ := isValidConfig_spec hvalid
  have hname : t.typeName.length = 4 := by
    rw [(Prod.mk.inj (List.mem_singleton.1 htype)).1]
    rfl
  have hsmall : (∀ n ∈ bmValues, n < 10 ^ 3) ∧ (∀ n ∈ bnValues, n < 10 ^ 3) ∧
      (∀ n ∈ bkValues, n < 10 ^ 3) ∧
      (∀ n ∈ stageValues, n < 10 ^ 3) ∧ (∀ n ∈ cwgValues, 0 < n ∧ n ≤ 4) ∧
      ∀ n ∈ bsWValues, n < 10 ^ 3 := by decide
  obtain ⟨hbm', hbn', hbk', hstage', hcwg', hbsW'⟩ := hsmall
  obtain ⟨hpos, hfour⟩ := hcwg' _ hcwg
  have hM : t.warpsM ≤ 4 * t.cwg := Nat.le_of_dvd (by omega) (hwarps ▸ Nat.dvd_mul_right _ _)
  have hN : t.warpsN ≤ 4 * t.cwg := Nat.le_of_dvd (by omega) (hwarps ▸ Nat.dvd_mul_left _ _)
  have hnumbers : ∀ n ∈ t.numbers, n < 10 ^ 3 := by
    simp only [numbers, List.forall_mem_cons, List.not_mem_nil, false_implies,
      implies_true, and_true]
    exact ⟨hbm' _ hbm, hbn' _ hbn, hbk' _ hbk,
      hstage' _ hstage, by omega, by omega, by omega, hbsW' _ hbsW⟩
  have hfill := length_fillPattern_le (by decide) literals hnumbers
  have hliterals : (literals.map List.length).sum + 3 * t.numbers.length = 49 := rfl
  rw [configName_eq, List.length_append]
  omega

theorem configName_getLast (t : Params) : ∃ c, t.configName.getLast? = some c ∧
    c.isDigit = true := by
  have hlast :=
    List.getLast?_append_of_ne_nil (t.typeName ++ "_bm".toList ++ decimal t.bm ++ "_bn".toList ++
      decimal t.bn ++
    "_bk".toList ++ decimal t.bk ++ "_s".toList ++ decimal t.stage ++ "_cwg".toList ++
      decimal t.cwg ++ "_wm".toList ++
      decimal t.warpsM ++ "_wn".toList ++ decimal t.warpsN ++ "_bsw".toList) (decimal_ne_nil t.bsW)
  obtain ⟨c, hc⟩ :=
    Option.ne_none_iff_exists'.1 (mt List.getLast?_eq_none_iff.1 (decimal_ne_nil t.bsW))
  exact ⟨c, hlast.trans hc, isDigit_of_mem_decimal (List.mem_of_getLast? hc)⟩

theorem configName_injective (ht : t.Typed) (ht' : t'.Typed) (h : t.configName = t'.configName) :
    t = t' := by
  obtain ⟨hname, hcpp⟩ := Prod.mk.inj (List.mem_singleton.1 ht)
  obtain ⟨hname', hcpp'⟩ := Prod.mk.inj (List.mem_singleton.1 ht')
  rw [configName_eq, configName_eq, hname, hname'] at h
  have hnumbers :=
    fillPattern_injective (separates_of_all (by decide)) rfl rfl (List.append_cancel_left h)
  cases t with
  | mk typeName typeCpp bm bn bk stage cwg warpsM warpsN bsW =>
    cases t' with
    | mk typeName' typeCpp' bm' bn' bk' stage' cwg' warpsM' warpsN' bsW' =>
      simp only [numbers, List.cons.injEq] at hnumbers
      obtain ⟨rfl, rfl, rfl, rfl, rfl, rfl, rfl, rfl, -⟩ := hnumbers
      dsimp only at hname hname' hcpp hcpp'
      rw [hname, hname', hcpp, hcpp']

theorem elements_ident (ht : t.Typed) {l : List Char}
    (hl : l ∈ [t.typeName, t.typeCpp] ++ t.numbers.map decimal ++ [t.configName]) :
    ∀ c ∈ l, isIdentChar c = true := by
  rcases List.mem_append.1 hl with hl | hl
  · rcases List.mem_append.1 hl with hl | hl
    · rcases List.mem_cons.1 hl with rfl | hl
      · exact ht.ident.1
      · rw [List.mem_singleton.1 hl]
        exact ht.ident.2
    · obtain ⟨n, -, rfl⟩ := List.mem_map.1 hl
      intro c hc
      exact isIdentChar_of_isDigit (isDigit_of_mem_decimal hc)
  · rw [List.mem_singleton.1 hl]
    exact configName_ident ht

theorem cmakeList_text (ht : t.Typed) : cmakeList (replaceChar '|' ';' t.text) =
    [t.typeName, t.typeCpp] ++ t.numbers.map decimal ++ [t.configName] := by
  apply cmakeList_replaceChar
  · intro l hl
    exact not_mem_of_ident (elements_ident ht hl) (by decide)
  · intro l hl
    exact not_mem_of_ident (elements_ident ht hl) (by decide)
  · intro h
    have hlen := congrArg List.length h
    rw [List.length_append, List.length_append, List.length_map] at hlen
    cases hlen

theorem listGet_name (t : Params) :
    listGet ([t.typeName, t.typeCpp] ++ t.numbers.map decimal ++ [t.configName]) 10 =
      .ok t.configName := rfl

theorem mem_text (ht : t.Typed) {c : Char} (hc : c ∈ t.text) : c = '|' ∨ isIdentChar c = true := by
  rcases mem_intercalate hc with hc | ⟨l, hl, hc⟩
  · exact .inl (List.mem_singleton.1 hc)
  · exact .inr (elements_ident ht hl c hc)

theorem bar_mem_text (t : Params) : '|' ∈ t.text := by
  have htext : t.text = t.typeName ++ '|' :: ['|'].intercalate
      (t.typeCpp :: (t.numbers.map decimal ++ [t.configName])) := by
    change ['|'].intercalate (t.typeName :: t.typeCpp ::
      (t.numbers.map decimal ++ [t.configName])) = _
    rw [List.intercalate_cons_cons]
    simp only [List.append_assoc, List.singleton_append]
  rw [htext]
  exact List.mem_append_right _ List.mem_cons_self

theorem text_ne (t : Params) : t.text ≠ [] := List.ne_nil_of_mem t.bar_mem_text

end Names

end Params

section Lists

variable {ts : List Params}

theorem cmakeList_texts (hts : ∀ t ∈ ts, t.Typed) :
    cmakeList (cmakeJoin (ts.map Params.text)) = ts.map Params.text := by
  apply cmakeList_cmakeJoin
  · intro l hl hsemi
    obtain ⟨t, ht, rfl⟩ := List.mem_map.1 hl
    rcases Params.mem_text (hts t ht) hsemi with h | h
    · exact absurd h (by decide)
    · exact absurd h (by decide)
  · intro h
    obtain ⟨t, -, ht⟩ := List.mem_map.1 (h ▸ List.mem_singleton.2 rfl : [] ∈ ts.map Params.text)
    exact t.text_ne ht

theorem isOff_texts (hts : ∀ t ∈ ts, t.Typed) :
    isOff (cmakeJoin (ts.map Params.text)) = decide (ts = []) := by
  by_cases hne : ts = []
  · rw [hne]
    rfl
  · rw [decide_eq_false hne]
    have hmem : ∀ c ∈ cmakeJoin (ts.map Params.text), c = ';' ∨ c = '|' ∨ isIdentChar c = true := by
      intro c hc
      rcases mem_intercalate hc with hc | ⟨l, hl, hc⟩
      · exact .inl (List.mem_singleton.1 hc)
      · obtain ⟨t, ht, rfl⟩ := List.mem_map.1 hl
        exact .inr (Params.mem_text (hts t ht) hc)
    have hbar : '|' ∈ cmakeJoin (ts.map Params.text) := by
      obtain ⟨t, ts, rfl⟩ := List.exists_cons_of_ne_nil hne
      cases ts with
      | nil =>
        change '|' ∈ [';'].intercalate [t.text]
        rw [List.intercalate_singleton]
        exact t.bar_mem_text
      | cons t' ts =>
        change '|' ∈ [';'].intercalate (t.text :: t'.text :: ts.map Params.text)
        rw [List.intercalate_cons_cons]
        exact List.mem_append_left _ (List.mem_append_left _ t.bar_mem_text)
    apply isOff_eq_false hbar (by decide) (by decide)
    intro hdash
    rcases hmem '-' hdash with h | h | h <;> exact absurd h (by decide)

theorem foldlM_filterStep (onlyConfig : List Char) (done : List Params) (hts : ∀ t ∈ ts, t.Typed) :
    (ts.map Params.text).foldlM (filterStep onlyConfig) (cmakeJoin (done.map Params.text)) =
      .ok (cmakeJoin ((done ++ ts.filter fun t ↦ t.configName = onlyConfig).map Params.text)) := by
  induction ts generalizing done with
  | nil =>
    rw [List.filter_nil, List.append_nil]
    rfl
  | cons t ts ih =>
    have htail : ∀ t ∈ ts, t.Typed := fun t ht ↦ hts t (List.mem_cons_of_mem _ ht)
    have hstep : filterStep onlyConfig (cmakeJoin (done.map Params.text)) t.text =
        .ok (cmakeJoin ((done ++ [t].filter fun t ↦ t.configName = onlyConfig).map
          Params.text)) := by
      rw [filterStep, Params.cmakeList_text (hts t List.mem_cons_self),
        Params.listGet_name, ok_bind]
      by_cases h : t.configName = onlyConfig
      · rw [if_pos h, List.filter_cons, if_pos (decide_eq_true h), List.filter_nil,
          cmakeAppend_cmakeJoin, List.map_append, List.map_singleton]
        · rfl
        · intro l hl
          obtain ⟨t, -, rfl⟩ := List.mem_map.1 hl
          exact t.text_ne
      · rw [if_neg h, List.filter_cons, if_neg (by simp [h]), List.filter_nil, List.append_nil]
        rfl
    have hsplit : (t :: ts).filter (fun t ↦ t.configName = onlyConfig) =
        [t].filter (fun t ↦ t.configName = onlyConfig) ++ ts.filter fun t ↦
        t.configName = onlyConfig := by
      rw [← List.filter_append, List.singleton_append]
    have hfold : ((t :: ts).map Params.text).foldlM (filterStep onlyConfig)
        (cmakeJoin (done.map Params.text)) =
        (ts.map Params.text).foldlM (filterStep onlyConfig)
          (cmakeJoin ((done ++ [t].filter fun t ↦ t.configName = onlyConfig).map Params.text)) := by
      rw [List.map_cons, List.foldlM_cons, hstep, ok_bind]
    rw [hfold, ih _ htail, List.append_assoc, hsplit]

theorem selectConfigs_texts (onlyConfig : List Char) (hts : ∀ t ∈ ts, t.Typed) :
    selectConfigs onlyConfig (cmakeJoin (ts.map Params.text)) =
      if isOff onlyConfig then .ok (cmakeJoin (ts.map Params.text))
      else if ts.filter (fun t ↦ t.configName = onlyConfig) = [] then
        .error (.notGenerated onlyConfig)
      else .ok (cmakeJoin ((ts.filter fun t ↦ t.configName = onlyConfig).map Params.text)) := by
  unfold selectConfigs
  split_ifs with hoff hnone
  · rfl
  · have hfold := foldlM_filterStep onlyConfig [] hts
    rw [hnone] at hfold
    have hnil : (cmakeJoin (([] : List Params).map Params.text)) = [] := rfl
    rw [hnil] at hfold
    rw [cmakeList_texts hts, hfold, ok_bind]
    rfl
  · have hfold := foldlM_filterStep onlyConfig [] hts
    have hnil : (cmakeJoin (([] : List Params).map Params.text)) = [] := rfl
    have hkept : ∀ t ∈ ts.filter (fun t ↦ t.configName = onlyConfig), t.Typed :=
      fun t ht ↦ hts t (List.mem_filter.1 ht).1
    have htrue := isOff_texts hkept
    rw [decide_eq_false hnone] at htrue
    rw [hnil, List.nil_append] at hfold
    rw [cmakeList_texts hts, hfold, ok_bind, htrue, if_neg (by simp)]
    rfl

theorem configure_text {t : Params} (ht : t.Typed) (maxSmemKb : ℕ) :
    configure (decimal (maxSmemKb * 1024)) t.text = .ok (t.instantiated maxSmemKb) := by
  rw [configure, Params.cmakeList_text ht]
  change Except.ok ((⟨⟨t.configName, intLiteral (decimal t.bm), intLiteral (decimal t.bn),
    intLiteral (decimal t.bk)⟩, _, _,
    _, _, _, _, _⟩, _) : Row × KernelSource) = _
  simp only [intLiteral_decimal]
  rfl

theorem mapM_configure (hts : ∀ t ∈ ts, t.Typed) (maxSmemKb : ℕ) :
    (ts.map Params.text).mapM (configure (decimal (maxSmemKb * 1024))) =
      .ok (ts.map (Params.instantiated maxSmemKb)) := by
  induction ts with
  | nil => rfl
  | cons t ts ih =>
    rw [List.map_cons, List.mapM_cons, configure_text (hts t List.mem_cons_self),
      ih fun t ht ↦ hts t (List.mem_cons_of_mem _ ht)]
    rfl

end Lists

section Closed

variable {maxSmemKb : ℕ} {onlyConfig : List Char}

theorem typed_of_mem {t : Params} (ht : t ∈ generateConfigs maxSmemKb) :
    t.Typed := (mem_generateConfigs.1 ht).1

theorem mem_requested {t : Params} : t ∈ requested maxSmemKb onlyConfig ↔
    t ∈ generateConfigs maxSmemKb ∧ (isOff onlyConfig = true ∨ t.configName = onlyConfig) := by
  unfold requested
  split_ifs with h
  · exact (and_iff_left (.inl h)).symm
  · rw [List.mem_filter, decide_eq_true_iff, or_iff_right h]

theorem requested_nodup : (requested maxSmemKb onlyConfig).Nodup := by
  unfold requested
  split_ifs
  · exact generateConfigs_nodup maxSmemKb
  · exact (generateConfigs_nodup maxSmemKb).filter _

/-- `cmake` builds what is requested, and stops when there is nothing to build. -/
theorem build_eq (maxSmemKb : ℕ) (onlyConfig : List Char) : build maxSmemKb onlyConfig =
    if maxSmemKb < 41 then .error (.generator 1)
    else if requested maxSmemKb onlyConfig = [] then .error (.notGenerated onlyConfig)
    else .ok ((requested maxSmemKb onlyConfig).map (Params.instantiated maxSmemKb)) := by
  have htyped : ∀ t ∈ requested maxSmemKb onlyConfig, t.Typed :=
    fun t ht ↦ typed_of_mem (mem_requested.1 ht).1
  by_cases hsmall : maxSmemKb < 41
  · rw [build, generate, if_pos (generateConfigs_eq_nil.2 hsmall), if_pos hsmall]
    rfl
  · have hne : generateConfigs maxSmemKb ≠ [] := mt generateConfigs_eq_nil.1 hsmall
    rw [build, generate, if_neg hne, if_neg hsmall, ok_bind,
      selectConfigs_texts onlyConfig fun t ↦ typed_of_mem]
    by_cases hoff : isOff onlyConfig = true
    · have hreq : requested maxSmemKb onlyConfig = generateConfigs maxSmemKb := if_pos hoff
      rw [if_pos hoff, ok_bind, hreq, if_neg hne, cmakeList_texts fun t ↦ typed_of_mem,
        mapM_configure fun t ↦ typed_of_mem]
    · have hreq : requested maxSmemKb onlyConfig =
          (generateConfigs maxSmemKb).filter fun t ↦ t.configName = onlyConfig := if_neg hoff
      rw [if_neg hoff, ← hreq]
      by_cases hnone : requested maxSmemKb onlyConfig = []
      · rw [if_pos hnone, if_pos hnone]
        rfl
      · rw [if_neg hnone, if_neg hnone, ok_bind, cmakeList_texts htyped, mapM_configure htyped]

end Closed

namespace Params

variable {t : Params} {maxSmemKb : ℕ}

def config (t : Params) (h : t.isValid (maxSmemKb * 1024) = true) : Config maxSmemKb where
  bm := t.bm
  bn := t.bn
  bk := t.bk
  stage := t.stage
  cwg := t.cwg
  warpsM := t.warpsM
  warpsN := t.warpsN
  bsW := t.bsW
  valid := h

/-- What the generator accepts passes the assertions of its kernel, as long as the limit is an
int. -/
theorem staticAsserts (ht : t ∈ generateConfigs maxSmemKb) (hint : maxSmemKb * 1024 < 2 ^ 31) :
    ∀ a ∈ (t.instantiated maxSmemKb).2.staticAsserts, a = true := by
  obtain ⟨htype, hbm, hbn, hbk, hstage, hcwg, hbsW, hvalid⟩ := mem_generateConfigs.1 ht
  obtain ⟨-, hcpp⟩ := Prod.mk.inj (List.mem_singleton.1 htype)
  simp only [isValid, isValidConfig, Bool.if_false_left, Bool.and_true, Bool.and_eq_true,
    Bool.not_eq_true', decide_eq_false_iff_not, not_or, not_not, Nat.not_le, Nat.not_lt] at hvalid
  obtain ⟨hpos, -, hwpos, hmod, hwarps, -, hpart, hthreads, hmax, haccum, hsmem⟩ := hvalid
  simp only [stageValues, List.mem_cons, List.not_mem_nil, or_false] at hstage
  simp only [cwgValues, List.mem_cons, List.not_mem_nil, or_false] at hcwg
  simp only [bsWValues, List.mem_cons, List.not_mem_nil, or_false] at hbsW
  have hlimit : (Int32.ofNat (maxSmemKb * 1024)).toInt = (maxSmemKb * 1024 : ℕ) :=
    Int32.toInt_ofNat_of_lt hint
  have hbytes : ((t.instantiated maxSmemKb).2.smemBytes : ℤ) ≤
      (Int32.ofNat (maxSmemKb * 1024)).toInt := by
    rw [hlimit]
    exact_mod_cast hsmem
  have hcwg' : t.cwg = 1 ∨ t.cwg = 2 ∨ t.cwg = 3 ∨ t.cwg = 4 := by omega
  have hbsW' : t.bsW = 1 ∨ t.bsW = 2 ∨ t.bsW = 4 ∨ t.bsW = 8 ∨ t.bsW = 16 := by omega
  simp only [KernelSource.staticAsserts, List.forall_mem_cons]
  exact ⟨decide_eq_true (.inl hcpp), decide_eq_true hpos, decide_eq_true hstage,
    decide_eq_true ⟨hwpos.1, hwpos.2.1⟩,
    decide_eq_true hwpos.2.2, decide_eq_true hstage, decide_eq_true hcwg', decide_eq_true hmod,
    decide_eq_true hwarps,
    decide_eq_true hpart, decide_eq_true hthreads, decide_eq_true hmax, decide_eq_true haccum,
    decide_eq_true hbytes, decide_eq_true hbsW', List.forall_mem_nil _⟩

theorem configName_ne_alias (ht : t.Typed) (s : List Char) : t.configName ≠ aliasPrefix ++ s := by
  obtain ⟨hname, -⟩ := Prod.mk.inj (List.mem_singleton.1 ht)
  rw [configName_eq, hname]
  intro h
  have hhead : some 'b' = some 'g' := congrArg List.head? h
  exact absurd hhead (by decide)

theorem resolves_iff {t' : Params} (ht : t.Typed) (ht' : t'.Typed) {query : List Char}
    (hq : query = t.configName ∨ query = aliasPrefix ++ t.configName) :
    Resolves query t'.configName ↔ t' = t := by
  obtain ⟨c, hc, hdigit⟩ := t.configName_getLast
  have hlast : query.getLast? = some c := by
    rcases hq with hq | hq
    · rw [hq]
      exact hc
    · rw [hq, List.getLast?_append_of_ne_nil _ (List.ne_nil_of_mem (List.mem_of_getLast? hc))]
      exact hc
  have hstar : c ≠ '*' := by
    rintro rfl
    cases hdigit
  constructor
  · intro hres
    rcases hres with ⟨pre, rfl, -⟩ | ⟨-, hres⟩
    · rw [List.getLast?_concat] at hlast
      exact absurd (Option.some.inj hlast).symm hstar
    · rcases hq with hq | hq
      · rw [hq] at hres
        exact hres.elim (fun h ↦ configName_injective ht' ht h.symm) fun h ↦
          absurd h (configName_ne_alias ht _)
      · rw [hq] at hres
        exact hres.elim (fun h ↦ absurd h.symm (configName_ne_alias ht' _))
          fun h ↦ configName_injective ht' ht (List.append_cancel_left h).symm
  · rintro rfl
    refine .inr ⟨?_, hq⟩
    rw [hlast]
    exact fun h ↦ hstar (Option.some.inj h)

end Params

theorem Config.storage_bounds {maxSmemKb : ℕ} (c : Config maxSmemKb) :
    smemBytes c.bm c.bn c.bk c.stage < c.traits.sharedStorage.size ∧
      c.traits.sharedStorage.size ≤ maxSmemKb * 1024 := by
  have hcount : smemBytes c.bm c.bn c.bk c.stage = c.traits.arrayBytes + 16 * c.traits.stage :=
    c.traits.smemBytes_eq
  have hstage := c.traits.stage_eq
  obtain ⟨-, -, -, -, -, -, hle⟩ := isValidConfig_spec c.valid
  obtain ⟨k, hk⟩ := c.traits.dvd_arrayBytes
  rw [Traits.sharedStorage_size, hcount]
  omega

structure Linked (maxSmemKb : ℕ) (built : List (Row × KernelSource)) : Prop where
  names : (built.map fun b ↦ b.1.name).Nodup
  files : (built.map fun b ↦ b.2.file).Nodup
  instances : (built.map fun b ↦ b.2.inst).Nodup
  run : ∀ b ∈ built, b.1.run = b.2.inst
  fields : ∀ b ∈ built, b.1.run = ⟨b.1.run.T, b.1.bm, b.1.bn, b.1.bk, b.1.stage, b.1.cwg,
    b.1.warpsM, b.1.warpsN, b.1.bsW⟩
  asserts : maxSmemKb * 1024 < 2 ^ 31 → ∀ b ∈ built, ∀ a ∈ b.2.staticAsserts, a = true
  /-- the row counts the bytes that the kernel asserts, less than it requests, which is within the
  limit -/
  smem : ∀ b ∈ built, b.1.smemBytes = b.2.smemBytes ∧ ∃ c : Config maxSmemKb,
    (c.bm, c.bn, c.bk, c.stage, c.cwg, c.warpsM, c.warpsN, c.bsW) =
        (b.1.bm, b.1.bn, b.1.bk, b.1.stage, b.1.cwg, b.1.warpsM, b.1.warpsN, b.1.bsW) ∧
      b.1.smemBytes < c.traits.sharedStorage.size ∧ c.traits.sharedStorage.size ≤ maxSmemKb * 1024
  found : ∀ (i : ℕ) b, built[i]? = some b → ∀ query, query = b.1.name ∨
    query = aliasPrefix ++ b.1.name →
    findConfig (built.map fun b ↦ b.1.toGemmConfig) query = (some i, none)

section Linked

variable {maxSmemKb : ℕ} {onlyConfig : List Char} {ts : List Params}

theorem configName_of_inst {t t' : Params} (ht : t.Typed) (ht' : t'.Typed) (h : t.inst = t'.inst) :
    t.configName = t'.configName := by
  obtain ⟨hname, -⟩ := Prod.mk.inj (List.mem_singleton.1 ht)
  obtain ⟨hname', -⟩ := Prod.mk.inj (List.mem_singleton.1 ht')
  obtain ⟨hcpp, hbm, hbn, hbk, hstage, hcwg, hM, hN, hbsW⟩ := Instance.mk.inj h
  have hnumbers : t.numbers = t'.numbers := by
    rw [Params.numbers, Params.numbers, hbm, hbn, hbk, hstage, hcwg, hM, hN, hbsW]
  rw [Params.configName_eq, Params.configName_eq, hname, hname', hnumbers]

/-- The registry finds an entry by its name, since no other name is resolved. -/
theorem findConfig_map (hts : ts.Nodup) (htyped : ∀ t ∈ ts, t.Typed) {i : ℕ} {t : Params}
    (ht : ts[i]? = some t) {query : List Char}
    (hq : query = t.configName ∨ query = aliasPrefix ++ t.configName) :
    findConfig ((ts.map (Params.instantiated maxSmemKb)).map fun b ↦ b.1.toGemmConfig) query =
      (some i, none) := by
  have htyped' := htyped t (List.mem_of_getElem? ht)
  have hhits :
      hits query 0 ((ts.map (Params.instantiated maxSmemKb)).map fun b ↦ b.1.toGemmConfig) =
      [((t.instantiated maxSmemKb).1.toGemmConfig, i)] := by
    apply hits_eq_singleton
    · refine mem_hits.2 ⟨?_, (Params.resolves_iff htyped' htyped' hq).2 rfl⟩
      rw [List.getElem?_map, List.getElem?_map, ht]
      rfl
    · rintro ⟨c, j⟩ hx
      obtain ⟨hc, hres⟩ := mem_hits.1 hx
      rw [List.getElem?_map, List.getElem?_map, Option.map_map, Option.map_eq_some_iff] at hc
      obtain ⟨t', ht', rfl⟩ := hc
      obtain rfl := (Params.resolves_iff htyped' (htyped t' (List.mem_of_getElem? ht')) hq).1 hres
      exact (List.getElem?_inj (List.getElem?_eq_some_iff.1 ht').1 hts).1 (ht'.trans ht.symm)
  rw [findConfig_eq, hhits]
  rfl

theorem linked_map (hts : ts.Nodup) (hmem : ∀ t ∈ ts, t ∈ generateConfigs maxSmemKb) :
    Linked maxSmemKb (ts.map (Params.instantiated maxSmemKb)) := by
  have htyped : ∀ t ∈ ts, t.Typed := fun t ht ↦ typed_of_mem (hmem t ht)
  have hinj : ∀ t ∈ ts, ∀ t' ∈ ts, t.configName = t'.configName → t = t' := fun t ht t' ht' ↦
    Params.configName_injective (htyped t ht) (htyped t' ht')
  constructor
  · rw [List.map_map]
    exact hts.map_on fun t ht t' ht' ↦ hinj t ht t' ht'
  · rw [List.map_map]
    refine hts.map_on fun t ht t' ht' h ↦ hinj t ht t' ht' ?_
    exact List.append_cancel_left (List.append_cancel_right h)
  · rw [List.map_map]
    refine hts.map_on fun t ht t' ht' h ↦ hinj t ht t' ht' ?_
    exact configName_of_inst (htyped t ht) (htyped t' ht') h
  · intro b hb
    obtain ⟨t, -, rfl⟩ := List.mem_map.1 hb
    rfl
  · intro b hb
    obtain ⟨t, -, rfl⟩ := List.mem_map.1 hb
    rfl
  · intro hint b hb
    obtain ⟨t, ht, rfl⟩ := List.mem_map.1 hb
    exact Params.staticAsserts (hmem t ht) hint
  · intro b hb
    obtain ⟨t, ht, rfl⟩ := List.mem_map.1 hb
    obtain ⟨-, -, -, -, -, -, -, hvalid⟩ := mem_generateConfigs.1 (hmem t ht)
    exact ⟨rfl, t.config hvalid, rfl, (t.config hvalid).storage_bounds⟩
  · intro i b hb query hq
    rw [List.getElem?_map, Option.map_eq_some_iff] at hb
    obtain ⟨t, ht, rfl⟩ := hb
    exact findConfig_map hts htyped ht hq

theorem eq_of_build {built : List (Row × KernelSource)}
    (h : build maxSmemKb onlyConfig = .ok built) :
    built = (requested maxSmemKb onlyConfig).map (Params.instantiated maxSmemKb) := by
  rw [build_eq] at h
  split_ifs at h
  exact (Except.ok.inj h).symm

theorem linked_of_build {built : List (Row × KernelSource)}
    (h : build maxSmemKb onlyConfig = .ok built) : Linked maxSmemKb built := by
  rw [eq_of_build h]
  exact linked_map requested_nodup fun t ht ↦ (mem_requested.1 ht).1

end Linked

structure BuildExact (maxSmemKb : ℕ) (onlyConfig : List Char) : Prop where
  listed : ∀ t, t ∈ generateConfigs maxSmemKb ↔
    t.Typed ∧ t.bm ∈ bmValues ∧ t.bn ∈ bnValues ∧ t.bk ∈ bkValues ∧ t.stage ∈ stageValues ∧
    t.cwg ∈ cwgValues ∧ t.bsW ∈ bsWValues ∧ t.isValid (maxSmemKb * 1024) = true
  nodup : (generateConfigs maxSmemKb).Nodup
  small : maxSmemKb < 41 → build maxSmemKb onlyConfig = .error (.generator 1)
  all : 41 ≤ maxSmemKb → isOff onlyConfig = true →
    build maxSmemKb onlyConfig =
      .ok ((generateConfigs maxSmemKb).map (Params.instantiated maxSmemKb))
  single : ∀ t ∈ generateConfigs maxSmemKb, t.configName = onlyConfig →
    build maxSmemKb onlyConfig = .ok [t.instantiated maxSmemKb]
  unknown : 41 ≤ maxSmemKb → isOff onlyConfig = false →
    (∀ t ∈ generateConfigs maxSmemKb, t.configName ≠ onlyConfig) →
      build maxSmemKb onlyConfig = .error (.notGenerated onlyConfig)
  linked : ∀ built, build maxSmemKb onlyConfig = .ok built → Linked maxSmemKb built

section Exact

variable {maxSmemKb : ℕ} {onlyConfig : List Char}

theorem isOff_configName {t : Params} (ht : t.Typed) : isOff t.configName = false := by
  refine isOff_eq_false (c := '_') ?_ (by decide) (by decide) ?_
  · rw [Params.configName_eq]
    exact List.mem_append_right _ List.mem_cons_self
  · exact not_mem_of_ident (Params.configName_ident ht) (by decide)

theorem requested_single {t : Params} (ht : t ∈ generateConfigs maxSmemKb) :
    requested maxSmemKb t.configName = [t] := by
  have honly : ∀ t' ∈ requested maxSmemKb t.configName, t' = t := by
    intro t' ht'
    obtain ⟨hmem, hname⟩ := mem_requested.1 ht'
    rw [isOff_configName (typed_of_mem ht)] at hname
    exact Params.configName_injective (typed_of_mem hmem) (typed_of_mem ht)
      (hname.resolve_left (by simp))
  have hmem : t ∈ requested maxSmemKb t.configName := mem_requested.2 ⟨ht, .inr rfl⟩
  have hiff : ∀ t', t' ∈ requested maxSmemKb t.configName ↔ t' ∈ [t] := by
    intro t'
    rw [List.mem_singleton]
    constructor
    · exact honly t'
    · intro h
      rw [h]
      exact hmem
  exact List.perm_singleton.1
    ((List.perm_ext_iff_of_nodup requested_nodup (List.nodup_singleton t)).2 hiff)

/-- **The build instantiates what was asked for, and its registry finds every kernel by its
name.** -/
theorem build_exact (maxSmemKb : ℕ) (onlyConfig : List Char) : BuildExact maxSmemKb onlyConfig where
  listed _ := mem_generateConfigs
  nodup := generateConfigs_nodup maxSmemKb
  small h := by rw [build_eq, if_pos h]
  all h hoff := by
    have hreq : requested maxSmemKb onlyConfig = generateConfigs maxSmemKb := if_pos hoff
    rw [build_eq, if_neg (Nat.not_lt.2 h), hreq,
      if_neg fun hnil ↦ Nat.not_lt.2 h (generateConfigs_eq_nil.1 hnil)]
  single t ht hname := by
    have hsmall : ¬ maxSmemKb < 41 := by
      intro h
      rw [generateConfigs_eq_nil.2 h] at ht
      cases ht
    rw [build_eq, if_neg hsmall, ← hname, requested_single ht, if_neg (List.cons_ne_nil _ _),
      List.map_singleton]
  unknown h hoff hnone := by
    have hreq : requested maxSmemKb onlyConfig = [] := by
      apply List.eq_nil_iff_forall_not_mem.2
      intro t ht
      obtain ⟨hmem, hname⟩ := mem_requested.1 ht
      rw [hoff] at hname
      exact hnone t hmem (hname.resolve_left (by simp))
    rw [build_eq, if_neg (Nat.not_lt.2 h), if_pos hreq]
  linked _ h := linked_of_build h

end Exact

end Sm120.Gemm
