import Sm120.Flash.Correct
import Sm120.Flash.Dispatch

set_option linter.unusedSectionVars false

namespace Sm120.Flash

open Lib

namespace Module

variable {P : Type} [DecidableEq P] {w : Wrapper P} {D : DigitTable} (M : Module w D)

section Requests

theorem makeConfig_injective : Function.Injective w.makeConfig := by
  intro t t' h
  exact Generator.configName_injective (g := w.toGenerator) (congrArg Entry.name h)

theorem tuples_eq {ts : List P} (h : M.entries = ts.map w.makeConfig) : M.tuples = ts := by
  rw [M.spec.2.1] at h
  exact (List.map_injective_iff.2 makeConfig_injective) h

theorem mem_tuples_default (h : M.onlyConfigs = []) {t : P} :
    t ∈ M.tuples ↔ t ∈ w.candidates ∧ w.isValidConfig t (M.maxSmemKb * 1024) = true := by
  have hgen := M.generated
  rw [h, Generator.generateConfigs, if_neg (by simp), Except.ok.injEq] at hgen
  rw [M.tuples_eq hgen.symm, List.mem_filter]

theorem mem_tuples_requested (h : M.onlyConfigs ≠ []) {t : P} :
    t ∈ M.tuples ↔ ∃ name ∈ M.onlyConfigs, w.Spells D name t := by
  obtain ⟨ts, hts, -, heq⟩ := (Generator.generateConfigs_listed h M.generated).tuples
  rw [M.tuples_eq heq, List.mem_eraseDups]
  constructor
  · intro ht
    obtain ⟨i, hi, rfl⟩ := List.mem_iff_getElem.1 ht
    have hi' : i < M.onlyConfigs.length := by rwa [hts.length_eq]
    exact ⟨M.onlyConfigs[i], List.getElem_mem hi', List.forall₂_iff_get.1 hts |>.2 i hi' hi⟩
  · intro ⟨name, hname, hspells⟩
    obtain ⟨i, hi, rfl⟩ := List.mem_iff_getElem.1 hname
    have hi' : i < ts.length := by rwa [← hts.length_eq]
    have hget := (List.forall₂_iff_get.1 hts).2 i hi hi'
    rw [hspells.unique hget]
    exact List.getElem_mem hi'

end Requests

section Default

def defaultTuple : Option P :=
  (M.tuples.find? fun t ↦ w.configName t = w.defaultName).or M.tuples.head?

theorem find_makeConfig (ts : List P) (name : List Char) :
    ((ts.map w.makeConfig).find? fun cfg ↦ cfg.name = name).or (ts.map w.makeConfig).head? =
      ((ts.find? fun t ↦ w.configName t = name).or ts.head?).map w.makeConfig := by
  rw [List.find?_map, List.head?_map, Option.map_or]
  rfl

theorem defaultConfigName_eq : ∃ t₀, M.defaultTuple = some t₀ ∧
    M.defaultConfigName = w.configName t₀ := by
  have h := M.default_eq
  rw [M.spec.2.1, find_makeConfig] at h
  obtain ⟨cfg, hcfg, hname⟩ := Option.bind_eq_some_iff.1 h
  obtain ⟨t₀, ht₀, rfl⟩ := Option.map_eq_some_iff.1 hcfg
  refine ⟨t₀, ht₀, ?_⟩
  rw [Variant.cmakeList_text, w.default_get t₀,
    List.getElem?_append_right (by rw [List.length_map]), List.length_map, Nat.sub_self] at hname
  exact (Option.some.inj hname).symm

def choice (headDim : ℕ) : Option P := M.defaultTuple.bind fun t₀ ↦
  ((w.preferred t₀ headDim).find? fun t ↦ t ∈ M.tuples ∧ w.headDim t = headDim).or
    (M.tuples.find? fun t ↦ w.headDim t = headDim)

theorem defaultConfig_eq {h : Int64} (h0 : 0 ≤ h.toInt) :
    w.defaultConfig M.table M.defaultConfigName h = w.rowOrError h (M.choice h.toInt.toNat) := by
  obtain ⟨t₀, ht₀, hname⟩ := M.defaultConfigName_eq
  rw [M.table_eq, hname, w.default_choice M.tuples t₀ h h0 fun t ↦ M.headDim_lt, choice, ht₀,
    Option.bind_some]

theorem choice_spec {d : ℕ} {t : P} (h : M.choice d = some t) : t ∈ M.tuples ∧ w.headDim t = d := by
  obtain ⟨t₀, -, hc⟩ := Option.bind_eq_some_iff.1 h
  rcases Option.or_eq_some_iff.1 hc with hp | ⟨-, hf⟩
  · exact (find_holds hp).2
  · exact find_holds hf

theorem choice_isSome {t : P} (ht : t ∈ M.tuples) : (M.choice (w.headDim t)).isSome = true := by
  obtain ⟨t₀, ht₀, -⟩ := M.defaultConfigName_eq
  have hfind : (M.tuples.find? fun t' ↦ w.headDim t' = w.headDim t).isSome = true :=
    List.find?_isSome.2 ⟨t, ht, decide_eq_true rfl⟩
  rw [choice, ht₀, Option.bind_some, Option.isSome_or, hfind, Bool.or_true]

theorem choice_preferred {d : ℕ} {t₀ t : P} (h₀ : M.defaultTuple = some t₀)
    (h : ((w.preferred t₀ d).find? fun t ↦ t ∈ M.tuples ∧ w.headDim t = d) = some t) :
    M.choice d = some t := by
  rw [choice, h₀, Option.bind_some, h, Option.some_or]

end Default

section Serving

variable {status : LaunchStatus} {q k v : InputTensor} {causal : Bool}

theorem fwd_choice {t : P} (h : Compatible q k v) (ht : M.choice (q.size 3).toInt.toNat = some t) :
    M.fwd status q k v causal = M.fwdConfig status (w.configName t) q k v causal := by
  have hrow : findConfig M.table (w.configName t) = some (w.row t) :=
    M.findConfig_row.2 ⟨t, (M.choice_spec ht).1, rfl, rfl⟩
  have hok := guards_ok.2 (checkInputs_iff.2 h)
  rw [fwd, fwdConfig, hok, M.defaultConfig_eq (q.size_nonneg 3), ht, hrow]
  rfl

theorem fwd_none (h : Compatible q k v) (hc : M.choice (q.size 3).toInt.toNat = none) :
    M.fwd status q k v causal =
      .error s!"no flash_fwd config was built for head_dim={q.size 3}" := by
  have hok := guards_ok.2 (checkInputs_iff.2 h)
  rw [fwd, hok, M.defaultConfig_eq (q.size_nonneg 3), hc]
  rfl

theorem fwd_incompatible {out : Output} (h : ¬ Compatible q k v) :
    M.fwd status q k v causal ≠ .ok out := by
  intro hf
  rw [fwd, guards_bind_ok, checkInputs_iff] at hf
  exact h hf.1

end Serving

section Calls

def grid {t : P} (ht : t ∈ M.tuples) : WarpGrid := w.grid t (M.maxSmemKb * 1024) (M.spec.2.2.2 t ht)

variable {t : P} {q : InputTensor}

/-- The instance of `run_fixed_shape` that an accepted problem reaches. -/
def fixedShape (ht : t ∈ M.tuples) (h : w.Accepts t q) : FixedShape (M.grid ht) where
  kHeadNum := (q.size 2).toInt.toNat
  kHeadNum_mem := h.headNum
  kHeadDim_pos := by
    rw [grid, (w.grid_eq _ _ _).1]
    exact (w.valid_pos t _ (M.spec.2.2.2 t ht)).1
  kHeadDim_lt := by
    rw [grid, (w.grid_eq _ _ _).1]
    exact M.headDim_lt ht
  kBlockM_lt := by
    rw [grid, (w.grid_eq _ _ _).2.1]
    exact M.blockM_lt ht
  kBlockN_lt := by
    rw [grid, (w.grid_eq _ _ _).2.2]
    exact M.blockN_lt ht

theorem checkRuntimeShape_grid (ht : t ∈ M.tuples) (h : w.Accepts t q) :
    guards (checkRuntimeShape (M.grid ht).kBlockM (M.grid ht).kBlockN (q.size 0) (q.size 1)) =
      .ok () := by
  have hM : (M.grid ht).kBlockM = w.blockM t := (w.grid_eq _ _ _).2.1
  have hN : (M.grid ht).kBlockN = w.blockN t := (w.grid_eq _ _ _).2.2
  rw [hM, hN, checkRuntimeShape_ok (M.blockM_lt ht) (M.blockN_lt ht)]
  exact ⟨h.seqLen_pos, h.blockM_dvd, h.blockN_dvd, h.batch_pos⟩

def call (ht : t ∈ M.tuples) (h : w.Accepts t q) (causal : Bool) (smNum : Int32)
    (hs : 0 < smNum.toInt) : Call (M.fixedShape ht h) where
  batch := q.size 0
  seqLen := q.size 1
  causal := causal
  smNum := smNum
  accepted := M.checkRuntimeShape_grid ht h
  smNum_pos := hs

end Calls

section Single

theorem generateConfigs_single {t : P} {maxSmemKb : ℕ}
    (h : w.isValidConfig t (maxSmemKb * 1024) = true) :
    w.generateConfigs D maxSmemKb [w.configName t] = .ok [w.makeConfig t] := by
  rw [Generator.generateConfigs, if_pos (by simp), Generator.namedConfigs,
    Generator.parseConfigName_configName h]
  rfl

theorem single_default (t : P) :
    (([w.makeConfig t].find? fun cfg ↦ cfg.name = w.defaultName).or [w.makeConfig t].head?).bind
      (fun cfg ↦ (cmakeList (replaceChar '|' ';' cfg.text))[w.defaultGet]?) =
        some (w.configName t) := by
  have hor : (([w.makeConfig t].find? fun cfg ↦ cfg.name = w.defaultName).or
      [w.makeConfig t].head?) = some (w.makeConfig t) := by
    rw [List.find?_singleton]
    split_ifs <;> rfl
  rw [hor, Option.bind_some, Variant.cmakeList_text, w.default_get t, List.getElem?_append_right,
    List.length_map, Nat.sub_self]
  · rfl
  · rw [List.length_map]

def single (w : Wrapper P) (D : DigitTable) (t : P) (maxSmemKb : ℕ)
    (valid : w.isValidConfig t (maxSmemKb * 1024) = true) (fits : ∀ n ∈ w.numbers t, n < 2 ^ 31) :
    Module w D where
  maxSmemKb := maxSmemKb
  onlyConfigs := [w.configName t]
  entries := [w.makeConfig t]
  built := [w.instantiated t]
  defaultConfigName := w.configName t
  generated := generateConfigs_single valid
  nonempty := List.cons_ne_nil _ _
  build_eq := Variant.build_eq [t]
  default_eq := single_default t
  compiled := by
    intro b hb
    rw [List.mem_singleton.1 hb]
    exact fits

end Single

/-- A module serves the problems of the kernels that were asked for, by the name of the kernel or
through the choice for the head dimension, and no others. -/
structure Serves : Prop where
  requested : M.onlyConfigs ≠ [] → ∀ t, t ∈ M.tuples ↔ ∃ name ∈ M.onlyConfigs, w.Spells D name t
  listed : M.onlyConfigs = [] →
    ∀ t, t ∈ M.tuples ↔ t ∈ w.candidates ∧ w.isValidConfig t (M.maxSmemKb * 1024) = true
  named : ∀ status name q k v causal out, M.fwdConfig status name q k v causal = .ok out ↔
    Compatible q k v ∧ ∃ t ∈ M.tuples, name = w.configName t ∧ w.Accepts t q ∧
      status (w.launch t q causal) = none ∧ out = ⟨q.sizes, w.launch t q causal⟩
  chosen : ∀ status q k v causal t, Compatible q k v → M.choice (q.size 3).toInt.toNat = some t →
    t ∈ M.tuples ∧ (q.size 3).toInt = w.headDim t ∧
      M.fwd status q k v causal = M.fwdConfig status (w.configName t) q k v causal
  /-- there is a choice for every head dimension that was built -/
  choice : ∀ t ∈ M.tuples, (M.choice (w.headDim t)).isSome = true
  /-- a preferred tuple that was built is chosen, unless one before it was built too -/
  preferred : ∀ headDim t₀ t, M.defaultTuple = some t₀ →
    ((w.preferred t₀ headDim).find? fun t ↦ t ∈ M.tuples ∧ w.headDim t = headDim) = some t →
    M.choice headDim = some t
  missing : ∀ status q k v causal, Compatible q k v →
    (∀ t ∈ M.tuples, (q.size 3).toInt ≠ w.headDim t) →
    M.fwd status q k v causal = .error s!"no flash_fwd config was built for head_dim={q.size 3}"
  incompatible : ∀ status q k v causal out, ¬ Compatible q k v → M.fwd status q k v causal ≠ .ok out
  /-- the kernel is launched with its own constants, on a problem that it is made for -/
  call : ∀ t (ht : t ∈ M.tuples) q (h : w.Accepts t q) causal smNum (hs : 0 < smNum.toInt),
    (w.groups t).take 3 = [(M.grid ht).kHeadDim, (M.grid ht).kBlockM, (M.grid ht).kBlockN] ∧
      w.launch t q causal = ⟨w.groups t, (M.fixedShape ht h).kHeadNum, causal,
        (M.call ht h causal smNum hs).seqLenInt, (M.call ht h causal smNum hs).batchInt⟩

theorem serves : M.Serves where
  requested h _ := M.mem_tuples_requested h
  listed h _ := M.mem_tuples_default h
  named _ _ _ _ _ _ _ := M.fwdConfig_ok
  chosen status q k v causal t h ht := by
    obtain ⟨hmem, hd⟩ := M.choice_spec ht
    refine ⟨hmem, ?_, M.fwd_choice h ht⟩
    rw [hd, Int.toNat_of_nonneg (q.size_nonneg 3)]
  choice _ := M.choice_isSome
  preferred _ _ _ := M.choice_preferred
  missing status q k v causal h hne := by
    apply M.fwd_none h
    cases hc : M.choice (q.size 3).toInt.toNat with
    | none => rfl
    | some t =>
      obtain ⟨hmem, hd⟩ := M.choice_spec hc
      exact absurd (by rw [hd, Int.toNat_of_nonneg (q.size_nonneg 3)]) (hne t hmem)
  incompatible _ _ _ _ _ _ h := M.fwd_incompatible h
  call t ht q h causal smNum hs := by
    obtain ⟨hd, hM, hN⟩ := w.grid_eq t (M.maxSmemKb * 1024) (M.spec.2.2.2 t ht)
    refine ⟨?_, rfl⟩
    rw [w.groups_take, grid, hd, hM, hN]

end Module

namespace MMnNkN

variable {D : DigitTable} {M : Module wrapper D} {status : LaunchStatus} {q k v : InputTensor}
    {causal : Bool}

def builtConfig (M : Module wrapper D) {t : Params} (ht : t ∈ M.tuples) : Config t.headDim :=
  t.config (M.maxSmemKb * 1024) (M.spec.2.2.2 t ht)

/-- The kernel of the module that serves a call computes attention. -/
structure Attends (M : Module wrapper D) (name : List Char) (q : InputTensor) (causal : Bool)
    (out : Output) (smNum : Int32) (t : Params) : Prop where
  mem : t ∈ M.tuples
  accepts : wrapper.Accepts t q
  name_eq : name = t.configName
  out_eq : out = ⟨q.sizes, wrapper.launch t q causal⟩
  /-- in ints that do not wrap -/
  exact : ∀ hs : 0 < smNum.toInt, (M.call mem accepts causal smNum hs).Fits →
    IndexExact (M.call mem accepts causal smNum hs)
  executes : ∀ hs : 0 < smNum.toInt, (M.call mem accepts causal smNum hs).Fits → 1 < t.warpsN →
    ∀ (Q K V : Tensor ℝ) (O : Tensor (Num ℝ)),
    ((builtConfig M mem).call (M.call mem accepts causal smNum hs).launch Q K V).Executes
      (fun a ↦ softmaxAttention (M.call mem accepts causal smNum hs).problem t.headDim Q K V a.1
        a.2.1 a.2.2.1 a.2.2.2) O

/-- **A call by name that goes through runs the kernel that the name spells, which leaves attention
in the tensor that is returned**, where the index arithmetic fits. -/
theorem fwdConfig_attends {name : List Char} {out : Output}
    (h : M.fwdConfig status name q k v causal = .ok out) (smNum : Int32) :
    ∃ t, Attends M name q causal out smNum t := by
  obtain ⟨-, t, ht, hname, haccepts, -, hout⟩ := M.fwdConfig_ok.1 h
  exact ⟨t, ht, haccepts, hname, hout, fun hs ↦ Call.indexExact_of_fits,
    fun hs _ hn Q K V O ↦ (builtConfig M ht).call_executes hn _ Q K V O⟩

def defaultModule : Module wrapper .asciiOnly :=
  .single wrapper .asciiOnly ⟨64, 64, 64, 4, 2, 2⟩ 100 (by decide) (by decide)

def defaultInput : InputTensor where
  device := ⟨.cuda, 0⟩
  scalarType := .half
  isContiguous := true
  sizes := [1, 128, 1, 64]
  sizes_nonneg := by simp

theorem compatible_self : Compatible defaultInput defaultInput defaultInput :=
  ⟨rfl, by decide, by decide, rfl, by decide, by decide⟩

theorem fwdConfig_attends_default :
    ∃ t, Attends defaultModule "hd64_bm64_bn64_wm4_wn2_s2".toList defaultInput true
    ⟨[1, 128, 1, 64], ⟨[64, 64, 64, 4, 2, 2], 1, true, 128, 1⟩⟩ 188 t := by
  have hok : defaultModule.fwdConfig (fun _ ↦ none) "hd64_bm64_bn64_wm4_wn2_s2".toList defaultInput
      defaultInput defaultInput true =
        .ok ⟨[1, 128, 1, 64], ⟨[64, 64, 64, 4, 2, 2], 1, true, 128, 1⟩⟩ := by
    apply defaultModule.fwdConfig_ok.2
    refine ⟨compatible_self, ⟨64, 64, 64, 4, 2, 2⟩, ?_, ?_, ?_, rfl, ?_⟩
    · exact List.mem_singleton.2 rfl
    · decide +kernel
    · constructor <;> decide
    · decide
  exact fwdConfig_attends hok 188

end MMnNkN

/-- **Every module that builds, of either kernel, serves exactly the problems it was built for.** -/
theorem modules_serve (D : DigitTable) :
    (∀ M : Module MMnNkN.wrapper D, M.Serves) ∧ (∀ M : Module MMn1k1.wrapper D, M.Serves) := by
  constructor
  · intro M
    exact M.serves
  · intro M
    exact M.serves

end Sm120.Flash
