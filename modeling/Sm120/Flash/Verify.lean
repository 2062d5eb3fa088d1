import Sm120.Flash.Dispatch

set_option linter.unusedSectionVars false

namespace Sm120.Flash

open Lib

def instantiatedHeadNums : List ℕ := [1, 4, 8, 16, 32, 64, 80]

def causalValues : List Bool := [false, true]

def resourceErrorMarkers : List String :=
  ["out of resources", "too many resources requested", "cudaerrorlaunchoutofresources",
    "invalid configuration argument"]

def isResourceError (message : String) : Bool :=
  resourceErrorMarkers.any fun marker ↦ marker.toList <:+: message.toLower.toList

/-- The name of a configuration, the number of heads and the mask. -/
abbrev TemplateKey := List Char × ℕ × Bool

/-- What a sweep depends on beyond the module; everything may raise. -/
structure Environment where
  inputs : TemplateKey → Except String Unit
  /-- `flash_attn_func` and the synchronization after it -/
  reference : TemplateKey → Except String Unit
  status : LaunchStatus
  /-- `torch.cuda.synchronize` after a launch -/
  synchronize : KernelLaunch → Except String Unit
  /-- `passed` of `compare_tensors`, for the output of a launch and the reference -/
  compareTensors : KernelLaunch → Except String Bool
  emptyCache : TemplateKey → Except String Unit
  isRuntimeError : String → Bool
  /-- the text of the Python exception that an error becomes -/
  str : String → String

/-- The three tensors of `make_inputs` have one shape. -/
def makeInputs (seqLen headDim headNum batch : ℕ) : Except String InputTensor :=
  if h : ∀ n ∈ [batch, seqLen, headNum, headDim], n < 2 ^ 63 then
    .ok {
      device := ⟨.cuda, 0⟩
      scalarType := .half
      isContiguous := true
      sizes := [batch, seqLen, headNum, headDim].map Int64.ofNat
      sizes_nonneg := by
        intro x hx
        obtain ⟨n, hn, rfl⟩ := List.mem_map.1 hx
        rw [Int64.toInt_ofNat_of_lt (h n hn)]
        exact Int.natCast_nonneg n }
  else .error "Overflow when unpacking long"

structure FailedCase where
  config : List Char
  seqLen : ℕ
  headDim : ℕ
  headNum : ℕ
  batch : ℕ
  causal : Bool
  error : List Char
deriving DecidableEq

structure VerifyState where
  ok : Bool
  passedCount : ℕ
  seen : List TemplateKey
  failedCases : List FailedCase

inductive Verdict
  | duplicate (key : TemplateKey)
  | coverage (actual expected : ℕ)
  | raised (error : String)
  | finished (s : VerifyState)

/-- The value that is returned, unless an exception leaves the function. -/
def Verdict.passed : Verdict → Option Bool
  | .finished s => some s.ok
  | .raised _ => none
  | _ => some false

namespace Module

variable {P : Type} [DecidableEq P] {w : Wrapper P} {D : DigitTable} (env : Environment)
    (M : Module w D)

/-- What stands in the `try`. -/
def callAndCompare (name : List Char) (q : InputTensor) (causal : Bool) : Except String Bool := do
  let out ← M.fwdConfig env.status name q q q causal
  env.synchronize out.launch
  env.compareTensors out.launch

/-- The `except` clause, for a problem of `verify_kernel_template_config`. -/
def caught (case : List Char → FailedCase) (failedCases : List FailedCase) :
    Except String Bool → Except String (Bool × List FailedCase)
  | .ok passed => .ok (passed, failedCases)
  | .error e =>
    if !env.isRuntimeError e then .error e
    else if isResourceError (env.str e) then
      .ok (true, failedCases ++ [case (replaceChar '\n' ' ' (env.str e).toList)])
    else .ok (false, failedCases)

def verifyKernelTemplateConfig (config : FlashFwdConfig) (headNum : ℕ) (causal : Bool)
    (failedCases : List FailedCase) : Except String (Bool × List FailedCase) := do
  let seqLen := Nat.lcm config.blockM config.blockN
  let batch := 1
  env.inputs (config.name, headNum, causal)
  let q ← makeInputs seqLen config.headDim headNum batch
  env.reference (config.name, headNum, causal)
  let result ← caught env (⟨config.name, seqLen, config.headDim, headNum, batch, causal, ·⟩)
    failedCases (M.callAndCompare env config.name q causal)
  env.emptyCache (config.name, headNum, causal)
  return result

def templates : List (FlashFwdConfig × ℕ × Bool) :=
  M.table.flatMap fun config ↦ instantiatedHeadNums.flatMap fun headNum ↦
  causalValues.map fun causal ↦
    (config, headNum, causal)

def verifyLoop : VerifyState → List (FlashFwdConfig × ℕ × Bool) → Verdict
  | s, [] => .finished s
  | s, (config, headNum, causal) :: rest =>
    let key := (config.name, headNum, causal)
    if key ∈ s.seen then .duplicate key
    else
      match M.verifyKernelTemplateConfig env config headNum causal s.failedCases with
      | .error e => .raised e
      | .ok (passed, failedCases) =>
        verifyLoop ⟨s.ok && passed, s.passedCount + passed.toNat, s.seen ++ [key], failedCases⟩ rest

def verifyAllKernelTemplates : Verdict :=
  match verifyLoop env M ⟨true, 0, [], []⟩ M.templates with
  | .finished s =>
    let expected := M.table.length * instantiatedHeadNums.length * causalValues.length
    if s.seen.length ≠ expected then .coverage s.seen.length expected else .finished s
  | verdict => verdict

section Templates

/-- The instances of `run_fixed_shape` in a module. -/
def instances : List (P × ℕ × Bool) := M.tuples ×ˢ headNums ×ˢ causalValues

variable (w) in
/-- The launch of an instance on the smallest problem that both block sizes divide. -/
def templateLaunch (x : P × ℕ × Bool) : KernelLaunch :=
  ⟨w.groups x.1, x.2.1, x.2.2, (Int64.ofNat (Nat.lcm (w.blockM x.1) (w.blockN x.1))).toInt32, 1⟩

variable (w) in
def templateKey (x : P × ℕ × Bool) : TemplateKey := (w.configName x.1, x.2.1, x.2.2)

variable (w) in
def templateTried (x : P × ℕ × Bool) : Except String Bool :=
  match env.status (templateLaunch w x) with
  | some text => .error ("flashatten_v3 kernel launch failed: " ++ text)
  | none => do
    env.synchronize (templateLaunch w x)
    env.compareTensors (templateLaunch w x)

variable (w) in
/-- What leaves the sweep at a template, if anything. -/
def templateRaises (x : P × ℕ × Bool) : Except String Unit := do
  env.inputs (templateKey w x)
  env.reference (templateKey w x)
  match templateTried w env x with
  | .ok _ => env.emptyCache (templateKey w x)
  | .error e => if env.isRuntimeError e then env.emptyCache (templateKey w x) else .error e

variable (w) in
def templatePasses (x : P × ℕ × Bool) : Bool :=
  match templateTried w env x with
  | .ok passed => passed
  | .error e => isResourceError (env.str e)

variable (w) in
def templateFailure (x : P × ℕ × Bool) : Option FailedCase :=
  match templateTried w env x with
  | .ok _ => none
  | .error e =>
    if isResourceError (env.str e) then
      some ⟨w.configName x.1, Nat.lcm (w.blockM x.1) (w.blockN x.1), w.headDim x.1, x.2.1, 1, x.2.2,
        replaceChar '\n' ' ' (env.str e).toList⟩
    else none

variable (w) in
/-- How a sweep over `xs` ends: in `s`, or at the first template that something leaves it at. -/
inductive Sweeps (xs : List (P × ℕ × Bool)) (s : VerifyState) : Verdict → Prop
  | finished (h : ∀ x ∈ xs, templateRaises w env x = .ok ()) : Sweeps xs s (.finished s)
  | raised (done : List (P × ℕ × Bool)) (x : P × ℕ × Bool) (rest : List (P × ℕ × Bool)) (e : String)
    (hxs : xs = done ++ x :: rest) (hdone : ∀ y ∈ done, templateRaises w env y = .ok ())
    (hx : templateRaises w env x = .error e) : Sweeps xs s (.raised e)

variable {M}

theorem mem_instances {x : P × ℕ × Bool} : x ∈ M.instances ↔ x.1 ∈ M.tuples ∧ x.2.1 ∈ headNums := by
  obtain ⟨t, n, causal⟩ := x
  have hcausal : causal ∈ causalValues := by cases causal <;> decide
  rw [instances, List.mem_product, List.mem_product]
  exact ⟨fun h ↦ ⟨h.1, h.2.1⟩, fun h ↦ ⟨h.1, h.2, hcausal⟩⟩

theorem instances_nodup : M.instances.Nodup :=
  M.spec.1.product (List.Nodup.product (by decide) (by decide))

theorem templates_eq : M.templates = M.instances.map fun x ↦ (w.row x.1, x.2) := by
  rw [templates, M.table_eq, List.flatMap_map]
  simp only [instances, SProd.sprod, List.product, List.map_flatMap, List.map_map]
  rfl

theorem templateKey_injective : Function.Injective (templateKey w) := by
  intro x y h
  rw [templateKey, templateKey, Prod.mk.injEq] at h
  exact Prod.ext (Generator.configName_injective (g := w.toGenerator) h.1) h.2

theorem templateLaunch_injective : Function.Injective (templateLaunch w) := by
  intro x y h
  rw [templateLaunch, templateLaunch, KernelLaunch.mk.injEq] at h
  exact Prod.ext (Generator.groups_injective (g := w.toGenerator) h.1) (Prod.ext h.2.1 h.2.2.1)

end Templates

section Accepted

variable {M} {t : P} {q k v : InputTensor} {causal : Bool} {status : LaunchStatus}

theorem fwdConfig_accepted (hc : Compatible q k v) (ht : t ∈ M.tuples) (h : w.Accepts t q) :
    M.fwdConfig status (w.configName t) q k v causal =
      runFixedShape status (w.kernel t) causal (q.size 2).toInt.toNat q := by
  have hrow : findConfig M.table (w.configName t) = some (w.row t) :=
    M.findConfig_row.2 ⟨t, ht, rfl, rfl⟩
  have hinputs := guards_ok.2 (checkInputs_iff.2 hc)
  have hshape :=
    (M.checkRuntimeShape_row ht).2 ⟨h.seqLen_pos, h.blockM_dvd, h.blockN_dvd, h.batch_pos⟩
  have hdim := (eq_ofNat_iff (M.headDim_lt ht)).2 h.headDim
  have hhead := (find_headNum (q.size_nonneg 2)).2 ⟨rfl, h.headNum⟩
  rw [fwdConfig, hinputs, hrow]
  change (guards (checkRuntimeShape (w.row t).blockM (w.row t).blockN (q.size 0) (q.size 1)) >>=
    fun _ ↦
    (w.row t).call status M.kernels q causal) = _
  rw [hshape]
  change (w.row t).call status M.kernels q causal = _
  rw [M.call_row ht, runFlashFwd]
  simp only [Wrapper.kernel_headDim, hdim, ne_eq, not_true_eq_false, if_false, hhead]

theorem lcm_lt (ht : t ∈ M.tuples) : Nat.lcm (w.blockM t) (w.blockN t) < 2 ^ 63 := by
  have hM := M.blockM_lt ht
  have hN := M.blockN_lt ht
  have hle : Nat.lcm (w.blockM t) (w.blockN t) ≤ w.blockM t * w.blockN t :=
    Nat.le_of_dvd (Nat.mul_pos (w.valid_pos t _ (M.spec.2.2.2 t ht)).2.1
      (w.valid_pos t _ (M.spec.2.2.2 t ht)).2.2)
      (Nat.lcm_dvd_mul _ _)
  have hmul : w.blockM t * w.blockN t ≤ 2 ^ 31 * 2 ^ 31 := Nat.mul_le_mul hM.le hN.le
  omega

theorem makeInputs_template {x : P × ℕ × Bool} (hx : x ∈ M.instances) :
    ∃ q, makeInputs (Nat.lcm (w.blockM x.1) (w.blockN x.1)) (w.headDim x.1) x.2.1 1 = .ok q ∧
      Compatible q q q ∧ w.Accepts x.1 q ∧ (q.size 2).toInt.toNat = x.2.1 ∧
      w.launch x.1 q x.2.2 = templateLaunch w x := by
  obtain ⟨ht, hn⟩ := mem_instances.1 hx
  obtain ⟨-, hM, hN⟩ := w.valid_pos x.1 _ (M.spec.2.2.2 x.1 ht)
  have hheads : ∀ n ∈ headNums, n < 2 ^ 63 := by decide
  have hlcm := lcm_lt ht
  have hdim : w.headDim x.1 < 2 ^ 63 := (M.headDim_lt ht).trans (by decide)
  have hhead := hheads _ hn
  have hsizes : ∀ n ∈ [1, Nat.lcm (w.blockM x.1) (w.blockN x.1), x.2.1, w.headDim x.1],
      n < 2 ^ 63 := by
    simp only [List.forall_mem_cons, List.not_mem_nil, false_implies, implies_true, and_true]
    exact ⟨by decide, hlcm, hhead, hdim⟩
  have hsize {n : ℕ} (h : n < 2 ^ 63) : (Int64.ofNat n).toInt = n := Int64.toInt_ofNat_of_lt h
  refine ⟨_, dif_pos hsizes, ⟨rfl, by simp, by simp, rfl, by simp, by simp⟩, ?_, ?_, ?_⟩
  · constructor
    · exact hsize hdim
    · change (Int64.ofNat x.2.1).toInt.toNat ∈ headNums
      rw [hsize hhead, Int.toNat_natCast]
      exact hn
    · change 0 < (Int64.ofNat _).toInt
      rw [hsize hlcm]
      exact_mod_cast Nat.lcm_pos hM hN
    · change _ ∣ (Int64.ofNat _).toInt
      rw [hsize hlcm]
      exact_mod_cast Nat.dvd_lcm_left _ _
    · change _ ∣ (Int64.ofNat _).toInt
      rw [hsize hlcm]
      exact_mod_cast Nat.dvd_lcm_right _ _
    · change 0 < (Int64.ofNat 1).toInt
      decide
  · change (Int64.ofNat x.2.1).toInt.toNat = x.2.1
    rw [hsize hhead, Int.toNat_natCast]
  · change (⟨_, (Int64.ofNat x.2.1).toInt.toNat, _, _, _⟩ : KernelLaunch) = _
    rw [hsize hhead, Int.toNat_natCast]
    rfl

/-- No template is turned away by a check. -/
theorem fwdConfig_template {x : P × ℕ × Bool} (hx : x ∈ M.instances) {q : InputTensor}
    (hc : Compatible q q q) (h : w.Accepts x.1 q) (hn : (q.size 2).toInt.toNat = x.2.1)
    (hl : w.launch x.1 q x.2.2 = templateLaunch w x) :
    M.fwdConfig env.status (w.configName x.1) q q q x.2.2 =
      match env.status (templateLaunch w x) with
      | some text => .error ("flashatten_v3 kernel launch failed: " ++ text)
      | none => .ok ⟨q.sizes, templateLaunch w x⟩ := by
  have hlaunch : (⟨(w.kernel x.1).constants, x.2.1, x.2.2, (q.size 1).toInt32, (q.size 0).toInt32⟩ :
      KernelLaunch) = templateLaunch w x := by
    rw [← hl, Wrapper.launch, hn]
    rfl
  rw [fwdConfig_accepted hc (mem_instances.1 hx).1 h, hn]
  cases hstatus : env.status (templateLaunch w x) with
  | none => simp [runFixedShape, hlaunch, hstatus]
  | some text => simp [runFixedShape, hlaunch, hstatus]

theorem callAndCompare_template {x : P × ℕ × Bool} (hx : x ∈ M.instances) {q : InputTensor}
    (hc : Compatible q q q) (h : w.Accepts x.1 q) (hn : (q.size 2).toInt.toNat = x.2.1)
    (hl : w.launch x.1 q x.2.2 = templateLaunch w x) :
    M.callAndCompare env (w.configName x.1) q x.2.2 = templateTried w env x := by
  rw [callAndCompare, fwdConfig_template env hx hc h hn hl, templateTried]
  cases env.status (templateLaunch w x) with
  | some text => rfl
  | none => rfl

theorem verifyKernelTemplateConfig_template {x : P × ℕ × Bool} (hx : x ∈ M.instances)
    (failedCases : List FailedCase) :
    M.verifyKernelTemplateConfig env (w.row x.1) x.2.1 x.2.2 failedCases =
      (templateRaises w env x).map fun _ ↦
      (templatePasses w env x, failedCases ++ (templateFailure w env x).toList) := by
  obtain ⟨q, hq, hc, h, hn, hl⟩ := makeInputs_template hx
  have hcall := callAndCompare_template env hx hc h hn hl
  have hname : (w.row x.1).name = w.configName x.1 := rfl
  simp only [verifyKernelTemplateConfig, Wrapper.row_blockM, Wrapper.row_blockN,
    Wrapper.row_headDim, hq, hname, ok_bind, hcall, templateRaises, templateKey, templatePasses,
    templateFailure]
  cases env.inputs (w.configName x.1, x.2.1, x.2.2) with
  | error e => rfl
  | ok u =>
    cases env.reference (w.configName x.1, x.2.1, x.2.2) with
    | error e => rfl
    | ok u =>
      cases templateTried w env x with
      | ok passed =>
        simp only [ok_bind, caught, Option.toList_none, List.append_nil]
        cases env.emptyCache (w.configName x.1, x.2.1, x.2.2) <;> rfl
      | error e =>
        simp only [ok_bind, caught]
        cases env.isRuntimeError e with
        | false => rfl
        | true =>
          cases isResourceError (env.str e) with
          | true => cases env.emptyCache (w.configName x.1, x.2.1, x.2.2) <;> rfl
          | false =>
            simp only [Bool.not_true, Bool.false_eq_true, if_false, if_true, Option.toList_none,
              List.append_nil, ok_bind]
            cases env.emptyCache (w.configName x.1, x.2.1, x.2.2) <;> rfl

theorem Sweeps.cons {xs : List (P × ℕ × Bool)} {x : P × ℕ × Bool} {s : VerifyState}
    {verdict : Verdict} (hx : templateRaises w env x = .ok ()) (h : Sweeps w env xs s verdict) :
    Sweeps w env (x :: xs) s verdict := by
  cases h with
  | finished h => exact .finished (List.forall_mem_cons.2 ⟨hx, h⟩)
  | raised done y rest e hxs hdone hy =>
    refine .raised (x :: done) y rest e ?_ (List.forall_mem_cons.2 ⟨hx, hdone⟩) hy
    rw [hxs, List.cons_append]

theorem verifyLoop_instances {xs : List (P × ℕ × Bool)} {s : VerifyState}
    (hxs : ∀ x ∈ xs, x ∈ M.instances) (hnodup : (s.seen ++ xs.map (templateKey w)).Nodup) :
    Sweeps w env xs ⟨s.ok && xs.all (templatePasses w env),
      s.passedCount + xs.countP (templatePasses w env),
        s.seen ++ xs.map (templateKey w), s.failedCases ++ xs.filterMap (templateFailure w env)⟩
      (M.verifyLoop env s (xs.map fun x ↦ (w.row x.1, x.2))) := by
  induction xs generalizing s with
  | nil =>
    have hs : Sweeps w env [] s (.finished s) := .finished (by simp)
    simpa [verifyLoop] using hs
  | cons x xs ih =>
    have hx := hxs x List.mem_cons_self
    have hkey : ((w.row x.1).name, x.2.1, x.2.2) = templateKey w x := rfl
    have hnew : templateKey w x ∉ s.seen := by
      rw [List.nodup_append] at hnodup
      intro hmem
      exact hnodup.2.2 _ hmem _ List.mem_cons_self rfl
    rw [List.map_cons, ← List.singleton_append, ← List.append_assoc] at hnodup
    rw [List.map_cons (f := fun x : P × ℕ × Bool ↦ (w.row x.1, x.2)), verifyLoop, hkey, if_neg hnew,
      verifyKernelTemplateConfig_template env hx]
    cases hraises : templateRaises w env x with
    | error e => exact .raised [] x xs e rfl (by simp) hraises
    | ok u =>
      have hcount : (templatePasses w env x).toNat = if templatePasses w env x then 1 else 0 := by
        cases templatePasses w env x <;> rfl
      have hfail : (x :: xs).filterMap (templateFailure w env) =
          (templateFailure w env x).toList ++ xs.filterMap (templateFailure w env) := by
        rw [List.filterMap_cons]
        cases templateFailure w env x <;> rfl
      have hrest :=
        ih (s := ⟨s.ok && templatePasses w env x, s.passedCount + (templatePasses w env x).toNat,
        s.seen ++ [templateKey w x], s.failedCases ++ (templateFailure w env x).toList⟩)
        (fun y hy ↦ hxs y (List.mem_cons_of_mem x hy)) hnodup
      rw [hfail, List.all_cons, List.countP_cons, List.map_cons, ← Bool.and_assoc,
        Nat.add_comm (List.countP _ _), ← Nat.add_assoc, ← hcount, ← List.append_assoc,
        List.append_cons s.seen]
      exact hrest.cons env hraises

end Accepted

/-- `verify.py --all` launches every instance in the module once, on a problem that no check turns
away, and its verdict sums up what the device does, unless something that is not caught ends it. -/
structure VerifiesAll (s : VerifyState) : Prop where
  verdict : Sweeps w env M.instances s (M.verifyAllKernelTemplates env)
  instances : ∀ t n causal, (t, n, causal) ∈ M.instances ↔ t ∈ M.tuples ∧ n ∈ headNums
  once : (M.instances.map (templateLaunch w)).Nodup
  launched : ∀ x ∈ M.instances, ∃ q, makeInputs (Nat.lcm (w.blockM x.1) (w.blockN x.1))
    (w.headDim x.1) x.2.1 1 = .ok q ∧
    M.fwdConfig env.status (w.configName x.1) q q q x.2.2 =
      match env.status (templateLaunch w x) with
      | some text => .error ("flashatten_v3 kernel launch failed: " ++ text)
      | none => .ok ⟨q.sizes, templateLaunch w x⟩
  seen : s.seen = M.instances.map (templateKey w)
  ok : s.ok = true ↔ ∀ x ∈ M.instances, templatePasses w env x = true
  passedCount : s.passedCount = M.instances.countP (templatePasses w env)
  failedCases : s.failedCases = M.instances.filterMap (templateFailure w env)

theorem length_instances :
    M.instances.length = M.table.length * instantiatedHeadNums.length * causalValues.length := by
  rw [instances, List.length_product, List.length_product, M.table_eq, List.length_map,
    Nat.mul_assoc]
  rfl

theorem verifyAllKernelTemplates_sweeps : Sweeps w env M.instances
    ⟨M.instances.all (templatePasses w env), M.instances.countP (templatePasses w env),
      M.instances.map (templateKey w), M.instances.filterMap (templateFailure w env)⟩
    (M.verifyAllKernelTemplates env) := by
  have hkeys : (M.instances.map (templateKey w)).Nodup := instances_nodup.map templateKey_injective
  have hloop := verifyLoop_instances (M := M) (s := ⟨true, 0, [], []⟩) env (fun x hx ↦ hx) hkeys
  simp only [Bool.true_and, Nat.zero_add, List.nil_append, ← templates_eq] at hloop
  rw [verifyAllKernelTemplates]
  cases hverdict : verifyLoop env M ⟨true, 0, [], []⟩ M.templates with
  | finished s =>
    rw [hverdict] at hloop
    cases hloop with
    | finished h =>
      dsimp only
      rw [if_neg]
      · exact .finished h
      · rw [List.length_map, M.length_instances]
        exact not_not.2 rfl
  | raised e => rwa [hverdict] at hloop
  | duplicate key => rwa [hverdict] at hloop
  | coverage actual expected => rwa [hverdict] at hloop

theorem verify_all : ∃ s, M.VerifiesAll env s := by
  refine ⟨_, M.verifyAllKernelTemplates_sweeps env, fun _ _ _ ↦ mem_instances,
    instances_nodup.map templateLaunch_injective, ?_, rfl, List.all_eq_true, rfl, rfl⟩
  intro x hx
  obtain ⟨q, hq, hc, h, hn, hl⟩ := makeInputs_template hx
  exact ⟨q, hq, fwdConfig_template env hx hc h hn hl⟩

end Module

end Sm120.Flash
