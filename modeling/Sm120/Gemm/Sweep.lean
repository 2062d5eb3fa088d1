import Sm120.Gemm.Session

set_option linter.unusedSectionVars false

namespace Sm120.Gemm

open Lib Session

namespace Session

variable {s : Session}

theorem Passes.destroy {s' : Session} {ok released : Bool} {timed : List (Work × ℚ≥0)}
    {x : Resource} {binding : ℕ → Option ℕ}
    (h : ((s.push x).bound binding).Passes ok released timed s') (b : Bool) :
    s.Passes ok (released && b) timed (s'.giveBack b) where
  live := by
    change s'.live.tail = s.live
    rw [h.live]
    rfl
  region := h.region
  profiled := h.profiled
  clean := h.clean
  released := by
    change (s'.released && b) = _
    rw [h.released, Bool.and_assoc]
    rfl
  timed := h.timed

section Verify

variable {config : GemmConfig} {shape : GemmShape} {reference : List Value}

def Verifies (s : Session) (ok : Bool) (s' : Session) : Prop :=
  s.Passes ok true [] s' ∧ s'.binding = s.binding ∧ s'.reference = s.reference

theorem computeCublasReference_spec {handle : ℕ} (hhandle : .handle handle ∈ s.live)
    (hbinding : s.binding handle = none) :
    session.Spec s (computeCublasReference handle shape)
      (fun result s' ↦ s.Passes result.isSome true [] s' ∧
      s'.binding = s.binding ∧ ∀ data ∈ result, s'.reference = some (shape, data)) Aborts := by
  refine withDevice_spec rfl (fun n r ↦ rfl) ?_
  refine spec_test (by simp [allows, hhandle, hbinding]) (fun n r ↦ rfl) ?_ ?_
  · refine spec_test rfl (fun n r ↦ rfl) ?_ ?_
    · refine (spec_orThrow rfl fun n r ↦ rfl).bind ?_
      rintro r s' rfl
      refine .ret ⟨.passed, rfl, ?_⟩
      intro data hdata
      rw [Option.mem_def, Option.some_inj] at hdata
      rw [← hdata]
      rfl
    · exact .ret ⟨.failed, rfl, by simp⟩
  · exact .ret ⟨.failed, rfl, by simp⟩

theorem verifyOneConfig_spec
    (hsupport : configSupportsProblem config shape.M shape.N shape.K = true)
    (hreference : s.reference = some (shape, reference)) :
    session.Spec s (verifyOneConfig config shape reference) s.Verifies Aborts := by
  refine (spec_orThrow (t := fun _ ↦ s) rfl fun n r ↦ rfl).bind ?_
  rintro - s₀ rfl
  refine (gemmTn_spec hsupport (by simp)).bind ?_
  rintro - s₁ rfl
  refine spec_test rfl (fun n r ↦ rfl) ?_ (.ret ⟨.failed, rfl, rfl⟩)
  refine spec_test rfl (fun n r ↦ rfl) ?_ (.ret ⟨.failed, rfl, rfl⟩)
  refine (spec_orThrow ?_ fun n r ↦ rfl).bind ?_
  · simp [allows, comparable, put, hreference]
  · rintro r s' rfl
    refine .ret ?_
    simp only [agrees, put, hreference]
    cases (verifyResult r.data reference shape.N .default false).1 with
    | true => exact ⟨.passed, rfl, hreference.symm⟩
    | false => exact ⟨.failed, rfl, hreference.symm⟩

theorem spec_release {a : ApiCall} {E : Ending → Session → Prop} (h : s.allows a = true)
    (hnext : ∀ n r, s.next n a r = s.giveBack r.ok) :
    session.Spec s (check a) (fun b s' ↦ s' = s.giveBack b) E := by
  refine spec_step h fun n r ↦ .ret ?_
  rw [hnext]

/-- `b` says whether the checks pass and everything is given back without an error. -/
def Reports (s : Session) (b : Bool) (s' : Session) : Prop :=
  ∃ ok released timed, s.Passes ok released timed s' ∧ b = (ok && released)

theorem Reports.trans {s' s'' : Session} {b b' : Bool} (h : s.Reports b s')
    (h' : s'.Reports b' s'') : s.Reports (b && b') s'' := by
  obtain ⟨ok, released, timed, hpasses, rfl⟩ := h
  obtain ⟨ok', released', timed', hpasses', rfl⟩ := h'
  refine ⟨_, _, _, hpasses.trans hpasses', ?_⟩
  cases ok <;> cases released <;> cases ok' <;> rfl

theorem spec_handle {α : Type} {p : ℕ × Reply → Driver α} {Q : α → Session → Prop}
    (hp : ∀ handle r binding, r.ok = true → binding handle = none →
      session.Spec ((s.push (.handle handle)).bound binding) (p (handle, r)) Q Aborts)
    (hf : ∀ n r, r.ok = false → session.Spec s.spoil (p (n, r)) Q Aborts) :
    session.Spec s (Prog.call .cublasCreate >>= p) Q Aborts :=
  spec_answer rfl (fun _ _ ↦ rfl) (fun n r hok ↦ hp n r _ hok (Function.update_self n _ s.binding))
    hf

theorem verifySingleConfig_spec
    (hsupport : configSupportsProblem config shape.M shape.N shape.K = true) :
    session.Spec s (verifySingleConfig config shape) s.Reports Aborts := by
  refine spec_handle (fun handle r binding hok hbinding ↦ ?_) fun n r hok ↦ ?_
  · simp only [hok, if_true]
    refine (computeCublasReference_spec List.mem_cons_self hbinding).bind ?_
    rintro reference s₁ ⟨hpasses, -, hreference⟩
    have hallows : s₁.allows (.cublasDestroy handle) = true := by
      simp [allows, hpasses.live, push, bound]
    refine (spec_release hallows fun n r ↦ rfl).bind ?_
    rintro b s₂ rfl
    have hdestroy := hpasses.destroy b
    cases reference with
    | none => exact .ret ⟨_, _, _, hdestroy, rfl⟩
    | some data =>
      cases b with
      | false => exact .ret ⟨_, _, _, hdestroy, rfl⟩
      | true =>
        refine (verifyOneConfig_spec (s := s₁.giveBack true) hsupport (hreference data rfl)).mono ?_
          fun e s' h ↦ h
        rintro b s₃ ⟨h, -⟩
        exact ⟨_, _, _, hdestroy.trans h, by simp⟩
  · simp only [hok, Bool.false_eq_true, if_false]
    exact .ret ⟨false, true, [], .failed, rfl⟩

structure Verified (s : Session) (total : ℕ) (done : List GemmConfig) (summary : VerifySummary)
    (s' : Session) : Prop where
  ok : summary.ok = true
  total : summary.total = total
  le : summary.passed + summary.skipped ≤ done.length
  verifies : s.Verifies (summary.passed + summary.skipped = done.length) s'

theorem Verifies.trans {s' s'' : Session} {ok ok' : Bool} (h : s.Verifies ok s')
    (h' : s'.Verifies ok' s'') : s.Verifies (ok && ok') s'' :=
  ⟨h.1.trans h'.1, h'.2.1.trans h.2.1, h'.2.2.trans h.2.2⟩

theorem verifyStep_spec {s' : Session} {total : ℕ} {done : List GemmConfig}
    {summary : VerifySummary} (hreference : s.reference = some (shape, reference))
    (h : s.Verified total done summary s') :
    session.Spec s' (verifyStep shape reference summary config)
      (s.Verified total (done ++ [config])) Aborts := by
  obtain ⟨hok, htotal, hle, hverifies⟩ := h
  have hlength : (done ++ [config]).length = done.length + 1 := by simp
  cases hsupport : configSupportsProblem config shape.M shape.N shape.K with
  | false =>
    simp only [verifyStep, hsupport, Bool.not_false, if_true]
    refine .ret ⟨hok, htotal, by dsimp only; omega, ?_⟩
    have hiff : (summary.passed + (summary.skipped + 1) = done.length + 1) =
        (summary.passed + summary.skipped = done.length) := by simp; omega
    simp only [hlength, hiff]
    exact hverifies
  | true =>
    simp only [verifyStep, hsupport, Bool.not_true, Bool.false_eq_true, if_false]
    refine (verifyOneConfig_spec hsupport (hverifies.2.2.trans hreference)).bind ?_
    rintro b s'' hb
    have htrans := hverifies.trans hb
    cases b with
    | true =>
      refine .ret ⟨hok, htotal, by dsimp only; omega, ?_⟩
      have hiff : (summary.passed + 1 + summary.skipped = done.length + 1) =
          (summary.passed + summary.skipped = done.length) := by simp; omega
      simp only [hlength, hiff]
      rwa [Bool.and_true] at htrans
    | false =>
      refine .ret ⟨hok, htotal, by dsimp only; omega, ?_⟩
      have hne : ¬(summary.passed + summary.skipped = done.length + 1) := by omega
      simp only [hlength, hne, decide_false]
      rwa [Bool.and_false] at htrans

variable {registry : List GemmConfig}

theorem verifyAllConfigsForShape_spec {handle : ℕ} (hhandle : .handle handle ∈ s.live)
    (hbinding : s.binding handle = none) :
    session.Spec s (verifyAllConfigsForShape registry handle shape)
      (fun summary s' ↦ s.Passes (summary.ok && summary.failed = 0) true [] s' ∧
        s'.binding = s.binding) Aborts := by
  refine withProblem_spec ?_
  refine (computeCublasReference_spec hhandle hbinding).bind ?_
  rintro result s₁ ⟨hpasses, hs₁, hreference⟩
  cases result with
  | none => exact .ret ⟨hpasses, hs₁⟩
  | some data =>
    have hstart : s₁.Verified registry.length [] { total := registry.length } s₁ :=
      ⟨rfl, rfl, le_rfl, .refl, rfl, rfl⟩
    refine (Protocol.Spec.foldlM (fun done summary s' ↦ s₁.Verified registry.length done summary s')
      hstart ?_).bind ?_
    · rintro done config rest - summary s' h
      exact verifyStep_spec (hreference data rfl) h
    · rintro summary s₂ ⟨hok, htotal, hle, hverifies⟩
      have hfailed : (summary.total - summary.passed - summary.skipped = 0) =
          (summary.passed + summary.skipped = registry.length) := by
        rw [htotal]
        simp
        omega
      refine .ret ⟨?_, hverifies.2.1.trans hs₁⟩
      simp only [hok, hfailed, Bool.true_and]
      exact hpasses.trans hverifies.1

end Verify

section Benchmark

variable {config : GemmConfig} {shape : GemmShape} {registry : List GemmConfig}

theorem release_spec {handle stream : ℕ} {l : List Resource}
    (hlive : s.live = .handle handle :: .stream stream :: l) :
    session.Spec s (release handle stream) (fun b s' ↦ ∃ b₁ b₂,
      b = (b₁ && b₂) ∧ s' = (s.giveBack b₁).giveBack b₂)
      Aborts := by
  refine (spec_release (by simp [allows, hlive]) fun n r ↦ rfl).bind ?_
  rintro b₁ s₁ rfl
  refine (spec_release (by simp [allows, giveBack, hlive]) fun n r ↦ rfl).bind ?_
  rintro b₂ s₂ rfl
  exact .ret ⟨b₁, b₂, rfl, rfl⟩

theorem Passes.giveBack {s' : Session} {ok released : Bool} {timed : List (Work × ℚ≥0)}
    {x y : Resource} {binding : ℕ → Option ℕ}
    (h : (((s.push x).push y).bound binding).Passes ok released timed s') (b b' : Bool) :
    s.Passes ok (released && (b && b')) timed ((s'.giveBack b).giveBack b') := by
  have h₁ : ((s.push x).bound s.binding).Passes ok (released && b) timed (s'.giveBack b) :=
    h.destroy b
  have h₂ := h₁.destroy b'
  rwa [Bool.and_assoc] at h₂

def Around {α : Type} (s : Session) (shape : GemmShape)
    (B : ℚ≥0 → α → Bool → List (Work × ℚ≥0) → Prop) : Option (α × Bool) → Session → Prop
  | none, s' => ∃ released, s.Passes false released [] s'
  | some (a, destroyOk), s' => ∃ cublasLatencyMs ok timed, B cublasLatencyMs a ok timed ∧
      s.Passes ok destroyOk (timed ++ [(.cublas shape, cublasLatencyMs)]) s'

theorem withCublas_spec {α : Type} {body : ℕ → ℚ≥0 → Driver α}
    {B : ℚ≥0 → α → Bool → List (Work × ℚ≥0) → Prop} (hbody : ∀ stream cublasLatencyMs s',
    .stream stream ∈ s'.live → session.Spec s' (body stream cublasLatencyMs)
      (fun a s'' ↦ ∃ ok timed, B cublasLatencyMs a ok timed ∧ s'.Passes ok true timed s'') Aborts) :
    session.Spec s (withCublas shape body) (s.Around shape B) Aborts := by
  refine spec_answer rfl (fun n r ↦ rfl) (fun stream r hok ↦ ?_) fun n r hok ↦ ?_
  · simp only [hok, if_true]
    refine spec_handle (fun handle r binding hok hbinding ↦ ?_) fun n r hok ↦ ?_
    · simp only [hok, if_true]
      refine spec_test (by simp [allows, push, bound]) (fun n r ↦ rfl) ?_ ?_
      · set s₁ := (((s.push (.stream stream)).push (.handle handle)).bound binding).bound
          (Function.update binding handle (some stream)) with hs₁
        have hhandle : .handle handle ∈ s₁.live := List.mem_cons_self
        have hstream : .stream stream ∈ s₁.live := List.mem_cons_of_mem _ List.mem_cons_self
        have hbound : s₁.binding handle = some stream := by simp [hs₁, bound]
        refine (benchmarkLauncher_spec hstream (cublas_spec hhandle hstream hbound)).bind ?_
        rintro result s₂ ⟨hpasses, -⟩
        cases result with
        | none =>
          refine (release_spec hpasses.live).bind ?_
          rintro - s₃ ⟨b₁, b₂, -, rfl⟩
          exact .ret ⟨_, hpasses.giveBack b₁ b₂⟩
        | some cublasLatencyMs =>
          refine (hbody stream cublasLatencyMs s₂ (by rw [hpasses.live]; exact hstream)).bind ?_
          rintro a s₃ ⟨ok, timed, hB, hbody⟩
          have htrans := hpasses.trans hbody
          refine (release_spec (htrans.live)).bind ?_
          rintro - s₄ ⟨b₁, b₂, rfl, rfl⟩
          exact .ret ⟨cublasLatencyMs, ok, timed, hB, htrans.giveBack b₁ b₂⟩
      · refine (release_spec rfl).bind ?_
        rintro - s' ⟨b₁, b₂, -, rfl⟩
        have hfailed : (((s.push (.stream stream)).push (.handle handle)).bound binding).Passes
            false true [] (((s.push (.stream stream)).push (.handle handle)).bound binding).spoil :=
          .failed
        exact .ret ⟨_, hfailed.giveBack b₁ b₂⟩
    · simp only [hok, Bool.false_eq_true, if_false]
      refine (spec_release (by simp [allows, push, spoil]) fun n r ↦ rfl).bind ?_
      rintro b s' rfl
      have hfailed : ((s.push (.stream stream)).bound s.binding).Passes false true []
          (s.push (.stream stream)).spoil :=
        .failed
      exact .ret ⟨_, hfailed.destroy b⟩
  · simp only [hok, Bool.false_eq_true, if_false]
    exact .ret ⟨true, .failed⟩

theorem measure_spec {stream : ℕ}
    (hsupport : configSupportsProblem config shape.M shape.N shape.K = true)
    (hstream : .stream stream ∈ s.live) :
    session.Spec s (measure config shape stream) (s.Measures (.kernel config shape)) Aborts :=
  benchmarkLauncher_spec hstream (launch_spec hsupport hstream)

theorem benchmarkSingleConfig_spec
    (hsupport : configSupportsProblem config shape.M shape.N shape.K = true) :
    session.Spec s (benchmarkSingleConfig config shape) (fun result s' ↦ s.Reports result.ok s')
      Aborts := by
  refine (withCublas_spec (B := fun _ launched ok _ ↦ ok = launched.isSome) ?_).bind ?_
  · intro stream cublasLatencyMs s' hstream
    refine (measure_spec hsupport hstream).mono ?_ fun e s'' h ↦ h
    rintro launched s'' ⟨hpasses, -⟩
    exact ⟨_, _, rfl, hpasses⟩
  · rintro (_ | ⟨launched, destroyOk⟩) s' h
    · obtain ⟨released, hpasses⟩ := h
      exact .ret ⟨_, _, _, hpasses, rfl⟩
    · obtain ⟨cublasLatencyMs, ok, timed, rfl, hpasses⟩ := h
      cases destroyOk with
      | false => exact .ret ⟨_, _, _, hpasses, by simp⟩
      | true =>
        refine .ret ⟨_, _, _, hpasses, ?_⟩
        cases launched with
        | none => rfl
        | some latencyMs => rfl

def timedOf (shape : GemmShape) (launched : ℕ → Option ℚ≥0) (x : GemmConfig × ℕ) :
    Option (Work × ℚ≥0) :=
  match outcome shape launched x with
  | .ok latencyMs => some (.kernel x.1 shape, latencyMs)
  | _ => none

def loopStart (registry : List GemmConfig) (shape : GemmShape) (cublasLatencyMs : ℚ≥0) :
    BenchmarkShapeResult where
  best := {
    shape := shape
    cublasLatencyMs := cublasLatencyMs
    cublasThroughput := gemmTflops shape.M shape.N shape.K cublasLatencyMs }
  total := registry.length

def Looped (s : Session) (shape : GemmShape) (start : BenchmarkShapeResult)
    (done : List (GemmConfig × ℕ)) (a : BenchmarkShapeResult × List BenchmarkSummary)
    (s' : Session) : Prop :=
  ∃ launched, a = done.foldl (benchmarkStep shape launched) (start, []) ∧
    s.Passes ((done.map (outcome shape launched)).all (· ≠ .failed)) true
      (done.filterMap (timedOf shape launched)).reverse s'

section Congr

variable {launched launched' : ℕ → Option ℚ≥0} {x : GemmConfig × ℕ}

theorem outcome_congr (h : launched x.2 = launched' x.2) :
    outcome shape launched x = outcome shape launched' x := by
  simp only [outcome, h]

theorem benchmarkStep_congr (h : launched x.2 = launched' x.2)
    (a : BenchmarkShapeResult × List BenchmarkSummary) :
    benchmarkStep shape launched a x = benchmarkStep shape launched' a x := by
  simp only [benchmarkStep, h]

theorem Looped.congr (shape : GemmShape) (start : BenchmarkShapeResult)
    {done : List (GemmConfig × ℕ)} (h : ∀ x ∈ done, launched x.2 = launched' x.2) :
    done.foldl (benchmarkStep shape launched) (start, []) =
      done.foldl (benchmarkStep shape launched') (start, []) ∧
      done.map (outcome shape launched) = done.map (outcome shape launched') ∧
        done.filterMap (timedOf shape launched) = done.filterMap (timedOf shape launched') := by
  refine ⟨List.foldl_ext _ _ _ fun a x hx ↦ benchmarkStep_congr (h x hx) a, ?_, ?_⟩
  · exact List.map_congr_left fun x hx ↦ outcome_congr (h x hx)
  · refine List.filterMap_congr fun x hx ↦ ?_
    rw [timedOf, timedOf, outcome_congr (h x hx)]

end Congr

theorem Looped.step {s' s'' : Session} {start : BenchmarkShapeResult} {done : List (GemmConfig × ℕ)}
    {a : BenchmarkShapeResult × List BenchmarkSummary} {x : GemmConfig × ℕ}
    {launched : ℕ → Option ℚ≥0} (ok : Bool)
    (ha : a = done.foldl (benchmarkStep shape launched) (start, []))
    (h : s.Passes ((done.map (outcome shape launched)).all (· ≠ .failed)) true
      (done.filterMap (timedOf shape launched)).reverse s')
    (hx : s'.Passes ok true (timedOf shape launched x).toList s'')
    (hok : ok = decide (outcome shape launched x ≠ .failed)) :
    s.Looped shape start (done ++ [x]) (benchmarkStep shape launched a x) s'' := by
  refine ⟨launched, ?_, ?_⟩
  · rw [List.foldl_append, ha]
    rfl
  · have htrans := h.trans hx
    rw [List.map_append, List.all_append, List.filterMap_append, List.reverse_append]
    have htimed : ([x].filterMap (timedOf shape launched)).reverse =
        (timedOf shape launched x).toList := by
      rw [List.filterMap_cons, List.filterMap_nil]
      cases timedOf shape launched x <;> rfl
    rw [htimed, List.map_singleton, List.all_cons, List.all_nil, Bool.and_true, ← hok]
    exact htrans

theorem benchmarkEntry_spec {s' : Session} {stream : ℕ} {start : BenchmarkShapeResult}
    {done : List (GemmConfig × ℕ)} {a : BenchmarkShapeResult × List BenchmarkSummary}
    {x : GemmConfig × ℕ} (hstream : .stream stream ∈ s.live) (hfresh : ∀ y ∈ done, y.2 ≠ x.2)
    (h : s.Looped shape start done a s') :
    session.Spec s' (benchmarkEntry shape stream a x) (s.Looped shape start (done ++ [x]))
      Aborts := by
  obtain ⟨launched, ha, hpasses⟩ := h
  cases hsupport : configSupportsProblem x.1 shape.M shape.N shape.K with
  | false =>
    have houtcome : outcome shape launched x = .skipped := by simp [outcome, hsupport]
    have hstep : benchmarkStep shape (fun _ ↦ none) a x = benchmarkStep shape launched a x := by
      simp [benchmarkStep, hsupport]
    simp only [benchmarkEntry, hsupport, Bool.not_false, if_true]
    rw [hstep]
    refine .ret (Looped.step true ha hpasses ?_ (by simp [houtcome]))
    rw [timedOf, houtcome]
    exact .refl
  | true =>
    simp only [benchmarkEntry, hsupport, Bool.not_true, Bool.false_eq_true, if_false]
    refine (measure_spec hsupport (by rw [hpasses.live]; exact hstream)).bind ?_
    rintro result s'' ⟨hmeasure, -⟩
    set launched' := Function.update launched x.2 result with hlaunched'
    have hx : launched' x.2 = result := Function.update_self x.2 result launched
    have hdone : ∀ y ∈ done, launched y.2 = launched' y.2 :=
      fun y hy ↦ (Function.update_of_ne (hfresh y hy) result launched).symm
    obtain ⟨hfold, houtcomes, htimed⟩ := Looped.congr shape start hdone
    have hstep : benchmarkStep shape (fun _ ↦ result) a x = benchmarkStep shape launched' a x :=
      benchmarkStep_congr hx.symm a
    rw [hfold] at ha
    rw [houtcomes, htimed] at hpasses
    rw [hstep]
    cases result with
    | none =>
      have houtcome : outcome shape launched' x = .failed := by simp [outcome, hsupport, hx]
      refine .ret (Looped.step false ha hpasses ?_ (by simp [houtcome]))
      rw [timedOf, houtcome]
      exact hmeasure
    | some latencyMs =>
      have houtcome : outcome shape launched' x = .ok latencyMs := by simp [outcome, hsupport, hx]
      refine .ret (Looped.step true ha hpasses ?_ (by simp [houtcome]))
      rw [timedOf, houtcome]
      exact hmeasure

/-- What `benchmark_all_configs_for_shape` returns, with what it leaves behind. -/
inductive Benchmarked (s : Session) (registry : List GemmConfig) (shape : GemmShape) :
    BenchmarkShapeResult × List RankingLine → Session → Prop
  | failed (s' : Session) (destroyed : Bool) (h : s.Passes false destroyed [] s') :
    Benchmarked s registry shape (benchmarkAllConfigsForShape shape (fun _ ↦ none) registry none
      destroyed) s'
  | measured (s' : Session) (launched : ℕ → Option ℚ≥0) (cublasLatencyMs : ℚ≥0) (destroyed : Bool)
    (h : s.Passes ((outcomes shape launched registry).all (· ≠ .failed)) destroyed
      ((registry.zipIdx.filterMap (timedOf shape launched)).reverse ++
        [(.cublas shape, cublasLatencyMs)]) s') :
    Benchmarked s registry shape
      (benchmarkAllConfigsForShape shape launched registry (some cublasLatencyMs) destroyed) s'

theorem zipIdx_fresh {done rest : List (GemmConfig × ℕ)} {x : GemmConfig × ℕ}
    (h : registry.zipIdx = done ++ x :: rest) : ∀ y ∈ done, y.2 ≠ x.2 := by
  have hnodup : (registry.zipIdx.map Prod.snd).Nodup := by
    rw [List.zipIdx_map_snd]
    exact List.nodup_range'
  rw [h, List.map_append, List.nodup_append] at hnodup
  intro y hy heq
  exact hnodup.2.2 y.2 (List.mem_map_of_mem hy) x.2 (by simp) heq

theorem benchmarkAllConfigsForShape_spec :
    session.Spec s (Driver.benchmarkAllConfigsForShape registry shape)
      (s.Benchmarked registry shape) Aborts := by
  refine withProblem_spec ?_
  refine (withCublas_spec (B := fun cublasLatencyMs a ok timed ↦ ∃ launched,
    a = registry.zipIdx.foldl (benchmarkStep shape launched)
      (loopStart registry shape cublasLatencyMs, []) ∧
      ok = (outcomes shape launched registry).all (· ≠ .failed) ∧
        timed = (registry.zipIdx.filterMap (timedOf shape launched)).reverse) ?_).bind ?_
  · intro stream cublasLatencyMs s' hstream
    refine (Protocol.Spec.foldlM (s'.Looped shape (loopStart registry shape cublasLatencyMs))
      ?_ ?_).mono ?_ fun e s'' h ↦ h
    · exact ⟨fun _ ↦ none, rfl, .refl⟩
    · intro done x rest hl a s'' h
      exact benchmarkEntry_spec hstream (zipIdx_fresh hl) h
    · rintro a s'' ⟨launched, ha, hpasses⟩
      exact ⟨_, _, ⟨launched, ha, rfl, rfl⟩, hpasses⟩
  · rintro (_ | ⟨⟨result, summaries⟩, destroyOk⟩) s' h
    · obtain ⟨released, hpasses⟩ := h
      exact .ret (.failed s' released hpasses)
    · obtain ⟨cublasLatencyMs, ok, timed, ⟨launched, ha, rfl, rfl⟩, hpasses⟩ := h
      refine .ret ?_
      have hmeasured := Benchmarked.measured s' launched cublasLatencyMs destroyOk hpasses
      simp only [benchmarkAllConfigsForShape] at hmeasured
      change s.Benchmarked registry shape ((fun a : BenchmarkShapeResult × List BenchmarkSummary ↦
        (({ a.1 with ok := destroyOk, failed := a.1.total - a.1.passed - a.1.skipped } :
          BenchmarkShapeResult),
          printBenchmarkRanking a.2)) (registry.zipIdx.foldl (benchmarkStep shape launched)
            (loopStart registry shape cublasLatencyMs, []))) s' at hmeasured
      rw [← ha] at hmeasured
      exact hmeasured

def servable (registry : List GemmConfig) (shape : GemmShape) : Bool :=
  registry.any fun config ↦ configSupportsProblem config shape.M shape.N shape.K

def good (r : BenchmarkShapeResult) : Bool := r.ok && r.failed = 0 && r.best.config.isSome

section Good

variable (shape registry) (launched : ℕ → Option ℚ≥0) (cublasLatencyMs : ℚ≥0)

def looped : BenchmarkShapeResult × List BenchmarkSummary :=
  registry.zipIdx.foldl (benchmarkStep shape launched)
    (loopStart registry shape cublasLatencyMs, [])

theorem looped_recorded : Recorded shape launched (loopStart registry shape cublasLatencyMs)
    registry.zipIdx (looped shape registry launched cublasLatencyMs) :=
  benchmark_recorded shape launched _ rfl rfl rfl rfl registry.zipIdx

theorem looped_best : ((looped shape registry launched cublasLatencyMs).1.best.config,
    (looped shape registry launched cublasLatencyMs).1.best.result) =
      recorded (stableSort before (registry.zipIdx.map (summarize shape launched))).head? := by
  rw [head?_stableSort]
  exact (looped_recorded shape registry launched cublasLatencyMs).best

theorem best_isSome : (looped shape registry launched cublasLatencyMs).1.best.config.isSome =
    (outcomes shape launched registry).any Outcome.isOk := by
  have hbest := looped_best shape registry launched cublasLatencyMs
  cases hany : (outcomes shape launched registry).any Outcome.isOk with
  | true =>
    obtain ⟨s, hs, hok⟩ := sorted_head (List.any_eq_true.1 hany)
    rw [hs, recorded, if_pos hok, Prod.mk.injEq] at hbest
    rw [hbest.1, Option.isSome_some]
  | false =>
    rw [recorded_none (List.any_eq_false.1 hany), Prod.mk.injEq] at hbest
    rw [hbest.1, Option.isSome_none]

theorem failed_eq_zero : ((looped shape registry launched cublasLatencyMs).1.total -
    (looped shape registry launched cublasLatencyMs).1.passed -
      (looped shape registry launched cublasLatencyMs).1.skipped = 0) =
        ((outcomes shape launched registry).all (· ≠ .failed) = true) := by
  obtain ⟨-, -, hpassed, hskipped, htotal⟩ :=
    looped_recorded shape registry launched cublasLatencyMs
  rw [← outcomes] at hpassed hskipped
  have hsum := outcomes_count (outcomes shape launched registry)
  have hlen : (outcomes shape launched registry).length = registry.length := by simp [outcomes]
  have hstart : (loopStart registry shape cublasLatencyMs).total = registry.length := rfl
  have hcount : (outcomes shape launched registry).count .failed = 0 ↔
      (outcomes shape launched registry).all (· ≠ .failed) = true := by
    rw [List.count_eq_zero, List.all_eq_true]
    constructor
    · intro h o ho
      exact decide_eq_true fun heq ↦ h (heq ▸ ho)
    · intro h ho
      exact of_decide_eq_true (h _ ho) rfl
  rw [hpassed, hskipped, htotal, hstart, ← hlen, hsum, ← hcount]
  apply propext
  omega

theorem any_isOk (h : (outcomes shape launched registry).all (· ≠ .failed) = true) :
    (outcomes shape launched registry).any Outcome.isOk = servable registry shape := by
  rw [Bool.eq_iff_iff, List.any_eq_true, servable, List.any_eq_true]
  constructor
  · rintro ⟨o, ho, hok⟩
    obtain ⟨x, hx, rfl⟩ := List.mem_map.1 ho
    refine ⟨x.1, List.fst_mem_of_mem_zipIdx hx, ?_⟩
    by_contra hsupport
    rw [outcome, if_neg hsupport] at hok
    cases hok
  · rintro ⟨config, hmem, hsupport⟩
    obtain ⟨i, hi⟩ := List.mem_iff_getElem?.1 hmem
    have ho :=
      List.mem_map_of_mem (f := outcome shape launched) (List.mk_mem_zipIdx_iff_getElem?.2 hi)
    refine ⟨_, ho, ?_⟩
    have hne := of_decide_eq_true (List.all_eq_true.1 h _ ho)
    rw [outcome, if_pos hsupport] at hne ⊢
    cases hl : launched i with
    | none => simp [hl] at hne
    | some latencyMs => rfl

theorem good_eq (destroyed : Bool) :
    good (benchmarkAllConfigsForShape shape launched registry (some cublasLatencyMs) destroyed).1 =
      ((outcomes shape launched registry).all (· ≠ .failed) && destroyed &&
        servable registry shape) := by
  have hgood : good (benchmarkAllConfigsForShape shape launched registry (some cublasLatencyMs)
      destroyed).1 =
      (destroyed && decide ((looped shape registry launched cublasLatencyMs).1.total -
        (looped shape registry launched cublasLatencyMs).1.passed -
          (looped shape registry launched cublasLatencyMs).1.skipped = 0) &&
            (looped shape registry launched cublasLatencyMs).1.best.config.isSome) := rfl
  rw [hgood, best_isSome]
  simp only [failed_eq_zero]
  cases hall : (outcomes shape launched registry).all (· ≠ .failed) with
  | false => simp
  | true =>
    rw [any_isOk shape registry launched hall]
    simp

end Good

theorem Benchmarked.reports {s' : Session} {r : BenchmarkShapeResult × List RankingLine}
    (h : s.Benchmarked registry shape r s') : ∃ ok released timed, s.Passes ok released timed s' ∧
      good r.1 = (ok && released && servable registry shape) := by
  cases h with
  | failed s' destroyed h => exact ⟨_, _, _, h, rfl⟩
  | measured s' launched cublasLatencyMs destroyed h =>
    exact ⟨_, _, _, h, good_eq shape registry launched cublasLatencyMs destroyed⟩

end Benchmark

end Session

end Sm120.Gemm
