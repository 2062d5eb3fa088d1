import Sm120.Gemm.Best

namespace Sm120.Gemm

open Lib Session

/-- When a command succeeds, by what it has called. That the stream cannot be given back fails every
command but `--profile`. -/
def Succeeds (registry : List GemmConfig) (command : Command) (s : Session) : Prop :=
  match command with
  | .verify => s.clean = true ∧ s.released = true
  | .benchmark =>
    s.clean = true ∧ s.released = true ∧ ∀ shape ∈ kTestShapes, servable registry shape = true
  | .shapeBenchmark shape | .shapeTest shape => s.clean = true ∧ s.released = true ∧
      servable registry shape = true
  | .func query _ =>
    s.clean = true ∧ s.released = true ∧ ∃ config, lookup registry query = some config ∧
      configSupportsProblem config funcShape.M funcShape.N funcShape.K = true
  | .profile query shape _ => s.clean = true ∧ ∃ config, lookup registry query = some config ∧
      configSupportsProblem config shape.M shape.N shape.K = true
  | .usage => False

/-- How a command returns: everything is given back, and the code says whether it succeeds. -/
structure Closes (succeeds : Prop) (code : ℕ) (s : Session) : Prop where
  live : s.live = []
  region : s.region = none
  success : succeeds → code = exitSuccess
  failure : ¬succeeds → code = exitFailure

namespace Session

variable {registry : List GemmConfig} {shape : GemmShape}

theorem Passes.closes {s : Session} {ok released c : Bool} {timed : List (Work × ℚ≥0)}
    {succeeds : Prop} (h : Passes {} ok released timed s) (hc : succeeds ↔ c = true) :
    Closes succeeds (if c then exitSuccess else exitFailure) s where
  live := h.live
  region := h.region
  success := fun hs ↦ if_pos (hc.1 hs)
  failure := fun hs ↦ if_neg (mt hc.2 hs)

theorem Passes.start {s : Session} {ok released : Bool} {timed : List (Work × ℚ≥0)}
    (h : Passes {} ok released timed s) : s.clean = ok ∧ s.released = released :=
  ⟨h.clean.trans (Bool.true_and ok), h.released.trans (Bool.true_and released)⟩

theorem runVerify_spec : session.Spec {} (runVerify registry)
    (fun code s ↦ Closes (Succeeds registry .verify s) code s) Aborts := by
  refine spec_handle (fun handle r binding hok hbinding ↦ ?_) fun n r hok ↦ ?_
  · simp only [hok, if_true]
    set s₀ := (push {} (.handle handle)).bound binding with hs₀
    refine (Protocol.Spec.foldlM (fun _ allOk s' ↦ s₀.Passes allOk true [] s' ∧
      s'.binding = s₀.binding) ⟨.refl, rfl⟩ ?_).bind ?_
    · rintro done shape rest - allOk s' ⟨hpasses, hs'⟩
      have hlive : .handle handle ∈ s'.live := by
        rw [hpasses.live]
        exact List.mem_cons_self
      refine (verifyAllConfigsForShape_spec hlive (by rw [hs']; exact hbinding)).bind ?_
      rintro summary s'' ⟨h, hs''⟩
      refine .ret ⟨?_, hs''.trans hs'⟩
      rw [Bool.and_assoc]
      exact hpasses.trans h
    · rintro allOk s₁ ⟨hpasses, -⟩
      have hallows : s₁.allows (.cublasDestroy handle) = true := by
        simp [allows, hpasses.live, hs₀, push, bound]
      refine (spec_release hallows fun n r ↦ rfl).bind ?_
      rintro b s₂ rfl
      have hdestroy := hpasses.destroy b
      obtain ⟨hclean, hreleased⟩ := hdestroy.start
      cases b with
      | true => exact .ret (hdestroy.closes (by simp [Succeeds, hclean, hreleased]))
      | false => exact .ret (Passes.closes (c := false) hdestroy (by simp [Succeeds, hreleased]))
  · simp only [hok, Bool.false_eq_true, if_false]
    have hfailed : Passes {} false true [] (spoil {}) := .failed
    exact .ret (Passes.closes (c := false) hfailed (by simp [Succeeds, spoil]))

theorem runShapeBenchmark_spec : session.Spec {} (runShapeBenchmark registry shape)
    (fun code s ↦ Closes (Succeeds registry (.shapeBenchmark shape) s) code s) Aborts := by
  refine benchmarkAllConfigsForShape_spec.bind fun r s h ↦ .ret ?_
  obtain ⟨ok, released, timed, hpasses, hgood⟩ := h.reports
  obtain ⟨hclean, hreleased⟩ := hpasses.start
  have hiff : Succeeds registry (.shapeBenchmark shape) s ↔ good r.1 = true := by
    simp [Succeeds, hclean, hreleased, hgood, and_assoc]
  exact hpasses.closes hiff

theorem runShapeTest_spec : session.Spec {} (runShapeTest registry shape)
    (fun code s ↦ Closes (Succeeds registry (.shapeTest shape) s) code s) Aborts := by
  refine spec_handle (fun handle r binding hok hbinding ↦ ?_) fun n r hok ↦ ?_
  · simp only [hok, if_true]
    refine (verifyAllConfigsForShape_spec List.mem_cons_self hbinding).bind ?_
    rintro summary s₁ ⟨hverify, -⟩
    have hallows : s₁.allows (.cublasDestroy handle) = true := by
      simp [allows, hverify.live, push, bound]
    refine (spec_release hallows fun n r ↦ rfl).bind ?_
    rintro b s₂ rfl
    have hdestroy := hverify.destroy b
    cases b with
    | false =>
      obtain ⟨-, hreleased⟩ := hdestroy.start
      exact .ret (Passes.closes (c := false) hdestroy (by simp [Succeeds, hreleased]))
    | true =>
      refine benchmarkAllConfigsForShape_spec.bind fun r s h ↦ .ret ?_
      obtain ⟨ok, released, timed, hbenchmark, hgood⟩ := h.reports
      have hpasses := hdestroy.trans hbenchmark
      obtain ⟨hclean, hreleased⟩ := hpasses.start
      have hiff : Succeeds registry (.shapeTest shape) s ↔
          (summary.ok && summary.failed = 0 && r.1.ok && r.1.failed = 0 &&
            r.1.best.config.isSome) = true := by
        have hcode : (summary.ok && summary.failed = 0 && r.1.ok && r.1.failed = 0 &&
            r.1.best.config.isSome) =
            ((summary.ok && summary.failed = 0) && good r.1) := by simp [good, Bool.and_assoc]
        rw [hcode, hgood]
        simp [Succeeds, hclean, hreleased, and_assoc]
      exact hpasses.closes hiff
  · simp only [hok, Bool.false_eq_true, if_false]
    have hfailed : Passes {} false true [] (spoil {}) := .failed
    exact .ret (Passes.closes (c := false) hfailed (by simp [Succeeds, spoil]))

theorem runFunc_spec {query : List Char} {mode : FuncMode} :
    session.Spec {} (runFunc registry query mode)
    (fun code s ↦ Closes (Succeeds registry (.func query mode) s) code s) Aborts := by
  unfold runFunc
  cases hlookup : lookup registry query with
  | none =>
    refine .ret (Passes.closes (c := false) .refl ?_)
    simp [Succeeds, hlookup]
  | some config =>
    dsimp only
    cases hsupport : configSupportsProblem config funcShape.M funcShape.N funcShape.K with
    | false =>
      simp only [Bool.not_false, if_true]
      refine .ret (Passes.closes (c := false) .refl ?_)
      simp [Succeeds, hlookup, hsupport]
    | true =>
      simp only [Bool.not_true, Bool.false_eq_true, if_false]
      have hverify : session.Spec {}
          (if mode ≠ .benchmarkOnly then verifySingleConfig config funcShape else pure true)
          (Reports {}) Aborts := by
        split_ifs
        · exact verifySingleConfig_spec hsupport
        · exact .ret ⟨true, true, [], .refl, rfl⟩
      have hbenchmark (s : Session) : session.Spec s (if mode ≠ .verifyOnly then
          BenchmarkResult.ok <$> benchmarkSingleConfig config funcShape
          else pure true) s.Reports Aborts := by
        split_ifs
        · exact (benchmarkSingleConfig_spec hsupport).bind fun result s' h ↦ .ret h
        · exact .ret ⟨true, true, [], .refl, rfl⟩
      refine withProblem_spec ?_
      refine hverify.bind fun verifyOk s h ↦ (hbenchmark s).bind fun benchmarkOk s' h' ↦ .ret ?_
      obtain ⟨ok, released, timed, hpasses, hcode⟩ := h.trans h'
      obtain ⟨hclean, hreleased⟩ := hpasses.start
      refine hpasses.closes ?_
      simp [Succeeds, hlookup, hsupport, hcode, hclean, hreleased]

section Profile

variable {config : GemmConfig} {query : List Char} {warmup : ℕ}

/-- The one region that is profiled has one launch in it, and before it only the warm-up. -/
def Isolated (config : GemmConfig) (shape : GemmShape) (warmup : ℕ) (s : Session) : Prop :=
  ∃ stream, s.profiled =
    [(List.replicate warmup (.kernel config shape, some stream),
      [(.kernel config shape, some stream)])]

structure Profiled (config : GemmConfig) (shape : GemmShape) (warmup stream : ℕ) (ok : Bool)
    (s : Session) : Prop where
  live : s.live = [.stream stream]
  region : s.region = none
  clean : s.clean = ok
  profiled : s.profiled = [] ∧ ok = false ∨ Isolated config shape warmup s

theorem thenSynchronize_spec {s t : Session} {stream : ℕ} {p : Driver Bool} {F : Session → Prop}
    (hp : session.Spec s p (fun b s' ↦ if b then s' = t else F s') Aborts)
    (hstream : .stream stream ∈ t.live) :
    session.Spec s (thenSynchronize stream p)
      (fun b s' ↦ if b then s' = t.drain stream else s' = t.spoil ∨ F s') Aborts := by
  refine .cond hp ?_ ?_
  · intro s' hs'
    rw [hs']
    refine (spec_check (by simp [allows, hstream]) fun n r ↦ rfl).mono ?_ fun e s'' h ↦ h
    intro b s'' h
    cases b with
    | true => exact h
    | false => exact .inl h
  · intro s' hs'
    exact .ret (.inr hs')

theorem drain_puts {s : Session} {w : Work} {stream n : ℕ} (hs : s.pending = []) :
    ((s.puts w stream n).drain stream).pending = [] := by
  simp [drain, puts, hs]

theorem profiledLaunch_spec {s : Session} {stream : ℕ}
    (hsupport : configSupportsProblem config shape.M shape.N shape.K = true)
    (hlive : s.live = [.stream stream])
    (hregion : s.region = none) (hclean : s.clean = true) (hprofiled : s.profiled = [])
    (hpending : s.pending = [])
    (hwork : s.work = List.replicate warmup (.kernel config shape, some stream)) :
    session.Spec s (profiledLaunch config shape stream) (Profiled config shape warmup stream)
      Aborts := by
  set s₀ : Session := { s with region := some s.work } with hs₀
  have hstream : .stream stream ∈ s₀.live := by simp [hs₀, hlive]
  refine spec_step (by simp [allows, hregion, hpending]) fun n r ↦ ?_
  refine Protocol.Spec.bind (s := s₀) (thenSynchronize_spec (launch_exact hsupport hstream) hstream)
    fun ok s₁ h₁ ↦ ?_
  -- the launch is there whether it succeeds or not
  have hrun : s₁.live = s.live ∧ s₁.region = some s.work ∧ s₁.profiled = s.profiled ∧
      s₁.work = (.kernel config shape, some stream) :: s.work ∧ s₁.clean = ok := by
    cases ok with
    | true =>
      rw [if_pos rfl] at h₁
      rw [h₁]
      exact ⟨rfl, rfl, rfl, rfl, hclean⟩
    | false =>
      rw [if_neg (by decide)] at h₁
      obtain h₁ | h₁ := h₁
      · rw [h₁]
        exact ⟨rfl, rfl, rfl, rfl, rfl⟩
      · rw [h₁]
        exact ⟨rfl, rfl, rfl, rfl, rfl⟩
  obtain ⟨hlive₁, hregion₁, hprofiled₁, hwork₁, hclean₁⟩ := hrun
  refine spec_step (by simp [allows, hregion₁]) fun n r ↦ .ret ?_
  have hclose : s₁.closeRegion = { s₁ with region := none, profiled := [(List.replicate warmup
      (.kernel config shape, some stream), [(.kernel config shape, some stream)])] } := by
    rw [closeRegion, hregion₁]
    simp [hprofiled₁, hprofiled, hwork₁, hwork]
  exact {
    live := by rw [next, hclose, hlive₁, hlive]
    region := by rw [next, hclose]
    clean := by rw [next, hclose, hclean₁]
    profiled := .inr ⟨stream, by rw [next, hclose]⟩
  }

/-- The launch that is profiled comes only after a warm-up that succeeds. -/
theorem warmLaunch_spec {s : Session} {stream : ℕ} {warm : Bool}
    (hsupport : configSupportsProblem config shape.M shape.N shape.K = true)
    (h : if warm then
      s = ((push {} (.stream stream)).puts (.kernel config shape) stream warmup).drain stream else
      s = ((push {} (.stream stream)).puts (.kernel config shape) stream warmup).spoil ∨
        ∃ work pending, s = (push {} (.stream stream)).lost work pending) :
    session.Spec s (if warm then profiledLaunch config shape stream else pure false)
      (Profiled config shape warmup stream) Aborts := by
  cases warm with
  | true =>
    rw [if_pos rfl] at h
    rw [h, if_pos rfl]
    exact profiledLaunch_spec hsupport rfl rfl rfl rfl (drain_puts rfl) (List.append_nil _)
  | false =>
    rw [if_neg (by decide)] at h
    rw [if_neg (by decide)]
    refine .ret ?_
    obtain h | ⟨work, pending, h⟩ := h
    · rw [h]
      exact ⟨rfl, rfl, rfl, .inl ⟨rfl, rfl⟩⟩
    · rw [h]
      exact ⟨rfl, rfl, rfl, .inl ⟨rfl, rfl⟩⟩

theorem Profiled.closes {s : Session} {stream : ℕ} {ok : Bool}
    (h : Profiled config shape warmup stream ok s) (hlookup : lookup registry query = some config)
    (hsupport : configSupportsProblem config shape.M shape.N shape.K = true) (b : Bool) :
    Closes (Succeeds registry (.profile query shape warmup) (s.giveBack b)) (if ok then exitSuccess
      else exitFailure) (s.giveBack b) where
  live := by rw [giveBack, h.live, List.tail_cons]
  region := h.region
  success := fun ⟨hclean, _⟩ ↦ if_pos (h.clean.symm.trans hclean)
  failure := fun hnot ↦ if_neg fun hok ↦ hnot ⟨h.clean.trans hok, config, hlookup, hsupport⟩

theorem runProfile_spec : session.Spec {} (runProfile registry query shape warmup)
    (fun code s ↦ Closes (Succeeds registry (.profile query shape warmup) s) code s ∧
      (s.profiled = [] ∧ code = exitFailure ∨
        ∃ config, lookup registry query = some config ∧ Isolated config shape warmup s))
          Aborts := by
  unfold runProfile
  cases hlookup : lookup registry query with
  | none =>
    refine .ret ⟨Passes.closes (c := false) .refl ?_, .inl ⟨rfl, rfl⟩⟩
    simp [Succeeds, hlookup]
  | some config =>
    dsimp only
    cases hsupport : configSupportsProblem config shape.M shape.N shape.K with
    | false =>
      simp only [Bool.not_false, if_true]
      refine .ret ⟨Passes.closes (c := false) .refl ?_, .inl ⟨rfl, rfl⟩⟩
      simp [Succeeds, hlookup, hsupport]
    | true =>
      simp only [Bool.not_true, Bool.false_eq_true, if_false]
      refine withProblem_spec ?_
      refine spec_answer rfl (fun n r ↦ rfl) (fun stream r hok ↦ ?_) fun n r hok ↦ ?_
      · simp only [hok, if_true]
        have hlaunches := launch_spec (s := push {} (.stream stream)) hsupport List.mem_cons_self
        refine (thenSynchronize_spec (hlaunches.attempts warmup (List.Subset.refl _) rfl)
          List.mem_cons_self).bind ?_
        intro warm s₁ h₁
        refine (warmLaunch_spec hsupport h₁).bind fun ok s₂ h₂ ↦ ?_
        refine (spec_release (by simp [allows, h₂.live]) fun n r ↦ rfl).bind fun b s₃ h₃ ↦ .ret ?_
        rw [h₃]
        refine ⟨h₂.closes hlookup hsupport b, ?_⟩
        obtain ⟨hprofiled, hok⟩ | hisolated := h₂.profiled
        · exact .inl ⟨hprofiled, if_neg (by rw [hok]; decide)⟩
        · exact .inr ⟨config, rfl, hisolated⟩
      · simp only [hok, Bool.false_eq_true, if_false]
        refine .ret ⟨Passes.closes (c := false) Passes.failed ?_, .inl ⟨rfl, rfl⟩⟩
        simp [Succeeds, spoil]

end Profile

end Session

theorem runCommand_spec (registry : List GemmConfig) (command : Command) :
    session.Spec {} (runCommand registry command)
      (fun code s ↦ Closes (Succeeds registry command s) code s) Aborts := by
  cases command with
  | verify => exact runVerify_spec
  | benchmark =>
    refine runBenchmark_spec.mono ?_ fun e s h ↦ h
    rintro code s ⟨ok, released, timed, b, hpasses, hb, hcode, -⟩
    obtain ⟨hclean, hreleased⟩ := hpasses.start
    rw [hcode]
    refine hpasses.closes ?_
    simp [Succeeds, hb, hclean, hreleased, and_assoc]
  | shapeBenchmark shape => exact runShapeBenchmark_spec
  | func query mode => exact runFunc_spec
  | profile query shape warmup => exact runProfile_spec.mono (fun code s h ↦ h.1) fun e s h ↦ h
  | shapeTest shape => exact runShapeTest_spec
  | usage => exact .ret (Passes.closes (c := false) .refl (by simp [Succeeds]))

/-- What `--profile` shows the profiler, if it shows anything: one launch of the entry that is asked
for, after the warm-up and nothing else. -/
theorem profile_isolates (registry : List GemmConfig) (query : List Char) (shape : GemmShape)
    (warmup : ℕ) (env : Calls ApiCall Reply → ApiCall → Reply) :
    ∃ s, session.after (runProfile registry query shape warmup env []).2 = some s ∧
      Protocol.Ends (fun code s ↦ s.profiled = [] ∧ code = exitFailure ∨
        ∃ config, lookup registry query = some config ∧ Isolated config shape warmup s) Aborts
          (runProfile registry query shape warmup env []).1 s :=
  (runProfile_spec.mono (fun _ _ h ↦ h.2) fun _ _ h ↦ h).run env

end Sm120.Gemm
