import Sm120.Gemm.Build
import Sm120.Gemm.Exit

namespace Sm120.Gemm

open Lib Session

def ApiCall.measures : ApiCall → Bool
  | .copyActual _ => false
  | _ => true

def OnlyMeasures {α : Type} (p : Driver α) : Prop := p.Makes fun a ↦ a.measures = true

section Calls

variable {α : Type} {a : ApiCall} {config : GemmConfig} {shape : GemmShape}

theorem check_measures (h : a.measures = true) : OnlyMeasures (check a) :=
  .bind (.call h) fun _ ↦ .ret

theorem test_measures {q q' : Driver α} (h : a.measures = true) (hq : OnlyMeasures q)
    (hq' : OnlyMeasures q') : OnlyMeasures (check a >>= fun b ↦ if b then q else q') :=
  .bind (check_measures h) fun _ ↦ .ite hq hq'

theorem cuteCheck_measures (h : a.measures = true) : OnlyMeasures (cuteCheck a) :=
  test_measures h .ret .exit

theorem orThrow_measures (h : a.measures = true) : OnlyMeasures (orThrow a) :=
  .bind (.call h) fun _ ↦ .ite .ret .exit

theorem withDevice_measures {p : Driver α} (h : a.measures = true) (hp : OnlyMeasures p) :
    OnlyMeasures (withDevice a p) :=
  .bind (orThrow_measures h) fun _ ↦ .bind hp fun _ ↦ .bind (orThrow_measures rfl) fun _ ↦ .ret

theorem withProblem_measures {p : Driver α} (hp : OnlyMeasures p) :
    OnlyMeasures (withProblem shape p) := by
  have hvector (size : ℕ) : OnlyMeasures (orThrow (.hostVector size)) := orThrow_measures rfl
  refine .bind (hvector _) fun _ ↦ .bind (hvector _) fun _ ↦ .bind (hvector _) fun _ ↦ ?_
  exact withDevice_measures rfl (withDevice_measures rfl (withDevice_measures rfl hp))

theorem gemmTn_measures (stream : Option ℕ) : OnlyMeasures (gemmTn config shape stream) := by
  unfold gemmTn
  refine .ite .exit (.bind (cuteCheck_measures rfl) fun _ ↦
    .bind (cuteCheck_measures rfl) fun _ ↦ ?_)
  exact .bind (.call rfl) fun _ ↦ cuteCheck_measures rfl

theorem launch_measures (stream : ℕ) : OnlyMeasures (launch config shape stream) :=
  .bind (gemmTn_measures _) fun _ ↦ check_measures rfl

theorem benchmarkLauncher_measures {p : Driver Bool}
    (stream warmupIterations benchmarkIterations : ℕ) (hp : OnlyMeasures p) :
    OnlyMeasures (benchmarkLauncher stream warmupIterations benchmarkIterations p) := by
  have hdestroy (start stop : ℕ) (avgMs : Option ℚ≥0) : OnlyMeasures (do
      let _ ← Prog.call (.cudaEventDestroy stop)
      let _ ← Prog.call (.cudaEventDestroy start)
      return avgMs) := .bind (.call rfl) fun _ ↦ .bind (.call rfl) fun _ ↦ .ret
  unfold benchmarkLauncher
  refine .bind (.attempts hp) fun _ ↦ .ite (test_measures rfl ?_ .ret) .ret
  refine .bind (.call rfl) fun (start, r) ↦ .ite ?_ .ret
  refine .bind (.call rfl) fun (stop, r) ↦ .ite ?_ (.bind (.call rfl) fun _ ↦ .ret)
  refine test_measures rfl (.bind (.attempts hp) fun _ ↦ .ite ?_ (hdestroy _ _ _)) (hdestroy _ _ _)
  refine test_measures rfl (test_measures rfl ?_ (hdestroy _ _ _)) (hdestroy _ _ _)
  exact .bind (.call rfl) fun _ ↦ .ite (hdestroy _ _ _) (hdestroy _ _ _)

theorem benchmarkCublas_measures (stream handle : ℕ) :
    OnlyMeasures (benchmarkCublas stream handle shape) :=
  benchmarkLauncher_measures _ _ _ (check_measures rfl)

theorem measure_measures (stream : ℕ) : OnlyMeasures (measure config shape stream) :=
  benchmarkLauncher_measures _ _ _ (launch_measures stream)

theorem release_measures (handle stream : ℕ) : OnlyMeasures (release handle stream) :=
  .bind (check_measures rfl) fun _ ↦ .bind (check_measures rfl) fun _ ↦ .ret

theorem withCublas_measures {body : ℕ → ℚ≥0 → Driver α}
    (h : ∀ stream ms, OnlyMeasures (body stream ms)) : OnlyMeasures (withCublas shape body) := by
  unfold withCublas
  refine .bind (.call rfl) fun (stream, r) ↦ .ite ?_ .ret
  refine .bind (.call rfl) fun (handle, r) ↦ .ite ?_ (.bind (check_measures rfl) fun _ ↦ .ret)
  refine test_measures rfl (.bind (benchmarkCublas_measures stream handle) fun latencyMs ↦ ?_)
    (.bind (release_measures handle stream) fun _ ↦ .ret)
  cases latencyMs with
  | none => exact .bind (release_measures handle stream) fun _ ↦ .ret
  | some latencyMs =>
    exact .bind (h stream latencyMs) fun _ ↦ .bind (release_measures handle stream) fun _ ↦ .ret

end Calls

section Commands

variable {registry : List GemmConfig} {shape : GemmShape}

theorem benchmarkSingleConfig_measures (config : GemmConfig) :
    OnlyMeasures (benchmarkSingleConfig config shape) := by
  refine .bind (withCublas_measures fun stream _ ↦ measure_measures stream) fun launched ↦ ?_
  cases launched with
  | none => exact .ret
  | some launched => exact .ite .ret .ret

theorem benchmarkEntry_measures (stream : ℕ) (s : BenchmarkShapeResult × List BenchmarkSummary)
    (x : GemmConfig × ℕ) : OnlyMeasures (benchmarkEntry shape stream s x) :=
  .ite .ret (.bind (measure_measures stream) fun _ ↦ .ret)

theorem benchmarkAllConfigsForShape_measures :
    OnlyMeasures (Driver.benchmarkAllConfigsForShape registry shape) := by
  refine withProblem_measures ?_
  refine .bind (withCublas_measures fun stream _ ↦ .foldlM (benchmarkEntry_measures stream))
    fun result ↦ ?_
  cases result with
  | none => exact .ret
  | some result => exact .ret

theorem writeLines_measures (file : ℕ) (lines : List (List Char)) :
    OnlyMeasures (writeLines file lines) := by
  induction lines with
  | nil => exact .ret
  | cons line lines ih => exact test_measures rfl ih .ret

theorem runBenchmark_measures : OnlyMeasures (runBenchmark registry) := by
  refine .bind (.foldlM fun _ _ ↦ .bind benchmarkAllConfigsForShape_measures fun _ ↦ .ret) fun _ ↦
    .bind ?_ fun _ ↦ .ret
  refine .bind (.call rfl) fun (file, r) ↦ .ite ?_ .ret
  exact .bind (writeLines_measures file _) fun _ ↦ .bind (check_measures rfl) fun _ ↦ .ret

theorem thenSynchronize_measures {p : Driver Bool} (stream : ℕ) (hp : OnlyMeasures p) :
    OnlyMeasures (thenSynchronize stream p) :=
  .bind hp fun _ ↦ .ite (check_measures rfl) .ret

theorem profiledLaunch_measures (config : GemmConfig) (stream : ℕ) :
    OnlyMeasures (profiledLaunch config shape stream) :=
  .bind (.call rfl) fun _ ↦ .bind (thenSynchronize_measures stream (launch_measures stream)) fun _ ↦
    .bind (.call rfl) fun _ ↦ .ret

theorem runProfile_measures (query : List Char) (warmup : ℕ) :
    OnlyMeasures (runProfile registry query shape warmup) := by
  unfold runProfile
  cases lookup registry query with
  | none => exact .ret
  | some config =>
    refine .ite .ret (withProblem_measures (.bind (.call rfl) fun (stream, r) ↦ .ite ?_ .ret))
    refine .bind (thenSynchronize_measures stream (.attempts (launch_measures stream))) fun warm ↦
      ?_
    refine .bind (.ite (profiledLaunch_measures config stream) .ret) fun _ ↦ ?_
    exact .bind (check_measures rfl) fun _ ↦ .ret

def Command.measures : Command → Bool
  | .verify | .func _ .verifyAndBenchmark | .func _ .verifyOnly | .shapeTest _ => false
  | _ => true

theorem runFunc_measures (query : List Char) :
    OnlyMeasures (runFunc registry query .benchmarkOnly) := by
  unfold runFunc
  cases lookup registry query with
  | none => exact .ret
  | some config =>
    refine .ite .ret (withProblem_measures (.bind ?_ fun _ ↦ .bind (.ite ?_ .ret) fun _ ↦ .ret))
    · rw [if_neg (not_not.2 rfl)]
      exact .ret
    · exact .bind (benchmarkSingleConfig_measures config) fun _ ↦ .ret

theorem runCommand_measures {command : Command} (h : command.measures = true) :
    OnlyMeasures (runCommand registry command) := by
  cases command with
  | verify => cases h
  | benchmark => exact runBenchmark_measures
  | shapeBenchmark shape => exact .bind benchmarkAllConfigsForShape_measures fun _ ↦ .ret
  | func query mode =>
    cases mode with
    | verifyAndBenchmark => cases h
    | verifyOnly => cases h
    | benchmarkOnly => exact runFunc_measures query
  | profile query shape warmup => exact runProfile_measures query warmup
  | shapeTest shape => cases h
  | usage => exact .ret

end Commands

section Answers

variable {α : Type} {s : Session} {a : ApiCall} {r : Reply}

def Session.Sound (s : Session) : Prop := s.clean = true ∧ s.released = true

theorem Session.Sound.time (h : s.Sound) (elapsedMs : ℚ≥0) : (s.time elapsedMs).Sound := by
  unfold Session.time
  split
  · exact h
  · exact h

theorem Session.Sound.closeRegion (h : s.Sound) : s.closeRegion.Sound := by
  unfold Session.closeRegion
  split
  · exact h
  · exact h

theorem Session.Sound.setReference (h : s.Sound) (data : List Value) :
    (s.setReference data).Sound := by
  unfold Session.setReference
  split
  · exact h
  · exact h

theorem Session.Sound.giveBack (h : s.Sound) : (s.giveBack true).Sound :=
  ⟨h.1, (Bool.and_true _).trans h.2⟩

theorem Session.Sound.next {n : ℕ} (h : s.Sound) (ha : a.measures = true) (hr : r.ok = true) :
    (s.next n a r).Sound := by
  obtain ⟨ok, elapsedMs, data⟩ := r
  obtain rfl : ok = true := hr
  cases a with
  | copyActual cols => cases ha
  | copyReference => exact h.setReference data
  | cudaProfilerStop => exact h.closeRegion
  | cudaEventElapsedTime start stop => exact h.time elapsedMs
  | cublasDestroy handle => exact h.giveBack
  | cudaStreamDestroy stream => exact h.giveBack
  | _ => exact h

theorem eq_next_of_step {n : ℕ} {s' : Session} (h : session.step s n a r = some s') :
    s' = s.next n a r := by
  have h' : (if s.allows a then some (s.next n a r) else none) = some s' := h
  split_ifs at h' with hallows
  exact (Option.some.inj h').symm

theorem sound_of_ok {p : Driver α} (hp : OnlyMeasures p)
    {env : Calls ApiCall Reply → ApiCall → Reply} (hok : ∀ c a, (env c a).ok = true)
    (hs : session.after (p env []).2 = some s) : s.Sound := by
  refine Protocol.invariant_of_makes hp (I := Session.Sound) ⟨rfl, rfl⟩ ?_ hs
  intro c s₀ s₁ a ha hsound hstep
  rw [eq_next_of_step hstep]
  exact hsound.next ha (hok c a)

theorem succeeds_iff {registry : List GemmConfig} {command : Command} (h : s.Sound) :
    Succeeds registry command s ↔ Succeeds registry command {} := by
  obtain ⟨hclean, hreleased⟩ := h
  cases command with
  | func query mode => simp [Succeeds, hclean, hreleased]
  | _ => simp [Succeeds, hclean, hreleased]

theorem runCommand_of_ok {registry : List GemmConfig} (command : Command)
    (hm : command.measures = true) {env : Calls ApiCall Reply → ApiCall → Reply}
    (hok : ∀ c a, (env c a).ok = true) : ∃ code, (runCommand registry command env []).1 = .ok code ∧
      (Succeeds registry command {} → code = exitSuccess) ∧
      (¬ Succeeds registry command {} → code = exitFailure) := by
  obtain ⟨s, hs, hends⟩ := (runCommand_spec registry command).run env
  have hsound := sound_of_ok (runCommand_measures hm) hok hs
  cases hcode : (runCommand registry command env []).1 with
  | error e =>
    rw [hcode] at hends
    exact absurd (hsound.1.symm.trans hends.2) (by decide)
  | ok code =>
    rw [hcode] at hends
    refine ⟨code, rfl, ?_, ?_⟩
    · rw [← succeeds_iff hsound]
      exact hends.success
    · rw [← succeeds_iff hsound]
      exact hends.failure

end Answers

section Builds

variable {maxSmemKb : ℕ} {onlyConfig : List Char} {built : List (Row × KernelSource)}

def registryOf (built : List (Row × KernelSource)) : List GemmConfig :=
  built.map fun b ↦ b.1.toGemmConfig

theorem lookup_registryOf (h : build maxSmemKb onlyConfig = .ok built) {i : ℕ} {config : GemmConfig}
    (hi : (registryOf built)[i]? = some config) :
    lookup (registryOf built) config.name = some config := by
  have hi' := hi
  rw [registryOf, List.getElem?_map, Option.map_eq_some_iff] at hi'
  obtain ⟨b, hb, rfl⟩ := hi'
  have hfound := (linked_of_build h).found i b hb b.1.name (.inl rfl)
  rw [lookup, registryOf, hfound]
  exact hi

theorem requested_ne_nil (h : build maxSmemKb onlyConfig = .ok built) :
    requested maxSmemKb onlyConfig ≠ [] := by
  intro hnil
  rw [build_eq, if_pos hnil] at h
  split_ifs at h

theorem tiles_testShapes : ∀ bm ∈ bmValues, ∀ bn ∈ bnValues, ∀ bk ∈ bkValues, ∀ shape ∈ kTestShapes,
    shape.M % bm = 0 ∧ shape.N % bn = 0 ∧ shape.K % bk = 0 := by decide

theorem supports_testShape (h : build maxSmemKb onlyConfig = .ok built) {config : GemmConfig}
    (hconfig : config ∈ registryOf built) {shape : GemmShape} (hshape : shape ∈ kTestShapes) :
    configSupportsProblem config shape.M shape.N shape.K = true := by
  obtain ⟨b, hb, rfl⟩ := List.mem_map.1 hconfig
  rw [eq_of_build h] at hb
  obtain ⟨t, ht, rfl⟩ := List.mem_map.1 hb
  obtain ⟨-, hbm, hbn, hbk, -⟩ := mem_generateConfigs.1 (mem_requested.1 ht).1
  obtain ⟨hM, hN, hK⟩ := tiles_testShapes t.bm hbm t.bn hbn t.bk hbk shape hshape
  simp [configSupportsProblem, Params.instantiated, hM, hN, hK]

theorem servable_testShape (h : build maxSmemKb onlyConfig = .ok built) {shape : GemmShape}
    (hshape : shape ∈ kTestShapes) : servable (registryOf built) shape = true := by
  obtain ⟨t, ht⟩ := List.exists_mem_of_ne_nil _ (requested_ne_nil h)
  have hmem : (t.instantiated maxSmemKb).1.toGemmConfig ∈ registryOf built := by
    rw [registryOf, eq_of_build h]
    exact List.mem_map_of_mem (List.mem_map_of_mem ht)
  exact List.any_eq_true.2 ⟨_, hmem, supports_testShape h hmem hshape⟩

/-- The smallest limit that leaves something to build. -/
theorem build_smallest : build 41 [] = .ok ((requested 41 []).map (Params.instantiated 41)) := by
  have hrequested : requested 41 [] = generateConfigs 41 := if_pos (by decide)
  have hne : requested 41 [] ≠ [] := by
    rw [hrequested, ne_eq, generateConfigs_eq_nil]
    decide
  rw [build_eq, if_neg (by decide), if_neg hne]

theorem runBenchmark_of_ok (h : build maxSmemKb onlyConfig = .ok built)
    {env : Calls ApiCall Reply → ApiCall → Reply} (hok : ∀ c a, (env c a).ok = true) :
    (runBenchmark (registryOf built) env []).1 = .ok exitSuccess := by
  obtain ⟨code, hcode, hsucceeds, -⟩ := runCommand_of_ok .benchmark rfl hok
  rw [← hsucceeds ⟨rfl, rfl, fun shape ↦ servable_testShape h⟩]
  exact hcode

/-- **Where every call succeeds, so does the driver of any build**: the benchmark of the test
shapes, that of a shape which some entry divides, and the profile of an entry on a shape that it
divides. -/
theorem driver_serves (h : build maxSmemKb onlyConfig = .ok built)
    (env : Calls ApiCall Reply → ApiCall → Reply) (hok : ∀ c a, (env c a).ok = true) :
    (runBenchmark (registryOf built) env []).1 = .ok exitSuccess ∧
      (∀ shape, (runShapeBenchmark (registryOf built) shape env []).1 =
        .ok (if servable (registryOf built) shape then exitSuccess else exitFailure)) ∧
      ∀ config ∈ registryOf built, ∀ shape warmup,
      (runProfile (registryOf built) config.name shape warmup env []).1 =
        .ok (if configSupportsProblem config shape.M shape.N shape.K then exitSuccess
          else exitFailure) := by
  refine ⟨runBenchmark_of_ok h hok, fun shape ↦ ?_, fun config hconfig shape warmup ↦ ?_⟩
  · obtain ⟨code, hcode, hsucceeds, hfails⟩ := runCommand_of_ok (.shapeBenchmark shape) rfl hok
    refine hcode.trans (congrArg Except.ok ?_)
    split_ifs with hservable
    · exact hsucceeds ⟨rfl, rfl, hservable⟩
    · exact hfails fun hs ↦ hservable hs.2.2
  · obtain ⟨i, hi⟩ := List.mem_iff_getElem?.1 hconfig
    have hlookup := lookup_registryOf h hi
    obtain ⟨code, hcode, hsucceeds, hfails⟩ :=
      runCommand_of_ok (.profile config.name shape warmup) rfl hok
    refine hcode.trans (congrArg Except.ok ?_)
    split_ifs with hsupports
    · exact hsucceeds ⟨rfl, config, hlookup, hsupports⟩
    · refine hfails fun ⟨_, config', hlookup', hsupports'⟩ ↦ hsupports ?_
      rw [hlookup, Option.some_inj] at hlookup'
      rw [hlookup']
      exact hsupports'

/-- Every call succeeds, and every time is one millisecond. -/
def steady : Calls ApiCall Reply → ApiCall → Reply := fun _ _ ↦ ⟨true, 1, []⟩

theorem driver_serves_smallest : ∃ built, build 41 [] = .ok built ∧
    (runBenchmark (registryOf built) steady []).1 = .ok exitSuccess ∧
      (∀ shape, (runShapeBenchmark (registryOf built) shape steady []).1 =
        .ok (if servable (registryOf built) shape then exitSuccess else exitFailure)) ∧
      ∀ config ∈ registryOf built, ∀ shape warmup,
      (runProfile (registryOf built) config.name shape warmup steady []).1 =
        .ok (if configSupportsProblem config shape.M shape.N shape.K then exitSuccess
          else exitFailure) :=
  ⟨_, build_smallest, driver_serves build_smallest steady fun _ _ ↦ rfl⟩

end Builds

end Sm120.Gemm
