import Sm120.Gemm.Sweep

namespace Sm120.Gemm

open Lib Session

def Work.shape : Work → GemmShape
  | .kernel _ shape => shape
  | .cublas shape => shape

/-- `best` is the entry `config` with index `i`. Its latency and that of the reference are measured,
and nothing that is measured on the shape has a higher throughput. -/
structure BestOf (registry : List GemmConfig) (timed : List (Work × ℚ≥0)) (best : BenchmarkBest)
    (i : ℕ) (config : GemmConfig) (latencyMs cublasLatencyMs : ℚ≥0) : Prop where
  index : best.config = some i
  entry : registry[i]? = some config
  supports : configSupportsProblem config best.shape.M best.shape.N best.shape.K = true
  kernel : (.kernel config best.shape, latencyMs) ∈ timed
  result : best.result = benchmarkOneConfig best.shape.M best.shape.N best.shape.K (some latencyMs)
  cublas : (.cublas best.shape, cublasLatencyMs) ∈ timed
  cublasLatency : best.cublasLatencyMs = cublasLatencyMs
  cublasThroughput : best.cublasThroughput = gemmTflops best.shape.M best.shape.N best.shape.K
    cublasLatencyMs
  most : ∀ config' latencyMs', (.kernel config' best.shape, latencyMs') ∈ timed →
    gemmTflops best.shape.M best.shape.N best.shape.K latencyMs' ≤ best.result.throughput

def Best (registry : List GemmConfig) (timed : List (Work × ℚ≥0)) (best : BenchmarkBest) : Prop :=
  ∃ i config latencyMs cublasLatencyMs,
  BestOf registry timed best i config latencyMs cublasLatencyMs

variable {registry : List GemmConfig} {shape : GemmShape}

theorem Best.mono {timed timed' : List (Work × ℚ≥0)} {best : BenchmarkBest}
    (h : Best registry timed best) (hsub : timed ⊆ timed')
    (hother : ∀ x ∈ timed', x.1.shape = best.shape → x ∈ timed) : Best registry timed' best := by
  obtain ⟨i, config, latencyMs, cublasLatencyMs, h⟩ := h
  exact ⟨i, config, latencyMs, cublasLatencyMs, {
    index := h.index
    entry := h.entry
    supports := h.supports
    kernel := hsub h.kernel
    result := h.result
    cublas := hsub h.cublas
    cublasLatency := h.cublasLatency
    cublasThroughput := h.cublasThroughput
    most := fun config' latencyMs' hmem ↦ h.most config' latencyMs' (hother _ hmem rfl) }⟩

section Shape

variable (registry shape) (launched : ℕ → Option ℚ≥0) (cublasLatencyMs : ℚ≥0)

def sweepTimed : List (Work × ℚ≥0) :=
  (registry.zipIdx.filterMap (timedOf shape launched)).reverse ++ [(.cublas shape, cublasLatencyMs)]

variable {registry shape launched cublasLatencyMs}

theorem mem_sweepTimed {x : Work × ℚ≥0} : x ∈ sweepTimed registry shape launched cublasLatencyMs ↔
    (∃ y ∈ registry.zipIdx, outcome shape launched y = .ok x.2 ∧ x.1 = .kernel y.1 shape) ∨
      x = (.cublas shape, cublasLatencyMs) := by
  rw [sweepTimed, List.mem_append, List.mem_reverse, List.mem_filterMap, List.mem_singleton]
  refine or_congr ?_ Iff.rfl
  constructor
  · rintro ⟨y, hy, htimed⟩
    rw [timedOf] at htimed
    cases houtcome : outcome shape launched y with
    | skipped => simp [houtcome] at htimed
    | failed => simp [houtcome] at htimed
    | ok latencyMs =>
      rw [houtcome, Option.some_inj] at htimed
      exact ⟨y, hy, by rw [houtcome, ← htimed], by rw [← htimed]⟩
  · rintro ⟨y, hy, houtcome, hx⟩
    exact ⟨y, hy, by rw [timedOf, houtcome, ← hx]⟩

theorem sweepTimed_shape {x : Work × ℚ≥0}
    (hx : x ∈ sweepTimed registry shape launched cublasLatencyMs) : x.1.shape = shape := by
  obtain ⟨y, -, -, hx⟩ | hx := mem_sweepTimed.1 hx
  · rw [hx, Work.shape]
  · rw [hx, Work.shape]

variable (shape launched) in
theorem benchmarkStep_best (a : BenchmarkShapeResult × List BenchmarkSummary) (x : GemmConfig × ℕ) :
    (benchmarkStep shape launched a x).1.best.shape = a.1.best.shape ∧
      (benchmarkStep shape launched a x).1.best.cublasLatencyMs = a.1.best.cublasLatencyMs ∧
        (benchmarkStep shape launched a x).1.best.cublasThroughput = a.1.best.cublasThroughput := by
  rw [benchmarkStep_eq, record_eq shape a.1 (summarize_measured shape launched x)]
  dsimp only
  split_ifs
  · exact ⟨rfl, rfl, rfl⟩
  · exact ⟨rfl, rfl, rfl⟩

variable (shape launched) in
theorem foldl_best (a : BenchmarkShapeResult × List BenchmarkSummary) (l : List (GemmConfig × ℕ)) :
    (l.foldl (benchmarkStep shape launched) a).1.best.shape = a.1.best.shape ∧
      (l.foldl (benchmarkStep shape launched) a).1.best.cublasLatencyMs = a.1.best.cublasLatencyMs ∧
        (l.foldl (benchmarkStep shape launched) a).1.best.cublasThroughput =
          a.1.best.cublasThroughput := by
  induction l generalizing a with
  | nil => exact ⟨rfl, rfl, rfl⟩
  | cons x l ih =>
    obtain ⟨hshape, hlatency, hthroughput⟩ := ih (benchmarkStep shape launched a x)
    obtain ⟨hshape', hlatency', hthroughput'⟩ := benchmarkStep_best shape launched a x
    exact ⟨hshape.trans hshape', hlatency.trans hlatency', hthroughput.trans hthroughput'⟩

theorem summarize_eq_ok {x : GemmConfig × ℕ} (h : (summarize shape launched x).result.ok = true) :
    ∃ latencyMs, outcome shape launched x = .ok latencyMs ∧
      (summarize shape launched x).result = benchmarkOneConfig shape.M shape.N shape.K
        (some latencyMs) := by
  unfold summarize at h ⊢
  cases houtcome : outcome shape launched x with
  | skipped => simp [houtcome] at h
  | failed => simp [houtcome] at h
  | ok latencyMs => exact ⟨latencyMs, rfl, rfl⟩

theorem outcome_supports {x : GemmConfig × ℕ} {latencyMs : ℚ≥0}
    (h : outcome shape launched x = .ok latencyMs) :
    configSupportsProblem x.1 shape.M shape.N shape.K = true := by
  by_contra hsupport
  rw [outcome, if_neg hsupport] at h
  cases h

theorem sorted_most {t : BenchmarkSummary}
    (ht : (stableSort before (registry.zipIdx.map (summarize shape launched))).head? = some t)
    (hok : t.result.ok = true) (htm : t.result.Measured shape) {x : GemmConfig × ℕ}
    {latencyMs : ℚ≥0}
    (hx : x ∈ registry.zipIdx) (houtcome : outcome shape launched x = .ok latencyMs) :
    gemmTflops shape.M shape.N shape.K latencyMs ≤ t.result.throughput := by
  have hxok : (summarize shape launched x).result.ok = true := by
    rw [summarize_ok, houtcome]
    rfl
  have hthroughput : (summarize shape launched x).result.throughput =
      gemmTflops shape.M shape.N shape.K latencyMs := by
    simp [summarize, houtcome, benchmarkOneConfig]
  have hmem :=
    (stableSort_perm before _).mem_iff.2 (List.mem_map_of_mem (f := summarize shape launched) hx)
  have hsorted := stableSort_pairwise before (registry.zipIdx.map (summarize shape launched))
  cases hl : stableSort before (registry.zipIdx.map (summarize shape launched)) with
  | nil =>
    rw [hl] at hmem
    cases hmem
  | cons u rest =>
    rw [hl, List.head?_cons, Option.some_inj] at ht
    rw [hl, ht] at hmem hsorted
    rw [← hthroughput]
    obtain heq | hrest := List.mem_cons.1 hmem
    · rw [heq]
    · have hnot := List.rel_of_pairwise_cons hsorted hrest
      rw [before_iff_improves (summarize_measured shape launched x) htm hxok hok] at hnot
      exact not_lt.1 hnot

theorem looped_bestOf
    (h : (looped shape registry launched cublasLatencyMs).1.best.config.isSome = true) :
    Best registry (sweepTimed registry shape launched cublasLatencyMs)
      (looped shape registry launched cublasLatencyMs).1.best := by
  rw [best_isSome] at h
  have hbest := looped_best shape registry launched cublasLatencyMs
  obtain ⟨hshape, hcublas, hcublasThroughput⟩ := foldl_best shape launched
    (loopStart registry shape cublasLatencyMs, []) registry.zipIdx
  rw [← looped] at hshape hcublas hcublasThroughput
  obtain ⟨t, ht, htok⟩ := sorted_head (List.any_eq_true.1 h)
  obtain ⟨c, i, hc, rfl⟩ := sorted_mem (List.mem_of_mem_head? ht)
  have hmeasured := summarize_measured shape launched (c, i)
  rw [ht, recorded, if_pos htok, Prod.mk.injEq] at hbest
  obtain ⟨latencyMs, houtcome, hresult⟩ := summarize_eq_ok htok
  have hci := List.mk_mem_zipIdx_iff_getElem?.2 hc
  have hkernel : (Work.kernel c shape, latencyMs) ∈ sweepTimed registry shape launched
      cublasLatencyMs :=
    mem_sweepTimed.2 (.inl ⟨(c, i), hci, houtcome, rfl⟩)
  have hreference : (Work.cublas shape, cublasLatencyMs) ∈ sweepTimed registry shape launched
      cublasLatencyMs :=
    mem_sweepTimed.2 (.inr rfl)
  refine ⟨i, c, latencyMs, cublasLatencyMs, {
    index := hbest.1
    entry := hc
    supports := ?_
    kernel := ?_
    result := ?_
    cublas := ?_
    cublasLatency := hcublas
    cublasThroughput := ?_
    most := ?_ }⟩
  · rw [hshape]
    exact outcome_supports houtcome
  · rw [hshape]
    exact hkernel
  · rw [hshape, hbest.2]
    exact hresult
  · rw [hshape]
    exact hreference
  · rw [hshape, hcublasThroughput]
    rfl
  · intro config' latencyMs' hmem
    rw [hshape] at hmem ⊢
    rw [hbest.2]
    obtain ⟨y, hy, hyok, -⟩ | heq := mem_sweepTimed.1 hmem
    · exact sorted_most ht htok hmeasured hy hyok
    · exact absurd (Prod.mk.inj heq).1 (by simp)

end Shape

section Write

variable {s : Session}

theorem writeLines_spec {file : ℕ} {lines : List (List Char)} (hfile : .file file ∈ s.live) :
    session.Spec s (writeLines file lines) (fun b s' ↦
      if b then s' = { s with written := s.written ++ lines }
        else ∃ written, s' = { s.spoil with written := written })
      Aborts := by
  induction lines generalizing s with
  | nil =>
    refine .ret ?_
    rw [if_pos rfl, List.append_nil]
  | cons line lines ih =>
    refine spec_test (by simp [allows, hfile]) (fun n r ↦ rfl) ?_ (.ret ⟨s.written, rfl⟩)
    have hrest := ih (s := { s with written := s.written ++ [line] }) hfile
    rw [List.append_assoc] at hrest
    exact hrest

theorem writeBestResultsFile_spec {bestResults : List BenchmarkBest} :
    session.Spec s (writeBestResultsFile registry bestResults) (fun b s' ↦ s.Passes b true [] s' ∧
      (b = true → s'.written = bestResults.map (formatBestLine registry))) Aborts := by
  refine spec_answer rfl (fun n r ↦ rfl) (fun file r hok ↦ ?_) fun n r hok ↦ ?_
  · simp only [hok, if_true]
    refine (writeLines_spec List.mem_cons_self).bind ?_
    intro ok s₁ h₁
    cases ok with
    | true =>
      rw [if_pos rfl] at h₁
      rw [h₁]
      refine (spec_check (by simp [allows, push]) fun n r ↦ rfl).bind ?_
      intro closed s₂ h₂
      cases closed with
      | true =>
        rw [if_pos rfl] at h₂
        rw [h₂]
        exact .ret ⟨.passed, fun _ ↦ rfl⟩
      | false =>
        rw [if_neg (by decide)] at h₂
        rw [h₂]
        exact .ret ⟨.failed, by simp⟩
    | false =>
      rw [if_neg (by decide)] at h₁
      obtain ⟨written, rfl⟩ := h₁
      refine (spec_check (by simp [allows, push, spoil]) fun n r ↦ rfl).bind ?_
      intro closed s₂ h₂
      have hfailed : s.Passes false true [] s₂ := by
        split_ifs at h₂
        · rw [h₂]
          exact .failed
        · rw [h₂]
          exact .failed
      exact .ret ⟨hfailed, by simp⟩
  · simp only [hok, Bool.false_eq_true, if_false]
    exact .ret ⟨.failed, by simp⟩

end Write

section Run

def Ranked (registry : List GemmConfig) (done : List GemmShape) (a : Bool × List BenchmarkBest)
    (s : Session) : Prop :=
  ∃ ok released timed, Passes {} ok released timed s ∧
  a.1 = (ok && released && done.all (servable registry)) ∧
    (a.1 = true → a.2.map BenchmarkBest.shape = done) ∧ (∀ x ∈ timed, x.1.shape ∈ done) ∧
      ∀ best ∈ a.2, Best registry timed best ∧ best.shape ∈ done

theorem Session.Benchmarked.sweep {s s' : Session} {r : BenchmarkShapeResult × List RankingLine}
    (h : s.Benchmarked registry shape r s') : ∃ ok released timed, s.Passes ok released timed s' ∧
      good r.1 = (ok && released && servable registry shape) ∧ (∀ x ∈ timed, x.1.shape = shape) ∧
        r.1.best.shape = shape ∧ (r.1.best.config.isSome = true →
          Best registry timed r.1.best) := by
  cases h with
  | failed s' destroyed h =>
    exact ⟨_, _, _, h, rfl, by simp, rfl, by simp [benchmarkAllConfigsForShape]⟩
  | measured s' launched cublasLatencyMs destroyed h =>
    refine ⟨_, _, _, h, good_eq shape registry launched cublasLatencyMs destroyed,
      fun x ↦ sweepTimed_shape, ?_,
      looped_bestOf⟩
    exact (foldl_best shape launched (loopStart registry shape cublasLatencyMs,
      []) registry.zipIdx).1

theorem Best.append_left {timed timed' : List (Work × ℚ≥0)} {best : BenchmarkBest}
    (h : Best registry timed best) (hother : ∀ x ∈ timed', x.1.shape ≠ best.shape) :
    Best registry (timed' ++ timed) best := by
  refine h.mono (List.subset_append_right _ _) ?_
  intro x hx hshape
  obtain hx | hx := List.mem_append.1 hx
  · exact absurd hshape (hother x hx)
  · exact hx

theorem Best.append_right {timed timed' : List (Work × ℚ≥0)} {best : BenchmarkBest}
    (h : Best registry timed' best) (hother : ∀ x ∈ timed, x.1.shape ≠ best.shape) :
    Best registry (timed' ++ timed) best := by
  refine h.mono (List.subset_append_left _ _) ?_
  intro x hx hshape
  obtain hx | hx := List.mem_append.1 hx
  · exact hx
  · exact absurd hshape (hother x hx)

theorem benchmarkTestShape_spec {s : Session} {done : List GemmShape}
    {a : Bool × List BenchmarkBest} (hfresh : shape ∉ done) (h : Ranked registry done a s) :
    session.Spec s (benchmarkTestShape registry a shape)
      (Ranked registry (done ++ [shape])) Aborts := by
  obtain ⟨ok, released, timed, hpasses, hok, hshapes, hdone, hbest⟩ := h
  refine benchmarkAllConfigsForShape_spec.bind fun r s' hr ↦ .ret ?_
  obtain ⟨ok', released', timed', hpasses', hgood, htimed, hshape, hbest'⟩ := hr.sweep
  have hcode : (a.1 && r.1.ok && r.1.failed = 0 && r.1.best.config.isSome) = (a.1 && good r.1) := by
    simp [good, Bool.and_assoc]
  -- the shape is new, so nothing that was measured on another one counts for it, nor the other way
  -- round
  have hold : ∀ best ∈ a.2, Best registry (timed' ++ timed) best ∧
      best.shape ∈ done ++ [shape] := by
    intro best hmem
    obtain ⟨h, hin⟩ := hbest best hmem
    refine ⟨h.append_left fun x hx hxshape ↦ hfresh ?_, List.mem_append_left _ hin⟩
    rw [← htimed x hx, hxshape]
    exact hin
  have hnew (hsome : r.1.best.config.isSome = true) : Best registry (timed' ++ timed) r.1.best := by
    refine (hbest' hsome).append_right fun x hx hxshape ↦ hfresh ?_
    rw [← hshape, ← hxshape]
    exact hdone x hx
  refine ⟨_, _, _, hpasses.trans hpasses', ?_, ?_, ?_, ?_⟩
  · rw [hcode, hok, hgood, List.all_append, List.all_cons, List.all_nil, Bool.and_true]
    cases ok <;> cases released <;> cases ok' <;> cases released' <;> simp
  · intro hall
    rw [hcode, Bool.and_eq_true, good, Bool.and_eq_true] at hall
    simp only [hall.2.2, if_true]
    rw [List.map_append, hshapes hall.1, List.map_singleton, hshape]
  · intro x hx
    obtain hx | hx := List.mem_append.1 hx
    · rw [htimed x hx]
      exact List.mem_append_right _ List.mem_cons_self
    · exact List.mem_append_left _ (hdone x hx)
  · intro best hmem
    cases hsome : r.1.best.config.isSome with
    | false =>
      simp only [hsome, Bool.false_eq_true, if_false] at hmem
      exact hold best hmem
    | true =>
      simp only [hsome, if_true] at hmem
      obtain hmem | hmem := List.mem_append.1 hmem
      · exact hold best hmem
      · rw [List.mem_singleton.1 hmem]
        refine ⟨hnew hsome, ?_⟩
        rw [hshape]
        exact List.mem_append_right _ List.mem_cons_self

/-- `BEST.txt` has a line for every test shape, which names the best entry for it. -/
def Published (registry : List GemmConfig) (s : Session) : Prop :=
  ∃ bestResults : List BenchmarkBest, bestResults.map BenchmarkBest.shape = kTestShapes ∧
    (∀ best ∈ bestResults, Best registry s.timed best) ∧
    s.written = bestResults.map (formatBestLine registry)

theorem kTestShapes_nodup : kTestShapes.Nodup := by decide

theorem runBenchmark_spec :
    session.Spec {} (runBenchmark registry) (fun code s ↦ ∃ ok released timed b,
    Passes {} ok released timed s ∧ b = (ok && released && kTestShapes.all (servable registry)) ∧
      code = (if b then exitSuccess else exitFailure) ∧
      (b = true → Published registry s)) Aborts := by
  have hstart : Ranked registry [] (true, []) {} :=
    ⟨true, true, [], .refl, rfl, fun _ ↦ rfl, by simp, by simp⟩
  refine (Protocol.Spec.foldlM (Ranked registry) hstart ?_).bind ?_
  · intro done shape rest hl a s h
    refine benchmarkTestShape_spec ?_ h
    have hnodup := kTestShapes_nodup
    rw [hl, List.nodup_append] at hnodup
    intro hmem
    exact hnodup.2.2 shape hmem shape List.mem_cons_self rfl
  · rintro ⟨allOk, bestResults⟩ s ⟨ok, released, timed, hpasses, hok, hshapes, -, hbest⟩
    dsimp only at hok hshapes hbest
    refine writeBestResultsFile_spec.bind fun written s' ⟨hfile, hwritten⟩ ↦ .ret ?_
    have htrans := hpasses.trans hfile
    refine ⟨_, _, _, written && allOk, htrans, ?_, rfl, ?_⟩
    · rw [hok]
      cases ok <;> cases released <;> cases written <;> simp
    · intro hb
      rw [Bool.and_eq_true] at hb
      refine ⟨bestResults, hshapes hb.2, ?_, hwritten hb.1⟩
      intro best hmem
      rw [htrans.timed]
      simpa using (hbest best hmem).1

theorem runBenchmark_success : session.Spec {} (runBenchmark registry)
    (fun code s ↦ code = exitSuccess → Published registry s) Aborts := by
  refine runBenchmark_spec.mono ?_ fun e s h ↦ h
  intro code s ⟨ok, released, timed, b, _, _, hb, hpublished⟩ hcode
  cases b with
  | true => exact hpublished rfl
  | false =>
    rw [hb] at hcode
    exact absurd hcode (by decide)

/-- **A run of `--benchmark` that succeeds leaves the best entry for every test shape in
`BEST.txt`.** -/
theorem benchmark_publishes (registry : List GemmConfig)
    (env : Calls ApiCall Reply → ApiCall → Reply) :
    ∃ s, session.after (runBenchmark registry env []).2 = some s ∧
      ((runBenchmark registry env []).1 = .ok exitSuccess → Published registry s) := by
  obtain ⟨s, hs, hends⟩ := runBenchmark_success.run env
  refine ⟨s, hs, fun hcode ↦ ?_⟩
  rw [hcode] at hends
  exact hends rfl

end Run

end Sm120.Gemm
