import Sm120.Lib.Ranking
import Sm120.Gemm.Registry
import Mathlib.Algebra.Order.Ring.Rat
import Mathlib.Data.Prod.Lex

namespace Sm120.Gemm

open Lib

/-- A problem as the command line and `kTestShapes` give it: every dimension is positive. -/
structure GemmShape where
  M : ℕ
  N : ℕ
  K : ℕ
  M_pos : 0 < M
  N_pos : 0 < N
  K_pos : 0 < K

def gemmTflops (M N K : ℕ) (latencyMs : ℚ) : ℚ :=
  if latencyMs ≤ 0 then 0 else 2 * M * N * K / (latencyMs * 10 ^ 9)

def configSupportsProblem (config : GemmConfig) (M N K : ℕ) : Bool :=
  M % config.bm = 0 && N % config.bn = 0 && K % config.bk = 0

structure BenchmarkResult where
  ok : Bool := false
  skipped : Bool := false
  latencyMs : ℚ := 0
  throughput : ℚ := 0
deriving DecidableEq

/-- A `config` pointer is the index of its entry in `kGemmConfigs`. -/
structure BenchmarkSummary where
  config : ℕ
  result : BenchmarkResult
  originalIndex : ℕ
deriving DecidableEq

structure BenchmarkBest where
  shape : GemmShape
  config : Option ℕ := none
  result : BenchmarkResult := {}
  cublasLatencyMs : ℚ := 0
  cublasThroughput : ℚ := 0

structure BenchmarkShapeResult where
  ok : Bool := true
  best : BenchmarkBest
  passed : ℕ := 0
  failed : ℕ := 0
  skipped : ℕ := 0
  total : ℕ := 0

def before (lhs rhs : BenchmarkSummary) : Bool :=
  if lhs.result.ok ≠ rhs.result.ok then lhs.result.ok
  else if lhs.result.skipped ≠ rhs.result.skipped then !lhs.result.skipped
  else if !lhs.result.ok then lhs.originalIndex < rhs.originalIndex
  else if lhs.result.throughput ≠ rhs.result.throughput then
    rhs.result.throughput < lhs.result.throughput
  else lhs.result.latencyMs < rhs.result.latencyMs

/-- A printed line; one without a result says `FAILED`. -/
structure RankingLine where
  rank : ℕ
  config : ℕ
  result : Option BenchmarkResult
deriving DecidableEq

def printLoop (rank : ℕ) : List BenchmarkSummary → List RankingLine
  | [] => []
  | summary :: rest =>
    if summary.result.skipped then printLoop rank rest
    else if !summary.result.ok then ⟨rank + 1, summary.config, none⟩ :: printLoop (rank + 1) rest
    else ⟨rank + 1, summary.config, some summary.result⟩ :: printLoop (rank + 1) rest

def printBenchmarkRanking (summaries : List BenchmarkSummary) : List RankingLine :=
  printLoop 0 (stableSort before summaries)

/-- `launched` is the average that `benchmark_launcher` measures, if every launch succeeds. -/
def benchmarkOneConfig (M N K : ℕ) (launched : Option ℚ≥0) : BenchmarkResult :=
  match launched with
  | none => {}
  | some latencyMs =>
    { ok := true, latencyMs := latencyMs, throughput := gemmTflops M N K latencyMs }

section Loop

variable (shape : GemmShape) (launched : ℕ → Option ℚ≥0)

def benchmarkStep (s : BenchmarkShapeResult × List BenchmarkSummary) (x : GemmConfig × ℕ) :
    BenchmarkShapeResult × List BenchmarkSummary :=
  if !configSupportsProblem x.1 shape.M shape.N shape.K then
    ({ s.1 with skipped := s.1.skipped + 1 }, s.2 ++ [⟨x.2, { skipped := true }, x.2⟩])
  else
    let result := benchmarkOneConfig shape.M shape.N shape.K (launched x.2)
    let summaries := s.2 ++ [⟨x.2, result, x.2⟩]
    if result.ok then
      if s.1.best.config = none ∨ s.1.best.result.throughput < result.throughput then
        ({ s.1 with
            passed := s.1.passed + 1
            best := { s.1.best with config := some x.2, result := result } }, summaries)
      else ({ s.1 with passed := s.1.passed + 1 }, summaries)
    else (s.1, summaries)

/-- `cublas` is the latency of the reference, if the set-up before the loop succeeds; `destroyed` is
whether the handles are released after it. -/
def benchmarkAllConfigsForShape (registry : List GemmConfig) (cublas : Option ℚ≥0)
    (destroyed : Bool) : BenchmarkShapeResult × List RankingLine :=
  match cublas with
  | none =>
    ({
      ok := false
      best := { shape := shape }
      failed := registry.length
      total := registry.length }, [])
  | some latencyMs =>
    let start : BenchmarkShapeResult := {
      best := {
        shape := shape
        cublasLatencyMs := latencyMs
        cublasThroughput := gemmTflops shape.M shape.N shape.K latencyMs }
      total := registry.length }
    let s := registry.zipIdx.foldl (benchmarkStep shape launched) (start, [])
    ({ s.1 with ok := destroyed, failed := s.1.total - s.1.passed - s.1.skipped },
      printBenchmarkRanking s.2)

end Loop

inductive Outcome
  | skipped
  | failed
  | ok (latencyMs : ℚ≥0)
deriving DecidableEq

def Outcome.isOk : Outcome → Bool
  | .ok _ => true
  | _ => false

def outcome (shape : GemmShape) (launched : ℕ → Option ℚ≥0) (x : GemmConfig × ℕ) : Outcome :=
  if configSupportsProblem x.1 shape.M shape.N shape.K then
    match launched x.2 with
    | none => .failed
    | some latencyMs => .ok latencyMs
  else .skipped

section Comparator

/-- The five levels of `before`, in order. -/
def BenchmarkSummary.key (s : BenchmarkSummary) : Bool ×ₗ Bool ×ₗ ℕ ×ₗ ℚ ×ₗ ℚ :=
  toLex (!s.result.ok, toLex (s.result.skipped, toLex (if s.result.ok then 0 else s.originalIndex,
    toLex (if s.result.ok then -s.result.throughput else 0,
      if s.result.ok then s.result.latencyMs else 0))))

theorem before_iff_key (a b : BenchmarkSummary) : before a b = true ↔ a.key < b.key := by
  unfold before BenchmarkSummary.key
  simp only [Prod.Lex.toLex_lt_toLex]
  cases ha : a.result.ok
  · cases hb : b.result.ok
    · cases a.result.skipped <;> cases b.result.skipped <;> simp
    · simp
  · cases hb : b.result.ok
    · simp
    · by_cases ht : a.result.throughput = b.result.throughput
      · cases a.result.skipped <;> cases b.result.skipped <;> simp [ht]
      · cases a.result.skipped <;> cases b.result.skipped <;> simp [ht]

instance before_strictWeakOrder : IsStrictWeakOrder BenchmarkSummary fun a b ↦ before a b = true :=
  strictWeakOrder_of_key BenchmarkSummary.key before_iff_key

theorem before_of_ok {a b : BenchmarkSummary} (ha : a.result.ok = true) (hb : b.result.ok = false) :
    before a b = true := by
  simp [before, ha, hb]

theorem not_before_of_failed {a b : BenchmarkSummary} (ha : a.result.ok = false)
    (hb : b.result.ok = true) : ¬ before a b = true := by
  simp [before, ha, hb]

end Comparator

section Throughput

variable {shape : GemmShape}

theorem GemmShape.flops_pos (shape : GemmShape) : (0 : ℚ) < 2 * shape.M * shape.N * shape.K := by
  have hM : (0 : ℚ) < shape.M := Nat.cast_pos.2 shape.M_pos
  have hN : (0 : ℚ) < shape.N := Nat.cast_pos.2 shape.N_pos
  have hK : (0 : ℚ) < shape.K := Nat.cast_pos.2 shape.K_pos
  positivity

theorem gemmTflops_pos (shape : GemmShape) {l : ℚ} (hl : 0 < l) :
    0 < gemmTflops shape.M shape.N shape.K l := by
  rw [gemmTflops, if_neg (not_le.2 hl)]
  have := shape.flops_pos
  positivity

/-- Among measured latencies, the throughput tells them apart. -/
theorem gemmTflops_inj {l m : ℚ} (hl : 0 ≤ l) (hm : 0 ≤ m)
    (h : gemmTflops shape.M shape.N shape.K l = gemmTflops shape.M shape.N shape.K m) : l = m := by
  rcases hl.eq_or_lt with rfl | hl
  · rcases hm.eq_or_lt with rfl | hm
    · rfl
    · have hpos := gemmTflops_pos shape hm
      rw [← h] at hpos
      simp [gemmTflops] at hpos
  · rcases hm.eq_or_lt with rfl | hm
    · have hpos := gemmTflops_pos shape hl
      rw [h] at hpos
      simp [gemmTflops] at hpos
    · rw [gemmTflops, gemmTflops, if_neg (not_le.2 hl), if_neg (not_le.2 hm)] at h
      rw [div_eq_div_iff (by positivity) (by positivity)] at h
      have hlm := mul_left_cancel₀ shape.flops_pos.ne' h
      exact (mul_right_cancel₀ (by norm_num) hlm).symm

def BenchmarkResult.Measured (shape : GemmShape) (r : BenchmarkResult) : Prop :=
  r.ok = true → r.skipped = false ∧ 0 ≤ r.latencyMs ∧
    r.throughput = gemmTflops shape.M shape.N shape.K r.latencyMs

theorem before_iff_improves {a b : BenchmarkSummary} (ha : a.result.Measured shape)
    (hb : b.result.Measured shape) (hao : a.result.ok = true) (hbo : b.result.ok = true) :
    before a b = true ↔ b.result.throughput < a.result.throughput := by
  obtain ⟨has, hal, hat⟩ := ha hao
  obtain ⟨hbs, hbl, hbt⟩ := hb hbo
  by_cases h : a.result.throughput = b.result.throughput
  · have hlat : a.result.latencyMs = b.result.latencyMs := by
      apply gemmTflops_inj hal hbl
      rw [← hat, ← hbt, h]
    simp [before, hao, hbo, has, hbs, h, hlat]
  · simp [before, hao, hbo, has, hbs, h]

end Throughput

section Run

variable (shape : GemmShape) (launched : ℕ → Option ℚ≥0)

def summarize (x : GemmConfig × ℕ) : BenchmarkSummary where
  config := x.2
  result :=
    match outcome shape launched x with
    | .skipped => { skipped := true }
    | .failed => {}
    | .ok latencyMs => benchmarkOneConfig shape.M shape.N shape.K (some latencyMs)
  originalIndex := x.2

theorem summarize_measured (x : GemmConfig × ℕ) :
    (summarize shape launched x).result.Measured shape := by
  intro hok
  unfold summarize at hok ⊢
  cases h : outcome shape launched x with
  | skipped => simp [h] at hok
  | failed => simp [h] at hok
  | ok latencyMs => exact ⟨rfl, latencyMs.2, rfl⟩

theorem summarize_ok (x : GemmConfig × ℕ) :
    (summarize shape launched x).result.ok = (outcome shape launched x).isOk := by
  unfold summarize
  cases outcome shape launched x with
  | skipped => rfl
  | failed => rfl
  | ok latencyMs => rfl

theorem summarize_skipped (x : GemmConfig × ℕ) :
    (summarize shape launched x).result.skipped = true ↔ outcome shape launched x = .skipped := by
  unfold summarize
  cases outcome shape launched x with
  | skipped => simp
  | failed => simp
  | ok latencyMs => simp [benchmarkOneConfig]

/-- What is recorded of a running best: an entry that is not ok is no best. -/
def recorded (best : Option BenchmarkSummary) : Option ℕ × BenchmarkResult :=
  match best with
  | some b => if b.result.ok then (some b.config, b.result) else (none, {})
  | none => (none, {})

theorem recorded_improve {best : Option BenchmarkSummary} {x : BenchmarkSummary}
    (hbest : ∀ b ∈ best, b.result.Measured shape) (hx : x.result.Measured shape) :
    recorded (improve before best x) =
      if x.result.ok = true ∧ ((recorded best).1 = none ∨
        (recorded best).2.throughput < x.result.throughput) then
        (some x.config, x.result)
      else recorded best := by
  cases best with
  | none =>
    simp [improve, recorded]
  | some b =>
    cases hxo : x.result.ok
    · cases hbo : b.result.ok
      · by_cases h : before x b = true
        · simp [improve, recorded, h, hxo, hbo]
        · simp [improve, recorded, h, hbo]
      · simp [improve, recorded, not_before_of_failed hxo hbo]
    · cases hbo : b.result.ok
      · simp [improve, recorded, before_of_ok hxo hbo, hxo, hbo]
      · have hiff := before_iff_improves hx (hbest b rfl) hxo hbo
        by_cases h : before x b = true
        · simp [improve, recorded, h, hxo, hbo, hiff.1 h]
        · simp [improve, recorded, h, hbo, mt hiff.2 h]

def BenchmarkShapeResult.record (r : BenchmarkShapeResult) (s : BenchmarkSummary) :
    BenchmarkShapeResult :=
  if s.result.skipped then { r with skipped := r.skipped + 1 }
  else if s.result.ok then
    if r.best.config = none ∨ r.best.result.throughput < s.result.throughput then
      { r with
        passed := r.passed + 1
        best := { r.best with config := some s.config, result := s.result } }
    else { r with passed := r.passed + 1 }
  else r

theorem benchmarkStep_eq (s : BenchmarkShapeResult × List BenchmarkSummary) (x : GemmConfig × ℕ) :
    benchmarkStep shape launched s x =
      (s.1.record (summarize shape launched x), s.2 ++ [summarize shape launched x]) := by
  unfold benchmarkStep BenchmarkShapeResult.record summarize outcome
  cases h : configSupportsProblem x.1 shape.M shape.N shape.K
  · simp
  · cases hl : launched x.2 with
    | none => simp [benchmarkOneConfig]
    | some latencyMs =>
      by_cases hc : s.1.best.config = none ∨
          s.1.best.result.throughput < gemmTflops shape.M shape.N shape.K latencyMs
      · simp only [benchmarkOneConfig, Bool.not_true, Bool.false_eq_true, if_false, if_true, hc]
      · simp only [benchmarkOneConfig, Bool.not_true, Bool.false_eq_true, if_false, if_true, hc]

theorem record_eq (r : BenchmarkShapeResult) {x : BenchmarkSummary} (hx : x.result.Measured shape) :
    r.record x = { r with
      best :=
        if x.result.ok = true ∧
          (r.best.config = none ∨ r.best.result.throughput < x.result.throughput) then
          { r.best with config := some x.config, result := x.result }
        else r.best
      passed := r.passed + if x.result.ok then 1 else 0
      skipped := r.skipped + if x.result.skipped then 1 else 0 } := by
  unfold BenchmarkShapeResult.record
  cases hok : x.result.ok
  · cases hskip : x.result.skipped
    · simp
    · simp
  · rw [(hx hok).1]
    by_cases hc : r.best.config = none ∨ r.best.result.throughput < x.result.throughput
    · simp [hc]
    · simp [hc]

/-- The state of the loop after the entries `xs`. -/
structure Recorded (start : BenchmarkShapeResult) (xs : List (GemmConfig × ℕ))
    (s : BenchmarkShapeResult × List BenchmarkSummary) : Prop where
  summaries : s.2 = xs.map (summarize shape launched)
  best : (s.1.best.config, s.1.best.result) =
    recorded ((xs.map (summarize shape launched)).foldl (improve before) none)
  passed : s.1.passed = (xs.map (outcome shape launched)).countP Outcome.isOk
  skipped : s.1.skipped = (xs.map (outcome shape launched)).count .skipped
  total : s.1.total = start.total

variable {shape launched} in
theorem foldl_improve_measured {xs : List (GemmConfig × ℕ)} {b : BenchmarkSummary}
    (hb : b ∈ (xs.map (summarize shape launched)).foldl (improve before) none) :
    b.result.Measured shape := by
  rw [← head?_stableSort] at hb
  have hmem := (stableSort_perm before _).mem_iff.1 (List.mem_of_mem_head? hb)
  obtain ⟨x, -, rfl⟩ := List.mem_map.1 hmem
  exact summarize_measured shape launched x

variable {shape launched} in
theorem Recorded.step {start : BenchmarkShapeResult} {xs : List (GemmConfig × ℕ)}
    {s : BenchmarkShapeResult × List BenchmarkSummary} (h : Recorded shape launched start xs s)
    (x : GemmConfig × ℕ) :
    Recorded shape launched start (xs ++ [x]) (benchmarkStep shape launched s x) := by
  have hx := summarize_measured shape launched x
  rw [benchmarkStep_eq, record_eq shape s.1 hx]
  refine ⟨?_, ?_, ?_, ?_, h.total⟩
  · rw [h.summaries, List.map_append, List.map_singleton]
  · have hbest : ∀ b ∈ (xs.map (summarize shape launched)).foldl (improve before) none,
        b.result.Measured shape :=
      fun b ↦ foldl_improve_measured
    have himp := recorded_improve shape hbest hx
    rw [List.map_append, List.foldl_append, List.map_singleton, List.foldl_cons, List.foldl_nil,
      himp, ← h.best]
    dsimp only
    split_ifs
    · rfl
    · rfl
  · rw [List.map_append, List.countP_append, List.map_singleton, List.countP_singleton, ← h.passed]
    simp only [summarize_ok]
  · rw [List.map_append, List.count_append, List.map_singleton, List.count_singleton, ← h.skipped]
    simp only [beq_iff_eq, summarize_skipped]

theorem benchmark_recorded (start : BenchmarkShapeResult) (hstart : start.best.config = none)
    (hresult : start.best.result = {}) (hpassed : start.passed = 0) (hskipped : start.skipped = 0)
    (xs : List (GemmConfig × ℕ)) :
    Recorded shape launched start xs (xs.foldl (benchmarkStep shape launched) (start, [])) := by
  induction xs using List.reverseRecOn with
  | nil =>
    refine ⟨rfl, ?_, hpassed, hskipped, rfl⟩
    rw [List.foldl_nil, hstart, hresult]
    rfl
  | append_singleton xs x ih =>
    rw [List.foldl_append]
    exact ih.step x

end Run

section Listing

def BenchmarkSummary.line (s : BenchmarkSummary) (rank : ℕ) : RankingLine :=
  ⟨rank, s.config, if s.result.ok then some s.result else none⟩

theorem printLoop_eq (rank : ℕ) (l : List BenchmarkSummary) : printLoop rank l =
    ((l.filter fun s ↦ !s.result.skipped).zipIdx (rank + 1)).map fun x ↦ x.1.line x.2 := by
  induction l generalizing rank with
  | nil => rfl
  | cons s rest ih =>
    unfold printLoop
    cases hskip : s.result.skipped
    · cases hok : s.result.ok
      · simp [hskip, hok, ih, BenchmarkSummary.line]
      · simp [hskip, hok, ih, BenchmarkSummary.line]
    · simp [hskip, ih]

theorem printLoop_rank (rank : ℕ) (l : List BenchmarkSummary) :
    (printLoop rank l).map RankingLine.rank =
    List.range' (rank + 1) (l.filter fun s ↦ !s.result.skipped).length := by
  rw [printLoop_eq, List.map_map, ← List.zipIdx_map_snd]
  rfl

theorem printLoop_config (rank : ℕ) (l : List BenchmarkSummary) :
    (printLoop rank l).map RankingLine.config =
    (l.filter fun s ↦ !s.result.skipped).map BenchmarkSummary.config := by
  rw [printLoop_eq, List.map_map]
  conv_rhs => rw [← List.zipIdx_map_fst (rank + 1) (l.filter _), List.map_map]
  rfl

theorem mem_printLoop {rank : ℕ} {l : List BenchmarkSummary} {line : RankingLine}
    (h : line ∈ printLoop rank l) : ∃ s ∈ l, s.result.skipped = false ∧ ∃ k, line = s.line k := by
  rw [printLoop_eq] at h
  obtain ⟨⟨s, k⟩, hs, rfl⟩ := List.mem_map.1 h
  have hmem := List.mem_filter.1 (List.fst_mem_of_mem_zipIdx hs)
  exact ⟨s, hmem.1, by simpa using hmem.2, k, rfl⟩

theorem printLoop_okFirst {rank : ℕ} {l : List BenchmarkSummary}
    (h : l.Pairwise fun a b ↦ ¬ before b a = true) :
    (printLoop rank l).Pairwise fun a b ↦ b.result.isSome = true → a.result.isSome = true := by
  induction l generalizing rank with
  | nil => exact .nil
  | cons s rest ih =>
    obtain ⟨hs, hrest⟩ := List.pairwise_cons.1 h
    unfold printLoop
    split_ifs with hskip hok
    · exact ih hrest
    · apply List.Pairwise.cons _ (ih hrest)
      intro line hline hsome
      obtain ⟨t, ht, -, k, rfl⟩ := mem_printLoop hline
      have htok : t.result.ok = true := by
        by_contra hfail
        rw [BenchmarkSummary.line, if_neg hfail] at hsome
        exact Bool.false_ne_true hsome
      exact absurd (before_of_ok htok (by simpa using hok)) (hs t ht)
    · apply List.Pairwise.cons _ (ih hrest)
      intro line _ _
      rfl

theorem printLoop_head {rank : ℕ} {l : List BenchmarkSummary} {s : BenchmarkSummary}
    (h : l.head? = some s) (hskip : s.result.skipped = false) :
    (printLoop rank l).head? = some (s.line (rank + 1)) := by
  obtain ⟨rest, rfl⟩ := List.head?_eq_some_iff.1 h
  unfold printLoop BenchmarkSummary.line
  cases hok : s.result.ok
  · simp [hskip]
  · simp [hskip]

theorem outcomes_count (l : List Outcome) :
    l.length = l.countP Outcome.isOk + l.count .failed + l.count .skipped := by
  induction l with
  | nil => rfl
  | cons o l ih =>
    cases o with
    | skipped =>
      rw [List.length_cons, ih, List.countP_cons_of_neg (by decide),
        List.count_cons_of_ne (by decide), List.count_cons_self]
      rfl
    | failed =>
      rw [List.length_cons, ih, List.countP_cons_of_neg (by decide), List.count_cons_self,
        List.count_cons_of_ne (by decide)]
      omega
    | ok latencyMs =>
      rw [List.length_cons, ih, List.countP_cons_of_pos rfl, List.count_cons_of_ne (by simp),
        List.count_cons_of_ne (by simp)]
      omega

end Listing

section Agreement

variable (shape : GemmShape) (launched : ℕ → Option ℚ≥0) (registry : List GemmConfig)

def Outcome.result (shape : GemmShape) : Outcome → Option BenchmarkResult
  | .ok latencyMs => some (benchmarkOneConfig shape.M shape.N shape.K (some latencyMs))
  | _ => none

def outcomes : List Outcome := registry.zipIdx.map (outcome shape launched)

/-- What is recorded for a shape and what is printed for it agree. -/
structure RankingExact (r : BenchmarkShapeResult × List RankingLine) : Prop where
  total : r.1.total = registry.length
  passed : r.1.passed = (outcomes shape launched registry).countP Outcome.isOk
  failed : r.1.failed = (outcomes shape launched registry).count .failed
  skipped : r.1.skipped = (outcomes shape launched registry).count .skipped
  counts : r.1.passed + r.1.failed + r.1.skipped = r.1.total
  ranks : r.2.map RankingLine.rank = List.range' 1 (r.1.total - r.1.skipped)
  listed : (r.2.map RankingLine.config).Perm
    ((registry.zipIdx.filter fun x ↦ outcome shape launched x ≠ .skipped).map Prod.snd)
  lines : ∀ line ∈ r.2, ∃ c : GemmConfig, registry[line.config]? = some c ∧
    outcome shape launched (c, line.config) ≠ .skipped ∧
    line.result = (outcome shape launched (c, line.config)).result shape
  okFirst : r.2.Pairwise fun a b ↦ b.result.isSome = true → a.result.isSome = true
  best : (∃ o ∈ outcomes shape launched registry, o.isOk = true) → ∃ config : ℕ,
    r.1.best.config = some config ∧ r.2.head? = some ⟨1, config, some r.1.best.result⟩
  noBest : (∀ o ∈ outcomes shape launched registry, ¬ o.isOk = true) → r.1.best.config = none

variable {shape launched registry}

theorem summarize_line (x : GemmConfig × ℕ) (rank : ℕ) :
    (summarize shape launched x).line rank = ⟨rank, x.2,
      (outcome shape launched x).result shape⟩ := by
  unfold summarize BenchmarkSummary.line
  cases outcome shape launched x with
  | skipped => rfl
  | failed => rfl
  | ok latencyMs => rfl

theorem sorted_mem {s : BenchmarkSummary}
    (h : s ∈ stableSort before (registry.zipIdx.map (summarize shape launched))) :
    ∃ c i, registry[i]? = some c ∧ s = summarize shape launched (c, i) := by
  obtain ⟨⟨c, i⟩, hx, rfl⟩ := List.mem_map.1 ((stableSort_perm before _).mem_iff.1 h)
  exact ⟨c, i, List.mem_zipIdx_iff_getElem?.1 hx, rfl⟩

theorem sorted_head (h : ∃ o ∈ outcomes shape launched registry, o.isOk = true) :
    ∃ s, (stableSort before (registry.zipIdx.map (summarize shape launched))).head? = some s ∧
      s.result.ok = true := by
  obtain ⟨o, ho, hok⟩ := h
  obtain ⟨x, hx, rfl⟩ := List.mem_map.1 ho
  rw [← summarize_ok] at hok
  have hmem :=
    (stableSort_perm before _).mem_iff.2 (List.mem_map_of_mem (f := summarize shape launched) hx)
  have hsorted := stableSort_pairwise before (registry.zipIdx.map (summarize shape launched))
  cases hl : stableSort before (registry.zipIdx.map (summarize shape launched)) with
  | nil => rw [hl] at hmem; cases hmem
  | cons s rest =>
    refine ⟨s, rfl, ?_⟩
    rw [hl] at hmem hsorted
    rcases List.mem_cons.1 hmem with rfl | hmem
    · exact hok
    · by_contra hfail
      exact List.rel_of_pairwise_cons hsorted hmem (before_of_ok hok (by simpa using hfail))

theorem listed_perm :
    (((stableSort before (registry.zipIdx.map (summarize shape launched))).filter fun s ↦
      !s.result.skipped).map BenchmarkSummary.config).Perm
        ((registry.zipIdx.filter fun x ↦ outcome shape launched x ≠ .skipped).map Prod.snd) := by
  have hperm := ((stableSort_perm before (registry.zipIdx.map (summarize shape launched))).filter
    fun s ↦ !s.result.skipped).map BenchmarkSummary.config
  apply hperm.trans
  rw [List.filter_map, List.map_map]
  have hfilter : (registry.zipIdx.filter ((fun s ↦ !s.result.skipped) ∘ summarize shape launched)) =
      registry.zipIdx.filter fun x ↦ outcome shape launched x ≠ .skipped := by
    apply List.filter_congr
    intro x _
    simp [← summarize_skipped]
  rw [hfilter]
  exact .refl _

theorem listed_length :
    ((stableSort before (registry.zipIdx.map (summarize shape launched))).filter fun s ↦
      !s.result.skipped).length =
      registry.length - (outcomes shape launched registry).count .skipped := by
  have hperm := (stableSort_perm before (registry.zipIdx.map (summarize shape launched))).filter
    fun s ↦ !s.result.skipped
  have hlen : (outcomes shape launched registry).length = registry.length := by simp [outcomes]
  have hcount :
      ((registry.zipIdx.map (summarize shape launched)).filter fun s ↦ !s.result.skipped).length +
      (outcomes shape launched registry).count .skipped =
        (outcomes shape launched registry).length := by
    rw [← List.countP_eq_length_filter, outcomes, List.countP_map, List.length_map, List.count,
      List.countP_map, Nat.add_comm, List.length_eq_countP_add_countP
      (fun x ↦ decide (outcome shape launched x = .skipped))]
    congr 1
    apply List.countP_congr
    intro x _
    simp [← summarize_skipped]
  rw [hperm.length_eq, ← hlen]
  omega

theorem line_outcome {rank : ℕ} {line : RankingLine}
    (h : line ∈ printLoop rank
      (stableSort before (registry.zipIdx.map (summarize shape launched)))) :
    ∃ c : GemmConfig, registry[line.config]? = some c ∧
    outcome shape launched (c, line.config) ≠ .skipped ∧
      line.result = (outcome shape launched (c, line.config)).result shape := by
  obtain ⟨s, hs, hskip, k, rfl⟩ := mem_printLoop h
  obtain ⟨c, i, hc, rfl⟩ := sorted_mem hs
  rw [summarize_line]
  refine ⟨c, hc, ?_, rfl⟩
  intro hout
  rw [(summarize_skipped shape launched (c, i)).2 hout] at hskip
  exact absurd hskip (by decide)

theorem recorded_none (h : ∀ o ∈ outcomes shape launched registry, ¬ o.isOk = true) :
    recorded (stableSort before (registry.zipIdx.map (summarize shape launched))).head? =
      (none, {}) := by
  cases hs : (stableSort before (registry.zipIdx.map (summarize shape launched))).head? with
  | none => rfl
  | some s =>
    obtain ⟨c, i, hc, rfl⟩ := sorted_mem (List.mem_of_mem_head? hs)
    have hmem :=
      List.mem_map_of_mem (f := outcome shape launched) (List.mk_mem_zipIdx_iff_getElem?.2 hc)
    rw [recorded, if_neg]
    rw [summarize_ok]
    exact h _ hmem

theorem benchmark_ranking_agrees (cublas : ℚ≥0) (destroyed : Bool) :
    IsStrictWeakOrder BenchmarkSummary (fun a b ↦ before a b = true) ∧
      RankingExact shape launched registry
        (benchmarkAllConfigsForShape shape launched registry (some cublas) destroyed) := by
  refine ⟨before_strictWeakOrder, ?_⟩
  have hrec := benchmark_recorded shape launched {
    best := {
      shape := shape
      cublasLatencyMs := cublas
      cublasThroughput := gemmTflops shape.M shape.N shape.K cublas }
    total := registry.length } rfl rfl rfl rfl registry.zipIdx
  have hsum := outcomes_count (outcomes shape launched registry)
  have hlen : (outcomes shape launched registry).length = registry.length := by simp [outcomes]
  simp only [benchmarkAllConfigsForShape, printBenchmarkRanking]
  generalize registry.zipIdx.foldl _ _ = s at hrec ⊢
  obtain ⟨hs, hbest, hpassed, hskipped, htotal⟩ := hrec
  rw [← outcomes] at hpassed hskipped
  rw [← head?_stableSort] at hbest
  simp only [hs]
  exact {
    total := htotal
    passed := hpassed
    failed := by simp only [htotal]; omega
    skipped := hskipped
    counts := by simp only [htotal]; omega
    ranks := by simp only [printLoop_rank, listed_length, htotal, hskipped]
    listed := by
      rw [printLoop_config]
      exact listed_perm
    lines := fun _ ↦ line_outcome
    okFirst := printLoop_okFirst (stableSort_pairwise before _)
    best := by
      intro hok
      obtain ⟨t, ht, htok⟩ := sorted_head hok
      obtain ⟨c, i, -, rfl⟩ := sorted_mem (List.mem_of_mem_head? ht)
      rw [ht, recorded, if_pos htok, Prod.mk.injEq] at hbest
      refine ⟨_, hbest.1, ?_⟩
      rw [printLoop_head ht (summarize_measured shape launched (c, i) htok).1,
        BenchmarkSummary.line, if_pos htok, hbest.2]
    noBest := by
      intro hnone
      rw [recorded_none hnone, Prod.mk.injEq] at hbest
      exact hbest.1
  }

end Agreement

end Sm120.Gemm
