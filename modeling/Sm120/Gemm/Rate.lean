import Sm120.Gemm.Serve
import Sm120.Lib.Lines

namespace Sm120.Gemm

open Lib Session

section Script

variable (S : SpaceTable)

def bestRe : List Piece :=
  [.literal "BEST:".toList, .run S.space 0 false, .run S.isDigit 1 true, .literal ",".toList,
    .run S.isDigit 1 true, .literal ",".toList, .run S.isDigit 1 true, .run S.space 1 false,
    .run (fun c ↦ !S.space c) 1 true]

def parseBestLine (line : List Char) : Option (ℕ × ℕ × ℕ × List Char) :=
  match matchPieces (bestRe S) (strip S.space line) with
  | some [M, N, K, cfg] => some (S.int M, S.int N, S.int K, cfg)
  | _ => none

def parseBestFile (file : List Char) : List (ℕ × ℕ × ℕ × List Char) :=
  (readLines file).filterMap (parseBestLine S)

/-- The command that `run_ncu` has `ncu` run. -/
def profileCmd (binary : List Char) (entry : ℕ × ℕ × ℕ × List Char) (warmup : ℕ) :
    List (List Char) :=
  [binary, "--profile".toList, entry.2.2.2, decimal entry.1, decimal entry.2.1,
    decimal entry.2.2.1, decimal warmup]

end Script

section Line

variable (registry : List GemmConfig) (best : BenchmarkBest)

def entryOf : ℕ × ℕ × ℕ × List Char :=
  (best.shape.M, best.shape.N, best.shape.K, configNameAt registry best.config)

/-- The part of a line that is parsed. -/
def lineStart : List Char :=
  "BEST:".toList ++
    (" ".toList ++ (decimal best.shape.M ++ (",".toList ++ (decimal best.shape.N ++ (",".toList ++
    (decimal best.shape.K ++ (" ".toList ++ configNameAt registry best.config)))))))

/-- What follows, but for the percent sign and the newline. -/
def lineRest : List Char :=
  "   ".toList ++ fixedPoint 4 best.result.latencyMs ++ " ms ".toList ++
    fixedPoint 3 best.result.throughput ++
    " TFLOP/s cublas ".toList ++ fixedPoint 4 best.cublasLatencyMs ++ " ms ".toList ++
      fixedPoint 3 best.cublasThroughput ++ " TFLOP/s gemm_tn/cublas=".toList ++
        fixedPoint 2 (throughputPercent best.result.throughput best.cublasThroughput)

theorem formatBestLine_eq : formatBestLine registry best =
    snprintf 1024 (lineStart registry best ++ lineRest best ++ ['%'] ++ ['\n']) := by
  have hstart : "BEST: ".toList = "BEST:".toList ++ " ".toList := by decide
  have hend : "%\n".toList = ['%'] ++ ['\n'] := by decide
  unfold formatBestLine lineStart lineRest
  simp only [List.append_assoc, hstart, hend]

end Line

section Plain

def isPlain (c : Char) : Bool := 32 ≤ c.toNat && c.toNat < 127

theorem isPlain_of_isIdentChar {c : Char} (h : isIdentChar c = true) : isPlain c = true := by
  rw [isIdentChar, Bool.or_eq_true, decide_eq_true_eq] at h
  obtain h | rfl := h
  · change ((decide (65 ≤ c.val ∧ c.val ≤ 90) || (97 ≤ c.val && c.val ≤ 122)) ||
      (48 ≤ c.val && c.val ≤ 57)) = true at h
    simp only [Bool.or_eq_true, Bool.and_eq_true, decide_eq_true_eq, UInt32.le_iff_toNat_le,
      UInt32.reduceToNat] at h
    have hval : c.val.toNat = c.toNat := rfl
    rw [isPlain, Bool.and_eq_true, decide_eq_true_eq, decide_eq_true_eq]
    omega
  · decide

theorem isPlain_of_isDigit {c : Char} (h : c.isDigit = true) : isPlain c = true :=
  isPlain_of_isIdentChar (isIdentChar_of_isDigit h)

theorem isPlain_fixedPoint (k : ℕ) (q : ℚ) : ∀ c ∈ fixedPoint k q, isPlain c = true := by
  intro c hc
  obtain hdigit | rfl := mem_fixedPoint hc
  · exact isPlain_of_isDigit hdigit
  · decide

theorem isPlain_decimal (n : ℕ) : ∀ c ∈ decimal n, isPlain c = true :=
  fun _ hc ↦ isPlain_of_isDigit (isDigit_of_mem_decimal hc)

variable {registry : List GemmConfig} {best : BenchmarkBest}

theorem isPlain_lineRest : ∀ c ∈ lineRest best, isPlain c = true := by
  unfold lineRest
  simp only [List.forall_mem_append, and_assoc]
  refine ⟨?_, isPlain_fixedPoint _ _, ?_, isPlain_fixedPoint _ _, ?_, isPlain_fixedPoint _ _, ?_,
    isPlain_fixedPoint _ _, ?_, isPlain_fixedPoint _ _⟩
  all_goals exact List.all_eq_true.1 (by decide)

theorem isPlain_lineStart (hname : ∀ c ∈ configNameAt registry best.config, isIdentChar c = true) :
    ∀ c ∈ lineStart registry best, isPlain c = true := by
  unfold lineStart
  simp only [List.forall_mem_append]
  refine ⟨?_, ?_, isPlain_decimal _, ?_, isPlain_decimal _, ?_, isPlain_decimal _, ?_,
    fun c hc ↦ isPlain_of_isIdentChar (hname c hc)⟩
  all_goals exact List.all_eq_true.1 (by decide)

theorem isLine_formatBestLine (hname : ∀ c ∈ configNameAt registry best.config,
    isIdentChar c = true) (hfits : (formatBestLine registry best).length < 1023) :
    IsLine (formatBestLine registry best) ∧
      formatBestLine registry best = lineStart registry best ++ lineRest best ++ ['%'] ++
        ['\n'] := by
  have hline : formatBestLine registry best = lineStart registry best ++ lineRest best ++ ['%'] ++
      ['\n'] := by
    rw [formatBestLine_eq] at hfits ⊢
    apply snprintf_eq
    rw [snprintf, List.length_take] at hfits
    omega
  have hplain : ∀ c ∈ lineStart registry best ++ lineRest best ++ ['%'], isPlain c = true := by
    simp only [List.forall_mem_append, List.forall_mem_singleton]
    exact ⟨⟨isPlain_lineStart hname, isPlain_lineRest⟩, by decide⟩
  refine ⟨⟨_, hline, ?_, ?_⟩, hline⟩
  · intro hmem
    exact absurd (hplain _ hmem) (by decide)
  · intro hmem
    exact absurd (hplain _ hmem) (by decide)

end Plain

section Parse

variable {S : SpaceTable} {registry : List GemmConfig} {best : BenchmarkBest}

theorem space_of_isPlain {c : Char} (h : isPlain c = true) (hc : c ≠ ' ') : S.space c = false := by
  rw [isPlain, Bool.and_eq_true, decide_eq_true_eq, decide_eq_true_eq] at h
  rw [S.space_ascii c (by omega)]
  simp only [hc, decide_false, Bool.false_or, Bool.or_eq_false_iff, Bool.and_eq_false_iff,
    decide_eq_false_iff_not]
  omega

theorem space_of_isIdentChar {c : Char} (h : isIdentChar c = true) : S.space c = false := by
  refine space_of_isPlain (isPlain_of_isIdentChar h) ?_
  rintro rfl
  exact absurd h (by decide)

theorem head_decimal {n : ℕ} {s : List Char} : ∀ c ∈ (decimal n ++ s).head?, S.space c = false := by
  intro c hc
  rw [List.head?_append_of_ne_nil _ (decimal_ne_nil n)] at hc
  have hdigit := isDigit_of_mem_decimal (List.mem_of_mem_head? hc)
  exact space_of_isIdentChar (isIdentChar_of_isDigit hdigit)

theorem matchPieces_group {ps : List Piece} {n : ℕ} {s : List Char}
    (hs : ∀ c ∈ s.head?, S.isDigit c = false) :
    matchPieces (.run S.isDigit 1 true :: ps) (decimal n ++ s) =
      (matchPieces ps s).map (decimal n :: ·) := by
  refine matchPieces_run (fun c hc ↦ ?_) hs (List.length_pos_of_ne_nil (decimal_ne_nil n))
  have hdigit := isDigit_of_mem_decimal hc
  rw [isDigit_eq _ (ascii_of_isDigit hdigit), hdigit]

theorem matchPieces_bestRe {M N K : ℕ} {name rest : List Char}
    (hname : ∀ c ∈ name, isIdentChar c = true) (hne : name ≠ [])
    (hrest : ∀ c ∈ rest.head?, S.space c = true) :
    matchPieces (bestRe S) ("BEST:".toList ++
      (" ".toList ++ (decimal M ++ (",".toList ++ (decimal N ++ (",".toList ++
      (decimal K ++ (" ".toList ++ (name ++ rest))))))))) =
      some [decimal M, decimal N, decimal K, name] := by
  have hspace : S.space ' ' = true := S.space_ascii ' ' (by decide)
  have hblanks : ∀ c ∈ " ".toList, S.space c = true := by
    intro c hc
    rw [List.mem_singleton.1 hc]
    exact hspace
  have hcomma : ∀ s : List Char, ∀ c ∈ (",".toList ++ s).head?, S.isDigit c = false := by
    intro s c hc
    cases hc
    exact isDigit_eq _ (by decide)
  have hblank : ∀ s : List Char, ∀ c ∈ (" ".toList ++ s).head?, S.isDigit c = false := by
    intro s c hc
    cases hc
    exact S.isDigit_of_space hspace
  have hhead : ∀ c ∈ (name ++ rest).head?, S.space c = false := by
    intro c hc
    rw [List.head?_append_of_ne_nil _ hne] at hc
    exact space_of_isIdentChar (hname c (List.mem_of_mem_head? hc))
  have hword : ∀ c ∈ name, (!S.space c) = true := by
    intro c hc
    rw [space_of_isIdentChar (hname c hc)]
    rfl
  have hend : ∀ c ∈ rest.head?, (!S.space c) = false := by
    intro c hc
    rw [hrest c hc]
    rfl
  rw [bestRe, matchPieces_literal, matchPieces_run hblanks head_decimal (Nat.zero_le _),
    matchPieces_group (hcomma _), matchPieces_literal, matchPieces_group (hcomma _),
    matchPieces_literal, matchPieces_group (hblank _), matchPieces_run hblanks hhead (by decide),
    matchPieces_run hword hend (List.length_pos_of_ne_nil hne)]
  rfl

theorem parseBestLine_eq (hname : ∀ c ∈ configNameAt registry best.config, isIdentChar c = true)
    (hne : configNameAt registry best.config ≠ []) :
    parseBestLine S (lineStart registry best ++ lineRest best ++ ['%'] ++ ['\n']) =
      some (entryOf registry best) := by
  have hstrip : strip S.space (lineStart registry best ++ lineRest best ++ ['%'] ++ ['\n']) =
      lineStart registry best ++ (lineRest best ++ ['%']) := by
    rw [← List.append_assoc]
    refine strip_line ?_ (space_of_isPlain (by decide) (by decide)) (S.space_ascii '\n' (by decide))
    intro c hc
    cases hc
    exact space_of_isPlain (by decide) (by decide)
  have hrest : ∀ c ∈ (lineRest best ++ ['%']).head?, S.space c = true := by
    intro c hc
    unfold lineRest at hc
    cases hc
    exact S.space_ascii ' ' (by decide)
  have hmatch : matchPieces (bestRe S) (lineStart registry best ++ (lineRest best ++ ['%'])) =
      some [decimal best.shape.M, decimal best.shape.N, decimal best.shape.K,
        configNameAt registry best.config] := by
    unfold lineStart
    simp only [List.append_assoc]
    exact matchPieces_bestRe hname hne hrest
  rw [parseBestLine, hstrip, hmatch]
  simp only [int_decimal]
  rfl

example : parseBestLine .asciiOnly "BEST: 128,64,32 bf16_bm64   1.0 ms\n".toList =
    some (128, 64, 32, "bf16_bm64".toList) := by decide

end Parse

/-- The script reads the best entry for every shape out of `BEST.txt`, and what it has the profiler
capture is one launch of that entry. -/
structure ReadBack (S : SpaceTable) (registry : List GemmConfig) (s : Session)
    (bestResults : List BenchmarkBest) : Prop where
  shapes : bestResults.map BenchmarkBest.shape = kTestShapes
  parsed : parseBestFile S s.written.flatten = bestResults.map (entryOf registry)
  profiled : ∀ best ∈ bestResults, ∃ i config latencyMs cublasLatencyMs,
    BestOf registry s.timed best i config latencyMs cublasLatencyMs ∧
      ∀ binary warmup, 0 < warmup → warmup ≤ 2 ^ 31 - 1 →
      ∀ env : Calls ApiCall Reply → ApiCall → Reply,
        ∃ s', session.after (main registry (profileCmd binary (entryOf registry best) warmup) env
          []).2 = some s' ∧
          Protocol.Ends (fun code s' ↦ s'.profiled = [] ∧ code = exitFailure ∨
            Isolated config best.shape warmup s')
            Aborts (main registry (profileCmd binary (entryOf registry best) warmup) env []).1 s'

section Fits

/-- A time that is not too long for a line and, unless it is zero, not too short. -/
def Moderate (t : ℚ≥0) : Prop := (t : ℚ) < 10 ^ 40 ∧ ((t : ℚ) = 0 ∨ 1 ≤ (t : ℚ) * 10 ^ 50)

theorem moderate_of_float {t : ℚ≥0} (hlt : (t : ℚ) < 2 ^ 128)
    (h : (t : ℚ) = 0 ∨ 1 ≤ (t : ℚ) * 2 ^ 149) : Moderate (t / kBenchmarkIterations) := by
  have hpos := t.coe_nonneg
  have haverage : ((t / kBenchmarkIterations : ℚ≥0) : ℚ) = t / 25 := by
    rw [NNRat.cast_div]
    norm_num [kBenchmarkIterations]
  rw [Moderate, haverage]
  constructor
  · linarith
  · obtain h | h := h
    · left
      rw [h, zero_div]
    · right
      linarith

theorem next_timed (s : Session) (n : ℕ) (a : ApiCall) (r : Reply) :
    (s.next n a r).timed = s.timed ∨
    ∃ w, (s.next n a r).timed = (w, r.elapsedMs / kBenchmarkIterations) :: s.timed := by
  obtain ⟨ok, elapsedMs, data⟩ := r
  cases ok with
  | false =>
    left
    cases a with
    | cudaProfilerStop => simp only [Session.next, Session.closeRegion]; split <;> rfl
    | _ => rfl
  | true =>
    cases a with
    | cudaEventElapsedTime start stop =>
      simp only [Session.next, Session.time, if_true]
      split
      · exact .inr ⟨_, rfl⟩
      · exact .inl rfl
    | cudaProfilerStop => left; simp only [Session.next, Session.closeRegion]; split <;> rfl
    | copyReference => left; simp only [Session.next, Session.setReference, if_true]; split <;> rfl
    | copyActual cols => left; simp only [Session.next, if_true]; split_ifs <;> rfl
    | _ => exact .inl rfl

theorem timed_moderate {α : Type} {p : Driver α} (hp : OnlyMeasures p)
    {env : Calls ApiCall Reply → ApiCall → Reply}
    (henv : ∀ c a, Moderate ((env c a).elapsedMs / kBenchmarkIterations)) {s : Session}
    (hs : session.after (p env []).2 = some s) : ∀ x ∈ s.timed, Moderate x.2 := by
  refine Protocol.invariant_of_makes hp (I := fun s : Session ↦ ∀ x ∈ s.timed,
    Moderate x.2) (fun x hx ↦ by cases hx)
    ?_ hs
  intro c s₀ s₁ a _ hs₀ hstep
  rw [eq_next_of_step hstep]
  obtain h | ⟨w, h⟩ := next_timed s₀ c.length a (env c a)
  · rwa [h]
  · rw [h]
    exact List.forall_mem_cons.2 ⟨henv c a, hs₀⟩

variable {shape : GemmShape} {t : ℚ≥0}

theorem gemmTflops_lt (hM : shape.M ≤ 2 ^ 31 - 1) (hN : shape.N ≤ 2 ^ 31 - 1)
    (hK : shape.K ≤ 2 ^ 31 - 1) (ht : Moderate t) :
    gemmTflops shape.M shape.N shape.K t < 10 ^ 72 := by
  have hproduct : ((2 * shape.M * shape.N * shape.K : ℕ) : ℚ) ≤
      (2 * 2 ^ 31 * 2 ^ 31 * 2 ^ 31 : ℕ) :=
    Nat.cast_le.2
      (Nat.mul_le_mul (Nat.mul_le_mul (Nat.mul_le_mul_left 2 (by omega)) (by omega)) (by omega))
  push_cast at hproduct
  unfold gemmTflops
  split_ifs with hle
  · norm_num
  · have htpos : (0 : ℚ) < t := not_le.1 hle
    obtain h0 | hmin := ht.2
    · exact absurd h0.le hle
    · rw [div_lt_iff₀ (by positivity)]
      linarith

variable (shape) in
theorem one_le_gemmTflops (ht : (t : ℚ) < 10 ^ 40) (h : 0 < gemmTflops shape.M shape.N shape.K t) :
    1 ≤ gemmTflops shape.M shape.N shape.K t * 10 ^ 49 := by
  have hpos : 1 ≤ 2 * shape.M * shape.N * shape.K :=
    Nat.mul_pos (Nat.mul_pos (Nat.mul_pos (by decide) shape.M_pos) shape.N_pos) shape.K_pos
  have hproduct : (1 : ℚ) ≤ 2 * shape.M * shape.N * shape.K := by exact_mod_cast hpos
  unfold gemmTflops at h ⊢
  split_ifs at h ⊢ with hle
  · exact absurd h (lt_irrefl 0)
  · have htpos : (0 : ℚ) < t := not_le.1 hle
    rw [div_mul_eq_mul_div, le_div_iff₀ (by positivity)]
    linarith

theorem throughputPercent_lt {a b : ℚ} (ha : a < 10 ^ 72) (hb : 0 < b → 1 ≤ b * 10 ^ 49) :
    throughputPercent a b < 10 ^ 125 := by
  unfold throughputPercent
  split_ifs with hle
  · norm_num
  · have hpos := not_le.1 hle
    have hmin := hb hpos
    rw [div_mul_eq_mul_div, div_lt_iff₀ hpos]
    linarith

variable {registry : List GemmConfig} {best : BenchmarkBest}

theorem length_lineStart_le (hM : best.shape.M ≤ 2 ^ 31 - 1) (hN : best.shape.N ≤ 2 ^ 31 - 1)
    (hK : best.shape.K ≤ 2 ^ 31 - 1) :
    (lineStart registry best).length ≤ 39 + (configNameAt registry best.config).length := by
  have hM' : (decimal best.shape.M).length ≤ 10 := length_decimal_le (by decide) (by omega)
  have hN' : (decimal best.shape.N).length ≤ 10 := length_decimal_le (by decide) (by omega)
  have hK' : (decimal best.shape.K).length ≤ 10 := length_decimal_le (by decide) (by omega)
  have hliterals : "BEST:".toList.length = 5 ∧ " ".toList.length = 1 ∧
      ",".toList.length = 1 := by decide
  obtain ⟨hbest, hblank, hcomma⟩ := hliterals
  unfold lineStart
  simp only [List.length_append, hbest, hblank, hcomma]
  omega

theorem length_lineRest_le (hlatency : (best.result.latencyMs : ℚ) < 10 ^ 40)
    (hthroughput : best.result.throughput < 10 ^ 72)
    (hcublas : (best.cublasLatencyMs : ℚ) < 10 ^ 40) (hcublas' : best.cublasThroughput < 10 ^ 72)
    (hpercent : throughputPercent best.result.throughput best.cublasThroughput < 10 ^ 125) :
    (lineRest best).length ≤ 426 := by
  have h₁ := length_fixedPoint_le (k := 4) (m := 40) (by decide) hlatency
  have h₂ := length_fixedPoint_le (k := 3) (m := 72) (by decide) hthroughput
  have h₃ := length_fixedPoint_le (k := 4) (m := 40) (by decide) hcublas
  have h₄ := length_fixedPoint_le (k := 3) (m := 72) (by decide) hcublas'
  have h₅ := length_fixedPoint_le (k := 2) (m := 125) (by decide) hpercent
  have hliterals : "   ".toList.length = 3 ∧ " ms ".toList.length = 4 ∧
      " TFLOP/s cublas ".toList.length = 16 ∧
      " TFLOP/s gemm_tn/cublas=".toList.length = 24 := by decide
  obtain ⟨hblanks, hms, htflops, hratio⟩ := hliterals
  unfold lineRest
  simp only [List.length_append, hblanks, hms, htflops, hratio]
  omega

end Fits

section Profile

theorem parseShape_decimal {shape : GemmShape} (hM : shape.M ≤ 2 ^ 31 - 1)
    (hN : shape.N ≤ 2 ^ 31 - 1) (hK : shape.K ≤ 2 ^ 31 - 1) :
    parseShape (decimal shape.M) (decimal shape.N) (decimal shape.K) = some shape := by
  have hM' := positiveInt_decimal shape.M_pos hM
  have hN' := positiveInt_decimal shape.N_pos hN
  have hK' := positiveInt_decimal shape.K_pos hK
  unfold parseShape
  split
  case h_1 M N K hm hn hk =>
    obtain rfl := Option.some.inj (hm.symm.trans hM')
    obtain rfl := Option.some.inj (hn.symm.trans hN')
    obtain rfl := Option.some.inj (hk.symm.trans hK')
    rfl
  case h_2 hnone => exact absurd hK' (hnone _ _ _ hM' hN')

theorem parseCommand_profileCmd {binary name : List Char} {shape : GemmShape} {warmup : ℕ}
    (hM : shape.M ≤ 2 ^ 31 - 1) (hN : shape.N ≤ 2 ^ 31 - 1) (hK : shape.K ≤ 2 ^ 31 - 1)
    (hpos : 0 < warmup) (hwarmup : warmup ≤ 2 ^ 31 - 1) :
    parseCommand (profileCmd binary (shape.M, shape.N, shape.K, name) warmup) =
      .profile name shape warmup := by
  rw [profileCmd, parseCommand, if_pos rfl, parseShape_decimal hM hN hK,
    positiveInt_decimal hpos hwarmup]
  rfl

theorem kTestShapes_le : ∀ shape ∈ kTestShapes,
    shape.M ≤ 2 ^ 31 - 1 ∧ shape.N ≤ 2 ^ 31 - 1 ∧ shape.K ≤ 2 ^ 31 - 1 := by decide

variable {maxSmemKb : ℕ} {onlyConfig : List Char} {built : List (Row × KernelSource)}

theorem name_registryOf (h : build maxSmemKb onlyConfig = .ok built) {config : GemmConfig}
    (hmem : config ∈ registryOf built) : (∀ c ∈ config.name, isIdentChar c = true) ∧
    config.name ≠ [] := by
  obtain ⟨b, hb, rfl⟩ := List.mem_map.1 hmem
  rw [eq_of_build h] at hb
  obtain ⟨t, ht, rfl⟩ := List.mem_map.1 hb
  obtain ⟨c, hc, -⟩ := t.configName_getLast
  exact ⟨t.configName_ident (typed_of_mem (mem_requested.1 ht).1),
    List.ne_nil_of_mem (List.mem_of_getLast? hc)⟩

theorem length_name_registryOf (h : build maxSmemKb onlyConfig = .ok built) {config : GemmConfig}
    (hmem : config ∈ registryOf built) : config.name.length ≤ 60 := by
  obtain ⟨b, hb, rfl⟩ := List.mem_map.1 hmem
  rw [eq_of_build h] at hb
  obtain ⟨t, ht, rfl⟩ := List.mem_map.1 hb
  exact Params.length_configName_le (mem_requested.1 ht).1

theorem runProfile_isolated {registry : List GemmConfig} {query : List Char} {config : GemmConfig}
    {shape : GemmShape} {warmup : ℕ} (hlookup : lookup registry query = some config) :
    session.Spec {} (runProfile registry query shape warmup)
      (fun code s ↦ s.profiled = [] ∧ code = exitFailure ∨
        Isolated config shape warmup s) Aborts := by
  refine runProfile_spec.mono ?_ fun e s h ↦ h
  rintro code s ⟨-, hnone | ⟨config', hlookup', hisolated⟩⟩
  · exact .inl hnone
  · rw [hlookup, Option.some_inj] at hlookup'
    rw [hlookup']
    exact .inr hisolated

theorem BestOf.configNameAt_eq {registry : List GemmConfig} {timed : List (Work × ℚ≥0)}
    {best : BenchmarkBest} {i : ℕ} {config : GemmConfig} {latencyMs cublasLatencyMs : ℚ≥0}
    (h : BestOf registry timed best i config latencyMs cublasLatencyMs) :
    configNameAt registry best.config = config.name := by
  rw [configNameAt, h.index, Option.bind_some, h.entry]
  rfl

theorem parseBestLine_formatBestLine (S : SpaceTable) (h : build maxSmemKb onlyConfig = .ok built)
    {timed : List (Work × ℚ≥0)} {best : BenchmarkBest} (hbest : Best (registryOf built) timed best)
    (hfits : (formatBestLine (registryOf built) best).length < 1023) :
    IsLine (formatBestLine (registryOf built) best) ∧
      parseBestLine S (formatBestLine (registryOf built) best) =
        some (entryOf (registryOf built) best) := by
  obtain ⟨i, config, latencyMs, cublasLatencyMs, hof⟩ := hbest
  obtain ⟨hident, hne⟩ := name_registryOf h (List.mem_of_getElem? hof.entry)
  rw [← hof.configNameAt_eq] at hident hne
  obtain ⟨hline, heq⟩ := isLine_formatBestLine hident hfits
  refine ⟨hline, ?_⟩
  rw [heq]
  exact parseBestLine_eq hident hne

theorem readBack_of_written (S : SpaceTable) (h : build maxSmemKb onlyConfig = .ok built)
    {s : Session} {bestResults : List BenchmarkBest}
    (hshapes : bestResults.map BenchmarkBest.shape = kTestShapes)
    (hbest : ∀ best ∈ bestResults, Best (registryOf built) s.timed best)
    (hwritten : s.written = bestResults.map (formatBestLine (registryOf built)))
    (hfits : ∀ line ∈ s.written, line.length < 1023) :
    ReadBack S (registryOf built) s bestResults := by
  rw [hwritten, List.forall_mem_map] at hfits
  have hline : ∀ best ∈ bestResults, IsLine (formatBestLine (registryOf built) best) ∧
      parseBestLine S (formatBestLine (registryOf built) best) =
        some (entryOf (registryOf built) best) :=
    fun best hmem ↦ parseBestLine_formatBestLine S h (hbest best hmem) (hfits best hmem)
  constructor
  · exact hshapes
  · have hlines : ∀ line ∈ s.written, IsLine line := by
      rw [hwritten, List.forall_mem_map]
      exact fun best hmem ↦ (hline best hmem).1
    rw [parseBestFile, readLines_flatten hlines, hwritten, List.filterMap_map,
      ← List.filterMap_eq_map]
    apply List.filterMap_congr
    intro best hmem
    rw [Function.comp_apply, Function.comp_apply]
    exact (hline best hmem).2
  · intro best hmem
    obtain ⟨i, config, latencyMs, cublasLatencyMs, hof⟩ := hbest best hmem
    refine ⟨i, config, latencyMs, cublasLatencyMs, hof, fun binary warmup hpos hwarmup env ↦ ?_⟩
    have hshape : best.shape ∈ kTestShapes := by
      rw [← hshapes]
      exact List.mem_map_of_mem hmem
    obtain ⟨hM, hN, hK⟩ := kTestShapes_le best.shape hshape
    rw [main, entryOf, hof.configNameAt_eq, parseCommand_profileCmd hM hN hK hpos hwarmup]
    exact (runProfile_isolated (lookup_registryOf h hof.entry)).run env

/-- Of times that floats hold, no line fills the buffer. -/
theorem formatBestLine_fits (h : build maxSmemKb onlyConfig = .ok built) {timed : List (Work × ℚ≥0)}
    {best : BenchmarkBest} (hbest : Best (registryOf built) timed best)
    (hshape : best.shape ∈ kTestShapes)
    (htimed : ∀ x ∈ timed, Moderate x.2) :
    (formatBestLine (registryOf built) best).length < 1023 := by
  obtain ⟨hM, hN, hK⟩ := kTestShapes_le best.shape hshape
  obtain ⟨i, config, latencyMs, cublasLatencyMs, hof⟩ := hbest
  have hlatency := htimed _ hof.kernel
  have hcublas := htimed _ hof.cublas
  have hthroughput := gemmTflops_lt hM hN hK hlatency
  have hcublas' := gemmTflops_lt hM hN hK hcublas
  have hpercent := throughputPercent_lt hthroughput (one_le_gemmTflops best.shape hcublas.1)
  have hrest : (lineRest best).length ≤ 426 := by
    apply length_lineRest_le
    · rw [hof.result]
      exact hlatency.1
    · rw [hof.result]
      exact hthroughput
    · rw [hof.cublasLatency]
      exact hcublas.1
    · rw [hof.cublasThroughput]
      exact hcublas'
    · rw [hof.result, hof.cublasThroughput]
      exact hpercent
  have hstart : (lineStart (registryOf built) best).length ≤
      39 + (configNameAt (registryOf built) best.config).length :=
    length_lineStart_le hM hN hK
  have hname := length_name_registryOf h (List.mem_of_getElem? hof.entry)
  rw [← hof.configNameAt_eq] at hname
  rw [formatBestLine_eq, snprintf, List.length_take]
  simp only [List.length_append, List.length_singleton]
  omega

theorem runBenchmark_fits (h : build maxSmemKb onlyConfig = .ok built)
    {env : Calls ApiCall Reply → ApiCall → Reply}
    (henv : ∀ c a, Moderate ((env c a).elapsedMs / kBenchmarkIterations)) {s : Session}
    (hs : session.after (runBenchmark (registryOf built) env []).2 = some s)
    (hcode : (runBenchmark (registryOf built) env []).1 = .ok exitSuccess) :
    ∀ line ∈ s.written, line.length < 1023 := by
  obtain ⟨s', hs', hends⟩ := runBenchmark_success.run env
  obtain rfl := Option.some.inj (hs.symm.trans hs')
  rw [hcode] at hends
  obtain ⟨bestResults, hshapes, hbest, hwritten⟩ := hends rfl
  have htimed := timed_moderate runBenchmark_measures henv hs
  rw [hwritten, List.forall_mem_map]
  intro best hmem
  refine formatBestLine_fits h (hbest best hmem) ?_ htimed
  rw [← hshapes]
  exact List.mem_map_of_mem hmem

theorem moderate_steady : ∀ c a, Moderate ((steady c a).elapsedMs / kBenchmarkIterations) := by
  intro c a
  exact moderate_of_float (by norm_num [steady]) (.inr (by norm_num [steady]))

/-- **The script profiles what the benchmark found best**, unless a line fills the buffer it is
written in. -/
theorem best_profiled (S : SpaceTable) (h : build maxSmemKb onlyConfig = .ok built)
    (env : Calls ApiCall Reply → ApiCall → Reply) :
    ∃ s, session.after (runBenchmark (registryOf built) env []).2 = some s ∧
      ((runBenchmark (registryOf built) env []).1 = .ok exitSuccess →
        (∀ line ∈ s.written, line.length < 1023) →
        ∃ bestResults, ReadBack S (registryOf built) s bestResults) := by
  obtain ⟨s, hs, hends⟩ := runBenchmark_success.run env
  refine ⟨s, hs, fun hcode hfits ↦ ?_⟩
  rw [hcode] at hends
  obtain ⟨bestResults, hshapes, hbest, hwritten⟩ := hends rfl
  exact ⟨bestResults, readBack_of_written S h hshapes hbest hwritten hfits⟩

theorem best_profiled_smallest : ∃ built s bestResults, build 41 [] = .ok built ∧
    session.after (runBenchmark (registryOf built) steady []).2 = some s ∧
      ReadBack .asciiOnly (registryOf built) s bestResults := by
  obtain ⟨s, hs, hread⟩ := best_profiled .asciiOnly build_smallest steady
  have hok : ∀ c a, (steady c a).ok = true := fun _ _ ↦ rfl
  have hcode := runBenchmark_of_ok build_smallest hok
  obtain ⟨bestResults, h⟩ := hread hcode (runBenchmark_fits build_smallest moderate_steady hs hcode)
  exact ⟨_, s, bestResults, build_smallest, hs, h⟩

end Profile

end Sm120.Gemm
