import Mathlib.Data.List.Basic
import Sm120.Lib.Ieee

namespace Sm120.Gemm

open Lib

abbrev Value := Ieee ℚ

structure Tolerances where
  absTol : Value
  relTol : Value
  absTol_nonneg : 0 ≤ absTol
  relTol_nonneg : 0 ≤ relTol

def Tolerances.default : Tolerances where
  absTol := .fin (1 / 100)
  relTol := .fin (5 / 100)
  absTol_nonneg := by decide +kernel
  relTol_nonneg := by decide +kernel

namespace Tolerances

variable (t : Tolerances)

def absDiff (got ref : Value) : Value := (got - ref).abs

def relDiff (got ref : Value) : Value := absDiff got ref / Ieee.max ref.abs (.fin (1 / 10 ^ 20))

def allowed (ref : Value) : Value := t.absTol + t.relTol * ref.abs

end Tolerances

structure Findings where
  mismatches : ℕ
  firstMismatch : ℕ
  maxIdx : ℕ
  maxAbs : Value
  maxRel : Value

inductive Message
  | sizeMismatch (actual reference : ℕ)
  | verifyDetail (maxAbs maxRel : Value) (maxIdx mismatches size : ℕ)
  | firstMismatch (index row col : ℕ) (got ref : Value)

section Loop

variable (t : Tolerances) (size : ℕ)

def Findings.init : Findings := ⟨0, size, 0, 0, 0⟩

def Findings.update (s : Findings) (i : ℕ) (got ref : Value) : Findings :=
  if Tolerances.absDiff got ref > s.maxAbs then
    { s with
      maxAbs := Tolerances.absDiff got ref
      maxRel := Tolerances.relDiff got ref
      maxIdx := i }
  else s

def Findings.count (s : Findings) (i : ℕ) (got ref : Value) : Findings :=
  if Tolerances.absDiff got ref > t.allowed ref then
    { s with
      firstMismatch := if s.firstMismatch = size then i else s.firstMismatch
      mismatches := s.mismatches + 1 }
  else s

def verifyLoop : ℕ → List (Value × Value) → Findings → Findings
  | _, [], s => s
  | i, (got, ref) :: rest, s =>
    verifyLoop (i + 1) rest ((s.update i got ref).count t size i got ref)

end Loop

/-- The verdict and what is printed. -/
def verifyResult (actual reference : List Value) (cols : ℕ) (t : Tolerances) (printDetail : Bool) :
    Bool × List Message :=
  if actual.length ≠ reference.length then (false, [.sizeMismatch actual.length reference.length])
  else
    let s := verifyLoop t actual.length 0 (actual.zip reference) (.init actual.length)
    let detail := if printDetail then
      [Message.verifyDetail s.maxAbs s.maxRel s.maxIdx s.mismatches actual.length] else []
    if s.mismatches ≠ 0 then
      let row := s.firstMismatch / cols
      let col := s.firstMismatch % cols
      (false, detail ++ if printDetail then
        [Message.firstMismatch s.firstMismatch row col (actual.getD s.firstMismatch .nan)
          (reference.getD s.firstMismatch .nan)] else [])
    else (true, detail)

namespace Tolerances

variable (t : Tolerances)

/-- The comparison that the oracle stands for. -/
def Close (p : Value × Value) : Prop := absDiff p.1 p.2 ≤ t.allowed p.2

/-- The comparison that the loop makes. -/
def Exceeds (p : Value × Value) : Prop := absDiff p.1 p.2 > t.allowed p.2

instance : DecidablePred t.Exceeds :=
  fun p ↦ inferInstanceAs (Decidable (absDiff p.1 p.2 > t.allowed p.2))

/-- The two sides are no numbers: a NaN, a difference of equal infinities, or zero times
infinity. -/
def Unordered (p : Value × Value) : Prop :=
  p.1 = .nan ∨ p.2 = .nan ∨ (∃ s, p.1 = .inf s ∧ p.2 = .inf s) ∨
  (t.relTol = 0 ∧ ∃ s, p.2 = .inf s) ∨
    (∃ s, t.relTol = .inf s) ∧ p.2 = 0

variable {t}

theorem absDiff_eq_nan_iff {got ref : Value} : absDiff got ref = .nan ↔
    got = .nan ∨ ref = .nan ∨ ∃ s, got = .inf s ∧ ref = .inf s := by
  rw [absDiff, Ieee.abs_eq_nan_iff, Ieee.sub_eq_nan_iff]

theorem ne_nan_of_nonneg {a : Value} (h : 0 ≤ a) : a ≠ .nan := by
  rintro rfl
  exact Ieee.not_le_of_nan (.inr rfl) h

theorem allowed_eq_nan_iff {ref : Value} : t.allowed ref = .nan ↔
    ref = .nan ∨ (t.relTol = 0 ∧ ∃ s, ref = .inf s) ∨ (∃ s, t.relTol = .inf s) ∧ ref = 0 := by
  have hmul : t.relTol * ref.abs = .nan ↔
      ref = .nan ∨ (t.relTol = 0 ∧ ∃ s, ref = .inf s) ∨ (∃ s, t.relTol = .inf s) ∧ ref = 0 := by
    have hinf : (∃ s, ref.abs = .inf s) ↔ ∃ s, ref = .inf s := by
      cases ref <;> simp [Ieee.abs]
    have hzero : ref.abs = 0 ↔ ref = 0 := by
      change ref.abs = .fin 0 ↔ ref = .fin 0
      cases ref <;> simp [Ieee.abs]
    rw [Ieee.mul_eq_nan_iff, Ieee.abs_eq_nan_iff, hinf, hzero]
    simp only [ne_nan_of_nonneg t.relTol_nonneg, false_or]
  rw [← hmul]
  constructor
  · intro h
    by_contra hne
    have href : ref ≠ .nan := fun hr ↦ hne (hmul.2 (.inl hr))
    have hpos := Ieee.mul_nonneg t.relTol_nonneg (Ieee.abs_nonneg href) hne
    exact Ieee.add_ne_nan t.absTol_nonneg hpos h
  · intro h
    rw [allowed, h]
    cases t.absTol <;> rfl

theorem unordered_iff {p : Value × Value} :
    t.Unordered p ↔ absDiff p.1 p.2 = .nan ∨ t.allowed p.2 = .nan := by
  rw [absDiff_eq_nan_iff, allowed_eq_nan_iff, Unordered]
  constructor
  · rintro (h | h | h | h)
    · exact .inl (.inl h)
    · exact .inl (.inr (.inl h))
    · exact .inl (.inr (.inr h))
    · exact .inr (.inr h)
  · rintro ((h | h | h) | h | h)
    · exact .inl h
    · exact .inr (.inl h)
    · exact .inr (.inr (.inl h))
    · exact .inr (.inl h)
    · exact .inr (.inr (.inr h))

/-- The two comparisons differ only where the sides are unordered. -/
theorem close_iff {p : Value × Value} : t.Close p ↔ ¬ t.Exceeds p ∧ ¬ t.Unordered p := by
  by_cases h : t.Unordered p
  · simp only [h, not_true_eq_false, and_false, iff_false]
    exact Ieee.not_le_of_nan (unordered_iff.1 h)
  · have hn := unordered_iff.not.1 h
    rw [not_or] at hn
    simp only [h, not_false_eq_true, and_true]
    exact Ieee.le_iff_not_lt hn.1 hn.2

theorem not_exceeds_of_unordered {p : Value × Value} (h : t.Unordered p) : ¬ t.Exceeds p :=
  Ieee.not_lt_of_nan (unordered_iff.1 h).symm

end Tolerances

section Loop

variable {t : Tolerances} {size : ℕ}

theorem step_mismatches (s : Findings) (i : ℕ) (p : Value × Value) :
    ((s.update i p.1 p.2).count t size i p.1 p.2).mismatches =
      s.mismatches + if t.Exceeds p then 1 else 0 := by
  have hup : (s.update i p.1 p.2).mismatches = s.mismatches := by
    unfold Findings.update
    split_ifs <;> rfl
  rw [← hup]
  change (if t.Exceeds p then _ else _ : Findings).mismatches = _
  split_ifs <;> rfl

theorem step_firstMismatch (s : Findings) (i : ℕ) (p : Value × Value) :
    ((s.update i p.1 p.2).count t size i p.1 p.2).firstMismatch =
      if t.Exceeds p ∧ s.firstMismatch = size then i else s.firstMismatch := by
  have hup : (s.update i p.1 p.2).firstMismatch = s.firstMismatch := by
    unfold Findings.update
    split_ifs <;> rfl
  rw [← hup, ite_and]
  change (if t.Exceeds p then _ else _ : Findings).firstMismatch = _
  split_ifs <;> rfl

theorem verifyLoop_mismatches (i : ℕ) (ps : List (Value × Value)) (s : Findings) :
    (verifyLoop t size i ps s).mismatches = s.mismatches + ps.countP (fun p ↦ t.Exceeds p) := by
  induction ps generalizing i s with
  | nil => rfl
  | cons p ps ih =>
    rw [verifyLoop, ih, step_mismatches, List.countP_cons]
    simp only [decide_eq_true_eq]
    omega

theorem verifyLoop_firstMismatch (i : ℕ) (ps : List (Value × Value)) (s : Findings)
    (hi : i + ps.length = size) : (verifyLoop t size i ps s).firstMismatch =
      if s.firstMismatch = size then i + ps.findIdx (fun p ↦ t.Exceeds p) else s.firstMismatch := by
  induction ps generalizing i s with
  | nil =>
    rw [List.length_nil] at hi
    rw [verifyLoop, List.findIdx_nil, hi]
    split_ifs with h
    · exact h
    · rfl
  | cons p ps ih =>
    rw [List.length_cons] at hi
    rw [verifyLoop, ih (i + 1) _ (by omega), step_firstMismatch, List.findIdx_cons]
    by_cases h : t.Exceeds p
    · rw [decide_eq_true h, cond_true, Nat.add_zero]
      simp only [h, true_and]
      split_ifs <;> omega
    · rw [decide_eq_false h, cond_false]
      simp only [h, false_and, if_false]
      split_ifs <;> omega

end Loop

section Verdict

variable (t : Tolerances) (actual reference : List Value) (cols : ℕ)

/-- `verify_result` accepts what is close everywhere. Otherwise the last line it prints names the
first place that is not. -/
structure OracleExact : Prop where
  verdict : ∀ printDetail, (verifyResult actual reference cols t printDetail).1 = true ↔
    actual.length = reference.length ∧ ∀ p ∈ actual.zip reference, t.Close p
  reported : actual.length = reference.length →
    (verifyResult actual reference cols t true).1 = false →
    ∃ (i : ℕ) (got ref : Value), (actual.zip reference)[i]? = some (got, ref) ∧
    ¬ t.Close (got, ref) ∧
      (∀ j < i, ∀ p : Value × Value, (actual.zip reference)[j]? = some p → t.Close p) ∧
        (verifyResult actual reference cols t true).2.getLast? =
          some (.firstMismatch i (i / cols) (i % cols) got ref)

/-- Wherever the two sides are unordered, an earlier difference exceeds what is allowed. -/
def Caught : Prop :=
  actual.length = reference.length → ∀ (i : ℕ) p, (actual.zip reference)[i]? = some p →
  t.Unordered p →
    ∃ j < i, ∃ q : Value × Value, (actual.zip reference)[j]? = some q ∧ t.Exceeds q

variable {t actual reference cols}

theorem mismatches_eq_zero_iff (size : ℕ) (ps : List (Value × Value)) :
    (verifyLoop t size 0 ps (.init size)).mismatches = 0 ↔ ∀ p ∈ ps, ¬ t.Exceeds p := by
  rw [verifyLoop_mismatches, Findings.init, Nat.zero_add, List.countP_eq_zero]
  simp only [decide_eq_true_eq]

section Result

variable (hlen : actual.length = reference.length)

include hlen

theorem passed_iff (printDetail : Bool) :
    (verifyResult actual reference cols t printDetail).1 = true ↔
    ∀ p ∈ actual.zip reference, ¬ t.Exceeds p := by
  rw [← mismatches_eq_zero_iff actual.length, verifyResult, if_neg (not_not.2 hlen)]
  dsimp only
  by_cases h :
    (verifyLoop t actual.length 0 (actual.zip reference) (.init actual.length)).mismatches = 0
  · rw [if_neg (not_not.2 h)]
    exact ⟨fun _ ↦ h, fun _ ↦ rfl⟩
  · rw [if_pos h]
    exact ⟨nofun, fun h0 ↦ absurd h0 h⟩

theorem exists_first (hfail : (verifyResult actual reference cols t true).1 = false) :
    ∃ (i : ℕ) (p : Value × Value), (actual.zip reference)[i]? = some p ∧ t.Exceeds p ∧
      (∀ j < i, ∀ q : Value × Value, (actual.zip reference)[j]? = some q → ¬ t.Exceeds q) ∧
        (verifyResult actual reference cols t true).2.getLast? =
          some (.firstMismatch i (i / cols) (i % cols) p.1 p.2) := by
  have hex : ¬ ∀ p ∈ actual.zip reference, ¬ t.Exceeds p := by
    have hiff : (verifyResult actual reference cols t true).1 = true ↔ _ := passed_iff hlen true
    rw [← hiff, hfail]
    exact Bool.false_ne_true
  have hcount := (mismatches_eq_zero_iff actual.length _).not.2 hex
  push Not at hex
  obtain ⟨r, hr, hre⟩ := hex
  have hlt :=
    List.findIdx_lt_length_of_exists (p := fun p ↦ decide (t.Exceeds p)) ⟨r, hr, decide_eq_true hre⟩
  have hget := List.getElem?_eq_getElem hlt
  have hfirst : t.Exceeds ((actual.zip reference).get ⟨_, hlt⟩) :=
    of_decide_eq_true (List.findIdx_getElem (w := hlt))
  refine ⟨_, _, hget, hfirst, ?_, ?_⟩
  · intro j hj q hq
    obtain ⟨hjl, rfl⟩ := List.getElem?_eq_some_iff.1 hq
    exact of_decide_eq_false (List.not_of_lt_findIdx hj)
  · have hzip : 0 + (actual.zip reference).length = actual.length := by
      rw [List.length_zip, ← hlen, Nat.min_self, Nat.zero_add]
    have hidx :=
      verifyLoop_firstMismatch (t := t) 0 (actual.zip reference) (.init actual.length) hzip
    rw [Findings.init, if_pos rfl, Nat.zero_add] at hidx
    obtain ⟨ha, hb⟩ := List.getElem?_zip_eq_some.1 hget
    rw [verifyResult, if_neg (not_not.2 hlen)]
    dsimp only [Findings.init] at hcount ⊢
    rw [if_pos hcount, hidx]
    simp only [if_true, List.getLast?_append, List.getLast?_singleton, Option.some_or,
      List.getD_eq_getElem?_getD, ha, hb, Option.getD_some]

end Result

theorem oracleExact_of_caught (h : Caught t actual reference) :
    OracleExact t actual reference cols := by
  -- below an index without earlier mismatches, everything is close
  have hclose : ∀ i : ℕ, actual.length = reference.length →
      (∀ j < i, ∀ q : Value × Value, (actual.zip reference)[j]? = some q → ¬ t.Exceeds q) →
        ∀ j < i, ∀ p : Value × Value, (actual.zip reference)[j]? = some p → t.Close p := by
    intro i hlen hbefore j hj p hp
    rw [Tolerances.close_iff]
    refine ⟨hbefore j hj p hp, fun hun ↦ ?_⟩
    obtain ⟨k, hk, q, hq, hex⟩ := h hlen j p hp hun
    exact hbefore k (hk.trans hj) q hq hex
  constructor
  · intro printDetail
    by_cases hlen : actual.length = reference.length
    · rw [passed_iff hlen]
      constructor
      · intro hall
        refine ⟨hlen, fun p hp ↦ ?_⟩
        obtain ⟨j, hj⟩ := List.getElem?_of_mem hp
        exact hclose (j + 1) hlen (fun k _ q hq ↦ hall q (List.mem_of_getElem? hq)) j
          (Nat.lt_succ_self j) p hj
      · intro hall p hp
        exact (Tolerances.close_iff.1 (hall.2 p hp)).1
    · rw [verifyResult, if_pos hlen]
      exact ⟨nofun, fun hall ↦ absurd hall.1 hlen⟩
  · intro hlen hfail
    obtain ⟨i, p, hp, hex, hbefore, hlast⟩ := exists_first hlen hfail
    exact ⟨i, p.1, p.2, hp, fun hc ↦ (Tolerances.close_iff.1 hc).1 hex,
      hclose i hlen hbefore, hlast⟩

theorem caught_of_oracleExact (h : OracleExact t actual reference cols) :
    Caught t actual reference := by
  intro hlen i p hp hun
  have hnc : ¬ t.Close p := fun hc ↦ (Tolerances.close_iff.1 hc).2 hun
  have hfail : (verifyResult actual reference cols t true).1 = false := by
    rw [← Bool.not_eq_true, h.verdict]
    exact fun hall ↦ hnc (hall.2 p (List.mem_of_getElem? hp))
  obtain ⟨k, q, hq, hex, -, hlast⟩ := exists_first hlen hfail
  obtain ⟨k', got, ref, hk, -, hbefore, hlast'⟩ := h.reported hlen hfail
  rw [hlast, Option.some.injEq, Message.firstMismatch.injEq] at hlast'
  obtain rfl := hlast'.1
  refine ⟨k, ?_, q, hq, hex⟩
  rcases Nat.lt_trichotomy k i with hlt | rfl | hlt
  · exact hlt
  · obtain rfl := Option.some_injective _ (hp.symm.trans hq)
    exact absurd hex (Tolerances.not_exceeds_of_unordered hun)
  · exact absurd (hbefore i hlt p hp) hnc

end Verdict

/-- The oracle is exact when unordered sides come only behind a difference that exceeds. -/
theorem oracleExact_iff (t : Tolerances) (actual reference : List Value) (cols : ℕ) :
    OracleExact t actual reference cols ↔ Caught t actual reference :=
  ⟨caught_of_oracleExact, oracleExact_of_caught⟩

/-- A NaN is accepted for a zero. -/
theorem nan_accepted : (verifyResult [.nan] [0] 1 .default true).1 = true ∧
    ¬ Tolerances.default.Close (.nan, 0) ∧ ¬ OracleExact .default [.nan] [0] 1 := by
  have hpass : (verifyResult [.nan] [0] 1 .default true).1 = true := by decide +kernel
  have hclose : ¬ Tolerances.default.Close (.nan, 0) := Ieee.not_le_of_nan (.inl rfl)
  refine ⟨hpass, hclose, fun h ↦ ?_⟩
  exact hclose (((h.verdict true).1 hpass).2 _ List.mem_cons_self)

end Sm120.Gemm
