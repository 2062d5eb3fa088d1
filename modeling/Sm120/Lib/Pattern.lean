import Mathlib.Data.List.Infix
import Mathlib.Tactic

namespace Sm120.Lib

/-- The characters that `\d` accepts and the value that `int` reads in each. Beyond ASCII they
depend on the version of Unicode. -/
structure DigitTable where
  value : Char → Option ℕ
  ascii : ∀ c : Char, c.toNat < 128 → value c = if c.isDigit then some (c.toNat - 48) else none

namespace DigitTable

variable (D : DigitTable)

def isDigit (c : Char) : Bool := (D.value c).isSome

/-- The value of a string of digits; leading zeros do not count. -/
def int (ds : List Char) : ℕ := ds.foldl (fun n c ↦ 10 * n + (D.value c).getD 0) 0

end DigitTable

def DigitTable.asciiOnly : DigitTable where
  value c := if c.isDigit then some (c.toNat - 48) else none
  ascii := fun _ _ ↦ rfl

def decimal (n : ℕ) : List Char := Nat.toDigits 10 n

/-- The value of a run of digits as a C++ literal: one that starts with `0` is octal. -/
def intLiteral (ds : List Char) : ℕ :=
  if ds.head? = some '0' then Nat.ofDigitChars 8 ds 0 else Nat.ofDigitChars 10 ds 0

/-- A pattern is a list of literals, each before a run of digits; a text is filled in with
numbers. -/
def fillPattern : List (List Char) → List ℕ → List Char
  | lit :: lits, n :: ns => lit ++ decimal n ++ fillPattern lits ns
  | _, _ => []

theorem fillPattern_nil : fillPattern [] [] = [] := rfl

theorem fillPattern_cons (lit : List Char) (lits : List (List Char)) (n : ℕ) (ns : List ℕ) :
    fillPattern (lit :: lits) (n :: ns) = lit ++ decimal n ++ fillPattern lits ns := rfl

theorem length_decimal_le {n k : ℕ} (hk : 0 < k) (h : n < 10 ^ k) : (decimal n).length ≤ k :=
  (Nat.length_toDigits_le_iff (by decide) hk).2 h

theorem length_fillPattern_le {k : ℕ} (hk : 0 < k) (lits : List (List Char)) {ns : List ℕ}
    (h : ∀ n ∈ ns, n < 10 ^ k) :
    (fillPattern lits ns).length ≤ (lits.map List.length).sum + k * ns.length := by
  fun_induction fillPattern lits ns with
  | case1 lit lits n ns ih =>
    obtain ⟨hn, hns⟩ := List.forall_mem_cons.1 h
    have hdecimal := length_decimal_le hk hn
    have hrest := ih hns
    simp only [List.length_append, List.map_cons, List.sum_cons, List.length_cons, Nat.mul_succ]
    omega
  | case2 => exact Nat.zero_le _

/-- What the pattern matches, with its groups. The end of the pattern is also before a last
newline. -/
inductive Matches (D : DigitTable) : List (List Char) → List Char → List (List Char) → Prop
  | done : Matches D [] [] []
  | newline : Matches D [] ['\n'] []
  | group {lit ds s : List Char} {lits gs : List (List Char)} :
      ds ≠ [] → (∀ c ∈ ds, D.isDigit c = true) →
      Matches D lits s gs → Matches D (lit :: lits) (lit ++ (ds ++ s)) (ds :: gs)

def matchPattern (D : DigitTable) : List (List Char) → List Char → Option (List (List Char))
  | [], s => if s = [] ∨ s = ['\n'] then some [] else none
  | lit :: lits, s =>
    if lit.isPrefixOf s then
      let rest := s.drop lit.length
      if rest.takeWhile D.isDigit = [] then none
      else (matchPattern D lits (rest.dropWhile D.isDigit)).map (rest.takeWhile D.isDigit :: ·)
    else none

/-- No digit can be taken for the start of a literal. -/
def Separates (lits : List (List Char)) : Prop :=
  ∀ lit ∈ lits, ∃ c rest, lit = c :: rest ∧ c.toNat < 128 ∧ c.isDigit = false

section Decimal

variable (D : DigitTable)

theorem ascii_of_isDigit {c : Char} (h : c.isDigit = true) : c.toNat < 128 := by
  rw [Char.isDigit, Bool.and_eq_true, decide_eq_true_eq, decide_eq_true_eq] at h
  have := UInt32.le_iff_toNat_le.1 h.2
  exact Nat.lt_of_le_of_lt this (by decide)

theorem isDigit_eq {c : Char} (h : c.toNat < 128) : D.isDigit c = c.isDigit := by
  rw [DigitTable.isDigit, D.ascii c h]
  cases c.isDigit
  · rfl
  · rfl

theorem isDigit_of_mem_decimal {n : ℕ} {c : Char} (h : c ∈ decimal n) : c.isDigit = true :=
  Nat.isDigit_of_mem_toDigits (by decide) (by decide) h

theorem decimal_ne_nil (n : ℕ) : decimal n ≠ [] := Nat.toDigits_ne_nil

theorem decimal_head {n : ℕ} (hn : 0 < n) : (decimal n).head? ≠ some '0' := by
  induction n using Nat.strongRecOn with
  | ind n ih =>
    rw [decimal, Nat.toDigits_eq_if (by decide)]
    split_ifs with hlt
    · interval_cases n <;> decide
    · have hdiv : 0 < n / 10 := Nat.div_pos (Nat.le_of_not_lt hlt) (by decide)
      have hhead := ih (n / 10) (Nat.div_lt_self hn (by decide)) hdiv
      rwa [List.head?_append_of_ne_nil _ Nat.toDigits_ne_nil]

/-- No number is written with a leading zero, so C++ reads what was written. -/
theorem intLiteral_decimal (n : ℕ) : intLiteral (decimal n) = n := by
  rcases Nat.eq_zero_or_pos n with rfl | hn
  · rfl
  · rw [intLiteral, if_neg (decimal_head hn)]
    exact Nat.ofDigitChars_ten_toDigits

theorem int_eq_ofDigitChars {ds : List Char} (h : ∀ c ∈ ds, c.isDigit = true) (n : ℕ) :
    ds.foldl (fun n c ↦ 10 * n + (D.value c).getD 0) n = Nat.ofDigitChars 10 ds n := by
  induction ds generalizing n with
  | nil => rfl
  | cons c ds ih =>
    have hc := h c List.mem_cons_self
    rw [List.foldl_cons, Nat.ofDigitChars_cons, D.ascii c (ascii_of_isDigit hc), if_pos hc]
    exact ih (fun x hx ↦ h x (List.mem_cons_of_mem c hx)) _

theorem int_decimal (n : ℕ) : D.int (decimal n) = n := by
  rw [DigitTable.int, int_eq_ofDigitChars D fun c ↦ isDigit_of_mem_decimal]
  exact Nat.ofDigitChars_ten_toDigits

end Decimal

section Matching

variable {D : DigitTable}

theorem takeWhile_append_of_stop {p : Char → Bool} {ds s : List Char} (hds : ∀ c ∈ ds, p c = true)
    (hs : ∀ c ∈ s.head?, p c = false) : (ds ++ s).takeWhile p = ds ∧ (ds ++ s).dropWhile p = s := by
  rw [List.takeWhile_append_of_pos hds, List.dropWhile_append_of_pos hds]
  cases s with
  | nil => exact ⟨List.append_nil ds, rfl⟩
  | cons c s =>
    have hc : ¬ p c = true := by simp [hs c rfl]
    rw [List.takeWhile_cons_of_neg hc, List.dropWhile_cons_of_neg hc]
    exact ⟨List.append_nil ds, rfl⟩

theorem separates_of_all {lits : List (List Char)}
    (h : (lits.all fun lit ↦ lit.head?.any fun c ↦ c.toNat < 128 && !c.isDigit) = true) :
    Separates lits := by
  intro lit hlit
  have hhead := List.all_eq_true.1 h lit hlit
  cases lit with
  | nil => cases hhead
  | cons c rest =>
    simp only [List.head?_cons, Option.any_some, Bool.and_eq_true, decide_eq_true_eq,
      Bool.not_eq_true'] at hhead
    exact ⟨c, rest, rfl, hhead⟩

/-- A match goes on with a literal or ends, so no digit comes first. -/
theorem Matches.head_not_digit {lits gs : List (List Char)} {s : List Char}
    (h : Matches D lits s gs) (hsep : Separates lits) : ∀ c ∈ s.head?, D.isDigit c = false := by
  intro c hc
  cases h with
  | done => cases hc
  | newline =>
    cases hc
    rw [isDigit_eq D (by decide)]
    decide
  | group _ _ _ =>
    obtain ⟨d, rest, rfl, hd, hdigit⟩ := hsep _ List.mem_cons_self
    cases hc
    rw [isDigit_eq D hd, hdigit]

theorem matchPattern_cons (lit : List Char) (lits : List (List Char)) (rest : List Char) :
    matchPattern D (lit :: lits) (lit ++ rest) =
      if rest.takeWhile D.isDigit = [] then none
      else (matchPattern D lits (rest.dropWhile D.isDigit)).map
        (rest.takeWhile D.isDigit :: ·) := by
  have hlit : lit.isPrefixOf (lit ++ rest) = true :=
    List.isPrefixOf_iff_prefix.2 (List.prefix_append lit rest)
  simp only [matchPattern, hlit, if_true, List.drop_left]

theorem matchPattern_iff {lits gs : List (List Char)} {s : List Char} (hsep : Separates lits) :
    matchPattern D lits s = some gs ↔ Matches D lits s gs := by
  constructor
  · intro h
    induction lits generalizing s gs with
    | nil =>
      unfold matchPattern at h
      split_ifs at h with hend
      cases h
      rcases hend with rfl | rfl
      · exact .done
      · exact .newline
    | cons lit lits ih =>
      have hlit : lit.isPrefixOf s = true := by
        by_contra hlit
        rw [matchPattern, if_neg hlit] at h
        cases h
      obtain ⟨rest, rfl⟩ := List.isPrefixOf_iff_prefix.1 hlit
      rw [matchPattern_cons] at h
      split_ifs at h with hds
      obtain ⟨gs', hgs, rfl⟩ := Option.map_eq_some_iff.1 h
      have htail := ih (fun l hl ↦ hsep l (List.mem_cons_of_mem lit hl)) hgs
      have hdigits : ∀ c ∈ rest.takeWhile D.isDigit, D.isDigit c = true :=
        List.all_eq_true.1 List.all_takeWhile
      have hgroup : Matches D (lit :: lits) _ _ := .group hds hdigits htail
      rwa [List.takeWhile_append_dropWhile] at hgroup
  · intro h
    induction h with
    | done => rfl
    | newline => rfl
    | @group lit ds s lits gs hne hdigits htail ih =>
      have hsep' : Separates lits := fun l hl ↦ hsep l (List.mem_cons_of_mem lit hl)
      obtain ⟨htake, hdrop⟩ := takeWhile_append_of_stop hdigits (htail.head_not_digit hsep')
      rw [matchPattern_cons, htake, hdrop, if_neg hne, ih hsep']
      rfl

theorem Matches.unique {lits gs gs' : List (List Char)} {s : List Char} (hsep : Separates lits)
    (h : Matches D lits s gs) (h' : Matches D lits s gs') : gs = gs' := by
  rw [← matchPattern_iff hsep] at h h'
  exact Option.some.inj (h.symm.trans h')

theorem Matches.length {lits gs : List (List Char)} {s : List Char} (h : Matches D lits s gs) :
    gs.length = lits.length := by
  induction h with
  | done => rfl
  | newline => rfl
  | group _ _ _ ih => rw [List.length_cons, List.length_cons, ih]

theorem matches_fillPattern {lits : List (List Char)} {ns : List ℕ} (h : ns.length = lits.length) :
    Matches D lits (fillPattern lits ns) (ns.map decimal) := by
  induction lits generalizing ns with
  | nil =>
    rw [List.length_eq_zero_iff.1 h]
    exact .done
  | cons lit lits ih =>
    cases ns with
    | nil => cases h
    | cons n ns =>
      rw [fillPattern, List.append_assoc]
      apply Matches.group (decimal_ne_nil n) _ (ih (Nat.succ.inj h))
      intro c hc
      have hdigit := isDigit_of_mem_decimal hc
      rw [isDigit_eq D (ascii_of_isDigit hdigit), hdigit]

theorem map_int_decimal (ns : List ℕ) : (ns.map decimal).map D.int = ns := by
  rw [List.map_map]
  conv_rhs => rw [← List.map_id ns]
  apply List.map_congr_left
  intro n _
  exact int_decimal D n

theorem mem_fillPattern {lits : List (List Char)} {ns : List ℕ} {c : Char}
    (h : c ∈ fillPattern lits ns) : c.isDigit = true ∨ ∃ lit ∈ lits, c ∈ lit := by
  induction lits generalizing ns with
  | nil =>
    rw [fillPattern] at h
    · cases h
    · intro _ _ _ _ h
      cases h
  | cons lit lits ih =>
    cases ns with
    | nil => cases h
    | cons n ns =>
      rw [fillPattern, List.mem_append, List.mem_append] at h
      rcases h with (h | h) | h
      · exact .inr ⟨lit, List.mem_cons_self, h⟩
      · exact .inl (isDigit_of_mem_decimal h)
      · rcases ih h with h | ⟨l, hl, hc⟩
        · exact .inl h
        · exact .inr ⟨l, List.mem_cons_of_mem lit hl, hc⟩

theorem fillPattern_injective {lits : List (List Char)} {ns ns' : List ℕ} (hsep : Separates lits)
    (hn : ns.length = lits.length) (hn' : ns'.length = lits.length)
    (h : fillPattern lits ns = fillPattern lits ns') :
    ns = ns' := by
  have hm : Matches .asciiOnly lits (fillPattern lits ns) (ns.map decimal) := matches_fillPattern hn
  rw [h] at hm
  have hmap :=
    congrArg (List.map DigitTable.asciiOnly.int) (hm.unique hsep (matches_fillPattern hn'))
  rwa [map_int_decimal, map_int_decimal] at hmap

end Matching

end Sm120.Lib
