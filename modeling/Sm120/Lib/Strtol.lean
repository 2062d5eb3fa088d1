import Sm120.Lib.Pattern

namespace Sm120.Lib

def isSpace (c : Char) : Bool := c = ' ' || (9 ≤ c.toNat && c.toNat ≤ 13)

/-- What `strtol` leaves: the value, `errno`, and where it stops. -/
structure Strtol where
  value : ℤ
  overflow : Bool
  rest : List Char
  converted : Bool
deriving DecidableEq

/-- `strtol` with base 10, for a `long` of 64 bits. -/
def strtol (text : List Char) : Strtol :=
  let s := text.dropWhile isSpace
  let negative := s.head? = some '-'
  let s := if negative ∨ s.head? = some '+' then s.tail else s
  let digits := s.takeWhile Char.isDigit
  if digits = [] then ⟨0, false, text, false⟩
  else
    let value : ℤ := if negative then -(Nat.ofDigitChars 10 digits 0)
      else Nat.ofDigitChars 10 digits 0
    let rest := s.dropWhile Char.isDigit
    if value < -2 ^ 63 then ⟨-2 ^ 63, true, rest, true⟩
    else if value > 2 ^ 63 - 1 then ⟨2 ^ 63 - 1, true, rest, true⟩
    else ⟨value, false, rest, true⟩

/-- An `int` argument that is to be positive. -/
def positiveInt (text : List Char) : Option ℕ :=
  let parsed := strtol text
  if parsed.overflow ∨ ¬ parsed.converted ∨ parsed.rest ≠ [] ∨ parsed.value ≤ 0 ∨
    parsed.value > 2 ^ 31 - 1 then none
  else some parsed.value.toNat

theorem isSpace_of_isDigit {c : Char} (h : c.isDigit = true) : isSpace c = false := by
  have h48 : 48 ≤ c.toNat := by
    rw [Char.isDigit, Bool.and_eq_true, decide_eq_true_eq] at h
    exact UInt32.le_iff_toNat_le.1 h.1
  have hne : c ≠ ' ' := by
    rintro rfl
    cases h
  simp only [isSpace, hne, decide_false, Bool.false_or, Bool.and_eq_false_iff,
    decide_eq_false_iff_not]
  omega

/-- A text for a positive int: blanks, perhaps a plus sign, and digits. -/
structure SpellsInt (text : List Char) (n : ℕ) : Prop where
  spelled : ∃ blanks sign digits, text = blanks ++ (sign ++ digits) ∧
    (∀ c ∈ blanks, isSpace c = true) ∧
    (sign = [] ∨ sign = ['+']) ∧ digits ≠ [] ∧ (∀ c ∈ digits, c.isDigit = true) ∧
    Nat.ofDigitChars 10 digits 0 = n
  pos : 0 < n
  le : n ≤ 2 ^ 31 - 1

theorem head_of_digits {ds : List Char} (hne : ds ≠ []) (hds : ∀ c ∈ ds, c.isDigit = true) :
    ∃ c rest, ds = c :: rest ∧ c.isDigit = true := by
  obtain ⟨c, rest, rfl⟩ := List.exists_cons_of_ne_nil hne
  exact ⟨c, rest, rfl, hds c List.mem_cons_self⟩

theorem takeWhile_digits {ds : List Char} (hds : ∀ c ∈ ds, c.isDigit = true) :
    ds.takeWhile Char.isDigit = ds ∧ ds.dropWhile Char.isDigit = [] := by
  have h := takeWhile_append_of_stop (s := []) hds fun c hc ↦ by cases hc
  rwa [List.append_nil] at h

theorem positiveInt_of_spells {text : List Char} {n : ℕ} (h : SpellsInt text n) :
    positiveInt text = some n := by
  obtain ⟨⟨blanks, sign, digits, rfl, hblanks, hsign, hne, hdigits, hvalue⟩, hpos, hle⟩ := h
  obtain ⟨c, rest, hc, hdigit⟩ := head_of_digits hne hdigits
  have hhead : digits.head? = some c := by rw [hc, List.head?_cons]
  have hminus : c ≠ '-' := by
    rintro rfl
    cases hdigit
  have hplus : c ≠ '+' := by
    rintro rfl
    cases hdigit
  have hdrop : (blanks ++ (sign ++ digits)).dropWhile isSpace = sign ++ digits := by
    refine (takeWhile_append_of_stop hblanks fun d hd ↦ ?_).2
    rcases hsign with rfl | rfl
    · rw [List.nil_append, hhead] at hd
      cases hd
      exact isSpace_of_isDigit hdigit
    · cases hd
      decide
  have hneg : ¬ (sign ++ digits).head? = some '-' := by
    rcases hsign with rfl | rfl
    · rw [List.nil_append, hhead]
      exact fun h ↦ hminus (Option.some.inj h)
    · intro h
      cases h
  have hstrip : (if (sign ++ digits).head? = some '-' ∨ (sign ++ digits).head? = some '+' then
      (sign ++ digits).tail
      else sign ++ digits) = digits := by
    rcases hsign with rfl | rfl
    · rw [List.nil_append, if_neg]
      rw [hhead]
      exact not_or.2 ⟨fun h ↦ hminus (Option.some.inj h), fun h ↦ hplus (Option.some.inj h)⟩
    · rw [if_pos (.inr rfl)]
      rfl
  obtain ⟨htake, hrest⟩ := takeWhile_digits hdigits
  have hstrtol : strtol (blanks ++ (sign ++ digits)) = ⟨n, false, [], true⟩ := by
    unfold strtol
    dsimp only
    rw [hdrop, hstrip, htake, hrest, if_neg hne, if_neg hneg, hvalue, if_neg (by omega),
      if_neg (by omega)]
  rw [positiveInt, hstrtol]
  dsimp only
  rw [if_neg, Int.toNat_natCast]
  simp only [Bool.false_eq_true, not_true_eq_false, ne_eq, false_or, not_or]
  omega

theorem spells_of_positiveInt {text : List Char} {n : ℕ} (h : positiveInt text = some n) :
    SpellsInt text n := by
  let s := text.dropWhile isSpace
  have htext : text = text.takeWhile isSpace ++ s := (List.takeWhile_append_dropWhile).symm
  have hblanks : ∀ c ∈ text.takeWhile isSpace, isSpace c = true :=
    List.all_eq_true.1 List.all_takeWhile
  unfold positiveInt at h
  dsimp only at h
  split_ifs at h with hbad
  simp only [not_or, Bool.not_eq_true, not_not, not_le, not_lt] at hbad
  obtain ⟨hover, hconv, hrest, hpos, hle⟩ := hbad
  obtain rfl := Option.some.inj h
  let u := if s.head? = some '-' ∨ s.head? = some '+' then s.tail else s
  have hvalue : strtol text = if u.takeWhile Char.isDigit = [] then ⟨0, false, text, false⟩ else
      let value : ℤ :=
        if s.head? = some '-' then -(Nat.ofDigitChars 10 (u.takeWhile Char.isDigit) 0)
        else Nat.ofDigitChars 10 (u.takeWhile Char.isDigit) 0
      if value < -2 ^ 63 then ⟨-2 ^ 63, true, u.dropWhile Char.isDigit, true⟩
      else if value > 2 ^ 63 - 1 then ⟨2 ^ 63 - 1, true, u.dropWhile Char.isDigit, true⟩
      else ⟨value, false, u.dropWhile Char.isDigit, true⟩ := rfl
  rw [hvalue] at hover hconv hrest hpos hle ⊢
  dsimp only at hover hconv hrest hpos hle ⊢
  by_cases hnone : u.takeWhile Char.isDigit = []
  · rw [if_pos hnone] at hconv
    exact absurd rfl hconv
  rw [if_neg hnone] at hover hrest hpos hle ⊢
  by_cases hneg : s.head? = some '-'
  · rw [if_pos hneg] at hpos
    split_ifs at hover hpos
    dsimp only at hpos
    omega
  · rw [if_neg hneg] at hover hrest hpos hle ⊢
    split_ifs at hover hrest hpos hle ⊢
    dsimp only at hrest hpos hle ⊢
    have hu : u.takeWhile Char.isDigit = u := by
      have happ := List.takeWhile_append_dropWhile (p := Char.isDigit) (l := u)
      rwa [hrest, List.append_nil] at happ
    rw [hu] at hnone hpos hle ⊢
    have hdigits : ∀ c ∈ u, c.isDigit = true := by
      rw [← hu]
      exact List.all_eq_true.1 List.all_takeWhile
    refine ⟨⟨text.takeWhile isSpace, if s.head? = some '+' then ['+'] else [], u, ?_, hblanks, ?_,
      hnone, hdigits, ?_⟩, ?_, ?_⟩
    · have hs : (if s.head? = some '+' then ['+'] else []) ++ u = s := by
        change (if s.head? = some '+' then ['+'] else []) ++
          (if s.head? = some '-' ∨ s.head? = some '+' then s.tail else s) = s
        by_cases hplus : s.head? = some '+'
        · obtain ⟨rest, hr⟩ := List.head?_eq_some_iff.1 hplus
          rw [if_pos hplus, if_pos (.inr hplus), hr]
          rfl
        · rw [if_neg hplus, if_neg (not_or.2 ⟨hneg, hplus⟩)]
          rfl
      rw [hs]
      exact htext
    · split_ifs
      · exact .inr rfl
      · exact .inl rfl
    · rw [Int.toNat_natCast]
    · omega
    · omega

theorem positiveInt_iff {text : List Char} {n : ℕ} : positiveInt text = some n ↔ SpellsInt text n :=
  ⟨spells_of_positiveInt, positiveInt_of_spells⟩

theorem positiveInt_decimal {n : ℕ} (hpos : 0 < n) (hle : n ≤ 2 ^ 31 - 1) :
    positiveInt (decimal n) = some n := by
  refine positiveInt_of_spells ⟨⟨[], [], decimal n, rfl, ?_, .inl rfl, decimal_ne_nil n, ?_, ?_⟩,
    hpos, hle⟩
  · intro c hc
    cases hc
  · intro c
    exact isDigit_of_mem_decimal
  · exact Nat.ofDigitChars_ten_toDigits

end Sm120.Lib
