import Sm120.Lib.Pattern
import Mathlib.Data.List.DropRight

namespace Sm120.Lib

/-- The characters that `\s` accepts, which are those that `strip` removes; no digit is one. Beyond
ASCII they depend on the version of Unicode. -/
structure SpaceTable extends DigitTable where
  space : Char → Bool
  not_digit : ∀ c, space c = true → value c = none
  space_ascii : ∀ c : Char, c.toNat < 128 →
    space c = (c = ' ' || (9 ≤ c.toNat && c.toNat ≤ 13) || (28 ≤ c.toNat && c.toNat ≤ 31))

/-- What is read from a text file: every end of a line becomes a newline. -/
def universalNewlines : List Char → List Char
  | [] => []
  | '\r' :: '\n' :: s => '\n' :: universalNewlines s
  | '\r' :: s => '\n' :: universalNewlines s
  | c :: s => c :: universalNewlines s

def splitLines : List Char → List (List Char)
  | [] => []
  | c :: s =>
    if c = '\n' then [c] :: splitLines s
    else
      match splitLines s with
      | [] => [[c]]
      | line :: rest => (c :: line) :: rest

def readLines (file : List Char) : List (List Char) := splitLines (universalNewlines file)

def strip (p : Char → Bool) (s : List Char) : List Char := (s.dropWhile p).rdropWhile p

/-- A piece of a regular expression: a literal, or a run of at least `least` characters of one kind,
which may be a group. -/
inductive Piece
  | literal (text : List Char)
  | run (p : Char → Bool) (least : ℕ) (group : Bool)

/-- The groups of a match at the start of a text. A run goes as far as it can, which is its only
match where no piece starts with a character of the run before it. -/
def matchPieces : List Piece → List Char → Option (List (List Char))
  | [], _ => some []
  | .literal text :: ps, s =>
    if text.isPrefixOf s then matchPieces ps (s.drop text.length) else none
  | .run p least group :: ps, s =>
    if (s.takeWhile p).length < least then none
    else (matchPieces ps (s.dropWhile p)).map fun gs ↦ if group then s.takeWhile p :: gs else gs

section Lines

theorem universalNewlines_eq {s : List Char} (h : '\r' ∉ s) : universalNewlines s = s := by
  induction s with
  | nil => rfl
  | cons c s ih =>
    have hc : c ≠ '\r' := fun hc ↦ h (hc ▸ List.mem_cons_self)
    rw [universalNewlines, ih fun hs ↦ h (List.mem_cons_of_mem c hs)]
    · intro s' hc'
      exact absurd hc' hc
    · intro hc'
      exact absurd hc' hc

theorem splitLines_append {l : List Char} (h : '\n' ∉ l) (s : List Char) :
    splitLines (l ++ '\n' :: s) = (l ++ ['\n']) :: splitLines s := by
  induction l with
  | nil => rfl
  | cons c l ih =>
    have hc : c ≠ '\n' := fun hc ↦ h (hc ▸ List.mem_cons_self)
    rw [List.cons_append, splitLines, if_neg hc, ih fun hl ↦ h (List.mem_cons_of_mem c hl)]
    rfl

/-- A line as it is written: it has one newline, at its end. -/
def IsLine (line : List Char) : Prop := ∃ l, line = l ++ ['\n'] ∧ '\n' ∉ l ∧ '\r' ∉ l

theorem splitLines_flatten {lines : List (List Char)} (h : ∀ line ∈ lines, IsLine line) :
    splitLines lines.flatten = lines := by
  induction lines with
  | nil => rfl
  | cons line lines ih =>
    obtain ⟨l, rfl, hl, -⟩ := h line List.mem_cons_self
    rw [List.flatten_cons, List.append_assoc, List.singleton_append, splitLines_append hl,
      ih fun line' hline ↦ h line' (List.mem_cons_of_mem _ hline)]

theorem readLines_flatten {lines : List (List Char)} (h : ∀ line ∈ lines, IsLine line) :
    readLines lines.flatten = lines := by
  rw [readLines, universalNewlines_eq, splitLines_flatten h]
  intro hmem
  obtain ⟨line, hline, hr⟩ := List.mem_flatten.1 hmem
  obtain ⟨l, rfl, -, hl⟩ := h line hline
  obtain hr | hr := List.mem_append.1 hr
  · exact hl hr
  · exact absurd (List.mem_singleton.1 hr) (by decide)

theorem strip_line {p : Char → Bool} {l : List Char} {b n : Char} (hl : ∀ c ∈ l.head?, p c = false)
    (hb : p b = false) (hn : p n = true) : strip p (l ++ [b] ++ [n]) = l ++ [b] := by
  have hhead : ∀ c ∈ (l ++ [b] ++ [n]).head?, p c = false := by
    cases l with
    | nil =>
      intro c hc
      cases hc
      exact hb
    | cons c l => exact hl
  have hdrop := (takeWhile_append_of_stop (List.forall_mem_nil _) hhead).2
  have hb' : ¬ p b = true := by simp [hb]
  rw [List.nil_append] at hdrop
  rw [strip, hdrop, List.rdropWhile_concat_pos _ _ _ hn, List.rdropWhile_concat_neg _ _ _ hb']

end Lines

section Pieces

theorem matchPieces_literal (text : List Char) (ps : List Piece) (s : List Char) :
    matchPieces (.literal text :: ps) (text ++ s) = matchPieces ps s := by
  have htext : text.isPrefixOf (text ++ s) = true :=
    List.isPrefixOf_iff_prefix.2 (List.prefix_append text s)
  rw [matchPieces, if_pos htext, List.drop_left]

theorem matchPieces_run {p : Char → Bool} {least : ℕ} {group : Bool} {ps : List Piece}
    {ds s : List Char} (hds : ∀ c ∈ ds, p c = true) (hs : ∀ c ∈ s.head?, p c = false)
    (hleast : least ≤ ds.length) : matchPieces (.run p least group :: ps) (ds ++ s) =
      (matchPieces ps s).map fun gs ↦ if group then ds :: gs else gs := by
  obtain ⟨htake, hdrop⟩ := takeWhile_append_of_stop hds hs
  rw [matchPieces, htake, hdrop, if_neg (Nat.not_lt.2 hleast)]

end Pieces

theorem SpaceTable.isDigit_of_space (S : SpaceTable) {c : Char} (h : S.space c = true) :
    S.isDigit c = false := by
  rw [DigitTable.isDigit, S.not_digit c h]
  rfl

def SpaceTable.asciiOnly : SpaceTable where
  toDigitTable := .asciiOnly
  space c := c = ' ' || (9 ≤ c.toNat && c.toNat ≤ 13) || (28 ≤ c.toNat && c.toNat ≤ 31)
  not_digit c h := by
    apply if_neg
    intro hdigit
    have h48 := (Char.isDigit_iff_toNat.1 hdigit).1
    simp only [Bool.or_eq_true, Bool.and_eq_true, decide_eq_true_eq] at h
    obtain (rfl | h) | h := h
    · cases hdigit
    · have : '0'.toNat = 48 := rfl
      omega
    · have : '0'.toNat = 48 := rfl
      omega
  space_ascii := fun _ _ ↦ rfl

end Sm120.Lib
