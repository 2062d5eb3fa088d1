import Mathlib.Tactic

namespace Sm120.Lib

/-- A value of CMake that stands for a list has its elements between semicolons. -/
def cmakeJoin (elements : List (List Char)) : List Char := [';'].intercalate elements

def cmakeList (value : List Char) : List (List Char) := if value = [] then [] else value.splitOn ';'

def replaceChar (old new : Char) (s : List Char) : List Char :=
  s.map fun c ↦ if c = old then new else c

def isIdentChar (c : Char) : Bool := c.isAlphanum || c = '_'

def makeCIdentifier (s : List Char) : List Char :=
  let t := s.map fun c ↦ if isIdentChar c then c else '_'
  if t.head?.any Char.isDigit then '_' :: t else t

/-- `list(APPEND …)` of one element. -/
def cmakeAppend (value element : List Char) : List Char := if value = [] then element
    else value ++ ';' :: element

def falseConstants : List (List Char) :=
  ["", "0", "N", "NO", "OFF", "FALSE", "IGNORE"].map String.toList

/-- What `if` takes for false of a variable. -/
def isOff (value : List Char) : Bool :=
  value.map Char.toUpper ∈ falseConstants || value = "NOTFOUND".toList ||
  "-NOTFOUND".toList.isSuffixOf value

theorem isIdentChar_of_all {ls : List (List Char)} (h : (ls.all fun l ↦ l.all isIdentChar) = true) :
    ∀ l ∈ ls, ∀ c ∈ l, isIdentChar c = true := by
  intro l hl
  exact List.all_eq_true.1 (List.all_eq_true.1 h l hl)

theorem isIdentChar_of_isDigit {c : Char} (h : c.isDigit = true) : isIdentChar c = true := by
  rw [isIdentChar, Char.isAlphanum, h, Bool.or_true, Bool.true_or]

theorem not_mem_of_ident {s : List Char} {c : Char} (hs : ∀ d ∈ s, isIdentChar d = true)
    (hc : isIdentChar c = false) : c ∉ s := by
  intro hmem
  rw [hs c hmem] at hc
  cases hc

theorem mem_intercalate {sep : List Char} {ls : List (List Char)} {c : Char}
    (h : c ∈ sep.intercalate ls) : c ∈ sep ∨ ∃ l ∈ ls, c ∈ l := by
  induction ls with
  | nil => cases h
  | cons l ls ih =>
    cases ls with
    | nil =>
      rw [List.intercalate_singleton] at h
      exact .inr ⟨l, List.mem_cons_self, h⟩
    | cons l' ls =>
      rw [List.intercalate_cons_cons, List.mem_append, List.mem_append] at h
      rcases h with (h | h) | h
      · exact .inr ⟨l, List.mem_cons_self, h⟩
      · exact .inl h
      · rcases ih h with h | ⟨x, hx, hc⟩
        · exact .inl h
        · exact .inr ⟨x, List.mem_cons_of_mem l hx, hc⟩

theorem map_intercalate (f : Char → Char) (sep : List Char) (ls : List (List Char)) :
    (sep.intercalate ls).map f = (sep.map f).intercalate (ls.map fun l ↦ l.map f) := by
  induction ls with
  | nil => rfl
  | cons l ls ih =>
    cases ls with
    | nil => simp
    | cons l' ls =>
      simp only [List.intercalate_cons_cons, List.map_cons, List.map_append] at ih ⊢
      rw [ih]

theorem replaceChar_of_not_mem {old new : Char} {s : List Char} (h : old ∉ s) :
    replaceChar old new s = s := by
  rw [replaceChar]
  conv_rhs => rw [← List.map_id s]
  apply List.map_congr_left
  intro c hc
  rw [if_neg]
  · rfl
  · rintro rfl
    exact h hc

/-- Elements without a semicolon, the last of them not empty, are read back. -/
theorem cmakeList_cmakeJoin {elements : List (List Char)} (hsemi : ∀ l ∈ elements, ';' ∉ l)
    (hempty : elements ≠ [[]]) : cmakeList (cmakeJoin elements) = elements := by
  rw [cmakeList, cmakeJoin]
  by_cases hne : elements = []
  · rw [hne]
    rfl
  · have hsplit := List.splitOn_intercalate ';' hsemi hne
    rw [if_neg, hsplit]
    intro hnil
    rw [hnil] at hsplit
    exact hempty hsplit.symm

theorem cmakeList_replaceChar {sep : Char} {elements : List (List Char)}
    (hsep : ∀ l ∈ elements, sep ∉ l) (hsemi : ∀ l ∈ elements, ';' ∉ l) (hempty : elements ≠ [[]]) :
    cmakeList (replaceChar sep ';' ([sep].intercalate elements)) = elements := by
  have hmap : replaceChar sep ';' ([sep].intercalate elements) = cmakeJoin elements := by
    rw [replaceChar, map_intercalate, cmakeJoin]
    congr 1
    · simp
    · conv_rhs => rw [← List.map_id elements]
      apply List.map_congr_left
      intro l hl
      exact replaceChar_of_not_mem (hsep l hl)
  rw [hmap, cmakeList_cmakeJoin hsemi hempty]

theorem cmakeJoin_ne {elements : List (List Char)} (hne : elements ≠ [])
    (h : ∀ l ∈ elements, l ≠ []) : cmakeJoin elements ≠ [] := by
  obtain ⟨l, ls, rfl⟩ := List.exists_cons_of_ne_nil hne
  have hl := h l List.mem_cons_self
  cases ls with
  | nil => rwa [cmakeJoin, List.intercalate_singleton]
  | cons l' ls =>
    rw [cmakeJoin, List.intercalate_cons_cons]
    simp [hl]

theorem cmakeJoin_concat {elements : List (List Char)} (hne : elements ≠ []) (l : List Char) :
    cmakeJoin (elements ++ [l]) = cmakeJoin elements ++ ';' :: l := by
  induction elements with
  | nil => exact absurd rfl hne
  | cons l₀ ls ih =>
    cases ls with
    | nil => simp [cmakeJoin]
    | cons l' ls =>
      have htail := ih (List.cons_ne_nil l' ls)
      rw [cmakeJoin, cmakeJoin] at htail ⊢
      rw [List.cons_append, List.cons_append, List.intercalate_cons_cons, ← List.cons_append, htail,
        List.intercalate_cons_cons]
      simp only [List.append_assoc]

theorem cmakeAppend_cmakeJoin {elements : List (List Char)} (h : ∀ l ∈ elements, l ≠ [])
    (l : List Char) : cmakeAppend (cmakeJoin elements) l = cmakeJoin (elements ++ [l]) := by
  by_cases hne : elements = []
  · rw [hne]
    exact (List.intercalate_singleton).symm
  · rw [cmakeAppend, if_neg (cmakeJoin_ne hne h), cmakeJoin_concat hne]

theorem isOff_eq_false {value : List Char} {c : Char} (hc : c ∈ value) (hup : c.toUpper = c)
    (hconst : ∀ w ∈ "NOTFOUND".toList :: falseConstants, c ∉ w) (hdash : '-' ∉ value) :
    isOff value = false := by
  have hupper : value.map Char.toUpper ∉ falseConstants := by
    intro hmem
    exact hconst _ (List.mem_cons_of_mem _ hmem) (List.mem_map.2 ⟨c, hc, hup⟩)
  have hfound : value ≠ "NOTFOUND".toList := by
    rintro rfl
    exact hconst _ List.mem_cons_self hc
  have hsuffix : "-NOTFOUND".toList.isSuffixOf value = false := by
    rw [Bool.eq_false_iff, ne_eq, List.isSuffixOf_iff_suffix]
    intro h
    exact hdash (h.subset List.mem_cons_self)
  rw [isOff, hsuffix, Bool.or_false, Bool.or_eq_false_iff, decide_eq_false_iff_not,
    decide_eq_false_iff_not]
  exact ⟨hupper, hfound⟩

theorem makeCIdentifier_eq {s : List Char} (hs : ∀ c ∈ s, isIdentChar c = true)
    (hhead : ∀ c ∈ s.head?, c.isDigit = false) : makeCIdentifier s = s := by
  have hmap : (s.map fun c ↦ if isIdentChar c then c else '_') = s := by
    conv_rhs => rw [← List.map_id s]
    apply List.map_congr_left
    intro c hc
    rw [if_pos (hs c hc)]
    rfl
  rw [makeCIdentifier, hmap]
  cases s with
  | nil => rfl
  | cons c s => simp [hhead c rfl]

end Sm120.Lib
