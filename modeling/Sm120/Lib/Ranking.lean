import Mathlib.Data.List.Sort
import Mathlib.Order.RelClasses
import Mathlib.Tactic

namespace Sm120.Lib

variable {α : Type*}

def stableSort (lt : α → α → Bool) (l : List α) : List α := l.mergeSort fun a b ↦ !lt b a

/-- A running best, which only a strict improvement replaces. -/
def improve (lt : α → α → Bool) (best : Option α) (x : α) : Option α :=
  match best with
  | none => some x
  | some b => some (if lt x b then x else b)

section StrictWeak

variable {lt : α → α → Bool} [IsStrictWeakOrder α fun a b ↦ lt a b = true]

omit [IsStrictWeakOrder α fun a b ↦ lt a b = true] in
theorem strictWeakOrder_of_key {κ : Type*} [LinearOrder κ] (key : α → κ)
    (h : ∀ a b, lt a b = true ↔ key a < key b) : IsStrictWeakOrder α fun a b ↦ lt a b = true := by
  have he : (fun a b ↦ lt a b = true) = Order.Preimage key (· < ·) := by
    funext a b
    exact propext (h a b)
  have hκ : IsStrictWeakOrder κ (· < ·) := isStrictWeakOrder_of_isOrderConnected
  rw [he]
  infer_instance

theorem cmp_irrefl (a : α) : ¬ lt a a = true := Std.Irrefl.irrefl (r := fun a b ↦ lt a b = true) a

theorem cmp_trans {a b c : α} (hab : lt a b = true) (hbc : lt b c = true) : lt a c = true :=
  IsTrans.trans (r := fun a b ↦ lt a b = true) _ _ _ hab hbc

theorem not_cmp_trans {a b c : α} (hab : ¬ lt a b = true) (hbc : ¬ lt b c = true) :
    ¬ lt a c = true := by
  intro hac
  have hba : ¬ lt b a = true := fun hba ↦ hbc (cmp_trans hba hac)
  have hcb : ¬ lt c b = true := fun hcb ↦ hab (cmp_trans hac hcb)
  exact (@IsStrictWeakOrder.incomp_trans α (fun a b ↦ lt a b = true) _ a b c ⟨hab,
    hba⟩ ⟨hbc, hcb⟩).1 hac

theorem notAfter_trans (a b c : α) (hab : (!lt b a) = true) (hbc : (!lt c b) = true) :
    (!lt c a) = true := by
  rw [Bool.not_eq_true', ← Bool.not_eq_true] at *
  exact not_cmp_trans hbc hab

theorem notAfter_total (a b : α) : ((!lt b a) || !lt a b) = true := by
  by_cases h : lt a b = true
  · have hba : ¬ lt b a = true := fun hba ↦ cmp_irrefl a (cmp_trans h hba)
    rw [Bool.not_eq_true] at hba
    rw [hba, Bool.not_false, Bool.true_or]
  · rw [Bool.not_eq_true] at h
    rw [h, Bool.not_false, Bool.or_true]

theorem stableSort_perm (lt : α → α → Bool) (l : List α) :
    (stableSort lt l).Perm l := List.mergeSort_perm _ _

variable (lt) in
theorem stableSort_pairwise (l : List α) : (stableSort lt l).Pairwise fun a b ↦
    ¬ lt b a = true := by
  apply (List.pairwise_mergeSort notAfter_trans notAfter_total l).imp
  intro a b h
  rwa [Bool.not_eq_true', ← Bool.not_eq_true] at h

theorem head?_stableSort_cons (a : α) (l : List α) :
    (stableSort lt (a :: l)).head? =
      some (((stableSort lt l).head?.map fun b ↦ if lt b a then b else a).getD a) := by
  obtain ⟨l₁, l₂, hcons, htail, hbefore⟩ := @List.mergeSort_cons α (fun a b ↦ !lt b a)
    notAfter_trans notAfter_total a l
  have hsorted := stableSort_pairwise lt (a :: l)
  rw [stableSort, hcons] at hsorted
  rw [stableSort, stableSort, hcons, htail]
  cases l₁ with
  | cons b l₁ =>
    have hb : lt b a = true := by simpa using hbefore b List.mem_cons_self
    simp [hb]
  | nil =>
    cases l₂ with
    | nil => rfl
    | cons b l₂ =>
      have hb : ¬ lt b a = true := List.rel_of_pairwise_cons hsorted List.mem_cons_self
      simp [hb]

theorem foldl_improve_some (a : α) (l : List α) : l.foldl (improve lt) (some a) =
    some (((l.foldl (improve lt) none).map fun b ↦ if lt b a then b else a).getD a) := by
  induction l generalizing a with
  | nil => rfl
  | cons x l ih =>
    have hx : (x :: l).foldl (improve lt) none = l.foldl (improve lt) (some x) := rfl
    have ha : (x :: l).foldl (improve lt) (some a) =
        l.foldl (improve lt) (some (if lt x a then x else a)) := rfl
    rw [hx, ha, ih, ih x]
    cases l.foldl (improve lt) none with
    | none => rfl
    | some b =>
      simp only [Option.map_some, Option.getD_some, Option.some.injEq]
      by_cases hxa : lt x a = true
      · by_cases hbx : lt b x = true
        · simp [hxa, hbx, cmp_trans hbx hxa]
        · simp [hxa, hbx]
      · by_cases hbx : lt b x = true
        · simp [hxa, hbx]
        · simp [hxa, hbx, not_cmp_trans hbx hxa]

theorem head?_stableSort (l : List α) : (stableSort lt l).head? = l.foldl (improve lt) none := by
  induction l with
  | nil => simp [stableSort]
  | cons a l ih =>
    rw [head?_stableSort_cons, ih]
    exact (foldl_improve_some a l).symm

end StrictWeak

end Sm120.Lib
