import Mathlib.Data.Prod.Lex
import Sm120.Lib.Schedule

namespace Sm120.Lib

/-- A place of an unrolled loop: the iteration, then the line of its body. -/
abbrev Site := ℕ ×ₗ ℕ

def site (t line : ℕ) : Site := toLex (t, line)

def Site.tile (x : Site) : ℕ := (ofLex x).1

def Site.line (x : Site) : ℕ := (ofLex x).2

namespace Site

@[simp] theorem tile_site (t line : ℕ) : (site t line).tile = t := rfl

@[simp] theorem line_site (t line : ℕ) : (site t line).line = line := rfl

theorem eta (x : Site) : site x.tile x.line = x := rfl

theorem lt_iff {t l t' l' : ℕ} : site t l < site t' l' ↔ t < t' ∨ t = t' ∧ l < l' :=
  Prod.Lex.toLex_lt_toLex

theorem le_iff {t l t' l' : ℕ} : site t l ≤ site t' l' ↔ t < t' ∨ t = t' ∧ l ≤ l' :=
  Prod.Lex.toLex_le_toLex

end Site

variable {α β : Type}

/-- The bodies of a loop's iterations one after the other, numbered from `t`. -/
def unroll (body : ℕ → α → List β) : ℕ → List α → List β
  | _, [] => []
  | t, x :: xs => body t x ++ unroll body (t + 1) xs

section Unroll

variable (body : ℕ → α → List β)

@[simp] theorem unroll_nil (t : ℕ) : unroll body t [] = [] := rfl

@[simp] theorem unroll_cons (t : ℕ) (x : α) (xs : List α) :
    unroll body t (x :: xs) = body t x ++ unroll body (t + 1) xs := rfl

theorem unroll_append (t : ℕ) (xs ys : List α) :
    unroll body t (xs ++ ys) = unroll body t xs ++ unroll body (t + xs.length) ys := by
  induction xs generalizing t with
  | nil => simp
  | cons x xs ih =>
    have e : t + (xs.length + 1) = t + 1 + xs.length := by omega
    rw [List.cons_append, unroll_cons, unroll_cons, ih, List.append_assoc, List.length_cons, e]

theorem unroll_congr {body body' : ℕ → α → List β} {xs : List α} {t : ℕ}
    (h : ∀ t, ∀ x ∈ xs, body t x = body' t x) : unroll body t xs = unroll body' t xs := by
  induction xs generalizing t with
  | nil => rfl
  | cons x xs ih =>
    rw [unroll_cons, unroll_cons, h t x List.mem_cons_self,
      ih fun t y hy ↦ h t y (List.mem_cons_of_mem _ hy)]

variable {body}

theorem mem_unroll {b : β} {t : ℕ} {xs : List α} :
    b ∈ unroll body t xs ↔ ∃ j x, xs[j]? = some x ∧ b ∈ body (t + j) x := by
  induction xs generalizing t with
  | nil => simp
  | cons x xs ih =>
    rw [unroll_cons, List.mem_append, ih]
    constructor
    · rintro (h | ⟨j, y, hy, h⟩)
      · exact ⟨0, x, rfl, h⟩
      · exact ⟨j + 1, y, by simpa using hy, by rwa [show t + (j + 1) = t + 1 + j by omega]⟩
    · rintro ⟨j, y, hy, h⟩
      cases j with
      | zero =>
        obtain rfl : x = y := by simpa using hy
        exact .inl h
      | succ j =>
        exact .inr ⟨j, y, by simpa using hy, by rwa [show t + 1 + j = t + (j + 1) by omega]⟩

theorem unroll_singleton_getElem? (f : ℕ → α → β) (t : ℕ) (xs : List α) (j : ℕ) :
    (unroll (fun t x ↦ [f t x]) t xs)[j]? = xs[j]?.map (f (t + j)) := by
  induction xs generalizing t j with
  | nil => simp
  | cons x xs ih =>
    cases j with
    | zero => simp
    | succ j =>
      rw [unroll_cons, List.singleton_append, List.getElem?_cons_succ, List.getElem?_cons_succ, ih]
      congr 2
      omega

theorem unroll_singleton_length (f : ℕ → α → β) (t : ℕ) (xs : List α) :
    (unroll (fun t x ↦ [f t x]) t xs).length = xs.length := by
  induction xs generalizing t with
  | nil => rfl
  | cons x xs ih => simp [ih]

theorem unroll_eq_nil {t : ℕ} {xs : List α} (h : ∀ t, ∀ x ∈ xs, body t x = []) :
    unroll body t xs = [] := by
  rw [List.eq_nil_iff_forall_not_mem]
  intro b hb
  obtain ⟨j, x, hx, hb⟩ := mem_unroll.1 hb
  simp [h _ x (List.mem_of_getElem? hx)] at hb

end Unroll

section Sites

variable {R B A : Type} {body : ℕ → α → List (Instr Site R B A)} {xs : List α}

theorem sites_unroll (q : Op R B A → Bool) (t : ℕ) :
    sites q (unroll body t xs) = unroll (fun t x ↦ sites q (body t x)) t xs := by
  induction xs generalizing t with
  | nil => rfl
  | cons x xs ih => simp [ih]

theorem unroll_sorted {t : ℕ} (hb : ∀ t, ∀ x ∈ xs, (body t x).Pairwise fun i j ↦ i.site < j.site)
    (ht : ∀ t, ∀ x ∈ xs, ∀ i ∈ body t x, i.site.tile = t) :
    (unroll body t xs).Pairwise fun i j ↦ i.site < j.site := by
  induction xs generalizing t with
  | nil => exact .nil
  | cons x xs ih =>
    have hb' := fun t y hy ↦ hb t y (List.mem_cons_of_mem x hy)
    have ht' := fun t y hy ↦ ht t y (List.mem_cons_of_mem x hy)
    refine List.pairwise_append.2 ⟨hb t x List.mem_cons_self, ih hb' ht', fun i hi j hj ↦ ?_⟩
    obtain ⟨n, y, hy, hj⟩ := mem_unroll.1 hj
    have hi := ht t x List.mem_cons_self i hi
    have hj := ht' _ y (List.mem_of_getElem? hy) j hj
    rw [← i.site.eta, ← j.site.eta, Site.lt_iff]
    omega

end Sites

end Sm120.Lib
