import Mathlib.Data.List.Perm.Basic
import Mathlib.Data.List.Range
import Mathlib.Tactic

namespace Sm120.Lib

/-- The indices below `n` that a grid-stride loop of step `g` takes from `i` on. -/
def gridStride (g n i : ℕ) : List ℕ :=
  if _h : i < n ∧ 0 < g then i :: gridStride g n (i + g) else []
termination_by n - i
decreasing_by omega

theorem digits_inj {n i j x y : ℕ} (hi : i < n) (hj : j < n) (h : x * n + i = y * n + j) :
    x = y ∧ i = j := by
  have hmod : i = j := by
    have hm := congrArg (· % n) h
    simpa only [Nat.mul_add_mod_self_right, Nat.mod_eq_of_lt hi, Nat.mod_eq_of_lt hj] using hm
  subst hmod
  exact ⟨Nat.eq_of_mul_eq_mul_right (Nat.zero_lt_of_lt hi) (Nat.add_right_cancel h), rfl⟩

section GridStride

variable {g n : ℕ}

theorem gridStride_of_lt {i : ℕ} (hi : i < n) (hg : 0 < g) :
    gridStride g n i = i :: gridStride g n (i + g) := by
  rw [gridStride, dif_pos ⟨hi, hg⟩]

theorem gridStride_of_le {i : ℕ} (hi : n ≤ i) : gridStride g n i = [] := by
  rw [gridStride, dif_neg (by omega)]

theorem mem_gridStride (hg : 0 < g) {i x : ℕ} :
    x ∈ gridStride g n i ↔ i ≤ x ∧ x < n ∧ x % g = i % g := by
  induction i using gridStride.induct g n with
  | case1 i h ih =>
    rw [gridStride_of_lt h.1 hg, List.mem_cons, ih, Nat.add_mod_right]
    constructor
    · rintro (rfl | ⟨hle, hlt, hmod⟩)
      · exact ⟨le_rfl, h.1, rfl⟩
      · exact ⟨by omega, hlt, hmod⟩
    · rintro ⟨hle, hlt, hmod⟩
      rcases hle.eq_or_lt with rfl | hil
      · exact .inl rfl
      · have hd :=
          Nat.le_of_dvd (by omega) (Nat.dvd_of_mod_eq_zero (Nat.sub_mod_eq_zero_of_mod_eq hmod))
        exact .inr ⟨by omega, hlt, hmod⟩
  | case2 i h =>
    rw [gridStride_of_le (by omega)]
    simp only [List.not_mem_nil, false_iff]
    omega

theorem gridStride_sorted (hg : 0 < g) (i : ℕ) : (gridStride g n i).Pairwise (· < ·) := by
  induction i using gridStride.induct g n with
  | case1 i h ih =>
    rw [gridStride_of_lt h.1 hg, List.pairwise_cons]
    refine ⟨fun x hx ↦ ?_, ih⟩
    have := ((mem_gridStride hg).1 hx).1
    omega
  | case2 i h =>
    rw [gridStride_of_le (by omega)]
    exact .nil

theorem gridStride_perm (hg : 0 < g) :
    ((List.range g).flatMap (gridStride g n)).Perm (List.range n) := by
  rw [List.perm_ext_iff_of_nodup _ List.nodup_range]
  · intro x
    simp only [List.mem_flatMap, List.mem_range, mem_gridStride hg]
    constructor
    · rintro ⟨b, -, -, hx, -⟩
      exact hx
    · intro hx
      have hb := Nat.mod_lt x hg
      exact ⟨x % g, hb, Nat.mod_le x g, hx, (Nat.mod_mod x g).symm⟩
  · refine List.nodup_flatMap.2 ⟨fun b _ ↦ (gridStride_sorted hg b).imp ne_of_lt, ?_⟩
    refine List.nodup_range.imp_of_mem fun {a b} ha hb hne ↦ ?_
    rw [List.mem_range] at ha hb
    rw [Function.onFun, List.disjoint_left]
    intro x hx hx'
    have h1 := ((mem_gridStride hg).1 hx).2.2
    have h2 := ((mem_gridStride hg).1 hx').2.2
    rw [Nat.mod_eq_of_lt ha] at h1
    rw [Nat.mod_eq_of_lt hb] at h2
    exact hne (h1.symm.trans h2)

end GridStride

section Stores

variable {ι α β : Type*} (region : ι → α → Prop) [∀ i, DecidablePred (region i)] (value : ι → α → β)

def storeRegion (m : α → β) (i : ι) : α → β := fun a ↦ if region i a then value i a else m a

variable {region value}

theorem foldl_storeRegion_of_notMem {l : List ι} {a : α} (h : ∀ i ∈ l, ¬ region i a) (m : α → β) :
    l.foldl (storeRegion region value) m a = m a := by
  induction l generalizing m with
  | nil => rfl
  | cons i l ih =>
    rw [List.foldl_cons, ih fun j hj ↦ h j (List.mem_cons_of_mem _ hj), storeRegion,
      if_neg (h i List.mem_cons_self)]

/-- In whatever order tiles are stored, an element of only one of them ends with its value. -/
theorem foldl_storeRegion_of_mem {l : List ι} {i : ι} {a : α} (hi : i ∈ l) (ha : region i a)
    (huniq : ∀ j ∈ l, region j a → j = i) (m : α → β) :
    l.foldl (storeRegion region value) m a = value i a := by
  induction l generalizing m with
  | nil => cases hi
  | cons j l ih =>
    rw [List.foldl_cons]
    by_cases hil : i ∈ l
    · exact ih hil (fun k hk ↦ huniq k (List.mem_cons_of_mem _ hk)) _
    · obtain rfl : i = j := (List.mem_cons.1 hi).resolve_right hil
      rw [foldl_storeRegion_of_notMem, storeRegion, if_pos ha]
      intro k hk hka
      exact hil (huniq k (List.mem_cons_of_mem _ hk) hka ▸ hk)

end Stores

end Sm120.Lib
