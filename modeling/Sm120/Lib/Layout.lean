import Mathlib.Algebra.BigOperators.Intervals
import Mathlib.Tactic

namespace Sm120.Lib

open Finset

/-- A strided layout: shape and stride of each mode, the fastest mode first. -/
abbrev Layout := List (ℕ × ℕ)

namespace Layout

/-- The value at a linear index. The last mode takes what the others leave. -/
def eval : Layout → ℕ → ℕ
  | [], _ => 0
  | [(_, d)], i => i * d
  | (s, d) :: m :: l, i => i % s * d + eval (m :: l) (i / s)

def offset : Layout → List ℕ → ℕ
  | (_, d) :: l, i :: is => i * d + offset l is
  | _, _ => 0

def cosize (l : Layout) : ℕ := (l.map fun m ↦ (m.1 - 1) * m.2).sum + 1

/-- A K-major tile made of atoms of 8 rows and `atom` columns, before the swizzle. -/
def kMajor (atom rows cols : ℕ) : Layout :=
  [(8, atom), (rows / 8, 8 * atom), (atom, 1), (cols / atom, atom * rows)]

/-- The first mode divided into tiles of `t`: one tile, and the tiles. -/
def divide (t : ℕ) : Layout → Layout × Layout
  | [] => ([], [])
  | (s, d) :: l => ([(t, d)], (s / t, t * d) :: l)

/-- Element `a` of the atom that unit `w` of `units` holds in its repetition `j` of a mode permuted
by `p`. -/
def owned (p : Layout) (atom units w j a : ℕ) : ℕ := p.eval (atom * (w + units * j) + a)

/-- Contiguous strips: each unit holds its repetitions side by side. -/
def strips (atom units reps : ℕ) : Layout := [(atom, 1), (units, atom * reps), (reps, atom)]

theorem owned_identity (n atom units w j a : ℕ) :
    owned [(n, 1)] atom units w j a = atom * (w + units * j) + a := by simp [owned, eval]

theorem owned_strips {atom units w a : ℕ} (reps j : ℕ) (hw : w < units) (ha : a < atom) :
    owned (strips atom units reps) atom units w j a = w * (atom * reps) + j * atom + a := by
  have hd : (atom * (w + units * j) + a) / atom = w + units * j := by
    rw [Nat.mul_add_div (by omega), Nat.div_eq_of_lt ha, Nat.add_zero]
  have hm : (atom * (w + units * j) + a) % atom = a := by
    rw [Nat.mul_add_mod, Nat.mod_eq_of_lt ha]
  have hw' : (w + units * j) % units = w := by rw [Nat.add_mul_mod_self_left, Nat.mod_eq_of_lt hw]
  have hj : (w + units * j) / units = j := by
    rw [Nat.add_mul_div_left _ _ (by omega), Nat.div_eq_of_lt hw, Nat.zero_add]
  simp only [owned, strips, eval, hd, hm, hw', hj]
  ring

theorem strip_lt {atom units reps w j a : ℕ} (hw : w < units) (hj : j < reps) (ha : a < atom) :
    w * (atom * reps) + j * atom + a < units * (atom * reps) := by
  have h : j * atom + a < atom * reps := by
    calc j * atom + a < (j + 1) * atom := by rw [Nat.succ_mul]; omega
      _ ≤ reps * atom := Nat.mul_le_mul_right _ hj
      _ = atom * reps := Nat.mul_comm _ _
  calc w * (atom * reps) + j * atom + a < (w + 1) * (atom * reps) := by rw [Nat.succ_mul]; omega
    _ ≤ units * (atom * reps) := Nat.mul_le_mul_right _ hw

theorem slots_disjoint (base : ℕ) {stride size i j : ℕ} (hs : size ≤ stride) (h : i ≠ j) :
    Disjoint (Ico (base + i * stride) (base + i * stride + size))
      (Ico (base + j * stride) (base + j * stride + size)) := by
  have hm : ∀ {m n}, m < n → m * stride + stride ≤ n * stride := by
    intro m n hlt
    rw [← Nat.succ_mul]
    exact Nat.mul_le_mul_right _ hlt
  rw [disjoint_left]
  intro a ha hb
  rw [mem_Ico] at ha hb
  rcases Nat.lt_or_gt_of_ne h with hlt | hlt
  · have := hm hlt
    omega
  · have := hm hlt
    omega

theorem cosize_kMajor {atom rows cols : ℕ} (hr : rows % 8 = 0) (hr0 : 0 < rows)
    (hc : cols % atom = 0) (hc0 : 0 < cols) : (kMajor atom rows cols).cosize = rows * cols := by
  obtain ⟨m, rfl⟩ := Nat.dvd_of_mod_eq_zero hr
  obtain ⟨n, rfl⟩ := Nat.dvd_of_mod_eq_zero hc
  have ha := Nat.pos_of_mul_pos_right hc0
  have hn := Nat.pos_of_mul_pos_left hc0
  obtain ⟨m, rfl⟩ := Nat.exists_eq_succ_of_ne_zero (show m ≠ 0 by omega)
  obtain ⟨n, rfl⟩ := Nat.exists_eq_succ_of_ne_zero hn.ne'
  obtain ⟨k, rfl⟩ := Nat.exists_eq_succ_of_ne_zero ha.ne'
  simp only [cosize, kMajor, List.map_cons, List.map_nil, List.sum_cons, List.sum_nil,
    Nat.mul_div_cancel_left _ (show 0 < 8 by decide), Nat.mul_div_cancel_left _ ha,
    Nat.succ_eq_add_one, Nat.add_sub_cancel]
  ring

theorem cosize_stages (l : Layout) {stages : ℕ} (hs : 0 < stages) :
    cosize (l ++ [(stages, l.cosize)]) = l.cosize * stages := by
  obtain ⟨k, rfl⟩ := Nat.exists_eq_succ_of_ne_zero hs.ne'
  have happ : cosize (l ++ [(k + 1, l.cosize)]) = l.cosize + k * l.cosize := by
    rw [cosize, List.map_append, List.sum_append, Nat.add_right_comm, ← cosize]
    simp
  rw [Nat.succ_eq_add_one, happ]
  ring

end Layout

section Sums

variable {M : Type*} [AddCommMonoid M]

theorem sum_range_mul (f : ℕ → M) (m n : ℕ) :
    ∑ c ∈ range (m * n), f c = ∑ i ∈ range m, ∑ j ∈ range n, f (i * n + j) := by
  induction m with
  | zero => simp
  | succ m ih => rw [Nat.succ_mul, sum_range_add, ih, sum_range_succ]

end Sums

end Sm120.Lib
