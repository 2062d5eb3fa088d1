import Sm120.Flash.Traits

namespace Sm120.Flash

open Lib Finset

/-- The sizes from which `Storage` lays out the shared QKV array, in elements. -/
structure Storage where
  qSize : ℕ
  kSize : ℕ
  qSize_pos : 0 < qSize
  kSize_pos : 0 < kSize

namespace Storage

variable (S : Storage)

def oSize : ℕ := S.qSize

def vSize : ℕ := S.kSize

def qkSize : ℕ := S.kSize + if S.qSize ≥ S.kSize then S.qSize else S.kSize

def kStageStride : ℕ := if S.qSize ≤ S.kSize then S.kSize else S.qSize

def getSQ (idx : ℕ) : Finset ℕ := Ico (S.kSize * idx) (S.kSize * idx + S.qSize)

def getSK (idx : ℕ) : Finset ℕ := Ico (S.kStageStride * idx) (S.kStageStride * idx + S.kSize)

def getSV : Finset ℕ := Ico S.qkSize (S.qkSize + S.vSize)

def getSO (idx : ℕ) : Finset ℕ := Ico (idx * S.oSize) (idx * S.oSize + S.oSize)

theorem qSize_le_stride : S.qSize ≤ S.kStageStride := by
  unfold kStageStride
  split_ifs <;> omega

theorem kSize_le_stride : S.kSize ≤ S.kStageStride := by
  unfold kStageStride
  split_ifs <;> omega

theorem qkSize_eq : S.qkSize = S.kSize + S.kStageStride := by
  unfold qkSize kStageStride
  split_ifs <;> omega

theorem qSize_lt_qkSize : S.qSize < S.qkSize := by
  have h := S.qSize_le_stride
  have hk := S.kSize_pos
  rw [qkSize_eq]
  omega

theorem getSQ_disjoint_getSK {i j : ℕ} (hi : i < 2) (hj : j < 2) (h : i ≠ j) :
    Disjoint (S.getSQ i) (S.getSK j) := by
  have hq := S.qSize_le_stride
  rw [disjoint_left]
  intro a ha hb
  rw [getSQ, mem_Ico] at ha
  rw [getSK, mem_Ico] at hb
  rcases Nat.le_one_iff_eq_zero_or_eq_one.1 (Nat.lt_succ_iff.1 hi) with rfl | rfl <;>
    rcases Nat.le_one_iff_eq_zero_or_eq_one.1 (Nat.lt_succ_iff.1 hj) with rfl | rfl <;> omega

theorem getSK_disjoint {i j : ℕ} (h : i ≠ j) : Disjoint (S.getSK i) (S.getSK j) := by
  have hd := Layout.slots_disjoint 0 S.kSize_le_stride h
  simpa only [getSK, Nat.zero_add, Nat.mul_comm] using hd

theorem getSQ_disjoint_getSV {i : ℕ} (hi : i < 2) : Disjoint (S.getSQ i) S.getSV := by
  have hq := S.qSize_le_stride
  rw [disjoint_left]
  intro a ha hb
  rw [getSQ, mem_Ico] at ha
  rw [getSV, mem_Ico, qkSize_eq] at hb
  rcases Nat.le_one_iff_eq_zero_or_eq_one.1 (Nat.lt_succ_iff.1 hi) with rfl | rfl <;> omega

theorem getSK_disjoint_getSV {i : ℕ} (hi : i < 2) : Disjoint (S.getSK i) S.getSV := by
  rw [disjoint_left]
  intro a ha hb
  rw [getSK, mem_Ico] at ha
  rw [getSV, mem_Ico, qkSize_eq] at hb
  rcases Nat.le_one_iff_eq_zero_or_eq_one.1 (Nat.lt_succ_iff.1 hi) with rfl | rfl <;> omega

/-- The final O tile spares the second K stage. -/
theorem getSO_disjoint_getSK : Disjoint (S.getSO 0) (S.getSK 1) := by
  have hq := S.qSize_le_stride
  rw [disjoint_left]
  intro a ha hb
  rw [getSO, oSize, mem_Ico] at ha
  rw [getSK, mem_Ico] at hb
  omega

theorem getSO_disjoint {i j : ℕ} (h : i ≠ j) : Disjoint (S.getSO i) (S.getSO j) := by
  have hd := Layout.slots_disjoint 0 (le_refl S.oSize) h
  simpa only [getSO, Nat.zero_add] using hd

theorem getSO_disjoint_getSV : Disjoint (S.getSO 0) S.getSV := by
  have hq := S.qSize_lt_qkSize
  rw [disjoint_left]
  intro a ha hb
  rw [getSO, oSize, mem_Ico] at ha
  rw [getSV, mem_Ico] at hb
  omega

end Storage

/-- Offset of element `(r, c)` in a K-major tile of `rows` rows and `headDim` columns: 128-byte
swizzled atoms of 8 by 64 elements, or 64-byte swizzled ones of 8 by 32. -/
def smemOffset (rows headDim r c : ℕ) : ℕ :=
  if headDim % 64 = 0 then
    r * 64 + ((c % 64 / 8) ^^^ (r % 8)) * 8 + c % 8 + c / 64 * (64 * rows)
  else r * 32 + ((c % 32 / 8) ^^^ (r / 2 % 4)) * 8 + c % 8 + c / 32 * (32 * rows)

theorem smemOffset_zero (rows headDim : ℕ) : smemOffset rows headDim 0 0 = 0 := by
  unfold smemOffset
  split_ifs <;> simp

/-- Swizzling permutes the chunks of a row, so an atom row of `A` elements determines its row. -/
theorem row_of_offset {A rows r x k : ℕ} (hr : r < rows) (hx : x < A) :
    (r * A + x + k * (A * rows)) / A % rows = r := by
  have e : r * A + x + k * (A * rows) = x + A * (r + k * rows) := by ring
  rw [e, Nat.add_mul_div_left _ _ (by omega), Nat.div_eq_of_lt hx, Nat.zero_add,
    Nat.add_mul_mod_self_right, Nat.mod_eq_of_lt hr]

theorem smemOffset_row {rows headDim r c r' c' : ℕ} (hr : r < rows) (hr' : r' < rows)
    (h : smemOffset rows headDim r c = smemOffset rows headDim r' c') : r = r' := by
  unfold smemOffset at h
  have hx8 : ∀ a b : ℕ, a < 8 → b < 8 → a ^^^ b < 8 := fun a b ha hb ↦
    Nat.xor_lt_two_pow (n := 3) ha hb
  have hx4 : ∀ a b : ℕ, a < 4 → b < 4 → a ^^^ b < 4 := fun a b ha hb ↦
    Nat.xor_lt_two_pow (n := 2) ha hb
  split_ifs at h
  · have h1 := hx8 (c % 64 / 8) (r % 8) (by omega) (by omega)
    have h2 := hx8 (c' % 64 / 8) (r' % 8) (by omega) (by omega)
    have e1 := row_of_offset (A := 64) (k := c / 64) hr
      (show ((c % 64 / 8) ^^^ (r % 8)) * 8 + c % 8 < 64 by omega)
    have e2 := row_of_offset (A := 64) (k := c' / 64) hr'
      (show ((c' % 64 / 8) ^^^ (r' % 8)) * 8 + c' % 8 < 64 by omega)
    rw [← e1, ← e2, ← Nat.add_assoc, h, Nat.add_assoc (r' * 64)]
  · have h1 := hx4 (c % 32 / 8) (r / 2 % 4) (by omega) (by omega)
    have h2 := hx4 (c' % 32 / 8) (r' / 2 % 4) (by omega) (by omega)
    have e1 := row_of_offset (A := 32) (k := c / 32) hr
      (show ((c % 32 / 8) ^^^ (r / 2 % 4)) * 8 + c % 8 < 32 by omega)
    have e2 := row_of_offset (A := 32) (k := c' / 32) hr'
      (show ((c' % 32 / 8) ^^^ (r' / 2 % 4)) * 8 + c' % 8 < 32 by omega)
    rw [← e1, ← e2, ← Nat.add_assoc, h, Nat.add_assoc (r' * 32)]

theorem smemOffset_lt {rows headDim r c : ℕ} (hd : headDim % 32 = 0) (hr : r < rows)
    (hc : c < headDim) : smemOffset rows headDim r c < rows * headDim := by
  have hx8 : (c % 64 / 8) ^^^ (r % 8) < 8 :=
    Nat.xor_lt_two_pow (n := 3) (by omega) (by omega)
  have hx4 : (c % 32 / 8) ^^^ (r / 2 % 4) < 4 :=
    Nat.xor_lt_two_pow (n := 2) (by omega) (by omega)
  have key : ∀ A k n x, headDim = A * n → k < n → x < A →
      r * A + x + k * (A * rows) < rows * headDim := by
    intro A k n x hA hk hx
    have h1 : r * A + x < A * rows := by
      calc r * A + x < (r + 1) * A := by rw [Nat.add_mul r 1]; omega
        _ ≤ rows * A := Nat.mul_le_mul_right _ hr
        _ = A * rows := Nat.mul_comm _ _
    calc r * A + x + k * (A * rows) < (k + 1) * (A * rows) := by rw [Nat.add_mul k 1]; omega
      _ ≤ n * (A * rows) := Nat.mul_le_mul_right _ hk
      _ = rows * headDim := by rw [hA]; ring
  unfold smemOffset
  split_ifs with h
  · rw [Nat.add_assoc (r * 64)]
    exact key 64 _ (headDim / 64) _ (by omega) (by omega) (by omega)
  · rw [Nat.add_assoc (r * 32)]
    exact key 32 _ (headDim / 32) _ (by omega) (by omega) (by omega)

end Sm120.Flash
