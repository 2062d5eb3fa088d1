import Mathlib.Tactic

namespace Sm120.Lib

/-- A 32-bit integer has the value that the same expression has over the naturals. -/
def Exact (a : Int32) (n : ℕ) : Prop := a.toInt = n

namespace Exact

variable {a b : Int32} {m n : ℕ}

theorem lt (h : Exact a n) : n < 2 ^ 31 := by
  have ha := a.toInt_lt
  rw [h] at ha
  exact_mod_cast ha

theorem bmod_eq {x : ℤ} (h0 : 0 ≤ x) (h : x < 2 ^ 31) : x.bmod (2 ^ 32) = x := by
  apply Int.bmod_eq_of_le
  · omega
  · omega

theorem ofNat (h : n < 2 ^ 31) : Exact (Int32.ofNat n) n := Int32.toInt_ofNat_of_lt h

theorem ofUInt32 {x : UInt32} (h : x.toNat < 2 ^ 31) : Exact x.toInt32 x.toNat := by
  have hx : x.toInt32 = Int32.ofNat x.toNat := by
    rw [← UInt32.toInt32_ofNat', UInt32.ofNat_toNat]
  rw [hx]
  exact ofNat h

theorem cast {x : Int64} (hx : x.toInt = n) (h : n < 2 ^ 31) : Exact x.toInt32 n := by
  rw [Exact, Int64.toInt_toInt32, hx]
  apply bmod_eq <;> omega

theorem add (ha : Exact a m) (hb : Exact b n) (h : m + n < 2 ^ 31) : Exact (a + b) (m + n) := by
  rw [Exact, Int32.toInt_add, ha, hb, ← Nat.cast_add]
  apply bmod_eq <;> omega

theorem sub (ha : Exact a m) (hb : Exact b n) (h : n ≤ m) : Exact (a - b) (m - n) := by
  have hm := ha.lt
  rw [Exact, Int32.toInt_sub, ha, hb, ← Nat.cast_sub h]
  apply bmod_eq <;> omega

theorem mul (ha : Exact a m) (hb : Exact b n) (h : m * n < 2 ^ 31) : Exact (a * b) (m * n) := by
  rw [Exact, Int32.toInt_mul, ha, hb, ← Nat.cast_mul]
  apply bmod_eq <;> omega

theorem div (ha : Exact a m) (hb : Exact b n) : Exact (a / b) (m / n) := by
  have hm := ha.lt
  have hle := Nat.div_le_self m n
  rw [Exact, Int32.toInt_div, ha, hb, Int.natCast_tdiv_eq_ediv, ← Int.natCast_ediv]
  apply bmod_eq (Int.natCast_nonneg _)
  exact_mod_cast hle.trans_lt hm

theorem mod (ha : Exact a m) (hb : Exact b n) : Exact (a % b) (m % n) := by
  rw [Exact, Int32.toInt_mod, ha, hb, ← Int.ofNat_tmod]

theorem lt_iff (ha : Exact a m) (hb : Exact b n) : a < b ↔ m < n := by
  rw [Int32.lt_iff_toInt_lt, ha, hb, Nat.cast_lt]

theorem addUnsigned (ha : Exact a m) (hb : Exact b n) (h : m + n < 2 ^ 31) :
    Exact (a.toUInt32 + b.toUInt32).toInt32 (m + n) := by
  have he : (a.toUInt32 + b.toUInt32).toInt32 = a + b := by
    rw [← Int32.toUInt32_add, Int32.toInt32_toUInt32]
  rw [he]
  exact ha.add hb h

end Exact

end Sm120.Lib
