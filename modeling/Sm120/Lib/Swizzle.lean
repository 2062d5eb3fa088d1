import Sm120.Lib.Grid

namespace Sm120.Lib

/-- Offset of element `(r, c)` in a K-major tile of `rows` rows that is cut into atoms of `8 * 2 ^
n` columns, where the key of a row permutes the chunks of 8 elements in its row of an atom. -/
def swizzle (n : ℕ) (key : ℕ → ℕ) (rows r c : ℕ) : ℕ :=
  r * (8 * 2 ^ n) + ((c % (8 * 2 ^ n) / 8) ^^^ key r) * 8 + c % 8 +
    c / (8 * 2 ^ n) * (8 * 2 ^ n * rows)

section Swizzle

variable {n : ℕ} {key : ℕ → ℕ} {rows r c : ℕ}

theorem swizzle_chunk_lt (hkey : ∀ r, key r < 2 ^ n) (r c : ℕ) :
    ((c % (8 * 2 ^ n) / 8) ^^^ key r) * 8 + c % 8 < 8 * 2 ^ n := by
  have hmod := Nat.mod_lt c (show 0 < 8 * 2 ^ n by positivity)
  have hchunk : c % (8 * 2 ^ n) / 8 < 2 ^ n := Nat.div_lt_of_lt_mul hmod
  have hxor := Nat.xor_lt_two_pow hchunk (hkey r)
  omega

theorem swizzle_eq (n : ℕ) (key : ℕ → ℕ) (rows r c : ℕ) : swizzle n key rows r c =
    (c / (8 * 2 ^ n) * rows + r) * (8 * 2 ^ n) +
      (((c % (8 * 2 ^ n) / 8) ^^^ key r) * 8 + c % 8) := by
  rw [swizzle]
  ring

theorem swizzle_inj (hkey : ∀ r, key r < 2 ^ n) {r' c' : ℕ} (hr : r < rows) (hr' : r' < rows)
    (h : swizzle n key rows r c = swizzle n key rows r' c') : r = r' ∧ c = c' := by
  rw [swizzle_eq, swizzle_eq] at h
  obtain ⟨hatom, hin⟩ := digits_inj (swizzle_chunk_lt hkey r c) (swizzle_chunk_lt hkey r' c') h
  obtain ⟨hdiv, rfl⟩ := digits_inj hr hr' hatom
  refine ⟨rfl, ?_⟩
  have hlow : c % 8 = c' % 8 := by omega
  have hhigh : c % (8 * 2 ^ n) / 8 = c' % (8 * 2 ^ n) / 8 := by
    have hxor : (c % (8 * 2 ^ n) / 8) ^^^ key r = (c' % (8 * 2 ^ n) / 8) ^^^ key r := by omega
    simpa only [Nat.xor_assoc, Nat.xor_self, Nat.xor_zero] using congrArg (· ^^^ key r) hxor
  have hmod : ∀ x, x % (8 * 2 ^ n) % 8 = x % 8 :=
    fun x ↦ Nat.mod_mod_of_dvd x (Nat.dvd_mul_right 8 _)
  have hc : c % (8 * 2 ^ n) = c' % (8 * 2 ^ n) := by
    have h1 := hmod c
    have h2 := hmod c'
    omega
  rw [← Nat.div_add_mod c (8 * 2 ^ n), ← Nat.div_add_mod c' (8 * 2 ^ n), hdiv, hc]

theorem swizzle_lt (hkey : ∀ r, key r < 2 ^ n) {cols : ℕ} (hcols : cols % (8 * 2 ^ n) = 0)
    (hr : r < rows) (hc : c < cols) : swizzle n key rows r c < rows * cols := by
  obtain ⟨m, rfl⟩ := Nat.dvd_of_mod_eq_zero hcols
  have hdiv : c / (8 * 2 ^ n) < m := Nat.div_lt_of_lt_mul hc
  have hrow : c / (8 * 2 ^ n) * rows + r < m * rows :=
    calc c / (8 * 2 ^ n) * rows + r < (c / (8 * 2 ^ n) + 1) * rows := by
          rw [Nat.succ_mul (c / (8 * 2 ^ n))]
          exact Nat.add_lt_add_left hr _
      _ ≤ m * rows := Nat.mul_le_mul_right _ hdiv
  calc swizzle n key rows r c < (c / (8 * 2 ^ n) * rows + r + 1) * (8 * 2 ^ n) := by
        rw [swizzle_eq, Nat.succ_mul (_ + r)]
        exact Nat.add_lt_add_left (swizzle_chunk_lt hkey r c) _
    _ ≤ m * rows * (8 * 2 ^ n) := Nat.mul_le_mul_right _ hrow
    _ = rows * (8 * 2 ^ n * m) := by ring

end Swizzle

end Sm120.Lib
