import Sm120.Lib.Pattern

namespace Sm120.Lib

/-- The integer next to a number that is not negative, the even one of two. -/
def roundHalfEven (q : ℚ) : ℕ :=
  let n := ⌊q⌋.toNat
  if q - n < 1 / 2 ∨ (q - n = 1 / 2 ∧ n % 2 = 0) then n else n + 1

/-- `%.kf` of a number that is not negative. -/
def fixedPoint (k : ℕ) (q : ℚ) : List Char :=
  let n := roundHalfEven (q * 10 ^ k)
  let fraction := decimal (n % 10 ^ k)
  decimal (n / 10 ^ k) ++ '.' :: (List.replicate (k - fraction.length) '0' ++ fraction)

/-- `snprintf` into an array of `size` characters, the last of which is a null. -/
def snprintf (size : ℕ) (text : List Char) : List Char := text.take (size - 1)

example : fixedPoint 3 (1 / 8 + 1 / 10000) = "0.125".toList := by decide +kernel

theorem mem_fixedPoint {k : ℕ} {q : ℚ} {c : Char} (h : c ∈ fixedPoint k q) :
    c.isDigit = true ∨ c = '.' := by
  rcases List.mem_append.1 h with h | h
  · exact .inl (isDigit_of_mem_decimal h)
  · rcases List.mem_cons.1 h with rfl | h
    · exact .inr rfl
    · rcases List.mem_append.1 h with h | h
      · rw [List.eq_of_mem_replicate h]
        exact .inl (by decide)
      · exact .inl (isDigit_of_mem_decimal h)

theorem roundHalfEven_le {q : ℚ} {n : ℕ} (h : q < n) : roundHalfEven q ≤ n := by
  have hfloor : ⌊q⌋ < n := Int.floor_lt.2 (by exact_mod_cast h)
  unfold roundHalfEven
  dsimp only
  split_ifs with hround
  · omega
  · by_contra hlt
    -- then nothing lies before the number, and it is rounded down
    have hzero : ⌊q⌋.toNat = 0 := by omega
    have hn : n = 0 := by omega
    have hneg : q < 0 := by
      rw [hn] at h
      exact_mod_cast h
    refine hround (.inl ?_)
    rw [hzero, Nat.cast_zero, sub_zero]
    exact hneg.trans (by norm_num)

theorem length_fixedPoint_le {k m : ℕ} {q : ℚ} (hk : 0 < k) (h : q < 10 ^ m) :
    (fixedPoint k q).length ≤ m + k + 2 := by
  have hpow : (0 : ℚ) < 10 ^ k := by positivity
  have hround : roundHalfEven (q * 10 ^ k) ≤ 10 ^ (m + k) := by
    apply roundHalfEven_le
    push_cast
    rw [pow_add]
    exact mul_lt_mul_of_pos_right h hpow
  have hwhole : roundHalfEven (q * 10 ^ k) / 10 ^ k < 10 ^ (m + 1) := by
    rw [Nat.div_lt_iff_lt_mul (by positivity), ← pow_add]
    exact hround.trans_lt (Nat.pow_lt_pow_right (by decide) (by omega))
  have hfraction : roundHalfEven (q * 10 ^ k) % 10 ^ k < 10 ^ k := Nat.mod_lt _ (by positivity)
  have hleft := length_decimal_le (by omega) hwhole
  have hright := length_decimal_le hk hfraction
  simp only [fixedPoint, List.length_append, List.length_cons, List.length_replicate]
  omega

theorem snprintf_eq {size : ℕ} {text : List Char} (h : text.length < size) :
    snprintf size text = text :=
  List.take_of_length_le (by omega)

end Sm120.Lib
