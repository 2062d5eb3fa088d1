import Mathlib.Tactic

namespace Sm120.Lib

def roundUp (x a : ℕ) : ℕ := (x + a - 1) / a * a

section RoundUp

variable {a b x y : ℕ}

theorem le_roundUp (x : ℕ) (ha : 0 < a) : x ≤ roundUp x a := by
  have hmod := Nat.mod_lt (x + a - 1) ha
  have hdiv := Nat.div_add_mod' (x + a - 1) a
  unfold roundUp
  omega

theorem roundUp_le (ha : 0 < a) (hay : a ∣ y) (h : x ≤ y) : roundUp x a ≤ y := by
  obtain ⟨k, rfl⟩ := hay
  have hlt : (x + a - 1) / a < k + 1 := by
    rw [Nat.div_lt_iff_lt_mul ha, Nat.succ_mul, Nat.mul_comm]
    omega
  rw [Nat.mul_comm a]
  exact Nat.mul_le_mul_right _ (Nat.lt_succ_iff.1 hlt)

theorem dvd_roundUp (x a : ℕ) : a ∣ roundUp x a := Dvd.intro_left _ rfl

theorem roundUp_of_dvd (ha : 0 < a) (h : a ∣ x) : roundUp x a = x :=
  le_antisymm (roundUp_le ha h le_rfl) (le_roundUp x ha)

theorem roundUp_add (ha : 0 < a) (hx : a ∣ x) (y : ℕ) : roundUp (x + y) a = x + roundUp y a := by
  obtain ⟨k, rfl⟩ := hx
  have he : a * k + y + a - 1 = a * k + (y + a - 1) := by omega
  rw [roundUp, roundUp, he, Nat.mul_add_div ha, Nat.add_mul, Nat.mul_comm k]

theorem roundUp_roundUp (ha : 0 < a) (hb : 0 < b) (hab : a ∣ b) (x : ℕ) :
    roundUp (roundUp x a) b = roundUp x b := by
  apply le_antisymm
  · apply roundUp_le hb (dvd_roundUp x b)
    exact roundUp_le ha (hab.trans (dvd_roundUp x b)) (le_roundUp x hb)
  · apply roundUp_le hb (dvd_roundUp _ b)
    exact (le_roundUp x ha).trans (le_roundUp _ hb)

end RoundUp

/-- What `sizeof` and `alignof` say of a C++ type. -/
structure CType where
  size : ℕ
  align : ℕ

namespace CType

def array (t : CType) (n : ℕ) : CType := ⟨n * t.size, t.align⟩

def alignas (a : ℕ) (t : CType) : CType := ⟨t.size, max a t.align⟩

/-- Where the last of the members ends when the first may start at `o`. -/
def extent : ℕ → List CType → ℕ
  | o, [] => o
  | o, t :: ts => extent (roundUp o t.align + t.size) ts

/-- A struct with its members in order, `alignas(a)` itself. -/
def struct (a : ℕ) (ts : List CType) : CType :=
  let align := (ts.map align).foldr max a
  ⟨roundUp (extent 0 ts) align, align⟩

def arrayAligned (t : CType) (n : ℕ) : CType := struct 16 [t.array n]

def half : CType := ⟨2, 2⟩

def float : CType := ⟨4, 4⟩

def uint64 : CType := ⟨8, 8⟩

theorem arrayAligned_eq {t : CType} (n : ℕ) (h0 : 0 < t.align) (h : t.align ≤ 16) :
    arrayAligned t n = ⟨roundUp (n * t.size) 16, 16⟩ := by
  simp only [arrayAligned, struct, extent, array, List.map_cons, List.map_nil,
    List.foldr_cons, List.foldr_nil, max_eq_right h, roundUp_of_dvd h0 (dvd_zero _), Nat.zero_add]

theorem arrayAligned_half (n : ℕ) : arrayAligned half n = ⟨roundUp (n * 2) 16, 16⟩ :=
  arrayAligned_eq n (by decide) (by decide)

theorem arrayAligned_float (n : ℕ) : arrayAligned float n = ⟨roundUp (n * 4) 16, 16⟩ :=
  arrayAligned_eq n (by decide) (by decide)

end CType

/-- The padding of an array that starts on a 128-byte boundary is lost in that of the next
member. -/
theorem roundUp_pad {a : ℕ} (x y : ℕ) (ha : 0 < a) (h : 16 ∣ a) :
    roundUp (roundUp x 128 + roundUp y 16) a = roundUp (roundUp x 128 + y) a := by
  have hx : 16 ∣ roundUp x 128 := (show 16 ∣ 128 by decide).trans (dvd_roundUp x 128)
  rw [← roundUp_add (by decide) hx, roundUp_roundUp (by decide) ha h]

end Sm120.Lib
