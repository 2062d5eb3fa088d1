import Mathlib.Algebra.Order.Field.Basic
import Mathlib.Tactic

set_option linter.unusedSectionVars false

namespace Sm120.Lib

/-- The values of a float in exact arithmetic, with one zero. -/
inductive Ieee (F : Type*)
  | nan
  | inf (negative : Bool)
  | fin (x : F)
deriving DecidableEq

namespace Ieee

variable {F : Type*} [Field F] [LinearOrder F]

protected def neg : Ieee F → Ieee F
  | nan => nan
  | inf s => inf (!s)
  | fin x => fin (-x)

protected def add : Ieee F → Ieee F → Ieee F
  | nan, _ => nan
  | _, nan => nan
  | inf s, inf t => if s = t then inf s else nan
  | inf s, fin _ => inf s
  | fin _, inf t => inf t
  | fin x, fin y => fin (x + y)

def infMul (s : Bool) (x : F) : Ieee F := if x = 0 then nan else inf (s ^^ decide (x < 0))

protected def mul : Ieee F → Ieee F → Ieee F
  | nan, _ => nan
  | _, nan => nan
  | inf s, inf t => inf (s ^^ t)
  | inf s, fin y => infMul s y
  | fin x, inf t => infMul t x
  | fin x, fin y => fin (x * y)

protected def div : Ieee F → Ieee F → Ieee F
  | nan, _ => nan
  | _, nan => nan
  | inf _, inf _ => nan
  | inf s, fin y => inf (s ^^ decide (y < 0))
  | fin _, inf _ => fin 0
  | fin x, fin y => if y = 0 then infMul false x else fin (x / y)

def abs : Ieee F → Ieee F
  | nan => nan
  | inf _ => inf false
  | fin x => fin |x|

protected def lt : Ieee F → Ieee F → Bool
  | nan, _ => false
  | _, nan => false
  | inf s, inf t => s && !t
  | inf s, fin _ => s
  | fin _, inf t => !t
  | fin x, fin y => x < y

protected def le : Ieee F → Ieee F → Bool
  | nan, _ => false
  | _, nan => false
  | inf s, inf t => s || !t
  | inf s, fin _ => s
  | fin _, inf t => !t
  | fin x, fin y => x ≤ y

instance : Neg (Ieee F) := ⟨Ieee.neg⟩
instance : Add (Ieee F) := ⟨Ieee.add⟩
instance : Sub (Ieee F) := ⟨fun a b ↦ a + -b⟩
instance : Mul (Ieee F) := ⟨Ieee.mul⟩
instance : Div (Ieee F) := ⟨Ieee.div⟩
instance : Zero (Ieee F) := ⟨fin 0⟩
instance : LT (Ieee F) := ⟨fun a b ↦ Ieee.lt a b = true⟩
instance : LE (Ieee F) := ⟨fun a b ↦ Ieee.le a b = true⟩
instance : DecidableLT (Ieee F) := fun a b ↦ inferInstanceAs (Decidable (Ieee.lt a b = true))
instance : DecidableLE (Ieee F) := fun a b ↦ inferInstanceAs (Decidable (Ieee.le a b = true))

/-- `std::max`, which returns its first argument when the two are unordered. -/
def max (a b : Ieee F) : Ieee F := if a < b then b else a

variable {a b : Ieee F}

theorem le_iff_not_lt (ha : a ≠ nan) (hb : b ≠ nan) : a ≤ b ↔ ¬ b < a := by
  change Ieee.le a b = true ↔ ¬ Ieee.lt b a = true
  cases a with
  | nan => exact absurd rfl ha
  | inf s =>
    cases b with
    | nan => exact absurd rfl hb
    | inf t => cases s <;> cases t <;> simp [Ieee.le, Ieee.lt]
    | fin y => cases s <;> simp [Ieee.le, Ieee.lt]
  | fin x =>
    cases b with
    | nan => exact absurd rfl hb
    | inf t => cases t <;> simp [Ieee.le, Ieee.lt]
    | fin y => simp [Ieee.le, Ieee.lt]

theorem not_le_of_nan (h : a = nan ∨ b = nan) : ¬ a ≤ b := by
  change ¬ Ieee.le a b = true
  rcases h with rfl | rfl
  · exact Bool.false_ne_true
  · cases a <;> exact Bool.false_ne_true

theorem not_lt_of_nan (h : a = nan ∨ b = nan) : ¬ a < b := by
  change ¬ Ieee.lt a b = true
  rcases h with rfl | rfl
  · exact Bool.false_ne_true
  · cases a <;> exact Bool.false_ne_true

theorem abs_eq_nan_iff : a.abs = nan ↔ a = nan := by
  cases a <;> simp [abs]

theorem sub_eq_nan_iff : a - b = nan ↔ a = nan ∨ b = nan ∨ ∃ s, a = inf s ∧ b = inf s := by
  change Ieee.add a (Ieee.neg b) = nan ↔ _
  cases a with
  | nan => simp [Ieee.add]
  | inf s =>
    cases b with
    | nan => simp [Ieee.add, Ieee.neg]
    | inf t => cases s <;> cases t <;> simp [Ieee.add, Ieee.neg]
    | fin y => simp [Ieee.add, Ieee.neg]
  | fin x => cases b <;> simp [Ieee.add, Ieee.neg]

theorem mul_eq_nan_iff : a * b = nan ↔ a = nan ∨ b = nan ∨ (a = 0 ∧ ∃ s, b = inf s) ∨
    (∃ s, a = inf s) ∧ b = 0 := by
  change Ieee.mul a b = nan ↔ a = nan ∨ b = nan ∨ (a = fin 0 ∧ ∃ s, b = inf s) ∨
    (∃ s, a = inf s) ∧ b = fin 0
  cases a <;> cases b <;> simp [Ieee.mul, infMul]

section Nonneg

variable [IsStrictOrderedRing F]

theorem abs_nonneg (h : a ≠ nan) : 0 ≤ a.abs := by
  cases a with
  | nan => exact absurd rfl h
  | inf s => rfl
  | fin x => exact decide_eq_true (by positivity)

theorem nonneg_cases (h : 0 ≤ a) : a = inf false ∨ ∃ x : F, 0 ≤ x ∧ a = fin x := by
  change Ieee.le (fin 0) a = true at h
  cases a with
  | nan => cases h
  | inf s =>
    cases s with
    | false => exact .inl rfl
    | true => cases h
  | fin x => exact .inr ⟨x, of_decide_eq_true h, rfl⟩

theorem mul_nonneg (ha : 0 ≤ a) (hb : 0 ≤ b) (h : a * b ≠ nan) : 0 ≤ a * b := by
  change Ieee.mul a b ≠ nan at h
  change Ieee.le (fin 0) (Ieee.mul a b) = true
  rcases nonneg_cases ha with rfl | ⟨x, hx, rfl⟩
  · rcases nonneg_cases hb with rfl | ⟨y, hy, rfl⟩
    · rfl
    · simp only [Ieee.mul, infMul] at h ⊢
      split_ifs at h ⊢ with h0
      · exact absurd rfl h
      · simp [Ieee.le, hy]
  · rcases nonneg_cases hb with rfl | ⟨y, hy, rfl⟩
    · simp only [Ieee.mul, infMul] at h ⊢
      split_ifs at h ⊢ with h0
      · exact absurd rfl h
      · simp [Ieee.le, hx]
    · exact decide_eq_true (by positivity)

theorem add_ne_nan (ha : 0 ≤ a) (hb : 0 ≤ b) : a + b ≠ nan := by
  change Ieee.add a b ≠ nan
  rcases nonneg_cases ha with rfl | ⟨x, -, rfl⟩
  · rcases nonneg_cases hb with rfl | ⟨y, -, rfl⟩ <;> simp [Ieee.add]
  · rcases nonneg_cases hb with rfl | ⟨y, -, rfl⟩ <;> simp [Ieee.add]

end Nonneg

end Ieee

end Sm120.Lib
