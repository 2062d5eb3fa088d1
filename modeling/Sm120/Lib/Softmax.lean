import Mathlib.Algebra.BigOperators.Intervals
import Mathlib.Algebra.Order.BigOperators.Group.Finset
import Mathlib.Algebra.Order.Field.Basic
import Mathlib.Data.Finset.Lattice.Fold
import Mathlib.Tactic

set_option linter.unusedSectionVars false

namespace Sm120.Lib

open Finset

/-- The exponential of base 2 on an exact field. -/
structure Exp2 (F : Type*) [Field F] [LinearOrder F] where
  exp2 : F → F
  pos : ∀ x, 0 < exp2 x
  add : ∀ x y, exp2 (x + y) = exp2 x * exp2 y

/-- The exact value of a float: minus infinity, or an element of the field. Whatever is computed
from an undefined form is undefined. -/
inductive Num (F : Type*)
  | undef
  | negInf
  | fin (x : F)
deriving DecidableEq

namespace Num

variable {F : Type*} [Field F] [LinearOrder F]

protected def add : Num F → Num F → Num F
  | undef, _ => undef
  | _, undef => undef
  | fin x, fin y => fin (x + y)
  | _, _ => negInf

protected def sub : Num F → Num F → Num F
  | fin x, fin y => fin (x - y)
  | negInf, fin _ => negInf
  | _, _ => undef

protected def mul : Num F → Num F → Num F
  | fin x, fin y => fin (x * y)
  | negInf, fin y => if 0 < y then negInf else undef
  | fin x, negInf => if 0 < x then negInf else undef
  | _, _ => undef

protected def div : Num F → Num F → Num F
  | fin x, fin y => if y = 0 then undef else fin (x / y)
  | _, _ => undef

protected def max : Num F → Num F → Num F
  | undef, _ => undef
  | _, undef => undef
  | negInf, y => y
  | x, negInf => x
  | fin x, fin y => fin (Max.max x y)

def exp2 (E : Exp2 F) : Num F → Num F
  | undef => undef
  | negInf => fin 0
  | fin x => fin (E.exp2 x)

/-- `x == -INFINITY ? a : b` -/
def ifNegInf : Num F → Num F → Num F → Num F
  | undef, _, _ => undef
  | negInf, a, _ => a
  | fin _, _, b => b

/-- `x == 0.f ? a : b` -/
def ifZero : Num F → Num F → Num F → Num F
  | undef, _, _ => undef
  | negInf, _, b => b
  | fin x, a, b => if x = 0 then a else b

instance : Add (Num F) := ⟨Num.add⟩
instance : Zero (Num F) := ⟨fin 0⟩
instance : Sub (Num F) := ⟨Num.sub⟩
instance : Mul (Num F) := ⟨Num.mul⟩
instance : Div (Num F) := ⟨Num.div⟩
instance : Max (Num F) := ⟨Num.max⟩

@[simp] theorem fin_add (x y : F) : (fin x : Num F) + fin y = fin (x + y) := rfl

instance : AddCommMonoid (Num F) where
  add_assoc x y z := by
    cases x <;> cases y <;> cases z <;> first | rfl | exact congrArg fin (add_assoc _ _ _)
  zero_add x := by
    cases x <;> first | rfl | exact congrArg fin (zero_add _)
  add_zero x := by
    cases x <;> first | rfl | exact congrArg fin (add_zero _)
  add_comm x y := by
    cases x <;> cases y <;> first | rfl | exact congrArg fin (add_comm _ _)
  nsmul := nsmulRec

def finHom : F →+ Num F where
  toFun := fin
  map_zero' := rfl
  map_add' _ _ := rfl

theorem sum_fin {ι : Type*} (s : Finset ι) (f : ι → F) :
    ∑ i ∈ s, (fin (f i) : Num F) = fin (∑ i ∈ s, f i) := (map_sum finHom f s).symm

@[simp] theorem fin_sub (x y : F) : (fin x : Num F) - fin y = fin (x - y) := rfl

@[simp] theorem negInf_sub (y : F) : (negInf : Num F) - fin y = negInf := rfl

@[simp] theorem fin_mul (x y : F) : (fin x : Num F) * fin y = fin (x * y) := rfl

@[simp] theorem exp2_negInf (E : Exp2 F) : exp2 E negInf = fin 0 := rfl

@[simp] theorem exp2_fin (E : Exp2 F) (x : F) : exp2 E (fin x) = fin (E.exp2 x) := rfl

@[simp] theorem ifNegInf_negInf (a b : Num F) : ifNegInf negInf a b = a := rfl

@[simp] theorem ifNegInf_fin (x : F) (a b : Num F) : ifNegInf (fin x) a b = b := rfl

theorem negInf_mul {y : F} (h : 0 < y) : (negInf : Num F) * fin y = negInf := if_pos h

theorem fin_div (x : F) {y : F} (h : y ≠ 0) : (fin x : Num F) / fin y = fin (x / y) := if_neg h

theorem ifZero_fin {x : F} (h : x ≠ 0) (a b : Num F) : ifZero (fin x) a b = b := if_neg h

def ofBot : WithBot F → Num F := WithBot.recBotCoe negInf fin

@[simp] theorem ofBot_bot : ofBot (⊥ : WithBot F) = negInf := rfl

@[simp] theorem ofBot_coe (x : F) : ofBot (x : WithBot F) = fin x := rfl

theorem ofBot_ne_undef (x : WithBot F) : ofBot x ≠ undef := by
  cases x <;> nofun

theorem max_ofBot (x y : WithBot F) : max (ofBot x) (ofBot y) = ofBot (x ⊔ y) := by
  cases x with
  | bot =>
    rw [bot_sup_eq]
    cases y <;> rfl
  | coe x =>
    cases y with
    | bot => rfl
    | coe y =>
      rw [← WithBot.coe_sup]
      rfl

theorem foldl_max (y : ℕ → WithBot F) (n : ℕ) (m : WithBot F) :
    (List.range n).foldl (fun a i ↦ max a (ofBot (y i))) (ofBot m) =
      ofBot (m ⊔ (range n).sup y) := by
  induction n with
  | zero => simp
  | succ n ih =>
    rw [List.range_succ, List.foldl_append, ih, List.foldl_cons, List.foldl_nil, max_ofBot,
      range_add_one, sup_insert, sup_comm (y n), sup_assoc]

theorem foldl_add (y : ℕ → F) (n : ℕ) (a : F) :
    (List.range n).foldl (fun a i ↦ a + fin (y i)) (fin a) = fin (a + ∑ i ∈ range n, y i) := by
  induction n with
  | zero => simp
  | succ n ih =>
    rw [List.range_succ, List.foldl_append, ih, List.foldl_cons, List.foldl_nil, fin_add,
      sum_range_succ, add_assoc]

end Num

section Weight

variable {F : Type*} [Field F] [LinearOrder F] (E : Exp2 F) (scale : F)

/-- `exp2 ((x - m) * scale)`, where minus infinity weighs nothing. -/
def weight (x m : WithBot F) : F :=
  WithBot.recBotCoe 0 (fun x ↦ WithBot.recBotCoe 0 (fun m ↦ E.exp2 ((x - m) * scale)) m) x

def mass : WithBot F → F := WithBot.recBotCoe 0 fun x ↦ E.exp2 (x * scale)

@[simp] theorem weight_bot (m : WithBot F) : weight E scale ⊥ m = 0 := rfl

@[simp] theorem weight_coe_bot (x : F) : weight E scale x ⊥ = 0 := rfl

@[simp] theorem weight_coe (x m : F) : weight E scale x m = E.exp2 ((x - m) * scale) := rfl

@[simp] theorem mass_bot : mass E scale ⊥ = 0 := rfl

@[simp] theorem mass_coe (x : F) : mass E scale x = E.exp2 (x * scale) := rfl

variable {E scale}

theorem weight_mul_weight {x m m' : WithBot F} (hx : x ≤ m) (hm : m ≤ m') :
    weight E scale x m * weight E scale m m' = weight E scale x m' := by
  cases m with
  | bot => simp [le_bot_iff.1 hx]
  | coe m =>
    obtain ⟨m', rfl⟩ := WithBot.ne_bot_iff_exists.1 (ne_bot_of_le_ne_bot WithBot.coe_ne_bot hm)
    cases x with
    | bot => simp
    | coe x =>
      rw [weight_coe, weight_coe, weight_coe, ← E.add]
      congr 1
      ring

theorem weight_eq_mass (x : WithBot F) (m : F) :
    weight E scale x m = mass E scale x * E.exp2 (-(m * scale)) := by
  cases x with
  | bot => simp
  | coe x =>
    rw [weight_coe, mass_coe, ← E.add]
    congr 1
    ring

variable (E scale)

/-- What a running sum is multiplied by when the maximum moves from `m` to `m'`. -/
def rescale (m m' : WithBot F) : F := if m' = ⊥ then 1 else weight E scale m m'

variable {E scale}

theorem weight_mul_rescale {x m m' : WithBot F} (hx : x ≤ m) (hm : m ≤ m') :
    weight E scale x m * rescale E scale m m' = weight E scale x m' := by
  unfold rescale
  split_ifs with h
  · subst h
    simp [le_bot_iff.1 hm, le_bot_iff.1 (hx.trans hm)]
  · exact weight_mul_weight hx hm

theorem exp2_rescale (hs : 0 < scale) (m m' : WithBot F) :
    Num.ifNegInf (.ofBot m') (.fin 1) (.exp2 E ((.ofBot m - .ofBot m') * .fin scale)) =
      .fin (rescale E scale m m') := by
  unfold rescale
  cases m' with
  | bot => simp
  | coe m' =>
    cases m with
    | bot => simp [Num.negInf_mul hs]
    | coe m => simp

theorem exp2_weight (hs : 0 < scale) {x m : WithBot F} (hx : x ≤ m) :
    Num.exp2 E (.ofBot x * .fin scale - .ifNegInf (.ofBot m) (.fin 0) (.ofBot m * .fin scale)) =
      .fin (weight E scale x m) := by
  cases m with
  | bot => simp [le_bot_iff.1 hx, Num.negInf_mul hs]
  | coe m =>
    cases x with
    | bot => simp [Num.negInf_mul hs]
    | coe x => simp [sub_mul]

/-- The factor by which a part is scaled to the overall maximum. -/
theorem exp2_merge (hs : 0 < scale) (m : WithBot F) (g : F) :
    Num.exp2 E ((.ofBot m - .fin g) * .fin scale) = .fin (weight E scale m g) := by
  cases m with
  | bot => simp [Num.negInf_mul hs]
  | coe m => simp

theorem exp2_partial (hs : 0 < scale) (m : WithBot F) (g : F) :
    Num.ifNegInf (.ofBot m) (.fin 0) (.exp2 E ((.ofBot m - .fin g) * .fin scale)) =
      .fin (weight E scale m g) := by
  rw [exp2_merge hs]
  cases m <;> rfl

section Sums

variable {ι : Type*} {A : Finset ι} {x : ι → WithBot F}

theorem sum_rescale {m m' : WithBot F} (hA : A.sup x ≤ m) (hm : m ≤ m') (v : ι → F) :
    (∑ c ∈ A, weight E scale (x c) m * v c) * rescale E scale m m' =
      ∑ c ∈ A, weight E scale (x c) m' * v c := by
  rw [sum_mul]
  refine sum_congr rfl fun c hc ↦ ?_
  rw [mul_right_comm, weight_mul_rescale ((le_sup hc).trans hA) hm]

theorem sum_rescale_one {m m' : WithBot F} (hA : A.sup x ≤ m) (hm : m ≤ m') :
    (∑ c ∈ A, weight E scale (x c) m) * rescale E scale m m' = ∑ c ∈ A,
    weight E scale (x c) m' := by
  simpa only [mul_one] using sum_rescale hA hm fun _ ↦ (1 : F)

theorem sum_merge {m : WithBot F} {g : F} (hA : A.sup x ≤ m) (hm : m ≤ g) (v : ι → F) :
    (∑ c ∈ A, weight E scale (x c) m * v c) * weight E scale m g = ∑ c ∈ A,
    weight E scale (x c) g * v c := by
  rw [sum_mul]
  refine sum_congr rfl fun c hc ↦ ?_
  rw [mul_right_comm, weight_mul_weight ((le_sup hc).trans hA) hm]

theorem sum_merge_one {m : WithBot F} {g : F} (hA : A.sup x ≤ m) (hm : m ≤ g) :
    (∑ c ∈ A, weight E scale (x c) m) * weight E scale m g = ∑ c ∈ A, weight E scale (x c) g := by
  simpa only [mul_one] using sum_merge hA hm fun _ ↦ (1 : F)

variable [IsStrictOrderedRing F]

theorem mass_nonneg (x : WithBot F) : 0 ≤ mass E scale x := by
  cases x with
  | bot => exact le_rfl
  | coe x => exact (E.pos _).le

theorem sum_mass_pos {c : ι} (hc : c ∈ A) (hx : x c ≠ ⊥) : 0 < ∑ c ∈ A, mass E scale (x c) := by
  obtain ⟨y, hy⟩ := WithBot.ne_bot_iff_exists.1 hx
  refine sum_pos' (fun _ _ ↦ mass_nonneg _) ⟨c, hc, ?_⟩
  rw [← hy]
  exact E.pos _

theorem sum_weight_pos {c : ι} (hc : c ∈ A) (hx : x c ≠ ⊥) (g : F) :
    0 < ∑ c ∈ A, weight E scale (x c) g := by
  simp only [weight_eq_mass, ← sum_mul]
  exact mul_pos (sum_mass_pos hc hx) (E.pos _)

theorem sum_weight_div {κ : Type*} {B : Finset κ} {y : κ → WithBot F} (v : ι → F) (g : F) :
    (∑ c ∈ A, weight E scale (x c) g * v c) / ∑ c ∈ B, weight E scale (y c) g =
      (∑ c ∈ A, mass E scale (x c) * v c) / ∑ c ∈ B, mass E scale (y c) := by
  simp only [weight_eq_mass, mul_right_comm _ (E.exp2 _), ← sum_mul]
  exact mul_div_mul_right _ _ (E.pos _).ne'

end Sums

end Weight

end Sm120.Lib
