import Mathlib.Algebra.Order.BigOperators.Group.Finset
import Mathlib.Data.Fintype.Card
import Mathlib.Data.Nat.Bits
import Mathlib.Tactic

namespace Sm120.Lib

/-- A transaction barrier: the parity of the phase in progress, the arrivals that phase still waits
for, and the bytes announced but not yet written. -/
structure Barrier where
  phase : Bool
  pending : ℕ
  tx : ℕ
deriving DecidableEq, Repr

namespace Barrier

def init (count : ℕ) : Barrier := ⟨false, count, 0⟩

/-- A phase ends when neither arrivals nor bytes are missing; the next phase expects `count`
arrivals again. -/
def settle (count : ℕ) (b : Barrier) : Barrier :=
  if b.pending = 0 ∧ b.tx = 0 then ⟨!b.phase, count, 0⟩ else b

def arrive (count k : ℕ) (b : Barrier) : Barrier :=
  settle count { b with pending := b.pending - k }

def arriveAndExpect (count bytes : ℕ) (b : Barrier) : Barrier :=
  settle count { b with pending := b.pending - 1, tx := b.tx + bytes }

def completeTx (count bytes : ℕ) (b : Barrier) : Barrier :=
  settle count { b with tx := b.tx - bytes }

/-- A wait on parity `p` returns once the phase of that parity is over. -/
def passed (b : Barrier) (p : Bool) : Bool := b.phase != p

@[simp] theorem passed_iff (b : Barrier) (p : Bool) : b.passed p = true ↔ b.phase ≠ p := by
  simp [passed]

end Barrier

/-- Slot index and parity bit a thread carries around a ring of slots. -/
structure PipeState where
  index : ℕ
  phase : Bool
deriving DecidableEq, Repr

namespace PipeState

def next (S : ℕ) (p : PipeState) : PipeState :=
  if p.index + 1 = S then ⟨0, !p.phase⟩ else ⟨p.index + 1, p.phase⟩

def after (S : ℕ) (start : Bool) (n : ℕ) : PipeState := ⟨n % S, start ^^ (n / S).bodd⟩

@[simp] theorem after_zero (S : ℕ) (start : Bool) : after S start 0 = ⟨0, start⟩ := by
  simp [after]

theorem next_after {S : ℕ} (hS : 0 < S) (start : Bool) (n : ℕ) :
    (after S start n).next S = after S start (n + 1) := by
  have hmod : n % S < S := Nat.mod_lt n hS
  have hn : n = S * (n / S) + n % S := (Nat.div_add_mod n S).symm
  by_cases h : n % S + 1 = S
  · have hn' : n + 1 = S * (n / S + 1) := by rw [Nat.mul_succ]; omega
    have hdiv : (n + 1) / S = n / S + 1 := by rw [hn', Nat.mul_div_cancel_left _ hS]
    have hzero : (n + 1) % S = 0 := by rw [hn', Nat.mul_mod_right]
    simp [next, after, h, hdiv, hzero, Nat.bodd_succ]
  · have hn' : n + 1 = S * (n / S) + (n % S + 1) := by omega
    have hlt : n % S + 1 < S := by omega
    have hdiv : (n + 1) / S = n / S := by
      rw [hn', Nat.mul_add_div hS, Nat.div_eq_of_lt hlt, Nat.add_zero]
    have hsucc : (n + 1) % S = n % S + 1 := by
      rw [hn', Nat.mul_add_mod, Nat.mod_eq_of_lt hlt]
    simp [next, after, h, hdiv, hsucc]

end PipeState

/-- How many of the items `0, …, n - 1` go to slot `s` of a ring of `S` slots. -/
def slotCount (S s n : ℕ) : ℕ := (n + (S - 1 - s)) / S

/-- Slot `s` has seen more than `t` items exactly when its `t`-th item, which is item `S * t + s` of
the whole sequence, is among the first `n`. -/
theorem lt_slotCount {S s : ℕ} (hs : s < S) (t n : ℕ) :
    t < slotCount S s n ↔ S * t + s < n := by
  rw [slotCount, ← Nat.succ_le_iff, Nat.le_div_iff_mul_le (by omega), Nat.succ_mul,
    Nat.mul_comm t S]
  omega

theorem slotCount_le {S s : ℕ} (hs : s < S) (t n : ℕ) :
    slotCount S s n ≤ t ↔ n ≤ S * t + s := by
  rw [← Nat.not_lt, lt_slotCount hs, Nat.not_lt]

theorem slotCount_zero {S s : ℕ} (hs : s < S) : slotCount S s 0 = 0 := by
  have := (slotCount_le hs 0 0).2 (by omega)
  omega

theorem slotCount_mono {S s : ℕ} (hs : s < S) {n m : ℕ} (h : n ≤ m) :
    slotCount S s n ≤ slotCount S s m :=
  (slotCount_le hs _ _).2 (h.trans ((slotCount_le hs _ _).1 le_rfl))

theorem slotCount_self {S : ℕ} (hS : 0 < S) (n : ℕ) : slotCount S (n % S) n = n / S := by
  have hs : n % S < S := Nat.mod_lt n hS
  have hn := Nat.div_add_mod n S
  have hle := (slotCount_le hs (n / S) n).2 (by omega)
  have hge : n / S ≤ slotCount S (n % S) n := by
    rcases Nat.eq_zero_or_pos (n / S) with h0 | h0
    · omega
    · obtain ⟨t, ht⟩ := Nat.exists_eq_succ_of_ne_zero h0.ne'
      have := (lt_slotCount hs t n).2 (by rw [ht, Nat.mul_succ] at hn; omega)
      omega
  omega

theorem slotCount_succ {S s : ℕ} (hs : s < S) (n : ℕ) :
    slotCount S s (n + 1) = slotCount S s n + if n % S = s then 1 else 0 := by
  have hS : 0 < S := by omega
  have hn := Nat.div_add_mod n S
  have hmod := Nat.mod_lt n hS
  split_ifs with h
  · subst h
    rw [slotCount_self hS]
    have h1 := (lt_slotCount hs (n / S) (n + 1)).2 (by omega)
    have h2 := (slotCount_le hs (n / S + 1) (n + 1)).2 (by rw [Nat.mul_succ]; omega)
    omega
  · have h1 := slotCount_mono hs (Nat.le_succ n)
    have h2 : slotCount S s (n + 1) ≤ slotCount S s n := by
      have h3 := (slotCount_le hs (slotCount S s n) n).1 le_rfl
      refine (slotCount_le hs _ _).2 ?_
      rcases h3.lt_or_eq with h3 | h3
      · omega
      · exact absurd (by rw [h3, Nat.mul_add_mod, Nat.mod_eq_of_lt hs]) h
    simp only [Nat.succ_eq_add_one] at h1
    omega

end Sm120.Lib
