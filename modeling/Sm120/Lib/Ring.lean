import Sm120.Lib.Barrier

namespace Sm120.Lib

open Function

/-- The barriers of a ring of slots: a slot is filled under its full barrier and handed back under
its empty barrier. -/
structure Ring where
  full : ℕ → Barrier
  empty : ℕ → Barrier

namespace Ring

def init (fullCount emptyCount : ℕ) : Ring :=
  ⟨fun _ ↦ Barrier.init fullCount, fun _ ↦ Barrier.init emptyCount⟩

def acquire (r : Ring) (s bytes : ℕ) : Ring :=
  { r with full := update r.full s ((r.full s).arriveAndExpect 1 bytes) }

def land (r : Ring) (s bytes : ℕ) : Ring :=
  { r with full := update r.full s ((r.full s).completeTx 1 bytes) }

def release (r : Ring) (emptyCount k s : ℕ) : Ring :=
  { r with empty := update r.empty s ((r.empty s).arrive emptyCount k) }

end Ring

variable {W : Type} [Fintype W]

/-- The barriers of a ring in which `n` items were issued, `due j` bytes of item `j` are
outstanding, and consumer `w` has released `rel w` items. -/
structure RingInv (S k : ℕ) (r : Ring) (n : ℕ) (due : ℕ → ℕ) (rel : W → ℕ) : Prop where
  rel_le : ∀ w, rel w ≤ n
  le_rel : ∀ w, n ≤ rel w + S
  landed : ∀ w, ∀ j < rel w, due j = 0
  full_idle : ∀ s < S, (∀ j < n, j % S = s → due j = 0) → r.full s = ⟨(slotCount S s n).bodd, 1, 0⟩
  full_busy : ∀ j < n, due j ≠ 0 → r.full (j % S) = ⟨!(slotCount S (j % S) n).bodd, 0, due j⟩
  empty_phase : ∀ s < S, ∃ m, (∀ w, m ≤ slotCount S s (rel w)) ∧
    (∀ w, slotCount S s (rel w) ≤ m + 1) ∧
    (∃ w, slotCount S s (rel w) = m) ∧
    r.empty s = ⟨m.bodd, k * (Finset.univ.filter fun w ↦ slotCount S s (rel w) = m).card, 0⟩

namespace RingInv

variable {S k n : ℕ} {r : Ring} {due : ℕ → ℕ} {rel : W → ℕ}

theorem init [Nonempty W] : RingInv S k (Ring.init 1 (k * Fintype.card W)) 0 due
    (fun _ : W ↦ 0) where
  rel_le _ := le_rfl
  le_rel _ := Nat.zero_le _
  landed _ j hj := absurd hj (Nat.not_lt_zero j)
  full_idle s hs _ := by simp [Ring.init, Barrier.init, slotCount_zero hs]
  full_busy j hj := absurd hj (Nat.not_lt_zero j)
  empty_phase s hs := ⟨0, by simp, by simp [slotCount_zero hs], by simp [slotCount_zero hs],
    by simp [Ring.init, Barrier.init, slotCount_zero hs]⟩

/-- Two items of one slot that are both beyond what some consumer released are the same item: a slot
holds one item at a time. -/
theorem slot_unique (h : RingInv S k r n due rel) (w : W) {i j : ℕ} (hi : rel w ≤ i)
    (hj : rel w ≤ j) (hin : i < n) (hjn : j < n) (hij : i % S = j % S) : i = j := by
  have hle := h.le_rel w
  have hdi := Nat.div_add_mod i S
  have hdj := Nat.div_add_mod j S
  rcases lt_trichotomy (i / S) (j / S) with hlt | heq | hlt
  · have := Nat.mul_le_mul_left S hlt
    rw [Nat.mul_succ] at this
    omega
  · rw [heq] at hdi
    omega
  · have := Nat.mul_le_mul_left S hlt
    rw [Nat.mul_succ] at this
    omega

theorem rel_le_of_due (h : RingInv S k r n due rel) (w : W) {j : ℕ} (hj : due j ≠ 0) :
    rel w ≤ j := by
  by_contra hlt
  exact hj (h.landed w j (by omega))

/-- The full barrier of the slot that item `rel w` uses, told apart by whether that item is still on
its way. -/
theorem full_at_rel (h : RingInv S k r n due rel) (hS : 0 < S) (w : W) :
    (r.full (rel w % S)).phase =
      if rel w < n ∧ due (rel w) = 0 then !(rel w / S).bodd else (rel w / S).bodd := by
  have hs : rel w % S < S := Nat.mod_lt _ hS
  have hd := Nat.div_add_mod (rel w) S
  have hle := h.le_rel w
  rcases (h.rel_le w).lt_or_eq with hlt | heq
  · have hc : slotCount S (rel w % S) n = rel w / S + 1 := by
      have h1 := (lt_slotCount hs (rel w / S) n).2 (by omega)
      have h2 := (slotCount_le hs (rel w / S + 1) n).2 (by rw [Nat.mul_succ]; omega)
      omega
    by_cases hdue : due (rel w) = 0
    · have hidle : ∀ j < n, j % S = rel w % S → due j = 0 := by
        intro j hj hjs
        by_contra hne
        have := h.slot_unique w (h.rel_le_of_due w hne) le_rfl hj hlt hjs
        exact hne (this ▸ hdue)
      rw [h.full_idle _ hs hidle, hc]
      simp [hlt, hdue, Nat.bodd_succ]
    · rw [h.full_busy _ hlt hdue, hc]
      simp [hdue, Nat.bodd_succ]
  · have hidle : ∀ j < n, j % S = rel w % S → due j = 0 := fun j hj _ ↦ h.landed w j (by omega)
    rw [h.full_idle _ hs hidle, ← heq, slotCount_self hS]
    simp

/-- A consumer's parity wait returns exactly when the next item it wants has been issued and has
landed completely. -/
theorem passed_full_iff (h : RingInv S k r n due rel) (hS : 0 < S) (w : W) :
    (r.full (rel w % S)).passed (rel w / S).bodd = true ↔ rel w < n ∧ due (rel w) = 0 := by
  rw [Barrier.passed_iff, h.full_at_rel hS w]
  split_ifs with hc <;> simp [hc]

theorem passed_empty_iff (h : RingInv S k r n due rel) (hS : 0 < S) :
    (r.empty (n % S)).passed (!(n / S).bodd) = true ↔ ∀ w, n < rel w + S := by
  have hs : n % S < S := Nat.mod_lt _ hS
  have hd := Nat.div_add_mod n S
  obtain ⟨m, hm, hm', ⟨w₀, hw₀⟩, he⟩ := h.empty_phase _ hs
  have hphase : (r.empty (n % S)).phase = m.bodd := by rw [he]
  have hmq : m ≤ n / S := by
    have := slotCount_mono hs (h.rel_le w₀)
    rw [slotCount_self hS] at this
    omega
  have hqm : n / S ≤ m + 1 := by
    by_contra hlt
    obtain ⟨t, ht⟩ : ∃ t, n / S = m + 2 + t := ⟨n / S - (m + 2), by omega⟩
    have h1 := (slotCount_le hs m (rel w₀)).1 (by omega)
    have h2 := h.le_rel w₀
    rw [ht] at hd
    simp only [Nat.mul_add, Nat.mul_two] at hd
    have : 0 ≤ S * t := Nat.zero_le _
    omega
  have hiff : (∀ w, n < rel w + S) ↔ m = n / S := by
    constructor
    · intro hall
      by_contra hne
      obtain ⟨t, ht⟩ : ∃ t, n / S = t + 1 := ⟨m, by omega⟩
      have h1 := (slotCount_le hs m (rel w₀)).1 (by omega)
      have h2 := hall w₀
      have h3 : t = m := by omega
      rw [ht, Nat.mul_succ, h3] at hd
      omega
    · intro heq w
      rcases Nat.eq_zero_or_pos (n / S) with h0 | h0
      · rw [h0] at hd
        omega
      · obtain ⟨t, ht⟩ := Nat.exists_eq_succ_of_ne_zero h0.ne'
        have h1 := (lt_slotCount hs t (rel w)).1 (by have := hm w; omega)
        rw [ht, Nat.mul_succ] at hd
        omega
  rw [Barrier.passed_iff, hphase, hiff]
  constructor
  · intro hne
    rcases hmq.lt_or_eq with hlt | heq
    · have h1 : n / S = m + 1 := by omega
      rw [h1] at hne
      simp [Nat.bodd_succ] at hne
    · exact heq
  · rintro rfl
    simp

theorem acquire (h : RingInv S k r n due rel) (hS : 0 < S) [Nonempty W] (hg : ∀ w, n < rel w + S)
    {bytes : ℕ} (hb : 0 < bytes) {due' : ℕ → ℕ} (hn : due' n = bytes)
    (hd : ∀ j < n, due' j = due j) :
    RingInv S k (r.acquire (n % S) bytes) (n + 1) due' rel := by
  have hs : n % S < S := Nat.mod_lt _ hS
  have hidle : ∀ j < n, j % S = n % S → due j = 0 := by
    intro j hj hjs
    obtain ⟨w⟩ := ‹Nonempty W›
    refine h.landed w j ?_
    have h1 := Nat.div_add_mod j S
    have h2 := Nat.div_add_mod n S
    have h3 : j / S < n / S := by
      by_contra hge
      have := Nat.mul_le_mul_left S (Nat.le_of_not_lt hge)
      omega
    have := Nat.mul_le_mul_left S h3
    rw [Nat.mul_succ] at this
    have := hg w
    omega
  have hfull : (r.acquire (n % S) bytes).full (n % S) = ⟨(slotCount S (n % S) n).bodd, 0,
      bytes⟩ := by
    simp [Ring.acquire, h.full_idle _ hs hidle, Barrier.arriveAndExpect, Barrier.settle, hb.ne']
  have hother : ∀ s, s ≠ n % S → (r.acquire (n % S) bytes).full s = r.full s :=
    fun s hne ↦ update_of_ne hne _ _
  refine ⟨fun w ↦ (h.rel_le w).trans (Nat.le_succ n), fun w ↦ hg w, ?_, ?_, ?_, h.empty_phase⟩
  · intro w j hj
    rw [hd j (hj.trans_le (h.rel_le w))]
    exact h.landed w j hj
  · intro s hsS hj
    have hne : n % S ≠ s := fun he ↦ hb.ne' (hn ▸ hj n (Nat.lt_succ_self n) he)
    rw [hother s hne.symm, slotCount_succ hsS, if_neg hne, Nat.add_zero]
    refine h.full_idle s hsS fun j hjn hjs ↦ ?_
    rw [← hd j hjn]
    exact hj j (hjn.trans (Nat.lt_succ_self n)) hjs
  · intro j hj hdue
    rcases Nat.lt_succ_iff_lt_or_eq.1 hj with hj | rfl
    · rw [hd j hj] at hdue ⊢
      have hne : j % S ≠ n % S := fun he ↦ hdue (hidle j hj he)
      rw [hother _ hne, slotCount_succ (Nat.mod_lt _ hS), if_neg hne.symm, Nat.add_zero]
      exact h.full_busy j hj hdue
    · rw [hfull, slotCount_succ hs, if_pos rfl, hn]
      simp [Nat.bodd_succ]

theorem land (h : RingInv S k r n due rel) (hS : 0 < S) [Nonempty W] {j b : ℕ} (hj : j < n)
    (hb : 0 < b) (hbd : b ≤ due j) {due' : ℕ → ℕ} (hd' : due' j = due j - b)
    (hd : ∀ i, i ≠ j → due' i = due i) :
    RingInv S k (r.land (j % S) b) n due' rel := by
  have hs : j % S < S := Nat.mod_lt _ hS
  have hne : due j ≠ 0 := by omega
  have hother : ∀ s, s ≠ j % S → (r.land (j % S) b).full s = r.full s :=
    fun s hne ↦ update_of_ne hne _ _
  have hfull : (r.land (j % S) b).full (j % S) =
      (⟨!(slotCount S (j % S) n).bodd, 0, due j⟩ : Barrier).completeTx 1 b := by
    simp [Ring.land, h.full_busy j hj hne]
  have huniq : ∀ i < n, i % S = j % S → due i ≠ 0 → i = j := by
    intro i hi his hdi
    obtain ⟨w⟩ := ‹Nonempty W›
    exact h.slot_unique w (h.rel_le_of_due w hdi) (h.rel_le_of_due w hne) hi hj his
  refine ⟨h.rel_le, h.le_rel, ?_, ?_, ?_, h.empty_phase⟩
  · intro w i hi
    have hij : i ≠ j := by rintro rfl; exact hne (h.landed w i hi)
    rw [hd i hij]
    exact h.landed w i hi
  · intro s hsS hidle
    by_cases hsj : s = j % S
    · subst hsj
      have h0 : due j - b = 0 := hd' ▸ hidle j hj rfl
      rw [hfull]
      simp [Barrier.completeTx, Barrier.settle, h0]
    · rw [hother s hsj]
      refine h.full_idle s hsS fun i hi his ↦ ?_
      rw [← hd i (by rintro rfl; exact hsj his.symm)]
      exact hidle i hi his
  · intro i hi hdi
    by_cases hij : i = j
    · subst hij
      rw [hd'] at hdi ⊢
      rw [hfull]
      simp [Barrier.completeTx, Barrier.settle, hdi]
    · rw [hd i hij] at hdi ⊢
      have : i % S ≠ j % S := fun he ↦ hij (huniq i hi he hdi)
      rw [hother _ this]
      exact h.full_busy i hi hdi

/-- A release always belongs to the phase its empty barrier is in: no consumer is a whole round
ahead of another. -/
theorem slot_phase (h : RingInv S k r n due rel) (hS : 0 < S) (w : W) (hw : rel w < n) {m : ℕ}
    (hm : ∀ v, m ≤ slotCount S (rel w % S) (rel v))
    (hex : ∃ v, slotCount S (rel w % S) (rel v) = m) : slotCount S (rel w % S) (rel w) = m := by
  have hs : rel w % S < S := Nat.mod_lt _ hS
  obtain ⟨v, hv⟩ := hex
  have h1 := hm w
  have h2 := (slotCount_le hs m (rel v)).1 hv.le
  have h3 := h.le_rel v
  have h4 := Nat.div_add_mod (rel w) S
  rw [slotCount_self hS] at h1 ⊢
  by_contra hne
  have := Nat.mul_le_mul_left S (Nat.lt_of_le_of_ne h1 (Ne.symm hne))
  rw [Nat.mul_succ] at this
  omega

theorem release [DecidableEq W] (h : RingInv S k r n due rel) (hS : 0 < S) (hk : 0 < k) {w : W}
    (hw : rel w < n) (hd : due (rel w) = 0) :
    RingInv S k (r.release (k * Fintype.card W) k (rel w % S)) n due
      (update rel w (rel w + 1)) := by
  have hs : rel w % S < S := Nat.mod_lt _ hS
  have hcount : ∀ s < S, ∀ v, slotCount S s (update rel w (rel w + 1) v) =
      slotCount S s (rel v) + if v = w ∧ rel w % S = s then 1 else 0 := by
    intro s hsS v
    by_cases hv : v = w
    · subst hv
      simp [slotCount_succ hsS]
    · simp [hv]
  refine ⟨?_, ?_, ?_, h.full_idle, h.full_busy, ?_⟩
  · intro v
    rcases eq_or_ne v w with rfl | hv
    · simpa using hw
    · simpa [hv] using h.rel_le v
  · intro v
    have := h.le_rel v
    rcases eq_or_ne v w with rfl | hv
    · simp only [update_self]
      omega
    · simpa [hv] using this
  · intro v j hj
    rcases eq_or_ne v w with rfl | hv
    · rw [update_self] at hj
      rcases Nat.lt_succ_iff_lt_or_eq.1 hj with hj | rfl
      · exact h.landed v j hj
      · exact hd
    · rw [update_of_ne hv] at hj
      exact h.landed v j hj
  · intro s hsS
    obtain ⟨m, hm, hm', hex, he⟩ := h.empty_phase s hsS
    by_cases hsw : rel w % S = s
    swap
    · refine ⟨m, ?_, ?_, ?_, ?_⟩ <;> simp only [hcount s hsS, hsw, and_false, if_false,
        Nat.add_zero]
      · exact hm
      · exact hm'
      · exact hex
      · rw [← he]
        exact update_of_ne (fun he ↦ hsw he.symm) _ _
    · subst hsw
      have hwm := h.slot_phase hS w hw hm hex
      set late := Finset.univ.filter fun v ↦ slotCount S (rel w % S) (rel v) = m with hlate
      have hwl : w ∈ late := by simp [hlate, hwm]
      have hempty : (r.release (k * Fintype.card W) k (rel w % S)).empty (rel w % S) =
          (⟨m.bodd, k * late.card, 0⟩ : Barrier).arrive (k * Fintype.card W) k := by
        simp [Ring.release, he]
      have hcard : late.card = (late.erase w).card + 1 := (Finset.card_erase_add_one hwl).symm
      have hpend : k * late.card - k = k * (late.erase w).card := by
        rw [hcard, Nat.mul_succ, Nat.add_sub_cancel]
      have hlast : (Finset.univ.filter fun v ↦
          slotCount S (rel w % S) (update rel w (rel w + 1) v) = m) = late.erase w := by
        ext v
        simp only [hcount _ hs, Finset.mem_filter, Finset.mem_univ, true_and,
          Finset.mem_erase, hlate]
        by_cases hv : v = w
        · subst hv
          simp [hwm]
        · simp [hv]
      by_cases hz : late.erase w = ∅
      · -- the last consumer of the round: the empty barrier starts its next phase
        have hall : ∀ v, v ≠ w → slotCount S (rel w % S) (rel v) = m + 1 := by
          intro v hv
          have h1 := hm v
          have h2 := hm' v
          have h3 : v ∉ late.erase w := by simp [hz]
          simp only [hlate, Finset.mem_erase, Finset.mem_filter, Finset.mem_univ, true_and,
            not_and] at h3
          have := h3 hv
          omega
        have hnew : ∀ v, slotCount S (rel w % S) (update rel w (rel w + 1) v) = m + 1 := by
          intro v
          rw [hcount _ hs]
          by_cases hv : v = w
          · subst hv
            simp [hwm]
          · simp [hv, hall v hv]
        refine ⟨m + 1, fun v ↦ (hnew v).ge, fun v ↦ by rw [hnew v]; omega, ⟨w, hnew w⟩, ?_⟩
        rw [hempty]
        simp [Barrier.arrive, Barrier.settle, hpend, hz, hnew, Nat.bodd_succ]
      · obtain ⟨v, hv⟩ := Finset.nonempty_iff_ne_empty.2 hz
        have hv' := hv
        simp only [hlate, Finset.mem_erase, Finset.mem_filter, Finset.mem_univ, true_and] at hv'
        refine ⟨m, ?_, ?_, ⟨v, by simp [hv'.1, hv'.2]⟩, ?_⟩
        · intro u
          rw [hcount _ hs]
          exact (hm u).trans (Nat.le_add_right _ _)
        · intro u
          rw [hcount _ hs]
          by_cases hu : u = w
          · subst hu
            simp [hwm]
          · simpa [hu] using hm' u
        · have hpos : k * (late.erase w).card ≠ 0 :=
            (Nat.mul_pos hk (Finset.card_pos.2 ⟨v, hv⟩)).ne'
          rw [hempty, hlast]
          simp [Barrier.arrive, Barrier.settle, hpend, hpos]

end RingInv

end Sm120.Lib
