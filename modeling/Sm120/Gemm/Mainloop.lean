import Sm120.Gemm.Program

namespace Sm120.Gemm

open Lib

namespace Traits

variable {c : Traits} {tiles kNum : ℕ}

theorem getSA_disjoint {i j : ℕ} (h : i ≠ j) : Disjoint (c.getSA i) (c.getSA j) := by
  have hd := Layout.slots_disjoint 0 (le_refl c.sizeA) h
  simpa only [getSA, Nat.zero_add] using hd

theorem getSB_disjoint {i j : ℕ} (h : i ≠ j) : Disjoint (c.getSB i) (c.getSB j) :=
  Layout.slots_disjoint _ le_rfl h

theorem getSA_disjoint_getSB {i : ℕ} (hi : i < c.stage) (j : ℕ) :
    Disjoint (c.getSA i) (c.getSB j) := by
  have h := Nat.mul_le_mul_right c.sizeA hi
  rw [Nat.succ_mul] at h
  rw [Finset.disjoint_left]
  intro a ha hb
  rw [getSA, Finset.mem_Ico] at ha
  rw [getSB, Finset.mem_Ico] at hb
  omega

theorem partSpan_disjoint {i j : ℕ} (hi : i < c.stage) (hj : j < c.stage) (h : i ≠ j) (p q : ℕ) :
    Disjoint (c.partSpan p i) (c.partSpan q j) := by
  unfold partSpan
  split_ifs
  · exact getSA_disjoint h
  · exact getSA_disjoint_getSB hi j
  · exact (getSA_disjoint_getSB hj i).symm
  · exact getSB_disjoint h

theorem stage_pos : 0 < c.stage := by
  have := c.stage_eq
  omega

section Operands

variable (c : Traits) (tiles kNum : ℕ)

theorem issued_operand (r : Unit) (x : Site) (slot : ℕ) (m : Memory c.consumers) (a : ℕ)
    (h : ∀ p < (c.kernel tiles kNum).parts r, a ∉ c.partSpan p slot) :
    ((c.kernel tiles kNum).issued r x slot m).operand a = m.operand a := by
  refine clear_of_notMem fun ha ↦ ?_
  rcases Finset.mem_union.1 ha with ha | ha
  · exact h 0 Nat.two_pos ha
  · exact h 1 Nat.one_lt_two ha

theorem acted_operand (p : Party (Fin 127) (Fin c.consumers)) (x : Site) (e : Act)
    (m : Memory c.consumers) :
    ((c.kernel tiles kNum).acted p x e m).operand = m.operand := by
  cases p <;> cases e <;> rfl

theorem parts_disjoint (r : Unit) {slot p q : ℕ} (hs : slot < (c.kernel tiles kNum).stages r)
    (hp : p < (c.kernel tiles kNum).parts r) (hq : q < (c.kernel tiles kNum).parts r)
    (hne : p ≠ q) :
    Disjoint (c.partSpan p slot) (c.partSpan q slot) := by
  unfold partSpan
  split_ifs with h1 h2
  · exact absurd (h1.trans h2.symm) hne
  · exact getSA_disjoint_getSB hs slot
  · exact (getSA_disjoint_getSB hs slot).symm
  · simp only [kernel] at hp hq
    omega

theorem items_disjoint (r : Unit) {i j : ℕ} (p q : ℕ) (hij : i < j)
    (hji : j < i + (c.kernel tiles kNum).stages r) :
    Disjoint (c.partSpan p (i % (c.kernel tiles kNum).stages r))
      (c.partSpan q (j % (c.kernel tiles kNum).stages r)) := by
  refine partSpan_disjoint (Nat.mod_lt _ stage_pos) (Nat.mod_lt _ stage_pos) (fun he ↦ ?_) p q
  have hd := Nat.sub_mod_eq_zero_of_mod_eq he.symm
  rw [Nat.mod_eq_of_lt (by simp only [kernel] at hji; omega)] at hd
  omega

def operands : Operands (c.aligned tiles kNum) where
  span _ _ part slot := c.partSpan part slot
  view := Memory.operand
  issued := issued_operand c tiles kNum
  landed _ _ := rfl
  acted := acted_operand c tiles kNum
  stored _ _ := rfl
  parts_disjoint r _ _ _ _ := parts_disjoint c tiles kNum r
  items_disjoint r _ _ _ _ p q _ _ := items_disjoint c tiles kNum r p q
  rings_disjoint _ _ _ _ _ _ _ _ hne _ _ := absurd rfl hne

end Operands

end Traits

structure Final (c : Traits) (tiles kNum : ℕ)
    (s : State (Fin 127) (Fin c.consumers) Unit Bar Act (Memory c.consumers) Site) : Prop where
  ended : ∀ p, s.rest p = []
  flight : s.flight = []
  stores : s.stores = []

structure MainloopRefines (c : Traits) (tiles kNum : ℕ) : Prop where
  /-- the producer and every warp go through the steps in one order -/
  order : sites (Op.isLoad ()) ((c.kernel tiles kNum).program .producer) = items tiles kNum ∧
    ∀ w, sites (Op.isRead ()) ((c.kernel tiles kNum).program (.warp w)) = items tiles kNum
  /-- at its `t`-th `consume_pipe` a warp reads A and B of the `t`-th load -/
  reads : ∀ s, (c.kernel tiles kNum).Reachable s →
    ∀ w x tl, s.rest (.warp w) = ⟨x, .read ()⟩ :: tl →
    s.busy (.warp w) = true →
      (items tiles kNum)[(c.aligned tiles kNum).released s () w]? = some x ∧
      (∀ a ∈ c.getSA (s.consumer w ()).index,
        s.memory.operand a = some ⟨(), x, 0, (s.consumer w ()).index⟩) ∧
      ∀ a ∈ c.getSB (s.consumer w ()).index,
        s.memory.operand a = some ⟨(), x, 1, (s.consumer w ()).index⟩
  /-- a load is issued only into a slot whose earlier contents all warps have released -/
  loads : ∀ s, (c.kernel tiles kNum).Reachable s → ∀ x tl, s.rest .producer = ⟨x, .load ()⟩ :: tl →
    ∀ t, (c.kernel tiles kNum).fire s (.move .producer) = some t →
      (s.producer ()).index = s.total () % c.stage ∧
      ∀ j < s.total (), j % c.stage = s.total () % c.stage →
        ∀ w, j < (c.aligned tiles kNum).released s () w
  /-- the guard agrees with an unbounded counter of the released steps -/
  guard : ∀ s, (c.kernel tiles kNum).Reachable s →
    (Start.counted.ready c.stage (s.total ()) (s.producer ()) (s.ring ()) = true ↔
      ∀ w, s.total () < (c.aligned tiles kNum).released s () w + c.stage)
  progress : ∀ s, (c.kernel tiles kNum).Reachable s → ¬ Final c tiles kNum s →
    ∃ a t, (c.kernel tiles kNum).fire s a = some t
  bounded : ∀ as s, (c.kernel tiles kNum).run (c.kernel tiles kNum).init as = some s →
    as.length ≤ ∑ p, (((c.kernel tiles kNum).program p).map (c.kernel tiles kNum).cost).sum
  /-- when a thread invalidates barriers, every step is consumed and no load is outstanding -/
  invalidate : ∀ s, (c.kernel tiles kNum).Reachable s → ∀ p x tl,
    s.rest p = ⟨x, .act .invalidate⟩ :: tl → s.flight = [] ∧
    s.total () = (items tiles kNum).length ∧
      ∀ w, (c.aligned tiles kNum).released s () w = (items tiles kNum).length

section Proofs

variable {c : Traits} {tiles kNum : ℕ}
variable {s : State (Fin 127) (Fin c.consumers) Unit Bar Act (Memory c.consumers) Site}

theorem tile_lt_of_mem_items {x : Site} (hx : x ∈ items tiles kNum) : x.tile < tiles := by
  obtain ⟨t, k, ht, hx⟩ := mem_unroll.1 hx
  obtain ⟨l, -, rfl⟩ := List.mem_map.1 hx
  simpa using (List.getElem?_eq_some_iff.1 ht).1

theorem released_eq_length (hi : (c.aligned tiles kNum).Inv s) (w : Fin c.consumers)
    (hw : (site tiles 1 : WithTop Site) < s.clock (.warp w)) :
    (c.aligned tiles kNum).released s () w = (items tiles kNum).length := by
  have hle := ((hi.ring ()).rel_le w).trans (hi.total_le ())
  refine le_antisymm hle ?_
  by_contra hlt
  rw [not_le] at hlt
  have hx := List.getElem?_eq_getElem hlt
  have htile := tile_lt_of_mem_items (List.mem_of_getElem? hx)
  refine lt_irrefl _ ((hi.lt_released_iff (r := ()) w hx).2 (lt_trans ?_ hw))
  rw [WithTop.coe_lt_coe, ← Site.eta (items tiles kNum)[_]]
  exact Site.lt_iff.2 (.inl htile)

theorem site_of_invalidate {p : Party (Fin 127) (Fin c.consumers)} {x : Site}
    (hm : (⟨x, .act .invalidate⟩ : Line) ∈ (c.kernel tiles kNum).program p) : x = site tiles 2 := by
  let f : GemmOp → Bool := fun op ↦ op = .act .invalidate
  have hend : ∀ y z, (⟨z, .act .invalidate⟩ : Line) ∈ syncThreads tiles ::
      invalidate c.stage tiles y →
      z = site tiles 2 := by
    intro y z hz
    unfold syncThreads invalidate at hz
    split_ifs at hz <;> simp_all
  cases p with
  | producer =>
    rcases List.mem_append.1 hm with hm | hm
    · obtain ⟨t, k, -, hm⟩ := mem_unroll.1 hm
      obtain ⟨l, -, he⟩ := List.mem_map.1 hm
      cases he
    · exact hend 0 x hm
  | lane i => exact hend (i + 1) x hm
  | warp w =>
    have hx := mem_sites.2 ⟨_, show f (.act .invalidate) = true by simp [f], hm⟩
    rw [Traits.kernel, Traits.sites_warp, Traits.sites_last_nil w tiles rfl rfl,
      List.append_nil] at hx
    obtain ⟨t, k, -, hx⟩ := mem_unroll.1 hx
    rw [Traits.sites_epilogue_nil w _ k rfl rfl rfl rfl] at hx
    simp [f] at hx

/-- Barriers are invalidated behind `__syncthreads`. -/
theorem lt_clock_of_invalidate (hi : (c.aligned tiles kNum).Inv s)
    {p : Party (Fin 127) (Fin c.consumers)} {x : Site} {tl : List Line}
    (hr : s.rest p = ⟨x, .act .invalidate⟩ :: tl) (w : Fin c.consumers) :
    (site tiles 1 : WithTop Site) < s.clock (.warp w) := by
  have hx := site_of_invalidate ((hi.suffix p).subset (hr ▸ List.mem_cons_self))
  have hp : (site tiles 1 : WithTop Site) < s.clock p := by
    rw [clock_of_head hr, hx, WithTop.coe_lt_coe]
    exact Site.lt_iff.2 (.inr ⟨rfl, Nat.one_lt_two⟩)
  exact (hi.sync_lt_iff (b := .block) (List.mem_singleton.2 rfl) rfl rfl).1 hp

theorem exists_step (hs : (c.kernel tiles kNum).Reachable s) (hf : ¬ Final c tiles kNum s) :
    ∃ a t, (c.kernel tiles kNum).fire s a = some t := by
  have hi := Kernel.Reachable.inv (c.aligned tiles kNum) hs
  by_cases hrest : ∃ p, s.rest p ≠ []
  · obtain ⟨a, t, ht⟩ := hi.live hrest
    exact ⟨a, t, Kernel.fire_of_fired ht⟩
  · push Not at hrest
    cases hst : s.stores with
    | cons q qs =>
      exact ⟨.stored q.1 q.2, _,
        Kernel.fire_of_fired (.stored (by rw [hst]; exact List.mem_cons_self))⟩
    | nil => exact absurd ⟨hrest, hi.flight_eq_nil fun w ↦ hrest _, hst⟩ hf

end Proofs

theorem mainloop_refines (c : Traits) (tiles kNum : ℕ) : MainloopRefines c tiles kNum where
  order := ⟨(c.aligned tiles kNum).producer_loads (), (c.aligned tiles kNum).warp_reads ()⟩
  reads s hs w x tl hr hb := by
    have hi := Kernel.Reachable.inv (c.aligned tiles kNum) hs
    exact ⟨(hi.read_head hr).1, fun a ha ↦ (c.operands tiles kNum).reading hs hr hb Nat.two_pos ha,
      fun a ha ↦ (c.operands tiles kNum).reading hs hr hb Nat.one_lt_two ha⟩
  loads s hs x tl hr t ht := by
    have hi := Kernel.Reachable.inv (c.aligned tiles kNum) hs
    rw [hi.producer_eq]
    refine ⟨rfl, fun j hj hslot w ↦ ?_⟩
    simp only [Kernel.fire, hr, Kernel.exec, Option.ite_none_right_eq_some] at ht
    have hg := ht.1
    rw [hi.producer_eq] at hg
    have hlt := ((hi.ring ()).ready_iff Traits.stage_pos .counted).1 hg w
    -- an earlier step in the same slot is at least a whole round behind
    have hround : c.stage ≤ s.total () - j :=
      Nat.le_of_dvd (by omega) (Nat.dvd_of_mod_eq_zero (Nat.sub_mod_eq_zero_of_mod_eq hslot.symm))
    change _ < _ + c.stage at hlt
    omega
  guard s hs := by
    have hi := Kernel.Reachable.inv (c.aligned tiles kNum) hs
    rw [hi.producer_eq]
    exact (hi.ring ()).ready_iff Traits.stage_pos .counted
  progress s hs hf := exists_step hs hf
  bounded as s hr := Kernel.run_length_le (c.aligned tiles kNum) hr
  invalidate s hs p x tl hr := by
    have hi := Kernel.Reachable.inv (c.aligned tiles kNum) hs
    have hrel := fun w ↦ released_eq_length hi w (lt_clock_of_invalidate hi hr w)
    have hw : Fin c.consumers := ⟨0, Nat.mul_pos (by decide) c.cwg_pos⟩
    have htotal : s.total () = (items tiles kNum).length :=
      le_antisymm (hi.total_le ()) (hrel hw ▸ (hi.ring ()).rel_le hw)
    refine ⟨List.eq_nil_iff_forall_not_mem.2 fun d hd ↦ ?_, htotal, hrel⟩
    obtain ⟨j, hj, hx, -, -⟩ := hi.flight d hd
    have hle := hi.released_le_of_flight hd hx hw
    rw [hrel hw] at hle
    exact hle.not_gt (hj.trans_le (hi.total_le ()))

end Sm120.Gemm
