import Sm120.Gemm.Program
import Sm120.Lib.Register

namespace Sm120.Gemm

open Lib Finset

/-- The tile loop of a consumer warp with its own `store_in_flight`, from tile `t` on. -/
def consumerLoop (wid kNum : ℕ) (storeInFlight : Bool) (t : ℕ) : ℕ → List Line
  | 0 => if storeInFlight ∧ wid = 0 then [⟨site t 0, .drain⟩] else []
  | tiles + 1 =>
    mainloop t kNum ++ (if storeInFlight ∧ wid = 0 then [⟨site t kNum, .drain⟩] else []) ++
      [⟨site t (kNum + 1), .sync .epilogue⟩, ⟨site t (kNum + 2), .act .cWrite⟩,
        ⟨site t (kNum + 3), .sync .epilogue⟩] ++
      (if wid = 0 then [⟨site t (kNum + 4), .store⟩] else []) ++
        consumerLoop wid kNum true (t + 1) tiles

theorem unroll_consumerBody (wid kNum t tiles : ℕ) :
    unroll (consumerBody wid) t (List.replicate tiles kNum) ++ lastDrain wid (t + tiles) =
      consumerLoop wid kNum (decide (0 < t)) t tiles := by
  induction tiles generalizing t with
  | zero =>
    simp only [List.replicate_zero, unroll_nil, List.nil_append, Nat.add_zero, consumerLoop,
      lastDrain, decide_eq_true_eq, and_comm]
  | succ tiles ih =>
    have ht : t + (tiles + 1) = t + 1 + tiles := by omega
    rw [List.replicate_succ, unroll_cons, List.append_assoc, ht, ih (t + 1)]
    simp only [consumerBody, epilogue, consumerLoop, decide_eq_true_eq, and_comm, List.append_assoc,
      Nat.succ_pos, decide_true]

namespace Traits

variable {c : Traits} {tiles kNum : ℕ}

theorem mem_program_warp {w : Fin c.consumers} {i : Line} :
    i ∈ (c.kernel tiles kNum).program (.warp w) ↔
      (∃ t < tiles, i ∈ consumerBody w t kNum) ∨ i ∈ lastDrain w tiles ∨ i = syncThreads tiles := by
  change i ∈ unroll (consumerBody w) 0 (List.replicate tiles kNum) ++
    (lastDrain w tiles ++ [syncThreads tiles]) ↔ _
  rw [List.mem_append, List.mem_append, List.mem_singleton, mem_unroll]
  simp only [Nat.zero_add, List.getElem?_replicate]
  constructor
  · rintro (⟨t, k, ht, hi⟩ | h)
    · split_ifs at ht with hlt
      cases ht
      exact .inl ⟨t, hlt, hi⟩
    · exact .inr h
  · rintro (⟨t, hlt, hi⟩ | h)
    · exact .inl ⟨t, kNum, if_pos hlt, hi⟩
    · exact .inr h

theorem mem_program_cWrite {w : Fin c.consumers} {x : Site} :
    ⟨x, .act .cWrite⟩ ∈ (c.kernel tiles kNum).program (.warp w) ↔
    ∃ t < tiles, x = site t (kNum + 2) := by
  rw [mem_program_warp]
  unfold consumerBody epilogue mainloop lastDrain syncThreads
  split_ifs <;> simp

theorem mem_program_store {w : Fin c.consumers} {x : Site} :
    ⟨x, .store⟩ ∈ (c.kernel tiles kNum).program (.warp w) ↔ w.val = 0 ∧
    ∃ t < tiles, x = site t (kNum + 4) := by
  rw [mem_program_warp]
  unfold consumerBody epilogue mainloop lastDrain syncThreads
  split_ifs <;> simp_all

theorem warpsM_pos (c : Traits) : 0 < c.warpsM := by
  have h := Nat.mul_pos (by decide : 0 < 4) c.cwg_pos
  rw [← c.warps_eq] at h
  exact Nat.pos_of_mul_pos_right h

theorem consumers_eq (c : Traits) : c.consumers = c.warpsM * c.warpsN := c.warps_eq.symm

theorem bM_eq (c : Traits) : c.bM = 16 * (c.warpsM * c.wm) := by
  rw [wm, ← Nat.mul_assoc, Nat.mul_div_cancel' (Nat.dvd_of_mod_eq_zero c.bM_warps)]

theorem bN_eq (c : Traits) : c.bN = 8 * (c.warpsN * c.wn) := by
  rw [wn, ← Nat.mul_assoc, Nat.mul_div_cancel' (Nat.dvd_of_mod_eq_zero c.bN_warps)]

theorem covers (c : Traits) : c.mma.Covers c.warpsM c.warpsN c.wm c.wn (fun u j ↦ u * c.wm + j)
    fun u j ↦ u * c.wn + j where
  rows := shares_strips _ _
  cols := shares_strips _ _
  row_eq wid _ lane hl v1 h1 m := by
    rw [TiledMMA.row, TiledMMA.warpM]
    refine (Layout.owned_strips _ _ (Nat.mod_lt wid c.warpsM_pos) (atomRow_lt hl h1)).trans ?_
    ring
  col_eq wid hw lane v0 h0 n := by
    have hlt : wid / c.warpsM < c.warpsN := Nat.div_lt_of_lt_mul hw
    rw [TiledMMA.col, TiledMMA.warpN]
    simp only [mma]
    rw [Nat.mod_eq_of_lt hlt]
    refine (Layout.owned_strips _ _ hlt (atomCol_lt lane h0)).trans ?_
    ring

theorem mem_cCells {wid : ℕ} {a : ℕ × ℕ} (hw : wid < c.consumers) :
    a ∈ c.cCells wid ↔ ∃ x : Register, x.Valid c.consumers c.wm c.wn ∧ x.wid = wid ∧
    c.mma.coord x = a := by
  simp only [cCells, mem_image, mem_product, mem_range, Prod.exists]
  constructor
  · rintro ⟨lane, v1, m, v0, n, ⟨hl, ⟨h1, hm⟩, h0, hn⟩, rfl⟩
    exact ⟨⟨wid, lane, v1, m, v0, n⟩, ⟨hw, hl, h1, hm, h0, hn⟩, rfl, rfl⟩
  · rintro ⟨x, hx, rfl, rfl⟩
    exact ⟨x.lane, x.v1, x.m, x.v0, x.n, ⟨hx.lane, ⟨hx.v1, hx.m⟩, hx.v0, hx.n⟩, rfl⟩

theorem cCells_disjoint {w v : Fin c.consumers} (h : w ≠ v) :
    Disjoint (c.cCells w) (c.cCells v) := by
  rw [disjoint_left]
  intro a ha hb
  obtain ⟨x, hx, hxw, hxa⟩ := (mem_cCells w.isLt).1 ha
  obtain ⟨y, hy, hyv, hya⟩ := (mem_cCells v.isLt).1 hb
  rw [consumers_eq] at hx hy
  have hlt := c.covers.coord_lt hx
  rw [hxa] at hlt
  have he := (c.covers.existsUnique hlt.1 hlt.2).unique ⟨hx, hxa⟩ ⟨hy, hya⟩
  apply h
  rw [Fin.ext_iff, ← hxw, ← hyv, he]

end Traits

/-- Where thread 0 waits for the store of tile `t`: behind the mainloop of the next tile, or behind
the last tile. -/
def drainSite (tiles kNum t : ℕ) : Site := if t + 1 < tiles then site (t + 1) kNum else site tiles 0

/-- Every element of sC holds tile `t`, as the warp that accumulates it has written it. -/
def Holds (c : Traits) (m : Memory c.consumers) (t : ℕ) : Prop :=
  ∀ i < c.bM, ∀ j < c.bN, ∃! w : Fin c.consumers, (i, j) ∈ c.cCells w ∧ m.sC (i, j) = some (t, w)

/-- Around sC, stores and warps never meet. The CTA computes the tiles of C at `coords`. -/
structure EpilogueSafe (c : Traits) (coords : List (ℕ × ℕ)) (kNum : ℕ) : Prop where
  /-- the program keeps `store_in_flight` as each thread does -/
  flag : ∀ w, (c.kernel coords.length kNum).program (.warp w) =
    consumerLoop w kNum false 0 coords.length ++ [syncThreads coords.length]
  /-- no store may still read sC when a warp writes it -/
  writes : ∀ s, (c.kernel coords.length kNum).Reachable s → ∀ w x tl,
    s.rest (.warp w) = ⟨x, .act .cWrite⟩ :: tl → s.stores = []
  /-- a tile is stored behind the writes of all warps, and sC holds it -/
  issued : ∀ s, (c.kernel coords.length kNum).Reachable s → ∀ p x tl, s.rest p = ⟨x, .store⟩ :: tl →
    (∀ w y, ⟨y, .act .cWrite⟩ ∈ s.rest (.warp w) → x.tile < y.tile) ∧ Holds c s.memory x.tile
  /-- sC holds the tile as long as the store may read it -/
  reads : ∀ s, (c.kernel coords.length kNum).Reachable s → ∀ p x, (p, x) ∈ s.stores →
    Holds c s.memory x.tile
  /-- done, outstanding and coming stores are one for each tile -/
  once : ∀ s, (c.kernel coords.length kNum).Reachable s → ∀ w : Fin c.consumers, w.val = 0 →
    ((s.memory.output ++ s.stores.map Prod.snd ++ sites Op.isStore (s.rest (.warp w))).filterMap
      fun x ↦ coords[x.tile]?).Perm coords
  /-- no store is outstanding once a thread has left the kernel, and every tile has been stored -/
  finished : ∀ s, (c.kernel coords.length kNum).Reachable s → ∀ p, s.rest p = [] →
    s.stores = [] ∧ (s.memory.output.filterMap fun x ↦ coords[x.tile]?).Perm coords

theorem site_lt_drainSite {tiles kNum t : ℕ} (l : ℕ) (ht : t < tiles) :
    site t l < drainSite tiles kNum t := by
  unfold drainSite
  split_ifs
  · exact Site.lt_iff.2 (.inl (Nat.lt_succ_self t))
  · exact Site.lt_iff.2 (.inl ht)

/-- The wait for a tile's store stands before the barrier ahead of the next writes. -/
theorem drainSite_lt {tiles kNum t t' : ℕ} (h : t < t') (ht' : t' < tiles) :
    drainSite tiles kNum t < site t' (kNum + 1) := by
  unfold drainSite
  rw [if_pos (by omega), Site.lt_iff]
  omega

theorem drainSite_lt_end {tiles kNum t : ℕ} : drainSite tiles kNum t < site tiles 1 := by
  unfold drainSite
  split_ifs <;> rw [Site.lt_iff] <;> omega

namespace Traits

variable {c : Traits} {tiles kNum : ℕ}

theorem drain_mem_program {w : Fin c.consumers} (hw : w.val = 0) {t : ℕ} (ht : t < tiles) :
    ⟨drainSite tiles kNum t, .drain⟩ ∈ (c.kernel tiles kNum).program (.warp w) := by
  apply mem_program_warp.2
  unfold drainSite
  split_ifs with hlt
  · refine .inl ⟨t + 1, hlt, ?_⟩
    simp [consumerBody, epilogue, hw]
  · refine .inr (.inl ?_)
    rw [lastDrain, if_pos ⟨hw, by omega⟩]
    exact List.mem_singleton_self _

theorem warp_of_store {p : Party (Fin 127) (Fin c.consumers)} {x : Site}
    (hm : ⟨x, .store⟩ ∈ (c.kernel tiles kNum).program p) :
    ∃ w : Fin c.consumers, p = .warp w ∧ w.val = 0 ∧ ∃ t < tiles, x = site t (kNum + 4) := by
  have hend : ∀ y, (⟨x, .store⟩ : Line) ∉ syncThreads tiles :: invalidate c.stage tiles y := by
    intro y hy
    unfold syncThreads invalidate at hy
    split_ifs at hy <;> simp at hy
  cases p with
  | producer =>
    rcases List.mem_append.1 hm with hm | hm
    · obtain ⟨t, k, -, hm⟩ := mem_unroll.1 hm
      obtain ⟨l, -, he⟩ := List.mem_map.1 hm
      cases he
    · exact absurd hm (hend 0)
  | lane i => exact absurd hm (hend (i + 1))
  | warp w => exact ⟨w, rfl, mem_program_store.1 hm⟩

theorem sites_store_other {w : Fin c.consumers} (hw : w.val = 0)
    (q : Party (Fin 127) (Fin c.consumers)) (hq : q ≠ .warp w) :
    sites Op.isStore ((c.kernel tiles kNum).program q) = [] := by
  apply List.eq_nil_iff_forall_not_mem.2
  intro x hx
  obtain ⟨op, hop, hm⟩ := mem_sites.1 hx
  cases op <;> cases hop
  obtain ⟨v, rfl, hv, -⟩ := warp_of_store hm
  apply hq
  rw [Fin.ext (hv.trans hw.symm)]

theorem sites_store {w : Fin c.consumers} (hw : w.val = 0) :
    sites Op.isStore ((c.kernel tiles kNum).program (.warp w)) =
      unroll (fun t kNum ↦ [site t (kNum + 4)]) 0 (List.replicate tiles kNum) := by
  have hbody : ∀ t k, sites Op.isStore (epilogue w t k) = [site t (k + 4)] := by
    intro t k
    unfold epilogue
    rw [if_pos hw]
    split_ifs <;> rfl
  rw [kernel, sites_warp, sites_last_nil w tiles rfl rfl, List.append_nil]
  apply unroll_congr
  intro t k _
  rw [hbody]
  rfl

theorem sync_mem_rounds {t l : ℕ} (ht : t < tiles) (hl : l = kNum + 1 ∨ l = kNum + 3) :
    site t l ∈ barrierRounds tiles kNum .epilogue := by
  apply mem_unroll.2
  refine ⟨t, kNum, by rw [List.getElem?_replicate, if_pos ht], ?_⟩
  rw [Nat.zero_add]
  rcases hl with rfl | rfl <;> simp

end Traits

theorem filterMap_stores {α : Type} (kNum : ℕ) (done coords : List α) :
    (unroll (fun t kNum ↦ [site t (kNum + 4)]) done.length
      (List.replicate coords.length kNum)).filterMap
      (fun x ↦ (done ++ coords)[x.tile]?) = coords := by
  induction coords generalizing done with
  | nil => rfl
  | cons a coords ih =>
    have hlast := ih (done ++ [a])
    rw [List.length_append, List.append_assoc, List.singleton_append] at hlast
    have hhead : (done ++ a :: coords)[(site done.length (kNum + 4)).tile]? = some a := by simp
    rw [List.length_cons, List.replicate_succ, unroll_cons, List.singleton_append,
      List.filterMap_cons, hhead]
    exact congrArg (a :: ·) hlast

section Proofs

variable {c : Traits} {tiles kNum : ℕ}
variable {s : State (Fin 127) (Fin c.consumers) Unit Bar Act (Memory c.consumers) Site}

theorem sync_passed (hi : (c.aligned tiles kNum).Inv s) {t l : ℕ} (ht : t < tiles)
    (hl : l = kNum + 1 ∨ l = kNum + 3) {v : Fin c.consumers} (w : Fin c.consumers)
    (hv : (site t l : WithTop Site) < s.clock (.warp v)) :
    (site t l : WithTop Site) < s.clock (.warp w) :=
  (hi.sync_lt_iff (b := .epilogue) (Traits.sync_mem_rounds ht hl) rfl rfl).1 hv

/-- A warp that writes a later tile stands behind a barrier that thread 0 has reached only after its
wait for the store. -/
theorem drain_lt_of_cWrite (hi : (c.aligned tiles kNum).Inv s) {w v : Fin c.consumers} {t t' : ℕ}
    (ht : t < t') (ht' : t' < tiles)
    (hv : (site t' (kNum + 1) : WithTop Site) < s.clock (.warp v)) :
    (drainSite tiles kNum t : WithTop Site) < s.clock (.warp w) := by
  have hw := sync_passed hi ht' (.inl rfl) w hv
  exact (WithTop.coe_lt_coe.2 (drainSite_lt ht ht')).trans hw

theorem kept (hs : (c.kernel tiles kNum).Reachable s) {w w₀ : Fin c.consumers} {t : ℕ}
    (ht : t < tiles) (hw : (site t (kNum + 2) : WithTop Site) < s.clock (.warp w))
    (hd : s.clock (.warp w₀) ≤ drainSite tiles kNum t) :
    ∀ a ∈ c.cCells w, s.memory.sC a = some (t, w) := by
  refine Kernel.Reachable.window (c.aligned tiles kNum) (e := .cWrite)
    (P := fun m ↦ ∀ a ∈ c.cCells w, m.sC a = some (t, w)) (Traits.mem_program_cWrite.2 ⟨t, ht, rfl⟩)
    ?_ ?_ ?_ ?_ ?_ hs hw hd
  · intro m a ha
    exact if_pos ha
  · intro s _ _ _ r x tl _ hP
    exact hP
  · intro s _ _ _ d _ hP
    exact hP
  · intro s hi hz hy p x e tl hr hP
    cases p with
    | producer => cases e <;> exact hP
    | lane i => cases e <;> exact hP
    | warp v =>
      cases e with
      | invalidate => exact hP
      | cWrite =>
        intro a ha
        have hne : v ≠ w := by
          rintro rfl
          obtain ⟨t', ht', rfl⟩ :=
            Traits.mem_program_cWrite.1 ((hi.suffix _).subset (hr ▸ List.mem_cons_self))
          have hx := clock_of_head hr
          rw [hx, WithTop.coe_lt_coe, Site.lt_iff] at hz
          have hlt := drain_lt_of_cWrite (w := w₀) hi (t := t) (by omega) ht'
            (v := v) (by rw [hx, WithTop.coe_lt_coe, Site.lt_iff]; omega)
          exact hlt.not_ge hy
        have hav : a ∉ c.cCells v := disjoint_left.1 (Traits.cCells_disjoint hne.symm) ha
        exact (if_neg hav).trans (hP a ha)
  · intro x m hP
    exact hP

/-- Between the second barrier of a tile and the wait for its store, sC holds the tile. -/
theorem holds_of_clock (hs : (c.kernel tiles kNum).Reachable s) {w₀ : Fin c.consumers} {t : ℕ}
    (ht : t < tiles) (hw : (site t (kNum + 3) : WithTop Site) < s.clock (.warp w₀))
    (hd : s.clock (.warp w₀) ≤ drainSite tiles kNum t) : Holds c s.memory t := by
  have hi := Kernel.Reachable.inv (c.aligned tiles kNum) hs
  have hall : ∀ w : Fin c.consumers, ∀ a ∈ c.cCells w, s.memory.sC a = some (t, w) := by
    intro w
    have hlt := sync_passed hi ht (.inr rfl) w hw
    have hle : site t (kNum + 2) < site t (kNum + 3) :=
      Site.lt_iff.2 (.inr ⟨rfl, Nat.lt_succ_self _⟩)
    exact kept hs ht ((WithTop.coe_lt_coe.2 hle).trans hlt) hd
  intro i hbi j hbj
  rw [Traits.bM_eq] at hbi
  rw [Traits.bN_eq] at hbj
  obtain ⟨x, ⟨hx, hxa⟩, -⟩ := c.covers.existsUnique hbi hbj
  rw [← Traits.consumers_eq] at hx
  have hmem : (i, j) ∈ c.cCells (⟨x.wid, hx.wid⟩ : Fin c.consumers) :=
    (Traits.mem_cCells hx.wid).2 ⟨x, hx, rfl, hxa⟩
  refine ⟨⟨x.wid, hx.wid⟩, ⟨hmem, hall _ _ hmem⟩, ?_⟩
  rintro v ⟨-, hv⟩
  rw [hall _ _ hmem, Option.some.injEq, Prod.mk.injEq] at hv
  exact hv.2.symm

theorem store_outstanding (hs : (c.kernel tiles kNum).Reachable s)
    {p : Party (Fin 127) (Fin c.consumers)} {x : Site} (hx : (p, x) ∈ s.stores) :
    ∃ (w : Fin c.consumers) (t : ℕ), p = .warp w ∧ t < tiles ∧
      x = site t (kNum + 4) ∧ (site t (kNum + 3) : WithTop Site) < s.clock (.warp w) ∧
        s.clock (.warp w) ≤ drainSite tiles kNum t := by
  let w : Fin c.consumers := ⟨0, Nat.mul_pos (by decide) c.cwg_pos⟩
  obtain ⟨hp, hperm⟩ := hs.stores_perm Memory.output (Traits.sites_store_other (w := w) rfl) rfl
    (fun _ _ _ _ ↦ rfl) (fun _ _ ↦ rfl) (fun q x e m ↦ by cases q <;> cases e <;> rfl)
    (fun _ _ ↦ rfl) (c.aligned tiles kNum)
  obtain rfl : p = .warp w := hp _ hx
  have hmem : x ∈ sites Op.isStore ((c.kernel tiles kNum).program (.warp w)) :=
    hperm.subset
      (List.mem_append_left _ (List.mem_append_right _ (List.mem_map_of_mem (f := Prod.snd) hx)))
  obtain ⟨op, hop, hm⟩ := mem_sites.1 hmem
  cases op <;> cases hop
  obtain ⟨-, t, ht, rfl⟩ := Traits.mem_program_store.1 hm
  obtain ⟨hlt, hdr⟩ := hs.store_window (c.aligned tiles kNum) _ _ hx
  refine ⟨w, t, rfl, ht, rfl, ?_, hdr _ (Traits.drain_mem_program rfl ht) (site_lt_drainSite _ ht)⟩
  have hle : site t (kNum + 3) < site t (kNum + 4) := Site.lt_iff.2 (.inr ⟨rfl, Nat.lt_succ_self _⟩)
  exact (WithTop.coe_lt_coe.2 hle).trans hlt

theorem stores_eq_nil_of_cWrite (hs : (c.kernel tiles kNum).Reachable s) {w : Fin c.consumers}
    {x : Site} {tl : List Line} (hr : s.rest (.warp w) = ⟨x, .act .cWrite⟩ :: tl) :
    s.stores = [] := by
  have hi := Kernel.Reachable.inv (c.aligned tiles kNum) hs
  obtain ⟨t, ht, rfl⟩ :=
    Traits.mem_program_cWrite.1 ((hi.suffix _).subset (hr ▸ List.mem_cons_self))
  apply List.eq_nil_iff_forall_not_mem.2
  rintro ⟨p, y⟩ hy
  obtain ⟨w₀, t', rfl, ht', rfl, h3, hd⟩ := store_outstanding hs hy
  have hx := clock_of_head hr
  by_cases hlt : t' < t
  · -- the barrier ahead of this write lies behind the wait for that store
    exact (drain_lt_of_cWrite hi hlt ht (v := w)
      (by rw [hx, WithTop.coe_lt_coe, Site.lt_iff]; omega)).not_ge hd
  · -- that store lies behind the barrier that follows this write
    have hw := sync_passed hi ht' (.inr rfl) w h3
    rw [hx, WithTop.coe_lt_coe, Site.lt_iff] at hw
    omega

theorem outputs_perm (coords : List (ℕ × ℕ))
    {s : State (Fin 127) (Fin c.consumers) Unit Bar Act (Memory c.consumers) Site}
    (hs : (c.kernel coords.length kNum).Reachable s) {w : Fin c.consumers} (hw : w.val = 0) :
    ((s.memory.output ++ s.stores.map Prod.snd ++ sites Op.isStore (s.rest (.warp w))).filterMap
      fun x ↦ coords[x.tile]?).Perm coords := by
  obtain ⟨-, hperm⟩ := hs.stores_perm Memory.output (Traits.sites_store_other hw) rfl
    (fun _ _ _ _ ↦ rfl) (fun _ _ ↦ rfl) (fun q x e m ↦ by cases q <;> cases e <;> rfl)
    (fun _ _ ↦ rfl) (c.aligned coords.length kNum)
  rw [Traits.sites_store hw] at hperm
  have hlist := filterMap_stores kNum [] coords
  rw [List.nil_append] at hlist
  exact (hperm.filterMap _).trans (.of_eq hlist)

theorem drained_of_ended (hs : (c.kernel tiles kNum).Reachable s)
    {p : Party (Fin 127) (Fin c.consumers)} (hr : s.rest p = []) :
    s.stores = [] ∧ ∀ w : Fin c.consumers, sites Op.isStore (s.rest (.warp w)) = [] := by
  have hi := Kernel.Reachable.inv (c.aligned tiles kNum) hs
  have hend : ∀ w : Fin c.consumers, (site tiles 1 : WithTop Site) < s.clock (.warp w) := by
    intro w
    apply (hi.sync_lt_iff (b := .block) (p := p) (List.mem_singleton.2 rfl) rfl rfl).1
    simp [State.clock, hr]
  constructor
  · apply List.eq_nil_iff_forall_not_mem.2
    rintro ⟨q, y⟩ hy
    obtain ⟨w, t, -, -, -, -, hd⟩ := store_outstanding hs hy
    exact (hend w).not_ge (hd.trans (WithTop.coe_le_coe.2 drainSite_lt_end.le))
  · intro w
    apply List.eq_nil_iff_forall_not_mem.2
    intro x hx
    obtain ⟨op, hop, hm⟩ := mem_sites.1 hx
    cases op <;> cases hop
    have hle := hi.clock_le hm
    obtain ⟨-, t, ht, rfl⟩ := Traits.mem_program_store.1 ((hi.suffix _).subset hm)
    exact (hend w).not_ge (hle.trans (WithTop.coe_le_coe.2 (Site.le_iff.2 (.inl ht))))

end Proofs

theorem epilogue_safe (c : Traits) (coords : List (ℕ × ℕ)) (kNum : ℕ) :
    EpilogueSafe c coords kNum where
  flag w := by
    have hloop := unroll_consumerBody w kNum 0 coords.length
    rw [Nat.zero_add] at hloop
    change _ ++ (lastDrain w coords.length ++ [syncThreads coords.length]) = _
    rw [← List.append_assoc, hloop]
    rfl
  writes s hs w x tl hr := stores_eq_nil_of_cWrite hs hr
  issued s hs p x tl hr := by
    have hi := Kernel.Reachable.inv (c.aligned coords.length kNum) hs
    obtain ⟨w₀, rfl, -, t, ht, rfl⟩ :=
      Traits.warp_of_store ((hi.suffix _).subset (hr ▸ List.mem_cons_self))
    have hx := clock_of_head hr
    have h3 : (site t (kNum + 3) : WithTop Site) < s.clock (.warp w₀) := by
      rw [hx, WithTop.coe_lt_coe, Site.lt_iff]
      omega
    refine ⟨fun w y hy ↦ ?_, holds_of_clock hs ht h3 ?_⟩
    · obtain ⟨t', -, rfl⟩ := Traits.mem_program_cWrite.1 ((hi.suffix _).subset hy)
      have hlt := sync_passed hi ht (.inr rfl) w h3
      have hle := hlt.trans_le (hi.clock_le hy)
      rw [WithTop.coe_lt_coe, Site.lt_iff] at hle
      simp only [Site.tile_site]
      omega
    · rw [hx, WithTop.coe_le_coe]
      exact (site_lt_drainSite _ ht).le
  reads s hs p x hx := by
    obtain ⟨w₀, t, -, ht, rfl, h3, hd⟩ := store_outstanding hs hx
    exact holds_of_clock hs ht h3 hd
  once s hs w hw := outputs_perm coords hs hw
  finished s hs p hr := by
    obtain ⟨hstores, hcoming⟩ := drained_of_ended hs hr
    let w : Fin c.consumers := ⟨0, Nat.mul_pos (by decide) c.cwg_pos⟩
    have hperm := outputs_perm coords hs (w := w) rfl
    rw [hstores, hcoming, List.map_nil, List.append_nil, List.append_nil] at hperm
    exact ⟨hstores, hperm⟩

end Sm120.Gemm
