import Sm120.Flash.Pipelines

namespace Sm120.Flash.MMnNkN.Traits

open Lib Function Finset

variable (c : Traits) (T : Tiles)

def warp (warpM : Fin c.warpsM) (warpN : Fin c.warpsN) : Fin c.kNWarps :=
  ⟨c.warpAt warpM warpN, warpAt_lt warpM.isLt warpN.isLt⟩

def isAct (e : Act) : FlashOp → Bool
  | .act e' => e' = e
  | _ => false

/-- What a warp has to do after the k loop of every tile. -/
def due (wid : ℕ) : Act → Bool
  | .statsWrite | .statsRead => true
  | .partialWrite => wid / c.warpsM ≠ 0
  | .partialRead | .outWrite => wid / c.warpsM = 0

def statsDone (s : CtaState c.kNWarps) (w : Fin c.kNWarps) : ℕ :=
  T.blocks.length - (sites (isAct .statsWrite) (s.rest (.warp w))).length

variable {c T}

theorem eq_of_div_of_mod {w v : Fin c.kNWarps} (hN : w / c.warpsM = v / c.warpsM)
    (hM : w % c.warpsM = v % c.warpsM) : w = v := by
  rw [Fin.ext_iff, ← Nat.div_add_mod (w : ℕ) c.warpsM, ← Nat.div_add_mod (v : ℕ) c.warpsM, hN, hM]

section Cells

theorem outCells_subset (w : Fin c.kNWarps) (idx : ℕ) :
    c.outCells c.storage w idx ⊆ c.storage.getSO idx := by
  intro a ha
  obtain ⟨⟨lane, r, i⟩, hx, rfl⟩ := mem_image.1 ha
  simp only [mem_product, mem_range] at hx
  obtain ⟨hl, hr, hi⟩ := hx
  have hlt := smemOffset_lt c.kHeadDim_mod (outRow_lt w hl hr) (outCol_lt w lane hi)
  have e : c.storage.oSize = c.kBlockM * c.kHeadDim := rfl
  rw [Storage.getSO, mem_Ico]
  dsimp only
  omega

theorem outCells_disjoint {w v : Fin c.kNWarps} {idx idx' : ℕ}
    (h : idx ≠ idx' ∨ w % c.warpsM ≠ v % c.warpsM) :
    Disjoint (c.outCells c.storage w idx) (c.outCells c.storage v idx') := by
  by_cases hidx : idx = idx'
  · subst hidx
    replace h := h.resolve_left (fun hne ↦ hne rfl)
    rw [disjoint_left]
    intro a ha hb
    obtain ⟨⟨lane, r, i⟩, hx, rfl⟩ := mem_image.1 ha
    obtain ⟨⟨lane', r', i'⟩, hx', he⟩ := mem_image.1 hb
    simp only [mem_product, mem_range] at hx hx'
    have hrow := smemOffset_row (outRow_lt v hx'.1 hx'.2.1) (outRow_lt w hx.1 hx.2.1)
      (Nat.add_left_cancel he)
    exact h (warpM_of_outRow hx'.1 hx.1 hrow).symm
  · exact disjoint_of_subset_left (outCells_subset w idx)
      (disjoint_of_subset_right (outCells_subset v idx') (c.storage.getSO_disjoint hidx))

theorem outCells_congr {w v : Fin c.kNWarps} (h : w % c.warpsM = v % c.warpsM) (idx : ℕ) :
    c.outCells c.storage w idx = c.outCells c.storage v idx := by
  simp only [outCells, outRow_eq, outCol_eq, h]

theorem mem_statsSlots {wid i : ℕ} : i ∈ c.statsSlots wid ↔
    ∃ lane < 32, lane % 4 = 0 ∧ ∃ r < 2 * c.wm,
      wid / c.warpsM * c.kBlockM + c.statsRow wid lane r = i := by
  simp only [statsSlots, List.mem_flatMap, List.mem_range]
  constructor
  · rintro ⟨lane, hl, h⟩
    split_ifs at h with hq
    · obtain ⟨r, hr, rfl⟩ := List.mem_map.1 h
      exact ⟨lane, hl, hq, r, List.mem_range.1 hr, rfl⟩
    · cases h
  · rintro ⟨lane, hl, hq, r, hr, rfl⟩
    exact ⟨lane, hl, by rw [if_pos hq]; exact List.mem_map.2 ⟨r, List.mem_range.2 hr, rfl⟩⟩

theorem statsRow_inj {wid lane lane' r r' : ℕ} (hl : lane < 32) (hl' : lane' < 32)
    (hq : lane % 4 = 0) (hq' : lane' % 4 = 0)
    (h : c.statsRow wid lane r = c.statsRow wid lane' r') : lane = lane' ∧ r = r' := by
  unfold statsRow at h
  omega

theorem statsSlots_nodup (wid : ℕ) : (c.statsSlots wid).Nodup := by
  unfold statsSlots
  refine List.nodup_flatMap.2 ⟨fun lane hl ↦ ?_, ?_⟩
  · split_ifs with hq
    · have hl := List.mem_range.1 hl
      refine (List.nodup_map_iff_inj_on List.nodup_range).2 fun r _ r' _ h ↦ ?_
      exact (statsRow_inj hl hl hq hq (Nat.add_left_cancel h)).2
    · exact List.nodup_nil
  · refine List.nodup_range.imp_of_mem fun {lane lane'} hl hl' hne ↦ ?_
    rw [List.mem_range] at hl hl'
    rw [Function.onFun, List.disjoint_left]
    intro i hi hi'
    split_ifs at hi with hq <;> split_ifs at hi' with hq'
    · obtain ⟨r, -, rfl⟩ := List.mem_map.1 hi
      obtain ⟨r', -, he⟩ := List.mem_map.1 hi'
      exact hne (statsRow_inj hl hl' hq hq' (Nat.add_left_cancel he.symm)).1
    all_goals simp_all

theorem warp_of_statsSlots {w v : Fin c.kNWarps} {i : ℕ} (hw : i ∈ c.statsSlots w)
    (hv : i ∈ c.statsSlots v) : w = v := by
  obtain ⟨lane, hl, -, r, hr, rfl⟩ := mem_statsSlots.1 hw
  obtain ⟨lane', hl', -, r', hr', he⟩ := mem_statsSlots.1 hv
  have h1 := c.scoreRow_lt w hl hr
  have h2 := c.scoreRow_lt v hl' hr'
  rw [← statsRow_eq hl] at h1
  rw [← statsRow_eq hl'] at h2
  have hdiv : ∀ {x y z : ℕ}, y < z → (x * z + y) / z = x := by
    intro x y z hy
    rw [Nat.add_comm, Nat.add_mul_div_right _ _ (by omega), Nat.div_eq_of_lt hy, Nat.zero_add]
  have hN : v / c.warpsM = w / c.warpsM := by
    rw [← hdiv (x := w / c.warpsM) h1, ← he, hdiv h2]
  have hrow : c.statsRow v lane' r' = c.statsRow w lane r := by
    rw [hN] at he
    exact Nat.add_left_cancel he
  have hM : v % c.warpsM = w % c.warpsM := by
    have key : ∀ (u : Fin c.kNWarps) l q, l < 32 → q < 2 * c.wm →
        c.statsRow u l q / (16 * c.wm) = u % c.warpsM := by
      intro u l q hl hq
      have ha := atomRow_lt hl (show q % 2 < 2 by omega)
      rw [statsRow_eq hl, scoreRow_eq hl, Nat.add_assoc]
      exact hdiv (by omega)
    rw [← key v lane' r' hl' hr', hrow, key w lane r hl hr]
  exact eq_of_div_of_mod hN.symm hM.symm

theorem statsSlots_owner {warpN row : ℕ} (hN : warpN < c.warpsN) (hrow : row < c.kBlockM) :
    ∃ w : Fin c.kNWarps, w / c.warpsM = warpN ∧
      (∃ lane < 32, ∃ r < 2 * c.wm, c.scoreRow w lane r = row) ∧
      warpN * c.kBlockM + row ∈ c.statsSlots w := by
  have hwm := c.wm_pos
  have hM : row / (16 * c.wm) < c.warpsM := by
    rw [c.kBlockM_eq, Nat.mul_comm] at hrow
    exact Nat.div_lt_of_lt_mul hrow
  have hmod := Nat.mod_lt row (show 0 < 16 * c.wm by omega)
  have hdm := Nat.div_add_mod row (16 * c.wm)
  set x := row % (16 * c.wm)
  have hlane : x % 8 * 4 < 32 := by omega
  have hstats : c.statsRow (c.warpAt (row / (16 * c.wm)) warpN) (x % 8 * 4) (x / 8) = row := by
    rw [statsRow, warpAt_mod hM, kBlockM_div, Nat.mul_comm (row / (16 * c.wm))]
    omega
  refine ⟨⟨_, warpAt_lt hM hN⟩, warpAt_div hM warpN, ⟨x % 8 * 4, hlane, x / 8, by omega, ?_⟩, ?_⟩
  · rw [← statsRow_eq hlane]
    exact hstats
  · exact mem_statsSlots.2 ⟨x % 8 * 4,
      hlane, by omega, x / 8, by omega, by rw [hstats, warpAt_div hM]⟩

theorem mem_outCells_of_elem (S : Storage) {row col : ℕ} (hrow : row < c.kBlockM)
    (hcol : col < c.kHeadDim) :
    ∃ warpM < c.warpsM, smemOffset c.kBlockM c.kHeadDim row col ∈ c.outCells S
      (c.warpAt warpM 0) 0 := by
  have hd := c.kHeadDim_mod
  have hM : row / 16 % c.warpsM < c.warpsM := Nat.mod_lt _ c.warpsM_pos
  refine ⟨row / 16 % c.warpsM, hM, mem_image.2
    ⟨(row % 8 * 4 + col % 8 / 2, row / 16 / c.warpsM * 2 + row % 16 / 8, col / 8 * 2 + col % 2), ?_,
      ?_⟩⟩
  · have e : c.kBlockM = 16 * (c.warpsM * c.wm) := by rw [c.kBlockM_eq]; ring
    have hj : row / 16 / c.warpsM < c.wm :=
      Nat.div_lt_of_lt_mul (Nat.div_lt_of_lt_mul (by rw [← e]; exact hrow))
    simp only [mem_product, mem_range]
    omega
  · have hr : c.outRow (c.warpAt (row / 16 % c.warpsM) 0) (row % 8 * 4 + col % 8 / 2)
        (row / 16 / c.warpsM * 2 + row % 16 / 8) = row := by
      have h1 : (row / 16 / c.warpsM * 2 + row % 16 / 8) / 2 = row / 16 / c.warpsM := by omega
      have h2 := Nat.mod_add_div (row / 16) c.warpsM
      rw [outRow_eq, warpAt_mod hM, h1, h2, atomRow]
      omega
    have hc : c.outCol (c.warpAt (row / 16 % c.warpsM) 0) (row % 8 * 4 + col % 8 / 2)
        (col / 8 * 2 + col % 2) = col := by
      rw [outCol_eq, atomCol]
      omega
    dsimp only
    rw [hr, hc]
    simp

end Cells

section Ops

variable {S : Storage}

theorem rounds_eq (h : 1 < c.warpsN) : (c.epilogue S).rounds = [1, 4, 7] := if_pos h

theorem mem_epilogueOps (h : 1 < c.warpsN) {wid : ℕ} {e : Act} :
    (e.line, .act e) ∈ c.epilogueOps wid ↔ (e = .partialWrite → wid / c.warpsM ≠ 0) ∧
      (e = .partialRead ∨ e = .outWrite → wid / c.warpsM = 0) := by
  rw [epilogueOps, if_pos h]
  by_cases h0 : wid / c.warpsM = 0 <;> cases e <;> by_cases hw : wid = 0 <;>
    simp_all [Act.line, storeTile, Nat.pos_iff_ne_zero]

theorem sites_act (h : 1 < c.warpsN) (w : Fin c.kNWarps) (e : Act) :
    sites (isAct e) ((c.kernel S T).program (.warp w)) =
      if c.due w e then unroll (fun t kb ↦ [after t kb e.line]) 0 T.blocks else [] := by
  have hops : ((c.epilogueOps w).filter fun o ↦ isAct e o.2).map Prod.fst =
      if c.due w e then [e.line] else [] := by
    rw [epilogueOps, if_pos h, due.eq_def]
    generalize (w : ℕ) / c.warpsM = n
    cases e <;> by_cases hn : n = 0 <;> by_cases hw : (w : ℕ) = 0 <;>
      simp_all [isAct, Act.line, storeTile, Nat.pos_iff_ne_zero]
  have hbody : ∀ t kb, sites (isAct e) (consumerBody (c.epilogueOps w) t kb) =
      if c.due w e then [after t kb e.line] else [] := by
    intro t kb
    have he := epilogue_sites (isAct e) (c.epilogueOps w) t kb
    rw [hops] at he
    rw [consumerBody, sites_append, sites_append, sites_operandLoop_nil t kb fun _ ↦ rfl, he,
      tileBufferSync, sites_cons_of_neg _ _ rfl]
    split_ifs
    · rfl
    · rfl
  rw [kernel, ctaKernel, sites_unroll]
  split_ifs with hdue
  · exact unroll_congr fun t kb _ ↦ (hbody t kb).trans (if_pos hdue)
  · refine List.eq_nil_iff_forall_not_mem.2 fun x hx ↦ ?_
    obtain ⟨t, kb, -, hx⟩ := mem_unroll.1 hx
    have hnil : sites (isAct e) (consumerBody ((c.epilogue S).ops w) (0 + t) kb) = [] :=
      (hbody _ kb).trans (if_neg hdue)
    rw [hnil] at hx
    cases hx

theorem sites_statsWrite (h : 1 < c.warpsN) (w : Fin c.kNWarps) :
    sites (isAct .statsWrite) ((c.kernel S T).program (.warp w)) =
      unroll (fun t kb ↦ [after t kb 0]) 0 T.blocks :=
  sites_act h w .statsWrite

end Ops

section Stats

variable {S : Storage} {s t : CtaState c.kNWarps}

theorem statsWrite_rest (h : 1 < c.warpsN) (hi : (c.aligned S T).Inv s) (w : Fin c.kNWarps) :
    sites (isAct .statsWrite) (s.rest (.warp w)) =
      (unroll (fun t kb ↦ [after t kb 0]) 0 T.blocks).drop (c.statsDone T s w) := by
  have hs := List.suffix_iff_eq_drop.1 (sites_suffix (isAct .statsWrite) (hi.suffix (.warp w)))
  rwa [sites_statsWrite h, unroll_singleton_length] at hs

theorem lt_statsDone_iff (h : 1 < c.warpsN) (hi : (c.aligned S T).Inv s) (w : Fin c.kNWarps)
    {t kb : ℕ} (ht : T.blocks[t]? = some kb) :
    t < c.statsDone T s w ↔ (after t kb 0 : WithTop Site) < s.clock (.warp w) := by
  have hm : (⟨after t kb 0, .act .statsWrite⟩ : Line) ∈ (c.kernel S T).program (.warp w) :=
    mem_program_act.2 ⟨t, kb, ht, (mem_epilogueOps h).2 (by simp), rfl⟩
  rw [← not_le, ← not_le, not_iff_not, ← hi.mem_rest_iff hm]
  have hx : (unroll (fun t kb ↦ [after t kb 0]) 0 T.blocks)[t]? = some (after t kb 0) := by
    rw [unroll_singleton_getElem?, ht, Nat.zero_add]
    rfl
  constructor
  · intro hle
    have hmem : after t kb 0 ∈ sites (isAct .statsWrite) (s.rest (.warp w)) := by
      rw [statsWrite_rest h hi]
      refine List.mem_of_getElem? (i := t - c.statsDone T s w) ?_
      rw [List.getElem?_drop, Nat.add_sub_cancel' hle, hx]
    obtain ⟨op, hop, hmem⟩ := mem_sites.1 hmem
    unfold isAct at hop
    split at hop
    · rwa [of_decide_eq_true hop] at hmem
    · cases hop
  · intro hmem
    have hmem := statsWrite_rest h hi w ▸ mem_sites.2 ⟨_, rfl, hmem⟩
    obtain ⟨i, hi⟩ := List.getElem?_of_mem hmem
    rw [List.getElem?_drop, unroll_singleton_getElem?, Nat.zero_add, Option.map_eq_some_iff] at hi
    obtain ⟨kb', -, he⟩ := hi
    have ht : c.statsDone T s w + i = t := congrArg Site.tile he
    omega

theorem statsDone_congr {w : Fin c.kNWarps}
    (h : sites (isAct .statsWrite) (t.rest (.warp w)) =
      sites (isAct .statsWrite) (s.rest (.warp w))) :
    c.statsDone T t w = c.statsDone T s w := by rw [statsDone, statsDone, h]

theorem statsDone_succ (h : 1 < c.warpsN) (hi : (c.aligned S T).Inv s) {w : Fin c.kNWarps}
    {x : Site} (hr : s.rest (.warp w) = ⟨x, .act .statsWrite⟩ :: t.rest (.warp w)) :
    x.tile = c.statsDone T s w ∧ c.statsDone T t w = c.statsDone T s w + 1 := by
  have hw := statsWrite_rest h hi w
  have hlen := congrArg List.length hw
  rw [hr, sites_cons_of_pos _ _ rfl] at hw hlen
  obtain ⟨hx, -⟩ := drop_cons_iff.1 hw.symm
  rw [unroll_singleton_getElem?, Nat.zero_add, Option.map_eq_some_iff] at hx
  obtain ⟨kb, hkb, rfl⟩ := hx
  refine ⟨rfl, ?_⟩
  have hlt := (List.getElem?_eq_some_iff.1 hkb).1
  rw [List.length_cons, List.length_drop, unroll_singleton_length] at hlen
  rw [statsDone]
  omega

/-- The log of a slot: its owner, tile after tile. -/
theorem stats_eq (h : 1 < c.warpsN) (hs : (c.kernel S T).Reachable s) (st : Stat)
    {w : Fin c.kNWarps} {i : ℕ} (hiw : i ∈ c.statsSlots w) :
    s.memory.stats st i = (List.range (c.statsDone T s w)).map fun t ↦ (t, w) := by
  refine hs.invariant (I := fun s ↦ s.memory.stats st i =
    (List.range (c.statsDone T s w)).map fun t ↦ (t, w)) ?_ ?_
  · have h0 : c.statsDone T (c.kernel S T).init w = 0 := by
      rw [statsDone, Kernel.init, sites_statsWrite h, unroll_singleton_length, Nat.sub_self]
    rw [h0]
    rfl
  · intro s a t hs ih ht
    have hi := Kernel.Reachable.inv (c.aligned S T) hs
    have hi' := hi.step ht
    rcases ht.act_or with ⟨p, x, e, hr, hm, hrest⟩ | ⟨hm, hsites⟩
    · obtain ⟨u, rfl⟩ := act_party hi hr
      by_cases he : e = .statsWrite
      · subst he
        have hlog : t.memory.stats st i =
            s.memory.stats st i ++ List.replicate ((c.statsSlots u).count i) (x.tile, u) := by
              rw [hm]; rfl
        rw [hlog, ih]
        by_cases hu : u = w
        · subst hu
          obtain ⟨hx, hd⟩ := statsDone_succ h hi hr
          rw [List.count_eq_one_of_mem (statsSlots_nodup _) hiw, hd, hx, List.range_succ,
            List.map_append]
          rfl
        · rw [List.count_eq_zero_of_not_mem fun hiu ↦ hu (warp_of_statsSlots hiu hiw),
            List.replicate_zero, List.append_nil,
            statsDone_congr (congrArg _ (hrest _ fun hw ↦ hu (Party.warp.inj hw).symm))]
      · have hlog : t.memory.stats st i = s.memory.stats st i := by
          rw [hm]
          cases e <;> first | rfl | exact absurd rfl he
        rw [hlog, ih, statsDone_congr]
        by_cases hu : u = w
        · subst hu
          rw [hr, sites_cons_of_neg]
          cases e <;> first | rfl | exact absurd rfl he
        · rw [hrest _ fun hw ↦ hu (Party.warp.inj hw).symm]
    · have hd : sites (isAct .statsWrite) (t.rest (.warp w)) =
          sites (isAct .statsWrite) (s.rest (.warp w)) := by
        refine hsites _ (isAct .statsWrite) fun op hop ↦ ?_
        unfold isAct at hop
        split at hop
        · exact ⟨_, rfl⟩
        · cases hop
      rw [statsDone_congr hd, ← ih]
      rcases hm with hm | ⟨r, x, j, hm⟩ | ⟨d, hm⟩ | ⟨x, hm⟩ <;> rw [hm] <;> rfl

theorem statsDone_le (h : 1 < c.warpsN) (hi : (c.aligned S T).Inv s) {t kb : ℕ}
    (ht : T.blocks[t]? = some kb) {v : Fin c.kNWarps} (hv : s.clock (.warp v) ≤ after t kb 10)
    (w : Fin c.kNWarps) : c.statsDone T s w ≤ t + 1 := by
  by_contra hlt
  rw [not_le] at hlt
  have hlen : c.statsDone T s w ≤ T.blocks.length := Nat.sub_le _ _
  have ht' := List.getElem?_eq_getElem (hlt.trans_le hlen)
  have hw := (lt_statsDone_iff h hi w ht').1 hlt
  rw [← not_lt, tileBuffer_lt_iff hi ht _ (.warp w), not_lt] at hv
  have := WithTop.coe_lt_coe.1 (hw.trans_le hv)
  rw [after_lt ht' ht] at this
  omega

theorem statsDone_eq (h : 1 < c.warpsN) (hi : (c.aligned S T).Inv s) {t kb : ℕ}
    (ht : T.blocks[t]? = some kb) {v : Fin c.kNWarps}
    (hlo : (after t kb 1 : WithTop Site) < s.clock (.warp v))
    (hhi : s.clock (.warp v) ≤ after t kb 10) (w : Fin c.kNWarps) : c.statsDone T s w = t + 1 := by
  refine le_antisymm (statsDone_le h hi ht hhi w) ?_
  have hw := (epilogue_lt_iff hi ht (by rw [rounds_eq h]; decide) v w).1 hlo
  exact (lt_statsDone_iff h hi w ht).2
    ((WithTop.coe_lt_coe.2 ((after_lt ht ht).2 (.inr ⟨rfl, by omega⟩))).trans hw)

end Stats

section Partials

variable {s : CtaState c.kNWarps} {t kb : ℕ}

/-- A partial tile stays in its slot until the warp of its row in the first column has added it. -/
theorem partial_kept (h : 1 < c.warpsN) (hs : (c.kernel c.storage T).Reachable s)
    {v q : Fin c.kNWarps} (ht : T.blocks[t]? = some kb) (hv : v / c.warpsM ≠ 0)
    (hq : q / c.warpsM = 0) (hvq : v % c.warpsM = q % c.warpsM)
    (hz : (after t kb 3 : WithTop Site) < s.clock (.warp v))
    (hy : s.clock (.warp q) ≤ after t kb 5) :
    ∀ a ∈ c.outCells c.storage v (v / c.warpsM - 1), s.memory.qkv a = some (.part t v) := by
  refine epilogue_window (E := c.epilogue c.storage) (e := .partialWrite) (l := 1) (m := 5)
    (P := fun m ↦ ∀ a ∈ c.outCells c.storage v (v / c.warpsM - 1), m.qkv a = some (.part t v)) ht
    ((mem_epilogueOps h).2 ⟨fun _ ↦ hv, by simp⟩) (by rw [rounds_eq h]; decide)
      (by decide) (by decide)
    (fun m a ha ↦ fill_of_mem ha) ?_ (fun x m hP ↦ hP) hs hz hy
  intro s hi hy u e hu hlt ho hz hP a ha
  obtain ⟨hpart, hout⟩ := (mem_epilogueOps h).1 ho
  cases e with
  | partialWrite =>
    by_cases huv : u = v
    · subst huv
      exact fill_of_mem ha
    · refine (fill_of_notMem (disjoint_left.1 (outCells_disjoint ?_) ha)).trans (hP a ha)
      have hu0 := hpart rfl
      by_contra hne
      push Not at hne
      exact huv (eq_of_div_of_mod (Nat.sub_one_cancel (Nat.pos_of_ne_zero hu0)
        (Nat.pos_of_ne_zero hv) hne.1.symm) hne.2.symm)
  | outWrite =>
    refine (fill_of_notMem (disjoint_left.1 (outCells_disjoint (.inr ?_)) ha)).trans (hP a ha)
    intro hM
    -- only the reader itself writes these rows, and it has yet to read
    obtain rfl := eq_of_div_of_mod ((hout (.inr rfl)).trans hq.symm) (hM.symm.trans hvq)
    rw [hu, WithTop.coe_le_coe, after, after, Site.le_iff] at hy
    simp [Act.line] at hy
  | _ => exact hP a ha

/-- The rows of O a warp has written stay until the tile has been stored. -/
theorem out_kept (h : 1 < c.warpsN) (hs : (c.kernel c.storage T).Reachable s) {w : Fin c.kNWarps}
    (ht : T.blocks[t]? = some kb) (hw : w / c.warpsM = 0)
    (hz : (after t kb 6 : WithTop Site) < s.clock (.warp w))
    (hy : s.clock .producer ≤ after t kb 10) :
    ∀ a ∈ c.outCells c.storage w 0, s.memory.qkv a = some (.out t w) := by
  refine epilogue_window (E := c.epilogue c.storage) (e := .outWrite) (l := 4) (m := 10)
    (P := fun m ↦ ∀ a ∈ c.outCells c.storage w 0, m.qkv a = some (.out t w)) ht
    ((mem_epilogueOps h).2 ⟨by simp, fun _ ↦ hw⟩) (by rw [rounds_eq h]; decide) (by decide) le_rfl
    (fun m a ha ↦ fill_of_mem ha) ?_ (fun x m hP ↦ hP) hs hz hy
  intro s hi hy u e hu hlt ho hz hP a ha
  cases e with
  | outWrite =>
    by_cases huw : u = w
    · subst huw
      exact fill_of_mem ha
    · refine (fill_of_notMem (disjoint_left.1 (outCells_disjoint (.inr fun hM ↦ huw ?_)) ha)).trans
        (hP a ha)
      exact eq_of_div_of_mod ((((mem_epilogueOps h).1 ho).2 (.inr rfl)).trans hw.symm) hM.symm
  | partialRead => exact hP a ha
  | _ => simp [Act.line] at hlt

end Partials

/-- The reduction of O across the columns of the warp grid is safe and complete. -/
structure ReductionSafe (c : Traits) (T : Tiles) : Prop where
  /-- in every tile a warp does what is due from it once, in the order of the lines -/
  order : ∀ w, ((c.kernel c.storage T).program (.warp w)).Pairwise (fun i j ↦ i.site < j.site) ∧
    ∀ e, sites (isAct e) ((c.kernel c.storage T).program (.warp w)) =
      if c.due w e then unroll (fun t kb ↦ [after t kb e.line]) 0 T.blocks else []
  /-- no partial or final O is written while an item of the same tile is unreleased -/
  overlay : ∀ s, (c.kernel c.storage T).Reachable s →
    ∀ w x e tl, s.rest (.warp w) = ⟨x, .act e⟩ :: tl →
    e = .partialWrite ∨ e = .outWrite →
      ∀ v r, ∀ y ∈ sites (Op.isRead r) (s.rest (.warp v)), y.tile ≠ x.tile
  bounds : ∀ w : Fin c.kNWarps, ∀ i ∈ c.statsSlots w, i < c.rowStatsSlots
  /-- slot `(warpN, row)` belongs to the one warp of that column whose accumulators hold the row -/
  owner : ∀ warpN < c.warpsN, ∀ row < c.kBlockM, ∃ w : Fin c.kNWarps, w / c.warpsM = warpN ∧
    (∃ lane < 32, ∃ r < 2 * c.wm, c.scoreRow w lane r = row) ∧
      ∀ v : Fin c.kNWarps, warpN * c.kBlockM + row ∈ c.statsSlots v ↔ v = w
  /-- a slot is written by its owner alone, once a tile -/
  written : ∀ s, (c.kernel c.storage T).Reachable s →
    ∀ st (w : Fin c.kNWarps), ∀ i ∈ c.statsSlots w,
    ∃ m, s.memory.stats st i = (List.range m).map (fun t ↦ (t, w)) ∧
      (s.rest (.warp w) = [] → m = T.blocks.length)
  /-- a warp about to read the statistics of a tile finds those of that tile in every slot -/
  ready : ∀ s, (c.kernel c.storage T).Reachable s → ∀ v x tl,
    s.rest (.warp v) = ⟨x, .act .statsRead⟩ :: tl →
    ∀ st (w : Fin c.kNWarps), ∀ i ∈ c.statsSlots w, (s.memory.stats st i).getLast? =
      some (x.tile, w)
  /-- no slot is rewritten for a later tile before every warp has read it -/
  kept : ∀ s, (c.kernel c.storage T).Reachable s → ∀ v x, ⟨x, .act .statsRead⟩ ∈ s.rest (.warp v) →
    ∀ st (w : Fin c.kNWarps), ∀ i ∈ c.statsSlots w, ∀ e ∈ s.memory.stats st i, e.1 ≤ x.tile
  /-- a warp of the first column reads the partial tiles the warps of its row have just written -/
  partials : ∀ s, (c.kernel c.storage T).Reachable s → ∀ (warpM : Fin c.warpsM) x tl,
    s.rest (.warp (c.warp warpM ⟨0, c.warpsN_pos⟩)) = ⟨x, .act .partialRead⟩ :: tl →
      ∀ warpN : Fin c.warpsN, 0 < warpN.val →
        ∀ a ∈ c.outCells c.storage (c.warp warpM ⟨0, c.warpsN_pos⟩) (warpN - 1),
          s.memory.qkv a = some (.part x.tile (c.warp warpM warpN))
  /-- while the tile is being stored, `get_sO(0)` holds what the first column wrote for it -/
  stored : ∀ s, (c.kernel c.storage T).Reachable s → ∀ p x, (p, x) ∈ s.stores →
    ∀ warpM : Fin c.warpsM,
    ∀ a ∈ c.outCells c.storage (c.warp warpM ⟨0, c.warpsN_pos⟩) 0,
      s.memory.qkv a = some (.out x.tile (c.warp warpM ⟨0, c.warpsN_pos⟩))
  /-- done, outstanding and coming stores are one for each tile -/
  once : ∀ s, (c.kernel c.storage T).Reachable s → ∀ w : Fin c.kNWarps, w.val = 0 →
    (s.memory.output ++ s.stores.map Prod.snd ++ sites Op.isStore (s.rest (.warp w))).Perm
      (unroll (fun t kb ↦ [after t kb 8]) 0 T.blocks)
  complete : ∀ row < c.kBlockM, ∀ col < c.kHeadDim, ∃ warpM : Fin c.warpsM,
    smemOffset c.kBlockM c.kHeadDim row col ∈ c.outCells c.storage
      (c.warp warpM ⟨0, c.warpsN_pos⟩) 0

section Safe

variable {s : CtaState c.kNWarps} {tl : List Line} {x : Site}

theorem act_clock (tl : List Line) (hi : (c.aligned c.storage T).Inv s) {w : Fin c.kNWarps}
    {e : Act} (hm : ⟨x, .act e⟩ ∈ s.rest (.warp w)) : ∃ t kb, T.blocks[t]? = some kb ∧
    x = after t kb e.line ∧
      (e.line, .act e) ∈ c.epilogueOps w ∧ s.clock (.warp w) ≤ after t kb 10 ∧
        ∀ l < e.line, s.rest (.warp w) = ⟨x, .act e⟩ :: tl →
          (after t kb l : WithTop Site) < s.clock (.warp w) := by
  obtain ⟨t, kb, ht, ho, rfl⟩ := mem_program_act.1 ((hi.suffix (.warp w)).subset hm)
  refine ⟨t, kb, ht, rfl, ho,
    (hi.clock_le hm).trans (WithTop.coe_le_coe.2 (Site.le_iff.2 (.inr ⟨rfl, ?_⟩))), ?_⟩
  · have : e.line ≤ 10 := by cases e <;> decide
    omega
  · intro l hl hr
    rw [clock_of_head hr, WithTop.coe_lt_coe, after_lt ht ht]
    exact .inr ⟨rfl, hl⟩

theorem tile_ne_of_read (h : 1 < c.warpsN) (hs : (c.kernel c.storage T).Reachable s)
    {w : Fin c.kNWarps} {e : Act} (hr : s.rest (.warp w) = ⟨x, .act e⟩ :: tl) (he : 1 < e.line)
    (v : Fin c.kNWarps) (r : Ring) {y : Site} (hy : y ∈ sites (Op.isRead r) (s.rest (.warp v))) :
    y.tile ≠ x.tile := by
  have hi := Kernel.Reachable.inv (c.aligned c.storage T) hs
  obtain ⟨t, kb, ht, rfl, -, -, hlo⟩ := act_clock tl hi (hr ▸ List.mem_cons_self)
  intro hyt
  have hmem : y ∈ T.items r := by
    have h := (sites_suffix (Op.isRead r) (hi.suffix (.warp v))).subset hy
    rwa [(c.aligned c.storage T).warp_reads] at h
  have hv := (epilogue_lt_iff hi ht (by rw [rounds_eq h]; decide) w v).1 (hlo 1 he hr)
  obtain ⟨_, -, hm⟩ := mem_sites.1 hy
  have hlt :=
    (item_lt_after ht hmem hyt.le).trans ((after_lt ht ht).2 (.inr ⟨rfl, Nat.zero_lt_one⟩))
  exact (hv.trans_le (hi.clock_le hm)).not_ge (WithTop.coe_le_coe.2 hlt.le)

theorem statsSlots_lt (h : 1 < c.warpsN) {w : Fin c.kNWarps} {i : ℕ} (hi : i ∈ c.statsSlots w) :
    i < c.rowStatsSlots := by
  obtain ⟨lane, hl, -, r, hr, rfl⟩ := mem_statsSlots.1 hi
  have hrow := c.scoreRow_lt w hl hr
  have hN : w / c.warpsM < c.warpsN := Nat.div_lt_of_lt_mul w.isLt
  have hmul := Nat.mul_le_mul_right c.kBlockM (Nat.succ_le_of_lt hN)
  have h16 : c.kBlockM / 16 * 16 = c.kBlockM := by
    rw [c.kBlockM_eq]
    exact Nat.div_mul_cancel (Dvd.intro _ (Nat.mul_left_comm 16 c.warpsM c.wm))
  rw [rowStatsSlots, if_pos h, Nat.mul_assoc, h16, statsRow_eq hl]
  rw [Nat.succ_mul] at hmul
  omega

theorem out_of_store (h : 1 < c.warpsN) (hs : (c.kernel c.storage T).Reachable s)
    {p : Party (Fin 127) (Fin c.kNWarps)} (hx : (p, x) ∈ s.stores) {w : Fin c.kNWarps}
    (hw : w / c.warpsM = 0) : ∀ a ∈ c.outCells c.storage w 0,
    s.memory.qkv a = some (.out x.tile w) := by
  have hi := Kernel.Reachable.inv (c.aligned c.storage T) hs
  obtain ⟨hp, hperm⟩ := output_perm hs ⟨0, c.kNWarps_pos⟩ rfl
  obtain rfl : p = .warp ⟨0, c.kNWarps_pos⟩ := hp _ hx
  have hmem :=
    hperm.mem_iff.1 (List.mem_append.2 (.inl (List.mem_append.2 (.inr (List.mem_map_of_mem hx)))))
  obtain ⟨t, kb, ht, hmem⟩ := mem_unroll.1 hmem
  obtain rfl : x = after t kb 8 := by simpa using hmem
  obtain ⟨hlt, hdrain⟩ := Kernel.Reachable.store_window (c.aligned c.storage T) hs _ _ hx
  have hle : s.clock (.warp ⟨0, c.kNWarps_pos⟩) ≤ after t kb 9 := by
    refine hdrain _ (mem_program_warp.2 ⟨t, kb, ht, ?_⟩) ((after_lt ht ht).2 (.inr ⟨rfl, by omega⟩))
    simp only [consumerBody, List.mem_append, List.mem_map]
    refine .inl (.inr ⟨(9, .drain), ?_, rfl⟩)
    change _ ∈ c.epilogueOps 0
    simp [epilogueOps, h, storeTile]
  have hlast : s.clock .producer ≤ after t kb 10 := by
    rw [← not_lt, tileBuffer_lt_iff hi ht _ (.warp ⟨0, c.kNWarps_pos⟩), not_lt]
    exact hle.trans (WithTop.coe_le_coe.2 (Site.le_iff.2 (.inr ⟨rfl, by omega⟩)))
  have hlo : ∀ {l m}, l < m → (after t kb l : WithTop Site) < after t kb m := fun h ↦
    WithTop.coe_lt_coe.2 ((after_lt ht ht).2 (.inr ⟨rfl, h⟩))
  have hw7 :=
    (epilogue_lt_iff hi ht (by rw [rounds_eq h]; decide) _ w).1
      ((hlo (by decide : 7 < 8)).trans hlt)
  exact out_kept h hs ht hw ((hlo (by decide : 6 < 7)).trans hw7) hlast

end Safe

theorem reduction_safe (c : Traits) (h : 1 < c.warpsN) (T : Tiles) : ReductionSafe c T where
  order w := ⟨(c.aligned c.storage T).sorted (.warp w), sites_act h w⟩
  overlay s hs w x e tl hr he v r y hy := by
    refine tile_ne_of_read h hs hr ?_ v r hy
    rcases he with rfl | rfl <;> decide
  bounds w i hi := statsSlots_lt h hi
  owner warpN hN row hrow := by
    obtain ⟨w, hw, hlane, hi⟩ := statsSlots_owner hN hrow
    exact ⟨w, hw, hlane, fun v ↦ ⟨fun hv ↦ warp_of_statsSlots hv hi, fun hv ↦ hv ▸ hi⟩⟩
  written s hs st w i hi := by
    refine ⟨_, stats_eq h hs st hi, fun hr ↦ ?_⟩
    rw [statsDone, hr]
    rfl
  ready s hs v x tl hr st w i hiw := by
    have hi := Kernel.Reachable.inv (c.aligned c.storage T) hs
    obtain ⟨t, kb, ht, rfl, -, hhi, hlo⟩ := act_clock tl hi (hr ▸ List.mem_cons_self)
    rw [stats_eq h hs st hiw, statsDone_eq h hi ht (hlo 1 (by decide) hr) hhi, List.range_succ,
      List.map_append, List.map_singleton, List.getLast?_concat]
    rfl
  kept s hs v x hx st w i hiw e he := by
    have hi := Kernel.Reachable.inv (c.aligned c.storage T) hs
    obtain ⟨t, kb, ht, rfl, -, hhi, -⟩ := act_clock [] hi hx
    rw [stats_eq h hs st hiw] at he
    obtain ⟨t', ht', rfl⟩ := List.mem_map.1 he
    have hle := statsDone_le h hi ht hhi w
    exact Nat.lt_succ_iff.1 ((List.mem_range.1 ht').trans_le hle)
  partials s hs warpM x tl hr warpN hN a ha := by
    have hi := Kernel.Reachable.inv (c.aligned c.storage T) hs
    obtain ⟨t, kb, ht, rfl, -, hhi, hlo⟩ := act_clock tl hi (hr ▸ List.mem_cons_self)
    have hv : (c.warp warpM warpN : ℕ) / c.warpsM = warpN := warpAt_div warpM.isLt warpN
    have hq : (c.warp warpM ⟨0, c.warpsN_pos⟩ : ℕ) / c.warpsM = 0 := warpAt_div warpM.isLt 0
    have hvq : (c.warp warpM warpN : ℕ) % c.warpsM =
        (c.warp warpM ⟨0, c.warpsN_pos⟩ : ℕ) % c.warpsM :=
      (warpAt_mod warpM.isLt _).trans (warpAt_mod warpM.isLt _).symm
    have h4 := (epilogue_lt_iff hi ht (by rw [rounds_eq h]; decide) _ (c.warp warpM warpN)).1
      (hlo 4 (by decide) hr)
    have hlt : (after t kb 3 : WithTop Site) < after t kb 4 :=
      WithTop.coe_lt_coe.2 ((after_lt ht ht).2 (.inr ⟨rfl, by omega⟩))
    refine partial_kept h hs ht (hv ▸ hN.ne') hq hvq (hlt.trans h4) (clock_of_head hr).le a ?_
    rwa [outCells_congr hvq, hv]
  stored s hs p x hx warpM a ha := out_of_store h hs hx (warpAt_div warpM.isLt 0) a ha
  once s hs w hw := (output_perm hs w hw).2
  complete row hrow col hcol := by
    obtain ⟨warpM, hM, hmem⟩ := mem_outCells_of_elem c.storage hrow hcol
    exact ⟨⟨warpM, hM⟩, hmem⟩

theorem reduction_safe_two : ReductionSafe
    ⟨64, 32, 32, 2, 2, by decide, by decide, by decide, by decide, by decide, by decide, by decide,
      by decide⟩ ⟨[1, 2], by decide⟩ :=
  reduction_safe _ (by decide) _

end Sm120.Flash.MMnNkN.Traits
