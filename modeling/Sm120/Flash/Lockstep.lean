import Sm120.Flash.Execution

set_option linter.unusedSectionVars false

namespace Sm120.Flash.MMnNkN

open Lib Finset Function WarpGrid

namespace Traits

variable {c : Traits}

section Addresses

theorem itemSize_eq (r : Ring) (x : Site) :
    itemSize c.storage r x = c.itemRows r x * c.kHeadDim := by
  cases r with
  | v => rfl
  | qk =>
    simp only [itemSize, itemRows]
    split_ifs <;> rfl

theorem itemAddr_inj {r : Ring} {x : Site} {idx row d row' d' : ℕ} (hr : row < c.itemRows r x)
    (hr' : row' < c.itemRows r x) (h : c.itemAddr r x idx row d = c.itemAddr r x idx row' d') :
    row = row' ∧ d = d' :=
  smemOffset_inj hr hr' (Nat.add_left_cancel h)

theorem mem_itemSpan {r : Ring} {x : Site} {idx a : ℕ} : a ∈ itemSpan c.storage r x idx ↔
    ∃ row < c.itemRows r x, ∃ d < c.kHeadDim, c.itemAddr r x idx row d = a := by
  have hinj : Set.InjOn (fun p : ℕ × ℕ ↦ c.itemAddr r x idx p.1 p.2)
      (range (c.itemRows r x) ×ˢ range c.kHeadDim : Finset (ℕ × ℕ)) := by
    intro p hp p' hp' h
    rw [mem_coe, mem_product, mem_range, mem_range] at hp hp'
    obtain ⟨h1, h2⟩ := itemAddr_inj hp.1 hp'.1 h
    exact Prod.ext h1 h2
  have himage : (range (c.itemRows r x) ×ˢ range c.kHeadDim).image
      (fun p ↦ c.itemAddr r x idx p.1 p.2) =
      itemSpan c.storage r x idx := by
    refine eq_of_subset_of_card_le ?_ ?_
    · intro a ha
      obtain ⟨p, hp, rfl⟩ := mem_image.1 ha
      rw [mem_product, mem_range, mem_range] at hp
      have hlt := smemOffset_lt c.kHeadDim_mod hp.1 hp.2
      rw [itemSpan_eq_Ico, itemSize_eq, mem_Ico, itemAddr]
      omega
    · rw [itemSpan_eq_Ico, itemSize_eq, Nat.card_Ico, card_image_of_injOn hinj, card_product,
        card_range, card_range]
      omega
  rw [← himage, mem_image]
  constructor
  · rintro ⟨p, hp, rfl⟩
    rw [mem_product, mem_range, mem_range] at hp
    exact ⟨p.1, hp.1, p.2, hp.2, rfl⟩
  · rintro ⟨row, hr, d, hd, rfl⟩
    exact ⟨(row, d), mem_product.2 ⟨mem_range.2 hr, mem_range.2 hd⟩, rfl⟩

theorem readRows_lt {wid : ℕ} (hw : wid < c.kNWarps) {r : Ring} {x : Site} {row : ℕ}
    (h : row ∈ c.readRows wid r x) : row < c.itemRows r x := by
  cases r with
  | v => exact WarpGrid.depths_lt (g := c.grid) hw h
  | qk =>
    simp only [readRows] at h
    simp only [itemRows]
    split_ifs at h ⊢
    · obtain ⟨⟨lane, r⟩, hp, rfl⟩ := mem_image.1 h
      rw [mem_product, mem_range, mem_range] at hp
      exact c.scoreRow_lt wid hp.1 hp.2
    · obtain ⟨⟨lane, j⟩, hp, rfl⟩ := mem_image.1 h
      rw [mem_product, mem_range, mem_range] at hp
      exact scoreCol_lt (g := c.grid) hw hp.2

theorem mem_needs {wid : ℕ} {r : Ring} {x : Site} {idx : ℕ} {a : Address} :
    a ∈ c.needs wid r x idx ↔
    ∃ row ∈ c.readRows wid r x, ∃ d < c.kHeadDim, a = .inl (c.itemAddr r x idx row d) := by
  rw [needs, mem_image]
  constructor
  · rintro ⟨p, hp, rfl⟩
    rw [mem_product, mem_range] at hp
    exact ⟨p.1, hp.1, p.2, hp.2, rfl⟩
  · rintro ⟨row, hr, d, hd, rfl⟩
    exact ⟨(row, d), mem_product.2 ⟨hr, mem_range.2 hd⟩, rfl⟩

theorem outAddr_inj {idx wid wid' lane r i lane' r' i' : ℕ} (hl : lane < 32) (hl' : lane' < 32)
    (hr : r < 2 * c.wm) (hr' : r' < 2 * c.wm)
    (h : c.outAddr idx wid lane r i = c.outAddr idx wid' lane' r' i') :
    wid % c.warpsM = wid' % c.warpsM ∧ lane = lane' ∧ r = r' ∧ i = i' := by
  obtain ⟨hrow, hcol⟩ :=
    smemOffset_inj (outRow_lt wid hl hr) (outRow_lt wid' hl' hr') (Nat.add_left_cancel h)
  exact out_inj (g := c.grid) hl hl' hrow hcol

theorem mem_outCells {wid idx a : ℕ} : a ∈ c.outCells c.storage wid idx ↔
    ∃ lane < 32, ∃ r < 2 * c.wm,
    ∃ i < 2 * (c.kHeadDim / 8), c.outAddr idx wid lane r i = a := by
  simp only [outCells, mem_image, mem_product, mem_range, Prod.exists]
  constructor
  · rintro ⟨lane, r, i, ⟨hl, hr, hi⟩, rfl⟩
    exact ⟨lane, hl, r, hr, i, hi, rfl⟩
  · rintro ⟨lane, hl, r, hr, i, hi, rfl⟩
    exact ⟨lane, r, i, ⟨hl, hr, hi⟩, rfl⟩

end Addresses

section Stores

variable {F : Type} [Field F] [LinearOrder F]

theorem oR2s_apply {wid idx lane r i : ℕ} (rO : ℕ → ℕ → ℕ → Num F) (m : Address → Option (Num F))
    (hl : lane < 32) (hr : r < 2 * c.wm) (hi : i < 2 * (c.kHeadDim / 8)) :
    c.oR2s wid idx rO m (.inl (c.outAddr idx wid lane r i)) = some (rO lane r i) := by
  have hmem : (lane, r, i) ∈ List.range 32 ×ˢ List.range (2 * c.wm) ×ˢ List.range
      (2 * (c.kHeadDim / 8)) := by
    simp only [List.mem_product, List.mem_range]
    exact ⟨hl, hr, hi⟩
  rw [oR2s, foldl_storeRegion_of_mem hmem]
  · rfl
  · rintro ⟨lane', r', i'⟩ hx h
    simp only [List.mem_product, List.mem_range] at hx
    obtain ⟨-, rfl, rfl, rfl⟩ := outAddr_inj hl hx.1 hr hx.2.1 (Sum.inl.inj h)
    rfl

theorem oR2s_of_notMem {wid idx : ℕ} (rO : ℕ → ℕ → ℕ → Num F) (m : Address → Option (Num F))
    {a : Address} (h : ∀ b ∈ c.outCells c.storage wid idx, a ≠ .inl b) :
    c.oR2s wid idx rO m a = m a := by
  rw [oR2s, foldl_storeRegion_of_notMem]
  rintro ⟨lane, r, i⟩ hx ha
  simp only [List.mem_product, List.mem_range] at hx
  exact h _ (mem_outCells.2 ⟨lane, hx.1, r, hx.2.1, i, hx.2.2, rfl⟩) ha

theorem mem_statsSlots_iff {wid i : ℕ} : i ∈ c.statsSlots wid ↔
    ∃ lane < 32, lane % 4 = 0 ∧ ∃ r < 2 * c.wm, c.statSlot wid lane r = i := mem_statsSlots

theorem statsWrite_apply {wid lane r : ℕ} (y : Warp F) (m : Address → Option (Num F)) (st : Stat)
    (hl : lane < 32) (hq : lane % 4 = 0) (hr : r < 2 * c.wm) :
    c.statsWrite wid y m (.inr (st, c.statSlot wid lane r)) = some (statOf y lane r st) := by
  have hmem : (st, lane, r) ∈ [Stat.rowMax, Stat.rowSum] ×ˢ List.range 32 ×ˢ List.range
      (2 * c.wm) := by
    have hst : st ∈ [Stat.rowMax, Stat.rowSum] := by cases st <;> simp
    exact List.pair_mem_product.2 ⟨hst,
      List.pair_mem_product.2 ⟨List.mem_range.2 hl, List.mem_range.2 hr⟩⟩
  rw [statsWrite, foldl_storeRegion_of_mem hmem ⟨hq, rfl⟩]
  rintro ⟨st', lane', r'⟩ hx ⟨hq', h⟩
  obtain ⟨-, hx⟩ := List.pair_mem_product.1 hx
  obtain ⟨hl', -⟩ := List.pair_mem_product.1 hx
  obtain ⟨rfl, h⟩ := Prod.mk.inj (Sum.inr.inj h)
  obtain ⟨rfl, rfl⟩ := statsRow_inj hl (List.mem_range.1 hl') hq hq' (Nat.add_left_cancel h)
  rfl

theorem statsWrite_of_notMem {wid : ℕ} (y : Warp F) (m : Address → Option (Num F)) {a : Address}
    (h : ∀ st, ∀ i ∈ c.statsSlots wid, a ≠ .inr (st, i)) : c.statsWrite wid y m a = m a := by
  rw [statsWrite, foldl_storeRegion_of_notMem]
  rintro ⟨st, lane, r⟩ hx ⟨hq, ha⟩
  obtain ⟨-, hx⟩ := List.pair_mem_product.1 hx
  obtain ⟨hl, hr⟩ := List.pair_mem_product.1 hx
  exact h st _ (mem_statsSlots_iff.2 ⟨lane, List.mem_range.1 hl, hq, r,
    List.mem_range.1 hr, rfl⟩) ha

end Stores

end Traits

namespace Call

variable {c : Traits} {F : Type} [Field F] [LinearOrder F] {q : Call c F} {ids : List ℕ}

theorem landed_apply (y : Copy Ring Site) (m : Address → Option (Num F)) {row d : ℕ}
    (hr : row < c.itemRows y.ring y.site) (hd : d < c.kHeadDim) :
    q.landed ids y m (.inl (c.itemAddr y.ring y.site y.slot row d)) =
      some (.fin (q.source ids y.ring y.site row d)) := by
  have hmem : (row, d) ∈ List.range (c.itemRows y.ring y.site) ×ˢ List.range c.kHeadDim :=
    List.pair_mem_product.2 ⟨List.mem_range.2 hr, List.mem_range.2 hd⟩
  rw [landed, foldl_storeRegion_of_mem hmem]
  · rfl
  · rintro ⟨row', d'⟩ hp h
    obtain ⟨hr', -⟩ := List.pair_mem_product.1 hp
    obtain ⟨rfl, rfl⟩ := Traits.itemAddr_inj hr (List.mem_range.1 hr') (Sum.inl.inj h)
    rfl

theorem landed_of_notMem (y : Copy Ring Site) (m : Address → Option (Num F)) {a : Address}
    (h : ∀ b ∈ itemSpan c.storage y.ring y.site y.slot, a ≠ .inl b) : q.landed ids y m a = m a := by
  rw [landed, foldl_storeRegion_of_notMem]
  rintro ⟨row, d⟩ hp ha
  obtain ⟨hr, hd⟩ := List.pair_mem_product.1 hp
  exact h _ (Traits.mem_itemSpan.2 ⟨row, List.mem_range.1 hr, d, List.mem_range.1 hd, rfl⟩) ha

theorem consume_same {wid : ℕ} (hw : wid < c.kNWarps) (r : Ring) (x : Site) {s s' : ℕ → ℕ → Num F}
    {y y' : Warp F} (hy : y.Same c.grid y') (hs : ∀ row ∈ c.readRows wid r x, ∀ d < c.kHeadDim,
    s row d = s' row d) :
    (q.consume ids wid r x s y).Same c.grid (q.consume ids wid r x s' y') := by
  cases r with
  | v =>
    refine hy.vRead hw hs ?_
    intro lane i hi
    exact Traits.outCol_lt wid lane hi
  | qk =>
    simp only [consume]
    simp only [Traits.readRows] at hs
    split_ifs at hs ⊢
    · refine hy.qRead fun lane hl r hr d hd ↦ hs _ (mem_image.2 ⟨(lane, r), ?_, rfl⟩) d hd
      exact mem_product.2 ⟨mem_range.2 hl, mem_range.2 hr⟩
    · refine hy.kRead _ _ _ fun lane hl j hj d hd ↦ hs _ (mem_image.2 ⟨(lane, j), ?_, rfl⟩) d hd
      exact mem_product.2 ⟨mem_range.2 hl, mem_range.2 hj⟩

section Lockstep

variable (q)

def loop (id : ℕ) : Consumer F :=
  c.grid.kLoop q.exp2 q.scale (q.operands id) (q.qBlock id) (q.kBlocks id)

def loopStat (id wid lane r : ℕ) : Stat → Num F
  | .rowMax => (q.loop id).rMax wid lane r
  | .rowSum => warpReduce (· + ·) (fun lane ↦ (q.loop id).rSum wid lane r) lane

/-- What a warp has after `normalize_stats`: its columns' share of the quotient. -/
def share (id wid lane r i : ℕ) : F :=
  let R := c.grid.globalRow (q.qBlock id) wid lane r
  (∑ p ∈ range (q.kBlocks id) ×ˢ range (8 * c.grid.wn),
      mass q.exp2 q.scale (c.grid.score (q.operands id) R (c.grid.column wid p)) *
        (q.operands id).V (c.grid.column wid p) (c.grid.outCol wid lane i)) /
    ∑ x ∈ range (q.kBlocks id * c.kBlockN), mass q.exp2 q.scale (c.grid.score (q.operands id) R x)

/-- What a warp of column 0 has after `reduce_o_warps_n`. -/
def whole (id wid lane r i : ℕ) : F :=
  c.grid.attention q.exp2 q.scale (q.operands id) (q.kBlocks id * c.kBlockN)
    (c.grid.globalRow (q.qBlock id) wid lane r) (c.grid.outCol wid lane i)

variable (ids)

def lockstep : Lockstep (q.dataflow ids) (Warp F) (Cell c.kNWarps ⊕ ℕ × Fin c.kNWarps) where
  view m := Sum.elim (fun a ↦ (m.qkv a).map .inl) fun p ↦ (m.stats p.1 p.2).getLast?.map .inr
  value
    | .inl (.load y), a, v => ∀ row < c.itemRows y.ring y.site, ∀ d < c.kHeadDim,
        a = .inl (c.itemAddr y.ring y.site y.slot row d) →
        v = .fin (q.source ids y.ring y.site row d)
    | .inl (.part t w), a, v => ∀ lane < 32, ∀ r < 2 * c.wm, ∀ i < 2 * (c.kHeadDim / 8),
        a = .inl (c.outAddr (w / c.warpsM - 1) w lane r i) →
        v = .fin (q.share (idAt ids (site t 0)) w lane r i)
    | .inl (.out t w), a, v => ∀ lane < 32, ∀ r < 2 * c.wm, ∀ i < 2 * (c.kHeadDim / 8),
        a = .inl (c.outAddr 0 w lane r i) → v = .fin (q.whole (idAt ids (site t 0)) w lane r i)
    | .inr (t, w), a, v => ∀ st, ∀ lane < 32, lane % 4 = 0 → ∀ r < 2 * c.wm,
        a = .inr (st, c.statSlot w lane r) → v = q.loopStat (idAt ids (site t 0)) w lane r st
  item r x idx a v :=
    ∀ row < c.itemRows r x, ∀ d < c.kHeadDim, a = .inl (c.itemAddr r x idx row d) →
    v = .fin (q.source ids r x row d)
  registers d w := (d.warp w).trim c.grid
  read w r x y := (q.consume ids w r x (fun row d ↦ .fin (q.source ids r x row d)) y).trim c.grid
  act w x e y :=
    match e with
    | .statsRead =>
      Warp.trim c.grid { y with rO := fun lane r i ↦ .fin (q.share (idAt ids x) w lane r i) }
    | .partialRead =>
      Warp.trim c.grid { y with rO := fun lane r i ↦ .fin (q.whole (idAt ids x) w lane r i) }
    | _ => y

variable {q} {ids}

theorem after_operandLoop (w : Fin c.kNWarps) (y : Warp F) (t kb : ℕ) :
    c.grid.After q.exp2 q.scale (q.operands (idAt ids (site t 0)))
      (q.qBlock (idAt ids (site t 0))) w kb
      ((operandLoop .read t kb).foldl ((q.lockstep ids).step w) y) := by
  induction kb with
  | zero => exact (after_qRead y).of_same (Warp.trim_same _ _)
  | succ kb ih =>
    have hsplit : operandLoop (.read : Ring → FlashOp) t (kb + 1) = operandLoop .read t kb ++
        [⟨site t (2 * kb + 1), .read .qk⟩, ⟨site t (2 * kb + 2), .read .v⟩] := by
      rw [operandLoop, List.range_succ, List.flatMap_append]
      rfl
    rw [hsplit, List.foldl_append]
    set y' := (operandLoop .read t kb).foldl ((q.lockstep ids).step w) y
    have hblock : blockOf (site t (2 * kb + 1)) = kb := by
      rw [blockOf, Site.line_site]
      omega
    have hblock' : blockOf (site t (2 * kb + 2)) = kb := by
      rw [blockOf, Site.line_site]
      omega
    have hK : q.consume ids w .qk (site t (2 * kb + 1))
        (fun row d ↦ .fin (q.source ids .qk (site t (2 * kb + 1)) row d)) y' =
        c.grid.kRead q.exp2 q.scale (q.operands (idAt ids (site t 0))).causal
          (q.qBlock (idAt ids (site t 0))) kb w
          (fun row d ↦ .fin (localTile c.kBlockN (q.operands (idAt ids (site t 0))).K kb row d))
            y' := by
      have hQ : isQ (site t (2 * kb + 1)) = false := by
        rw [isQ_site]
        simp
      simp only [consume, source, hQ, hblock]
      rfl
    have hV : ∀ z, q.consume ids w .v (site t (2 * kb + 2))
        (fun row d ↦ .fin (q.source ids .v (site t (2 * kb + 2)) row d)) z =
        c.grid.vRead w (fun row d ↦
          .fin (localTile c.kBlockN (q.operands (idAt ids (site t 0))).V kb row d)) z := by
      intro z
      simp only [consume, source, hblock']
      rfl
    have hstep : [(⟨site t (2 * kb + 1), .read .qk⟩ : Line), ⟨site t (2 * kb + 2), .read .v⟩].foldl
        ((q.lockstep ids).step w) y' =
        (c.grid.vRead w (fun row d ↦
          .fin (localTile c.kBlockN (q.operands (idAt ids (site t 0))).V kb row d))
          ((c.grid.kRead q.exp2 q.scale (q.operands (idAt ids (site t 0))).causal
            (q.qBlock (idAt ids (site t 0)))
            kb w (fun row d ↦
              .fin (localTile c.kBlockN (q.operands (idAt ids (site t 0))).K kb row d)) y').trim
              c.grid)).trim c.grid := by
      rw [← hK, ← hV]
      rfl
    rw [hstep]
    exact (ih.step w.isLt (Warp.trim_same _ _)).of_same (Warp.trim_same _ _)

theorem filter_lt_append {α : Type} {l : List (ℕ × α)} (hl : l.Pairwise fun a b ↦ a.1 < b.1)
    {x : ℕ × α} (hx : x ∈ l) : ∃ tl, l = l.filter (·.1 < x.1) ++ x :: tl := by
  obtain ⟨pre, tl, rfl⟩ := List.append_of_mem hx
  rw [List.pairwise_append, List.pairwise_cons] at hl
  obtain ⟨-, ⟨htl, -⟩, hpre⟩ := hl
  refine ⟨tl, ?_⟩
  have h1 : pre.filter (·.1 < x.1) = pre := List.filter_eq_self.2 fun a ha ↦ by
    simpa using hpre a ha x List.mem_cons_self
  have h2 : tl.filter (·.1 < x.1) = [] := List.filter_eq_nil_iff.2 fun a ha ↦ by
    simpa using (htl a ha).le
  rw [List.filter_append, h1, List.filter_cons_of_neg (by simp), h2, List.append_nil]

theorem past_of_act {T : Tiles} {w : Fin c.kNWarps} {t kb : ℕ} (ht : T.blocks[t]? = some kb)
    {e : Act} (ho : (e.line, .act e) ∈ c.epilogueOps w) {past tl : List Line}
    (hp : (c.kernel c.storage T).program (.warp w) = past ++ ⟨after t kb e.line, .act e⟩ :: tl) :
    ∃ before, past = before ++ (operandLoop .read t kb ++
      ((c.epilogueOps w).filter (·.1 < e.line)).map fun o ↦ ⟨after t kb o.1, o.2⟩) := by
  obtain ⟨hlt, hget⟩ := List.getElem?_eq_some_iff.1 ht
  have hblocks : T.blocks = T.blocks.take t ++ kb :: T.blocks.drop (t + 1) := by
    rw [← hget, List.cons_getElem_drop_succ, List.take_append_drop]
  have hlen : 0 + (T.blocks.take t).length = t := by
    rw [List.length_take]
    omega
  obtain ⟨rest, hops⟩ := filter_lt_append ((c.epilogue c.storage).sorted w) ho
  have hbody : consumerBody (c.epilogueOps w) t kb = (operandLoop .read t kb ++
      ((c.epilogueOps w).filter (·.1 < e.line)).map fun o ↦ ⟨after t kb o.1, o.2⟩) ++
        ⟨after t kb e.line, .act e⟩ ::
          ((rest.map fun o ↦ ⟨after t kb o.1, o.2⟩) ++ [tileBufferSync t kb]) := by
    have hmap := congrArg (fun l : List (ℕ × FlashOp) ↦ operandLoop .read t kb ++
      (l.map fun o ↦ ⟨after t kb o.1, o.2⟩) ++ [tileBufferSync t kb]) hops
    refine (show consumerBody (c.epilogueOps w) t kb = _ from hmap).trans ?_
    simp only [List.map_append, List.map_cons, List.append_assoc, List.cons_append]
    rfl
  have hprogram : (c.kernel c.storage T).program (.warp w) =
      unroll (consumerBody (c.epilogueOps w)) 0 (T.blocks.take t) ++
      (consumerBody (c.epilogueOps w) t kb ++ unroll (consumerBody (c.epilogueOps w)) (t + 1)
        (T.blocks.drop (t + 1))) := by
    change unroll (consumerBody (c.epilogueOps w)) 0 T.blocks = _
    conv_lhs => rw [hblocks, unroll_append, unroll_cons, hlen]
  rw [hbody] at hprogram
  have hnd : ((c.kernel c.storage T).program (.warp w)).Nodup :=
    ((c.aligned c.storage T).sorted (.warp w)).imp fun h he ↦ absurd (he ▸ h) (lt_irrefl _)
  have hsplit : ∃ tl', (c.kernel c.storage T).program (.warp w) =
      (unroll (consumerBody (c.epilogueOps w)) 0 (T.blocks.take t) ++ (operandLoop .read t kb ++
        ((c.epilogueOps w).filter (·.1 < e.line)).map fun o ↦ ⟨after t kb o.1, o.2⟩)) ++
          ⟨after t kb e.line, .act e⟩ :: tl' := by
    rw [hprogram]
    simp only [List.append_assoc, List.cons_append]
    exact ⟨_, rfl⟩
  obtain ⟨tl', hsplit⟩ := hsplit
  exact ⟨_, past_unique hnd hp hsplit⟩

def opsBefore : Act → List (ℕ × FlashOp)
  | .statsWrite => []
  | .statsRead => [(0, .act .statsWrite), (1, .sync .epilogue)]
  | .partialWrite => [(0, .act .statsWrite), (1, .sync .epilogue), (2, .act .statsRead)]
  | .partialRead =>
    [(0, .act .statsWrite), (1, .sync .epilogue), (2, .act .statsRead), (4, .sync .epilogue)]
  | .outWrite =>
    [(0, .act .statsWrite), (1, .sync .epilogue), (2, .act .statsRead), (4, .sync .epilogue),
      (5, .act .partialRead)]

theorem filter_epilogueOps (h : 1 < c.warpsN) {w : ℕ} {a : Act}
    (ho : (a.line, .act a) ∈ c.epilogueOps w) :
    (c.epilogueOps w).filter (·.1 < a.line) = opsBefore a := by
  obtain ⟨hpart, hout⟩ := (Traits.mem_epilogueOps h).1 ho
  rw [Traits.epilogueOps, if_pos h]
  cases a with
  | partialWrite =>
    rw [if_pos (Nat.pos_of_ne_zero (hpart rfl)), if_neg (hpart rfl)]
    unfold storeTile
    split_ifs <;> rfl
  | partialRead | outWrite =>
    rw [if_neg (by rw [hout (by simp)]; exact Nat.lt_irrefl 0), if_pos (hout (by simp))]
    unfold storeTile
    split_ifs <;> rfl
  | statsWrite | statsRead =>
    unfold storeTile
    split_ifs <;> rfl

section Registers

variable {e : Exec (Fin 127) (Fin c.kNWarps) Ring Bar Act (Memory c.kNWarps) Site Address
    (Num F) (Data c F)}

theorem registers_of_act (h : 1 < c.warpsN)
    (hs : (c.kernel c.storage (q.tiles ids)).Reachable e.control) (hf : (q.lockstep ids).Follows e)
    {w : Fin c.kNWarps} {x : Site} {a : Act} {tl : List Line}
    (hr : e.control.rest (.warp w) = ⟨x, .act a⟩ :: tl) :
    ∃ y, c.grid.After q.exp2 q.scale (q.operands (idAt ids x)) (q.qBlock (idAt ids x)) w
        (q.kBlocks (idAt ids x)) y ∧
      (e.data.warp w).trim c.grid =
        match a with
        | .statsWrite | .statsRead => y
        | .partialWrite | .partialRead =>
          Warp.trim c.grid { y with rO := fun lane r i ↦ .fin (q.share (idAt ids x) w lane r i) }
        | .outWrite => Warp.trim c.grid
          { Warp.trim c.grid
            { y with rO := fun lane r i ↦ .fin (q.share (idAt ids x) w lane r i) } with
            rO := fun lane r i ↦ .fin (q.whole (idAt ids x) w lane r i) } := by
  have hi := Kernel.Reachable.inv (c.aligned c.storage (q.tiles ids)) hs
  obtain ⟨t, kb, ht, ho, rfl⟩ :=
    mem_program_act.1 ((hi.suffix (.warp w)).subset (hr ▸ List.mem_cons_self))
  obtain ⟨past, hp, hreg⟩ := hf w
  rw [hr] at hp
  obtain ⟨before, rfl⟩ := past_of_act ht ho hp
  have hkb : kb = q.kBlocks (idAt ids (site t 0)) := by
    have hmap : (ids.map q.kBlocks)[t]? = some kb := ht
    rw [List.getElem?_map, Option.map_eq_some_iff] at hmap
    obtain ⟨id, hid, rfl⟩ := hmap
    have hidAt : idAt ids (site t 0) = id := by
      change (ids[t]?).getD 0 = id
      rw [hid, Option.getD_some]
    rw [hidAt]
  refine ⟨(operandLoop .read t kb).foldl ((q.lockstep ids).step w)
    (before.foldl ((q.lockstep ids).step w) ((q.lockstep ids).registers (q.dataflow ids).data w)),
    ?_, ?_⟩
  · have hkb' : q.kBlocks (idAt ids (after t kb a.line)) = kb := hkb.symm
    rw [hkb']
    exact after_operandLoop w _ t kb
  · have htrim : (e.data.warp w).trim c.grid = (q.lockstep ids).registers e.data w := rfl
    rw [htrim, hreg, List.foldl_append, List.foldl_append, filter_epilogueOps h ho]
    cases a <;> rfl

variable (h : 1 < c.warpsN) (hs : (c.kernel c.storage (q.tiles ids)).Reachable e.control)
variable (hf : (q.lockstep ids).Follows e) {w : Fin c.kNWarps} {x : Site} {tl : List Line}

include h hs hf

theorem after_of_act {a : Act} (hr : e.control.rest (.warp w) = ⟨x, .act a⟩ :: tl)
    (ha : a = .statsWrite ∨ a = .statsRead) :
    c.grid.Same w (e.data.warp w).consumer (q.loop (idAt ids x)) := by
  obtain ⟨y, hy, htrim⟩ := registers_of_act h hs hf hr
  have hsame : (e.data.warp w).trim c.grid = y := by rcases ha with rfl | rfl <;> exact htrim
  have hafter := hy.of_same (hsame ▸ (Warp.trim_same c.grid (e.data.warp w)).symm)
  exact hafter.loop

theorem share_of_act {a : Act} (hr : e.control.rest (.warp w) = ⟨x, .act a⟩ :: tl)
    (ha : a = .partialWrite ∨ a = .partialRead) {lane r i : ℕ} (hl : lane < 32) (hr' : r < 2 * c.wm)
    (hi : i < 2 * (c.kHeadDim / 8)) : (e.data.warp w).rO lane r i =
      .fin (q.share (idAt ids x) w lane r i) := by
  obtain ⟨y, -, htrim⟩ := registers_of_act h hs hf hr
  have hsame : (e.data.warp w).trim c.grid =
      Warp.trim c.grid { y with rO := fun lane r i ↦ .fin (q.share (idAt ids x) w lane r i) } := by
    rcases ha with rfl | rfl <;> exact htrim
  have h1 := (Warp.trim_same c.grid (e.data.warp w)).symm.rO lane hl r hr' i hi
  rw [h1, hsame]
  exact (Warp.trim_same c.grid _).rO lane hl r hr' i hi

theorem whole_of_act (hr : e.control.rest (.warp w) = ⟨x, .act .outWrite⟩ :: tl) {lane r i : ℕ}
    (hl : lane < 32) (hr' : r < 2 * c.wm) (hi : i < 2 * (c.kHeadDim / 8)) :
    (e.data.warp w).rO lane r i = .fin (q.whole (idAt ids x) w lane r i) := by
  obtain ⟨y, -, htrim⟩ := registers_of_act h hs hf hr
  have h1 := (Warp.trim_same c.grid (e.data.warp w)).symm.rO lane hl r hr' i hi
  rw [h1, htrim]
  exact (Warp.trim_same c.grid _).rO lane hl r hr' i hi

end Registers

section Agree

variable {m : Memory c.kNWarps} {d : Data c F}

theorem agree_issued (r : Ring) (x : Site) (idx : ℕ) (h : (q.lockstep ids).Agree m d) :
    (q.lockstep ids).Agree ((c.kernel c.storage (q.tiles ids)).issued r x idx m)
      ((q.dataflow ids).issued r x idx d) := by
  intro a tag hc
  cases a with
  | inr a => exact h (.inr a) tag hc
  | inl a =>
    obtain ⟨y, hy, rfl⟩ := Option.map_eq_some_iff.1 hc
    by_cases ha : a ∈ itemSpan c.storage r x idx
    · have hnone : clear (itemSpan c.storage r x idx) m.qkv a = none := if_pos ha
      cases hnone.symm.trans hy
    · have hm : m.qkv a = some y := (clear_of_notMem ha).symm.trans hy
      have hd : ((q.dataflow ids).issued r x idx d).shared (.inl a) = d.shared (.inl a) :=
        clear_of_notMem ha
      obtain ⟨v, hv, hval⟩ := h (.inl a) (.inl y) (congrArg (Option.map Sum.inl) hm)
      exact ⟨v, hd.trans hv, hval⟩

theorem view_fill (q : Call c F) (ids : List ℕ) (m m' : Memory c.kNWarps) {span : Finset ℕ}
    {y : Cell c.kNWarps} (hq : m'.qkv = fill span y m.qkv) (hst : m'.stats = m.stats)
    (a : Address) : (∃ b ∈ span, a = .inl b ∧ (q.lockstep ids).view m' a = some (.inl y)) ∨
      (∀ b ∈ span, a ≠ .inl b) ∧ (q.lockstep ids).view m' a = (q.lockstep ids).view m a := by
  have hview : (q.lockstep ids).view m' =
      Sum.elim (fun a ↦ (m'.qkv a).map .inl) fun p ↦ (m'.stats p.1 p.2).getLast?.map .inr := rfl
  rw [hview, hq, hst]
  cases a with
  | inr p => exact .inr ⟨fun b _ ↦ Sum.inr_ne_inl, rfl⟩
  | inl a =>
    by_cases ha : a ∈ span
    · refine .inl ⟨a, ha, rfl, ?_⟩
      exact congrArg (Option.map Sum.inl) (fill_of_mem ha)
    · refine .inr ⟨fun b hb hab ↦ ha (Sum.inl.inj hab ▸ hb), ?_⟩
      exact congrArg (Option.map Sum.inl) (fill_of_notMem ha)

theorem agree_landed (y : Copy Ring Site) (h : (q.lockstep ids).Agree m d) :
    (q.lockstep ids).Agree ((c.kernel c.storage (q.tiles ids)).landed y m)
      ((q.dataflow ids).landed y d) := by
  intro a tag hc
  rcases q.view_fill ids m ((c.kernel c.storage (q.tiles ids)).landed y m) rfl rfl a with ⟨b, hb,
    rfl, hv⟩ | ⟨ha, hv⟩
  · obtain ⟨row, hr, k, hk, rfl⟩ := Traits.mem_itemSpan.1 hb
    obtain rfl := Option.some.inj (hv.symm.trans hc)
    refine ⟨_, landed_apply y d.shared hr hk, fun row' hr' k' _ hadd ↦ ?_⟩
    obtain ⟨rfl, rfl⟩ := Traits.itemAddr_inj hr hr' (Sum.inl.inj hadd)
    rfl
  · obtain ⟨v, hs, hval⟩ := h a tag (hv.symm.trans hc)
    exact ⟨v, (landed_of_notMem y d.shared ha).trans hs, hval⟩

theorem agree_oR2s {w : Fin c.kNWarps} {idx : ℕ} {y : Cell c.kNWarps} {rO : ℕ → ℕ → ℕ → Num F}
    (h : (q.lockstep ids).Agree m d)
    (hval : ∀ lane < 32, ∀ r < 2 * c.wm, ∀ i < 2 * (c.kHeadDim / 8),
      (q.lockstep ids).value (.inl y) (.inl (c.outAddr idx w lane r i)) (rO lane r i)) :
    (q.lockstep ids).Agree { m with qkv := fill (c.outCells c.storage w idx) y m.qkv }
      { d with shared := c.oR2s w idx rO d.shared } := by
  intro a tag hc
  rcases q.view_fill ids m { m with qkv := fill (c.outCells c.storage w idx) y m.qkv }
    rfl rfl a with ⟨b, hb, rfl, hv⟩ | ⟨ha, hv⟩
  · obtain ⟨lane, hl, r, hr, i, hi, rfl⟩ := Traits.mem_outCells.1 hb
    obtain rfl := Option.some.inj (hv.symm.trans hc)
    exact ⟨_, Traits.oR2s_apply rO d.shared hl hr hi, hval lane hl r hr i hi⟩
  · obtain ⟨v, hs, hv'⟩ := h a tag (hv.symm.trans hc)
    exact ⟨v, (Traits.oR2s_of_notMem rO d.shared ha).trans hs, hv'⟩

theorem agree_statsWrite {w : Fin c.kNWarps} {t : ℕ} (h : (q.lockstep ids).Agree m d)
    (hval : ∀ st, ∀ lane < 32, ∀ r < 2 * c.wm,
      Traits.statOf (d.warp w) lane r st = q.loopStat (idAt ids (site t 0)) w lane r st) :
    (q.lockstep ids).Agree (c.epilogueActed c.storage w t .statsWrite m)
      { d with shared := c.statsWrite w (d.warp w) d.shared } := by
  intro a tag hc
  cases a with
  | inl a =>
    obtain ⟨v, hv, hval⟩ := h (.inl a) tag hc
    exact ⟨v, (Traits.statsWrite_of_notMem _ _ fun _ _ _ ↦ Sum.inl_ne_inr).trans hv, hval⟩
  | inr p =>
    obtain ⟨st, i⟩ := p
    have hlog : ((m.stats st i ++ List.replicate ((c.statsSlots w).count i) (t, w)).getLast?).map
        Sum.inr = some tag := hc
    by_cases hi : i ∈ c.statsSlots w
    · rw [List.count_eq_one_of_mem (Traits.statsSlots_nodup _) hi, List.replicate_one,
        List.getLast?_concat, Option.map_some, Option.some.injEq] at hlog
      obtain ⟨lane, hl, hq, r, hr, rfl⟩ := Traits.mem_statsSlots_iff.1 hi
      subst hlog
      refine ⟨_, Traits.statsWrite_apply (d.warp w) d.shared st hl hq hr, ?_⟩
      intro st' lane' hl' hq' r' hr' hadd
      obtain ⟨rfl, hslot⟩ := Prod.mk.inj (Sum.inr.inj hadd)
      obtain ⟨rfl, rfl⟩ := Traits.statsRow_inj hl hl' hq hq' (Nat.add_left_cancel hslot)
      exact hval st lane hl r hr
    · rw [List.count_eq_zero_of_not_mem hi, List.replicate_zero, List.append_nil] at hlog
      obtain ⟨v, hv, hval⟩ := h (.inr (st, i)) tag hlog
      refine ⟨v, (Traits.statsWrite_of_notMem _ _ fun st' j hj hadd ↦ hi ?_).trans hv, hval⟩
      rw [(Prod.mk.inj (Sum.inr.inj hadd)).2]
      exact hj

end Agree

end Lockstep

end Call

end Sm120.Flash.MMnNkN
