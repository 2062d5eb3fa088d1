import Sm120.Flash.Attention
import Sm120.Flash.Indexing
import Sm120.Flash.Sound

set_option linter.unusedSectionVars false

namespace Sm120.Flash.MMnNkN

open Lib Finset Function WarpGrid

namespace Call

section Cta

variable {c : Traits} {F : Type} [Field F] [LinearOrder F] {q : Call c F} {ids : List ℕ}
variable {e : Exec (Fin 127) (Fin c.kNWarps) Ring Bar Act (Memory c.kNWarps) Site Address
    (Num F) (Data c F)}
variable {x : Site}

def tileValue (q : Call c F) (id row d : ℕ) : F :=
  c.grid.attention q.exp2 q.scale (q.operands id) (q.kBlocks id * c.kBlockN)
    (q.qBlock id * c.kBlockM + row) d

theorem whole_eq_tileValue (hwm : c.wm = 1) (id wid i : ℕ) {lane r : ℕ} (hl : lane < 32)
    (hr : r < 2 * c.wm) :
    q.whole id wid lane r i = q.tileValue id (c.outRow wid lane r) (c.outCol wid lane i) := by
  have h0 : r / 2 = 0 := by omega
  have hrow : c.scoreRow wid lane r = c.outRow wid lane r := by
    rw [Traits.scoreRow_eq_outRow_iff c hl, hwm, h0]
    omega
  have hglobal : c.grid.globalRow (q.qBlock id) wid lane r =
      q.qBlock id * c.kBlockM + c.outRow wid lane r :=
    congrArg (q.qBlock id * c.kBlockM + ·) hrow
  rw [whole, hglobal]
  rfl

theorem idAt_mem {t kb : ℕ} (ht : (q.tiles ids).blocks[t]? = some kb) :
    idAt ids (site t 0) ∈ ids := by
  have hmap : (ids.map q.kBlocks)[t]? = some kb := ht
  rw [List.getElem?_map, Option.map_eq_some_iff] at hmap
  obtain ⟨id, hid, -⟩ := hmap
  have hidAt : idAt ids (site t 0) = id := by
    change (ids[t]?).getD 0 = id
    rw [hid, Option.getD_some]
  rw [hidAt]
  exact List.mem_of_getElem? hid

variable [IsStrictOrderedRing F]

/-- While a store may read the O tile, it holds the values of its tile. -/
theorem shared_of_store (h : 1 < c.warpsN) (hwm : c.wm = 1) (he : (q.dataflow ids).Reachable e)
    {p : Party (Fin 127) (Fin c.kNWarps)} (hx : (p, x) ∈ e.control.stores) :
    idAt ids x ∈ ids ∧ ∀ row < c.kBlockM, ∀ d < c.kHeadDim,
      e.data.shared (.inl (smemOffset c.kBlockM c.kHeadDim row d)) =
        some (.fin (q.tileValue (idAt ids x) row d)) := by
  have hh : (q.lockstep ids).Holds e := (sound h).holds he
  obtain ⟨-, hperm⟩ := output_perm he.control ⟨0, c.kNWarps_pos⟩ rfl
  have hmem :=
    hperm.mem_iff.1 (List.mem_append.2 (.inl (List.mem_append.2 (.inr (List.mem_map_of_mem hx)))))
  obtain ⟨t, kb, ht, hmem⟩ := mem_unroll.1 hmem
  obtain rfl : x = after t kb 8 := by simpa using hmem
  refine ⟨idAt_mem ht, fun row hrow d hd ↦ ?_⟩
  obtain ⟨wid, hw, lane, hl, r, hr, i, hi, rfl, rfl⟩ := exists_out (g := c.grid) hrow hd
  let w : Fin c.kNWarps := ⟨wid, hw.trans_le (Nat.le_mul_of_pos_right _ c.warpsN_pos)⟩
  have haddr : smemOffset c.kBlockM c.kHeadDim (c.outRow wid lane r) (c.outCol wid lane i) =
      c.outAddr 0 w lane r i := by
    rw [Traits.outAddr, Nat.zero_mul, Nat.zero_add]
  have hcell := Traits.out_of_store h he.control hx (w := w) (Nat.div_eq_of_lt hw) _
    (Traits.mem_outCells.2 ⟨lane, hl, r, hr, i, hi, rfl⟩)
  obtain ⟨v, hv, hval⟩ := hh.agree (.inl (c.outAddr 0 w lane r i)) (.inl (.out t w))
    (congrArg (Option.map Sum.inl) hcell)
  have hv' := hval lane hl r hr i hi rfl
  rw [whole_eq_tileValue hwm _ _ _ hl hr] at hv'
  change e.data.shared
    (.inl (smemOffset c.kBlockM c.kHeadDim (c.outRow wid lane r) (c.outCol wid lane i))) = _
  rw [haddr]
  exact hv.trans (congrArg some hv')

theorem sent_of_output (he : (q.dataflow ids).Reachable e) (hx : x ∈ e.control.memory.output) :
    c.outAddrs ⊆ e.sent x := by
  refine he.invariant (I := fun e ↦ ∀ x ∈ e.control.memory.output, c.outAddrs ⊆ e.sent x) ?_ ?_ x hx
  · intro x hx
    cases hx
  · intro e l e' he ih ht x hx
    have hmono := ht.sent_mono x
    have hold : x ∈ e.control.memory.output → c.outAddrs ⊆ e'.sent x :=
      fun hx ↦ (ih x hx).trans hmono
    cases ht with
    | @act a p y tl hr =>
      obtain ⟨w, rfl⟩ :=
        act_party (Kernel.Reachable.inv (c.aligned c.storage (q.tiles ids)) he.control) hr
      have hout : ((c.kernel c.storage (q.tiles ids)).acted (.warp w) y a e.control.memory).output =
          e.control.memory.output := (c.epilogue c.storage).output w y.tile a _
      exact hold (hout ▸ hx)
    | @stored p y hs hy =>
      rcases List.mem_append.1 hx with hx | hx
      · exact hold hx
      · rw [List.mem_singleton.1 hx]
        exact hy
    | _ => exact hold hx

theorem clock_of_store (h : 1 < c.warpsN) {T : Tiles} {s : CtaState c.kNWarps}
    (hs : (c.kernel c.storage T).Reachable s) {t kb : ℕ} (ht : T.blocks[t]? = some kb)
    {p : Party (Fin 127) (Fin c.kNWarps)} (hx : (p, after t kb 8) ∈ s.stores) :
    s.clock (.warp ⟨0, c.kNWarps_pos⟩) ≤ after t kb 9 := by
  obtain rfl : p = .warp ⟨0, c.kNWarps_pos⟩ := (output_perm hs ⟨0, c.kNWarps_pos⟩ rfl).1 _ hx
  obtain ⟨-, hdrain⟩ := Kernel.Reachable.store_window (c.aligned c.storage T) hs _ _ hx
  refine hdrain _ (mem_program_warp.2 ⟨t, kb, ht, ?_⟩) ((after_lt ht ht).2 (.inr ⟨rfl, by omega⟩))
  simp only [consumerBody, List.mem_append, List.mem_map]
  refine .inl (.inr ⟨(9, .drain), ?_, rfl⟩)
  change _ ∈ c.epilogueOps 0
  simp [Traits.epilogueOps, h, storeTile]

theorem sent_of_ended (h : 1 < c.warpsN) (he : (q.dataflow ids).Reachable e)
    {p : Party (Fin 127) (Fin c.kNWarps)} (hr : e.control.rest p = []) {id : ℕ} (hid : id ∈ ids) :
    ∃ x, idAt ids x = id ∧ c.outAddrs ⊆ e.sent x := by
  have hi := Kernel.Reachable.inv (c.aligned c.storage (q.tiles ids)) he.control
  let w : Fin c.kNWarps := ⟨0, c.kNWarps_pos⟩
  obtain ⟨t, hlt, rfl⟩ := List.mem_iff_getElem.1 hid
  have hget : ids[t]? = some ids[t] := List.getElem?_eq_getElem hlt
  have ht : (q.tiles ids).blocks[t]? = some (q.kBlocks ids[t]) := by
    change (ids.map q.kBlocks)[t]? = _
    rw [List.getElem?_map, hget, Option.map_some]
  have hclock : (after t (q.kBlocks ids[t]) 10 : WithTop Site) < e.control.clock (.warp w) := by
    rw [← tileBuffer_lt_iff hi ht p (.warp w), State.clock, hr]
    exact WithTop.coe_lt_top _
  have hle : ∀ {l}, l ≤ 10 → (after t (q.kBlocks ids[t]) l : WithTop Site) ≤
      after t (q.kBlocks ids[t]) 10 := fun hl ↦
    WithTop.coe_le_coe.2 (Site.le_iff.2 (.inr ⟨rfl, by omega⟩))
  refine ⟨after t (q.kBlocks ids[t]) 8, ?_, sent_of_output he ?_⟩
  · change (ids[t]?).getD 0 = _
    rw [hget, Option.getD_some]
  obtain ⟨hp, hperm⟩ := output_perm he.control w rfl
  have hmem :=
    hperm.mem_iff.2 (mem_unroll.2 ⟨t, _, ht,
      List.mem_singleton.2 (congrArg (after · _ 8) (Nat.zero_add t).symm)⟩)
  rcases List.mem_append.1 hmem with hmem | hmem
  · rcases List.mem_append.1 hmem with hmem | hmem
    · exact hmem
    · obtain ⟨⟨p', x⟩, hstore, rfl⟩ := List.mem_map.1 hmem
      exact absurd (clock_of_store h he.control ht hstore)
        (not_le.2 ((hle (by decide)).trans_lt hclock))
  · obtain ⟨op, -, hrest⟩ := mem_sites.1 hmem
    exact absurd (hi.clock_le hrest) (not_le.2 ((hle (by decide)).trans_lt hclock))

end Cta

section Grid

variable {c : Traits} {F : Type} [Field F] [LinearOrder F] (q : Call c F)

def ids (b : Fin q.launch.gridDim) : List ℕ := gridStride q.launch.gridDim q.launch.tilesNum b

abbrev ctas (b : Fin q.launch.gridDim) := q.dataflow (q.ids b)

def Inside (a : ℕ × ℕ × ℕ × ℕ) : Prop :=
  a.1 < q.problem.batch ∧ a.2.1 < q.problem.seqLen ∧ a.2.2.1 < q.problem.headNum ∧
  a.2.2.2 < c.kHeadDim

def ideal (a : ℕ × ℕ × ℕ × ℕ) : F :=
  c.grid.attention q.exp2 q.scale (q.problem.operands q.Q q.K q.V a.2.2.1 a.1) q.problem.seqLen
    a.2.1 a.2.2.2

/-- What a call does to O, whatever the order in which the parties of all CTAs act. -/
structure Executes (value : ℕ × ℕ × ℕ × ℕ → F) (O : Tensor (Num F)) : Prop where
  /-- once every CTA has finished, O has its values -/
  values : ∀ s, Blocks.Reachable q.ctas O s → (∀ b p, (s.exec b).control.rest p = []) →
    ∀ a, q.Inside a → s.outside a = .fin (value a)
  /-- a CTA that has finished has left its tiles in O, whatever the others do -/
  tiles : ∀ s, Blocks.Reachable q.ctas O s → ∀ b p, (s.exec b).control.rest p = [] →
    ∀ id ∈ q.ids b, ∀ a, q.launch.region id a → s.outside a = .fin (value a)
  /-- no other value is ever seen in O, and nothing else is written -/
  partials : ∀ s, Blocks.Reachable q.ctas O s → ∀ a,
    s.outside a = O a ∨ q.Inside a ∧ s.outside a = .fin (value a)
  progress : ∀ s, Blocks.Reachable q.ctas O s →
    (¬ ∀ b, Final c.storage (c.epilogue c.storage) (q.tiles (q.ids b)) (s.exec b).control) →
      ∃ b l t, s.fire q.ctas b l = some t
  bounded : ∀ ls s, (Blocks.init q.ctas O).run q.ctas ls = some s →
    ls.length ≤ (1 + (c.kBlockM + c.kBlockN) * c.kHeadDim + c.kBlockM * c.kHeadDim) *
      ∑ b, ∑ p, (((c.kernel c.storage (q.tiles (q.ids b))).program p).map
        (c.kernel c.storage (q.tiles (q.ids b))).cost).sum

variable {q}

theorem inside_of_region {b : Fin q.launch.gridDim} {id : ℕ} (hid : id ∈ q.ids b)
    {a : ℕ × ℕ × ℕ × ℕ} (ha : q.launch.region id a) : q.Inside a := by
  obtain ⟨hcoord, hd⟩ := ha
  obtain ⟨hq, hrest⟩ := Prod.mk.inj hcoord
  obtain ⟨hh, hb⟩ := Prod.mk.inj hrest
  have hlt : id < q.launch.tilesNum := ((mem_gridStride q.launch.gridDim_pos).1 hid).2.1
  rw [Launch.tilesNum, Nat.mul_assoc] at hlt
  have hpos := Nat.zero_lt_of_lt hlt
  have hmNum := Nat.pos_of_mul_pos_right hpos
  have hheads := Nat.pos_of_mul_pos_left (Nat.pos_of_mul_pos_left hpos)
  have hdiv : id / q.launch.mNum < q.problem.batch * q.problem.headNum := Nat.div_lt_of_lt_mul hlt
  refine ⟨?_, ?_, ?_, hd⟩
  · rw [← hb]
    exact Nat.div_lt_of_lt_mul (by rwa [Nat.mul_comm])
  · have hrow : a.2.1 / c.grid.kBlockM < q.launch.mNum := by
      rw [← hq]
      exact (Nat.sub_le _ _).trans_lt (Nat.sub_lt hmNum Nat.one_pos)
    rwa [Nat.div_lt_iff_lt_mul q.launch.kBlockM_pos, q.launch.mNum_mul] at hrow
  · rw [← hh]
    exact Nat.mod_lt _ hheads

theorem tileValue_eq_ideal {id : ℕ} {a : ℕ × ℕ × ℕ × ℕ} (ha : q.launch.region id a)
    (hr : a.2.1 < q.problem.seqLen) : q.tileValue id (a.2.1 % c.kBlockM) a.2.2.2 = q.ideal a := by
  have hcoord := ha.1
  have hq : q.qBlock id = a.2.1 / c.grid.kBlockM := congrArg Prod.fst hcoord
  have ho : q.operands id = q.problem.operands q.Q q.K q.V a.2.2.1 a.1 := by
    rw [operands, hcoord]
  have hrow : a.2.1 / c.grid.kBlockM * c.kBlockM + a.2.1 % c.kBlockM = a.2.1 :=
    Nat.div_add_mod' a.2.1 c.kBlockM
  rw [tileValue, kBlocks, hq, ho, hrow]
  exact attention_kBlocks q.exp2 q.scale q.launch _ rfl hr _

theorem exists_region {a : ℕ × ℕ × ℕ × ℕ} (ha : q.Inside a) :
    ∃ b, ∃ id ∈ q.ids b, q.launch.region id a := by
  obtain ⟨hb, hr, hh, hd⟩ := ha
  have hlt := Launch.tileOf_lt (l := q.launch) (d := a.2.2.2) hb hr hh
  have hmem := q.launch.ctaTiles_perm.mem_iff.2 (List.mem_range.2 hlt)
  obtain ⟨b, hbg, hid⟩ := List.mem_flatMap.1 hmem
  exact ⟨⟨b, List.mem_range.1 hbg⟩, _, hid, (Launch.region_iff (b := a.1) hr hh hd _).2 rfl⟩

variable {O : Tensor (Num F)}
variable {s : Blocks (Fin q.launch.gridDim) (Fin 127) (Fin c.kNWarps) Ring Bar Act
    (Memory c.kNWarps) Site Address
  (Num F) (Data c F) (Tensor (Num F))}

/-- O is its old self where nothing has gone out, and has its value where something has. -/
structure Written (q : Call c F) (O : Tensor (Num F))
    (s : Blocks (Fin q.launch.gridDim) (Fin 127) (Fin c.kNWarps) Ring Bar Act (Memory c.kNWarps)
      Site Address (Num F) (Data c F) (Tensor (Num F))) : Prop where
  values : ∀ a, s.outside a = O a ∨ q.Inside a ∧ s.outside a = .fin (q.ideal a)
  sent : ∀ b x a, idAt (q.ids b) x ∈ q.ids b → q.launch.region (idAt (q.ids b) x) a →
    .inl (smemOffset c.kBlockM c.kHeadDim (a.2.1 % c.kBlockM) a.2.2.2) ∈ (s.exec b).sent x →
      s.outside a = .fin (q.ideal a)

theorem written_init : Written q O (Blocks.init q.ctas O) where
  values _ := .inl rfl
  sent _ _ _ _ _ h := absurd h (notMem_empty _)

variable [IsStrictOrderedRing F]

theorem written_step (h : 1 < c.warpsN) (hwm : c.wm = 1) (hs : Blocks.Reachable q.ctas O s)
    (hw : Written q O s) {b : Fin q.launch.gridDim}
    {l : Event (Fin 127) (Fin c.kNWarps) Ring Site Address (Num F)}
    {e : Exec (Fin 127) (Fin c.kNWarps) Ring Bar Act (Memory c.kNWarps) Site Address (Num F)
    (Data c F)} (ht : (q.ctas b).Fired (s.exec b) l e) :
    Written q O ⟨update s.exec b e, (q.ctas b).leave l s.outside⟩ := by
  have hkeep : (q.ctas b).leave l s.outside = s.outside → e.sent = (s.exec b).sent →
      Written q O ⟨update s.exec b e, (q.ctas b).leave l s.outside⟩ := by
    intro hout hsent
    rw [hout]
    refine ⟨hw.values, fun b' x a hid ha hmem ↦ hw.sent b' x a hid ha ?_⟩
    by_cases hb : b' = b
    · subst hb
      dsimp only at hmem
      rwa [update_self, hsent] at hmem
    · dsimp only at hmem
      rwa [update_of_ne hb] at hmem
  cases ht with
  | @send p x y v hst hy hn hv =>
    obtain ⟨⟨row, d⟩, hrd, rfl⟩ := mem_image.1 hy
    rw [mem_product, mem_range, mem_range] at hrd
    obtain ⟨hid, hshared⟩ := shared_of_store h hwm (hs.exec b) hst
    have hval : v = .fin (q.tileValue (idAt (q.ids b) x) row d) :=
      Dataflow.shows_of_eq (hshared row hrd.1 d hrd.2) hv
    -- what is written is what is to be written there
    have hnew : ∀ a, q.launch.region (idAt (q.ids b) x) a →
        smemOffset c.kBlockM c.kHeadDim row d =
          smemOffset c.kBlockM c.kHeadDim (a.2.1 % c.kBlockM) a.2.2.2 →
          q.Inside a ∧ v = .fin (q.ideal a) := by
      intro a ha hadd
      have hin := inside_of_region hid ha
      obtain ⟨rfl, rfl⟩ := smemOffset_inj hrd.1 (Nat.mod_lt _ c.kBlockM_pos) hadd
      exact ⟨hin, hval.trans (congrArg Num.fin (tileValue_eq_ideal ha hin.2.1))⟩
    let O' : Tensor (Num F) :=
      (q.ctas b).leave (.send p x (.inl (smemOffset c.kBlockM c.kHeadDim row d)) v) s.outside
    have hO' : ∀ a, (q.Inside a ∧ O' a = .fin (q.ideal a)) ∨ O' a = s.outside a := by
      intro a
      by_cases hc : q.launch.region (idAt (q.ids b) x) a ∧
          (.inl (smemOffset c.kBlockM c.kHeadDim row d) : Address) =
            .inl (smemOffset c.kBlockM c.kHeadDim (a.2.1 % c.kBlockM) a.2.2.2)
      · obtain ⟨hin, hv⟩ := hnew a hc.1 (Sum.inl.inj hc.2)
        exact .inl ⟨hin, (if_pos hc).trans hv⟩
      · exact .inr (if_neg hc)
    have hold : ∀ a, s.outside a = .fin (q.ideal a) → O' a = .fin (q.ideal a) := fun a ha ↦
      (hO' a).elim And.right fun h ↦ h.trans ha
    change Written q O ⟨update s.exec b _, O'⟩
    constructor
    · intro a
      rcases hO' a with ha | ha
      · exact .inr ha
      · exact (hw.values a).imp ha.trans fun h ↦ ⟨h.1, ha.trans h.2⟩
    · intro b' x' a hid' ha hmem
      by_cases hb : b' = b
      · subst hb
        dsimp only at hmem
        rw [update_self] at hmem
        by_cases hx : x' = x
        · subst hx
          dsimp only at hmem
          rw [update_self, mem_insert] at hmem
          rcases hmem with hadd | hmem
          · have hc := hnew a ha (Sum.inl.inj hadd).symm
            exact (if_pos ⟨ha, hadd.symm⟩).trans hc.2
          · exact hold a (hw.sent b' x' a hid' ha hmem)
        · dsimp only at hmem
          rw [update_of_ne hx] at hmem
          exact hold a (hw.sent b' x' a hid' ha hmem)
      · dsimp only at hmem
        rw [update_of_ne hb] at hmem
        exact hold a (hw.sent b' x' a hid' ha hmem)
  | _ => exact hkeep rfl rfl

theorem written (h : 1 < c.warpsN) (hwm : c.wm = 1) (hs : Blocks.Reachable q.ctas O s) :
    Written q O s :=
  hs.invariant written_init fun _ _ _ _ hs hw ht ↦ written_step h hwm hs hw ht

theorem tile_of_ended (h : 1 < c.warpsN) (hwm : c.wm = 1) (hs : Blocks.Reachable q.ctas O s)
    {b : Fin q.launch.gridDim} {p : Party (Fin 127) (Fin c.kNWarps)}
    (hr : (s.exec b).control.rest p = []) {id : ℕ}
    (hid : id ∈ q.ids b) {a : ℕ × ℕ × ℕ × ℕ} (ha : q.launch.region id a) :
    s.outside a = .fin (q.ideal a) := by
  obtain ⟨x, rfl, hsent⟩ := sent_of_ended h (hs.exec b) hr hid
  refine (written h hwm hs).sent b x a hid ha (hsent ?_)
  exact mem_image.2 ⟨(a.2.1 % c.kBlockM, a.2.2.2),
    mem_product.2 ⟨mem_range.2 (Nat.mod_lt _ c.kBlockM_pos), mem_range.2 ha.2⟩, rfl⟩

end Grid

theorem card_needs_le {c : Traits} (w : Fin c.kNWarps) (r : Ring) (x : Site) (idx : ℕ) :
    (c.needs w r x idx).card ≤ (c.kBlockM + c.kBlockN) * c.kHeadDim := by
  have hrows : c.itemRows r x ≤ c.kBlockM + c.kBlockN := by
    unfold Traits.itemRows
    split
    · split_ifs <;> omega
    · omega
  have hsub : c.readRows w r x ⊆ range (c.itemRows r x) :=
    fun row h ↦ mem_range.2 (Traits.readRows_lt w.isLt h)
  refine card_image_le.trans ?_
  rw [card_product, card_range]
  refine Nat.mul_le_mul_right _ ((card_le_card hsub).trans ?_)
  rwa [card_range]

theorem card_outAddrs_le (c : Traits) : c.outAddrs.card ≤ c.kBlockM * c.kHeadDim := by
  refine card_image_le.trans ?_
  rw [card_product, card_range, card_range]

theorem executes_ideal {c : Traits} {F : Type} [Field F] [LinearOrder F] [IsStrictOrderedRing F]
    (h : 1 < c.warpsN) (hwm : c.wm = 1) (q : Call c F) (O : Tensor (Num F)) :
    q.Executes q.ideal O where
  values s hs hr a ha := by
    obtain ⟨b, id, hid, hreg⟩ := exists_region ha
    exact tile_of_ended h hwm hs (hr b .producer) hid hreg
  tiles s hs b p hr id hid a ha := tile_of_ended h hwm hs hr hid ha
  partials s hs a := (written h hwm hs).values a
  progress s hs hf := by
    push Not at hf
    obtain ⟨b, hb⟩ := hf
    exact ⟨b, Blocks.exists_fire (exists_step (hs.exec b).control hb)⟩
  bounded ls s hr := by
    refine Blocks.run_length_le (fun b ↦ c.aligned c.storage (q.tiles (q.ids b))) ?_ ?_ hr
    · intro b w r x idx
      exact card_needs_le w r x idx
    · intro b x
      exact card_outAddrs_le c

end Call

namespace Config

variable {headDim : ℕ}

noncomputable def call (c : Config headDim) {P : Problem} (l : Launch P c.traits.grid)
    (Q K V : Tensor ℝ) : Call c.traits ℝ where
  problem := P
  launch := l
  exp2 := Flash.exp2
  scale := softmaxScale headDim
  scale_pos := softmaxScale_pos c.traits.kHeadDim_pos
  Q := Q
  K := K
  V := V

theorem call_executes (c : Config headDim) (h : 1 < c.warpsN) {P : Problem}
    (l : Launch P c.traits.grid) (Q K V : Tensor ℝ) (O : Tensor (Num ℝ)) :
    (c.call l Q K V).Executes
      (fun a ↦ softmaxAttention P headDim Q K V a.1 a.2.1 a.2.2.1 a.2.2.2) O := by
  have hideal : (c.call l Q K V).ideal = fun a ↦
      softmaxAttention P headDim Q K V a.1 a.2.1 a.2.2.1 a.2.2.2 := by
    funext a
    exact attention_eq_softmaxAttention (g := c.traits.grid) Q K V a.1 a.2.1 a.2.2.1 a.2.2.2
  rw [← hideal]
  exact Call.executes_ideal h c.traits_wm _ O

/-- **A `v3_mMnNkN` kernel with more than one column of warps leaves attention in O, in whatever
order its threads act**, for a call that is accepted and whose indices are ints. -/
theorem forward_executes (c : Config headDim) (h : 1 < c.warpsN) {f : FixedShape c.traits.grid}
    (x : Flash.Call f) (hfits : x.Fits) (Q K V : Tensor ℝ) (O : Tensor (Num ℝ)) :
    IndexExact x ∧ (c.call x.launch Q K V).Executes
      (fun a ↦ softmaxAttention x.problem headDim Q K V a.1 a.2.1 a.2.2.1 a.2.2.2) O :=
  ⟨x.indexExact_of_fits hfits, c.call_executes h x.launch Q K V O⟩

def default128 : Flash.Call FixedShape.default64 where
  batch := 2
  seqLen := 128
  causal := true
  smNum := 3
  accepted := by decide
  smNum_pos := by decide

theorem forward_executes_default : IndexExact default128 ∧
    (default.call default128.launch (fun a ↦ a.1) (fun a ↦ a.2.1) fun a ↦ a.2.2.2).Executes
      (fun a ↦ softmaxAttention default128.problem 64 (fun a ↦ a.1) (fun a ↦ a.2.1)
        (fun a ↦ a.2.2.2) a.1 a.2.1 a.2.2.1 a.2.2.2) fun _ ↦ .undef :=
  forward_executes default (by decide) default128 ⟨by decide, by decide⟩ _ _ _ _

end Config

end Sm120.Flash.MMnNkN
