import Sm120.Flash.Lockstep

set_option linter.unusedSectionVars false

namespace Sm120.Flash.MMnNkN

open Lib Finset Function WarpGrid

namespace Traits

variable {c : Traits} {T : Tiles} {s : CtaState c.kNWarps} {x : Site} {tl : List Line}

/-- A warp behind the first barrier of the epilogue finds no item in the rings. -/
theorem not_live_of_act (h : 1 < c.warpsN) (hs : (c.kernel c.storage T).Reachable s)
    {w : Fin c.kNWarps} {e : Act} (hr : s.rest (.warp w) = ⟨x, .act e⟩ :: tl) (he : 1 < e.line)
    {r : Ring} {j : ℕ} {y : Site} (hy : (T.items r)[j]? = some y) :
    ¬ (c.aligned c.storage T).live s r j := by
  have hi := Kernel.Reachable.inv (c.aligned c.storage T) hs
  obtain ⟨t, kb, ht, rfl, -, hhi, hlo⟩ := act_clock tl hi (hr ▸ List.mem_cons_self)
  rintro ⟨hj, v, hv⟩
  have hp : s.clock .producer ≤ after t kb 10 := by
    rw [← not_lt, tileBuffer_lt_iff hi ht _ (.warp w), not_lt]
    exact hhi
  have hle := (((hi.lt_total_iff hy).1 hj).trans_le hp).le
  have hlt :=
    item_lt_after ht (List.mem_of_getElem? hy) (tile_le_of_le_after (WithTop.coe_le_coe.1 hle))
  have hclock := (epilogue_lt_iff hi ht (by rw [rounds_eq h]; decide) w v).1 (hlo 1 he hr)
  have h01 : (after t kb 0 : WithTop Site) < after t kb 1 :=
    WithTop.coe_lt_coe.2 ((after_lt ht ht).2 (.inr ⟨rfl, Nat.zero_lt_one⟩))
  have hrel := (hi.lt_released_iff v hy).2 ((WithTop.coe_lt_coe.2 hlt).trans (h01.trans hclock))
  omega

/-- The O tiles never cover an item that is in a ring. -/
theorem qkv_of_live (h : 1 < c.warpsN) (hs : (c.kernel c.storage T).Reachable s) :
    ∀ r j y, (T.items r)[j]? = some y → (c.aligned c.storage T).live s r j →
      ∀ a ∈ itemSpan c.storage r y (j % (c.kernel c.storage T).stages r), ∀ d,
      s.memory.operand a = some d →
        s.memory.qkv a = some (.load d) := by
  refine hs.invariant (I := fun s ↦ ∀ r j y, (T.items r)[j]? = some y →
    (c.aligned c.storage T).live s r j →
      ∀ a ∈ itemSpan c.storage r y (j % (c.kernel c.storage T).stages r), ∀ d,
      s.memory.operand a = some d →
        s.memory.qkv a = some (.load d)) ?_ ?_
  · intro r j y _ _ a _ d hd
    cases hd
  · intro s l s' hs ih ht r j y hy hl a ha d hd
    have hi := Kernel.Reachable.inv (c.aligned c.storage T) hs
    have hlive : j < s.total r → (c.aligned c.storage T).live s r j := fun hj ↦
      ⟨hj, hl.2.imp fun w hw ↦ (Operands.released_le_of_fired ht r w).trans hw⟩
    cases ht with
    | @load r₀ x₀ tl hr hg =>
      have hspan : a ∉ itemSpan c.storage r₀ x₀ (s.producer r₀).index := by
        intro ha
        have hnone : (s.load (c.kernel c.storage T) r₀ x₀).memory.operand a = none := if_pos ha
        cases hnone.symm.trans hd
      have hop : (s.load (c.kernel c.storage T) r₀ x₀).memory.operand a = s.memory.operand a :=
        clear_of_notMem hspan
      have hqkv : (s.load (c.kernel c.storage T) r₀ x₀).memory.qkv a = s.memory.qkv a :=
        clear_of_notMem hspan
      rw [hqkv]
      refine ih r j y hy (hlive ?_) a ha d (hop.symm.trans hd)
      by_contra hj
      -- otherwise the item is the one just issued, and nothing is certain of its slot
      obtain ⟨hx₀, -⟩ := hi.load_head hr
      have hlt := hl.1
      by_cases hr₀ : r = r₀
      · subst hr₀
        have hj' : j = s.total r := by
          have : j < s.total r + 1 := by simpa [State.load] using hlt
          omega
        subst hj'
        obtain rfl := Option.some_injective _ (hy.symm.trans hx₀)
        rw [hi.producer_eq] at hspan
        exact hspan ha
      · exact hj (by simpa [State.load, hr₀] using hlt)
    | @land y₀ hc =>
      by_cases ha₀ : a ∈ itemSpan c.storage y₀.ring y₀.site y₀.slot
      · have hop : fill (itemSpan c.storage y₀.ring y₀.site y₀.slot) y₀ s.memory.operand a =
            some y₀ := fill_of_mem ha₀
        obtain rfl := Option.some.inj (hop.symm.trans hd)
        exact fill_of_mem ha₀
      · have hop : s.memory.operand a = some d := (fill_of_notMem ha₀).symm.trans hd
        exact (fill_of_notMem ha₀).trans (ih r j y hy (hlive hl.1) a ha d hop)
    | @act e p x tl hr =>
      obtain ⟨w, rfl⟩ := act_party hi hr
      have hold := ih r j y hy (hlive hl.1) a ha d
      cases e with
      | partialWrite | outWrite =>
        exact absurd (hlive hl.1) (not_live_of_act h hs hr (by decide) hy)
      | statsWrite | statsRead | partialRead => exact hold hd
    | _ => exact ih r j y hy (hlive hl.1) a ha d hd

theorem stats_ready (h : 1 < c.warpsN) (hs : (c.kernel c.storage T).Reachable s) {v : Fin c.kNWarps}
    (hr : s.rest (.warp v) = ⟨x, .act .statsRead⟩ :: tl) (st : Stat) {w : Fin c.kNWarps} {i : ℕ}
    (hiw : i ∈ c.statsSlots w) : (s.memory.stats st i).getLast? = some (x.tile, w) := by
  have hi := Kernel.Reachable.inv (c.aligned c.storage T) hs
  obtain ⟨t, kb, ht, rfl, -, hhi, hlo⟩ := act_clock tl hi (hr ▸ List.mem_cons_self)
  rw [stats_eq h hs st hiw, statsDone_eq h hi ht (hlo 1 (by decide) hr) hhi, List.range_succ,
    List.map_append, List.map_singleton, List.getLast?_concat]
  rfl

theorem partials_ready (h : 1 < c.warpsN) (hs : (c.kernel c.storage T).Reachable s)
    {w v : Fin c.kNWarps} (hr : s.rest (.warp w) = ⟨x, .act .partialRead⟩ :: tl)
    (hv : v / c.warpsM ≠ 0) (hvw : v % c.warpsM = w % c.warpsM) :
    ∀ a ∈ c.outCells c.storage v (v / c.warpsM - 1), s.memory.qkv a = some (.part x.tile v) := by
  have hi := Kernel.Reachable.inv (c.aligned c.storage T) hs
  obtain ⟨t, kb, ht, rfl, ho, -, hlo⟩ := act_clock tl hi (hr ▸ List.mem_cons_self)
  have hw : w / c.warpsM = 0 := ((mem_epilogueOps h).1 ho).2 (.inl rfl)
  have h4 := (epilogue_lt_iff hi ht (by rw [rounds_eq h]; decide) w v).1 (hlo 4 (by decide) hr)
  have hlt : (after t kb 3 : WithTop Site) < after t kb 4 :=
    WithTop.coe_lt_coe.2 ((after_lt ht ht).2 (.inr ⟨rfl, by omega⟩))
  exact partial_kept h hs ht hv hw hvw (hlt.trans h4) (clock_of_head hr).le

end Traits

namespace Call

variable {c : Traits} {F : Type} [Field F] [LinearOrder F] {q : Call c F} {ids : List ℕ}
variable {e : Exec (Fin 127) (Fin c.kNWarps) Ring Bar Act (Memory c.kNWarps) Site Address
    (Num F) (Data c F)}
variable {w : Fin c.kNWarps} {x : Site} {tl : List Line}

theorem reading_item (h : 1 < c.warpsN) {s : CtaState c.kNWarps}
    (hs : (c.kernel c.storage (q.tiles ids)).Reachable s) {r : Ring}
    (hr : s.rest (.warp w) = ⟨x, .read r⟩ :: tl) (hb : s.busy (.warp w) = true) {a : Address}
    (ha : a ∈ c.needs w r x (s.consumer w r).index) :
    ∃ tag, (q.lockstep ids).view s.memory a = some tag ∧ ∀ v, (q.lockstep ids).value tag a v →
      (q.lockstep ids).item r x (s.consumer w r).index a v := by
  have hi := Kernel.Reachable.inv (c.aligned c.storage (q.tiles ids)) hs
  obtain ⟨row, hrow, d, hd, rfl⟩ := Traits.mem_needs.1 ha
  have hspan : c.itemAddr r x (s.consumer w r).index row d ∈ itemSpan c.storage r x
      (s.consumer w r).index :=
    Traits.mem_itemSpan.2 ⟨row, Traits.readRows_lt w.isLt hrow, d, hd, rfl⟩
  have hop :=
    (ctaOperands c.storage (c.epilogue c.storage) (q.tiles ids)).reading hs hr hb Nat.one_pos hspan
  obtain ⟨hx, -⟩ := hi.read_head hr
  obtain ⟨hlt, -⟩ := hi.reading w r x tl hb hr
  have hidx : (s.consumer w r).index = (c.aligned c.storage (q.tiles ids)).released s r w %
      (c.kernel c.storage (q.tiles ids)).stages r := by
    rw [hi.consumer_eq]
    rfl
  have hqkv := Traits.qkv_of_live h hs r _ x hx ⟨hlt, w, le_rfl⟩ _ (hidx ▸ hspan) _ hop
  refine ⟨.inl (.load ⟨r, x, 0, (s.consumer w r).index⟩), ?_, fun v hv ↦ hv⟩
  exact congrArg (Option.map Sum.inl) hqkv

theorem registers_consumed (w : Fin c.kNWarps) (r : Ring) (x : Site) (idx : ℕ)
    (b : Address → Option (Num F)) (d : Data c F)
    (hb : ∀ a ∈ c.needs w r x idx, ∃ v, b a = some v ∧ (q.lockstep ids).item r x idx a v) :
    (q.lockstep ids).registers ((q.dataflow ids).consumed w r x idx b d) =
      update ((q.lockstep ids).registers d) w
        ((q.lockstep ids).read w r x ((q.lockstep ids).registers d w)) := by
  have hcons : (q.dataflow ids).consumed w r x idx b d =
      { d with
        warp := update d.warp w (q.consume ids w r x
          (fun row k ↦ (b (.inl (c.itemAddr r x idx row k))).getD .undef) (d.warp w)) } := rfl
  funext v
  by_cases hv : v = w
  · subst hv
    rw [update_self, hcons]
    have hreg : ∀ d : Data c F, (q.lockstep ids).registers d v =
        (d.warp v).trim c.grid := fun _ ↦ rfl
    rw [hreg]
    dsimp only
    rw [update_self]
    refine Warp.Same.trim_eq (consume_same v.isLt r x (Warp.trim_same c.grid (d.warp v)).symm
      fun row hrow k hk ↦ ?_)
    obtain ⟨z, hz, hitem⟩ := hb _ (Traits.mem_needs.2 ⟨row, hrow, k, hk, rfl⟩)
    rw [hz, Option.getD_some]
    exact hitem row (Traits.readRows_lt v.isLt hrow) k hk rfl
  · rw [update_of_ne hv, hcons]
    have hreg : ∀ d : Data c F, (q.lockstep ids).registers d v =
        (d.warp v).trim c.grid := fun _ ↦ rfl
    rw [hreg, hreg]
    dsimp only
    rw [update_of_ne hv]

theorem statOf_eq {y : Warp F} {id : ℕ} (hy : c.grid.Same w y.consumer (q.loop id)) (st : Stat)
    {lane r : ℕ} (hl : lane < 32) (hr : r < 2 * c.wm) :
    Traits.statOf y lane r st = q.loopStat id w lane r st := by
  cases st with
  | rowMax => exact hy.rMax lane hl r hr
  | rowSum => exact warpReduce_congr _ (fun l hl ↦ hy.rSum l hl r hr) hl

theorem statAt_eq (h : 1 < c.warpsN) (he : (q.dataflow ids).Reachable e)
    (hh : (q.lockstep ids).Holds e) (hr : e.control.rest (.warp w) = ⟨x, .act .statsRead⟩ :: tl)
    {lane r n : ℕ} (hl : lane < 32) (hr' : r < 2 * c.wm) (hn : n < c.warpsN) (st : Stat) :
    c.statAt e.data.shared w lane r st n =
      q.loopStat (idAt ids x) (c.warpAt (w % c.warpsM) n) (quadLane lane 0) r st := by
  have hM := c.warpM_lt w
  let v : Fin c.kNWarps := ⟨c.warpAt (w % c.warpsM) n, Traits.warpAt_lt hM hn⟩
  have hlane : quadLane lane 0 < 32 := quadLane_lt hl (by omega)
  have hquad : quadLane lane 0 % 4 = 0 := quadLane_mod lane (by omega)
  have hslot : n * c.kBlockM + c.statsRow w lane r = c.statSlot v (quadLane lane 0) r := by
    have hv : (v : ℕ) = c.warpAt (w % c.warpsM) n := rfl
    rw [Traits.statSlot, hv, Traits.warpAt_div hM, Traits.statsRow, Traits.statsRow,
      Traits.warpAt_mod hM, quadLane_div lane (by omega)]
  have hlog := Traits.stats_ready h he.control hr st
    (Traits.mem_statsSlots_iff.2 ⟨quadLane lane 0, hlane, hquad, r, hr', rfl⟩ :
      c.statSlot v (quadLane lane 0) r ∈ _)
  obtain ⟨z, hz, hval⟩ := hh.agree (.inr (st, c.statSlot v (quadLane lane 0) r)) (.inr (x.tile, v))
    (congrArg (Option.map Sum.inr) hlog)
  have hshared : e.data.shared (.inr (st, n * c.kBlockM + c.statsRow w lane r)) = some z := by
    rw [hslot]
    exact hz
  rw [Traits.statAt, hshared]
  exact hval st _ hlane hquad r hr' rfl

section Ordered

variable [IsStrictOrderedRing F]

theorem statsRead_eq (h : 1 < c.warpsN) (he : (q.dataflow ids).Reachable e)
    (hh : (q.lockstep ids).Holds e) (hr : e.control.rest (.warp w) = ⟨x, .act .statsRead⟩ :: tl)
    {lane r i : ℕ} (hl : lane < 32) (hr' : r < 2 * c.wm) (hi : i < 2 * (c.kHeadDim / 8)) :
    (c.statsRead q.exp2 q.scale w e.data.shared (e.data.warp w)).rO lane r i =
      .fin (q.share (idAt ids x) w lane r i) := by
  have hsame := after_of_act h he.control hh.follows hr (.inr rfl)
  have hmax : (List.range c.warpsN).foldl
      (fun a n ↦ max a (c.statAt e.data.shared w lane r .rowMax n)) .negInf =
      (List.range c.warpsN).foldl (fun a n ↦ max a
        (c.writeStats (q.loop (idAt ids x)).rMax (fun _ ↦ .undef)
          (n * c.kBlockM + c.statsRow w lane r))) .negInf := by
    refine List.foldl_ext _ _ _ fun a n hn ↦ ?_
    rw [Traits.writeStats_apply _ _ hl hr' (List.mem_range.1 hn),
      statAt_eq h he hh hr hl hr' (List.mem_range.1 hn)]
    rfl
  have hsum : ∀ g : Num F, (List.range c.warpsN).foldl
      (fun a n ↦ a + c.statAt e.data.shared w lane r .rowSum n *
        .exp2 q.exp2 ((c.statAt e.data.shared w lane r .rowMax n - g) * .fin q.scale)) (.fin 0) =
      (List.range c.warpsN).foldl (fun a n ↦ a + c.writeStats (fun wid lane r ↦
            warpReduce (· + ·) (fun lane ↦ (q.loop (idAt ids x)).rSum wid lane r) lane)
              (fun _ ↦ .undef)
            (n * c.kBlockM + c.statsRow w lane r) *
          .exp2 q.exp2 ((c.writeStats (q.loop (idAt ids x)).rMax (fun _ ↦ .undef)
            (n * c.kBlockM + c.statsRow w lane r) - g) * .fin q.scale)) (.fin 0) := by
    intro g
    refine List.foldl_ext _ _ _ fun a n hn ↦ ?_
    rw [Traits.writeStats_apply _ _ hl hr' (List.mem_range.1 hn),
      Traits.writeStats_apply _ _ hl hr' (List.mem_range.1 hn),
      statAt_eq h he hh hr hl hr' (List.mem_range.1 hn),
      statAt_eq h he hh hr hl hr' (List.mem_range.1 hn)]
    rfl
  have hloop : c.normalizeStats q.exp2 q.scale (q.loop (idAt ids x)) ⟨fun _ ↦ .undef,
      fun _ ↦ .undef, fun _ ↦ .undef⟩
      w lane r i = .fin (q.share (idAt ids x) w lane r i) :=
    Traits.normalizeStats_of_slices q.scale_pos (q.launch.kBlocks_pos _) h _ w.isLt hl hr' i
  rw [Traits.normalizeStats, if_pos h] at hloop
  refine Eq.trans ?_ hloop
  have hrM : (e.data.warp w).rMax lane r = (q.loop (idAt ids x)).rMax w lane r :=
    hsame.rMax lane hl r hr'
  have hrO : (e.data.warp w).rO lane r i = (q.loop (idAt ids x)).rO w lane r i :=
    hsame.rO lane hl r hr' i hi
  unfold Traits.statsRead
  dsimp only
  rw [hmax, hsum, hrM, hrO]

/-- The shares of the warps of a row add up to the quotient. -/
theorem sum_share (id : ℕ) {wid lane : ℕ} (hM : wid < c.warpsM) (hl : lane < 32) (r i : ℕ) :
    ∑ n ∈ range c.warpsN, q.share id (c.warpAt wid n) lane r i = q.whole id wid lane r i := by
  have hrow : ∀ n, c.grid.globalRow (q.qBlock id) (c.warpAt wid n) lane r =
      c.grid.globalRow (q.qBlock id) wid lane r :=
    fun n ↦ Traits.globalRow_congr hl ((Traits.warpAt_mod hM n).trans (Nat.mod_eq_of_lt hM).symm)
  simp only [share, hrow, Traits.outCol_warpAt, ← sum_div]
  rw [Traits.sum_slices hM fun y ↦ mass q.exp2 q.scale
    (c.grid.score (q.operands id) (c.grid.globalRow (q.qBlock id) wid lane r) y) *
      (q.operands id).V y (c.grid.outCol wid lane i)]
  rfl

theorem partialRead_eq (h : 1 < c.warpsN) (he : (q.dataflow ids).Reachable e)
    (hh : (q.lockstep ids).Holds e) (hr : e.control.rest (.warp w) = ⟨x, .act .partialRead⟩ :: tl)
    {lane r i : ℕ} (hl : lane < 32) (hr' : r < 2 * c.wm) (hi : i < 2 * (c.kHeadDim / 8)) :
    (c.partialRead w e.data.shared (e.data.warp w)).rO lane r i =
      .fin (q.whole (idAt ids x) w lane r i) := by
  have hinv := Kernel.Reachable.inv (c.aligned c.storage (q.tiles ids)) he.control
  obtain ⟨t, kb, ht, -, ho, -, -⟩ := Traits.act_clock tl hinv (hr ▸ List.mem_cons_self)
  have hw : (w : ℕ) / c.warpsM = 0 := ((Traits.mem_epilogueOps h).1 ho).2 (.inl rfl)
  have hM : (w : ℕ) < c.warpsM := (Nat.div_eq_zero_iff_lt c.warpsM_pos).1 hw
  have hmod : (w : ℕ) % c.warpsM = w := Nat.mod_eq_of_lt hM
  have hterm : ∀ n < c.warpsN - 1,
      (e.data.shared (.inl (c.outAddr (1 + n - 1) w lane r i))).getD .undef =
      .fin (q.share (idAt ids x) (c.warpAt w (n + 1)) lane r i) := by
    intro n hn
    let v : Fin c.kNWarps := ⟨c.warpAt w (n + 1), Traits.warpAt_lt hM (by omega)⟩
    have hdiv : (v : ℕ) / c.warpsM = n + 1 := Traits.warpAt_div hM (n + 1)
    have hvw : (v : ℕ) % c.warpsM = w % c.warpsM := (Traits.warpAt_mod hM (n + 1)).trans hmod.symm
    have haddr : c.outAddr (1 + n - 1) w lane r i = c.outAddr (v / c.warpsM - 1) v lane r i := by
      rw [hdiv, Traits.outAddr, Traits.outAddr, Traits.outRow_eq, Traits.outRow_eq,
        Traits.outCol_eq, Traits.outCol_eq, hvw, Nat.add_sub_cancel_left, Nat.add_sub_cancel]
    have hcell := Traits.partials_ready h he.control hr (by omega) hvw _
      (Traits.mem_outCells.2 ⟨lane, hl, r, hr', i, hi, rfl⟩)
    obtain ⟨z, hz, hval⟩ :=
      hh.agree (.inl (c.outAddr (v / c.warpsM - 1) v lane r i)) (.inl (.part x.tile v))
      (congrArg (Option.map Sum.inl) hcell)
    have hshared : e.data.shared (.inl (c.outAddr (1 + n - 1) w lane r i)) = some z := by
      rw [haddr]
      exact hz
    rw [hshared, Option.getD_some]
    exact hval lane hl r hr' i hi rfl
  have h0 : (e.data.warp w).rO lane r i = .fin (q.share (idAt ids x) (c.warpAt w 0) lane r i) := by
    have hwarp : c.warpAt w 0 = w := by rw [Traits.warpAt, Nat.mul_zero, Nat.add_zero]
    rw [hwarp]
    exact share_of_act h he.control hh.follows hr (.inr rfl) hl hr' hi
  have hsucc : c.warpsN = c.warpsN - 1 + 1 := by omega
  have hsum := sum_share (q := q) (idAt ids x) hM hl r i
  rw [hsucc, sum_range_succ', add_comm] at hsum
  unfold Traits.partialRead
  dsimp only
  rw [List.range'_eq_map_range, List.foldl_map, h0]
  refine (batchReduce_add hterm _).trans ?_
  rw [hsum]

theorem agree_acted (h : 1 < c.warpsN) (he : (q.dataflow ids).Reachable e)
    (hh : (q.lockstep ids).Holds e) {a : Act} (hr : e.control.rest (.warp w) = ⟨x, .act a⟩ :: tl) :
    (q.lockstep ids).Agree (c.epilogueActed c.storage w x.tile a e.control.memory)
      ((q.dataflow ids).acted (.warp w) x a e.data) := by
  cases a with
  | statsWrite =>
    have hsame := after_of_act h he.control hh.follows hr (.inl rfl)
    exact agree_statsWrite hh.agree fun st lane hl r hr ↦ statOf_eq hsame st hl hr
  | statsRead => exact hh.agree
  | partialWrite =>
    refine agree_oR2s hh.agree fun lane hl r hr' i hi lane' hl' r' hr'' i' hi' hadd ↦ ?_
    obtain ⟨-, rfl, rfl, rfl⟩ := Traits.outAddr_inj hl hl' hr' hr'' (Sum.inl.inj hadd)
    exact share_of_act h he.control hh.follows hr (.inl rfl) hl hr' hi
  | partialRead => exact hh.agree
  | outWrite =>
    have hO : c.normalized w (e.data.warp w) = (e.data.warp w).rO := if_pos h
    refine agree_oR2s hh.agree fun lane hl r hr' i hi lane' hl' r' hr'' i' hi' hadd ↦ ?_
    obtain ⟨-, rfl, rfl, rfl⟩ := Traits.outAddr_inj hl hl' hr' hr'' (Sum.inl.inj hadd)
    rw [hO]
    exact whole_of_act h he.control hh.follows hr hl hr' hi

theorem registers_acted (h : 1 < c.warpsN) (he : (q.dataflow ids).Reachable e)
    (hh : (q.lockstep ids).Holds e) {a : Act} (hr : e.control.rest (.warp w) = ⟨x, .act a⟩ :: tl)
    (v : Fin c.kNWarps) :
    (q.lockstep ids).registers ((q.dataflow ids).acted (.warp w) x a e.data) v =
      if w = v then (q.lockstep ids).act v x a ((q.lockstep ids).registers e.data v)
      else (q.lockstep ids).registers e.data v := by
  have hreg : ∀ d : Data c F, (q.lockstep ids).registers d v = (d.warp v).trim c.grid := fun _ ↦ rfl
  -- a warp that takes on new accumulators, with the values that its program promises
  have hnew : ∀ {y : Warp F} {z : ℕ → ℕ → ℕ → ℕ → F},
      (∀ lane < 32, ∀ r < 2 * c.wm, ∀ i < 2 * (c.kHeadDim / 8),
        y.rO lane r i = .fin (z w lane r i)) →
      y.rQ = (e.data.warp w).rQ → y.rP = (e.data.warp w).rP → y.rMax = (e.data.warp w).rMax →
      y.rSum = (e.data.warp w).rSum → (update e.data.warp w y v).trim c.grid =
        if w = v then Warp.trim c.grid
          { (e.data.warp v).trim c.grid with rO := fun lane r i ↦ .fin (z v lane r i) }
        else (e.data.warp v).trim c.grid := by
    intro y z hz hQ hP hmax hsum
    by_cases hv : w = v
    · subst hv
      rw [update_self, if_pos rfl]
      have hs := Warp.trim_same c.grid (e.data.warp w)
      refine Warp.Same.trim_eq ⟨?_, ?_, ?_, ?_, hz⟩
      · rw [hQ]
        exact hs.symm.rQ
      · rw [hP]
        exact hs.symm.rP
      · rw [hmax]
        exact hs.symm.rMax
      · rw [hsum]
        exact hs.symm.rSum
    · rw [update_of_ne (Ne.symm hv), if_neg hv]
  cases a with
  | statsWrite | partialWrite | outWrite => exact (ite_self _).symm
  | statsRead =>
    exact hnew (fun lane hl r hr' i hi ↦ statsRead_eq h he hh hr hl hr' hi) rfl rfl rfl rfl
  | partialRead =>
    exact hnew (fun lane hl r hr' i hi ↦ partialRead_eq h he hh hr hl hr' hi) rfl rfl rfl rfl

theorem sound (h : 1 < c.warpsN) : (q.lockstep ids).Sound where
  init a tag hc := by cases a <;> cases hc
  issued r x idx m d h := agree_issued r x idx h
  landed y m d h := agree_landed y h
  stored _ _ _ h := h
  registers_issued _ _ _ _ := rfl
  registers_landed _ _ := rfl
  shared_consumed _ _ _ _ _ _ := rfl
  reading s hs w r x tl hr hb a ha := reading_item h hs hr hb ha
  consumed w r x idx b d hb := registers_consumed w r x idx b d hb
  acted e he hh p x a tl hr := by
    obtain ⟨w, rfl⟩ :=
      act_party (Kernel.Reachable.inv (c.aligned c.storage (q.tiles ids)) he.control) hr
    refine ⟨agree_acted h he hh hr, fun v ↦ ?_⟩
    have hv : (Party.warp w : Party (Fin 127) (Fin c.kNWarps)) = .warp v ↔ w = v := by
      rw [Party.warp.injEq]
    simp only [hv]
    exact registers_acted h he hh hr v

end Ordered

end Call

end Sm120.Flash.MMnNkN
