import Sm120.Flash.Config
import Sm120.Flash.Pipelines
import Sm120.Lib.Stall

namespace Sm120.Flash

open Lib Function Finset

section Index

variable {T : Tiles} {t kb : ℕ}

theorem qkItems_length (t kb : ℕ) : (qkItems t kb).length = kb + 1 := by simp [qkItems]

theorem unroll_qkItems_length (t : ℕ) (l : List ℕ) :
    (unroll qkItems t l).length = (l.map (· + 1)).sum := by
  induction l generalizing t with
  | nil => rfl
  | cons kb l ih => simp [ih, qkItems_length]

theorem qk_index (ht : T.blocks[t]? = some kb) {l : ℕ} (hl : l < kb + 1) :
    (T.items .qk)[((T.blocks.take t).map (· + 1)).sum + l]? = (qkItems t kb)[l]? := by
  obtain ⟨hlt, hkb⟩ := List.getElem?_eq_some_iff.1 ht
  have hsplit : T.blocks = T.blocks.take t ++ kb :: T.blocks.drop (t + 1) := by
    rw [← hkb, ← List.drop_eq_getElem_cons hlt, List.take_append_drop]
  have hlen : (T.blocks.take t).length = t := by rw [List.length_take]; omega
  have hitems : T.items .qk = unroll qkItems 0 (T.blocks.take t) ++
      (qkItems t kb ++ unroll qkItems (t + 1) (T.blocks.drop (t + 1))) := by
    rw [Tiles.items, hsplit, unroll_append, unroll_cons, ← hsplit, hlen, Nat.zero_add]
  rw [hitems, List.getElem?_append_right (by rw [unroll_qkItems_length]; omega),
    unroll_qkItems_length, Nat.add_sub_cancel_left,
    List.getElem?_append_left (by rw [qkItems_length]; exact hl)]

theorem qk_index_Q (ht : T.blocks[t]? = some kb) :
    (T.items .qk)[((T.blocks.take t).map (· + 1)).sum]? = some (site t 0) := by
  have h := qk_index ht (l := 0) (by omega)
  rwa [Nat.add_zero] at h

theorem qk_index_K (ht : T.blocks[t]? = some kb) {i : ℕ} (hi : i < kb) :
    (T.items .qk)[((T.blocks.take t).map (· + 1)).sum + (i + 1)]? = some (site t (2 * i + 1)) := by
  rw [qk_index ht (by omega), qkItems, List.getElem?_cons_succ, List.getElem?_map,
    List.getElem?_range hi]
  rfl

/-- Tiles of odd length leave the slots of the qk ring as they found them. -/
theorem even_sum_of_odd {l : List ℕ} (h : ∀ kb ∈ l, kb % 2 = 1) : (l.map (· + 1)).sum % 2 = 0 := by
  induction l with
  | nil => rfl
  | cons kb l ih =>
    have h1 := h kb List.mem_cons_self
    have h2 := ih fun x hx ↦ h x (List.mem_cons_of_mem _ hx)
    rw [List.map_cons, List.sum_cons]
    omega

end Index

namespace MMn1k1.Traits

variable (c : Traits) (T : Tiles)

/-- No warp writes its rows of O while another has yet to release an item of the same tile that
overlaps them. -/
def OverlaySafe : Prop :=
  ∀ s, (c.kernel c.storage T).Reachable s → ∀ w x tl, s.rest (.warp w) = ⟨x, .act .outWrite⟩ :: tl →
    ∀ v, v ≠ w → ∀ r j y, (T.items r)[j]? = some y → y.tile = x.tile →
      y ∈ sites (Op.isRead r) (s.rest (.warp v)) →
        Disjoint (itemSpan c.storage r y (j % (c.kernel c.storage T).stages r)) (c.outCells w)

variable {c T}

theorem outCells_subset (w : Fin c.kNWarps) : c.outCells w ⊆ c.storage.getSO 0 := by
  intro a ha
  obtain ⟨⟨lane, r, i⟩, hx, rfl⟩ := mem_image.1 ha
  simp only [mem_product, mem_range] at hx
  obtain ⟨hl, hr, hi⟩ := hx
  have hrow : c.outRow w lane r < c.kBlockM := by
    rw [outRow_eq]
    exact scoreRow_lt w.isLt hl hr
  have hcol : c.outCol w lane i < c.kHeadDim := by
    have := atomCol_lt lane (show i % 2 < 2 by omega)
    rw [outCol_eq]
    omega
  have hlt := smemOffset_lt c.kHeadDim_mod hrow hcol
  rw [Storage.getSO, mem_Ico]
  simpa [Storage.oSize, storage] using hlt

theorem zero_mem_outCells (w : Fin c.kNWarps) (hw : w.val = 0) : 0 ∈ c.outCells w := by
  have hM := c.kBlockM_pos
  have hd := c.kHeadDim_pos
  have hmod := c.kHeadDim_mod
  have hwm : 0 < c.wm := by
    rw [c.kBlockM_eq] at hM
    exact Nat.pos_of_mul_pos_left (Nat.pos_of_mul_pos_left hM)
  refine mem_image.2 ⟨(0, 0, 0), ?_, ?_⟩
  · simp only [mem_product, mem_range]
    omega
  · have hrow : c.outRow w 0 0 = 0 := by
      rw [outRow_eq, scoreRow_eq w.isLt, hw]
      rfl
    have hcol : c.outCol w 0 0 = 0 := by simp [outCol_eq, atomCol]
    rw [hrow, hcol, smemOffset_zero]

theorem zero_mem_itemSpan (S : Storage) (x : Site) : 0 ∈ itemSpan S .qk x 0 := by
  have hq := S.qSize_pos
  have hk := S.kSize_pos
  simp only [itemSpan]
  split_ifs
  · simpa [Storage.getSQ] using hq
  · simpa [Storage.getSK] using hk

/-- When a warp writes O, no warp stands before the last K tile of a long enough tile. -/
theorem lt_clock_of_outWrite {s} (hs : (c.kernel c.storage T).Reachable s) {w v : Fin c.kNWarps}
    {t kb : ℕ} {tl : List Line} (ht : T.blocks[t]? = some kb) (hkb : 2 ≤ kb)
    (hr : s.rest (.warp w) = ⟨after t kb 6, .act .outWrite⟩ :: tl) :
    (site t (2 * kb - 2) : WithTop Site) < s.clock (.warp v) := by
  have hi := Kernel.Reachable.inv (c.aligned c.storage T) hs
  have hitem : ∀ i < kb, ∃ j, (T.items .v)[j]? = some (site t (2 * i + 2)) := fun i hi ↦
    List.getElem?_of_mem (mem_items_v.2 ⟨t, kb, ht, i, hi, rfl⟩)
  obtain ⟨i, hvi⟩ := hitem (kb - 2) (by omega)
  obtain ⟨j, hvj⟩ := hitem (kb - 1) (by omega)
  have hij : i < j := ((c.aligned c.storage T).items_lt_iff (r := .v) hvi hvj).2
    (Site.lt_iff.2 (.inr ⟨rfl, by omega⟩))
  -- the writing warp has waited for the last V tile, so all have released the one before
  have hw : (site t (2 * (kb - 1) + 2) : WithTop Site) < s.clock (.warp w) := by
    rw [clock_of_head hr, WithTop.coe_lt_coe]
    exact Site.lt_iff.2 (.inr ⟨rfl, by omega⟩)
  have hjw := (hi.lt_released_iff (r := .v) w hvj).2 hw
  have hv : j < (c.aligned c.storage T).released s .v v + 1 :=
    hi.released_of_wait (hjw.trans_le ((hi.ring .v).rel_le w)) v
  have hiv := (hi.lt_released_iff (r := .v) v hvi).1 (hij.trans_le (Nat.lt_succ_iff.1 hv))
  have e : 2 * (kb - 2) + 2 = 2 * kb - 2 := by omega
  rwa [e] at hiv

theorem overlaySafe_of_odd (h : ∀ kb ∈ T.blocks, kb % 2 = 1 ∧ 3 ≤ kb) : c.OverlaySafe T := by
  intro s hs w x tl hr v hv r j y hy hyt hread
  have hi := Kernel.Reachable.inv (c.aligned c.storage T) hs
  obtain ⟨t, kb, ht, -, rfl⟩ :=
    mem_program_act.1 ((hi.suffix (.warp w)).subset (hr ▸ List.mem_cons_self))
  obtain ⟨hodd, hkb⟩ := h kb (List.mem_of_getElem? ht)
  refine Disjoint.symm (disjoint_of_subset_left (outCells_subset w) ?_)
  cases r with
  | v => exact c.storage.getSO_disjoint_getSV
  | qk =>
    have hlt := lt_clock_of_outWrite hs (v := v) ht (by omega) hr
    obtain ⟨op, -, hm⟩ := mem_sites.1 hread
    replace hlt := hlt.trans_le (hi.clock_le hm)
    rw [WithTop.coe_lt_coe] at hlt
    obtain ⟨t', kb', ht', hcase⟩ := mem_items_qk.1 (List.mem_of_getElem? hy)
    have htt : t' = t := by rcases hcase with rfl | ⟨i, -, rfl⟩ <;> simpa [after] using hyt
    subst htt
    obtain rfl : kb' = kb := Option.some_injective _ (ht'.symm.trans ht)
    -- only the last K tile is left
    rcases hcase with rfl | ⟨i, hik, rfl⟩
    · rw [Site.lt_iff] at hlt
      omega
    · have hlast : i = kb' - 1 := by
        rw [Site.lt_iff] at hlt
        omega
      have hidx := qk_index_K ht hik
      have hj := (c.aligned c.storage T).items_inj (r := .qk) hy hidx
      have heven :=
        even_sum_of_odd (l := T.blocks.take t') fun x hx ↦ (h x (List.mem_of_mem_take hx)).1
      have hslot : j % 2 = 1 := by omega
      have hspan : itemSpan c.storage .qk (site t' (2 * i + 1)) 1 = c.storage.getSK 1 := by
        simp [itemSpan, isQ_site]
      change Disjoint _ (itemSpan c.storage .qk _ (j % 2))
      rw [hslot, hspan]
      exact c.storage.getSO_disjoint_getSK

/-- A warp left behind at an item in the first slot of the qk ring, the last of its tile that still
matters, loses it to the first warp's rows of O. -/
theorem not_overlaySafe_of_stall {t kb j l : ℕ} (hn : 1 < c.kNWarps) (ht : T.blocks[t]? = some kb)
    (hj : (T.items .qk)[j]? = some (site t l)) (hslot : j % 2 = 0)
    (hstall : ∀ w, Stall (c.aligned c.storage T) w (site t l) (after t kb 6)) :
    ¬ c.OverlaySafe T := by
  intro h
  have hact : (⟨after t kb 6, .act .outWrite⟩ : Line) ∈
      (c.kernel c.storage T).program (.warp ⟨0, c.kNWarps_pos⟩) :=
    mem_program_act.2 ⟨t, kb, ht, List.mem_cons_self, rfl⟩
  obtain ⟨s, hs, h0, h1⟩ := (hstall ⟨1, hn⟩).reachable ⟨0, c.kNWarps_pos⟩ (by simp) hact rfl
  have hi := Kernel.Reachable.inv (c.aligned c.storage T) hs
  obtain ⟨tl, hr⟩ := hi.head_of_clock ((hi.mem_rest_iff hact).2 h0.le) h0.ge
  have hread : site t l ∈ sites (Op.isRead .qk) (s.rest (.warp ⟨1, hn⟩)) := by
    refine (hi.mem_sites_rest_iff ?_).2 h1.le
    rw [(c.aligned c.storage T).warp_reads]
    exact List.mem_of_getElem? hj
  have hd := h s hs ⟨0, c.kNWarps_pos⟩ _ tl hr ⟨1, hn⟩ (by simp) .qk j _ hj rfl hread
  have hstage : j % (c.kernel c.storage T).stages .qk = 0 := hslot
  rw [hstage] at hd
  exact disjoint_left.1 hd (zero_mem_itemSpan _ _) (zero_mem_outCells _ rfl)

theorem rounds_le {b : Bar} {t kb : ℕ} {z : Site} (ht : T.blocks[t]? = some kb)
    (hz : z ∈ barrierRounds c.epilogue T b) {l : ℕ} (hl : site t l ≤ z) : after t kb 6 ≤ z := by
  obtain ⟨t', kb', ht', hz⟩ : ∃ t' kb', T.blocks[t']? = some kb' ∧
      (z = after t' kb' 7 ∨ z = after t' kb' 10) := by
    cases b with
    | epilogue =>
      obtain ⟨j, kb', hj, hz⟩ := mem_unroll.1 hz
      rw [Nat.zero_add] at hz
      exact ⟨j, kb', hj, .inl (by simpa [epilogue] using hz)⟩
    | tileBuffer =>
      obtain ⟨j, kb', hj, hz⟩ := mem_unroll.1 hz
      rw [Nat.zero_add] at hz
      exact ⟨j, kb', hj, .inr (by simpa using hz)⟩
  have hkb : t = t' → kb = kb' := by
    rintro rfl
    exact Option.some_injective _ (ht.symm.trans ht')
  rcases hz with rfl | rfl <;>
  · simp only [after, Site.le_iff] at hl ⊢
    rcases hl with hl | ⟨rfl, -⟩
    · exact .inl hl
    · exact .inr ⟨rfl, by rw [hkb rfl]; omega⟩

/-- An even number of blocks puts the last K tile where Q was. -/
theorem stall_last {t kb : ℕ} (ht : T.blocks[t]? = some kb) (hkb : 2 ≤ kb) (w : Fin c.kNWarps) :
    Stall (c.aligned c.storage T) w (site t (2 * (kb - 1) + 1)) (after t kb 6) where
  lt := Site.lt_iff.2 (.inr ⟨rfl, by omega⟩)
  read := by
    refine ⟨.qk, mem_program_warp.2 ⟨t, kb, ht, ?_⟩⟩
    simp only [consumerBody, operandLoop, List.mem_append, List.mem_cons, List.mem_flatMap,
      List.mem_range]
    exact .inl (.inl (.inr ⟨kb - 1, by omega, .inl rfl⟩))
  loads r i j z z' hz hz' hij hlt := by
    have hzz := ((c.aligned c.storage T).items_lt_iff hz hz').1
      (by have := (c.aligned c.storage T).stages_pos r; omega)
    have hkb' : ∀ {t' kb'}, T.blocks[t']? = some kb' → t' = t → kb' = kb := by
      rintro t' kb' ht' rfl
      exact Option.some_injective _ (ht'.symm.trans ht)
    cases r with
    | qk =>
      obtain ⟨t', kb', ht', hc⟩ := mem_items_qk.1 (List.mem_of_getElem? hz')
      have e := hkb' ht'
      rcases hc with rfl | ⟨m, hm, rfl⟩ <;>
      · refine hzz.trans_le (Site.le_iff.2 ?_)
        rw [after, Site.lt_iff] at hlt
        omega
    | v =>
      obtain ⟨t', kb', ht', m, hm, rfl⟩ := mem_items_v.1 (List.mem_of_getElem? hz')
      obtain ⟨t'', kb'', ht'', m', hm', rfl⟩ := mem_items_v.1 (List.mem_of_getElem? hz)
      have e := hkb' ht'
      rw [after, Site.lt_iff] at hlt
      rw [Site.lt_iff] at hzz ⊢
      omega
  syncs b z _ hz hle := rounds_le ht hz hle

/-- After a single block Q is not known to be released by all. -/
theorem stall_first {t : ℕ} (ht : T.blocks[t]? = some 1) (w : Fin c.kNWarps) :
    Stall (c.aligned c.storage T) w (site t 0) (after t 1 6) where
  lt := Site.lt_iff.2 (.inr ⟨rfl, by omega⟩)
  read := by
    refine ⟨.qk, mem_program_warp.2 ⟨t, 1, ht, ?_⟩⟩
    simp [consumerBody, operandLoop]
  loads r i j z z' hz hz' hij hlt := by
    have hzz := ((c.aligned c.storage T).items_lt_iff hz hz').1
      (by have := (c.aligned c.storage T).stages_pos r; omega)
    have hkb' : ∀ {t' kb'}, T.blocks[t']? = some kb' → t' = t → kb' = 1 := by
      rintro t' kb' ht' rfl
      exact Option.some_injective _ (ht'.symm.trans ht)
    cases r with
    | qk =>
      -- two items before one that is at most K_0 is before Q
      have hQ := qk_index_Q ht
      have hK := qk_index_K ht (i := 0) (by omega)
      obtain ⟨t', kb', ht', hc⟩ := mem_items_qk.1 (List.mem_of_getElem? hz')
      have e := hkb' ht'
      have hle : ¬ (site t (2 * 0 + 1) < z') := by
        intro hgt
        rw [after] at hlt
        rcases hc with rfl | ⟨m, hm, rfl⟩ <;> rw [Site.lt_iff] at hlt hgt <;> omega
      have hj := ((c.aligned c.storage T).items_lt_iff (r := .qk) hK hz').not.2 hle
      refine ((c.aligned c.storage T).items_lt_iff (r := .qk) hz hQ).1 ?_
      change i + 2 ≤ j at hij
      omega
    | v =>
      obtain ⟨t', kb', ht', m, hm, rfl⟩ := mem_items_v.1 (List.mem_of_getElem? hz')
      obtain ⟨t'', kb'', ht'', m', hm', rfl⟩ := mem_items_v.1 (List.mem_of_getElem? hz)
      have e := hkb' ht'
      rw [after, Site.lt_iff] at hlt
      rw [Site.lt_iff] at hzz ⊢
      omega
  syncs b z _ hz hle := rounds_le ht hz hle

/-- The first tile that is even or of a single block lets a warp overwrite what another has yet to
read. -/
theorem not_overlaySafe (hn : 1 < c.kNWarps) {t kb : ℕ} (ht : T.blocks[t]? = some kb)
    (hbad : kb % 2 = 0 ∨ kb = 1) (hgood : ∀ x ∈ T.blocks.take t, x % 2 = 1) :
    ¬ c.OverlaySafe T := by
  have heven := even_sum_of_odd hgood
  have hpos := T.pos kb (List.mem_of_getElem? ht)
  rcases hbad with hkb | rfl
  · exact not_overlaySafe_of_stall hn ht (qk_index_K ht (i := kb - 1) (by omega)) (by omega)
      (stall_last ht (by omega))
  · exact not_overlaySafe_of_stall hn ht (qk_index_Q ht) heven (stall_first ht)

theorem exists_first_not {P : ℕ → Prop} {l : List ℕ} (h : ¬ ∀ x ∈ l, P x) :
    ∃ t x : ℕ, l[t]? = some x ∧ ¬ P x ∧ ∀ y ∈ l.take t, P y := by
  induction l with
  | nil => simp at h
  | cons a l ih =>
    by_cases ha : P a
    · obtain ⟨t, x, hx, hbad, hgood⟩ := ih fun hl ↦ h (by simpa [ha] using hl)
      exact ⟨t + 1, x, by simpa using hx, hbad, by simpa [ha] using hgood⟩
    · exact ⟨0, a, rfl, ha, by simp⟩

/-- The overlay is safe exactly for a single warp, or when every tile runs through an odd number of
blocks and more than one. -/
theorem overlaySafe_iff (c : Traits) (T : Tiles) :
    c.OverlaySafe T ↔ c.kNWarps = 1 ∨ ∀ kb ∈ T.blocks, kb % 2 = 1 ∧ 3 ≤ kb := by
  constructor
  · intro h
    by_contra hc
    push Not at hc
    obtain ⟨hn, hc⟩ := hc
    have hpos := c.kNWarps_pos
    obtain ⟨t, kb, ht, hbad, hgood⟩ := exists_first_not (P := fun kb ↦ kb % 2 = 1 ∧ 3 ≤ kb)
      (l := T.blocks) (by push Not; exact hc)
    exact not_overlaySafe (by omega) ht (by omega) (fun x hx ↦ (hgood x hx).1) h
  · rintro (hn | h)
    · intro s _ w x tl _ v hv
      have := w.isLt
      have := v.isLt
      exact absurd (Fin.ext (by omega)) hv
    · exact overlaySafe_of_odd h

/-- The default configuration, with one tile of four blocks as for 128 rows without a mask. -/
theorem default_not_overlaySafe : ¬ Config.default.traits.OverlaySafe ⟨[4], by decide⟩ :=
  not_overlaySafe (t := 0) (by decide) (show [4][0]? = some 4 from rfl) (.inl rfl) (by simp)

end MMn1k1.Traits

end Sm120.Flash
