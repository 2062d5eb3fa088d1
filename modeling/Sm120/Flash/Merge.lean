import Sm120.Flash.Coherence
import Sm120.Flash.Epilogue
import Sm120.Flash.Reduction

namespace Sm120.Flash

open Lib Finset WarpGrid

/-- What the epilogue of a tile finds in shared memory, left there by the loop and by earlier
tiles. -/
structure SharedMemory (F : Type) where
  rowMax : ℕ → Num F
  rowSum : ℕ → Num F
  sO : ℕ × ℕ × ℕ → Num F

namespace MMn1k1.Traits

variable {F : Type} [Field F] [LinearOrder F] (c : Traits)

/-- The O tile of one pass of the tile loop: the loop over `kBlocks` blocks, `normalize_stats` and
`O_r2s`. -/
def tile (E : Exp2 F) (scale : F) (o : Operands F) (qBlock kBlocks : ℕ) (m : SharedMemory F) :
    ℕ × ℕ → Num F := fun a ↦
  c.grid.oR2s (fun _ ↦ some 0) (normalizeRows (c.grid.kLoop E scale o qBlock kBlocks)) m.sO (0, a)

variable {c} [IsStrictOrderedRing F]

theorem tile_eq {E : Exp2 F} {scale : F} (hs : 0 < scale) (o : Operands F) (qBlock : ℕ)
    {kBlocks : ℕ} (hk : 0 < kBlocks) (m : SharedMemory F) {row d : ℕ} (hrow : row < c.kBlockM)
    (hd : d < c.kHeadDim) : c.tile E scale o qBlock kBlocks m (row, d) =
      .fin (c.grid.attention E scale o (kBlocks * c.kBlockN) (qBlock * c.kBlockM + row) d) := by
  obtain ⟨wid, hw, lane, hl, r, hr, i, hi, rfl, rfl⟩ := exists_out (g := c.grid) hrow hd
  have hwn : 8 * c.grid.wn = c.grid.kBlockN := by
    have h1 : c.grid.wn = 2 * c.wk := c.wn_eq
    have h2 : c.grid.kBlockN = 16 * c.wk := c.kBlockN_eq
    omega
  rw [tile, oR2s_apply (g := c.grid) (fun _ ↦ some 0) _ _ hw hl hr hi rfl,
    normalizeRows_eq hs hk c.kBlockN_pos hw hl hr rfl hwn]
  · rfl
  · intro w hw' _ h
    exact (Nat.mod_eq_of_lt hw').symm.trans (h.trans (Nat.mod_eq_of_lt hw))

end MMn1k1.Traits

namespace MMnNkN.Traits

section Stats

variable {F : Type} (c : Traits)

def writeStats (x : ℕ → ℕ → ℕ → Num F) (smem : ℕ → Num F) : ℕ → Num F :=
  (List.range c.kNWarps ×ˢ List.range 32 ×ˢ List.range (2 * c.wm)).foldl
    (storeRegion
      (fun y a ↦ y.2.1 % 4 = 0 ∧ y.1 / c.warpsM * c.kBlockM + c.statsRow y.1 y.2.1 y.2.2 = a)
      fun y _ ↦ x y.1 y.2.1 y.2.2)
    smem

variable {c}

theorem writeStats_apply (x : ℕ → ℕ → ℕ → Num F) (smem : ℕ → Num F) {wid lane r warpN : ℕ}
    (hl : lane < 32) (hr : r < 2 * c.wm) (hn : warpN < c.warpsN) :
    c.writeStats x smem (warpN * c.kBlockM + c.statsRow wid lane r) =
      x (c.warpAt (wid % c.warpsM) warpN) (quadLane lane 0) r := by
  have hM := c.warpM_lt wid
  have hlt := warpAt_lt hM hn
  have hq : quadLane lane 0 < 32 := quadLane_lt hl (by omega)
  have hrow : c.statsRow (c.warpAt (wid % c.warpsM) warpN) (quadLane lane 0) r =
      c.statsRow wid lane r := by
    rw [statsRow, statsRow, warpAt_mod hM, quadLane_div lane (by omega)]
  have hmem : (c.warpAt (wid % c.warpsM) warpN, quadLane lane 0, r) ∈
      List.range c.kNWarps ×ˢ List.range 32 ×ˢ List.range (2 * c.wm) := by
    simp only [List.mem_product, List.mem_range]
    exact ⟨hlt, hq, hr⟩
  rw [writeStats, foldl_storeRegion_of_mem hmem
    ⟨quadLane_mod lane (by omega), by rw [warpAt_div hM, hrow]⟩]
  rintro ⟨w, l, r'⟩ hy ⟨hl4, hs⟩
  simp only [List.mem_product, List.mem_range] at hy
  obtain ⟨hw', hl', hr'⟩ := hy
  rw [← hrow] at hs
  have hslot : (⟨w, hw'⟩ : Fin c.kNWarps) = ⟨_, hlt⟩ := by
    refine warp_of_statsSlots (i := warpN * c.kBlockM + _)
      (mem_statsSlots.2 ⟨l, hl', hl4, r', hr', hs⟩)
      (mem_statsSlots.2 ⟨_, hq, quadLane_mod lane (by omega), r, hr, ?_⟩)
    rw [warpAt_div hM]
  have hwl : w = c.warpAt (wid % c.warpsM) warpN := congrArg Fin.val hslot
  subst hwl
  rw [warpAt_div hM] at hs
  obtain ⟨rfl, rfl⟩ :=
    statsRow_inj hl' hq hl4 (quadLane_mod lane (by omega)) (Nat.add_left_cancel hs)
  rfl

end Stats

section Partials

variable {F : Type} {c : Traits} {wid lane r : ℕ}

theorem outCol_warpAt (warpM warpN i : ℕ) :
    c.grid.outCol (c.warpAt warpM warpN) lane i = c.grid.outCol warpM lane i := by
  rw [WarpGrid.outCol_eq, WarpGrid.outCol_eq]

theorem partial_apply (rO : Scores F) (sO : ℕ × ℕ × ℕ → Num F) {w i : ℕ} (hwid : wid < c.warpsM)
    (hl : lane < 32) (hr : r < 2 * c.wm) (hi : i < 2 * (c.kHeadDim / 8)) (h0 : 0 < w)
    (hw : w < c.warpsN) :
    c.grid.oR2s (fun wid ↦ if 0 < wid / c.warpsM then some (wid / c.warpsM - 1) else none) rO sO
        (w - 1, c.grid.outRow wid lane r, c.grid.outCol wid lane i) =
      rO (c.warpAt wid w) lane r i := by
  have hrow : c.grid.outRow (c.warpAt wid w) lane r = c.grid.outRow wid lane r := by
    have hmod : c.warpAt wid w % c.grid.rowWarps = wid % c.grid.rowWarps := by
      rw [show c.grid.rowWarps = c.warpsM from rfl, warpAt_mod hwid, Nat.mod_eq_of_lt hwid]
    rw [WarpGrid.outRow_eq, WarpGrid.outRow_eq, hmod]
  rw [← hrow, ← outCol_warpAt wid w i]
  refine oR2s_apply (g := c.grid) _ rO sO (warpAt_lt hwid hw) hl hr hi ?_ ?_
  · rw [warpAt_div hwid, if_pos h0]
  · intro v hv hslot hmod
    split_ifs at hslot with hv0
    have hdiv : v / c.warpsM = c.warpAt wid w / c.warpsM := by
      have := Option.some.inj hslot
      rw [warpAt_div hwid]
      omega
    exact congrArg Fin.val (eq_of_div_of_mod (w := ⟨v, hv⟩) (v := ⟨_, warpAt_lt hwid hw⟩) hdiv hmod)

end Partials

section Epilogue

variable {F : Type} [Field F] [LinearOrder F] (c : Traits) (E : Exp2 F) (scale : F)

def normalizeStats (s : Consumer F) (m : SharedMemory F) : Scores F :=
  if 1 < c.warpsN then
    let rowMax := c.writeStats s.rMax m.rowMax
    let rowSum := c.writeStats
      (fun wid lane r ↦ warpReduce (· + ·) (fun lane ↦ s.rSum wid lane r) lane) m.rowSum
    fun wid lane r i ↦
      let row := c.statsRow wid lane r
      let globalMax :=
        (List.range c.warpsN).foldl (fun a n ↦ max a (rowMax (n * c.kBlockM + row))) .negInf
      let globalSum := (List.range c.warpsN).foldl
        (fun a n ↦ a + rowSum (n * c.kBlockM + row) *
          .exp2 E ((rowMax (n * c.kBlockM + row) - globalMax) * .fin scale)) (.fin 0)
      let partialScale := Num.ifNegInf (s.rMax wid lane r) (.fin 0)
        (.exp2 E ((s.rMax wid lane r - globalMax) * .fin scale))
      let invSum := Num.ifZero globalSum (.fin 1) (partialScale / globalSum)
      s.rO wid lane r i * invSum
  else normalizeRows s

/-- `reduce_o_warps_n`: the warps of column 0 add the partial outputs of the other columns. -/
def reduceOWarpsN (rO : Scores F) (sO : ℕ × ℕ × ℕ → Num F) : Scores F × (ℕ × ℕ × ℕ → Num F) :=
  if 1 < c.warpsN then
    let sO :=
      c.grid.oR2s (fun wid ↦ if 0 < wid / c.warpsM then some (wid / c.warpsM - 1) else none) rO sO
    (fun wid lane r i ↦
      if wid / c.warpsM = 0 then
        (List.range' 1 (c.warpsN - 1)).foldl
          (fun a n ↦ a + sO (n - 1, c.grid.outRow wid lane r, c.grid.outCol wid lane i))
            (rO wid lane r i)
      else rO wid lane r i, sO)
  else (rO, sO)

def oStore (rO : Scores F) (sO : ℕ × ℕ × ℕ → Num F) : ℕ × ℕ × ℕ → Num F :=
  let x := c.reduceOWarpsN rO sO
  if c.warpsN = 1 then c.grid.oR2s (fun _ ↦ some 0) x.1 x.2
  else c.grid.oR2s (fun wid ↦ if wid / c.warpsM = 0 then some 0 else none) x.1 x.2

def tile (o : Operands F) (qBlock kBlocks : ℕ) (m : SharedMemory F) : ℕ × ℕ → Num F := fun a ↦
  c.oStore (c.normalizeStats E scale (c.grid.kLoop E scale o qBlock kBlocks) m) m.sO (0, a)

variable {c E scale} {o : Operands F} {qBlock n wid lane r : ℕ}

theorem sum_slices {M : Type} [AddCommMonoid M] {warpM : ℕ} (hM : warpM < c.warpsM)
    (f : ℕ → M) (n : ℕ) : ∑ w ∈ range c.warpsN, ∑ p ∈ range n ×ˢ range (8 * c.grid.wn),
        f (c.grid.column (c.warpAt warpM w) p) =
      ∑ x ∈ range (n * c.kBlockN), f x := by
  have hwn : 8 * c.grid.wn = 16 * c.wk := by
    have h : c.grid.wn = 2 * c.wk := c.wn_eq
    omega
  have hstrip : ∀ w, c.grid.strip (c.warpAt warpM w) = w * (16 * c.wk) :=
    fun w ↦ congrArg (· * (16 * c.wk)) (warpAt_div hM w)
  have hN : c.grid.kBlockN = c.kBlockN := rfl
  simp only [sum_product, column, hstrip, hwn, hN]
  rw [sum_comm, sum_range_mul]
  refine sum_congr rfl fun b _ ↦ ?_
  rw [c.kBlockN_eq, sum_range_mul]

theorem globalRow_congr {w : ℕ} (hl : lane < 32) (h : w % c.warpsM = wid % c.warpsM) :
    c.grid.globalRow qBlock w lane r = c.grid.globalRow qBlock wid lane r := by
  have hrow : c.scoreRow w lane r = c.scoreRow wid lane r := by
    rw [scoreRow_eq hl, scoreRow_eq hl, h]
  exact congrArg (qBlock * c.kBlockM + ·) hrow

theorem rowMax_apply (hs : 0 < scale) (m : ℕ → Num F) (hl : lane < 32) (hr : r < 2 * c.wm) {w : ℕ}
    (hw : w < c.warpsN) :
    c.writeStats (c.grid.kLoop E scale o qBlock n).rMax m (w * c.kBlockM + c.statsRow wid lane r) =
      .ofBot (c.grid.sliceMax o (c.grid.globalRow qBlock wid lane r)
        (c.warpAt (wid % c.warpsM) w) n) := by
  rw [writeStats_apply _ _ hl hr hw,
    (kLoop_running hs (warpAt_lt (c.warpM_lt wid) hw) (quadLane_lt hl (by omega)) hr).rMax,
    globalRow_quadLane (by omega), globalRow_congr hl (warpAt_mod (c.warpM_lt wid) w)]

theorem rowSum_apply (hs : 0 < scale) (m : ℕ → Num F) (hl : lane < 32) (hr : r < 2 * c.wm) {w : ℕ}
    (hw : w < c.warpsN) :
    c.writeStats (fun wid lane r ↦
        warpReduce (· + ·) (fun lane ↦ (c.grid.kLoop E scale o qBlock n).rSum wid lane r) lane) m
        (w * c.kBlockM + c.statsRow wid lane r) =
      .fin (∑ p ∈ range n ×ˢ range (8 * c.grid.wn),
        weight E scale
          (c.grid.score o (c.grid.globalRow qBlock wid lane r)
            (c.grid.column (c.warpAt (wid % c.warpsM) w) p))
          (c.grid.sliceMax o (c.grid.globalRow qBlock wid lane r)
            (c.warpAt (wid % c.warpsM) w) n)) := by
  rw [writeStats_apply _ _ hl hr hw,
    rowSum_eq hs (warpAt_lt (c.warpM_lt wid) hw) (quadLane_lt hl (by omega)) hr,
    globalRow_quadLane (by omega), globalRow_congr hl (warpAt_mod (c.warpM_lt wid) w)]

/-- Some slice of a row has seen a finite score: the first one sees column 0. -/
theorem exists_globalMax (c : Traits) (o : Operands F) (R : ℕ) {warpM : ℕ} (hM : warpM < c.warpsM)
    (hn : 0 < n) :
    ∃ g : F, (range c.warpsN).sup (fun w ↦ c.grid.sliceMax o R (c.warpAt warpM w) n) = g := by
  have hwn : 0 < 8 * c.grid.wn := by
    have h1 : c.grid.wn = 2 * c.wk := c.wn_eq
    have h2 := c.kBlockN_pos
    rw [c.kBlockN_eq] at h2
    have := Nat.pos_of_mul_pos_left h2
    omega
  have hcol : c.grid.column (c.warpAt warpM 0) (0, 0) = 0 := by
    have hstrip : c.grid.strip (c.warpAt warpM 0) = 0 * (16 * c.wk) :=
      congrArg (· * (16 * c.wk)) (warpAt_div hM 0)
    simp only [column, hstrip, Nat.zero_mul, Nat.add_zero]
  have hle : c.grid.score o R 0 ≤ (range c.warpsN).sup fun w ↦
      c.grid.sliceMax o R (c.warpAt warpM w) n :=
    calc
      c.grid.score o R 0 = c.grid.score o R (c.grid.column (c.warpAt warpM 0) (0, 0)) := by
        rw [hcol]
      _ ≤ c.grid.sliceMax o R (c.warpAt warpM 0) n := score_le_sliceMax hn hwn
      _ ≤ _ :=
        le_sup (f := fun w ↦ c.grid.sliceMax o R (c.warpAt warpM w) n) (mem_range.2 c.warpsN_pos)
  obtain ⟨g, hg⟩ :=
    WithBot.ne_bot_iff_exists.1 (ne_bot_of_le_ne_bot (score_zero_ne_bot c.grid o R) hle)
  exact ⟨g, hg.symm⟩

variable [IsStrictOrderedRing F]

/-- Each slice ends with its share of the quotient, whatever its own maximum was. -/
theorem normalizeStats_of_slices (hs : 0 < scale) (hn : 0 < n) (hN : 1 < c.warpsN)
    (m : SharedMemory F) (hw : wid < c.kNWarps) (hl : lane < 32) (hr : r < 2 * c.wm) (i : ℕ) :
    c.normalizeStats E scale (c.grid.kLoop E scale o qBlock n) m wid lane r i =
      .fin ((∑ p ∈ range n ×ˢ range (8 * c.grid.wn),
          mass E scale (c.grid.score o (c.grid.globalRow qBlock wid lane r) (c.grid.column wid p)) *
            o.V (c.grid.column wid p) (c.grid.outCol wid lane i)) /
        ∑ x ∈ range (n * c.kBlockN),
        mass E scale (c.grid.score o (c.grid.globalRow qBlock wid lane r) x)) := by
  set R := c.grid.globalRow qBlock wid lane r with hR
  set M := wid % c.warpsM
  have hM : M < c.warpsM := c.warpM_lt wid
  set y := fun w ↦ c.grid.sliceMax o R (c.warpAt M w) n
  obtain ⟨g, hg⟩ := exists_globalMax c o R hM hn
  have hy : ∀ w < c.warpsN, y w ≤ g := fun w hw ↦ hg ▸ le_sup (f := y) (mem_range.2 hw)
  have hwid : c.warpAt M (wid / c.warpsM) = wid := Nat.mod_add_div wid c.warpsM
  have hown : c.grid.sliceMax o R wid n ≤ g := by
    have h := hy _ (c.warpN_lt hw)
    rwa [show y (wid / c.warpsM) = c.grid.sliceMax o R (c.warpAt M (wid / c.warpsM)) n from rfl,
      hwid] at h
  set S := ∑ x ∈ range (n * c.kBlockN), weight E scale (c.grid.score o R x) g with hS
  have hpos : S ≠ 0 := by
    have h0 : 0 ∈ range (n * c.kBlockN) := mem_range.2 (Nat.mul_pos hn c.kBlockN_pos)
    exact (sum_weight_pos h0 (score_zero_ne_bot c.grid o R) g).ne'
  have hmax : (List.range c.warpsN).foldl (fun a w ↦ max a
      (c.writeStats (c.grid.kLoop E scale o qBlock n).rMax m.rowMax
        (w * c.kBlockM + c.statsRow wid lane r)))
      .negInf = .fin g := by
    refine (batchReduce_max (fun w hw ↦ rowMax_apply hs _ hl hr hw) ⊥).trans ?_
    rw [bot_sup_eq, hg]
    rfl
  have hsum : (List.range c.warpsN).foldl (fun a w ↦ a +
      c.writeStats (fun wid lane r ↦
        warpReduce (· + ·) (fun lane ↦ (c.grid.kLoop E scale o qBlock n).rSum wid lane r) lane)
          m.rowSum
        (w * c.kBlockM + c.statsRow wid lane r) *
      .exp2 E ((c.writeStats (c.grid.kLoop E scale o qBlock n).rMax m.rowMax
        (w * c.kBlockM + c.statsRow wid lane r) - .fin g) * .fin scale)) (.fin 0) = .fin S := by
    have hterm : ∀ w < c.warpsN, c.writeStats (fun wid lane r ↦
        warpReduce (· + ·) (fun lane ↦ (c.grid.kLoop E scale o qBlock n).rSum wid lane r) lane)
          m.rowSum
        (w * c.kBlockM + c.statsRow wid lane r) *
      .exp2 E ((c.writeStats (c.grid.kLoop E scale o qBlock n).rMax m.rowMax
        (w * c.kBlockM + c.statsRow wid lane r) - .fin g) * .fin scale) =
        .fin (∑ p ∈ range n ×ˢ range (8 * c.grid.wn),
          weight E scale (c.grid.score o R (c.grid.column (c.warpAt M w) p)) g) := by
      intro w hw
      rw [rowSum_apply hs _ hl hr hw, rowMax_apply hs _ hl hr hw, exp2_merge hs, Num.fin_mul,
        sum_merge_one (m := c.grid.sliceMax o R (c.warpAt M w) n) le_rfl (hy w hw)]
    refine (batchReduce_add hterm 0).trans ?_
    rw [zero_add, sum_slices hM fun x ↦ weight E scale (c.grid.score o R x) g]
  have hrun : c.grid.Running E scale o qBlock n (c.grid.kLoop E scale o qBlock n) wid lane r :=
    kLoop_running hs hw hl hr
  rw [normalizeStats, if_pos hN]
  dsimp only
  rw [hmax, hsum, hrun.rO i, hrun.rMax, ← hR, exp2_partial hs, Num.ifZero_fin hpos,
    Num.fin_div _ hpos, Num.fin_mul, ← mul_div_assoc,
    sum_merge (m := c.grid.sliceMax o R wid n) le_rfl hown, hS, sum_weight_div]

theorem normalizeStats_eq (hs : 0 < scale) (hn : 0 < n) (m : SharedMemory F) (hw : wid < c.kNWarps)
    (hl : lane < 32) (hr : r < 2 * c.wm) (i : ℕ) :
    c.normalizeStats E scale (c.grid.kLoop E scale o qBlock n) m wid lane r i =
      .fin ((∑ p ∈ range n ×ˢ range (8 * c.grid.wn),
          mass E scale (c.grid.score o (c.grid.globalRow qBlock wid lane r) (c.grid.column wid p)) *
            o.V (c.grid.column wid p) (c.grid.outCol wid lane i)) /
        ∑ x ∈ range (n * c.kBlockN),
        mass E scale (c.grid.score o (c.grid.globalRow qBlock wid lane r) x)) := by
  rcases Nat.lt_or_ge 1 c.warpsN with hN | hN
  · exact normalizeStats_of_slices hs hn hN m hw hl hr i
  · have h1 : c.warpsN = 1 := hN.antisymm c.warpsN_pos
    have hwn : 8 * c.grid.wn = c.grid.kBlockN := by
      have e1 : c.grid.wn = 2 * c.wk := c.wn_eq
      have e2 : c.grid.kBlockN = 16 * c.wk := c.kBlockN_eq.trans (by rw [h1, Nat.one_mul])
      omega
    have hdiv : wid / c.warpsM = 0 := Nat.lt_one_iff.1 (h1 ▸ c.warpN_lt hw)
    have hstrip : c.grid.strip wid = 0 := (congrArg (· * (16 * c.wk)) hdiv).trans (Nat.zero_mul _)
    rw [normalizeStats, if_neg (by omega), normalizeRows_eq hs hn c.kBlockN_pos hw hl hr hstrip hwn,
      attention, ← sum_column hstrip hwn fun x ↦ mass E scale
      (c.grid.score o (c.grid.globalRow qBlock wid lane r) x) * o.V x (c.grid.outCol wid lane i)]
    rfl

end Epilogue

section Store

variable {F : Type} [Field F] [LinearOrder F] {c : Traits} {wid lane r i : ℕ}
    {rO : Scores F} {z : ℕ → F}

theorem reduceOWarpsN_apply (sO : ℕ × ℕ × ℕ → Num F) (hwid : wid < c.warpsM) (hl : lane < 32)
    (hr : r < 2 * c.wm) (hi : i < 2 * (c.kHeadDim / 8))
    (hz : ∀ w < c.warpsN, rO (c.warpAt wid w) lane r i = .fin (z w)) :
    (c.reduceOWarpsN rO sO).1 wid lane r i = .fin (∑ w ∈ range c.warpsN, z w) := by
  have h0 : rO wid lane r i = .fin (z 0) := hz 0 c.warpsN_pos
  rw [reduceOWarpsN]
  split_ifs with hN
  · have hterm : ∀ w < c.warpsN - 1,
        c.grid.oR2s (fun wid ↦ if 0 < wid / c.warpsM then some (wid / c.warpsM - 1) else none) rO sO
          (1 + w - 1, c.grid.outRow wid lane r, c.grid.outCol wid lane i) = .fin (z (w + 1)) := by
      intro w hw
      rw [partial_apply rO sO hwid hl hr hi (by omega) (by omega), hz _ (by omega), Nat.add_comm]
    have hsucc : c.warpsN = c.warpsN - 1 + 1 := by omega
    dsimp only
    rw [if_pos (Nat.div_eq_of_lt hwid), List.range'_eq_map_range, List.foldl_map, h0]
    refine (batchReduce_add hterm _).trans ?_
    rw [hsucc, sum_range_succ', add_comm]
    rfl
  · have h1 : c.warpsN = 1 := by have := c.warpsN_pos; omega
    rw [h1, sum_range_one]
    exact h0

theorem oStore_apply (sO : ℕ × ℕ × ℕ → Num F) (hwid : wid < c.warpsM) (hl : lane < 32)
    (hr : r < 2 * c.wm) (hi : i < 2 * (c.kHeadDim / 8))
    (hz : ∀ w < c.warpsN, rO (c.warpAt wid w) lane r i = .fin (z w)) :
    c.oStore rO sO (0, c.grid.outRow wid lane r, c.grid.outCol wid lane i) =
      .fin (∑ w ∈ range c.warpsN, z w) := by
  have hlt : wid < c.grid.kNWarps := hwid.trans_le (Nat.le_mul_of_pos_right _ c.warpsN_pos)
  have hinj : ∀ w < c.warpsM, w % c.grid.rowWarps = wid % c.grid.rowWarps → w = wid := fun w hw h ↦
    (Nat.mod_eq_of_lt hw).symm.trans (h.trans (Nat.mod_eq_of_lt hwid))
  rw [← reduceOWarpsN_apply sO hwid hl hr hi hz, oStore]
  split_ifs with h1
  · refine oR2s_apply (g := c.grid) (fun _ ↦ some 0) _ _ hlt hl hr hi rfl fun w hw _ h ↦ hinj w ?_ h
    have hN : c.grid.kNWarps = c.warpsM * c.warpsN := rfl
    rwa [hN, h1, Nat.mul_one] at hw
  · refine oR2s_apply (g := c.grid) (fun wid ↦ if wid / c.warpsM = 0 then some 0
      else none) _ _ hlt hl hr hi
      (if_pos (Nat.div_eq_of_lt hwid)) fun w _ hslot h ↦ ?_
    split_ifs at hslot with hw0
    exact hinj w ((Nat.div_eq_zero_iff_lt c.warpsM_pos).1 hw0) h

end Store

/-- Every element of a tile is the attention of its row over the columns of its blocks, where the
two products agree on rows. -/
theorem tile_eq {F : Type} [Field F] [LinearOrder F] [IsStrictOrderedRing F] {c : Traits}
    {E : Exp2 F} {scale : F} (hs : 0 < scale) (o : Operands F) (qBlock : ℕ) {kBlocks : ℕ}
    (hk : 0 < kBlocks) (hwm : c.wm = 1) (m : SharedMemory F) {row d : ℕ} (hrow : row < c.kBlockM)
    (hd : d < c.kHeadDim) : c.tile E scale o qBlock kBlocks m (row, d) =
      .fin (c.grid.attention E scale o (kBlocks * c.kBlockN) (qBlock * c.kBlockM + row) d) := by
  obtain ⟨wid, hw, lane, hl, r, hr, i, hi, rfl, rfl⟩ := exists_out (g := c.grid) hrow hd
  have hM : wid < c.warpsM := hw
  have hmod : wid % c.warpsM = wid := Nat.mod_eq_of_lt hM
  have hR : c.grid.globalRow qBlock wid lane r = qBlock * c.kBlockM + c.grid.outRow wid lane r := by
    have hr' : r < 2 * c.wm := hr
    have h0 : r / 2 = 0 := by omega
    have h : c.scoreRow wid lane r = c.outRow wid lane r := by
      rw [scoreRow_eq_outRow_iff c hl, hwm, h0]
      omega
    exact congrArg (qBlock * c.kBlockM + ·) h
  rw [← hR, tile, oStore_apply m.sO hM hl hr hi fun w hw ↦
    normalizeStats_eq hs hk m (warpAt_lt hM hw) hl hr i]
  have hrow : ∀ w, c.grid.globalRow qBlock (c.warpAt wid w) lane r =
      c.grid.globalRow qBlock wid lane r :=
    fun w ↦ globalRow_congr hl ((warpAt_mod hM w).trans hmod.symm)
  simp only [hrow, outCol_warpAt, ← sum_div]
  rw [sum_slices hM fun x ↦ mass E scale (c.grid.score o (c.grid.globalRow qBlock wid lane r) x) *
    o.V x (c.grid.outCol wid lane i)]
  rfl

end MMnNkN.Traits

end Sm120.Flash
