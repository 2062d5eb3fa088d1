import Mathlib.Data.List.ProdSigma
import Sm120.Flash.Softmax
import Sm120.Lib.Grid

namespace Sm120.Flash

open Lib Finset

namespace WarpGrid

section Stores

variable {F : Type} (g : WarpGrid)

def outRegs : List (ℕ × ℕ × ℕ × ℕ) :=
  List.range g.kNWarps ×ˢ List.range 32 ×ˢ List.range (2 * g.wm) ×ˢ List.range
    (2 * (g.kHeadDim / 8))

/-- `O_r2s` of the warps that have an O slot: `a` is a slot, a row and a head dimension. -/
def oR2s (slot : ℕ → Option ℕ) (rO : Scores F) (sO : ℕ × ℕ × ℕ → Num F) : ℕ × ℕ × ℕ → Num F :=
  g.outRegs.foldl
    (storeRegion
      (fun x a ↦ slot x.1 = some a.1 ∧ g.outRow x.1 x.2.1 x.2.2.1 = a.2.1 ∧
        g.outCol x.1 x.2.1 x.2.2.2 = a.2.2)
      fun x _ ↦ rO x.1 x.2.1 x.2.2.1 x.2.2.2)
    sO

variable {g} {wid lane r i : ℕ}

theorem mem_outRegs {x : ℕ × ℕ × ℕ × ℕ} : x ∈ g.outRegs ↔
    x.1 < g.kNWarps ∧ x.2.1 < 32 ∧ x.2.2.1 < 2 * g.wm ∧ x.2.2.2 < 2 * (g.kHeadDim / 8) := by
  obtain ⟨wid, lane, r, i⟩ := x
  simp only [outRegs, List.mem_product, List.mem_range]

theorem outRow_eq (wid lane r : ℕ) :
    g.outRow wid lane r = 16 * (wid % g.rowWarps + g.rowWarps * (r / 2)) +
      (lane / 4 + 8 * (r % 2)) :=
  g.mmaPV_row wid lane _ _

theorem outCol_eq (wid lane i : ℕ) : g.outCol wid lane i = 8 * (i / 2) + (lane % 4 * 2 + i % 2) :=
  g.mmaPV_col wid lane _ _

theorem out_inj {wid' lane' r' i' : ℕ} (hl : lane < 32) (hl' : lane' < 32)
    (hrow : g.outRow wid lane r = g.outRow wid' lane' r')
    (hcol : g.outCol wid lane i = g.outCol wid' lane' i') :
    wid % g.rowWarps = wid' % g.rowWarps ∧ lane = lane' ∧ r = r' ∧ i = i' := by
  rw [outRow_eq, outRow_eq] at hrow
  rw [outCol_eq, outCol_eq] at hcol
  have hm := Nat.mod_lt wid g.rowWarps_pos
  have hm' := Nat.mod_lt wid' g.rowWarps_pos
  have hatom : wid % g.rowWarps + g.rowWarps * (r / 2) =
      wid' % g.rowWarps + g.rowWarps * (r' / 2) := by
    omega
  have hw : wid % g.rowWarps = wid' % g.rowWarps := by
    have h := congrArg (· % g.rowWarps) hatom
    simpa only [Nat.add_mul_mod_self_left, Nat.mod_mod] using h
  have hr : r / 2 = r' / 2 := by
    rw [hw] at hatom
    exact Nat.eq_of_mul_eq_mul_left g.rowWarps_pos (Nat.add_left_cancel hatom)
  omega

theorem exists_out {row d : ℕ} (hrow : row < g.kBlockM) (hd : d < g.kHeadDim) :
    ∃ wid < g.rowWarps, ∃ lane < 32, ∃ r < 2 * g.wm, ∃ i < 2 * (g.kHeadDim / 8),
      g.outRow wid lane r = row ∧ g.outCol wid lane i = d := by
  have hw := Nat.mod_lt (row / 16) g.rowWarps_pos
  have hdiv := Nat.mod_add_div (row / 16) g.rowWarps
  have hm : row / 16 / g.rowWarps < g.wm := by
    rw [g.kBlockM_eq] at hrow
    exact Nat.div_lt_of_lt_mul (Nat.div_lt_of_lt_mul hrow)
  have hhd := g.kHeadDim_mod
  refine ⟨row / 16 % g.rowWarps, hw, row % 8 * 4 + d % 8 / 2, by omega,
    row / 16 / g.rowWarps * 2 + row % 16 / 8, by omega, d / 8 * 2 + d % 2, by omega, ?_, ?_⟩
  · have hr : (row / 16 / g.rowWarps * 2 + row % 16 / 8) / 2 = row / 16 / g.rowWarps := by omega
    rw [outRow_eq, Nat.mod_eq_of_lt hw, hr, hdiv]
    omega
  · rw [outCol_eq]
    omega

theorem oR2s_apply (slot : ℕ → Option ℕ) {idx : ℕ} (rO : Scores F) (sO : ℕ × ℕ × ℕ → Num F)
    (hw : wid < g.kNWarps) (hl : lane < 32) (hr : r < 2 * g.wm) (hi : i < 2 * (g.kHeadDim / 8))
    (hslot : slot wid = some idx)
    (hinj : ∀ w < g.kNWarps, slot w = some idx → w % g.rowWarps = wid % g.rowWarps → w = wid) :
    g.oR2s slot rO sO (idx, g.outRow wid lane r, g.outCol wid lane i) = rO wid lane r i := by
  have hmem : (wid, lane, r, i) ∈ g.outRegs := mem_outRegs.2 ⟨hw, hl, hr, hi⟩
  rw [oR2s, foldl_storeRegion_of_mem hmem ⟨hslot, rfl, rfl⟩]
  rintro ⟨w, l, r', i'⟩ hx ⟨hs, hrow, hcol⟩
  obtain ⟨hw', hl', -, -⟩ := mem_outRegs.1 hx
  obtain ⟨hwid, rfl, rfl, rfl⟩ := out_inj hl' hl hrow hcol
  rw [hinj w hw' hs hwid]

end Stores

section Normalize

variable {F : Type} [Field F] [LinearOrder F] (g : WarpGrid)

/-- `normalize_stats` where a warp holds whole rows. -/
def normalizeRows (s : Consumer F) : Scores F := fun wid lane r i ↦
  let sum := warpReduce (· + ·) (fun lane ↦ s.rSum wid lane r) lane
  let invSum := Num.ifZero sum (.fin 1) (.fin 1 / sum)
  s.rO wid lane r i * invSum

/-- Attention of row `R` over the first `n` columns at head dimension `d`. -/
def attention (E : Exp2 F) (scale : F) (o : Operands F) (n R d : ℕ) : F :=
  (∑ c ∈ range n, mass E scale (g.score o R c) * o.V c d) / ∑ c ∈ range n,
    mass E scale (g.score o R c)

omit [LinearOrder F] in
theorem score_zero_ne_bot (g : WarpGrid) (o : Operands F) (R : ℕ) : g.score o R 0 ≠ ⊥ := by
  rw [score, if_neg (by omega)]
  exact WithBot.coe_ne_bot

variable {g} {E : Exp2 F} {scale : F} {o : Operands F} {qBlock n wid lane r : ℕ}

theorem rowSum_eq (hs : 0 < scale) (hw : wid < g.kNWarps) (hl : lane < 32) (hr : r < 2 * g.wm) :
    warpReduce (· + ·) (fun lane ↦ (g.kLoop E scale o qBlock n).rSum wid lane r) lane =
      .fin (∑ p ∈ range n ×ˢ range (8 * g.wn),
        weight E scale (g.score o (g.globalRow qBlock wid lane r) (g.column wid p))
          (g.sliceMax o (g.globalRow qBlock wid lane r) wid n)) := by
  have h : ∀ q < 4, (g.kLoop E scale o qBlock n).rSum wid (quadLane lane q) r =
      .fin (∑ p ∈ range n ×ˢ range (2 * g.wn),
        weight E scale (g.score o (g.globalRow qBlock wid lane r)
          (g.column wid (p.1, quadCol q p.2)))
          (g.sliceMax o (g.globalRow qBlock wid lane r) wid n)) := by
    intro q hq
    rw [(kLoop_running hs hw (quadLane_lt hl hq) hr).rSum, globalRow_quadLane hq, quadLane_mod _ hq]
  rw [warpReduce_add hl h]
  simp only [sum_product]
  rw [sum_comm]
  congr 1
  exact sum_congr rfl fun b _ ↦ sum_quadCol (fun k ↦ weight E scale
    (g.score o (g.globalRow qBlock wid lane r) (g.column wid (b, k)))
    (g.sliceMax o (g.globalRow qBlock wid lane r) wid n)) _

theorem sum_column {M : Type} [AddCommMonoid M] (hstrip : g.strip wid = 0)
    (hwn : 8 * g.wn = g.kBlockN) (f : ℕ → M) (n : ℕ) :
    ∑ p ∈ range n ×ˢ range (8 * g.wn), f (g.column wid p) = ∑ c ∈ range (n * g.kBlockN), f c := by
  rw [sum_product, sum_range_mul, hwn]
  simp only [column, hstrip, Nat.zero_add]

variable [IsStrictOrderedRing F]

theorem normalizeRows_eq (hs : 0 < scale) (hn : 0 < n) (hN : 0 < g.kBlockN) (hw : wid < g.kNWarps)
    (hl : lane < 32) (hr : r < 2 * g.wm) (hstrip : g.strip wid = 0)
    (hwn : 8 * g.wn = g.kBlockN) (i : ℕ) :
    normalizeRows (g.kLoop E scale o qBlock n) wid lane r i =
      .fin (g.attention E scale o (n * g.kBlockN) (g.globalRow qBlock wid lane r)
        (g.outCol wid lane i)) := by
  set R := g.globalRow qBlock wid lane r with hR
  have h0 : ((0, 0) : ℕ × ℕ) ∈ range n ×ˢ range (8 * g.wn) := by
    rw [mem_product, mem_range, mem_range]
    exact ⟨hn, by omega⟩
  have hcol : g.score o R (g.column wid (0, 0)) ≠ ⊥ := by
    simpa only [column, hstrip, Nat.zero_mul, Nat.add_zero] using score_zero_ne_bot g o R
  obtain ⟨m, hm⟩ := WithBot.ne_bot_iff_exists.1 (ne_bot_of_le_ne_bot hcol
    (le_sup (f := fun p ↦ g.score o R (g.column wid p)) h0))
  have hsum : ∑ p ∈ range n ×ˢ range (8 * g.wn),
      weight E scale (g.score o R (g.column wid p)) m ≠ 0 :=
    (sum_weight_pos h0 hcol m).ne'
  rw [normalizeRows, rowSum_eq hs hw hl hr, (kLoop_running hs hw hl hr).rO, ← hR, sliceMax, ← hm]
  rw [Num.ifZero_fin hsum, Num.fin_div _ hsum, Num.fin_mul, mul_one_div, sum_weight_div,
    sum_column hstrip hwn fun c ↦ mass E scale (g.score o R c) * o.V c (g.outCol wid lane i),
    sum_column hstrip hwn fun c ↦ mass E scale (g.score o R c), attention]

end Normalize

end WarpGrid

end Sm120.Flash
