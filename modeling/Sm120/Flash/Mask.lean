import Sm120.Flash.Config
import Sm120.Flash.Forward
import Sm120.Lib.Register

namespace Sm120.Flash

open Lib WarpGrid

namespace WarpGrid

variable {F : Type} (g : WarpGrid)

/-- The loops of `causal_mask` over the registers of a thread: `((m0, m1), (n0, n1))`. -/
def maskCoords : List ((ℕ × ℕ) × ℕ × ℕ) :=
  (List.range g.wm).flatMap fun m1 ↦ (List.range 2).flatMap fun m0 ↦
    (List.range g.wn).flatMap fun n1 ↦ (List.range 2).map fun n0 ↦ ((m0, m1), n0, n1)

def maskRegion (qBlock i wid lane : ℕ) (x : (ℕ × ℕ) × ℕ × ℕ) (a : ℕ × ℕ) : Prop :=
  a = (x.1.1 + 2 * x.1.2, x.2.1 + 2 * x.2.2) ∧
    qBlock * g.kBlockM + g.maskRow wid lane x.1.1 x.1.2 <
      i * g.kBlockN + g.maskCol wid lane x.2.1 x.2.2

instance (qBlock i wid lane : ℕ) (x : (ℕ × ℕ) × ℕ × ℕ) :
    DecidablePred (g.maskRegion qBlock i wid lane x) :=
  fun _ ↦ inferInstanceAs (Decidable (_ ∧ _))

/-- `causal_mask`, one register after the other. -/
def causalMaskLoop (qBlock i : ℕ) (rS : Scores F) : Scores F := fun wid lane r j ↦
  g.maskCoords.foldl (storeRegion (g.maskRegion qBlock i wid lane) fun _ _ ↦ .negInf)
    (fun a ↦ rS wid lane a.1 a.2) (r, j)

/-- The mask of block `i` with the test that skips it. -/
def maskStep (qBlock i : ℕ) (rS : Scores F) : Scores F :=
  if (i + 1) * g.kBlockN > qBlock * g.kBlockM then g.causalMaskLoop qBlock i rS else rS

def scoreOf (rS : Scores F) (x : Register) : Num F :=
  rS x.wid x.lane (x.v1 + 2 * x.m) (x.v0 + 2 * x.n)

variable {g}

theorem mem_maskCoords {x : (ℕ × ℕ) × ℕ × ℕ} :
    x ∈ g.maskCoords ↔ (x.1.1 < 2 ∧ x.1.2 < g.wm) ∧ x.2.1 < 2 ∧ x.2.2 < g.wn := by
  obtain ⟨⟨m0, m1⟩, n0, n1⟩ := x
  simp only [maskCoords, List.mem_flatMap, List.mem_map, List.mem_range, Prod.mk.injEq]
  constructor
  · rintro ⟨m1, hm1, m0, hm0, n1, hn1, n0, hn0, ⟨rfl, rfl⟩, rfl, rfl⟩
    exact ⟨⟨hm0, hm1⟩, hn0, hn1⟩
  · intro ⟨⟨hm0, hm1⟩, hn0, hn1⟩
    exact ⟨m1, hm1, m0, hm0, n1, hn1, n0, hn0, ⟨rfl, rfl⟩, rfl, rfl⟩

theorem causalMaskLoop_eq (qBlock i : ℕ) (rS : Scores F) (wid lane : ℕ) {r j : ℕ}
    (hr : r < 2 * g.wm) (hj : j < 2 * g.wn) :
    g.causalMaskLoop qBlock i rS wid lane r j = g.causalMask qBlock i rS wid lane r j := by
  have hkey : ∀ x ∈ g.maskCoords, g.maskRegion qBlock i wid lane x (r, j) →
      x = ((r % 2, r / 2), j % 2, j / 2) := by
    intro ⟨⟨m0, m1⟩, n0, n1⟩ hx hreg
    obtain ⟨⟨hm0, -⟩, hn0, -⟩ := mem_maskCoords.1 hx
    have he := hreg.1
    dsimp only at hm0 hn0 he
    rw [Prod.mk.injEq] at he
    simp only [Prod.mk.injEq]
    omega
  rw [causalMaskLoop, causalMask]
  split_ifs with hlt
  · apply foldl_storeRegion_of_mem (i := ((r % 2, r / 2), j % 2, j / 2))
      (mem_maskCoords.2 (by dsimp only; omega))
    · exact ⟨by rw [Nat.mod_add_div, Nat.mod_add_div], hlt⟩
    · exact hkey
  · apply foldl_storeRegion_of_notMem
    intro x hx hreg
    obtain rfl := hkey x hx hreg
    exact hlt hreg.2

theorem blockScores_eq_maskStep [Field F] [LinearOrder F] (o : Operands F) (ho : o.causal = true)
    (qBlock i : ℕ) {x : Register} (hx : x.Valid g.kNWarps g.wm g.wn) :
    scoreOf (g.blockScores o qBlock i) x =
      scoreOf (g.maskStep qBlock i (g.gemmFlash (localTile g.kBlockM o.Q qBlock)
        (localTile g.kBlockN o.K i))) x := by
  have h0 := hx.v0
  have h1 := hx.v1
  have hm := hx.m
  have hn := hx.n
  simp only [scoreOf, blockScores, maskStep, ho, true_and]
  split_ifs
  · rw [causalMaskLoop_eq _ _ _ _ _ (by omega) (by omega)]
  · rfl

end WarpGrid

/-- The causal loop over the blocks of a tile masks the pairs above the diagonal and no others. -/
structure MaskExact {P : Problem} {g : WarpGrid} (l : Launch P g) (qBlock : ℕ) : Prop where
  /-- a row of the tile and a column of its blocks meet in one register of one block -/
  register : ∀ row < g.kBlockM, ∀ col < l.kBlocks qBlock * g.kBlockN, ∃! y : ℕ × Register,
    (y.1 < l.kBlocks qBlock ∧ y.2.Valid g.kNWarps g.wm g.wn) ∧
      ((g.mmaQK.coord y.2).1, y.1 * g.kBlockN + (g.mmaQK.coord y.2).2) = (row, col)
  inside : ∀ x : Register, x.Valid g.kNWarps g.wm g.wn →
    (g.mmaQK.coord x).1 < g.kBlockM ∧ (g.mmaQK.coord x).2 < g.kBlockN
  /-- it becomes minus infinity when the column lies beyond the row, and keeps its score
  otherwise -/
  masked : ∀ (F : Type) (rS : Scores F) (i : ℕ) (x : Register), x.Valid g.kNWarps g.wm g.wn →
    scoreOf (g.maskStep qBlock i rS) x =
      if qBlock * g.kBlockM + (g.mmaQK.coord x).1 < i * g.kBlockN + (g.mmaQK.coord x).2 then .negInf
      else scoreOf rS x
  /-- these are the scores that the forward pass goes on with -/
  scores : ∀ (F : Type) [Field F] [LinearOrder F] (o : Operands F), o.causal = true →
    ∀ (i : ℕ) (x : Register), x.Valid g.kNWarps g.wm g.wn → scoreOf (g.blockScores o qBlock i) x =
      scoreOf (g.maskStep qBlock i (g.gemmFlash (localTile g.kBlockM o.Q qBlock)
        (localTile g.kBlockN o.K i))) x
  skipped : ∀ i < l.kBlocks qBlock, ¬ (i + 1) * g.kBlockN > qBlock * g.kBlockM →
    ∀ row < g.kBlockM, ∀ col < g.kBlockN, i * g.kBlockN + col ≤ qBlock * g.kBlockM + row
  covered : ∀ row < g.kBlockM, ∀ col ≤ qBlock * g.kBlockM + row,
    ∃ i < l.kBlocks qBlock, i * g.kBlockN ≤ col ∧ col < (i + 1) * g.kBlockN
  bounded : ∀ i < l.kBlocks qBlock, (i + 1) * g.kBlockN ≤ P.seqLen

section Exact

variable {P : Problem} {g : WarpGrid} {rowPlace colPlace : ℕ → ℕ → ℕ} {A B : ℕ}

theorem maskStep_eq {F : Type} (qBlock i : ℕ) (rS : Scores F) {x : Register}
    (hx : x.Valid g.kNWarps g.wm g.wn) (hcol : (g.mmaQK.coord x).2 < g.kBlockN) :
    scoreOf (g.maskStep qBlock i rS) x =
      if qBlock * g.kBlockM + (g.mmaQK.coord x).1 < i * g.kBlockN + (g.mmaQK.coord x).2 then .negInf
      else scoreOf rS x := by
  have h0 := hx.v0
  have h1 := hx.v1
  have hm := hx.m
  have hn := hx.n
  have e1 : (x.v1 + 2 * x.m) % 2 = x.v1 ∧ (x.v1 + 2 * x.m) / 2 = x.m := by omega
  have e0 : (x.v0 + 2 * x.n) % 2 = x.v0 ∧ (x.v0 + 2 * x.n) / 2 = x.n := by omega
  have hrow := g.maskRow_eq x.wid hx.wid x.lane hx.lane (x.v1 + 2 * x.m)
  have hcol' := g.maskCol_eq x.wid hx.wid x.lane (x.v0 + 2 * x.n)
  rw [scoreOf, maskStep]
  by_cases hskip : (i + 1) * g.kBlockN > qBlock * g.kBlockM
  · rw [if_pos hskip, causalMaskLoop_eq _ _ _ _ _ (by omega) (by omega), causalMask, hrow, hcol',
      e1.1, e1.2, e0.1, e0.2]
    rfl
  · -- the whole block lies on or below the diagonal
    rw [if_neg hskip]
    rw [Nat.succ_mul] at hskip
    rw [if_neg (by omega)]
    rfl

theorem maskExact_of_covers (hg : g.mmaQK.Covers A B g.wm g.wn rowPlace colPlace)
    (hw : g.kNWarps = A * B) (hM : g.kBlockM = 16 * (A * g.wm)) (hN : g.kBlockN = 8 * (B * g.wn))
    (l : Launch P g) (hc : P.causal = true) {qBlock : ℕ} (hq : qBlock < l.mNum) :
    MaskExact l qBlock := by
  have hNpos := l.kBlockN_pos
  have hinside : ∀ x : Register, x.Valid g.kNWarps g.wm g.wn →
      (g.mmaQK.coord x).1 < g.kBlockM ∧ (g.mmaQK.coord x).2 < g.kBlockN := by
    intro x hx
    rw [hw] at hx
    rw [hM, hN]
    exact hg.coord_lt hx
  have hend : (qBlock + 1) * g.kBlockM ≤ l.kBlocks qBlock * g.kBlockN := by
    rw [Launch.kBlocks, if_pos hc]
    exact Launch.le_ceilDiv_mul _ hNpos
  constructor
  · intro row hrow col hcol
    have hlt := Nat.mod_lt col hNpos
    rw [hw]
    have hrow' : row < 16 * (A * g.wm) := hM ▸ hrow
    have hcol' : col % g.kBlockN < 8 * (B * g.wn) := hN ▸ hlt
    obtain ⟨x, ⟨hx, hxe⟩, huniq⟩ := hg.existsUnique hrow' hcol'
    refine ⟨(col / g.kBlockN, x), ⟨⟨(Nat.div_lt_iff_lt_mul hNpos).2 hcol, hx⟩, ?_⟩, ?_⟩
    · rw [hxe, Nat.div_add_mod']
    · rintro ⟨i, y⟩ ⟨⟨-, hy⟩, he⟩
      dsimp only at hy he
      have hyc := (hinside y (hw ▸ hy)).2
      rw [Prod.mk.injEq] at he
      obtain ⟨rfl, rfl⟩ := he
      have hdiv : (i * g.kBlockN + (g.mmaQK.coord y).2) / g.kBlockN = i := by
        rw [Nat.add_comm, Nat.add_mul_div_right _ _ hNpos, Nat.div_eq_of_lt hyc, Nat.zero_add]
      have hmod : (i * g.kBlockN + (g.mmaQK.coord y).2) % g.kBlockN = (g.mmaQK.coord y).2 := by
        rw [Nat.mul_add_mod_self_right, Nat.mod_eq_of_lt hyc]
      rw [hdiv, huniq y ⟨hy, by rw [hmod]⟩]
  · exact hinside
  · intro F rS i x hx
    exact maskStep_eq qBlock i rS hx (hinside x hx).2
  · intro F _ _ o ho i x hx
    exact blockScores_eq_maskStep o ho qBlock i hx
  · intro i _ hskip row _ col hcol
    rw [Nat.succ_mul] at hskip
    omega
  · intro row hrow col hcol
    rw [Nat.succ_mul] at hend
    have hlt : col / g.kBlockN < l.kBlocks qBlock := (Nat.div_lt_iff_lt_mul hNpos).2 (by omega)
    refine ⟨col / g.kBlockN, hlt, Nat.div_mul_le_self _ _, ?_⟩
    rw [Nat.succ_mul]
    exact Nat.lt_div_mul_add hNpos
  · intro i hi
    rw [← l.nNum_mul]
    exact Nat.mul_le_mul_right _ (hi.trans_le (l.kBlocks_le hq))

end Exact

theorem MMnNkN.Traits.covers (c : MMnNkN.Traits) : c.mmaQK.Covers c.warpsM c.warpsN c.wm c.wn
    (fun u j ↦ u * c.wm + j) fun u j ↦ u * c.wn + j where
  rows := shares_strips _ _
  cols := shares_strips _ _
  row_eq wid _ lane hl v1 h1 m := by
    rw [TiledMMA.row, TiledMMA.warpM]
    refine (Layout.owned_strips _ _ (c.warpM_lt wid) (atomRow_lt hl h1)).trans ?_
    ring
  col_eq wid hw lane v0 h0 n := by
    have h8 : 8 * c.wn = 16 * c.wk := by
      rw [c.wn_eq]
      omega
    rw [col_eq hw h0 n, ← h8]
    ring

theorem MMn1k1.Traits.covers (c : MMn1k1.Traits) : c.mmaQK.Covers c.kNWarps 1 c.wm c.wn
    (fun u j ↦ u + c.kNWarps * j) fun u j ↦ u * c.wn + j where
  rows := shares_interleaved _ _
  cols := shares_strips _ _
  row_eq _ _ _ _ _ _ _ := Layout.owned_identity _ _ _ _ _ _
  col_eq wid hw lane v0 _ n := by
    rw [c.mmaQK_col, Nat.div_eq_of_lt (by omega)]
    ring

theorem causal_mask_exact :
    (∀ (c : MMnNkN.Traits) (P : Problem) (l : Launch P c.grid) (qBlock : ℕ), P.causal = true →
      qBlock < l.mNum → MaskExact l qBlock) ∧
    ∀ (c : MMn1k1.Traits) (P : Problem) (l : Launch P c.grid) (qBlock : ℕ), P.causal = true →
      qBlock < l.mNum → MaskExact l qBlock := by
  constructor
  · intro c P l qBlock hc hq
    refine maskExact_of_covers (g := c.grid) c.covers rfl c.kBlockM_grid ?_ l hc hq
    change c.kBlockN = 8 * (c.warpsN * c.wn)
    rw [c.kBlockN_eq, c.wn_eq]
    ring
  · intro c P l qBlock hc hq
    refine maskExact_of_covers (g := c.grid) c.covers (Nat.mul_one _).symm c.kBlockM_eq ?_ l hc hq
    change c.kBlockN = 8 * (1 * c.wn)
    rw [c.kBlockN_eq, c.wn_eq]
    ring

theorem causal_mask_exact_default :
    MaskExact (P := ⟨4, 1, 128, true, by decide, by decide⟩)
      (g := MMnNkN.Config.default.traits.grid)
      ⟨3, by decide, by decide, by decide⟩ 1 ∧
    MaskExact (P := ⟨4, 1, 128, true, by decide, by decide⟩)
      (g := MMn1k1.Config.default.traits.grid)
      ⟨3, by decide, by decide, by decide⟩ 0 :=
  ⟨causal_mask_exact.1 _ _ _ 1 rfl (by decide), causal_mask_exact.2 _ _ _ 0 rfl (by decide)⟩

end Sm120.Flash
