import Sm120.Flash.Traits

namespace Sm120.Flash

open Lib Finset

/-- `get_sVt_S`: V in shared memory seen through `LayoutVtStage`. -/
def getSVt {F : Type} (kHeadDim kBlockN : ℕ) (sV : ℕ → ℕ → F) (d k : ℕ) : F :=
  let i := Layout.offset [(kHeadDim, kBlockN), (kBlockN, 1)] [d, k]
  sV (i % kBlockN) (i / kBlockN)

theorem getSVt_eq {F : Type} {kHeadDim kBlockN : ℕ} (sV : ℕ → ℕ → F) (d : ℕ) {k : ℕ}
    (hk : k < kBlockN) : getSVt kHeadDim kBlockN sV d k = sV k d := by
  simp only [getSVt, Layout.offset, Nat.mul_one, Nat.add_zero]
  rw [Nat.mul_add_mod_self_right, Nat.mod_eq_of_lt hk, Nat.add_comm,
    Nat.add_mul_div_right _ _ (by omega), Nat.div_eq_of_lt hk, Nat.zero_add]

/-- What the arithmetic of a kernel depends on: its tiled products and its mask, which agree on the
row and the column of every register. A warp's columns are one strip. -/
structure WarpGrid where
  kHeadDim : ℕ
  kBlockM : ℕ
  kBlockN : ℕ
  kNWarps : ℕ
  /-- warps along the rows -/
  rowWarps : ℕ
  wm : ℕ
  wn : ℕ
  mmaQK : TiledMMA
  mmaPV : TiledMMA
  maskRow : ℕ → ℕ → ℕ → ℕ → ℕ
  maskCol : ℕ → ℕ → ℕ → ℕ → ℕ
  /-- the first column of a warp -/
  strip : ℕ → ℕ
  kHeadDim_mod : kHeadDim % 32 = 0
  kBlockM_eq : kBlockM = 16 * (rowWarps * wm)
  wn_mod : wn % 2 = 0
  rowWarps_pos : 0 < rowWarps
  strip_le : ∀ wid < kNWarps, strip wid + 8 * wn ≤ kBlockN
  mmaQK_col : ∀ wid < kNWarps, ∀ lane, ∀ v0 < 2, ∀ n,
    mmaQK.col wid lane v0 n = strip wid + n * 8 + atomCol lane v0
  mmaPV_depth : ∀ wid < kNWarps, ∀ lane, ∀ v0 < 2, ∀ v2 < 2, ∀ kk,
    mmaPV.depth wid lane v0 v2 kk = strip wid + kk * 16 + atomDepth lane v0 v2
  mmaPV_row : ∀ wid lane v1 m, mmaPV.row wid lane v1 m =
    16 * (wid % rowWarps + rowWarps * m) + atomRow lane v1
  mmaPV_col : ∀ wid lane v0 n, mmaPV.col wid lane v0 n = 8 * n + atomCol lane v0
  maskRow_eq : ∀ wid < kNWarps, ∀ lane < 32, ∀ r,
    maskRow wid lane (r % 2) (r / 2) = mmaQK.row wid lane (r % 2) (r / 2)
  maskCol_eq : ∀ wid < kNWarps, ∀ lane i,
    maskCol wid lane (i % 2) (i / 2) = mmaQK.col wid lane (i % 2) (i / 2)

namespace WarpGrid

variable (g : WarpGrid)

def productPV {F : Type} [AddCommMonoid F] [Mul F] (rP sV : ℕ → ℕ → F) (wid lane v1 m d : ℕ) : F :=
  g.mmaPV.product g.wm g.wn rP (getSVt g.kHeadDim g.kBlockN sV) wid lane v1 m d

variable {g}

theorem productPV_eq {F : Type} [AddCommMonoid F] [Mul F] {wid lane v1 m : ℕ} (hw : wid < g.kNWarps)
    {rP : ℕ → ℕ → F} {P : ℕ → F} (sV : ℕ → ℕ → F) (d : ℕ)
    (hP : ∀ q < 4, ∀ v0 < 2, ∀ n < g.wn,
      rP (quadLane lane q) ((fragmentC g.wm g.wn).address [v0, v1] m n) =
        P (g.mmaQK.col wid (quadLane lane q) v0 n)) :
    g.productPV rP sV wid lane v1 m d =
      ∑ k ∈ range (8 * g.wn), P (g.strip wid + k) * sV (g.strip wid + k) d := by
  have hcol : ∀ q < 4, ∀ v0 < 2, ∀ n < g.wn,
      rP (quadLane lane q) ((fragmentC g.wm g.wn).address [v0, v1] m n) =
        P (g.strip wid + n * 8 + atomCol (quadLane lane q) v0) := by
    intro q hq v0 h0 n hn
    rw [hP q hq v0 h0 n hn, g.mmaQK_col wid hw _ v0 h0]
  rw [productPV, TiledMMA.product_eq _ _ g.wn_mod _ hcol
    fun q _ v0 h0 v2 h2 kk ↦ g.mmaPV_depth wid hw _ v0 h0 v2 h2 kk]
  refine sum_congr rfl fun k hk ↦ ?_
  have hlt : g.strip wid + k < g.kBlockN :=
    (Nat.add_lt_add_left (mem_range.1 hk) _).trans_le (g.strip_le wid hw)
  rw [getSVt_eq sV d hlt]

end WarpGrid

namespace MMnNkN.Traits

theorem wn_mod (c : Traits) : c.wn % 2 = 0 := by
  rw [c.wn_eq]
  omega

theorem strip_le {c : Traits} {wid : ℕ} (hw : wid < c.kNWarps) :
    wid / c.warpsM * (16 * c.wk) + 8 * c.wn ≤ c.kBlockN := by
  have hwn : 8 * c.wn = 16 * c.wk := by
    rw [c.wn_eq]
    omega
  rw [hwn, c.kBlockN_eq, ← Nat.succ_mul]
  exact Nat.mul_le_mul_right _ (c.warpN_lt hw)

theorem mmaPV_row (c : Traits) (wid lane v1 m : ℕ) :
    c.mmaPV.row wid lane v1 m = 16 * (wid % c.warpsM + c.warpsM * m) + atomRow lane v1 :=
  Layout.owned_identity _ _ _ _ _ _

theorem mmaPV_col (c : Traits) (wid lane v0 n : ℕ) :
    c.mmaPV.col wid lane v0 n = 8 * n + atomCol lane v0 := by
  simp [TiledMMA.col, TiledMMA.warpN, mmaPV, Layout.owned_identity, Nat.mod_one]

theorem kBlockM_grid (c : Traits) : c.kBlockM = 16 * (c.warpsM * c.wm) := by
  rw [c.kBlockM_eq]
  ring

def grid (c : Traits) : WarpGrid where
  kHeadDim := c.kHeadDim
  kBlockM := c.kBlockM
  kBlockN := c.kBlockN
  kNWarps := c.kNWarps
  rowWarps := c.warpsM
  wm := c.wm
  wn := c.wn
  mmaQK := c.mmaQK
  mmaPV := c.mmaPV
  maskRow := c.maskRow
  maskCol := c.maskCol
  strip wid := wid / c.warpsM * (16 * c.wk)
  kHeadDim_mod := c.kHeadDim_mod
  kBlockM_eq := c.kBlockM_grid
  wn_mod := c.wn_mod
  rowWarps_pos := c.warpsM_pos
  strip_le _ hw := strip_le hw
  mmaQK_col _ hw _ _ h0 n := col_eq hw h0 n
  mmaPV_depth _ hw _ _ h0 _ h2 kk := depth_eq hw h0 h2 kk
  mmaPV_row := c.mmaPV_row
  mmaPV_col := c.mmaPV_col
  maskRow_eq _ _ _ hl r := maskRow_eq hl r
  maskCol_eq _ hw _ i := maskCol_eq hw i

end MMnNkN.Traits

namespace MMn1k1.Traits

theorem wn_mod (c : Traits) : c.wn % 2 = 0 := by
  rw [c.wn_eq]
  omega

theorem strip_le (c : Traits) : 0 + 8 * c.wn ≤ c.kBlockN := by
  rw [c.wn_eq, c.kBlockN_eq]
  omega

theorem mmaQK_col (c : Traits) (wid lane v0 n : ℕ) :
    c.mmaQK.col wid lane v0 n = 0 + n * 8 + atomCol lane v0 := by
  simp [TiledMMA.col, TiledMMA.warpN, mmaQK, Layout.owned_identity, Nat.mod_one, Nat.mul_comm]

theorem mmaPV_depth (c : Traits) (wid lane v0 v2 kk : ℕ) :
    c.mmaPV.depth wid lane v0 v2 kk = 0 + kk * 16 + atomDepth lane v0 v2 := by
  rw [depth_eq]
  omega

theorem mmaPV_row (c : Traits) (wid lane v1 m : ℕ) :
    c.mmaPV.row wid lane v1 m = 16 * (wid % c.kNWarps + c.kNWarps * m) + atomRow lane v1 :=
  Layout.owned_identity _ _ _ _ _ _

theorem mmaPV_col (c : Traits) (wid lane v0 n : ℕ) :
    c.mmaPV.col wid lane v0 n = 8 * n + atomCol lane v0 := by
  simp [TiledMMA.col, TiledMMA.warpN, mmaPV, Layout.owned_identity, Nat.mod_one]

def grid (c : Traits) : WarpGrid where
  kHeadDim := c.kHeadDim
  kBlockM := c.kBlockM
  kBlockN := c.kBlockN
  kNWarps := c.kNWarps
  rowWarps := c.kNWarps
  wm := c.wm
  wn := c.wn
  mmaQK := c.mmaQK
  mmaPV := c.mmaPV
  maskRow := c.maskRow
  maskCol _ := maskCol
  strip _ := 0
  kHeadDim_mod := c.kHeadDim_mod
  kBlockM_eq := c.kBlockM_eq
  wn_mod := c.wn_mod
  rowWarps_pos := c.kNWarps_pos
  strip_le _ _ := c.strip_le
  mmaQK_col wid _ lane v0 _ n := c.mmaQK_col wid lane v0 n
  mmaPV_depth wid _ lane v0 _ v2 _ kk := c.mmaPV_depth wid lane v0 v2 kk
  mmaPV_row := c.mmaPV_row
  mmaPV_col := c.mmaPV_col
  maskRow_eq _ hw _ _ r := maskRow_eq hw r
  maskCol_eq wid _ _ i := maskCol_eq wid i

end MMn1k1.Traits

end Sm120.Flash
