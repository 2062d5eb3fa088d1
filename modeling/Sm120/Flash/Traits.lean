import Sm120.Lib.Fragment

namespace Sm120.Flash

open Lib Finset

namespace MMnNkN

/-- The parameters of `Flash_fwd_kernel_traits` that its static assertions admit. -/
structure Traits where
  kHeadDim : ℕ
  kBlockM : ℕ
  kBlockN : ℕ
  warpsM : ℕ
  warpsN : ℕ
  kHeadDim_pos : 0 < kHeadDim
  kBlockM_pos : 0 < kBlockM
  kBlockN_pos : 0 < kBlockN
  warpsM_pos : 0 < warpsM
  warpsN_pos : 0 < warpsN
  kHeadDim_mod : kHeadDim % 32 = 0
  kBlockM_mod : kBlockM % (16 * warpsM) = 0
  kBlockN_mod : kBlockN % (16 * warpsN) = 0

namespace Traits

variable (c : Traits)

def kNWarps : ℕ := c.warpsM * c.warpsN

/-- Row repetitions of a warp. -/
def wm : ℕ := c.kBlockM / (16 * c.warpsM)

/-- Column repetitions of a warp in the score tile. -/
def wn : ℕ := c.kBlockN / (8 * c.warpsN)

/-- Depth repetitions of a warp in the product with V. -/
def wk : ℕ := c.kBlockN / (16 * c.warpsN)

def mmaQK : TiledMMA where
  warps := (c.warpsM, c.warpsN, 1)
  permM := Layout.strips 16 c.warpsM c.wm
  permN := Layout.strips 8 c.warpsN c.wn
  permK := [(16, 1)]

def mmaPV : TiledMMA where
  warps := (c.warpsM, 1, c.warpsN)
  permM := [(c.kBlockM, 1)]
  permN := [(c.kHeadDim, 1)]
  permK := Layout.strips 16 c.warpsN c.wk

/-- Tile row of the scores in row `r` of `rS_RC`, whose row coordinate is `(v1, m)`. -/
def scoreRow (wid lane r : ℕ) : ℕ := c.mmaQK.row wid lane (r % 2) (r / 2)

/-- Tile column of the scores in column `i` of `rS_RC`, whose column coordinate is `(v0, n)`. -/
def scoreCol (wid lane i : ℕ) : ℕ := c.mmaQK.col wid lane (i % 2) (i / 2)

/-- Tile row to which row `r` of `rO_RC` is stored. -/
def outRow (wid lane r : ℕ) : ℕ := c.mmaPV.row wid lane (r % 2) (r / 2)

def outCol (wid lane i : ℕ) : ℕ := c.mmaPV.col wid lane (i % 2) (i / 2)

/-- Tile row at which `causal_mask` sees the registers of row coordinate `(m0, m1)`. -/
def maskRow (wid lane m0 m1 : ℕ) : ℕ :=
  wid % c.warpsM * (c.kBlockM / c.warpsM) + lane / 4 + m1 * 16 + m0 * 8

/-- Tile column at which `causal_mask` sees the registers of column coordinate `(n0, n1)`. -/
def maskCol (wid lane n0 n1 : ℕ) : ℕ :=
  wid / c.warpsM * (c.kBlockN / c.warpsN) + lane % 4 * 2 + n1 * 8 + n0

/-- Row slot that `normalize_stats` uses for row `r`. -/
def statsRow (wid lane r : ℕ) : ℕ := wid % c.warpsM * (c.kBlockM / c.warpsM) + lane / 4 + r * 8

theorem kBlockM_eq : c.kBlockM = c.warpsM * (16 * c.wm) := by
  have h : c.kBlockM = 16 * c.warpsM * c.wm :=
    (Nat.mul_div_cancel' (Nat.dvd_of_mod_eq_zero c.kBlockM_mod)).symm
  rw [h]
  ring

theorem kBlockN_eq : c.kBlockN = c.warpsN * (16 * c.wk) := by
  have h : c.kBlockN = 16 * c.warpsN * c.wk :=
    (Nat.mul_div_cancel' (Nat.dvd_of_mod_eq_zero c.kBlockN_mod)).symm
  rw [h]
  ring

theorem wn_eq : c.wn = 2 * c.wk := by
  have h : c.kBlockN = 8 * c.warpsN * (2 * c.wk) := by
    rw [c.kBlockN_eq]
    ring
  rw [wn, h]
  exact Nat.mul_div_cancel_left _ (by have := c.warpsN_pos; omega)

theorem kBlockM_div : c.kBlockM / c.warpsM = 16 * c.wm := by
  rw [c.kBlockM_eq, Nat.mul_div_cancel_left _ c.warpsM_pos]

theorem kBlockN_div : c.kBlockN / c.warpsN = 16 * c.wk := by
  rw [c.kBlockN_eq, Nat.mul_div_cancel_left _ c.warpsN_pos]

theorem wm_pos : 0 < c.wm := by
  have h := c.kBlockM_pos
  rw [c.kBlockM_eq] at h
  exact Nat.pos_of_mul_pos_left (Nat.pos_of_mul_pos_left h)

theorem warpM_lt (wid : ℕ) : wid % c.warpsM < c.warpsM := Nat.mod_lt _ c.warpsM_pos

theorem warpN_lt {wid : ℕ} (hw : wid < c.kNWarps) : wid / c.warpsM < c.warpsN :=
  Nat.div_lt_of_lt_mul hw

def warpAt (warpM warpN : ℕ) : ℕ := warpM + c.warpsM * warpN

variable {c} {wid lane : ℕ}

theorem warpAt_lt {warpM warpN : ℕ} (hm : warpM < c.warpsM) (hn : warpN < c.warpsN) :
    c.warpAt warpM warpN < c.kNWarps := by
  calc warpM + c.warpsM * warpN < c.warpsM * (warpN + 1) := by rw [Nat.mul_succ]; omega
    _ ≤ c.kNWarps := Nat.mul_le_mul_left _ hn

theorem warpAt_mod {warpM : ℕ} (hm : warpM < c.warpsM) (warpN : ℕ) :
    c.warpAt warpM warpN % c.warpsM = warpM := by
  rw [warpAt, Nat.add_mul_mod_self_left, Nat.mod_eq_of_lt hm]

theorem warpAt_div {warpM : ℕ} (hm : warpM < c.warpsM) (warpN : ℕ) :
    c.warpAt warpM warpN / c.warpsM = warpN := by
  rw [warpAt, Nat.add_mul_div_left _ _ c.warpsM_pos, Nat.div_eq_of_lt hm, Nat.zero_add]

theorem scoreRow_eq (hl : lane < 32) (r : ℕ) :
    c.scoreRow wid lane r = wid % c.warpsM * (16 * c.wm) + r / 2 * 16 + atomRow lane (r % 2) := by
  rw [scoreRow, TiledMMA.row, TiledMMA.warpM]
  exact Layout.owned_strips _ _ (c.warpM_lt wid) (atomRow_lt hl (by omega))

theorem outRow_eq (r : ℕ) :
    c.outRow wid lane r = 16 * (wid % c.warpsM + c.warpsM * (r / 2)) + atomRow lane (r % 2) :=
  Layout.owned_identity c.kBlockM _ _ _ _ _

theorem col_eq (hw : wid < c.kNWarps) {v0 : ℕ} (h0 : v0 < 2) (n : ℕ) :
    c.mmaQK.col wid lane v0 n = wid / c.warpsM * (16 * c.wk) + n * 8 + atomCol lane v0 := by
  have h := c.warpN_lt hw
  have hn : 8 * c.wn = 16 * c.wk := by rw [c.wn_eq]; omega
  rw [TiledMMA.col, TiledMMA.warpN, ← hn]
  simp only [mmaQK]
  rw [Nat.mod_eq_of_lt h]
  exact Layout.owned_strips _ _ h (atomCol_lt _ h0)

theorem scoreCol_eq (hw : wid < c.kNWarps) (i : ℕ) :
    c.scoreCol wid lane i = wid / c.warpsM * (16 * c.wk) + i / 2 * 8 + atomCol lane (i % 2) :=
  col_eq hw (by omega) _

theorem outCol_eq (i : ℕ) : c.outCol wid lane i = 8 * (i / 2) + atomCol lane (i % 2) := by
  simp [outCol, TiledMMA.col, TiledMMA.warpN, mmaPV, Layout.owned_identity, Nat.mod_one]

theorem depth_eq (hw : wid < c.kNWarps) {v0 v2 : ℕ} (h0 : v0 < 2) (h2 : v2 < 2) (kk : ℕ) :
    c.mmaPV.depth wid lane v0 v2 kk =
      wid / c.warpsM * (16 * c.wk) + kk * 16 + atomDepth lane v0 v2 := by
  have h := c.warpN_lt hw
  rw [TiledMMA.depth, TiledMMA.warpK]
  simp only [mmaPV, Nat.mul_one]
  rw [Nat.mod_eq_of_lt h]
  exact Layout.owned_strips _ _ h (atomDepth_lt _ h0 h2)

theorem maskRow_eq (hl : lane < 32) (r : ℕ) :
    c.maskRow wid lane (r % 2) (r / 2) = c.scoreRow wid lane r := by
  rw [scoreRow_eq hl, maskRow, kBlockM_div, atomRow]
  ring

theorem maskCol_eq (hw : wid < c.kNWarps) (i : ℕ) :
    c.maskCol wid lane (i % 2) (i / 2) = c.scoreCol wid lane i := by
  rw [scoreCol_eq hw, maskCol, kBlockN_div, atomCol]
  ring

theorem statsRow_eq (hl : lane < 32) (r : ℕ) : c.statsRow wid lane r = c.scoreRow wid lane r := by
  rw [scoreRow_eq hl, statsRow, kBlockM_div, atomRow]
  omega

theorem scoreRow_lt (c : Traits) (wid : ℕ) {lane r : ℕ} (hl : lane < 32) (hr : r < 2 * c.wm) :
    c.scoreRow wid lane r < c.kBlockM := by
  rw [scoreRow_eq hl, c.kBlockM_eq]
  exact Layout.strip_lt (c.warpM_lt wid) (by omega) (atomRow_lt hl (by omega))

theorem outRow_lt (wid : ℕ) {lane r : ℕ} (hl : lane < 32) (hr : r < 2 * c.wm) :
    c.outRow wid lane r < c.kBlockM := by
  have ha := atomRow_lt hl (show r % 2 < 2 by omega)
  have h : wid % c.warpsM + c.warpsM * (r / 2) + 1 ≤ c.warpsM * c.wm := by
    have hm := c.warpM_lt wid
    calc
      wid % c.warpsM + c.warpsM * (r / 2) + 1 ≤ c.warpsM * (r / 2 + 1) := by
        rw [Nat.mul_succ]
        omega
      _ ≤ c.warpsM * c.wm := Nat.mul_le_mul_left _ (by omega)
  have e : c.kBlockM = 16 * (c.warpsM * c.wm) := by rw [c.kBlockM_eq]; ring
  rw [outRow_eq, e]
  omega

theorem outCol_lt (wid lane : ℕ) {i : ℕ} (hi : i < 2 * (c.kHeadDim / 8)) :
    c.outCol wid lane i < c.kHeadDim := by
  have := atomCol_lt lane (show i % 2 < 2 by omega)
  rw [outCol_eq]
  omega

theorem warpM_of_outRow {wid' lane' r r' : ℕ} (hl : lane < 32) (hl' : lane' < 32)
    (h : c.outRow wid lane r = c.outRow wid' lane' r') : wid % c.warpsM = wid' % c.warpsM := by
  have key : ∀ w l r, l < 32 → c.outRow w l r / 16 % c.warpsM = w % c.warpsM := by
    intro w l r hl
    have ha := atomRow_lt hl (show r % 2 < 2 by omega)
    rw [outRow_eq, Nat.mul_add_div (by omega), Nat.div_eq_of_lt ha, Nat.add_zero,
      Nat.add_mul_mod_self_left, Nat.mod_mod]
  rw [← key wid lane r hl, h, key wid' lane' r' hl']

end Traits

end MMnNkN

namespace MMn1k1

structure Traits where
  kHeadDim : ℕ
  kBlockM : ℕ
  kBlockN : ℕ
  kNWarps : ℕ
  kHeadDim_pos : 0 < kHeadDim
  kBlockM_pos : 0 < kBlockM
  kBlockN_pos : 0 < kBlockN
  kNWarps_pos : 0 < kNWarps
  kHeadDim_mod : kHeadDim % 32 = 0
  kBlockM_mod : kBlockM % (kNWarps * 16) = 0
  kBlockN_mod : kBlockN % 16 = 0

namespace Traits

variable (c : Traits)

def wm : ℕ := c.kBlockM / (16 * c.kNWarps)

def wn : ℕ := c.kBlockN / 8

def wk : ℕ := c.kBlockN / 16

def mmaQK : TiledMMA where
  warps := (c.kNWarps, 1, 1)
  permM := [(c.kBlockM, 1)]
  permN := [(c.kBlockN, 1)]
  permK := [(16, 1)]

def mmaPV : TiledMMA where
  warps := (c.kNWarps, 1, 1)
  permM := [(c.kBlockM, 1)]
  permN := [(c.kHeadDim, 1)]
  permK := [(16, 1)]

def scoreRow (wid lane r : ℕ) : ℕ := c.mmaQK.row wid lane (r % 2) (r / 2)

def scoreCol (wid lane i : ℕ) : ℕ := c.mmaQK.col wid lane (i % 2) (i / 2)

def outRow (wid lane r : ℕ) : ℕ := c.mmaPV.row wid lane (r % 2) (r / 2)

def outCol (wid lane i : ℕ) : ℕ := c.mmaPV.col wid lane (i % 2) (i / 2)

def maskRow (wid lane m0 m1 : ℕ) : ℕ := wid * 16 + lane / 4 + m1 * (16 * c.kNWarps) + m0 * 8

def maskCol (lane n0 n1 : ℕ) : ℕ := lane % 4 * 2 + n1 * 8 + n0

theorem kBlockM_eq : c.kBlockM = 16 * (c.kNWarps * c.wm) := by
  have h : c.kBlockM % (16 * c.kNWarps) = 0 := by rw [Nat.mul_comm]; exact c.kBlockM_mod
  rw [wm, ← Nat.mul_assoc, Nat.mul_div_cancel' (Nat.dvd_of_mod_eq_zero h)]

theorem kBlockN_eq : c.kBlockN = 16 * c.wk := by
  have h := c.kBlockN_mod
  unfold wk
  omega

theorem wn_eq : c.wn = 2 * c.wk := by
  have h := c.kBlockN_mod
  unfold wn wk
  omega

variable {c} {wid lane : ℕ}

theorem scoreRow_eq (hw : wid < c.kNWarps) (r : ℕ) :
    c.scoreRow wid lane r = 16 * (wid + c.kNWarps * (r / 2)) + atomRow lane (r % 2) := by
  rw [scoreRow, TiledMMA.row, TiledMMA.warpM]
  simp only [mmaQK]
  rw [Nat.mod_eq_of_lt hw]
  exact Layout.owned_identity _ _ _ _ _ _

theorem outRow_eq (wid lane r : ℕ) : c.outRow wid lane r = c.scoreRow wid lane r := rfl

theorem scoreCol_eq (wid lane i : ℕ) :
    c.scoreCol wid lane i = 8 * (i / 2) + atomCol lane (i % 2) := by
  simp [scoreCol, TiledMMA.col, TiledMMA.warpN, mmaQK, Layout.owned_identity, Nat.mod_one]

theorem outCol_eq (wid lane i : ℕ) : c.outCol wid lane i = 8 * (i / 2) + atomCol lane (i % 2) := by
  simp [outCol, TiledMMA.col, TiledMMA.warpN, mmaPV, Layout.owned_identity, Nat.mod_one]

theorem depth_eq (wid lane v0 v2 kk : ℕ) :
    c.mmaPV.depth wid lane v0 v2 kk = 16 * kk + atomDepth lane v0 v2 := by
  simp [TiledMMA.depth, TiledMMA.warpK, mmaPV, Layout.owned_identity, Nat.mod_one]

theorem maskRow_eq (hw : wid < c.kNWarps) (r : ℕ) :
    c.maskRow wid lane (r % 2) (r / 2) = c.scoreRow wid lane r := by
  rw [scoreRow_eq hw, maskRow, atomRow]
  ring

theorem maskCol_eq (wid i : ℕ) : maskCol lane (i % 2) (i / 2) = c.scoreCol wid lane i := by
  rw [scoreCol_eq, maskCol, atomCol]
  ring

theorem scoreRow_lt (hw : wid < c.kNWarps) (hl : lane < 32) {r : ℕ} (hr : r < 2 * c.wm) :
    c.scoreRow wid lane r < c.kBlockM := by
  have ha := atomRow_lt hl (show r % 2 < 2 by omega)
  have h : wid + c.kNWarps * (r / 2) + 1 ≤ c.kNWarps * c.wm := by
    calc wid + c.kNWarps * (r / 2) + 1 ≤ c.kNWarps * (r / 2 + 1) := by rw [Nat.mul_succ]; omega
      _ ≤ c.kNWarps * c.wm := Nat.mul_le_mul_left _ (by omega)
  rw [scoreRow_eq hw, c.kBlockM_eq]
  omega

end Traits

end MMn1k1

end Sm120.Flash
