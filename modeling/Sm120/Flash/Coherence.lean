import Sm120.Flash.WarpGrid

namespace Sm120.Flash.MMnNkN

open Lib Finset

namespace Traits

variable (c : Traits)

/-- The scores, the mask, the statistics and the stored output of every register row agree on its
tile row. -/
def RowCoherent : Prop :=
  ∀ wid < c.kNWarps, ∀ lane < 32, ∀ r < 2 * c.wm,
    c.scoreRow wid lane r = c.outRow wid lane r ∧
      c.maskRow wid lane (r % 2) (r / 2) = c.scoreRow wid lane r ∧
      c.statsRow wid lane r = c.scoreRow wid lane r

/-- The permuted and the plain M mode agree on a register row where the strip of its warp and the
interleaving of its repetition meet. -/
theorem scoreRow_eq_outRow_iff {wid lane : ℕ} (hl : lane < 32) (r : ℕ) :
    c.scoreRow wid lane r = c.outRow wid lane r ↔
      wid % c.warpsM * c.wm + r / 2 = wid % c.warpsM + c.warpsM * (r / 2) := by
  rw [scoreRow_eq hl, outRow_eq]
  have h : wid % c.warpsM * (16 * c.wm) = 16 * (wid % c.warpsM * c.wm) := by ring
  omega

theorem wm_eq_one_iff : c.wm = 1 ↔ c.kBlockM = 16 * c.warpsM := by
  have h := c.kBlockM_eq
  have hw := c.warpsM_pos
  constructor
  · intro e
    rw [h, e]
    ring
  · intro e
    have hm : c.warpsM * (16 * c.wm) = c.warpsM * 16 := by rw [← h, e]; ring
    have := Nat.eq_of_mul_eq_mul_left hw hm
    omega

theorem rowCoherent_iff : c.RowCoherent ↔ c.kBlockM = 16 * c.warpsM ∨ c.warpsM = 1 := by
  rw [← wm_eq_one_iff]
  constructor
  · intro h
    by_contra hc
    have hp := c.wm_pos
    have hm := c.warpsM_pos
    -- lane 0 of warp 1, in its first repetition
    have hw : 1 < c.kNWarps := lt_of_lt_of_le (by omega) (Nat.le_mul_of_pos_right _ c.warpsN_pos)
    have hr := (h 1 hw 0 (by omega) 0 (by omega)).1
    rw [scoreRow_eq_outRow_iff c (by omega), Nat.mod_eq_of_lt (by omega)] at hr
    omega
  · intro h wid hw lane hl r hr
    refine ⟨(c.scoreRow_eq_outRow_iff hl r).2 ?_, maskRow_eq hl r, statsRow_eq hl r⟩
    rcases h with h | h
    · have h0 : r / 2 = 0 := by omega
      rw [h, h0]
      omega
    · rw [h, Nat.mod_one]
      omega

/-- Two repetitions of two row warps: repetition 1 of warp 0 holds rows 16 to 31 and is stored to
rows 32 to 47. -/
def interleaved : Traits where
  kHeadDim := 64
  kBlockM := 64
  kBlockN := 64
  warpsM := 2
  warpsN := 4
  kHeadDim_pos := by decide
  kBlockM_pos := by decide
  kBlockN_pos := by decide
  warpsM_pos := by decide
  warpsN_pos := by decide
  kHeadDim_mod := by decide
  kBlockM_mod := by decide
  kBlockN_mod := by decide

theorem interleaved_not_rowCoherent :
    interleaved.scoreRow 0 0 2 = 16 ∧ interleaved.outRow 0 0 2 = 32 ∧
    ¬ interleaved.RowCoherent := by
  refine ⟨by decide, by decide, fun h ↦ ?_⟩
  have h2 := (h 0 (by decide) 0 (by decide) 2 (by decide)).1
  revert h2
  decide

def depths (wid : ℕ) : Set ℕ :=
  { k | ∃ lane < 32, ∃ v0 < 2, ∃ v2 < 2, ∃ kk < c.wk, c.mmaPV.depth wid lane v0 v2 kk = k }

/-- What a call of `gemm_flash_v` adds to the accumulator row `(v1, m)` at head dimension `d`. -/
def gemmFlashV {F : Type} [Semiring F] (rP sV : ℕ → ℕ → F) (wid lane v1 m d : ℕ) : F :=
  c.grid.productPV rP sV wid lane v1 m d

variable {c}

theorem gemmFlashV_eq {F : Type} [Semiring F] {wid lane v1 m : ℕ} (hw : wid < c.kNWarps)
    {rP : ℕ → ℕ → F} {P : ℕ → F} (sV : ℕ → ℕ → F) (d : ℕ)
    (hP : ∀ q < 4, ∀ v0 < 2, ∀ n < c.wn,
      rP (quadLane lane q) ((fragmentC c.wm c.wn).address [v0, v1] m n) =
        P (c.mmaQK.col wid (quadLane lane q) v0 n)) :
    c.gemmFlashV rP sV wid lane v1 m d =
      ∑ k ∈ range (16 * c.wk), P (wid / c.warpsM * (16 * c.wk) + k) *
        sV (wid / c.warpsM * (16 * c.wk) + k) d := by
  have hn : 16 * c.wk = 8 * c.wn := by rw [c.wn_eq]; omega
  rw [gemmFlashV, hn]
  have h := WarpGrid.productPV_eq (g := c.grid) hw sV d hP
  rw [h]
  simp only [grid, hn]

theorem mem_depths_iff {wid : ℕ} (hw : wid < c.kNWarps) (k : ℕ) :
    k ∈ c.depths wid ↔ k / (16 * c.wk) = wid / c.warpsM ∧ 0 < c.wk := by
  constructor
  · rintro ⟨lane, hl, v0, h0, v2, h2, kk, hk, rfl⟩
    have ha := atomDepth_lt lane h0 h2
    rw [depth_eq hw h0 h2]
    refine ⟨?_, by omega⟩
    rw [Nat.add_assoc, Nat.add_comm, Nat.add_mul_div_right _ _ (by omega),
      Nat.div_eq_of_lt (by omega), Nat.zero_add]
  · rintro ⟨h, hk⟩
    have hm := Nat.mod_lt k (show 0 < 16 * c.wk by omega)
    have hd := Nat.div_add_mod k (16 * c.wk)
    rw [h] at hd
    -- the strip of the warp, then atom, half and lane within it
    set x := k % (16 * c.wk)
    refine ⟨x % 8 / 2, by omega, x % 2, by omega, x % 16 / 8, by omega, x / 16, by omega, ?_⟩
    rw [depth_eq hw (by omega) (by omega), ← hd, Nat.mul_comm (16 * c.wk), atomDepth]
    omega

theorem depths_lt {wid k : ℕ} (hw : wid < c.kNWarps) (hk : k ∈ c.depths wid) : k < c.kBlockN := by
  obtain ⟨h, hpos⟩ := (mem_depths_iff hw k).1 hk
  have hlt := c.warpN_lt hw
  rw [c.kBlockN_eq]
  exact Nat.lt_mul_of_div_lt (by omega) (by omega)

theorem existsUnique_mem_depths {warpM k : ℕ} (hm : warpM < c.warpsM) (hk : k < c.kBlockN) :
    ∃! warpN, warpN < c.warpsN ∧ k ∈ c.depths (c.warpAt warpM warpN) := by
  rw [c.kBlockN_eq] at hk
  have hpos : 0 < c.wk := by
    have h := Nat.pos_of_mul_pos_left (Nat.zero_lt_of_lt hk)
    omega
  have hlt : k / (16 * c.wk) < c.warpsN := Nat.div_lt_of_lt_mul (by rwa [Nat.mul_comm])
  refine ⟨k / (16 * c.wk), ⟨hlt, ?_⟩, ?_⟩
  · rw [mem_depths_iff (warpAt_lt hm hlt), warpAt_div hm]
    exact ⟨rfl, hpos⟩
  · rintro n ⟨hn, hk⟩
    rw [mem_depths_iff (warpAt_lt hm hn), warpAt_div hm] at hk
    exact hk.1.symm

theorem row_warpAt {warpM q v1 m : ℕ} (hm : warpM < c.warpsM) (hq : q < 4) (warpN lane : ℕ) :
    c.mmaQK.row (c.warpAt warpM warpN) (quadLane lane q) v1 m = c.mmaQK.row warpM lane v1 m := by
  simp only [TiledMMA.row, TiledMMA.warpM, mmaQK, atomRow_quadLane _ _ hq, warpAt_mod hm,
    Nat.mod_eq_of_lt hm]

theorem sum_gemmFlashV {F : Type} [Semiring F] (P V : ℕ → ℕ → F) {warpM v1 m : ℕ}
    (hm : warpM < c.warpsM) (h1 : v1 < 2) (hr : m < c.wm) (lane d : ℕ) :
    ∑ warpN ∈ range c.warpsN,
        c.gemmFlashV (c.mmaQK.fragment c.wm P (c.warpAt warpM warpN)) V
          (c.warpAt warpM warpN) lane v1 m d =
      ∑ k ∈ range c.kBlockN, P (c.mmaQK.row warpM lane v1 m) k * V k d := by
  have h : ∀ warpN ∈ range c.warpsN,
      c.gemmFlashV (c.mmaQK.fragment c.wm P (c.warpAt warpM warpN)) V
        (c.warpAt warpM warpN) lane v1 m d =
      ∑ k ∈ range (16 * c.wk), P (c.mmaQK.row warpM lane v1 m) (warpN * (16 * c.wk) + k) *
        V (warpN * (16 * c.wk) + k) d := by
    intro warpN hn
    have hw := warpAt_lt hm (mem_range.1 hn)
    rw [gemmFlashV_eq (P := P (c.mmaQK.row warpM lane v1 m)) hw V d, warpAt_div hm]
    intro q hq v0 h0 n _
    rw [TiledMMA.fragment_address _ _ _ _ _ _ h0 h1 hr, row_warpAt hm hq]
  rw [sum_congr rfl h, c.kBlockN_eq, sum_range_mul]

theorem columns_coherent (c : Traits) (F : Type) [Semiring F] :
    (∀ v0 < 2, ∀ v1 < 2, ∀ m < c.wm, ∀ n < c.wn, ∃ v2 < 2, ∃ kk < c.wk,
      (convertAreg (fragmentC c.wm c.wn)).address [v0, v1, v2] m kk =
        (fragmentC c.wm c.wn).address [v0, v1] m n) ∧
    (∀ wid < c.kNWarps, ∀ lane < 32, ∀ v0 < 2, ∀ v1 < 2, ∀ m < c.wm, ∀ n < c.wn,
      ∀ v0' < 2, ∀ v1' < 2, ∀ v2 < 2, ∀ m' < c.wm, ∀ kk < c.wk,
      (convertAreg (fragmentC c.wm c.wn)).address [v0', v1', v2] m' kk =
        (fragmentC c.wm c.wn).address [v0, v1] m n →
      v1' = v1 ∧ m' = m ∧ c.mmaPV.depth wid lane v0' v2 kk = c.mmaQK.col wid lane v0 n) ∧
    (∀ wid < c.kNWarps, ∀ k ∈ c.depths wid, k < c.kBlockN) ∧
    (∀ warpM < c.warpsM, ∀ k < c.kBlockN,
      ∃! warpN, warpN < c.warpsN ∧ k ∈ c.depths (c.warpAt warpM warpN)) ∧
    (∀ P V : ℕ → ℕ → F, ∀ warpM < c.warpsM, ∀ lane < 32, ∀ v1 < 2, ∀ m < c.wm, ∀ d < c.kHeadDim,
      ∑ warpN ∈ range c.warpsN,
          c.gemmFlashV (c.mmaQK.fragment c.wm P (c.warpAt warpM warpN)) V
            (c.warpAt warpM warpN) lane v1 m d =
        ∑ k ∈ range c.kBlockN, P (c.mmaQK.row warpM lane v1 m) k * V k d) := by
  refine ⟨?_, ?_, ?_, ?_, ?_⟩
  · intro v0 h0 v1 h1 m hm n hn
    rw [wn_eq] at hn
    refine ⟨n % 2, by omega, n / 2, by omega, ?_⟩
    rw [convertAreg_address, Nat.mod_add_div]
  · intro wid hw lane hl v0 h0 v1 h1 m hm n hn v0' h0' v1' h1' v2 h2 m' hm' kk hk h
    rw [convertAreg_address] at h
    obtain ⟨rfl, rfl, rfl, rfl⟩ := fragmentC_inj h0' h1' hm' h0 h1 hm h
    refine ⟨rfl, rfl, ?_⟩
    rw [depth_eq hw h0 h2, col_eq hw h0, atomDepth_eq]
    ring
  · exact fun wid hw k hk ↦ depths_lt hw hk
  · exact fun warpM hm k hk ↦ existsUnique_mem_depths hm hk
  · exact fun P V warpM hm lane _ v1 h1 m hr d _ ↦ sum_gemmFlashV P V hm h1 hr lane d

end Traits

end Sm120.Flash.MMnNkN
