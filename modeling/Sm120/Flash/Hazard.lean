import Sm120.Flash.Overlay
import Sm120.Flash.Sound
import Sm120.Flash.Variants
import Sm120.Lib.Forget

set_option linter.unusedSectionVars false

namespace Sm120.Flash.MMnNkN.Traits

open Lib Finset Function

variable (c : Traits) (T : Tiles)

def writeCells (w : ℕ) : Act → Finset ℕ
  | .partialWrite => c.outCells c.storage w (w / c.warpsM - 1)
  | .outWrite => c.outCells c.storage w 0
  | _ => ∅

/-- No warp writes O, or its part of it, while another has yet to release an item of the same tile
that overlaps what is written. -/
def OverlaySafe : Prop :=
  ∀ s, (c.kernel c.storage T).Reachable s → ∀ w x e tl, s.rest (.warp w) = ⟨x, .act e⟩ :: tl →
    ∀ v, v ≠ w → ∀ r j y, (T.items r)[j]? = some y → y.tile = x.tile →
      y ∈ sites (Op.isRead r) (s.rest (.warp v)) →
        Disjoint (itemSpan c.storage r y (j % (c.kernel c.storage T).stages r)) (c.writeCells w e)

section Columns

variable {c T}

/-- With more than one column of warps the statistics are exchanged behind a barrier, which nobody
passes before all have read the tile. -/
theorem overlaySafe_of_columns (h : 1 < c.warpsN) : c.OverlaySafe T := by
  intro s hs w x e tl hr v _ r j y hy hyt hread
  by_cases he : 1 < e.line
  · have hi := Kernel.Reachable.inv (c.aligned c.storage T) hs
    obtain ⟨t, kb, ht, rfl, -, -, hlo⟩ := act_clock tl hi (hr ▸ List.mem_cons_self)
    have hclock := (epilogue_lt_iff hi ht (by rw [rounds_eq h]; decide) w v).1 (hlo 1 he hr)
    obtain ⟨op, -, hm⟩ := mem_sites.1 hread
    have hlt := WithTop.coe_lt_coe.1 (hclock.trans_le (hi.clock_le hm))
    have hitem := item_lt_after ht (List.mem_of_getElem? hy) hyt.le
    have h01 : after t kb 0 < after t kb 1 := (after_lt ht ht).2 (.inr ⟨rfl, Nat.zero_lt_one⟩)
    exact absurd (hitem.trans h01) hlt.not_gt
  · cases e with
    | statsWrite => exact disjoint_empty_right _
    | statsRead => exact disjoint_empty_right _
    | partialWrite => exact absurd (by decide) he
    | partialRead => exact absurd (by decide) he
    | outWrite => exact absurd (by decide) he

end Columns

section Column

/-- With one column of warps the warps are those of a kernel of the other variant. -/
def rows (h : c.warpsN = 1) : MMn1k1.Traits where
  kHeadDim := c.kHeadDim
  kBlockM := c.kBlockM
  kBlockN := c.kBlockN
  kNWarps := c.kNWarps
  kHeadDim_pos := c.kHeadDim_pos
  kBlockM_pos := c.kBlockM_pos
  kBlockN_pos := c.kBlockN_pos
  kNWarps_pos := Nat.mul_pos c.warpsM_pos c.warpsN_pos
  kHeadDim_mod := c.kHeadDim_mod
  kBlockM_mod := by
    rw [kNWarps, h, Nat.mul_one, Nat.mul_comm]
    exact c.kBlockM_mod
  kBlockN_mod := by
    have hN := c.kBlockN_mod
    rwa [h] at hN

variable {c T} (h : c.warpsN = 1)

include h

theorem epilogueOps_rows (wid : ℕ) : c.epilogueOps wid = MMn1k1.Traits.epilogueOps wid := by
  rw [epilogueOps, if_neg (by omega)]
  rfl

theorem warp_program_rows (w : Fin c.kNWarps) :
    (c.kernel c.storage T).program (.warp w) =
      ((c.rows h).kernel c.storage T).program (.warp w) := by
  have hops : (c.epilogue c.storage).ops w = (c.rows h).epilogue.ops w := epilogueOps_rows h w
  change unroll (consumerBody ((c.epilogue c.storage).ops w)) 0 T.blocks = _
  rw [hops]
  rfl

theorem forget_rows : (c.kernel c.storage T).forget = ((c.rows h).kernel c.storage T).forget := by
  have hprogram : (c.kernel c.storage T).program = ((c.rows h).kernel c.storage T).program := by
    funext p
    cases p with
    | producer => rfl
    | lane i => rfl
    | warp w => exact warp_program_rows h w
  rw [Kernel.forget, hprogram]
  rfl

theorem wm_rows : (c.rows h).wm = c.wm := by
  have hn : (c.rows h).kNWarps = c.warpsM := by
    change c.warpsM * c.warpsN = c.warpsM
    rw [h, Nat.mul_one]
  rw [MMn1k1.Traits.wm, hn]
  rfl

theorem outCells_rows {w : ℕ} (hw : w < c.kNWarps) :
    c.outCells c.storage w 0 = (c.rows h).outCells w := by
  have hn : c.kNWarps = c.warpsM := by rw [kNWarps, h, Nat.mul_one]
  have hn' : (c.rows h).kNWarps = c.warpsM := hn
  have hlt : w < c.warpsM := by omega
  have hrow : ∀ lane r, c.outRow w lane r = (c.rows h).outRow w lane r := by
    intro lane r
    rw [outRow_eq, MMn1k1.Traits.outRow_eq, MMn1k1.Traits.scoreRow_eq hw, Nat.mod_eq_of_lt hlt, hn']
  have hcol : ∀ lane i, c.outCol w lane i = (c.rows h).outCol w lane i := by
    intro lane i
    rw [outCol_eq, MMn1k1.Traits.outCol_eq]
  simp only [outCells, MMn1k1.Traits.outCells, wm_rows h, hrow, hcol, Nat.zero_mul, Nat.zero_add]
  rfl

theorem act_rows {s : CtaState c.kNWarps} (hs : (c.kernel c.storage T).Reachable s)
    {w : Fin c.kNWarps} {x : Site} {e : Act} {tl : List Line}
    (hr : s.rest (.warp w) = ⟨x, .act e⟩ :: tl) : e = .outWrite := by
  have hi := Kernel.Reachable.inv (c.aligned c.storage T) hs
  obtain ⟨t, kb, -, ho, -⟩ :=
    mem_program_act.1 ((hi.suffix (.warp w)).subset (hr ▸ List.mem_cons_self))
  have ho' : (e.line, .act e) ∈ c.epilogueOps w := ho
  rw [epilogueOps, if_neg (by omega)] at ho'
  cases e with
  | outWrite => rfl
  | statsWrite => exact absurd ho' (by unfold storeTile; split_ifs <;> decide)
  | statsRead => exact absurd ho' (by unfold storeTile; split_ifs <;> decide)
  | partialWrite => exact absurd ho' (by unfold storeTile; split_ifs <;> decide)
  | partialRead => exact absurd ho' (by unfold storeTile; split_ifs <;> decide)

theorem overlaySafe_rows : c.OverlaySafe T ↔ (c.rows h).OverlaySafe T := by
  constructor
  · intro hsafe s hs w x tl hr v hv r j y hy hyt hread
    obtain ⟨s', hs', heq⟩ := hs.transfer (forget_rows (T := T) h).symm
    have hrest : s'.rest = s.rest := State.rest_of_forget heq
    have hd :=
      hsafe s' hs' w x .outWrite tl (by rw [hrest]; exact hr) v hv r j y hy hyt
        (by rw [hrest]; exact hread)
    exact Eq.mp (congrArg (Disjoint _) (outCells_rows h w.isLt)) hd
  · intro hsafe s hs w x e tl hr v hv r j y hy hyt hread
    obtain rfl := act_rows h hs hr
    obtain ⟨s', hs', heq⟩ := hs.transfer (forget_rows (T := T) h)
    have hrest : s'.rest = s.rest := State.rest_of_forget heq
    have hd :=
      hsafe s' hs' w x tl (by rw [hrest]; exact hr) v hv r j y hy hyt (by rw [hrest]; exact hread)
    exact Eq.mpr (congrArg (Disjoint _) (outCells_rows h w.isLt)) hd

end Column

section Exact

variable {c T}

theorem overlaySafe_of_column (h : c.warpsN = 1) :
    c.OverlaySafe T ↔ c.kNWarps = 1 ∨ ∀ kb ∈ T.blocks, kb % 2 = 1 ∧ 3 ≤ kb := by
  rw [overlaySafe_rows h]
  constructor
  · intro hsafe
    by_contra hc
    push Not at hc
    obtain ⟨hn, hc⟩ := hc
    have hpos : 0 < c.kNWarps := (c.rows h).kNWarps_pos
    have hmany : 1 < (c.rows h).kNWarps := by
      change 1 < c.kNWarps
      omega
    obtain ⟨t, kb, ht, hbad, hgood⟩ :=
      MMn1k1.Traits.exists_first_not (P := fun kb ↦ kb % 2 = 1 ∧ 3 ≤ kb)
      (l := T.blocks) (by push Not; exact hc)
    have hkb := T.pos kb (List.mem_of_getElem? ht)
    exact MMn1k1.Traits.not_overlaySafe hmany ht (by omega) (fun x hx ↦ (hgood x hx).1) hsafe
  · intro hcond
    rcases hcond with hn | hodd
    · intro s _ w x tl _ v hv
      have hw : w.val < c.kNWarps := w.isLt
      have hv' : v.val < c.kNWarps := v.isLt
      exact absurd (Fin.ext (by omega)) hv
    · exact MMn1k1.Traits.overlaySafe_of_odd hodd

/-- The overlay is safe exactly with more than one column of warps, with a single warp, or when
every tile runs through an odd number of blocks and more than one. -/
theorem overlaySafe_cases : c.OverlaySafe T ↔
    1 < c.warpsN ∨ c.kNWarps = 1 ∨ ∀ kb ∈ T.blocks, kb % 2 = 1 ∧ 3 ≤ kb := by
  by_cases h : 1 < c.warpsN
  · exact iff_of_true (overlaySafe_of_columns h) (.inl h)
  · have h1 : c.warpsN = 1 := by
      have hpos := c.warpsN_pos
      omega
    rw [overlaySafe_of_column h1, or_iff_right h]

end Exact

end Sm120.Flash.MMnNkN.Traits

namespace Sm120.Flash

open Lib

def Launch.ctaBlocks {P : Problem} {g : WarpGrid} (l : Launch P g) (b : ℕ) : Tiles where
  blocks := (gridStride l.gridDim l.tilesNum b).map fun id ↦ l.kBlocks (l.tileCoord id).1
  pos kb h := by
    obtain ⟨id, -, rfl⟩ := List.mem_map.1 h
    exact l.kBlocks_pos _

namespace MMnNkN.Config

variable {headDim : ℕ} (c : Config headDim)

/-- When no warp of an accepted configuration writes where an item lies that another has yet to
release, be it in rows that the other never reads. -/
structure OverlayExact : Prop where
  tiles : ∀ T, c.traits.OverlaySafe T ↔ 1 < c.warpsN ∨ ∀ kb ∈ T.blocks, kb % 2 = 1 ∧ 3 ≤ kb
  launches : (∀ P (l : Launch P c.traits.grid) b, b < l.gridDim →
    c.traits.OverlaySafe (l.ctaBlocks b)) ↔
    1 < c.warpsN

theorem kNWarps_gt : 4 < c.traits.kNWarps := (isValidConfig_spec c.valid).2.2.2.2.2.2.2.2.1

def evenProblem : Problem where
  headNum := 1
  batch := 1
  seqLen := 2 * c.blockM * c.blockN
  causal := false
  batch_pos := Nat.one_pos
  seqLen_pos := Nat.mul_pos (Nat.mul_pos Nat.two_pos c.traits.kBlockM_pos) c.traits.kBlockN_pos

def evenLaunch : Launch c.evenProblem c.traits.grid where
  gridDim := 1
  gridDim_pos := Nat.one_pos
  seqLen_mod_kBlockM := by
    have hdvd : c.blockM ∣ 2 * c.blockM * c.blockN := Dvd.intro (2 * c.blockN) (by ring)
    exact Nat.mod_eq_zero_of_dvd hdvd
  seqLen_mod_kBlockN := Nat.mod_eq_zero_of_dvd (Dvd.intro_left (2 * c.blockM) rfl)

theorem mem_evenBlocks : 2 * c.blockM ∈ (c.evenLaunch.ctaBlocks 0).blocks := by
  have hN : 0 < c.blockN := c.traits.kBlockN_pos
  have hnum : c.evenLaunch.nNum = 2 * c.blockM := by
    have hmul : c.evenLaunch.nNum * c.blockN = 2 * c.blockM * c.blockN := c.evenLaunch.nNum_mul
    exact Nat.eq_of_mul_eq_mul_right hN hmul
  have htiles : 0 < c.evenLaunch.tilesNum := by
    have hmul : c.evenLaunch.mNum * c.blockM = 2 * c.blockM * c.blockN := c.evenLaunch.mNum_mul
    have hpos : 0 < c.evenLaunch.mNum * c.blockM := by
      rw [hmul]
      exact c.evenProblem.seqLen_pos
    exact Nat.mul_pos (Nat.mul_pos (Nat.pos_of_mul_pos_right hpos) Nat.one_pos) Nat.one_pos
  refine List.mem_map.2 ⟨0, (mem_gridStride Nat.one_pos).2 ⟨le_rfl, htiles, rfl⟩, ?_⟩
  exact hnum

theorem overlay_exact : c.OverlayExact := by
  have htiles : ∀ T, c.traits.OverlaySafe T ↔ 1 < c.warpsN ∨ ∀ kb ∈ T.blocks, kb % 2 = 1 ∧
      3 ≤ kb := by
    intro T
    have hn : c.traits.kNWarps ≠ 1 := by
      have hgt := c.kNWarps_gt
      omega
    rw [Traits.overlaySafe_cases]
    apply or_congr_right
    exact or_iff_right hn
  refine ⟨htiles, ?_⟩
  constructor
  · intro hsafe
    by_contra hcol
    have hodd := ((htiles _).1 (hsafe c.evenProblem c.evenLaunch 0 Nat.one_pos)).resolve_left hcol
    have heven := (hodd _ c.mem_evenBlocks).1
    omega
  · intro hcol P l b _
    exact (htiles _).2 (.inl hcol)

/-- The generator lists configurations with one column among its defaults. -/
example : (⟨64, 128, 32, 8, 1, 2⟩ : Params) ∈ candidates ∧
    Params.isValidConfig ⟨64, 128, 32, 8, 1, 2⟩ (100 * 1024) = true := by decide +kernel

end MMnNkN.Config

end Sm120.Flash
