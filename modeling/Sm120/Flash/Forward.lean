import Mathlib.Data.List.Count
import Sm120.Flash.Merge

namespace Sm120.Flash

open Lib Finset WarpGrid

def ceilDiv (x align : ℕ) : ℕ := (x + align - 1) / align

def getTileCoord (kHeadNum mNum tiledId : ℕ) : ℕ × ℕ × ℕ :=
  let qBlock := mNum - 1 - tiledId % mNum
  let headTotal := tiledId / mNum
  (qBlock, headTotal % kHeadNum, headTotal / kHeadNum)

/-- What a call of `flash_fwd` computes attention for. -/
structure Problem where
  headNum : ℕ
  batch : ℕ
  seqLen : ℕ
  causal : Bool
  batch_pos : 0 < batch
  seqLen_pos : 0 < seqLen

abbrev Tensor (F : Type) := ℕ × ℕ × ℕ × ℕ → F

def Problem.operands {F : Type} (P : Problem) (Q K V : Tensor F) (head batch : ℕ) : Operands F where
  causal := P.causal
  Q r d := Q (batch, r, head, d)
  K r d := K (batch, r, head, d)
  V r d := V (batch, r, head, d)

/-- A launch: block sizes that divide the sequence length, and any number of CTAs. -/
structure Launch (P : Problem) (g : WarpGrid) where
  gridDim : ℕ
  gridDim_pos : 0 < gridDim
  seqLen_mod_kBlockM : P.seqLen % g.kBlockM = 0
  seqLen_mod_kBlockN : P.seqLen % g.kBlockN = 0

namespace Launch

variable {P : Problem} {g : WarpGrid} (l : Launch P g)

def mNum (_ : Launch P g) : ℕ := ceilDiv P.seqLen g.kBlockM

def nNum (_ : Launch P g) : ℕ := ceilDiv P.seqLen g.kBlockN

def tilesNum : ℕ := l.mNum * P.batch * P.headNum

def kBlocks (qBlock : ℕ) : ℕ :=
  if P.causal then ceilDiv ((qBlock + 1) * g.kBlockM) g.kBlockN else l.nNum

/-- The tiles of all CTAs, each CTA's in the order of its persistent loop. -/
def ctaTiles : List ℕ := (List.range l.gridDim).flatMap (gridStride l.gridDim l.tilesNum)

def tileCoord (tiledId : ℕ) : ℕ × ℕ × ℕ := getTileCoord P.headNum l.mNum tiledId

def region (tiledId : ℕ) (a : ℕ × ℕ × ℕ × ℕ) : Prop :=
  l.tileCoord tiledId = (a.2.1 / g.kBlockM, a.2.2.1, a.1) ∧ a.2.2.2 < g.kHeadDim

instance (tiledId : ℕ) : DecidablePred (l.region tiledId) := fun a ↦
  inferInstanceAs (Decidable (l.tileCoord tiledId = (a.2.1 / g.kBlockM, a.2.2.1, a.1) ∧
    a.2.2.2 < g.kHeadDim))

end Launch

/-- One execution of a launch: in which order the tiles reach O, what their epilogues find in shared
memory, and what was in O before. -/
structure Run {P : Problem} {g : WarpGrid} (l : Launch P g) (F : Type) where
  order : List ℕ
  order_perm : order.Perm l.ctaTiles
  memory : ℕ → SharedMemory F
  initial : Tensor (Num F)

def Launch.output {P : Problem} {g : WarpGrid} {F : Type} (l : Launch P g)
    (tile : Operands F → ℕ → ℕ → SharedMemory F → ℕ × ℕ → Num F) (Q K V : Tensor F)
    (run : Run l F) : Tensor (Num F) :=
  run.order.foldl
    (storeRegion l.region fun tiledId a ↦
      let (qBlock, head, batch) := l.tileCoord tiledId
      tile (P.operands Q K V head batch) qBlock (l.kBlocks qBlock) (run.memory tiledId)
        (a.2.1 % g.kBlockM, a.2.2.2))
    run.initial

section Schedule

theorem getTileCoord_eq_iff {kHeadNum mNum tiledId q h b : ℕ} (hq : q < mNum) (hh : h < kHeadNum) :
    getTileCoord kHeadNum mNum tiledId = (q, h, b) ↔
      tiledId = (b * kHeadNum + h) * mNum + (mNum - 1 - q) := by
  have hmod := Nat.mod_lt tiledId (Nat.zero_lt_of_lt hq)
  simp only [getTileCoord, Prod.mk.injEq]
  constructor
  · rintro ⟨hq', rfl, rfl⟩
    have h1 : tiledId % mNum = mNum - 1 - q := by omega
    rw [Nat.div_add_mod', ← h1, Nat.div_add_mod']
  · rintro rfl
    have hlt : mNum - 1 - q < mNum := by omega
    rw [Nat.mul_add_mod_self_right, Nat.mod_eq_of_lt hlt, Nat.add_comm (_ * mNum),
      Nat.add_mul_div_right _ _ (by omega), Nat.div_eq_of_lt hlt, Nat.zero_add,
      Nat.mul_add_mod_self_right, Nat.mod_eq_of_lt hh, Nat.add_comm (b * _),
      Nat.add_mul_div_right _ _ (by omega), Nat.div_eq_of_lt hh]
    omega

variable {P : Problem} {g : WarpGrid}

namespace Launch

theorem ceilDiv_mul {x align : ℕ} (h : 0 < align) (hx : x % align = 0) :
    ceilDiv x align * align = x := by
  obtain ⟨k, rfl⟩ := Nat.dvd_of_mod_eq_zero hx
  rw [ceilDiv, Nat.add_sub_assoc h, Nat.mul_add_div h, Nat.div_eq_of_lt (Nat.sub_lt h Nat.one_pos),
    Nat.add_zero, Nat.mul_comm]

theorem le_ceilDiv_mul {align : ℕ} (x : ℕ) (h : 0 < align) : x ≤ ceilDiv x align * align := by
  have hmod := Nat.mod_lt (x + align - 1) h
  have hdiv := Nat.div_add_mod' (x + align - 1) align
  rw [ceilDiv]
  omega

theorem ceilDiv_mono {x y align : ℕ} (h : x ≤ y) : ceilDiv x align ≤ ceilDiv y align :=
  Nat.div_le_div_right (by omega)

theorem kBlockM_pos (l : Launch P g) : 0 < g.kBlockM := by
  refine Nat.pos_of_ne_zero fun h ↦ ?_
  have hm := l.seqLen_mod_kBlockM
  rw [h, Nat.mod_zero] at hm
  exact P.seqLen_pos.ne' hm

theorem kBlockN_pos (l : Launch P g) : 0 < g.kBlockN := by
  refine Nat.pos_of_ne_zero fun h ↦ ?_
  have hn := l.seqLen_mod_kBlockN
  rw [h, Nat.mod_zero] at hn
  exact P.seqLen_pos.ne' hn

variable (l : Launch P g)

theorem mNum_mul : l.mNum * g.kBlockM = P.seqLen := ceilDiv_mul l.kBlockM_pos l.seqLen_mod_kBlockM

theorem nNum_mul : l.nNum * g.kBlockN = P.seqLen := ceilDiv_mul l.kBlockN_pos l.seqLen_mod_kBlockN

theorem kBlocks_le {qBlock : ℕ} (hq : qBlock < l.mNum) : l.kBlocks qBlock ≤ l.nNum := by
  unfold kBlocks
  split_ifs
  · refine ceilDiv_mono ?_
    rw [← l.mNum_mul]
    exact Nat.mul_le_mul_right _ hq
  · exact le_rfl

theorem kBlocks_pos (qBlock : ℕ) : 0 < l.kBlocks qBlock := by
  have hM := l.kBlockM_pos
  have key : ∀ x, 0 < x → 0 < ceilDiv x g.kBlockN := fun x hx ↦
    Nat.pos_of_mul_pos_right (hx.trans_le (le_ceilDiv_mul x l.kBlockN_pos))
  unfold kBlocks
  split_ifs
  · exact key _ (Nat.mul_pos qBlock.succ_pos hM)
  · exact key _ P.seqLen_pos

/-- The blocks of a tile stop where the sequence stops, or beyond the diagonal. -/
theorem lt_of_kBlocks_le {qBlock R c : ℕ} (hR : R / g.kBlockM = qBlock)
    (hc : l.kBlocks qBlock * g.kBlockN ≤ c) (hlt : c < P.seqLen) : P.causal = true ∧ R < c := by
  unfold kBlocks at hc
  split_ifs at hc with hcausal
  · refine ⟨hcausal, ?_⟩
    have h := (le_ceilDiv_mul ((qBlock + 1) * g.kBlockM) l.kBlockN_pos).trans hc
    have hlt := Nat.lt_mul_of_div_lt (show R / g.kBlockM < qBlock + 1 by omega) l.kBlockM_pos
    omega
  · rw [l.nNum_mul] at hc
    omega

theorem ctaTiles_perm : l.ctaTiles.Perm (List.range l.tilesNum) := gridStride_perm l.gridDim_pos

def tileOf (a : ℕ × ℕ × ℕ × ℕ) : ℕ :=
  (a.1 * P.headNum + a.2.2.1) * l.mNum + (l.mNum - 1 - a.2.1 / g.kBlockM)

variable {l} {b r h d : ℕ}

theorem div_lt_mNum (hr : r < P.seqLen) : r / g.kBlockM < l.mNum := by
  rw [Nat.div_lt_iff_lt_mul l.kBlockM_pos, l.mNum_mul]
  exact hr

theorem region_iff (hr : r < P.seqLen) (hh : h < P.headNum) (hd : d < g.kHeadDim) (tiledId : ℕ) :
    l.region tiledId (b, r, h, d) ↔ tiledId = l.tileOf (b, r, h, d) := by
  have hiff : l.tileCoord tiledId = (r / g.kBlockM, h, b) ↔ tiledId = l.tileOf (b, r, h, d) :=
    getTileCoord_eq_iff (div_lt_mNum hr) hh
  exact ⟨fun hreg ↦ hiff.1 hreg.1, fun he ↦ ⟨hiff.2 he, hd⟩⟩

section

variable (hb : b < P.batch) (hr : r < P.seqLen) (hh : h < P.headNum)

include hb hr hh

theorem tileOf_lt : l.tileOf (b, r, h, d) < l.tilesNum := by
  have hq := div_lt_mNum (l := l) hr
  have hbh : b * P.headNum + h + 1 ≤ P.batch * P.headNum :=
    calc b * P.headNum + h + 1 ≤ (b + 1) * P.headNum := by rw [Nat.succ_mul]; omega
      _ ≤ P.batch * P.headNum := Nat.mul_le_mul_right _ hb
  have hrev : l.mNum - 1 - r / g.kBlockM < l.mNum :=
    (Nat.sub_le _ _).trans_lt (Nat.sub_lt (Nat.zero_lt_of_lt hq) Nat.one_pos)
  calc l.tileOf (b, r, h, d) < (b * P.headNum + h + 1) * l.mNum := by
        rw [Nat.succ_mul]
        exact Nat.add_lt_add_left hrev _
    _ ≤ P.batch * P.headNum * l.mNum := Nat.mul_le_mul_right _ hbh
    _ = l.tilesNum := by rw [tilesNum]; ring

theorem tileOf_mem {F : Type} (run : Run l F) : l.tileOf (b, r, h, d) ∈ run.order := by
  rw [(run.order_perm.trans l.ctaTiles_perm).mem_iff, List.mem_range]
  exact tileOf_lt hb hr hh

variable (hd : d < g.kHeadDim)

include hd

theorem countP_region {F : Type} (run : Run l F) :
    run.order.countP (fun tiledId ↦ l.region tiledId (b, r, h, d)) = 1 := by
  have hnd : run.order.Nodup := (run.order_perm.trans l.ctaTiles_perm).nodup_iff.2 List.nodup_range
  rw [← List.count_eq_one_of_mem hnd (tileOf_mem hb hr hh run), List.count]
  refine List.countP_congr fun tiledId _ ↦ ?_
  rw [decide_eq_true_iff, beq_iff_eq]
  exact region_iff hr hh hd tiledId

theorem output_eq {F : Type} {tile : Operands F → ℕ → ℕ → SharedMemory F → ℕ × ℕ → Num F}
    (Q K V : Tensor F) (run : Run l F) : l.output tile Q K V run (b, r, h, d) =
      tile (P.operands Q K V h b) (r / g.kBlockM) (l.kBlocks (r / g.kBlockM))
        (run.memory (l.tileOf (b, r, h, d))) (r % g.kBlockM, d) := by
  have hreg := (region_iff (l := l) (b := b) hr hh hd _).2 rfl
  rw [output, foldl_storeRegion_of_mem (tileOf_mem hb hr hh run) hreg
    fun j _ hj ↦ (region_iff hr hh hd j).1 hj, hreg.1]

end

end Launch

end Schedule

end Sm120.Flash
