import Sm120.Flash.Config
import Sm120.Flash.Forward
import Sm120.Lib.Guard
import Sm120.Lib.Int32

namespace Sm120.Flash

open Lib

/-- The head counts with an instance of `run_fixed_shape`. -/
def headNums : List ℕ := [1, 4, 8, 16, 32, 64, 80]

/-- `TORCH_CHECK`: a condition and the text of the error. -/
def torchCheck (cond : Prop) [Decidable cond] (message : String) : Bool × String := (cond, message)

@[simp] theorem torchCheck_holds {cond : Prop} [Decidable cond] {message : String} :
    (torchCheck cond message).1 = true ↔ cond := decide_eq_true_iff

def checkRuntimeShape (blockM blockN : ℕ) (batch seqLen : Int64) : List (Bool × String) :=
  [torchCheck (seqLen > 0) "seq_len must be positive",
    torchCheck (seqLen % Int64.ofNat blockM = 0) s!"seq_len must be a multiple of {blockM}",
    torchCheck (seqLen % Int64.ofNat blockN = 0) s!"seq_len must be a multiple of {blockN}",
    torchCheck (batch > 0) "batch must be positive"]

theorem mod_ofNat_iff {x : Int64} {n : ℕ} (hn : n < 2 ^ 31) :
    x % Int64.ofNat n = 0 ↔ (n : ℤ) ∣ x.toInt := by
  rw [← Int64.toInt_inj, Int64.toInt_mod, Int64.toInt_zero,
    Int64.toInt_ofNat_of_lt (hn.trans (by decide)), Int.dvd_iff_tmod_eq_zero]

theorem pos_iff {x : Int64} : x > 0 ↔ 0 < x.toInt := by
  rw [gt_iff_lt, Int64.lt_iff_toInt_lt, Int64.toInt_zero]

theorem checkRuntimeShape_ok {blockM blockN : ℕ} (hM : blockM < 2 ^ 31) (hN : blockN < 2 ^ 31)
    {batch seqLen : Int64} : guards (checkRuntimeShape blockM blockN batch seqLen) = .ok () ↔
      0 < seqLen.toInt ∧ (blockM : ℤ) ∣ seqLen.toInt ∧ (blockN : ℤ) ∣ seqLen.toInt ∧
      0 < batch.toInt := by
  simp only [guards_ok, checkRuntimeShape, List.forall_mem_cons, torchCheck_holds, List.not_mem_nil,
    false_implies, implies_true, and_true, mod_ofNat_iff hM, mod_ofNat_iff hN, pos_iff]

/-- The constants of an instance of `run_fixed_shape`. All are of type int. -/
structure FixedShape (g : WarpGrid) where
  kHeadNum : ℕ
  kHeadNum_mem : kHeadNum ∈ headNums
  kHeadDim_pos : 0 < g.kHeadDim
  kHeadDim_lt : g.kHeadDim < 2 ^ 31
  kBlockM_lt : g.kBlockM < 2 ^ 31
  kBlockN_lt : g.kBlockN < 2 ^ 31

def ceilDivInt (x align : Int32) : Int32 := (x + align - 1) / align

namespace FixedShape

variable {g : WarpGrid} (f : FixedShape g)

/-- The stride of the batch mode in `get_tma`. -/
def batchStride (seqLen : Int32) : Int32 := seqLen * Int32.ofNat f.kHeadNum * Int32.ofNat g.kHeadDim

def hostTiles (seqLen batch : Int32) : Int32 :=
  ceilDivInt seqLen (Int32.ofNat g.kBlockM) * batch * Int32.ofNat f.kHeadNum

def blockNum (smNum seqLen batch : Int32) : Int32 :=
  if f.hostTiles seqLen batch < smNum then f.hostTiles seqLen batch else smNum

def mNum (_ : FixedShape g) (seqLen : Int32) : Int32 := ceilDivInt seqLen (Int32.ofNat g.kBlockM)

def tilesNum (seqLen batch : Int32) : Int32 := f.mNum seqLen * batch * Int32.ofNat f.kHeadNum

def getTileCoord (mNum tiledId : Int32) : Int32 × Int32 × Int32 :=
  let qBlock := tiledId % mNum
  let qBlock := mNum - 1 - qBlock
  let headTotal := tiledId / mNum
  (qBlock, headTotal % Int32.ofNat f.kHeadNum, headTotal / Int32.ofNat f.kHeadNum)

/-- The dividend of `CEILDIV((q_block + 1) * kBlockM, kBlockN)`. -/
def kBlocksDividend (_ : FixedShape g) (qBlock : Int32) : Int32 :=
  (qBlock + 1) * Int32.ofNat g.kBlockM + Int32.ofNat g.kBlockN - 1

/-- The offset of an element under the shape and the strides of `get_tma`. -/
def offset (batchStride : Int32) (a : ℕ × ℕ × ℕ × ℕ) : ℤ :=
  a.2.1 * (f.kHeadNum * g.kHeadDim) + a.2.2.2 + a.2.2.1 * g.kHeadDim + a.1 * batchStride.toInt

end FixedShape

/-- A call that `check_runtime_shape` lets pass, on a device with `smNum` multiprocessors. -/
structure Call {g : WarpGrid} (f : FixedShape g) where
  batch : Int64
  seqLen : Int64
  causal : Bool
  smNum : Int32
  accepted : guards (checkRuntimeShape g.kBlockM g.kBlockN batch seqLen) = .ok ()
  smNum_pos : 0 < smNum.toInt

namespace Call

variable {g : WarpGrid} {f : FixedShape g} (c : Call f)

theorem spec : 0 < c.seqLen.toInt ∧ (g.kBlockM : ℤ) ∣ c.seqLen.toInt ∧
    (g.kBlockN : ℤ) ∣ c.seqLen.toInt ∧
    0 < c.batch.toInt :=
  (checkRuntimeShape_ok f.kBlockM_lt f.kBlockN_lt).1 c.accepted

def problem : Problem where
  headNum := f.kHeadNum
  batch := c.batch.toInt.toNat
  seqLen := c.seqLen.toInt.toNat
  causal := c.causal
  batch_pos := Int.lt_toNat.2 c.spec.2.2.2
  seqLen_pos := Int.lt_toNat.2 c.spec.1

theorem batch_eq : c.batch.toInt = c.problem.batch := (Int.toNat_of_nonneg c.spec.2.2.2.le).symm

theorem seqLen_eq : c.seqLen.toInt = c.problem.seqLen := (Int.toNat_of_nonneg c.spec.1.le).symm

theorem seqLen_mod {n : ℕ} (h : (n : ℤ) ∣ c.seqLen.toInt) : c.problem.seqLen % n = 0 := by
  rw [seqLen_eq, Int.natCast_dvd_natCast] at h
  exact Nat.mod_eq_zero_of_dvd h

theorem kBlockM_pos (c : Call f) : 0 < g.kBlockM := by
  apply Nat.pos_of_ne_zero
  intro h0
  have hmod := c.seqLen_mod c.spec.2.1
  rw [h0, Nat.mod_zero] at hmod
  exact c.problem.seqLen_pos.ne' hmod

def tiles : ℕ := ceilDiv c.problem.seqLen g.kBlockM * c.problem.batch * f.kHeadNum

theorem kHeadNum_pos (f : FixedShape g) : 0 < f.kHeadNum := by
  have h : ∀ n ∈ headNums, 0 < n := by decide
  exact h _ f.kHeadNum_mem

theorem ceilDiv_pos : 0 < ceilDiv c.problem.seqLen g.kBlockM :=
  Nat.pos_of_mul_pos_right (c.problem.seqLen_pos.trans_le (Launch.le_ceilDiv_mul _ c.kBlockM_pos))

theorem tiles_pos : 0 < c.tiles :=
  Nat.mul_pos (Nat.mul_pos c.ceilDiv_pos c.problem.batch_pos) (kHeadNum_pos f)

theorem gridDim_pos : 0 < min c.smNum.toInt.toNat c.tiles :=
  lt_min (Int.lt_toNat.2 c.smNum_pos) c.tiles_pos

def launch : Launch c.problem g where
  gridDim := min c.smNum.toInt.toNat c.tiles
  gridDim_pos := c.gridDim_pos
  seqLen_mod_kBlockM := c.seqLen_mod c.spec.2.1
  seqLen_mod_kBlockN := c.seqLen_mod c.spec.2.2.1

/-- `run_fixed_shape` casts the sizes of the tensors to int. -/
def batchInt : Int32 := c.batch.toInt32

def seqLenInt : Int32 := c.seqLen.toInt32

/-- The grid is launched with an unsigned size. -/
def gridDim : UInt32 := (f.blockNum c.smNum c.seqLenInt c.batchInt).toUInt32

def batchStride : Int32 := f.batchStride c.seqLenInt

def mNum : Int32 := f.mNum c.seqLenInt

/-- `tiled_id` of CTA `b` after `k` increments. The index and the size of the grid are unsigned. -/
def tiledId (b : ℕ) : ℕ → Int32
  | 0 => (UInt32.ofNat b).toInt32
  | k + 1 => ((tiledId b k).toUInt32 + c.gridDim).toInt32

def tileCoord (b k : ℕ) : Int32 × Int32 × Int32 := f.getTileCoord c.mNum (c.tiledId b k)

def Runs (b k : ℕ) : Prop := b < c.launch.gridDim ∧ b + k * c.launch.gridDim < c.launch.tilesNum

end Call

/-- All int expressions of a call have the values of the unbounded ones. -/
structure IndexExact {g : WarpGrid} {f : FixedShape g} (c : Call f) : Prop where
  batch : c.batchInt.toInt = c.batch.toInt
  seqLen : c.seqLenInt.toInt = c.seqLen.toInt
  batchStride : Exact c.batchStride (c.problem.seqLen * f.kHeadNum * g.kHeadDim)
  mNum : Exact c.mNum c.launch.mNum
  hostTiles : Exact (f.hostTiles c.seqLenInt c.batchInt) c.launch.tilesNum
  blockNum : Exact (f.blockNum c.smNum c.seqLenInt c.batchInt) c.launch.gridDim
  tilesNum : Exact (f.tilesNum c.seqLenInt c.batchInt) c.launch.tilesNum
  /-- as long as a CTA goes on, its next `tiled_id` is exact, also the one that ends the loop -/
  tiledId : ∀ b k, c.Runs b k → Exact (c.tiledId b (k + 1)) (b + (k + 1) * c.launch.gridDim)
  tileCoord : ∀ b k, c.Runs b k →
    Exact (c.tileCoord b k).1 (c.launch.tileCoord (b + k * c.launch.gridDim)).1 ∧
    Exact (c.tileCoord b k).2.1 (c.launch.tileCoord (b + k * c.launch.gridDim)).2.1 ∧
    Exact (c.tileCoord b k).2.2 (c.launch.tileCoord (b + k * c.launch.gridDim)).2.2
  kBlocks : ∀ b k, c.Runs b k → Exact (f.kBlocksDividend (c.tileCoord b k).1)
    (((c.launch.tileCoord (b + k * c.launch.gridDim)).1 + 1) * g.kBlockM + g.kBlockN - 1)
  /-- every element has the offset that it has in the contiguous tensor -/
  offset : ∀ b < c.problem.batch, ∀ r < c.problem.seqLen, ∀ h < f.kHeadNum, ∀ d < g.kHeadDim,
    f.offset c.batchStride (b, r, h, d) =
      ((b * c.problem.seqLen + r) * f.kHeadNum + h) * g.kHeadDim + d
  distinct : ∀ b < c.problem.batch, ∀ r < c.problem.seqLen, ∀ h < f.kHeadNum, ∀ d < g.kHeadDim,
    ∀ b' < c.problem.batch, ∀ r' < c.problem.seqLen, ∀ h' < f.kHeadNum, ∀ d' < g.kHeadDim,
      f.offset c.batchStride (b, r, h, d) = f.offset c.batchStride (b', r', h', d') →
        (b, r, h, d) = (b', r', h', d')

/-- The batch stride is an int, and so is every `tiled_id`, the last ones beyond the tiles. -/
def Call.Fits {g : WarpGrid} {f : FixedShape g} (c : Call f) : Prop :=
  c.problem.seqLen * f.kHeadNum * g.kHeadDim < 2 ^ 31 ∧
  c.launch.tilesNum + c.launch.gridDim ≤ 2 ^ 31

namespace Call

variable {g : WarpGrid} {f : FixedShape g} {c : Call f}

section Fits

variable (h : c.Fits)

include h

theorem Fits.seqLen_mul : c.problem.seqLen * f.kHeadNum < 2 ^ 31 :=
  (Nat.le_mul_of_pos_right _ f.kHeadDim_pos).trans_lt h.1

/-- A head has at least 32 dimensions, which leaves room for sums of lengths. -/
theorem Fits.seqLen_lt : c.problem.seqLen * 32 < 2 ^ 31 := by
  have hD : 32 ≤ g.kHeadDim := Nat.le_of_dvd f.kHeadDim_pos (Nat.dvd_of_mod_eq_zero g.kHeadDim_mod)
  calc c.problem.seqLen * 32 ≤ c.problem.seqLen * f.kHeadNum * g.kHeadDim :=
        Nat.mul_le_mul (Nat.le_mul_of_pos_right _ (kHeadNum_pos f)) hD
    _ < 2 ^ 31 := h.1

theorem Fits.tilesNum_lt : c.launch.tilesNum < 2 ^ 31 := by
  have hg := c.launch.gridDim_pos
  have ht := h.2
  omega

theorem Fits.blocks_lt : c.launch.mNum * c.problem.batch < 2 ^ 31 :=
  (Nat.le_mul_of_pos_right _ (kHeadNum_pos f)).trans_lt h.tilesNum_lt

theorem Fits.exact_seqLen : Exact c.seqLenInt c.problem.seqLen := by
  apply Exact.cast c.seqLen_eq
  have hlt := h.seqLen_lt
  omega

theorem Fits.exact_batch : Exact c.batchInt c.problem.batch := by
  apply Exact.cast c.batch_eq
  exact (Nat.le_mul_of_pos_left _ c.ceilDiv_pos).trans_lt h.blocks_lt

end Fits

theorem exact_kHeadNum (f : FixedShape g) : Exact (Int32.ofNat f.kHeadNum) f.kHeadNum := by
  have hle : ∀ n ∈ headNums, n < 2 ^ 31 := by decide
  exact .ofNat (hle _ f.kHeadNum_mem)

theorem exact_one : Exact 1 1 := Int32.toInt_one

theorem block_le {n : ℕ} (h : c.problem.seqLen % n = 0) : n ≤ c.problem.seqLen :=
  Nat.le_of_dvd c.problem.seqLen_pos (Nat.dvd_of_mod_eq_zero h)

section Exact

variable (h : c.Fits)

include h

theorem exact_batchStride : Exact c.batchStride (c.problem.seqLen * f.kHeadNum * g.kHeadDim) :=
  (h.exact_seqLen.mul (exact_kHeadNum f) h.seqLen_mul).mul (.ofNat f.kHeadDim_lt) h.1

theorem exact_mNum : Exact c.mNum c.launch.mNum := by
  have hle := block_le c.launch.seqLen_mod_kBlockM
  have hlt := h.seqLen_lt
  have hsum := h.exact_seqLen.add (.ofNat f.kBlockM_lt) (by omega)
  exact (hsum.sub exact_one (by have := c.problem.seqLen_pos; omega)).div (.ofNat f.kBlockM_lt)

theorem exact_tilesNum : Exact (f.tilesNum c.seqLenInt c.batchInt) c.launch.tilesNum :=
  ((exact_mNum h).mul h.exact_batch h.blocks_lt).mul (exact_kHeadNum f) h.tilesNum_lt

theorem exact_blockNum : Exact (f.blockNum c.smNum c.seqLenInt c.batchInt) c.launch.gridDim := by
  have htiles : Exact (f.hostTiles c.seqLenInt c.batchInt) c.tiles := exact_tilesNum h
  have hsm : Exact c.smNum c.smNum.toInt.toNat := (Int.toNat_of_nonneg c.smNum_pos.le).symm
  have hgrid : c.launch.gridDim = min c.smNum.toInt.toNat c.tiles := rfl
  unfold FixedShape.blockNum
  split_ifs with hlt
  · rw [hgrid, min_eq_right ((htiles.lt_iff hsm).1 hlt).le]
    exact htiles
  · rw [hgrid, min_eq_left (not_lt.1 fun hn ↦ hlt ((htiles.lt_iff hsm).2 hn))]
    exact hsm

theorem exact_tiledId {b : ℕ} (hb : b < c.launch.gridDim) (k : ℕ)
    (hk : b + k * c.launch.gridDim < c.launch.tilesNum + c.launch.gridDim) :
    Exact (c.tiledId b k) (b + k * c.launch.gridDim) := by
  have hfit := h.2
  induction k with
  | zero =>
    have hlt : b < 2 ^ 31 := by omega
    have hnat : (UInt32.ofNat b).toNat = b := UInt32.toNat_ofNat_of_lt' (hlt.trans (by decide))
    have he := Exact.ofUInt32 (x := UInt32.ofNat b) (hnat.symm ▸ hlt)
    rw [hnat] at he
    rw [Nat.zero_mul, Nat.add_zero]
    exact he
  | succ k ih =>
    rw [Nat.succ_mul] at hk
    have hadd := (ih (by omega)).addUnsigned (exact_blockNum h) (by omega)
    rw [Nat.add_assoc, ← Nat.succ_mul] at hadd
    exact hadd

theorem exact_tileCoord {b k : ℕ} (hr : c.Runs b k) :
    Exact (c.tileCoord b k).1 (c.launch.tileCoord (b + k * c.launch.gridDim)).1 ∧
    Exact (c.tileCoord b k).2.1 (c.launch.tileCoord (b + k * c.launch.gridDim)).2.1 ∧
    Exact (c.tileCoord b k).2.2 (c.launch.tileCoord (b + k * c.launch.gridDim)).2.2 := by
  have ht := exact_tiledId h hr.1 k (hr.2.trans_le (Nat.le_add_right _ _))
  have hm := exact_mNum h
  have hpos : 0 < c.launch.mNum := c.ceilDiv_pos
  have hlt := Nat.mod_lt (b + k * c.launch.gridDim) hpos
  refine ⟨?_, (ht.div hm).mod (exact_kHeadNum f), (ht.div hm).div (exact_kHeadNum f)⟩
  apply (hm.sub exact_one hpos).sub (ht.mod hm)
  omega

theorem exact_kBlocks {b k : ℕ} (hr : c.Runs b k) : Exact (f.kBlocksDividend (c.tileCoord b k).1)
    (((c.launch.tileCoord (b + k * c.launch.gridDim)).1 + 1) * g.kBlockM + g.kBlockN - 1) := by
  have hq := (exact_tileCoord h hr).1
  have hS := h.seqLen_lt
  have hN := block_le c.launch.seqLen_mod_kBlockN
  have hpos : 0 < c.launch.mNum := c.ceilDiv_pos
  have hlt : (c.launch.tileCoord (b + k * c.launch.gridDim)).1 < c.launch.mNum := by
    change c.launch.mNum - 1 - _ < _
    omega
  have hrow : ((c.launch.tileCoord (b + k * c.launch.gridDim)).1 + 1) * g.kBlockM ≤
      c.problem.seqLen := by
    rw [← c.launch.mNum_mul]
    exact Nat.mul_le_mul_right _ hlt
  have hm := (exact_mNum h).lt
  have hrow' := (hq.add exact_one (by omega)).mul (.ofNat f.kBlockM_lt) (by omega)
  exact (hrow'.add (.ofNat f.kBlockN_lt) (by omega)).sub exact_one
    (by have := c.launch.kBlockN_pos; omega)

theorem offset_eq (b r i d : ℕ) : f.offset c.batchStride (b, r, i, d) =
    (((b * c.problem.seqLen + r) * f.kHeadNum + i) * g.kHeadDim + d : ℕ) := by
  rw [FixedShape.offset, exact_batchStride h]
  push_cast
  ring

theorem indexExact_of_fits : IndexExact c where
  batch := by rw [h.exact_batch, c.batch_eq]
  seqLen := by rw [h.exact_seqLen, c.seqLen_eq]
  batchStride := exact_batchStride h
  mNum := exact_mNum h
  hostTiles := exact_tilesNum h
  blockNum := exact_blockNum h
  tilesNum := exact_tilesNum h
  tiledId b k hr := by
    apply exact_tiledId h hr.1
    rw [Nat.succ_mul, ← Nat.add_assoc]
    exact Nat.add_lt_add_right hr.2 _
  tileCoord _ _ hr := exact_tileCoord h hr
  kBlocks _ _ hr := exact_kBlocks h hr
  offset b _ r _ i _ d _ := by
    rw [offset_eq h]
    push_cast
    rfl
  distinct b _ r hr i hi d hd b' _ r' hr' i' hi' d' hd' he := by
    rw [offset_eq h, offset_eq h, Nat.cast_inj] at he
    obtain ⟨hhead, rfl⟩ := digits_inj hd hd' he
    obtain ⟨hrow, rfl⟩ := digits_inj hi hi' hhead
    obtain ⟨rfl, rfl⟩ := digits_inj hr hr' hrow
    rfl

end Exact

/-- The last tile is run by some CTA, which then adds the grid once more. -/
theorem fits_of_indexExact (h : IndexExact c) : c.Fits := by
  refine ⟨h.batchStride.lt, ?_⟩
  have hg := c.launch.gridDim_pos
  have ht : 0 < c.launch.tilesNum := c.tiles_pos
  have hdiv := Nat.mod_add_div' (c.launch.tilesNum - 1) c.launch.gridDim
  have hrun : c.Runs ((c.launch.tilesNum - 1) % c.launch.gridDim)
      ((c.launch.tilesNum - 1) / c.launch.gridDim) :=
    ⟨Nat.mod_lt _ hg, by omega⟩
  have hlast := (h.tiledId _ _ hrun).lt
  rw [Nat.succ_mul, ← Nat.add_assoc, hdiv] at hlast
  omega

end Call

/-- The int expressions of a call, to the kernel of either variant, are exact when the batch stride
and the last `tiled_id` are ints. -/
theorem indexExact_iff {g : WarpGrid} {f : FixedShape g} (c : Call f) : IndexExact c ↔ c.Fits :=
  ⟨Call.fits_of_indexExact, Call.indexExact_of_fits⟩

section Aliased

def FixedShape.default64 : FixedShape MMnNkN.Config.default.traits.grid where
  kHeadNum := 64
  kHeadNum_mem := by decide
  kHeadDim_pos := by decide
  kHeadDim_lt := by decide
  kBlockM_lt := by decide
  kBlockN_lt := by decide

def Call.aliased : Call FixedShape.default64 where
  batch := 2
  seqLen := 1048576
  causal := true
  smNum := 188
  accepted := by decide
  smNum_pos := by decide

/-- The batch stride of an accepted call wraps to zero: both batches get the addresses of the
first. -/
theorem aliased_not_indexExact : ¬ IndexExact Call.aliased ∧ Call.aliased.batchStride = 0 ∧
    ∀ r h d, FixedShape.default64.offset Call.aliased.batchStride (1, r, h, d) =
      FixedShape.default64.offset Call.aliased.batchStride (0, r, h, d) := by
  have hstride : Call.aliased.batchStride = 0 := by decide
  have halias : ∀ r h d, FixedShape.default64.offset Call.aliased.batchStride (1, r, h, d) =
      FixedShape.default64.offset Call.aliased.batchStride (0, r, h, d) := by
    intro r h d
    simp only [FixedShape.offset, hstride, Int32.toInt_zero, mul_zero]
  refine ⟨fun h ↦ ?_, hstride, halias⟩
  have he :=
    h.distinct 1 (by decide) 0 (by decide) 0 (by decide) 0 (by decide) 0 (by decide) 0 (by decide)
    0 (by decide) 0 (by decide) (halias 0 0 0)
  cases he

end Aliased

end Sm120.Flash
