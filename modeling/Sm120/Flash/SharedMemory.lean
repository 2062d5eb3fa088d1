import Sm120.Flash.Config
import Sm120.Flash.Kernels
import Sm120.Lib.StructLayout

namespace Sm120.Flash

open Lib Finset

def pipelineStorage (stage : ℕ) : CType :=
  .struct 1 [(CType.uint64.array stage).alignas 16, (CType.uint64.array stage).alignas 16]

def tileLayout (rows headDim : ℕ) : Layout :=
  .kMajor (if headDim % 64 = 0 then 64 else 32) rows headDim

theorem cosize_tileLayout {rows headDim : ℕ} (hr : rows % 8 = 0) (hr0 : 0 < rows)
    (hd : headDim % 32 = 0) (hd0 : 0 < headDim) :
    (tileLayout rows headDim).cosize = rows * headDim := by
  apply Layout.cosize_kMajor hr hr0 _ hd0
  split_ifs with h
  · exact h
  · exact hd

namespace Storage

variable (S : Storage)

def qkvSize : ℕ := S.qkSize + S.vSize

/-- `QKVO_size`, with `oSlots` slots of O. -/
def qkvoSize (oSlots : ℕ) : ℕ :=
  if S.qkvSize ≥ oSlots * S.oSize then S.qkvSize else oSlots * S.oSize

theorem qkvoSize_eq (oSlots : ℕ) : S.qkvoSize oSlots = max S.qkvSize (oSlots * S.oSize) := by
  unfold qkvoSize
  split_ifs <;> omega

/-- Everything that the kernel puts into the QKV array lies inside it. -/
structure Inside (oSlots : ℕ) : Prop where
  sQ : ∀ idx < 2, S.getSQ idx ⊆ range (S.qkvoSize oSlots)
  sK : ∀ idx < 2, S.getSK idx ⊆ range (S.qkvoSize oSlots)
  sV : S.getSV ⊆ range (S.qkvoSize oSlots)
  sO : ∀ idx < oSlots, S.getSO idx ⊆ range (S.qkvoSize oSlots)

theorem inside (oSlots : ℕ) : S.Inside oSlots := by
  have hle := S.qkvoSize_eq oSlots
  have hqk := S.qkSize_eq
  have hq := S.qSize_le_stride
  have hk := S.kSize_le_stride
  unfold qkvSize vSize at hle
  constructor
  · intro idx hidx a ha
    rw [getSQ, mem_Ico] at ha
    have hmul : S.kSize * idx ≤ S.kSize * 1 := Nat.mul_le_mul_left _ (Nat.lt_succ_iff.1 hidx)
    rw [mem_range]
    omega
  · intro idx hidx a ha
    rw [getSK, mem_Ico] at ha
    have hmul : S.kStageStride * idx ≤ S.kStageStride * 1 :=
      Nat.mul_le_mul_left _ (Nat.lt_succ_iff.1 hidx)
    rw [mem_range]
    omega
  · intro a ha
    rw [getSV, mem_Ico, vSize] at ha
    rw [mem_range]
    omega
  · intro idx hidx a ha
    rw [getSO, mem_Ico] at ha
    have hmul : (idx + 1) * S.oSize ≤ oSlots * S.oSize := Nat.mul_le_mul_right _ hidx
    rw [Nat.succ_mul] at hmul
    rw [mem_range]
    omega

end Storage

/-- What the generator counts is what the kernel requests, and the kernel keeps to it. -/
structure SmemExact (rowsQ rowsK headDim oSlots : ℕ) (S : Storage) (storage : CType)
    (smemBytes maxSmem : ℕ) : Prop where
  qSize : (tileLayout rowsQ headDim).cosize = S.qSize
  kSize : (tileLayout rowsK headDim).cosize = S.kSize
  sizeof : smemBytes = storage.size
  budget : storage.size ≤ maxSmem
  inside : S.Inside oSlots

section Sizes

theorem alignUp_eq (value alignment : ℕ) : alignUp value alignment = roundUp value alignment := rfl

theorem pipelineStorage_eq (stage : ℕ) : pipelineStorage stage =
    ⟨pipelineStorageBytes stage, 16⟩ := by
  have h0 : roundUp 0 16 = 0 := by decide
  have hm : max 16 8 = 16 := by decide
  simp only [pipelineStorage, pipelineStorageBytes, CType.struct, CType.extent, CType.alignas,
    CType.array, CType.uint64, alignUp_eq, List.map_cons, List.map_nil, List.foldr_cons,
    List.foldr_nil, hm, h0, Nat.zero_add]
  rfl

theorem pipelineStorageBytes_two : pipelineStorageBytes 2 = pipelineStorageBytes 1 := rfl

end Sizes

namespace MMnNkN.Traits

variable (c : Traits)

def oSlots : ℕ := if c.warpsN > 1 then c.warpsN - 1 else 1

/-- `SStorage` of the kernel with this STAGE. -/
def sStorage (stage : ℕ) : CType :=
  .struct 1 [(CType.arrayAligned .half (c.storage.qkvoSize c.oSlots)).alignas 128,
    (CType.arrayAligned .float c.rowStatsSlots).alignas 128,
    (CType.arrayAligned .float c.rowStatsSlots).alignas 128,
    pipelineStorage stage, pipelineStorage 1]

theorem sStorage_size (stage : ℕ) : (c.sStorage stage).size =
    roundUp (roundUp
      (roundUp (roundUp (roundUp (roundUp 0 128 + c.storage.qkvoSize c.oSlots * 2) 128 +
      c.rowStatsSlots * 4) 128 + c.rowStatsSlots * 4) 16 + pipelineStorageBytes stage) 16 +
        pipelineStorageBytes 1) 128 := by
  rw [sStorage, CType.arrayAligned_half, CType.arrayAligned_float, pipelineStorage_eq,
    pipelineStorage_eq]
  change roundUp (roundUp (roundUp (roundUp (roundUp (roundUp 0 128 + roundUp (_ * 2) 16) 128 +
    roundUp (_ * 4) 16) 128 + roundUp (_ * 4) 16) 16 + pipelineStorageBytes stage) 16 +
      pipelineStorageBytes 1) 128 = _
  rw [roundUp_pad _ _ (by decide) (by decide), roundUp_pad _ _ (by decide) (by decide),
    roundUp_pad _ _ (by decide) (by decide)]

end MMnNkN.Traits

namespace MMn1k1.Traits

variable (c : Traits)

def oSlots (_ : Traits) : ℕ := 1

def sStorage (stage : ℕ) : CType :=
  .struct 1 [(CType.arrayAligned .half (c.storage.qkvoSize c.oSlots)).alignas 128,
    pipelineStorage stage, pipelineStorage 1]

theorem sStorage_size (stage : ℕ) : (c.sStorage stage).size =
    roundUp (roundUp (roundUp (roundUp 0 128 + c.storage.qkvoSize c.oSlots * 2) 16 +
      pipelineStorageBytes stage) 16 +
      pipelineStorageBytes 1) 128 := by
  rw [sStorage, CType.arrayAligned_half, pipelineStorage_eq, pipelineStorage_eq]
  change roundUp (roundUp (roundUp (roundUp 0 128 + roundUp (_ * 2) 16) 16 +
    pipelineStorageBytes stage) 16 +
    pipelineStorageBytes 1) 128 = _
  rw [roundUp_pad _ _ (by decide) (by decide)]

end MMn1k1.Traits

namespace MMnNkN.Config

variable {headDim : ℕ} (c : Config headDim)

theorem qkvo_eq : max (c.traits.storage.qkSize + c.traits.storage.vSize)
    (max (c.warpsN - 1) 1 * c.traits.storage.qSize) =
      c.traits.storage.qkvoSize c.traits.oSlots := by
  have hslots : max (c.warpsN - 1) 1 = c.traits.oSlots := by
    change _ = if c.warpsN > 1 then c.warpsN - 1 else 1
    split_ifs <;> omega
  rw [Storage.qkvoSize_eq, hslots]
  rfl

theorem smemBytes_eq :
    smemBytes headDim c.blockM c.blockN c.warpsN c.stage = (c.traits.sStorage c.stage).size := by
  obtain ⟨-, -, -, -, -, -, -, -, -, -, hstage, -⟩ := isValidConfig_spec c.valid
  rw [Traits.sStorage_size, ← qkvo_eq, hstage, ← pipelineStorageBytes_two]
  rfl

theorem block_mod : c.blockM % 8 = 0 ∧ c.blockN % 8 = 0 := by
  obtain ⟨-, -, -, -, -, -, hm, hn, -⟩ := isValidConfig_spec c.valid
  have hdvd : 8 ∣ 16 * c.warpsN := (show 8 ∣ 16 by decide).trans (Dvd.intro _ rfl)
  exact ⟨by omega, Nat.mod_eq_zero_of_dvd (hdvd.trans (Nat.dvd_of_mod_eq_zero hn))⟩

end MMnNkN.Config

namespace MMn1k1.Config

variable {headDim : ℕ} (c : Config headDim)

theorem qkvo_eq : max (c.traits.storage.qkSize + c.traits.storage.vSize) c.traits.storage.oSize =
    c.traits.storage.qkvoSize c.traits.oSlots := by
  rw [Storage.qkvoSize_eq, Traits.oSlots, Nat.one_mul]
  rfl

theorem smemBytes_eq :
    smemBytes headDim c.blockM c.blockN c.stage = (c.traits.sStorage c.stage).size := by
  rw [Traits.sStorage_size, ← qkvo_eq]
  rfl

theorem block_mod : c.blockM % 8 = 0 ∧ c.blockN % 8 = 0 := by
  obtain ⟨-, -, -, -, -, hm, hn, -⟩ := isValidConfig_spec c.valid
  have hdvd : 8 ∣ c.nwarps * 16 := (show 8 ∣ 16 by decide).trans (Dvd.intro_left _ rfl)
  exact ⟨Nat.mod_eq_zero_of_dvd (hdvd.trans (Nat.dvd_of_mod_eq_zero hm)), by omega⟩

end MMn1k1.Config

theorem smem_exact :
    (∀ (headDim : ℕ) (c : MMnNkN.Config headDim),
      SmemExact c.blockM c.blockN headDim c.traits.oSlots
      c.traits.storage (c.traits.sStorage c.stage)
        (MMnNkN.smemBytes headDim c.blockM c.blockN c.warpsN c.stage) c.maxSmem) ∧
    ∀ (headDim : ℕ) (c : MMn1k1.Config headDim), SmemExact c.blockM c.blockN headDim c.traits.oSlots
      c.traits.storage (c.traits.sStorage c.stage)
        (MMn1k1.smemBytes headDim c.blockM c.blockN c.stage) c.maxSmem := by
  constructor
  · intro headDim c
    obtain ⟨hd, hm, hn, -, -, hmod, -, -, -, -, -, hle⟩ := MMnNkN.isValidConfig_spec c.valid
    exact ⟨cosize_tileLayout c.block_mod.1 hm hmod hd, cosize_tileLayout c.block_mod.2 hn hmod hd,
      c.smemBytes_eq, c.smemBytes_eq ▸ hle, c.traits.storage.inside _⟩
  · intro headDim c
    obtain ⟨hd, hm, hn, -, hmod, -, -, -, -, hle⟩ := MMn1k1.isValidConfig_spec c.valid
    exact ⟨cosize_tileLayout c.block_mod.1 hm hmod hd, cosize_tileLayout c.block_mod.2 hn hmod hd,
      c.smemBytes_eq, c.smemBytes_eq ▸ hle, c.traits.storage.inside _⟩

end Sm120.Flash
