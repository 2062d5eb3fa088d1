import Sm120.Flash.Coherence

namespace Sm120.Flash

def warpSize : ℕ := 32

def elementBytes : ℕ := 2

def maxThreadsPerBlock : ℕ := 1024

def blockTileUnit : ℕ := 16

def minBlockTileArea : ℕ := 4

/-- `STAGE` of both generators. -/
def configStage : ℕ := 2

def alignUp (value alignment : ℕ) : ℕ := (value + alignment - 1) / alignment * alignment

def pipelineStorageBytes (stage : ℕ) : ℕ :=
  let arrayBytes := stage * 8
  let offset := alignUp arrayBytes 16
  alignUp (offset + arrayBytes) 16

theorem of_ite_false {p : Prop} [Decidable p] {b : Bool} (h : (if p then false else b) = true) :
    ¬ p ∧ b = true := by
  by_cases hp : p
  · rw [if_pos hp] at h
    cases h
  · rw [if_neg hp] at h
    exact ⟨hp, h⟩

namespace MMnNkN

def producerWarps : ℕ := 4

def maxNWarps : ℕ := 8

def smemBytes (headDim blockM blockN warpsN stage : ℕ) : ℕ :=
  let qSize := blockM * headDim
  let kSize := blockN * headDim
  let vSize := kSize
  let qkSize := kSize + if qSize ≥ kSize then qSize else kSize
  let qkvSize := qkSize + vSize
  let oSlots := max (warpsN - 1) 1
  let oSize := oSlots * qSize
  let qkvoSize := max qkvSize oSize
  let rowStatsSlots := if warpsN > 1 then warpsN * (blockM / 16) * 16 else 1
  let offset := alignUp 0 128 + qkvoSize * elementBytes
  let offset := alignUp offset 128 + rowStatsSlots * 4
  let offset := alignUp offset 128 + rowStatsSlots * 4
  let offset := alignUp offset 16 + pipelineStorageBytes stage
  let offset := alignUp offset 16 + pipelineStorageBytes stage
  alignUp offset 128

def isValidConfig (headDim blockM blockN warpsM warpsN stage maxSmem : ℕ) : Bool :=
  if headDim ≤ 0 ∨ blockM ≤ 0 ∨ blockN ≤ 0 ∨ warpsM ≤ 0 ∨ warpsN ≤ 0 ∨ stage ≤ 0 then false
  else if (blockM / blockTileUnit) * (blockN / blockTileUnit) ≤ minBlockTileArea then false
  else if warpsM * warpsN ≤ 4 then false
  else if warpsM * warpsN > maxNWarps then false
  else if headDim % 32 ≠ 0 then false
  else if stage ≠ configStage then false
  else if blockM ≠ warpsM * blockTileUnit then false
  else if blockN % (warpsN * 16) ≠ 0 then false
  else if (producerWarps + warpsM * warpsN) * warpSize > maxThreadsPerBlock then false
  else if blockN * headDim * elementBytes ≤ 0 then false
  else if smemBytes headDim blockM blockN warpsN stage > maxSmem then false
  else true

/-- A configuration that the generator accepts for this head dimension. -/
structure Config (headDim : ℕ) where
  blockM : ℕ
  blockN : ℕ
  warpsM : ℕ
  warpsN : ℕ
  stage : ℕ
  maxSmem : ℕ
  valid : isValidConfig headDim blockM blockN warpsM warpsN stage maxSmem = true

theorem isValidConfig_spec {headDim blockM blockN warpsM warpsN stage maxSmem : ℕ}
    (h : isValidConfig headDim blockM blockN warpsM warpsN stage maxSmem = true) :
    0 < headDim ∧ 0 < blockM ∧ 0 < blockN ∧ 0 < warpsM ∧ 0 < warpsN ∧ headDim % 32 = 0 ∧
      blockM = 16 * warpsM ∧ blockN % (16 * warpsN) = 0 ∧ 4 < warpsM * warpsN ∧
      warpsM * warpsN ≤ 8 ∧ stage = 2 ∧ smemBytes headDim blockM blockN warpsN stage ≤ maxSmem := by
  unfold isValidConfig at h
  obtain ⟨hpos, h⟩ := of_ite_false h
  obtain ⟨-, h⟩ := of_ite_false h
  obtain ⟨hlo, h⟩ := of_ite_false h
  obtain ⟨hhi, h⟩ := of_ite_false h
  obtain ⟨hd, h⟩ := of_ite_false h
  obtain ⟨hstage, h⟩ := of_ite_false h
  obtain ⟨hm, h⟩ := of_ite_false h
  obtain ⟨hn, h⟩ := of_ite_false h
  obtain ⟨-, h⟩ := of_ite_false h
  obtain ⟨-, h⟩ := of_ite_false h
  obtain ⟨hsmem, -⟩ := of_ite_false h
  simp only [not_or, Nat.not_le] at hpos
  obtain ⟨h1, h2, h3, h4, h5, -⟩ := hpos
  refine ⟨h1, h2, h3, h4, h5, not_not.1 hd, (not_not.1 hm).trans (Nat.mul_comm _ _), ?_,
    Nat.lt_of_not_le hlo, Nat.le_of_not_lt hhi, not_not.1 hstage, Nat.le_of_not_lt hsmem⟩
  rw [Nat.mul_comm]
  exact not_not.1 hn

namespace Config

variable {headDim : ℕ} (c : Config headDim)

def traits : Traits where
  kHeadDim := headDim
  kBlockM := c.blockM
  kBlockN := c.blockN
  warpsM := c.warpsM
  warpsN := c.warpsN
  kHeadDim_pos := (isValidConfig_spec c.valid).1
  kBlockM_pos := (isValidConfig_spec c.valid).2.1
  kBlockN_pos := (isValidConfig_spec c.valid).2.2.1
  warpsM_pos := (isValidConfig_spec c.valid).2.2.2.1
  warpsN_pos := (isValidConfig_spec c.valid).2.2.2.2.1
  kHeadDim_mod := (isValidConfig_spec c.valid).2.2.2.2.2.1
  kBlockM_mod := by
    obtain ⟨-, -, -, -, -, -, hm, -⟩ := isValidConfig_spec c.valid
    rw [hm, Nat.mod_self]
  kBlockN_mod := (isValidConfig_spec c.valid).2.2.2.2.2.2.2.1

theorem traits_wm : c.traits.wm = 1 := by
  obtain ⟨-, -, -, -, -, -, hm, -⟩ := isValidConfig_spec c.valid
  exact c.traits.wm_eq_one_iff.2 hm

/-- The default configuration, `hd64_bm64_bn64_wm4_wn2_s2`, in 100 KiB. -/
def default : Config 64 where
  blockM := 64
  blockN := 64
  warpsM := 4
  warpsN := 2
  stage := 2
  maxSmem := 100 * 1024
  valid := by decide

end Config

end MMnNkN

namespace MMn1k1

def producerWarps : ℕ := 1

def nwarpValues : List ℕ := [8]

def smemBytes (headDim blockM blockN stage : ℕ) : ℕ :=
  let qSize := blockM * headDim
  let kSize := blockN * headDim
  let vSize := kSize
  let oSize := qSize
  let qkSize := kSize + if qSize ≥ kSize then qSize else kSize
  let qkvSize := qkSize + vSize
  let qkvoSize := max qkvSize oSize
  let offset := alignUp 0 128 + qkvoSize * elementBytes
  let offset := alignUp offset 16 + pipelineStorageBytes stage
  let offset := alignUp offset 16 + pipelineStorageBytes 1
  alignUp offset 128

def isValidConfig (headDim blockM blockN nwarps stage maxSmem : ℕ) : Bool :=
  if headDim ≤ 0 ∨ blockM ≤ 0 ∨ blockN ≤ 0 ∨ nwarps ≤ 0 ∨ stage ≤ 0 then false
  else if (blockM / blockTileUnit) * (blockN / blockTileUnit) < minBlockTileArea then false
  else if nwarps ∉ nwarpValues then false
  else if headDim % 32 ≠ 0 then false
  else if stage ≠ configStage then false
  else if blockM % (nwarps * blockTileUnit) ≠ 0 then false
  else if blockN % blockTileUnit ≠ 0 then false
  else if (producerWarps + nwarps) * warpSize > maxThreadsPerBlock then false
  else if blockN * headDim * elementBytes ≤ 0 then false
  else if smemBytes headDim blockM blockN stage > maxSmem then false
  else true

structure Config (headDim : ℕ) where
  blockM : ℕ
  blockN : ℕ
  nwarps : ℕ
  stage : ℕ
  maxSmem : ℕ
  valid : isValidConfig headDim blockM blockN nwarps stage maxSmem = true

theorem isValidConfig_spec {headDim blockM blockN nwarps stage maxSmem : ℕ}
    (h : isValidConfig headDim blockM blockN nwarps stage maxSmem = true) :
    0 < headDim ∧ 0 < blockM ∧ 0 < blockN ∧ 0 < nwarps ∧ headDim % 32 = 0 ∧
      blockM % (nwarps * 16) = 0 ∧ blockN % 16 = 0 ∧ nwarps ∈ nwarpValues ∧ stage = 2 ∧
      smemBytes headDim blockM blockN stage ≤ maxSmem := by
  unfold isValidConfig at h
  obtain ⟨hpos, h⟩ := of_ite_false h
  obtain ⟨-, h⟩ := of_ite_false h
  obtain ⟨hw, h⟩ := of_ite_false h
  obtain ⟨hd, h⟩ := of_ite_false h
  obtain ⟨hstage, h⟩ := of_ite_false h
  obtain ⟨hm, h⟩ := of_ite_false h
  obtain ⟨hn, h⟩ := of_ite_false h
  obtain ⟨-, h⟩ := of_ite_false h
  obtain ⟨-, h⟩ := of_ite_false h
  obtain ⟨hsmem, -⟩ := of_ite_false h
  simp only [not_or, Nat.not_le] at hpos
  obtain ⟨h1, h2, h3, h4, -⟩ := hpos
  exact ⟨h1, h2, h3, h4, not_not.1 hd, not_not.1 hm, not_not.1 hn, not_not.1 hw, not_not.1 hstage,
    Nat.le_of_not_lt hsmem⟩

namespace Config

variable {headDim : ℕ} (c : Config headDim)

def traits : Traits where
  kHeadDim := headDim
  kBlockM := c.blockM
  kBlockN := c.blockN
  kNWarps := c.nwarps
  kHeadDim_pos := (isValidConfig_spec c.valid).1
  kBlockM_pos := (isValidConfig_spec c.valid).2.1
  kBlockN_pos := (isValidConfig_spec c.valid).2.2.1
  kNWarps_pos := (isValidConfig_spec c.valid).2.2.2.1
  kHeadDim_mod := (isValidConfig_spec c.valid).2.2.2.2.1
  kBlockM_mod := (isValidConfig_spec c.valid).2.2.2.2.2.1
  kBlockN_mod := (isValidConfig_spec c.valid).2.2.2.2.2.2.1

/-- The default configuration, `hd64_bm128_bn32_w8_s2`, in 100 KiB. -/
def default : Config 64 where
  blockM := 128
  blockN := 32
  nwarps := 8
  stage := 2
  maxSmem := 100 * 1024
  valid := by decide

end Config

end MMn1k1

end Sm120.Flash
