import Sm120.Gemm.Program
import Sm120.Lib.StructLayout

namespace Sm120.Gemm

open Lib

def stageValues : List ℕ := [2, 3]

def warpSize : ℕ := 32

def elementBytes : ℕ := 2

def maxTileElements : ℕ := 16384

def maxAccumElementsPerThread : ℕ := 64

def maxThreadsPerBlock : ℕ := 1024

def smemBytes (bm bn bk stage : ℕ) : ℕ :=
  let tileBytes := stage * (bm * bk + bn * bk) * elementBytes
  let cBytes := bm * bn * elementBytes
  let barrierBytes := 2 * stage * 8
  tileBytes + cBytes + barrierBytes

def isValidConfig (bm bn bk stage cwg warpsM warpsN bsW maxSmem : ℕ) : Bool :=
  if bm ≤ 0 ∨ bn ≤ 0 ∨ bk ≤ 0 then false
  else if stage ∉ stageValues ∨ cwg ≤ 0 then false
  else if warpsM ≤ 0 ∨ warpsN ≤ 0 ∨ bsW ≤ 0 then false
  else if bm % 32 ≠ 0 ∨ bn % 64 ≠ 0 ∨ bk % 64 ≠ 0 then false
  else if warpsM * warpsN ≠ 4 * cwg then false
  else if bm % warpsM ≠ 0 ∨ bn % warpsN ≠ 0 then false
  else if bm % (16 * warpsM) ≠ 0 ∨ bn % (8 * warpsN) ≠ 0 then false
  else if (4 * cwg + 4) * warpSize > maxThreadsPerBlock then false
  else if bm * bn > maxTileElements then false
  else if bm * bn / (4 * cwg * warpSize) > maxAccumElementsPerThread then false
  else if smemBytes bm bn bk stage > maxSmem then false
  else true

/-- A configuration that the generator accepts with this limit. -/
structure Config (maxSmemKb : ℕ) where
  bm : ℕ
  bn : ℕ
  bk : ℕ
  stage : ℕ
  cwg : ℕ
  warpsM : ℕ
  warpsN : ℕ
  bsW : ℕ
  valid : isValidConfig bm bn bk stage cwg warpsM warpsN bsW (maxSmemKb * 1024) = true

theorem isValidConfig_spec {bm bn bk stage cwg warpsM warpsN bsW maxSmem : ℕ}
    (h : isValidConfig bm bn bk stage cwg warpsM warpsN bsW maxSmem = true) :
    (0 < bm ∧ 0 < bn ∧ 0 < bk) ∧ (stage = 2 ∨ stage = 3) ∧ 0 < cwg ∧ warpsM * warpsN = 4 * cwg ∧
      (bm % 32 = 0 ∧ bn % 64 = 0 ∧ bk % 64 = 0) ∧ (bm % (16 * warpsM) = 0 ∧ bn % (8 * warpsN) = 0) ∧
        smemBytes bm bn bk stage ≤ maxSmem := by
  simp only [isValidConfig, Bool.if_false_left, Bool.and_true, Bool.and_eq_true,
    Bool.not_eq_true', decide_eq_false_iff_not, not_or, not_not, Nat.not_le, Nat.not_lt] at h
  obtain ⟨hpos, ⟨hstage, hcwg⟩, -, hmod, hwarps, -, hpart, -, -, -, hsmem⟩ := h
  simp only [stageValues, List.mem_cons, List.not_mem_nil, or_false] at hstage
  exact ⟨hpos, hstage, hcwg, hwarps, hmod, hpart, hsmem⟩

namespace Config

variable {maxSmemKb : ℕ} (c : Config maxSmemKb)

def traits : Traits where
  bM := c.bm
  bN := c.bn
  bK := c.bk
  stage := c.stage
  cwg := c.cwg
  warpsM := c.warpsM
  warpsN := c.warpsN
  bM_pos := (isValidConfig_spec c.valid).1.1
  bN_pos := (isValidConfig_spec c.valid).1.2.1
  bK_pos := (isValidConfig_spec c.valid).1.2.2
  stage_eq := (isValidConfig_spec c.valid).2.1
  cwg_pos := (isValidConfig_spec c.valid).2.2.1
  warps_eq := (isValidConfig_spec c.valid).2.2.2.1
  bM_mod := (isValidConfig_spec c.valid).2.2.2.2.1.1
  bN_mod := (isValidConfig_spec c.valid).2.2.2.2.1.2.1
  bK_mod := (isValidConfig_spec c.valid).2.2.2.2.1.2.2
  bM_warps := (isValidConfig_spec c.valid).2.2.2.2.2.1.1
  bN_warps := (isValidConfig_spec c.valid).2.2.2.2.2.1.2

end Config

namespace Traits

variable (c : Traits)

/-- The K-major tiles of A, B and C, those of A and B once for each stage. -/
def layoutA : Layout := .kMajor 64 c.bM c.bK ++ [(c.stage, (Layout.kMajor 64 c.bM c.bK).cosize)]

def layoutB : Layout := .kMajor 64 c.bN c.bK ++ [(c.stage, (Layout.kMajor 64 c.bN c.bK).cosize)]

def layoutC : Layout := .kMajor 64 c.bM c.bN

def sharedStorage : CType :=
  .struct 1 [(CType.arrayAligned .half c.layoutA.cosize).alignas 128,
    (CType.arrayAligned .half c.layoutB.cosize).alignas 128,
    (CType.arrayAligned .half c.layoutC.cosize).alignas 128, CType.uint64.array c.stage,
    CType.uint64.array c.stage]

variable {c}

theorem cosize_layouts : c.layoutA.cosize = c.bM * c.bK * c.stage ∧
    c.layoutB.cosize = c.bN * c.bK * c.stage ∧ c.layoutC.cosize = c.bM * c.bN := by
  have hM : c.bM % 8 = 0 := by
    have := c.bM_mod
    omega
  have hN : c.bN % 8 = 0 := by
    have := c.bN_mod
    omega
  have hs : 0 < c.stage := by
    have := c.stage_eq
    omega
  have hA := Layout.cosize_kMajor hM c.bM_pos c.bK_mod c.bK_pos
  have hB := Layout.cosize_kMajor hN c.bN_pos c.bK_mod c.bK_pos
  refine ⟨?_, ?_, Layout.cosize_kMajor hM c.bM_pos c.bN_mod c.bN_pos⟩
  · rw [layoutA, Layout.cosize_stages _ hs, hA]
  · rw [layoutB, Layout.cosize_stages _ hs, hB]

def arrayBytes (c : Traits) : ℕ := c.stage * (c.bM * c.bK + c.bN * c.bK) * 2 + c.bM * c.bN * 2

theorem dvd_arrays : 4096 ∣ c.bM * c.bK * c.stage * 2 ∧ 4096 ∣ c.bN * c.bK * c.stage * 2 ∧
    4096 ∣ c.bM * c.bN * 2 := by
  obtain ⟨m, hm⟩ := Nat.dvd_of_mod_eq_zero c.bM_mod
  obtain ⟨n, hn⟩ := Nat.dvd_of_mod_eq_zero c.bN_mod
  obtain ⟨k, hk⟩ := Nat.dvd_of_mod_eq_zero c.bK_mod
  refine ⟨⟨m * k * c.stage, ?_⟩, ⟨2 * (n * k * c.stage), ?_⟩, ⟨m * n, ?_⟩⟩
  · rw [hm, hk]
    ring
  · rw [hn, hk]
    ring
  · rw [hm, hn]
    ring

theorem arrayBytes_eq : c.bM * c.bK * c.stage * 2 + c.bN * c.bK * c.stage * 2 + c.bM * c.bN * 2 =
    c.arrayBytes := by
  rw [arrayBytes]
  ring

theorem dvd_arrayBytes (c : Traits) : 4096 ∣ c.arrayBytes := by
  obtain ⟨dA, dB, dC⟩ := dvd_arrays (c := c)
  rw [← arrayBytes_eq]
  exact Nat.dvd_add (Nat.dvd_add dA dB) dC

theorem smemBytes_eq (c : Traits) : smemBytes c.bM c.bN c.bK c.stage =
    c.arrayBytes + 16 * c.stage := by
  rw [smemBytes, arrayBytes, elementBytes]
  ring

/-- The barriers open one more unit of 128 bytes. -/
theorem sharedStorage_size : c.sharedStorage.size = c.arrayBytes + 128 := by
  obtain ⟨hA, hB, hC⟩ := cosize_layouts (c := c)
  obtain ⟨dA, dB, dC⟩ := dvd_arrays (c := c)
  have h4096 : ∀ {x a : ℕ}, 4096 ∣ x → a ∣ 4096 → 0 < a → roundUp x a = x :=
    fun hx ha h0 ↦ roundUp_of_dvd h0 (ha.trans hx)
  have hAB := Nat.dvd_add dA dB
  have hABC := c.dvd_arrayBytes
  rw [sharedStorage, CType.arrayAligned_half, CType.arrayAligned_half, CType.arrayAligned_half, hA,
    hB, hC, h4096 dA (by decide) (by decide), h4096 dB (by decide) (by decide),
    h4096 dC (by decide) (by decide)]
  change roundUp
    (roundUp (roundUp (roundUp (roundUp (roundUp 0 128 + c.bM * c.bK * c.stage * 2) 128 +
    c.bN * c.bK * c.stage * 2) 128 + c.bM * c.bN * 2) 8 + c.stage * 8) 8 + c.stage * 8) 128 = _
  have h0 : roundUp 0 128 = 0 := by decide
  rw [h0, Nat.zero_add, h4096 dA (by decide) (by decide), h4096 hAB (by decide) (by decide),
    arrayBytes_eq, h4096 hABC (by decide) (by decide)]
  have h8 : 8 ∣ c.arrayBytes + c.stage * 8 :=
    Nat.dvd_add ((show 8 ∣ 4096 by decide).trans hABC) (Dvd.intro_left _ rfl)
  have h128 : 128 ∣ c.arrayBytes := (show 128 ∣ 4096 by decide).trans hABC
  rw [roundUp_of_dvd (by decide) h8, Nat.add_assoc, roundUp_add (by decide) h128]
  rcases c.stage_eq with hs | hs <;> rw [hs] <;> rfl

end Traits

/-- The generator counts less than the kernel requests, and the kernel keeps to the limit. -/
structure SmemBudget {maxSmemKb : ℕ} (c : Config maxSmemKb) : Prop where
  cosize : c.traits.layoutA.cosize = c.bm * c.bk * c.stage ∧
    c.traits.layoutB.cosize = c.bn * c.bk * c.stage ∧
    c.traits.layoutC.cosize = c.bm * c.bn
  undercount : smemBytes c.bm c.bn c.bk c.stage < c.traits.sharedStorage.size
  budget : c.traits.sharedStorage.size ≤ maxSmemKb * 1024

/-- The limit is a number of KiB, and so are the arrays, which leaves a whole KiB for the
barriers. -/
theorem smem_budget (maxSmemKb : ℕ) (c : Config maxSmemKb) : SmemBudget c := by
  have hs := c.traits.stage_eq
  have heq : smemBytes c.bm c.bn c.bk c.stage = c.traits.arrayBytes + 16 * c.traits.stage :=
    c.traits.smemBytes_eq
  obtain ⟨-, -, -, -, -, -, hle⟩ := isValidConfig_spec c.valid
  obtain ⟨k, hk⟩ := c.traits.dvd_arrayBytes
  constructor
  · exact Traits.cosize_layouts
  · rw [heq, Traits.sharedStorage_size]
    omega
  · rw [heq, hk] at hle
    rw [Traits.sharedStorage_size, hk]
    omega

end Sm120.Gemm
