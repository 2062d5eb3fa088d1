import Sm120.Flash.Program

namespace Sm120.Flash

open Lib Finset

/-- `bar_sync`, the store of the O tile by one thread and its wait. -/
def storeTile (first : Bool) : List (ℕ × FlashOp) :=
  (7, .sync .epilogue) :: if first then [(8, .store), (9, .drain)] else []

namespace MMnNkN.Traits

variable (c : Traits)

theorem kNWarps_pos : 0 < c.kNWarps := Nat.mul_pos c.warpsM_pos c.warpsN_pos

instance : Nonempty (Fin c.kNWarps) := ⟨⟨0, c.kNWarps_pos⟩⟩

def storage : Storage where
  qSize := c.kBlockM * c.kHeadDim
  kSize := c.kBlockN * c.kHeadDim
  qSize_pos := Nat.mul_pos c.kBlockM_pos c.kHeadDim_pos
  kSize_pos := Nat.mul_pos c.kBlockN_pos c.kHeadDim_pos

def rowStatsSlots : ℕ := if c.warpsN > 1 then c.warpsN * (c.kBlockM / 16) * 16 else 1

def statsSlots (wid : ℕ) : List ℕ :=
  (List.range 32).flatMap fun lane ↦
    if lane % 4 = 0 then
      (List.range (2 * c.wm)).map fun r ↦ wid / c.warpsM * c.kBlockM + c.statsRow wid lane r
    else []

def outCells (S : Storage) (wid idx : ℕ) : Finset ℕ :=
  (range 32 ×ˢ range (2 * c.wm) ×ˢ range (2 * (c.kHeadDim / 8))).image fun x ↦
    idx * S.oSize +
      smemOffset c.kBlockM c.kHeadDim (c.outRow wid x.1 x.2.1) (c.outCol wid x.1 x.2.2)

/-- `normalize_stats`, `O_store` and the store of the tile, as one warp runs them. -/
def epilogueOps (wid : ℕ) : List (ℕ × FlashOp) :=
  if c.warpsN > 1 then
    [(0, .act .statsWrite), (1, .sync .epilogue), (2, .act .statsRead)] ++
    (if wid / c.warpsM > 0 then [(3, .act .partialWrite)] else []) ++
    [(4, .sync .epilogue)] ++
    (if wid / c.warpsM = 0 then [(5, .act .partialRead), (6, .act .outWrite)] else []) ++
    storeTile (wid = 0)
  else (6, .act .outWrite) :: storeTile (wid = 0)

def epilogueActed (S : Storage) (w : Fin c.kNWarps) (t : ℕ) (e : Act) (m : Memory c.kNWarps) :
    Memory c.kNWarps :=
  match e with
  | .statsWrite =>
    { m with stats := fun st i ↦ m.stats st i ++ List.replicate ((c.statsSlots w).count i) (t, w) }
  | .partialWrite => { m with qkv := fill (c.outCells S w (w / c.warpsM - 1)) (.part t w) m.qkv }
  | .outWrite => { m with qkv := fill (c.outCells S w 0) (.out t w) m.qkv }
  | _ => m

def epilogue (S : Storage) : Epilogue c.kNWarps where
  ops w := c.epilogueOps w
  acted := c.epilogueActed S
  rounds := if c.warpsN > 1 then [1, 4, 7] else [7]
  sublist w := by
    unfold epilogueOps storeTile
    split_ifs <;> decide
  syncs w := by
    unfold epilogueOps storeTile
    split_ifs <;> simp_all [Op.isSync]
  stores w := by
    unfold epilogueOps storeTile
    split_ifs <;> simp_all [Op.isStore]
  operand w t e m := by cases e <;> rfl
  output w t e m := by cases e <;> rfl

def kernel (S : Storage) (T : Tiles) : Kernel (Fin 127) (Fin c.kNWarps) Ring Bar Act
    (Memory c.kNWarps) Site :=
  ctaKernel S (c.epilogue S) T

def aligned (S : Storage) (T : Tiles) : Aligned (c.kernel S T) := ctaAligned S (c.epilogue S) T

end MMnNkN.Traits

namespace MMn1k1.Traits

variable (c : Traits)

instance : Nonempty (Fin c.kNWarps) := ⟨⟨0, c.kNWarps_pos⟩⟩

def storage : Storage where
  qSize := c.kBlockM * c.kHeadDim
  kSize := c.kBlockN * c.kHeadDim
  qSize_pos := Nat.mul_pos c.kBlockM_pos c.kHeadDim_pos
  kSize_pos := Nat.mul_pos c.kBlockN_pos c.kHeadDim_pos

def outCells (wid : ℕ) : Finset ℕ :=
  (range 32 ×ˢ range (2 * c.wm) ×ˢ range (2 * (c.kHeadDim / 8))).image fun x ↦
    smemOffset c.kBlockM c.kHeadDim (c.outRow wid x.1 x.2.1) (c.outCol wid x.1 x.2.2)

/-- `O_r2s`, `bar_sync` and the store of the tile, as one warp runs them. -/
def epilogueOps (wid : ℕ) : List (ℕ × FlashOp) := (6, .act .outWrite) :: storeTile (wid = 0)

def epilogueActed (w : Fin c.kNWarps) (t : ℕ) (e : Act) (m : Memory c.kNWarps) : Memory c.kNWarps :=
  match e with
  | .outWrite => { m with qkv := fill (c.outCells w) (.out t w) m.qkv }
  | _ => m

def epilogue : Epilogue c.kNWarps where
  ops w := epilogueOps w
  acted := c.epilogueActed
  rounds := [7]
  sublist w := by
    unfold epilogueOps storeTile
    split_ifs <;> decide
  syncs w := by
    unfold epilogueOps storeTile
    split_ifs <;> simp [Op.isSync]
  stores w := by
    unfold epilogueOps storeTile
    split_ifs <;> simp_all [Op.isStore]
  operand w t e m := by cases e <;> rfl
  output w t e m := by cases e <;> rfl

def kernel (S : Storage) (T : Tiles) : Kernel (Fin 127) (Fin c.kNWarps) Ring Bar Act
    (Memory c.kNWarps) Site :=
  ctaKernel S c.epilogue T

def aligned (S : Storage) (T : Tiles) : Aligned (c.kernel S T) := ctaAligned S c.epilogue T

end MMn1k1.Traits

end Sm120.Flash
