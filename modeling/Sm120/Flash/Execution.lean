import Sm120.Flash.Forward
import Sm120.Flash.Registers
import Sm120.Lib.Blocks
import Sm120.Lib.Lockstep
import Sm120.Lib.Swizzle

set_option linter.unusedSectionVars false

namespace Sm120.Flash

open Lib Finset Function WarpGrid

theorem smemOffset_eq_swizzle (rows headDim r c : ℕ) : smemOffset rows headDim r c =
    if headDim % 64 = 0 then swizzle 3 (· % 8) rows r c
      else swizzle 2 (fun r ↦ r / 2 % 4) rows r c := rfl

theorem smemOffset_inj {rows headDim r c r' c' : ℕ} (hr : r < rows) (hr' : r' < rows)
    (h : smemOffset rows headDim r c = smemOffset rows headDim r' c') : r = r' ∧ c = c' := by
  rw [smemOffset_eq_swizzle, smemOffset_eq_swizzle] at h
  split_ifs at h
  · exact swizzle_inj (fun r ↦ Nat.mod_lt r (by omega)) hr hr' h
  · exact swizzle_inj (fun r ↦ Nat.mod_lt (r / 2) (by omega)) hr hr' h

def itemBase (S : Storage) : Ring → Site → ℕ → ℕ
  | .qk, x, idx => if isQ x then S.kSize * idx else S.kStageStride * idx
  | .v, _, _ => S.qkSize

theorem itemSpan_eq_Ico (S : Storage) (r : Ring) (x : Site) (idx : ℕ) :
    itemSpan S r x idx = Ico (itemBase S r x idx) (itemBase S r x idx + itemSize S r x) := by
  cases r with
  | v => rfl
  | qk =>
    simp only [itemSpan, itemBase, itemSize]
    split_ifs <;> rfl

def blockOf (x : Site) : ℕ := (x.line - 1) / 2

namespace MMnNkN

/-- An address of `Storage`: of the QKV array, or a slot of `row_max` or `row_sum`. -/
abbrev Address := ℕ ⊕ Stat × ℕ

structure Call (c : Traits) (F : Type) [Field F] [LinearOrder F] where
  problem : Problem
  launch : Launch problem c.grid
  exp2 : Exp2 F
  scale : F
  scale_pos : 0 < scale
  Q : Tensor F
  K : Tensor F
  V : Tensor F

structure Data (c : Traits) (F : Type) where
  shared : Address → Option (Num F)
  warp : Fin c.kNWarps → Warp F

namespace Traits

variable (c : Traits)

def itemRows : Ring → Site → ℕ
  | .qk, x => if isQ x then c.kBlockM else c.kBlockN
  | .v, _ => c.kBlockN

def itemAddr (r : Ring) (x : Site) (idx row d : ℕ) : ℕ :=
  itemBase c.storage r x idx + smemOffset (c.itemRows r x) c.kHeadDim row d

def outAddr (idx wid lane r i : ℕ) : ℕ :=
  idx * c.storage.oSize + smemOffset c.kBlockM c.kHeadDim (c.outRow wid lane r)
    (c.outCol wid lane i)

def statSlot (wid lane r : ℕ) : ℕ := wid / c.warpsM * c.kBlockM + c.statsRow wid lane r

def readRows (wid : ℕ) : Ring → Site → Finset ℕ
  | .qk, x =>
    if isQ x then (range 32 ×ˢ range (2 * c.wm)).image fun p ↦ c.grid.scoreRow wid p.1 p.2
    else (range 32 ×ˢ range (2 * c.wn)).image fun p ↦ c.grid.scoreCol wid p.1 p.2
  | .v, _ => c.grid.depths wid

/-- The addresses from which a warp fills its operand registers. -/
def needs (wid : ℕ) (r : Ring) (x : Site) (idx : ℕ) : Finset Address :=
  (c.readRows wid r x ×ˢ range c.kHeadDim).image fun p ↦ .inl (c.itemAddr r x idx p.1 p.2)

def outAddrs : Finset Address :=
  (range c.kBlockM ×ˢ range c.kHeadDim).image fun p ↦ .inl (smemOffset c.kBlockM c.kHeadDim p.1 p.2)

variable {F : Type} [Field F] [LinearOrder F]

def oR2s (wid idx : ℕ) (rO : ℕ → ℕ → ℕ → Num F) (m : Address → Option (Num F)) :
    Address → Option (Num F) :=
  (List.range 32 ×ˢ List.range (2 * c.wm) ×ˢ List.range (2 * (c.kHeadDim / 8))).foldl
    (storeRegion (fun x a ↦ a = .inl (c.outAddr idx wid x.1 x.2.1 x.2.2)) fun x _ ↦
      some (rO x.1 x.2.1 x.2.2)) m

/-- A row statistic of a warp: its maximum, or its sum over the quad. -/
def statOf (y : Warp F) (lane r : ℕ) : Stat → Num F
  | .rowMax => y.rMax lane r
  | .rowSum => warpReduce (· + ·) (fun lane ↦ y.rSum lane r) lane

/-- `normalize_stats` up to its barrier, by one warp. -/
def statsWrite (wid : ℕ) (y : Warp F) (m : Address → Option (Num F)) : Address → Option (Num F) :=
  ([Stat.rowMax, Stat.rowSum] ×ˢ List.range 32 ×ˢ List.range (2 * c.wm)).foldl
    (storeRegion (fun x a ↦ x.2.1 % 4 = 0 ∧ a = .inr (x.1, c.statSlot wid x.2.1 x.2.2))
      fun x _ ↦ some (statOf y x.2.1 x.2.2 x.1)) m

def statAt (m : Address → Option (Num F)) (wid lane r : ℕ) (st : Stat) (n : ℕ) : Num F :=
  (m (.inr (st, n * c.kBlockM + c.statsRow wid lane r))).elim .undef id

def statsRead (E : Exp2 F) (scale : F) (wid : ℕ) (m : Address → Option (Num F))
    (y : Warp F) : Warp F :=
  { y with
    rO := fun lane r i ↦
      let globalMax :=
        (List.range c.warpsN).foldl (fun a n ↦ max a (c.statAt m wid lane r .rowMax n)) .negInf
      let globalSum := (List.range c.warpsN).foldl
        (fun a n ↦ a + c.statAt m wid lane r .rowSum n *
          .exp2 E ((c.statAt m wid lane r .rowMax n - globalMax) * .fin scale)) (.fin 0)
      let partialScale := Num.ifNegInf (y.rMax lane r) (.fin 0)
        (.exp2 E ((y.rMax lane r - globalMax) * .fin scale))
      let invSum := Num.ifZero globalSum (.fin 1) (partialScale / globalSum)
      y.rO lane r i * invSum }

def partialRead (wid : ℕ) (m : Address → Option (Num F)) (y : Warp F) : Warp F :=
  { y with
    rO := fun lane r i ↦ (List.range' 1 (c.warpsN - 1)).foldl
      (fun a n ↦ a + (m (.inl (c.outAddr (n - 1) wid lane r i))).getD .undef) (y.rO lane r i) }

/-- The accumulators as `O_store` finds them. Where a warp holds whole rows, `normalize_stats` needs
no shared memory. -/
def normalized (wid : ℕ) (y : Warp F) : ℕ → ℕ → ℕ → Num F :=
  if 1 < c.warpsN then y.rO else normalizeRows y.consumer wid

end Traits

namespace Call

variable {c : Traits} {F : Type} [Field F] [LinearOrder F] (q : Call c F) (ids : List ℕ)

def qBlock (id : ℕ) : ℕ := (q.launch.tileCoord id).1

def kBlocks (id : ℕ) : ℕ := q.launch.kBlocks (q.qBlock id)

def operands (id : ℕ) : Operands F :=
  let (_, head, batch) := q.launch.tileCoord id
  q.problem.operands q.Q q.K q.V head batch

def tiles : Tiles where
  blocks := ids.map q.kBlocks
  pos kb h := by
    obtain ⟨id, -, rfl⟩ := List.mem_map.1 h
    exact q.launch.kBlocks_pos _

def idAt (ids : List ℕ) (x : Site) : ℕ := (ids[x.tile]?).getD 0

def source (r : Ring) (x : Site) (row d : ℕ) : F :=
  let o := q.operands (idAt ids x)
  match r with
  | .qk =>
    if isQ x then localTile c.kBlockM o.Q (q.qBlock (idAt ids x)) row d
    else localTile c.kBlockN o.K (blockOf x) row d
  | .v => localTile c.kBlockN o.V (blockOf x) row d

def landed (y : Copy Ring Site) (m : Address → Option (Num F)) : Address → Option (Num F) :=
  (List.range (c.itemRows y.ring y.site) ×ˢ List.range c.kHeadDim).foldl
    (storeRegion (fun p a ↦ a = .inl (c.itemAddr y.ring y.site y.slot p.1 p.2))
      fun p _ ↦ some (.fin (q.source ids y.ring y.site p.1 p.2))) m

def consume (wid : ℕ) (r : Ring) (x : Site) (s : ℕ → ℕ → Num F) (y : Warp F) : Warp F :=
  match r with
  | .qk =>
    if isQ x then c.grid.qRead wid s y
    else c.grid.kRead q.exp2 q.scale q.problem.causal (q.qBlock (idAt ids x)) (blockOf x) wid s y
  | .v => c.grid.vRead wid s y

/-- What a CTA of `flash_atten_v3_fwd` computes for its tiles. -/
def dataflow : Dataflow (c.kernel c.storage (q.tiles ids)) Address (Num F) (Data c F)
    (Tensor (Num F)) where
  data :=
    ⟨fun _ ↦ none, fun _ ↦ ⟨fun _ _ _ ↦ .undef, fun _ _ _ ↦ .undef, fun _ _ ↦ .undef,
      fun _ _ ↦ .undef,
    fun _ _ _ ↦ .undef⟩⟩
  shared := Data.shared
  needs w r x idx := c.needs w r x idx
  extent _ := c.outAddrs
  issued r x idx d :=
    { d with
      shared := Sum.elim (clear (itemSpan c.storage r x idx) (d.shared ∘ .inl)) (d.shared ∘ .inr) }
  landed y d := { d with shared := q.landed ids y d.shared }
  consumed w r x idx b d :=
    { d with
      warp := update d.warp w
        (q.consume ids w r x (fun row k ↦ (b (.inl (c.itemAddr r x idx row k))).getD .undef)
          (d.warp w)) }
  acted p _ e d :=
    match p, e with
    | .warp w, .statsWrite => { d with shared := c.statsWrite w (d.warp w) d.shared }
    | .warp w, .statsRead =>
      { d with warp := update d.warp w (c.statsRead q.exp2 q.scale w d.shared (d.warp w)) }
    | .warp w, .partialWrite =>
      { d with shared := c.oR2s w (w / c.warpsM - 1) (d.warp w).rO d.shared }
    | .warp w, .partialRead =>
      { d with warp := update d.warp w (c.partialRead w d.shared (d.warp w)) }
    | .warp w, .outWrite => { d with shared := c.oR2s w 0 (c.normalized w (d.warp w)) d.shared }
    | _, _ => d
  written x a v O := fun i ↦
    if q.launch.region (idAt ids x) i ∧
      a = .inl (smemOffset c.kBlockM c.kHeadDim (i.2.1 % c.kBlockM) i.2.2.2) then v
    else O i

end Call

end MMnNkN

end Sm120.Flash
