import Sm120.Gemm.Epilogue
import Sm120.Gemm.Mainloop
import Sm120.Gemm.Tiles
import Sm120.Lib.Blocks
import Sm120.Lib.Lockstep
import Sm120.Lib.Swizzle

set_option linter.unusedSectionVars false

namespace Sm120.Gemm

open Lib Finset Function

/-- An address of `SharedStorage`: of the arrays A and B, or an element of sC. -/
abbrev Address := ℕ ⊕ ℕ × ℕ

namespace Traits

variable (c : Traits)

def rows (part : ℕ) : ℕ := if part = 0 then c.bM else c.bN

def base (part slot : ℕ) : ℕ := if part = 0 then slot * c.sizeA
    else c.stage * c.sizeA + slot * c.sizeB

/-- The address of an element of the tile in a slot: `Layout_K_SW128_Atom`, tiled to the stages. -/
def addr (part slot i kk : ℕ) : ℕ := c.base part slot + swizzle 3 (· % 8) (c.rows part) i kk

/-- An accumulator of the CTA. -/
abbrev Reg := { x : Register // x.Valid c.consumers c.wm c.wn }

instance (x : Register) : Decidable (x.Valid c.consumers c.wm c.wn) :=
  decidable_of_iff (x.wid < c.consumers ∧ x.lane < 32 ∧ x.v1 < 2 ∧ x.m < c.wm ∧
    x.v0 < 2 ∧ x.n < c.wn)
    ⟨fun ⟨h1, h2, h3, h4, h5, h6⟩ ↦ ⟨h1, h2, h3, h4, h5, h6⟩,
      fun h ↦ ⟨h.wid, h.lane, h.v1, h.m, h.v0, h.n⟩⟩

def warpRegs (wid : ℕ) : List c.Reg :=
  (List.range 32 ×ˢ List.range 2 ×ˢ List.range c.wm ×ˢ List.range 2 ×ˢ List.range c.wn).filterMap
    fun p ↦
    if h : Register.Valid c.consumers c.wm c.wn ⟨wid, p.1, p.2.1, p.2.2.1, p.2.2.2.1,
      p.2.2.2.2⟩ then
      some ⟨_, h⟩
    else none

def needs (wid slot : ℕ) : Finset Address :=
  ((range 32 ×ˢ range 2 ×ˢ range c.wm) ×ˢ range c.bK).image
      (fun x ↦ .inl (c.addr 0 slot (c.mma.row wid x.1.1 x.1.2.1 x.1.2.2) x.2)) ∪
    ((range 32 ×ˢ range 2 ×ˢ range c.wn) ×ˢ range c.bK).image
      fun x ↦ .inl (c.addr 1 slot (c.mma.col wid x.1.1 x.1.2.1 x.1.2.2) x.2)

end Traits

/-- The matrices of a call, and the conversions between their elements and the accumulators. -/
structure Inputs (R T : Type) where
  up : T → R
  cvt : R → T
  A : ℕ → ℕ → T
  B : ℕ → ℕ → T

structure Data (c : Traits) (R T : Type) where
  shared : Address → Option T
  rC : c.Reg → R

namespace Inputs

variable {R T : Type} (X : Inputs R T) (c : Traits)

/-- Element `(i, kk)` of the tile that a copy of a load brings for step `k` of the output tile
`coord`. -/
def source (part : ℕ) (coord : ℕ × ℕ) (k i kk : ℕ) : T :=
  if part = 0 then X.A (coord.1 * c.bM + i) (k * c.bK + kk)
    else X.B (coord.2 * c.bN + i) (k * c.bK + kk)

def tileOf (coords : List (ℕ × ℕ)) (x : Site) : ℕ × ℕ := (coords[x.tile]?).getD (0, 0)

def landed (coords : List (ℕ × ℕ)) (d : Copy Unit Site) (m : Address → Option T) :
    Address → Option T :=
  (List.range (c.rows d.part) ×ˢ List.range c.bK).foldl
    (storeRegion (fun x a ↦ a = .inl (c.addr d.part d.slot x.1 x.2))
      fun x _ ↦ some (X.source c d.part (tileOf coords d.site) d.site.line x.1 x.2)) m

/-- `copy(r2s_c, cpy_rC, cpy_sC)` by one warp. -/
def cWrite (wid : ℕ) (rC : c.Reg → R) (m : Address → Option T) : Address → Option T :=
  (c.warpRegs wid).foldl
    (storeRegion (fun (x : c.Reg) a ↦ a = .inr (c.mma.coord x)) fun x _ ↦ some (X.cvt (rC x))) m

variable [Semiring R]

def operand (b : Address → Option T) (part slot i kk : ℕ) : R :=
  ((b (.inl (c.addr part slot i kk))).map X.up).getD 0

/-- `consume_pipe` in one warp: `clear` at the first step of a tile, then the products of the
slot. -/
def consume (wid : ℕ) (x : Site) (sA sB : ℕ → ℕ → R) (rC : c.Reg → R) : c.Reg → R := fun y ↦
  if y.1.wid = wid then
    (if x.line = 0 then 0 else rC y) +
      ∑ kk ∈ range c.bK, sA (c.mma.coord y).1 kk * sB (c.mma.coord y).2 kk
  else rC y

def dataflow (coords : List (ℕ × ℕ)) (kNum : ℕ) :
    Dataflow (c.kernel coords.length kNum) Address T (Data c R T) (ℕ × ℕ → T) where
  data := ⟨fun _ ↦ none, fun _ ↦ 0⟩
  shared := Data.shared
  needs w _ _ slot := c.needs w slot
  extent _ := (range c.bM ×ˢ range c.bN).map ⟨.inr, Sum.inr_injective⟩
  issued _ _ slot d :=
    { d with
      shared := Sum.elim (clear (c.getSA slot ∪ c.getSB slot) (d.shared ∘ .inl)) (d.shared ∘ .inr) }
  landed y d := { d with shared := X.landed c coords y d.shared }
  consumed w _ x slot b d :=
    { d with rC := consume c w x (X.operand c b 0 slot) (X.operand c b 1 slot) d.rC }
  acted p _ e d :=
    match p, e with
    | .warp w, .cWrite => { d with shared := X.cWrite c w d.rC d.shared }
    | _, _ => d
  written x a v C :=
    let coord := tileOf coords x
    match a with
    | .inr (i, j) => update C (coord.1 * c.bM + i, coord.2 * c.bN + j) v
    | .inl _ => C

end Inputs

namespace Traits

variable {c : Traits}

theorem coord_lt (x : c.Reg) : (c.mma.coord x).1 < c.bM ∧ (c.mma.coord x).2 < c.bN := by
  obtain ⟨x, hx⟩ := x
  rw [consumers_eq] at hx
  have h := c.covers.coord_lt hx
  rwa [← bM_eq, ← bN_eq] at h

theorem coord_inj {x y : c.Reg} (h : c.mma.coord x = c.mma.coord y) : x = y := by
  obtain ⟨x, hx⟩ := x
  obtain ⟨y, hy⟩ := y
  rw [consumers_eq] at hx hy
  have hlt := c.covers.coord_lt hx
  exact Subtype.ext ((c.covers.existsUnique hlt.1 hlt.2).unique ⟨hx, rfl⟩ ⟨hy, h.symm⟩)

theorem mem_warpRegs {wid : ℕ} {x : c.Reg} : x ∈ c.warpRegs wid ↔ x.1.wid = wid := by
  rw [warpRegs, List.mem_filterMap]
  constructor
  · rintro ⟨p, -, h⟩
    split_ifs at h
    cases h
    rfl
  · rintro rfl
    have hx := x.2
    refine ⟨(x.1.lane, x.1.v1, x.1.m, x.1.v0, x.1.n), ?_, dif_pos hx⟩
    have hmem : ∀ {a n : ℕ}, a < n → a ∈ List.range n := fun h ↦ List.mem_range.2 h
    exact List.pair_mem_product.2 ⟨hmem hx.lane, List.pair_mem_product.2 ⟨hmem hx.v1,
      List.pair_mem_product.2 ⟨hmem hx.m, List.pair_mem_product.2 ⟨hmem hx.v0, hmem hx.n⟩⟩⟩⟩

theorem mem_cCells_iff {w : Fin c.consumers} {a : ℕ × ℕ} :
    a ∈ c.cCells w ↔ ∃ x : c.Reg, x.1.wid = w ∧ c.mma.coord x = a := by
  rw [mem_cCells w.isLt]
  constructor
  · rintro ⟨x, hx, hw, ha⟩
    exact ⟨⟨x, hx⟩, hw, ha⟩
  · rintro ⟨x, hw, ha⟩
    exact ⟨x, x.2, hw, ha⟩

theorem key_lt (r : ℕ) : r % 8 < 2 ^ 3 := Nat.mod_lt r (by omega)

theorem addr_inj {part slot i kk i' kk' : ℕ} (hi : i < c.rows part) (hi' : i' < c.rows part)
    (h : c.addr part slot i kk = c.addr part slot i' kk') : i = i' ∧ kk = kk' :=
  swizzle_inj key_lt hi hi' (Nat.add_left_cancel h)

theorem partSpan_eq_Ico (part slot : ℕ) :
    c.partSpan part slot = Ico (c.base part slot) (c.base part slot + c.rows part * c.bK) := by
  unfold partSpan base rows
  split_ifs <;> rfl

theorem partSpan_eq (part slot : ℕ) : c.partSpan part slot =
    (range (c.rows part) ×ˢ range c.bK).image fun x ↦ c.addr part slot x.1 x.2 := by
  have hinj : Set.InjOn (fun x : ℕ × ℕ ↦ c.addr part slot x.1 x.2)
      (range (c.rows part) ×ˢ range c.bK : Finset (ℕ × ℕ)) := by
    intro x hx y hy h
    rw [mem_coe, mem_product, mem_range, mem_range] at hx hy
    obtain ⟨h1, h2⟩ := addr_inj hx.1 hy.1 h
    exact Prod.ext h1 h2
  refine (eq_of_subset_of_card_le ?_ ?_).symm
  · intro a ha
    obtain ⟨x, hx, rfl⟩ := mem_image.1 ha
    rw [mem_product, mem_range, mem_range] at hx
    have hlt : swizzle 3 (· % 8) (c.rows part) x.1 x.2 < c.rows part * c.bK :=
      swizzle_lt key_lt c.bK_mod hx.1 hx.2
    rw [partSpan_eq_Ico, mem_Ico, addr]
    omega
  · rw [partSpan_eq_Ico, Nat.card_Ico, card_image_of_injOn hinj, card_product,
      card_range, card_range]
    omega

theorem mem_partSpan {part slot a : ℕ} :
    a ∈ c.partSpan part slot ↔ ∃ i < c.rows part, ∃ kk < c.bK, c.addr part slot i kk = a := by
  simp only [partSpan_eq, mem_image, mem_product, mem_range, Prod.exists]
  constructor
  · rintro ⟨i, kk, ⟨hi, hk⟩, h⟩
    exact ⟨i, hi, kk, hk, h⟩
  · rintro ⟨i, hi, kk, hk, h⟩
    exact ⟨i, kk, ⟨hi, hk⟩, h⟩

end Traits

namespace Inputs

variable {R T : Type} {X : Inputs R T} {c : Traits}

theorem landed_apply (coords : List (ℕ × ℕ)) (d : Copy Unit Site) (m : Address → Option T)
    {i kk : ℕ} (hi : i < c.rows d.part) (hk : kk < c.bK) :
    X.landed c coords d m (.inl (c.addr d.part d.slot i kk)) =
      some (X.source c d.part (tileOf coords d.site) d.site.line i kk) := by
  have hmem : (i, kk) ∈ List.range (c.rows d.part) ×ˢ List.range c.bK :=
    List.pair_mem_product.2 ⟨List.mem_range.2 hi, List.mem_range.2 hk⟩
  rw [landed, foldl_storeRegion_of_mem hmem]
  · rfl
  · intro y hy h
    have hy₁ := List.mem_range.1 (List.mem_product.1 hy).1
    obtain ⟨h1, h2⟩ := Traits.addr_inj hi hy₁ (Sum.inl.inj h)
    exact Prod.ext h1.symm h2.symm

theorem landed_of_notMem (coords : List (ℕ × ℕ)) (d : Copy Unit Site) (m : Address → Option T)
    {a : Address} (h : ∀ y ∈ c.partSpan d.part d.slot, a ≠ .inl y) :
    X.landed c coords d m a = m a := by
  rw [landed, foldl_storeRegion_of_notMem]
  intro y hy ha
  obtain ⟨h1, h2⟩ := List.mem_product.1 hy
  exact h _ (Traits.mem_partSpan.2 ⟨y.1, List.mem_range.1 h1, y.2, List.mem_range.1 h2, rfl⟩) ha

theorem cWrite_apply (rC : c.Reg → R) (m : Address → Option T) (x : c.Reg) :
    X.cWrite c x.1.wid rC m (.inr (c.mma.coord x)) = some (X.cvt (rC x)) := by
  rw [cWrite, foldl_storeRegion_of_mem (Traits.mem_warpRegs.2 (Eq.refl x.1.wid))]
  · rfl
  · intro y _ h
    exact Traits.coord_inj (Sum.inr.inj h).symm

theorem cWrite_of_notMem {wid : ℕ} (rC : c.Reg → R) (m : Address → Option T) {a : Address}
    (h : ∀ x : c.Reg, x.1.wid = wid → a ≠ .inr (c.mma.coord x)) : X.cWrite c wid rC m a = m a := by
  rw [cWrite, foldl_storeRegion_of_notMem]
  intro x hx
  exact h x (Traits.mem_warpRegs.1 hx)

section Lockstep

variable [Semiring R] (X) (c)

def product (coord : ℕ × ℕ) (n i j : ℕ) : R :=
  ∑ k ∈ range n, X.up (X.A (coord.1 * c.bM + i) k) * X.up (X.B (coord.2 * c.bN + j) k)

variable {X} {c} in
theorem product_succ (coord : ℕ × ℕ) (n i j : ℕ) : X.product c coord ((n + 1) * c.bK) i j =
    X.product c coord (n * c.bK) i j +
      ∑ kk ∈ range c.bK, X.up (X.source c 0 coord n i kk) * X.up (X.source c 1 coord n j kk) := by
  rw [product, Nat.succ_mul, sum_range_add]
  rfl

variable [DecidableEq T] (coords : List (ℕ × ℕ)) (kNum : ℕ)

def lockstep : Lockstep (X.dataflow c coords kNum) (c.Reg →
    R) (Copy Unit Site ⊕ ℕ × Fin c.consumers) where
  view m := Sum.elim (fun a ↦ (m.operand a).map .inl) fun a ↦ (m.sC a).map .inr
  value
    | .inl d, a, v => ∀ i < c.rows d.part, ∀ kk < c.bK, a = .inl (c.addr d.part d.slot i kk) →
        v = X.source c d.part (tileOf coords d.site) d.site.line i kk
    | .inr (t, w), a, v => ∀ x : c.Reg, x.1.wid = w → a = .inr (c.mma.coord x) →
        v = X.cvt (X.product c (tileOf coords (site t 0)) (kNum * c.bK) (c.mma.coord x).1
          (c.mma.coord x).2)
  item _ x slot a v :=
    ∀ part < 2, ∀ i < c.rows part, ∀ kk < c.bK, a = .inl (c.addr part slot i kk) →
    v = X.source c part (tileOf coords x) x.line i kk
  registers d w x := if x.1.wid = w then d.rC x else 0
  read w _ x := consume c w x (fun i kk ↦ X.up (X.source c 0 (tileOf coords x) x.line i kk))
    fun j kk ↦ X.up (X.source c 1 (tileOf coords x) x.line j kk)
  act _ _ _ y := y

variable {X} {c} {coords} {kNum}

theorem step_read (w : Fin c.consumers) (y : c.Reg → R) (x : Site) :
    (X.lockstep c coords kNum).step w y ⟨x, .read ()⟩ = consume c w x
      (fun i kk ↦ X.up (X.source c 0 (tileOf coords x) x.line i kk))
      (fun j kk ↦ X.up (X.source c 1 (tileOf coords x) x.line j kk)) y := rfl

theorem foldl_mainloop (w : Fin c.consumers) (y : c.Reg → R) (t : ℕ) {n : ℕ} (hn : 0 < n)
    {x : c.Reg} (hx : x.1.wid = w) : (mainloop t n).foldl ((X.lockstep c coords kNum).step w) y x =
      X.product c (tileOf coords (site t 0)) (n * c.bK) (c.mma.coord x).1 (c.mma.coord x).2 := by
  induction n with
  | zero => exact absurd hn (Nat.lt_irrefl 0)
  | succ n ih =>
    have hsplit : mainloop t (n + 1) = mainloop t n ++ [⟨site t n, .read ()⟩] := by
      rw [mainloop, List.range_succ, List.map_append]
      rfl
    rw [hsplit, List.foldl_append, product_succ, List.foldl_cons, List.foldl_nil, step_read,
      consume, if_pos hx]
    rcases Nat.eq_zero_or_pos n with rfl | hpos
    · rw [if_pos (Site.line_site t 0), Nat.zero_mul]
      rfl
    · rw [if_neg (by simpa using hpos.ne'), ih hpos]
      rfl

theorem past_of_cWrite {w : Fin c.consumers} {t : ℕ} (ht : t < coords.length) {past tl : List Line}
    (hp : (c.kernel coords.length kNum).program (.warp w) =
      past ++ ⟨site t (kNum + 2), .act .cWrite⟩ :: tl) :
    ∃ before between, past = before ++ mainloop t kNum ++ between ∧
      ∀ i ∈ between, i.op = .drain ∨ ∃ b, i.op = .sync b := by
  have hreplicate : List.replicate coords.length kNum =
      List.replicate t kNum ++ kNum :: List.replicate (coords.length - t - 1) kNum := by
    rw [← List.replicate_succ, ← List.replicate_add]
    congr 1
    omega
  have hloop : (c.kernel coords.length kNum).program (.warp w) =
      unroll (consumerBody w) 0 (List.replicate coords.length kNum) ++
        (lastDrain w coords.length ++ [syncThreads coords.length]) := rfl
  rw [hreplicate, unroll_append, unroll_cons, List.length_replicate, Nat.zero_add, consumerBody,
    epilogue] at hloop
  let between : List Line := (if w.val = 0 ∧ 0 < t then [⟨site t kNum, .drain⟩] else []) ++
    [⟨site t (kNum + 1), .sync .epilogue⟩]
  refine ⟨unroll (consumerBody w) 0 (List.replicate t kNum), between, ?_, ?_⟩
  · have hnd : ((c.kernel coords.length kNum).program (.warp w)).Nodup :=
      (Traits.program_sorted (.warp w)).imp fun h he ↦ absurd (he ▸ h) (lt_irrefl _)
    have hsplit : ∃ tl', (c.kernel coords.length kNum).program (.warp w) =
        (unroll (consumerBody w) 0 (List.replicate t kNum) ++ mainloop t kNum ++ between) ++
          ⟨site t (kNum + 2), .act .cWrite⟩ :: tl' := by
      rw [hloop]
      simp only [between, List.append_assoc, List.cons_append, List.nil_append]
      exact ⟨_, rfl⟩
    obtain ⟨tl', hsplit⟩ := hsplit
    exact past_unique hnd hp hsplit
  · intro i hi
    simp only [between, List.mem_append, List.mem_singleton] at hi
    rcases hi with hi | rfl
    · split_ifs at hi
      · rw [List.mem_singleton.1 hi]
        exact .inl rfl
      · cases hi
    · exact .inr ⟨_, rfl⟩

theorem foldl_between {w : Fin c.consumers} {l : List Line}
    (hl : ∀ i ∈ l, i.op = .drain ∨ ∃ b, i.op = .sync b) (y : c.Reg → R) :
    l.foldl ((X.lockstep c coords kNum).step w) y = y := by
  induction l with
  | nil => rfl
  | cons i l ih =>
    have hi : (X.lockstep c coords kNum).step w y i = y := by
      rcases hl i List.mem_cons_self with h | ⟨b, h⟩ <;> rw [Lockstep.step, h]
    rw [List.foldl_cons, hi, ih fun j hj ↦ hl j (List.mem_cons_of_mem i hj)]

theorem registers_of_cWrite (hk : 0 < kNum)
    {e : Exec (Fin 127) (Fin c.consumers) Unit Bar Act (Memory c.consumers) Site Address T
      (Data c R T)}
    (hs : (c.kernel coords.length kNum).Reachable e.control)
    (hf : (X.lockstep c coords kNum).Follows e)
    {w : Fin c.consumers} {x : Site} {tl : List Line}
    (hr : e.control.rest (.warp w) = ⟨x, .act .cWrite⟩ :: tl)
    {y : c.Reg} (hy : y.1.wid = w) : e.data.rC y =
      X.product c (tileOf coords (site x.tile 0)) (kNum * c.bK) (c.mma.coord y).1
        (c.mma.coord y).2 := by
  have hi := Kernel.Reachable.inv (c.aligned coords.length kNum) hs
  obtain ⟨t, ht, rfl⟩ :=
    Traits.mem_program_cWrite.1 ((hi.suffix _).subset (hr ▸ List.mem_cons_self))
  obtain ⟨past, hp, hreg⟩ := hf w
  rw [hr] at hp
  obtain ⟨before, between, rfl, hbetween⟩ := past_of_cWrite ht hp
  have hval : e.data.rC y = (X.lockstep c coords kNum).registers e.data w y := (if_pos hy).symm
  rw [hval, hreg, List.foldl_append, List.foldl_append, foldl_between hbetween,
    foldl_mainloop w _ t hk hy]
  rfl

section Sound

variable {c : Traits}

theorem wn_pos (c : Traits) : 0 < c.wn := by
  have h := c.bN_pos
  rw [Traits.bN_eq] at h
  exact Nat.pos_of_mul_pos_left (Nat.pos_of_mul_pos_left h)

theorem wm_pos (c : Traits) : 0 < c.wm := by
  have h := c.bM_pos
  rw [Traits.bM_eq] at h
  exact Nat.pos_of_mul_pos_left (Nat.pos_of_mul_pos_left h)

theorem mem_needs {w : Fin c.consumers} {slot : ℕ} {a : Address} (ha : a ∈ c.needs w slot) :
    ∃ part < 2, ∃ b ∈ c.partSpan part slot, a = .inl b := by
  rw [Traits.needs, mem_union, mem_image, mem_image] at ha
  rcases ha with ⟨⟨⟨lane, v1, m⟩, kk⟩, hx, rfl⟩ | ⟨⟨⟨lane, v0, n⟩, kk⟩, hx, rfl⟩
  · simp only [mem_product, mem_range] at hx
    obtain ⟨⟨hl, h1, hm⟩, hkk⟩ := hx
    have hlt :=
      Traits.coord_lt (c := c) ⟨⟨w, lane, v1, m, 0, 0⟩, ⟨w.isLt, hl, h1, hm, Nat.two_pos, wn_pos c⟩⟩
    exact ⟨0, Nat.two_pos, _, Traits.mem_partSpan.2 ⟨_, hlt.1, kk, hkk, rfl⟩, rfl⟩
  · simp only [mem_product, mem_range] at hx
    obtain ⟨⟨hl, h0, hn⟩, hkk⟩ := hx
    have hlt :=
      Traits.coord_lt (c := c) ⟨⟨w, lane, 0, 0, v0, n⟩, ⟨w.isLt, hl, Nat.two_pos, wm_pos c, h0, hn⟩⟩
    exact ⟨1, Nat.one_lt_two, _, Traits.mem_partSpan.2 ⟨_, hlt.2, kk, hkk, rfl⟩, rfl⟩

theorem operand_mem_needs (x : c.Reg) (slot : ℕ) {kk : ℕ} (hk : kk < c.bK) :
    .inl (c.addr 0 slot (c.mma.coord x).1 kk) ∈ c.needs x.1.wid slot ∧
      .inl (c.addr 1 slot (c.mma.coord x).2 kk) ∈ c.needs x.1.wid slot := by
  obtain ⟨x, hx⟩ := x
  have hmem : ∀ {a n : ℕ}, a < n → a ∈ range n := fun h ↦ mem_range.2 h
  constructor
  · refine mem_union_left _ (mem_image.2 ⟨((x.lane, x.v1, x.m), kk), ?_, rfl⟩)
    exact mem_product.2 ⟨mem_product.2 ⟨hmem hx.lane, mem_product.2 ⟨hmem hx.v1, hmem hx.m⟩⟩,
      hmem hk⟩
  · refine mem_union_right _ (mem_image.2 ⟨((x.lane, x.v0, x.n), kk), ?_, rfl⟩)
    exact mem_product.2 ⟨mem_product.2 ⟨hmem hx.lane, mem_product.2 ⟨hmem hx.v0, hmem hx.n⟩⟩,
      hmem hk⟩

theorem agree_issued (x : Site) (slot : ℕ) {m : Memory c.consumers} {d : Data c R T}
    (h : (X.lockstep c coords kNum).Agree m d) :
    (X.lockstep c coords kNum).Agree ((c.kernel coords.length kNum).issued () x slot m)
      ((X.dataflow c coords kNum).issued () x slot d) := by
  intro a tag hc
  cases a with
  | inr a => exact h (.inr a) tag hc
  | inl a =>
    obtain ⟨y, hy, rfl⟩ := Option.map_eq_some_iff.1 hc
    by_cases ha : a ∈ c.getSA slot ∪ c.getSB slot
    · have hnone : clear (c.getSA slot ∪ c.getSB slot) m.operand a = none := if_pos ha
      cases hnone.symm.trans hy
    · have hm : m.operand a = some y := (clear_of_notMem ha).symm.trans hy
      have hd : ((X.dataflow c coords kNum).issued () x slot d).shared (.inl a) =
          d.shared (.inl a) :=
        clear_of_notMem ha
      obtain ⟨v, hv, hval⟩ := h (.inl a) (.inl y) (congrArg (Option.map Sum.inl) hm)
      exact ⟨v, hd.trans hv, hval⟩

theorem agree_landed (d : Copy Unit Site) {m : Memory c.consumers} {y : Data c R T}
    (h : (X.lockstep c coords kNum).Agree m y) :
    (X.lockstep c coords kNum).Agree ((c.kernel coords.length kNum).landed d m)
      ((X.dataflow c coords kNum).landed d y) := by
  intro a tag hc
  by_cases ha : ∃ b ∈ c.partSpan d.part d.slot, a = .inl b
  · obtain ⟨b, hb, rfl⟩ := ha
    have hfill : fill (c.partSpan d.part d.slot) d m.operand b = some d := fill_of_mem hb
    have htag : tag = .inl d := by
      have h : (fill (c.partSpan d.part d.slot) d m.operand b).map Sum.inl = some tag := hc
      rw [hfill, Option.map_some, Option.some.injEq] at h
      exact h.symm
    obtain ⟨i, hi, kk, hk, rfl⟩ := Traits.mem_partSpan.1 hb
    subst htag
    refine ⟨_, landed_apply coords d y.shared hi hk, fun i' hi' kk' _ hadd ↦ ?_⟩
    obtain ⟨rfl, rfl⟩ := Traits.addr_inj hi hi' (Sum.inl.inj hadd)
    rfl
  · push Not at ha
    have hview : (X.lockstep c coords kNum).view m a = some tag := by
      rw [← hc]
      cases a with
      | inr a => rfl
      | inl b =>
        have hb : b ∉ c.partSpan d.part d.slot := fun hb ↦ ha b hb rfl
        exact congrArg (Option.map Sum.inl) (fill_of_notMem hb).symm
    obtain ⟨v, hv, hval⟩ := h a tag hview
    exact ⟨v, (landed_of_notMem coords d y.shared ha).trans hv, hval⟩

theorem reading_item {s : State (Fin 127) (Fin c.consumers) Unit Bar Act (Memory c.consumers) Site}
    (hs : (c.kernel coords.length kNum).Reachable s) {w : Fin c.consumers} {x : Site}
    {tl : List Line}
    (hr : s.rest (.warp w) = ⟨x, .read ()⟩ :: tl) (hb : s.busy (.warp w) = true) {a : Address}
    (ha : a ∈ c.needs w (s.consumer w ()).index) :
    ∃ tag, (X.lockstep c coords kNum).view s.memory a = some tag ∧ ∀ v,
      (X.lockstep c coords kNum).value tag a v →
        (X.lockstep c coords kNum).item () x (s.consumer w ()).index a v := by
  have hi := Kernel.Reachable.inv (c.aligned coords.length kNum) hs
  have hslot : (s.consumer w ()).index < c.stage := by
    rw [hi.consumer_eq]
    exact Nat.mod_lt _ Traits.stage_pos
  obtain ⟨part, hpart, b, hmem, rfl⟩ := mem_needs ha
  have hview := (c.operands coords.length kNum).reading hs hr hb hpart hmem
  refine ⟨.inl ⟨(), x, part, (s.consumer w ()).index⟩, congrArg (Option.map Sum.inl) hview, ?_⟩
  intro v hv part' hpart' i hi kk hk hadd
  have hb : b = c.addr part' (s.consumer w ()).index i kk := Sum.inl.inj hadd
  by_cases hpp : part' = part
  · subst hpp
    exact hv i hi kk hk hadd
  · have hd := Traits.parts_disjoint c coords.length kNum () hslot hpart' hpart hpp
    exact absurd hmem (disjoint_left.1 hd (Traits.mem_partSpan.2 ⟨i, hi, kk, hk, hb.symm⟩))

theorem operand_eq {b : Address → Option T} {part slot i kk : ℕ} {v : T}
    (h : b (.inl (c.addr part slot i kk)) = some v) : X.operand c b part slot i kk = X.up v := by
  rw [operand, h]
  rfl

theorem registers_consumed (w : Fin c.consumers) (x : Site) (slot : ℕ) (b : Address → Option T)
    (d : Data c R T) (hb : ∀ a ∈ c.needs w slot, ∃ v, b a = some v ∧
    (X.lockstep c coords kNum).item () x slot a v) :
    (X.lockstep c coords kNum).registers ((X.dataflow c coords kNum).consumed w () x slot b d) =
      update ((X.lockstep c coords kNum).registers d) w
        ((X.lockstep c coords kNum).read w () x ((X.lockstep c coords kNum).registers d w)) := by
  funext v y
  change (if y.1.wid = v then
    consume c w x (X.operand c b 0 slot) (X.operand c b 1 slot) d.rC y else 0) = _
  by_cases hv : v = w
  · subst hv
    rw [update_self]
    have hread : (X.lockstep c coords kNum).read v () x ((X.lockstep c coords kNum).registers d v) =
        consume c v x (fun i kk ↦ X.up (X.source c 0 (tileOf coords x) x.line i kk))
          (fun j kk ↦ X.up (X.source c 1 (tileOf coords x) x.line j kk))
          fun z ↦ if z.1.wid = v then d.rC z else 0 := rfl
    rw [hread]
    by_cases hy : y.1.wid = v
    · rw [if_pos hy, consume, consume, if_pos hy, if_pos hy, if_pos hy]
      refine congrArg _ (sum_congr rfl fun kk hk ↦ ?_)
      rw [mem_range] at hk
      obtain ⟨hA, hB⟩ := operand_mem_needs y slot hk
      rw [hy] at hA hB
      obtain ⟨hi, hj⟩ := Traits.coord_lt y
      obtain ⟨vA, hvA, hitemA⟩ := hb _ hA
      obtain ⟨vB, hvB, hitemB⟩ := hb _ hB
      rw [operand_eq hvA, operand_eq hvB, hitemA 0 Nat.two_pos _ hi kk hk rfl,
        hitemB 1 Nat.one_lt_two _ hj kk hk rfl]
    · rw [if_neg hy, consume, if_neg hy, if_neg hy]
  · rw [update_of_ne hv]
    by_cases hy : y.1.wid = v
    · have hne : y.1.wid ≠ w := fun h ↦ hv (Fin.ext (hy.symm.trans h))
      rw [if_pos hy, consume, if_neg hne]
      exact (if_pos hy).symm
    · rw [if_neg hy]
      exact (if_neg hy).symm

theorem agree_cWrite (hk : 0 < kNum)
    {e : Exec (Fin 127) (Fin c.consumers) Unit Bar Act (Memory c.consumers) Site Address T
      (Data c R T)}
    (he : (X.dataflow c coords kNum).Reachable e) (hh : (X.lockstep c coords kNum).Holds e)
    {w : Fin c.consumers} {x : Site} {tl : List Line}
    (hr : e.control.rest (.warp w) = ⟨x, .act .cWrite⟩ :: tl) :
    (X.lockstep c coords kNum).Agree (c.acted (.warp w) x .cWrite e.control.memory)
      { e.data with shared := X.cWrite c w e.data.rC e.data.shared } := by
  intro a tag hc
  cases a with
  | inl a =>
    obtain ⟨v, hv, hval⟩ := hh.agree (.inl a) tag hc
    exact ⟨v, (cWrite_of_notMem _ _ fun y _ ↦ Sum.inl_ne_inr).trans hv, hval⟩
  | inr a =>
    by_cases ha : a ∈ c.cCells w
    · obtain ⟨y, hy, rfl⟩ := Traits.mem_cCells_iff.1 ha
      have htag : tag = .inr (x.tile, w) := by
        have h : (if c.mma.coord y ∈ c.cCells w then some (x.tile, w)
            else e.control.memory.sC (c.mma.coord y)).map
            Sum.inr = some tag := hc
        rw [if_pos ha, Option.map_some, Option.some.injEq] at h
        exact h.symm
      have hval := cWrite_apply (X := X) e.data.rC e.data.shared y
      rw [hy] at hval
      subst htag
      refine ⟨_, hval, fun z hz hzy ↦ ?_⟩
      obtain rfl := Traits.coord_inj (Sum.inr.inj hzy)
      exact congrArg X.cvt (registers_of_cWrite hk he.control hh.follows hr hz)
    · have hview : (X.lockstep c coords kNum).view e.control.memory (.inr a) = some tag := by
        have h : (if a ∈ c.cCells w then some (x.tile, w) else e.control.memory.sC a).map Sum.inr =
            some tag := hc
        rwa [if_neg ha] at h
      obtain ⟨v, hv, hval⟩ := hh.agree (.inr a) tag hview
      refine ⟨v, (cWrite_of_notMem _ _ fun y hy hay ↦ ha ?_).trans hv, hval⟩
      exact Traits.mem_cCells_iff.2 ⟨y, hy, (Sum.inr.inj hay).symm⟩

theorem sound (hk : 0 < kNum) : (X.lockstep c coords kNum).Sound where
  init a tag hc := by cases a <;> cases hc
  issued _ x slot m d h := agree_issued x slot h
  landed d m y h := agree_landed d h
  stored _ _ _ h := h
  registers_issued _ _ _ _ := rfl
  registers_landed _ _ := rfl
  shared_consumed _ _ _ _ _ _ := rfl
  reading s hs w r x tl hr hb a ha := reading_item hs hr hb ha
  consumed w _ x slot b d hb := registers_consumed w x slot b d hb
  acted e he hh p x a tl hr := by
    have hother : (X.dataflow c coords kNum).acted p x a e.data = e.data →
        (c.acted p x a e.control.memory).operand = e.control.memory.operand →
        (c.acted p x a e.control.memory).sC = e.control.memory.sC →
        (X.lockstep c coords kNum).Agree (c.acted p x a e.control.memory)
          ((X.dataflow c coords kNum).acted p x a e.data) := by
      intro hd h1 h2
      rw [hd]
      refine hh.agree.of_view ?_ rfl
      simp only [lockstep, h1, h2]
    have hreg : ∀ w, (X.lockstep c coords kNum).registers
        ((X.dataflow c coords kNum).acted p x a e.data) w =
        (X.lockstep c coords kNum).registers e.data w := by
      intro w
      cases p <;> cases a <;> rfl
    refine ⟨?_, fun w ↦ (hreg w).trans (ite_self _).symm⟩
    cases p with
    | producer => cases a <;> exact hother rfl rfl rfl
    | lane i => cases a <;> exact hother rfl rfl rfl
    | warp w =>
      cases a with
      | invalidate => exact hother rfl rfl rfl
      | cWrite => exact agree_cWrite hk he hh hr

end Sound

end Lockstep

end Inputs

end Sm120.Gemm
