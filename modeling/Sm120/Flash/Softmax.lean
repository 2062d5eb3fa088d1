import Sm120.Flash.WarpGrid
import Sm120.Lib.Softmax

namespace Sm120.Flash

open Lib Finset

/-- `warp_reduce_max<4>` and `warp_reduce_sum<4>` -/
def warpReduce {α : Type} (op : α → α → α) (data : ℕ → α) : ℕ → α :=
  [2, 1].foldl (fun data mask lane ↦ op (data lane) (data (lane ^^^ mask))) data

def batchReduce {α : Type} (op : α → α → α) (n : ℕ) (src : ℕ → α) (dst : α) : α :=
  (List.range n).foldl (fun a i ↦ op a (src i)) dst

theorem quadLane_xor : ∀ lane < 32, ∀ q < 4, quadLane lane q ^^^ 2 = quadLane lane (q ^^^ 2) ∧
    quadLane lane q ^^^ 1 = quadLane lane (q ^^^ 1) := by
  decide

theorem warpReduce_eq {α β : Type} {op : α → α → α} {op' : β → β → β} [Std.Commutative op']
    [Std.Associative op'] {f : β → α} (hop : ∀ x y, op (f x) (f y) = f (op' x y)) {data : ℕ → α}
    {y : ℕ → β} {lane : ℕ} (hl : lane < 32) (hdata : ∀ q < 4, data (quadLane lane q) = f (y q)) :
    warpReduce op data lane = f (op' (op' (op' (y 0) (y 1)) (y 2)) (y 3)) := by
  have key : ∀ q < 4, warpReduce op data (quadLane lane q) =
      f (op' (op' (y q) (y (q ^^^ 2))) (op' (y (q ^^^ 1)) (y (q ^^^ 1 ^^^ 2)))) := by
    intro q hq
    have h1 : q ^^^ 1 < 4 := Nat.xor_lt_two_pow (n := 2) hq (by decide)
    have h2 : ∀ p < 4, p ^^^ 2 < 4 := fun p hp ↦ Nat.xor_lt_two_pow (n := 2) hp (by decide)
    simp only [warpReduce, List.foldl_cons, List.foldl_nil, (quadLane_xor lane hl q hq).1,
      (quadLane_xor lane hl q hq).2, (quadLane_xor lane hl _ h1).1]
    rw [hdata q hq, hdata _ (h2 q hq), hdata _ h1, hdata _ (h2 _ h1), hop, hop, hop]
  have hmod : lane % 4 < 4 := Nat.mod_lt _ (by decide)
  rw [← quadLane_self lane, key _ hmod]
  congr 1
  generalize lane % 4 = q at hmod
  interval_cases q
  all_goals simp only [Nat.reduceXor]
  all_goals ac_rfl

theorem sum_blocks_succ {M : Type} [AddCommMonoid M] (f : ℕ × ℕ → M) (n m : ℕ) :
    ∑ p ∈ range (n + 1) ×ˢ range m, f p = ∑ p ∈ range n ×ˢ range m, f p + ∑ k ∈ range m,
    f (n, k) := by
  rw [sum_product, sum_range_succ, ← sum_product]

namespace WarpGrid

/-- The registers of the consumer warps, by warp, lane and row. -/
structure Consumer (F : Type) where
  rMax : ℕ → ℕ → ℕ → Num F
  rSum : ℕ → ℕ → ℕ → Num F
  rO : ℕ → ℕ → ℕ → ℕ → Num F

/-- The scores, and then the probabilities, of one step. -/
abbrev Scores (F : Type) := ℕ → ℕ → ℕ → ℕ → Num F

variable {F : Type} [Field F] [LinearOrder F] (g : WarpGrid)

def scoreRow (wid lane r : ℕ) : ℕ := g.mmaQK.row wid lane (r % 2) (r / 2)

def scoreCol (wid lane i : ℕ) : ℕ := g.mmaQK.col wid lane (i % 2) (i / 2)

def outRow (wid lane r : ℕ) : ℕ := g.mmaPV.row wid lane (r % 2) (r / 2)

def outCol (wid lane i : ℕ) : ℕ := g.mmaPV.col wid lane (i % 2) (i / 2)

def clear : Consumer F where
  rMax _ _ _ := .negInf
  rSum _ _ _ := .fin 0
  rO _ _ _ _ := .fin 0

def gemmFlash (sQ sK : ℕ → ℕ → F) : Scores F := fun wid lane r i ↦
  .fin (∑ d ∈ range g.kHeadDim, sQ (g.scoreRow wid lane r) d * sK (g.scoreCol wid lane i) d)

def causalMask (qBlock i : ℕ) (rS : Scores F) : Scores F := fun wid lane r j ↦
  if qBlock * g.kBlockM + g.maskRow wid lane (r % 2) (r / 2) <
      i * g.kBlockN + g.maskCol wid lane (j % 2) (j / 2) then .negInf
  else rS wid lane r j

def reduceMax (rS : Scores F) (rMax : ℕ → ℕ → ℕ → Num F) : ℕ → ℕ → ℕ → Num F := fun wid lane r ↦
  warpReduce max (fun lane ↦ batchReduce max (2 * g.wn) (rS wid lane r) (rMax wid lane r)) lane

/-- The probabilities, and the registers rescaled to the new maximum. -/
def softmaxRescale (E : Exp2 F) (scale : F) (rS : Scores F) (s : Consumer F) :
    Scores F × Consumer F :=
  let rMax := g.reduceMax rS s.rMax
  let expScale wid lane r :=
    Num.ifNegInf (rMax wid lane r) (.fin 1)
      (.exp2 E ((s.rMax wid lane r - rMax wid lane r) * .fin scale))
  let maxScale wid lane r := Num.ifNegInf (rMax wid lane r) (.fin 0) (rMax wid lane r * .fin scale)
  let rP wid lane r i := Num.exp2 E (rS wid lane r i * .fin scale - maxScale wid lane r)
  let rSum wid lane r :=
    batchReduce (· + ·) (2 * g.wn) (rP wid lane r) (s.rSum wid lane r * expScale wid lane r)
  let rO wid lane r i := s.rO wid lane r i * expScale wid lane r
  (rP, ⟨rMax, rSum, rO⟩)

def gemmFlashV (rP : Scores F) (sV : ℕ → ℕ → F) (s : Consumer F) : Consumer F :=
  { s with
    rO := fun wid lane r i ↦ s.rO wid lane r i +
      g.productPV (fun lane ↦ rowcolRegs g.wm (rP wid lane)) (fun k d ↦ .fin (sV k d)) wid
        lane (r % 2) (r / 2) (g.outCol wid lane i) }

/-- What one tile reads: rows of Q, K and V of its head, and whether it is masked. -/
structure Operands (F : Type) where
  causal : Bool
  Q : ℕ → ℕ → F
  K : ℕ → ℕ → F
  V : ℕ → ℕ → F

variable (E : Exp2 F) (scale : F) (o : Operands F) (qBlock : ℕ)

def localTile (rows : ℕ) (X : ℕ → ℕ → F) (block : ℕ) : ℕ → ℕ → F := fun r d ↦ X (block * rows + r) d

def blockScores (i : ℕ) : Scores F :=
  let rS := g.gemmFlash (localTile g.kBlockM o.Q qBlock) (localTile g.kBlockN o.K i)
  if o.causal ∧ (i + 1) * g.kBlockN > qBlock * g.kBlockM then g.causalMask qBlock i rS else rS

/-- One pass of the loop over the blocks of K and V. -/
def kStep (s : Consumer F) (i : ℕ) : Consumer F :=
  let (rP, s) := g.softmaxRescale E scale (g.blockScores o qBlock i) s
  g.gemmFlashV rP (localTile g.kBlockN o.V i) s

def kLoop (n : ℕ) : Consumer F := (List.range n).foldl (g.kStep E scale o qBlock) clear

/-- The score of row `R` and column `c`: masked above the diagonal. -/
def score (R c : ℕ) : WithBot F :=
  if o.causal ∧ R < c then ⊥ else ((∑ d ∈ range g.kHeadDim, o.Q R d * o.K c d : F) : WithBot F)

variable {g}

theorem warpReduce_max {data : ℕ → Num F} {y : ℕ → WithBot F} {lane : ℕ} (hl : lane < 32)
    (hdata : ∀ q < 4, data (quadLane lane q) = .ofBot (y q)) :
    warpReduce max data lane = .ofBot ((range 4).sup y) := by
  rw [warpReduce_eq Num.max_ofBot hl hdata]
  congr 1
  simp only [show range 4 = {0, 1, 2, 3} from rfl, sup_insert, sup_singleton, sup_assoc]

theorem warpReduce_add {data : ℕ → Num F} {y : ℕ → F} {lane : ℕ} (hl : lane < 32)
    (hdata : ∀ q < 4, data (quadLane lane q) = .fin (y q)) :
    warpReduce (· + ·) data lane = .fin (∑ q ∈ range 4, y q) := by
  rw [warpReduce_eq Num.fin_add hl hdata]
  simp only [sum_range_succ, range_zero, sum_empty, zero_add]

theorem batchReduce_max {src : ℕ → Num F} {n : ℕ} {y : ℕ → WithBot F}
    (hsrc : ∀ i < n, src i = .ofBot (y i)) (m : WithBot F) :
    batchReduce max n src (.ofBot m) = .ofBot (m ⊔ (range n).sup y) := by
  rw [← Num.foldl_max]
  refine List.foldl_ext _ _ _ fun a i hi ↦ ?_
  rw [hsrc i (List.mem_range.1 hi)]

theorem batchReduce_add {src : ℕ → Num F} {n : ℕ} {y : ℕ → F}
    (hsrc : ∀ i < n, src i = .fin (y i)) (a : F) :
    batchReduce (· + ·) n src (.fin a) = .fin (a + ∑ i ∈ range n, y i) := by
  rw [← Num.foldl_add]
  refine List.foldl_ext _ _ _ fun a i hi ↦ ?_
  rw [hsrc i (List.mem_range.1 hi)]

section Coordinates

variable {wid lane q : ℕ}

theorem scoreRow_quadLane (hq : q < 4) (r : ℕ) :
    g.scoreRow wid (quadLane lane q) r = g.scoreRow wid lane r := by
  simp only [scoreRow, TiledMMA.row, atomRow_quadLane _ _ hq]

theorem scoreCol_eq (hw : wid < g.kNWarps) (i : ℕ) :
    g.scoreCol wid lane i = g.strip wid + quadCol (lane % 4) i := by
  rw [scoreCol, g.mmaQK_col wid hw lane _ (by omega), quadCol_mod, Nat.add_assoc]

theorem scoreCol_lt (hw : wid < g.kNWarps) {i : ℕ} (hi : i < 2 * g.wn) :
    g.scoreCol wid lane i < g.kBlockN := by
  have h := g.strip_le wid hw
  rw [scoreCol_eq hw, quadCol]
  omega

end Coordinates

theorem blockScores_eq {wid lane : ℕ} (hw : wid < g.kNWarps) (hl : lane < 32) (r : ℕ) {i j : ℕ}
    (hj : j < 2 * g.wn) : g.blockScores o qBlock i wid lane r j =
      .ofBot (g.score o (qBlock * g.kBlockM + g.scoreRow wid lane r)
        (i * g.kBlockN + g.scoreCol wid lane j)) := by
  have hlt : g.scoreCol wid lane j < g.kBlockN := scoreCol_lt hw hj
  have hrow : g.maskRow wid lane (r % 2) (r / 2) = g.scoreRow wid lane r :=
    g.maskRow_eq wid hw lane hl r
  have hcol : g.maskCol wid lane (j % 2) (j / 2) = g.scoreCol wid lane j :=
    g.maskCol_eq wid hw lane j
  rw [blockScores, score]
  split_ifs with hmask hbot hbot
  · rw [causalMask, hrow, hcol, if_pos hbot.2]
    rfl
  · have hle : ¬ qBlock * g.kBlockM + g.scoreRow wid lane r <
        i * g.kBlockN + g.scoreCol wid lane j :=
      fun h ↦ hbot ⟨hmask.1, h⟩
    rw [causalMask, hrow, hcol, if_neg hle]
    rfl
  · -- no column of an unmasked block lies beyond the first row of the tile
    have hend : (i + 1) * g.kBlockN ≤ qBlock * g.kBlockM := by
      by_contra hc
      exact hmask ⟨hbot.1, by omega⟩
    rw [Nat.succ_mul] at hend
    omega
  · rfl

/-- Column of the score matrix at position `p.2` of a warp's strip in block `p.1`. -/
def column (g : WarpGrid) (wid : ℕ) (p : ℕ × ℕ) : ℕ := p.1 * g.kBlockN + (g.strip wid + p.2)

def sliceMax (g : WarpGrid) (o : Operands F) (R wid n : ℕ) : WithBot F :=
  (range n ×ˢ range (8 * g.wn)).sup fun p ↦ g.score o R (g.column wid p)

def globalRow (g : WarpGrid) (qBlock wid lane r : ℕ) : ℕ :=
  qBlock * g.kBlockM + g.scoreRow wid lane r

/-- What the registers of a row hold after `n` blocks. -/
structure Running (g : WarpGrid) (n : ℕ) (s : Consumer F) (wid lane r : ℕ) : Prop where
  rMax : s.rMax wid lane r = .ofBot (g.sliceMax o (g.globalRow qBlock wid lane r) wid n)
  rSum : s.rSum wid lane r = .fin (∑ p ∈ range n ×ˢ range (2 * g.wn),
    weight E scale
      (g.score o (g.globalRow qBlock wid lane r) (g.column wid (p.1, quadCol (lane % 4) p.2)))
      (g.sliceMax o (g.globalRow qBlock wid lane r) wid n))
  rO : ∀ i, s.rO wid lane r i = .fin (∑ p ∈ range n ×ˢ range (8 * g.wn),
    weight E scale (g.score o (g.globalRow qBlock wid lane r) (g.column wid p))
      (g.sliceMax o (g.globalRow qBlock wid lane r) wid n) * o.V (g.column wid p)
        (g.outCol wid lane i))

section Step

variable {o} {R wid lane n : ℕ}

theorem sliceMax_succ (o : Operands F) (R wid n : ℕ) : g.sliceMax o R wid (n + 1) =
    g.sliceMax o R wid n ⊔ (range (8 * g.wn)).sup fun k ↦ g.score o R (g.column wid (n, k)) := by
  rw [sliceMax, sliceMax, sup_product_left, sup_product_left, range_add_one, sup_insert, sup_comm]

theorem sliceMax_le_succ (o : Operands F) (R wid n : ℕ) :
    g.sliceMax o R wid n ≤ g.sliceMax o R wid (n + 1) := by
  rw [sliceMax_succ]
  exact le_sup_left

theorem score_le_sliceMax {p : ℕ × ℕ} (hp : p.1 < n) (hk : p.2 < 8 * g.wn) :
    g.score o R (g.column wid p) ≤ g.sliceMax o R wid n :=
  le_sup (f := fun p ↦ g.score o R (g.column wid p))
    (mem_product.2 ⟨mem_range.2 hp, mem_range.2 hk⟩)

theorem quadCol_lt {q j : ℕ} (hq : q < 4) (hj : j < 2 * g.wn) : quadCol q j < 8 * g.wn := by
  unfold quadCol
  omega

theorem reduceMax_eq {rS : Scores F} {rMax : ℕ → ℕ → ℕ → Num F} {r : ℕ} (hl : lane < 32)
    (hmax : ∀ q < 4, rMax wid (quadLane lane q) r = .ofBot (g.sliceMax o R wid n))
    (hrS : ∀ q < 4, ∀ j < 2 * g.wn, rS wid (quadLane lane q) r j =
      .ofBot (g.score o R (g.column wid (n, quadCol q j)))) :
    g.reduceMax rS rMax wid lane r = .ofBot (g.sliceMax o R wid (n + 1)) := by
  have h : ∀ q < 4, batchReduce max (2 * g.wn) (rS wid (quadLane lane q) r)
      (rMax wid (quadLane lane q) r) =
      .ofBot (g.sliceMax o R wid n ⊔
        (range (2 * g.wn)).sup fun j ↦ g.score o R (g.column wid (n, quadCol q j))) := by
    intro q hq
    rw [hmax q hq]
    exact batchReduce_max (hrS q hq) _
  rw [reduceMax, warpReduce_max hl h, sliceMax_succ,
    ← sup_quadCol fun k ↦ g.score o R (g.column wid (n, k))]
  exact congrArg _ (sup_sup.trans (congrArg (· ⊔ _) (sup_const ⟨0, mem_range.2 (by omega)⟩ _)))

section

variable {E scale qBlock} {s : Consumer F} {r : ℕ}

theorem globalRow_quadLane {q : ℕ} (hq : q < 4) :
    g.globalRow qBlock wid (quadLane lane q) r = g.globalRow qBlock wid lane r := by
  rw [globalRow, scoreRow_quadLane hq, globalRow]

theorem blockScores_column (o : Operands F) (n : ℕ) (hw : wid < g.kNWarps) (hl : lane < 32) {j : ℕ}
    (hj : j < 2 * g.wn) : g.blockScores o qBlock n wid lane r j =
      .ofBot (g.score o (g.globalRow qBlock wid lane r)
        (g.column wid (n, quadCol (lane % 4) j))) := by
  rw [blockScores_eq o qBlock hw hl r hj, scoreCol_eq hw]
  rfl

section

variable (hw : wid < g.kNWarps) (hl : lane < 32)
  (h : ∀ lane < 32, g.Running E scale o qBlock n s wid lane r)

include hw hl h

theorem softmaxRescale_rMax :
    (g.softmaxRescale E scale (g.blockScores o qBlock n) s).2.rMax wid lane r =
    .ofBot (g.sliceMax o (g.globalRow qBlock wid lane r) wid (n + 1)) := by
  refine reduceMax_eq hl (fun q hq ↦ ?_) fun q hq j hj ↦ ?_
  · rw [(h _ (quadLane_lt hl hq)).rMax, globalRow_quadLane hq]
  · rw [blockScores_column o n hw (quadLane_lt hl hq) hj, globalRow_quadLane hq, quadLane_mod _ hq]

theorem expScale_eq (hs : 0 < scale) :
    Num.ifNegInf ((g.softmaxRescale E scale (g.blockScores o qBlock n) s).2.rMax wid lane r)
      (.fin 1) (.exp2 E ((s.rMax wid lane r -
        (g.softmaxRescale E scale (g.blockScores o qBlock n) s).2.rMax wid lane r) * .fin scale)) =
      .fin (rescale E scale (g.sliceMax o (g.globalRow qBlock wid lane r) wid n)
        (g.sliceMax o (g.globalRow qBlock wid lane r) wid (n + 1))) := by
  rw [softmaxRescale_rMax hw hl h, (h lane hl).rMax, exp2_rescale hs]

theorem softmaxRescale_rP (hs : 0 < scale) {j : ℕ} (hj : j < 2 * g.wn) :
    (g.softmaxRescale E scale (g.blockScores o qBlock n) s).1 wid lane r j =
      .fin (weight E scale
        (g.score o (g.globalRow qBlock wid lane r) (g.column wid (n, quadCol (lane % 4) j)))
        (g.sliceMax o (g.globalRow qBlock wid lane r) wid (n + 1))) := by
  have hle : g.score o (g.globalRow qBlock wid lane r) (g.column wid (n, quadCol (lane % 4) j)) ≤
      g.sliceMax o (g.globalRow qBlock wid lane r) wid (n + 1) :=
    score_le_sliceMax n.lt_succ_self (quadCol_lt (Nat.mod_lt _ (by omega)) hj)
  rw [← exp2_weight hs hle, ← softmaxRescale_rMax hw hl h, ← blockScores_column o n hw hl hj]
  rfl

theorem softmaxRescale_rSum (hs : 0 < scale) :
    (g.softmaxRescale E scale (g.blockScores o qBlock n) s).2.rSum wid lane r =
      .fin (∑ p ∈ range (n + 1) ×ˢ range (2 * g.wn), weight E scale
        (g.score o (g.globalRow qBlock wid lane r) (g.column wid (p.1, quadCol (lane % 4) p.2)))
        (g.sliceMax o (g.globalRow qBlock wid lane r) wid (n + 1))) := by
  set R := g.globalRow qBlock wid lane r
  set m := g.sliceMax o R wid n
  set m' := g.sliceMax o R wid (n + 1)
  set x := fun p : ℕ × ℕ ↦ g.score o R (g.column wid (p.1, quadCol (lane % 4) p.2))
  have hx : (range n ×ˢ range (2 * g.wn)).sup x ≤ m := by
    refine Finset.sup_le fun p hp ↦ ?_
    rw [mem_product, mem_range, mem_range] at hp
    exact score_le_sliceMax hp.1 (quadCol_lt (Nat.mod_lt _ (by omega)) hp.2)
  have hold : s.rSum wid lane r * .fin (rescale E scale m m') =
      .fin (∑ p ∈ range n ×ˢ range (2 * g.wn), weight E scale (x p) m') := by
    rw [(h lane hl).rSum, Num.fin_mul, sum_rescale_one hx (sliceMax_le_succ o R wid n)]
  have hnew : ∀ j < 2 * g.wn, (g.softmaxRescale E scale (g.blockScores o qBlock n) s).1
      wid lane r j =
      .fin (weight E scale (x (n, j)) m') := fun j hj ↦ softmaxRescale_rP hw hl h hs hj
  calc (g.softmaxRescale E scale (g.blockScores o qBlock n) s).2.rSum wid lane r
      = batchReduce (· + ·) (2 * g.wn)
        ((g.softmaxRescale E scale (g.blockScores o qBlock n) s).1 wid lane r)
          (s.rSum wid lane r * .fin (rescale E scale m m')) := by
        rw [← expScale_eq hw hl h hs]
        rfl
    _ = .fin (∑ p ∈ range n ×ˢ range (2 * g.wn), weight E scale (x p) m' +
          ∑ j ∈ range (2 * g.wn), weight E scale (x (n, j))
            m') := by rw [hold, batchReduce_add hnew]
    _ = .fin (∑ p ∈ range (n + 1) ×ˢ range (2 * g.wn), weight E scale (x p) m') := by
        rw [sum_blocks_succ]

theorem softmaxRescale_rO (hs : 0 < scale) (i : ℕ) :
    (g.softmaxRescale E scale (g.blockScores o qBlock n) s).2.rO wid lane r i =
      .fin (∑ p ∈ range n ×ˢ range (8 * g.wn),
        weight E scale (g.score o (g.globalRow qBlock wid lane r) (g.column wid p))
          (g.sliceMax o (g.globalRow qBlock wid lane r) wid (n + 1)) *
          o.V (g.column wid p) (g.outCol wid lane i)) := by
  set R := g.globalRow qBlock wid lane r
  have hx : (range n ×ˢ range (8 * g.wn)).sup (fun p ↦ g.score o R (g.column wid p)) ≤
      g.sliceMax o R wid n :=
    le_rfl
  rw [← sum_rescale hx (sliceMax_le_succ o R wid n), ← Num.fin_mul, ← (h lane hl).rO i,
    ← expScale_eq hw hl h hs]
  rfl

theorem productPV_softmaxRescale (hs : 0 < scale) (hr : r < 2 * g.wm) (d : ℕ) :
    g.productPV (fun lane ↦ rowcolRegs g.wm
      ((g.softmaxRescale E scale (g.blockScores o qBlock n) s).1 wid lane))
      (fun k d ↦ .fin (localTile g.kBlockN o.V n k d)) wid lane (r % 2) (r / 2) d =
      .fin (∑ k ∈ range (8 * g.wn),
        weight E scale (g.score o (g.globalRow qBlock wid lane r) (g.column wid (n, k)))
          (g.sliceMax o (g.globalRow qBlock wid lane r) wid (n + 1)) * o.V
            (g.column wid (n, k)) d) := by
  rw [productPV_eq (P := fun k ↦ .fin (weight E scale
    (g.score o (g.globalRow qBlock wid lane r) (n * g.kBlockN + k))
    (g.sliceMax o (g.globalRow qBlock wid lane r) wid (n + 1)))) hw, ← Num.sum_fin]
  · rfl
  · intro q hq v0 h0 j hj
    have hrow : r % 2 + 2 * (r / 2) = r := Nat.mod_add_div r 2
    have hcol : g.mmaQK.col wid (quadLane lane q) v0 j =
        g.scoreCol wid (quadLane lane q) (v0 + 2 * j) := by
      rw [scoreCol]
      congr 1 <;> omega
    rw [rowcolRegs_address _ _ _ h0 (by omega) (by omega), hrow, hcol, scoreCol_eq hw,
      softmaxRescale_rP hw (quadLane_lt hl hq) h hs (by omega), globalRow_quadLane hq]
    rfl

theorem kStep_running (hs : 0 < scale) (hr : r < 2 * g.wm) :
    g.Running E scale o qBlock (n + 1) (g.kStep E scale o qBlock s n) wid lane r where
  rMax := softmaxRescale_rMax hw hl h
  rSum := softmaxRescale_rSum hw hl h hs
  rO i := by
    rw [sum_blocks_succ, ← Num.fin_add, ← softmaxRescale_rO hw hl h hs,
      ← productPV_softmaxRescale hw hl h hs hr]
    rfl

end

theorem clear_running : g.Running E scale o qBlock 0 clear wid lane r where
  rMax := rfl
  rSum := by simp [clear]
  rO i := by simp [clear]

theorem kLoop_running (hs : 0 < scale) (hw : wid < g.kNWarps) (hl : lane < 32) (hr : r < 2 * g.wm) :
    g.Running E scale o qBlock n (g.kLoop E scale o qBlock n) wid lane r := by
  induction n generalizing lane with
  | zero => exact clear_running
  | succ n ih =>
    rw [kLoop, List.range_succ, List.foldl_append]
    exact kStep_running hw hl (fun lane hl ↦ ih hl) hs hr

end

end Step

end WarpGrid

end Sm120.Flash
