import Sm120.Flash.Softmax

set_option linter.unusedSectionVars false

namespace Sm120.Flash

open Lib Finset

namespace WarpGrid

/-- The registers of a warp, by lane, row and column. `rQ` has the rows of Q that the lane's
accumulators belong to. -/
structure Warp (F : Type) where
  rQ : ℕ → ℕ → ℕ → Num F
  rP : ℕ → ℕ → ℕ → Num F
  rMax : ℕ → ℕ → Num F
  rSum : ℕ → ℕ → Num F
  rO : ℕ → ℕ → ℕ → Num F

def Warp.consumer {F : Type} (y : Warp F) : Consumer F :=
  ⟨fun _ ↦ y.rMax, fun _ ↦ y.rSum, fun _ ↦ y.rO⟩

variable {F : Type} [Field F] [LinearOrder F] (g : WarpGrid) (E : Exp2 F) (scale : F)

/-- The start of a tile: the accumulators are cleared, and `Q_s2r` reads Q. -/
def qRead (wid : ℕ) (sQ : ℕ → ℕ → Num F) (y : Warp F) : Warp F where
  rQ lane r d := sQ (g.scoreRow wid lane r) d
  rP := y.rP
  rMax _ _ := .negInf
  rSum _ _ := .fin 0
  rO _ _ _ := .fin 0

def warpScores (wid : ℕ) (sK : ℕ → ℕ → Num F) (y : Warp F) : Scores F := fun _ lane r j ↦
  ∑ d ∈ range g.kHeadDim, y.rQ lane r d * sK (g.scoreCol wid lane j) d

def kRead (causal : Bool) (qBlock i wid : ℕ) (sK : ℕ → ℕ → Num F) (y : Warp F) : Warp F :=
  let rS := g.warpScores wid sK y
  let rS :=
    if causal ∧ (i + 1) * g.kBlockN > qBlock * g.kBlockM then g.causalMask qBlock i rS else rS
  let (rP, s) := g.softmaxRescale E scale rS y.consumer
  ⟨y.rQ, rP wid, s.rMax wid, s.rSum wid, s.rO wid⟩

def vRead (wid : ℕ) (sV : ℕ → ℕ → Num F) (y : Warp F) : Warp F :=
  { y with
    rO := fun lane r i ↦ y.rO lane r i +
      g.productPV (fun lane ↦ rowcolRegs g.wm (y.rP lane)) sV wid lane (r % 2) (r / 2)
        (g.outCol wid lane i) }

structure Same (wid : ℕ) (s s' : Consumer F) : Prop where
  rMax : ∀ lane < 32, ∀ r < 2 * g.wm, s.rMax wid lane r = s'.rMax wid lane r
  rSum : ∀ lane < 32, ∀ r < 2 * g.wm, s.rSum wid lane r = s'.rSum wid lane r
  rO : ∀ lane < 32, ∀ r < 2 * g.wm, ∀ i < 2 * (g.kHeadDim / 8),
    s.rO wid lane r i = s'.rO wid lane r i

def SameScores (wid : ℕ) (rS rS' : Scores F) : Prop :=
  ∀ lane < 32, ∀ r < 2 * g.wm, ∀ j < 2 * g.wn, rS wid lane r j = rS' wid lane r j

variable {g} {E} {scale}

theorem warpReduce_congr {α : Type} (op : α → α → α) {data data' : ℕ → α}
    (h : ∀ lane < 32, data lane = data' lane) {lane : ℕ} (hl : lane < 32) :
    warpReduce op data lane = warpReduce op data' lane := by
  have hxor : ∀ l < 32, ∀ m < 32, l ^^^ m < 32 := fun l hl m hm ↦ Nat.xor_lt_two_pow (n := 5) hl hm
  simp only [warpReduce, List.foldl_cons, List.foldl_nil]
  rw [h _ hl, h _ (hxor _ hl 1 (by decide)), h _ (hxor _ hl 2 (by decide)),
    h _ (hxor _ (hxor _ hl 1 (by decide)) 2 (by decide))]

theorem batchReduce_congr {α : Type} (op : α → α → α) {n : ℕ} {src src' : ℕ → α} {dst dst' : α}
    (h : ∀ i < n, src i = src' i) (hd : dst = dst') :
    batchReduce op n src dst = batchReduce op n src' dst' := by
  subst hd
  exact List.foldl_ext _ _ _ fun a i hi ↦ by rw [h i (List.mem_range.1 hi)]

section Congruence

variable {wid : ℕ} {rS rS' : Scores F} {s s' : Consumer F}

theorem causalMask_congr (hS : g.SameScores wid rS rS') (qBlock i : ℕ) :
    g.SameScores wid (g.causalMask qBlock i rS) (g.causalMask qBlock i rS') := by
  intro lane hl r hr j hj
  unfold causalMask
  split_ifs
  · rfl
  · exact hS lane hl r hr j hj

variable (hS : g.SameScores wid rS rS') (hs : g.Same wid s s')

include hS hs

theorem rMax_congr {lane r : ℕ} (hl : lane < 32) (hr : r < 2 * g.wm) :
    g.reduceMax rS s.rMax wid lane r = g.reduceMax rS' s'.rMax wid lane r :=
  warpReduce_congr max
    (fun l hl ↦ batchReduce_congr max (fun j hj ↦ hS l hl r hr j hj) (hs.rMax l hl r hr)) hl

variable (E) (scale) in
theorem softmaxRescale_congr :
    g.SameScores wid (g.softmaxRescale E scale rS s).1 (g.softmaxRescale E scale rS' s').1 ∧
    g.Same wid (g.softmaxRescale E scale rS s).2 (g.softmaxRescale E scale rS' s').2 := by
  have hP : g.SameScores wid (g.softmaxRescale E scale rS s).1
      (g.softmaxRescale E scale rS' s').1 := by
    intro lane hl r hr j hj
    simp only [softmaxRescale]
    rw [rMax_congr hS hs hl hr, hS lane hl r hr j hj]
  refine ⟨hP, ?_, ?_, ?_⟩
  · intro lane hl r hr
    exact rMax_congr hS hs hl hr
  · intro lane hl r hr
    refine batchReduce_congr _ (fun j hj ↦ hP lane hl r hr j hj) ?_
    dsimp only
    rw [rMax_congr hS hs hl hr, hs.rMax lane hl r hr, hs.rSum lane hl r hr]
  · intro lane hl r hr i hi
    simp only [softmaxRescale]
    rw [rMax_congr hS hs hl hr, hs.rMax lane hl r hr, hs.rO lane hl r hr i hi]

end Congruence

def depths (g : WarpGrid) (wid : ℕ) : Finset ℕ :=
  (range 32 ×ˢ range 2 ×ˢ range 2 ×ˢ range (g.wn / 2)).image fun x ↦
    g.mmaPV.depth wid x.1 x.2.1 x.2.2.1 x.2.2.2

theorem mem_depths {wid lane v0 v2 kk : ℕ} (hl : lane < 32) (h0 : v0 < 2) (h2 : v2 < 2)
    (hk : kk < g.wn / 2) : g.mmaPV.depth wid lane v0 v2 kk ∈ g.depths wid :=
  mem_image.2 ⟨(lane, v0, v2,
    kk), by simp only [mem_product, mem_range]; exact ⟨hl, h0, h2, hk⟩, rfl⟩

theorem depths_lt {wid k : ℕ} (hw : wid < g.kNWarps) (hk : k ∈ g.depths wid) : k < g.kBlockN := by
  obtain ⟨⟨lane, v0, v2, kk⟩, hx, rfl⟩ := mem_image.1 hk
  simp only [mem_product, mem_range] at hx
  obtain ⟨-, h0, h2, hkk⟩ := hx
  have hle := g.strip_le wid hw
  have ha := atomDepth_lt lane h0 h2
  dsimp only
  rw [g.mmaPV_depth wid hw lane v0 h0 v2 h2]
  omega

theorem productPV_congr {wid lane r d : ℕ} (hw : wid < g.kNWarps) (hl : lane < 32)
    (hr : r < 2 * g.wm) {rP rP' : ℕ → ℕ → ℕ → Num F} (sV sV' : ℕ → ℕ → Num F)
    (hP : ∀ lane < 32, ∀ r < 2 * g.wm, ∀ j < 2 * g.wn, rP lane r j = rP' lane r j)
    (hV : ∀ k ∈ g.depths wid, sV k d = sV' k d) :
    g.productPV (fun lane ↦ rowcolRegs g.wm (rP lane)) sV wid lane (r % 2) (r / 2) d =
      g.productPV (fun lane ↦ rowcolRegs g.wm (rP' lane)) sV' wid lane (r % 2) (r / 2) d := by
  unfold productPV TiledMMA.product
  refine sum_congr rfl fun kk hkk ↦ sum_congr rfl fun q hq ↦ sum_congr rfl fun v2 h2 ↦
    sum_congr rfl fun v0 h0 ↦ ?_
  rw [mem_range] at hkk hq h2 h0
  have hql := quadLane_lt hl hq
  have hmem : g.mmaPV.depth wid (quadLane lane q) v0 v2 kk ∈ g.depths wid :=
    mem_depths hql h0 h2 hkk
  have hlt := depths_lt hw hmem
  dsimp only
  rw [convertAreg_address, rowcolRegs_address _ _ _ h0 (Nat.mod_lt r Nat.two_pos) (by omega),
    rowcolRegs_address _ _ _ h0 (Nat.mod_lt r Nat.two_pos) (by omega), getSVt_eq _ _ hlt,
    getSVt_eq _ _ hlt, hP _ hql _ (by omega) _ (by omega), hV _ hmem]

structure Warp.Same (g : WarpGrid) (y y' : Warp F) : Prop where
  rQ : ∀ lane < 32, ∀ r < 2 * g.wm, ∀ d < g.kHeadDim, y.rQ lane r d = y'.rQ lane r d
  rP : ∀ lane < 32, ∀ r < 2 * g.wm, ∀ j < 2 * g.wn, y.rP lane r j = y'.rP lane r j
  rMax : ∀ lane < 32, ∀ r < 2 * g.wm, y.rMax lane r = y'.rMax lane r
  rSum : ∀ lane < 32, ∀ r < 2 * g.wm, y.rSum lane r = y'.rSum lane r
  rO : ∀ lane < 32, ∀ r < 2 * g.wm, ∀ i < 2 * (g.kHeadDim / 8), y.rO lane r i = y'.rO lane r i

def Warp.trim (g : WarpGrid) (y : Warp F) : Warp F where
  rQ lane r d := if lane < 32 ∧ r < 2 * g.wm ∧ d < g.kHeadDim then y.rQ lane r d else .undef
  rP lane r j := if lane < 32 ∧ r < 2 * g.wm ∧ j < 2 * g.wn then y.rP lane r j else .undef
  rMax lane r := if lane < 32 ∧ r < 2 * g.wm then y.rMax lane r else .undef
  rSum lane r := if lane < 32 ∧ r < 2 * g.wm then y.rSum lane r else .undef
  rO lane r i :=
    if lane < 32 ∧ r < 2 * g.wm ∧ i < 2 * (g.kHeadDim / 8) then y.rO lane r i else .undef

namespace Warp

variable {y y' : Warp F} {wid : ℕ}

theorem Same.symm (h : y.Same g y') : y'.Same g y where
  rQ lane hl r hr d hd := (h.rQ lane hl r hr d hd).symm
  rP lane hl r hr j hj := (h.rP lane hl r hr j hj).symm
  rMax lane hl r hr := (h.rMax lane hl r hr).symm
  rSum lane hl r hr := (h.rSum lane hl r hr).symm
  rO lane hl r hr i hi := (h.rO lane hl r hr i hi).symm

theorem trim_same (g : WarpGrid) (y : Warp F) : (y.trim g).Same g y where
  rQ _ hl _ hr _ hd := if_pos ⟨hl, hr, hd⟩
  rP _ hl _ hr _ hj := if_pos ⟨hl, hr, hj⟩
  rMax _ hl _ hr := if_pos ⟨hl, hr⟩
  rSum _ hl _ hr := if_pos ⟨hl, hr⟩
  rO _ hl _ hr _ hi := if_pos ⟨hl, hr, hi⟩

theorem Same.trim_eq (h : y.Same g y') : y.trim g = y'.trim g := by
  unfold trim
  congr 1 <;> funext lane r
  · funext d
    exact ite_congr rfl (fun hc ↦ h.rQ lane hc.1 r hc.2.1 d hc.2.2) fun _ ↦ rfl
  · funext j
    exact ite_congr rfl (fun hc ↦ h.rP lane hc.1 r hc.2.1 j hc.2.2) fun _ ↦ rfl
  · exact ite_congr rfl (fun hc ↦ h.rMax lane hc.1 r hc.2) fun _ ↦ rfl
  · exact ite_congr rfl (fun hc ↦ h.rSum lane hc.1 r hc.2) fun _ ↦ rfl
  · funext i
    exact ite_congr rfl (fun hc ↦ h.rO lane hc.1 r hc.2.1 i hc.2.2) fun _ ↦ rfl

theorem Same.consumer (h : y.Same g y') (wid : ℕ) : WarpGrid.Same g wid y.consumer y'.consumer :=
  ⟨h.rMax, h.rSum, h.rO⟩

theorem Same.qRead (h : y.Same g y') {sQ sQ' : ℕ → ℕ → Num F}
    (hQ : ∀ lane < 32, ∀ r < 2 * g.wm, ∀ d < g.kHeadDim,
      sQ (g.scoreRow wid lane r) d = sQ' (g.scoreRow wid lane r) d) :
    (g.qRead wid sQ y).Same g (g.qRead wid sQ' y') where
  rQ := hQ
  rP := h.rP
  rMax _ _ _ _ := rfl
  rSum _ _ _ _ := rfl
  rO _ _ _ _ _ _ := rfl

theorem Same.warpScores (h : y.Same g y') {sK sK' : ℕ → ℕ → Num F}
    (hK : ∀ lane < 32, ∀ j < 2 * g.wn, ∀ d < g.kHeadDim,
      sK (g.scoreCol wid lane j) d = sK' (g.scoreCol wid lane j) d) :
    g.SameScores wid (g.warpScores wid sK y) (g.warpScores wid sK' y') := by
  intro lane hl r hr j hj
  refine sum_congr rfl fun d hd ↦ ?_
  rw [mem_range] at hd
  rw [h.rQ lane hl r hr d hd, hK lane hl j hj d hd]

theorem Same.kRead (h : y.Same g y') {sK sK' : ℕ → ℕ → Num F} (causal : Bool) (qBlock i : ℕ)
    (hK : ∀ lane < 32, ∀ j < 2 * g.wn, ∀ d < g.kHeadDim,
      sK (g.scoreCol wid lane j) d = sK' (g.scoreCol wid lane j) d) :
    (g.kRead E scale causal qBlock i wid sK y).Same g
      (g.kRead E scale causal qBlock i wid sK' y') := by
  have hS := h.warpScores hK
  have hmask : g.SameScores wid
      (if causal ∧ (i + 1) * g.kBlockN > qBlock * g.kBlockM then
        g.causalMask qBlock i (g.warpScores wid sK y)
        else g.warpScores wid sK y)
      (if causal ∧ (i + 1) * g.kBlockN > qBlock * g.kBlockM then
        g.causalMask qBlock i (g.warpScores wid sK' y')
        else g.warpScores wid sK' y') := by
    split_ifs
    · exact causalMask_congr hS qBlock i
    · exact hS
  obtain ⟨hP, hs⟩ := softmaxRescale_congr E scale hmask (h.consumer wid)
  exact ⟨h.rQ, hP, hs.rMax, hs.rSum, hs.rO⟩

theorem Same.vRead (h : y.Same g y') (hw : wid < g.kNWarps) {sV sV' : ℕ → ℕ → Num F}
    (hV : ∀ k ∈ g.depths wid, ∀ d < g.kHeadDim, sV k d = sV' k d)
    (hd : ∀ lane, ∀ i < 2 * (g.kHeadDim / 8), g.outCol wid lane i < g.kHeadDim) :
    (g.vRead wid sV y).Same g (g.vRead wid sV' y') where
  rQ := h.rQ
  rP := h.rP
  rMax := h.rMax
  rSum := h.rSum
  rO lane hl r hr i hi := by
    unfold WarpGrid.vRead
    dsimp only
    rw [h.rO lane hl r hr i hi, productPV_congr hw hl hr sV sV' h.rP fun k hk ↦
      hV k hk _ (hd lane i hi)]

end Warp

/-- The registers of a warp after `n` blocks of a tile. -/
structure After (g : WarpGrid) (E : Exp2 F) (scale : F) (o : Operands F) (qBlock wid n : ℕ)
    (y : Warp F) : Prop where
  rQ : ∀ lane < 32, ∀ r < 2 * g.wm, ∀ d < g.kHeadDim,
    y.rQ lane r d = .fin (localTile g.kBlockM o.Q qBlock (g.scoreRow wid lane r) d)
  loop : g.Same wid y.consumer (g.kLoop E scale o qBlock n)

section Loop

variable {o : Operands F} {qBlock wid n : ℕ} {y y' : Warp F}

theorem After.of_same (h : g.After E scale o qBlock wid n y) (hy : y'.Same g y) :
    g.After E scale o qBlock wid n y' where
  rQ lane hl r hr d hd := (hy.rQ lane hl r hr d hd).trans (h.rQ lane hl r hr d hd)
  loop := ⟨fun lane hl r hr ↦ (hy.rMax lane hl r hr).trans (h.loop.rMax lane hl r hr),
    fun lane hl r hr ↦ (hy.rSum lane hl r hr).trans (h.loop.rSum lane hl r hr),
    fun lane hl r hr i hi ↦ (hy.rO lane hl r hr i hi).trans (h.loop.rO lane hl r hr i hi)⟩

theorem after_qRead (y : Warp F) : g.After E scale o qBlock wid 0
    (g.qRead wid (fun row d ↦ .fin (localTile g.kBlockM o.Q qBlock row d)) y) where
  rQ _ _ _ _ _ _ := rfl
  loop := ⟨fun _ _ _ _ ↦ rfl, fun _ _ _ _ ↦ rfl, fun _ _ _ _ _ _ ↦ rfl⟩

theorem After.scores (h : g.After E scale o qBlock wid n y) :
    g.SameScores wid (g.warpScores wid (fun row d ↦ .fin (localTile g.kBlockN o.K n row d)) y)
      (g.gemmFlash (localTile g.kBlockM o.Q qBlock) (localTile g.kBlockN o.K n)) := by
  intro lane hl r hr j hj
  rw [warpScores, gemmFlash, ← Num.sum_fin]
  refine sum_congr rfl fun d hd ↦ ?_
  rw [h.rQ lane hl r hr d (mem_range.1 hd), Num.fin_mul]

theorem After.step (h : g.After E scale o qBlock wid n y) (hw : wid < g.kNWarps)
    (hy : y'.Same g (g.kRead E scale o.causal qBlock n wid
      (fun row d ↦ .fin (localTile g.kBlockN o.K n row d)) y)) :
    g.After E scale o qBlock wid (n + 1)
      (g.vRead wid (fun row d ↦ .fin (localTile g.kBlockN o.V n row d)) y') := by
  have hmask : g.SameScores wid
      (if o.causal ∧ (n + 1) * g.kBlockN > qBlock * g.kBlockM then g.causalMask qBlock n
          (g.warpScores wid (fun row d ↦ .fin (localTile g.kBlockN o.K n row d)) y)
        else g.warpScores wid (fun row d ↦ .fin (localTile g.kBlockN o.K n row d)) y)
      (g.blockScores o qBlock n) := by
    unfold blockScores
    dsimp only
    split_ifs
    · exact causalMask_congr h.scores qBlock n
    · exact h.scores
  obtain ⟨hP, hs⟩ := softmaxRescale_congr E scale hmask h.loop
  have hloop : g.kLoop E scale o qBlock (n + 1) =
      g.kStep E scale o qBlock (g.kLoop E scale o qBlock n) n := by
    rw [kLoop, List.range_succ, List.foldl_append]
    rfl
  refine ⟨fun lane hl r hr d hd ↦ (hy.rQ lane hl r hr d hd).trans (h.rQ lane hl r hr d hd), ?_⟩
  rw [hloop]
  refine ⟨fun lane hl r hr ↦ (hy.rMax lane hl r hr).trans (hs.rMax lane hl r hr),
    fun lane hl r hr ↦ (hy.rSum lane hl r hr).trans (hs.rSum lane hl r hr),
    fun lane hl r hr i hi ↦ ?_⟩
  have hP' : ∀ l < 32, ∀ r < 2 * g.wm, ∀ j < 2 * g.wn, y'.rP l r j =
      (g.softmaxRescale E scale (g.blockScores o qBlock n) (g.kLoop E scale o qBlock n)).1
        wid l r j :=
    fun l hl r hr j hj ↦ (hy.rP l hl r hr j hj).trans (hP l hl r hr j hj)
  let sV : ℕ → ℕ → Num F := fun k d ↦ .fin (localTile g.kBlockN o.V n k d)
  have hprod := productPV_congr hw hl hr sV sV hP' (d := g.outCol wid lane i) fun _ _ ↦ rfl
  have hO := (hy.rO lane hl r hr i hi).trans (hs.rO lane hl r hr i hi)
  exact congrArg₂ (· + ·) hO hprod

end Loop

end WarpGrid

end Sm120.Flash
