import Mathlib.Analysis.SpecialFunctions.Log.Base
import Mathlib.Analysis.SpecialFunctions.Pow.Real
import Sm120.Flash.Config
import Sm120.Flash.Forward

namespace Sm120.Flash

open Lib Finset WarpGrid

section Softmax

noncomputable def exp2 : Exp2 ℝ where
  exp2 x := 2 ^ x
  pos x := Real.rpow_pos_of_pos two_pos x
  add x y := Real.rpow_add two_pos x y

/-- The scale `1 / sqrt(kHeadDim)`, times `M_LOG2E`. -/
noncomputable def softmaxScale (kHeadDim : ℕ) : ℝ := 1 / √kHeadDim * Real.logb 2 (Real.exp 1)

/-- The softmax of a row over the columns it may see, times V. -/
noncomputable def softmaxAttention (P : Problem) (kHeadDim : ℕ) (Q K V : Tensor ℝ)
    (b r h d : ℕ) : ℝ :=
  let allowed := {c ∈ range P.seqLen | P.causal = true → c ≤ r}
  let score c := (∑ k ∈ range kHeadDim, Q (b, r, h, k) * K (b, c, h, k)) / √kHeadDim
  ∑ c ∈ allowed, Real.exp (score c) / (∑ c' ∈ allowed, Real.exp (score c')) * V (b, c, h, d)

theorem softmaxScale_pos {kHeadDim : ℕ} (h : 0 < kHeadDim) : 0 < softmaxScale kHeadDim := by
  have hsqrt : 0 < √(kHeadDim : ℝ) := Real.sqrt_pos.2 (Nat.cast_pos.2 h)
  exact mul_pos (one_div_pos.2 hsqrt) (Real.logb_pos one_lt_two (Real.one_lt_exp_iff.2 one_pos))

theorem exp2_softmaxScale (kHeadDim : ℕ) (x : ℝ) :
    exp2.exp2 (x * softmaxScale kHeadDim) = Real.exp (x / √kHeadDim) := by
  have hlog : Real.log 2 ≠ 0 := (Real.log_pos one_lt_two).ne'
  have e : Real.log 2 * (x * softmaxScale kHeadDim) = x / √kHeadDim := by
    rw [softmaxScale, Real.logb, Real.log_exp]
    field_simp
  rw [← e]
  exact Real.rpow_def_of_pos two_pos _

end Softmax

section Launch

variable {P : Problem} {g : WarpGrid} {l : Launch P g}

theorem mass_score (Q K V : Tensor ℝ) (b r h c : ℕ) :
    mass exp2 (softmaxScale g.kHeadDim) (g.score (P.operands Q K V h b) r c) =
      if P.causal = true → c ≤ r then
        Real.exp ((∑ k ∈ range g.kHeadDim, Q (b, r, h, k) * K (b, c, h, k)) / √g.kHeadDim)
      else 0 := by
  rw [score]
  split_ifs with hmask hle hle
  · exact absurd (hle hmask.1) (Nat.not_le.2 hmask.2)
  · rfl
  · rw [mass_coe, exp2_softmaxScale]
    rfl
  · exact absurd (fun hc ↦ Nat.not_lt.1 fun hlt ↦ hmask ⟨hc, hlt⟩) hle

theorem attention_eq_softmaxAttention (Q K V : Tensor ℝ) (b r h d : ℕ) :
    g.attention exp2 (softmaxScale g.kHeadDim) (P.operands Q K V h b) P.seqLen r d =
      softmaxAttention P g.kHeadDim Q K V b r h d := by
  simp only [attention, softmaxAttention, mass_score, ite_mul, zero_mul, ← sum_filter, sum_div,
    div_mul_eq_mul_div]
  rfl

/-- The columns that a tile leaves out weigh nothing. -/
theorem attention_kBlocks {F : Type} [Field F] [LinearOrder F] (E : Exp2 F) (scale : F)
    (l : Launch P g) (o : Operands F) (ho : o.causal = P.causal) {R : ℕ}
    (hR : R < P.seqLen) (d : ℕ) :
    g.attention E scale o (l.kBlocks (R / g.kBlockM) * g.kBlockN) R d =
      g.attention E scale o P.seqLen R d := by
  have hsub : range (l.kBlocks (R / g.kBlockM) * g.kBlockN) ⊆ range P.seqLen := by
    rw [range_subset_range, ← l.nNum_mul]
    exact Nat.mul_le_mul_right _ (l.kBlocks_le (Launch.div_lt_mNum hR))
  have hzero : ∀ c ∈ range P.seqLen, c ∉ range (l.kBlocks (R / g.kBlockM) * g.kBlockN) →
      mass E scale (g.score o R c) = 0 := by
    intro c hc hout
    rw [mem_range] at hc hout
    have hmask := l.lt_of_kBlocks_le rfl (Nat.not_lt.1 hout) hc
    rw [score, ho, if_pos hmask, mass_bot]
  rw [attention, attention, sum_subset hsub hzero, sum_subset hsub]
  intro c hc hout
  rw [hzero c hc hout, zero_mul]

/-- Every register of the first `n` blocks of a tile has a defined value: the running statistics,
the accumulators and the probabilities. -/
structure Defined {F : Type} [Field F] [LinearOrder F] (g : WarpGrid) (E : Exp2 F) (scale : F)
    (o : Operands F) (qBlock n : ℕ) : Prop where
  rMax : ∀ wid < g.kNWarps, ∀ lane < 32, ∀ r < 2 * g.wm,
    (g.kLoop E scale o qBlock n).rMax wid lane r ≠ .undef
  rSum : ∀ wid < g.kNWarps, ∀ lane < 32, ∀ r < 2 * g.wm,
    (g.kLoop E scale o qBlock n).rSum wid lane r ≠ .undef
  rO : ∀ wid < g.kNWarps, ∀ lane < 32, ∀ r < 2 * g.wm, ∀ i,
    (g.kLoop E scale o qBlock n).rO wid lane r i ≠ .undef
  rP : ∀ wid < g.kNWarps, ∀ lane < 32, ∀ r < 2 * g.wm, ∀ j < 2 * g.wn,
    (g.softmaxRescale E scale (g.blockScores o qBlock n) (g.kLoop E scale o qBlock n)).1 wid lane
      r j ≠ .undef

theorem kLoop_defined {F : Type} [Field F] [LinearOrder F] {E : Exp2 F} {scale : F} (hs : 0 < scale)
    (o : Operands F) (qBlock n : ℕ) : Defined g E scale o qBlock n where
  rMax wid hw lane hl r hr := by
    rw [(kLoop_running hs hw hl hr).rMax]
    exact Num.ofBot_ne_undef _
  rSum wid hw lane hl r hr := by
    rw [(kLoop_running hs hw hl hr).rSum]
    nofun
  rO wid hw lane hl r hr i := by
    rw [(kLoop_running hs hw hl hr).rO]
    nofun
  rP wid hw lane hl r hr j hj := by
    rw [softmaxRescale_rP hw hl (fun lane hl ↦ kLoop_running hs hw hl hr) hs hj]
    nofun

/-- A launch computes attention: `tile` is what its kernel computes for a tile. -/
structure ComputesAttention (l : Launch P g)
    (tile : Operands ℝ → ℕ → ℕ → SharedMemory ℝ → ℕ × ℕ → Num ℝ) (Q K V : Tensor ℝ) : Prop where
  /-- every element of O, hence every row, is stored by one tile of one CTA -/
  once : ∀ run : Run l ℝ, ∀ b < P.batch, ∀ r < P.seqLen, ∀ h < P.headNum, ∀ d < g.kHeadDim,
    run.order.countP (fun tiledId ↦ l.region tiledId (b, r, h, d)) = 1
  values : ∀ run : Run l ℝ, ∀ b < P.batch, ∀ r < P.seqLen, ∀ h < P.headNum, ∀ d < g.kHeadDim,
    l.output tile Q K V run (b, r, h, d) = .fin (softmaxAttention P g.kHeadDim Q K V b r h d)
  defined : ∀ b h qBlock n, Defined g exp2 (softmaxScale g.kHeadDim) (P.operands Q K V h b) qBlock n

theorem computesAttention_of_tile (l : Launch P g) (hd : 0 < g.kHeadDim)
    {tile : Operands ℝ → ℕ → ℕ → SharedMemory ℝ → ℕ × ℕ → Num ℝ}
    (htile : ∀ o qBlock kBlocks m row d, 0 < kBlocks → row < g.kBlockM → d < g.kHeadDim →
      tile o qBlock kBlocks m (row, d) =
        .fin (g.attention exp2 (softmaxScale g.kHeadDim) o (kBlocks * g.kBlockN)
          (qBlock * g.kBlockM + row) d))
    (Q K V : Tensor ℝ) : ComputesAttention l tile Q K V where
  once run b hb r hr h hh d hd := Launch.countP_region hb hr hh hd run
  values run b hb r hr h hh d hd := by
    rw [Launch.output_eq hb hr hh hd,
      htile _ _ _ _ _ _ (l.kBlocks_pos _) (Nat.mod_lt _ l.kBlockM_pos) hd, Nat.div_add_mod',
      attention_kBlocks _ _ l _ rfl hr, attention_eq_softmaxAttention]
  defined b h qBlock n := kLoop_defined (softmaxScale_pos hd) _ _ _

end Launch

noncomputable def MMnNkN.Config.tile {headDim : ℕ} (c : MMnNkN.Config headDim) :
    Operands ℝ → ℕ → ℕ → SharedMemory ℝ → ℕ × ℕ → Num ℝ := c.traits.tile exp2 (softmaxScale headDim)

noncomputable def MMn1k1.Config.tile {headDim : ℕ} (c : MMn1k1.Config headDim) :
    Operands ℝ → ℕ → ℕ → SharedMemory ℝ → ℕ × ℕ → Num ℝ := c.traits.tile exp2 (softmaxScale headDim)

theorem MMnNkN.Config.tile_eq {headDim : ℕ} (c : MMnNkN.Config headDim) (o : Operands ℝ)
    (qBlock kBlocks : ℕ) (m : SharedMemory ℝ) (row d : ℕ) (hk : 0 < kBlocks)
    (hrow : row < c.traits.kBlockM)
    (hd : d < headDim) : c.tile o qBlock kBlocks m (row, d) =
      .fin (c.traits.grid.attention exp2 (softmaxScale headDim) o (kBlocks * c.traits.kBlockN)
        (qBlock * c.traits.kBlockM + row) d) :=
  Traits.tile_eq (softmaxScale_pos c.traits.kHeadDim_pos) o qBlock hk c.traits_wm m hrow hd

theorem MMn1k1.Config.tile_eq {headDim : ℕ} (c : MMn1k1.Config headDim) (o : Operands ℝ)
    (qBlock kBlocks : ℕ) (m : SharedMemory ℝ) (row d : ℕ) (hk : 0 < kBlocks)
    (hrow : row < c.traits.kBlockM)
    (hd : d < headDim) : c.tile o qBlock kBlocks m (row, d) =
      .fin (c.traits.grid.attention exp2 (softmaxScale headDim) o (kBlocks * c.traits.kBlockN)
        (qBlock * c.traits.kBlockM + row) d) :=
  Traits.tile_eq (softmaxScale_pos c.traits.kHeadDim_pos) o qBlock hk m hrow hd

theorem MMnNkN.Config.computes_attention {headDim : ℕ} (c : MMnNkN.Config headDim) (P : Problem)
    (l : Launch P c.traits.grid) (Q K V : Tensor ℝ) : ComputesAttention l c.tile Q K V :=
  computesAttention_of_tile l c.traits.kHeadDim_pos c.tile_eq Q K V

def SameOutput (P : Problem) (headDim : ℕ) (O O' : Tensor (Num ℝ)) : Prop :=
  ∀ b < P.batch, ∀ r < P.seqLen, ∀ h < P.headNum, ∀ d < headDim,
    ∃ x, O (b, r, h, d) = .fin x ∧ O' (b, r, h, d) = .fin x

theorem forward_agree {headDim : ℕ} (c : MMn1k1.Config headDim) (c' : MMnNkN.Config headDim)
    (P : Problem) (l : Launch P c.traits.grid) (l' : Launch P c'.traits.grid) (Q K V : Tensor ℝ)
    (run : Run l ℝ) (run' : Run l' ℝ) :
    SameOutput P headDim (l.output c.tile Q K V run) (l'.output c'.tile Q K V run') := by
  intro b hb r hr h hh d hd
  have hc := computesAttention_of_tile l c.traits.kHeadDim_pos c.tile_eq Q K V
  have hc' := computesAttention_of_tile l' c'.traits.kHeadDim_pos c'.tile_eq Q K V
  exact ⟨_, hc.values run b hb r hr h hh d hd, hc'.values run' b hb r hr h hh d hd⟩

end Sm120.Flash
