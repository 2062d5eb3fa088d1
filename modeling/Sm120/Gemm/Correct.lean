import Sm120.Gemm.Execution

set_option linter.unusedSectionVars false

namespace Sm120.Gemm

open Lib Finset Function

/-- A call of `gemm_tn` that its check of the sizes lets pass. -/
structure Call (c : Traits) where
  bsW : ℕ
  /-- the multiprocessors of the device -/
  smNum : ℕ
  m : ℕ
  n : ℕ
  k : ℕ
  bsW_pos : 0 < bsW
  smNum_pos : 0 < smNum
  m_pos : 0 < m
  n_pos : 0 < n
  k_pos : 0 < k
  m_mod : m % c.bM = 0
  n_mod : n % c.bN = 0
  k_mod : k % c.bK = 0

namespace Call

variable {c : Traits} (q : Call c)

def blockNum : ℕ := min q.smNum ((q.m / c.bM) * (q.n / c.bN))

theorem blockNum_pos : 0 < q.blockNum := by
  have hm := Nat.div_pos (Nat.le_of_dvd q.m_pos (Nat.dvd_of_mod_eq_zero q.m_mod)) c.bM_pos
  have hn := Nat.div_pos (Nat.le_of_dvd q.n_pos (Nat.dvd_of_mod_eq_zero q.n_mod)) c.bN_pos
  exact lt_min q.smNum_pos (Nat.mul_pos hm hn)

def launch : Launch where
  bM := c.bM
  bN := c.bN
  bK := c.bK
  bsW := q.bsW
  m := q.m
  n := q.n
  k := q.k
  grid := q.blockNum
  bM_pos := c.bM_pos
  bN_pos := c.bN_pos
  bK_pos := c.bK_pos
  bsW_pos := q.bsW_pos
  m_pos := q.m_pos
  n_pos := q.n_pos
  k_pos := q.k_pos
  grid_pos := q.blockNum_pos
  m_mod := q.m_mod
  n_mod := q.n_mod
  k_mod := q.k_mod

def tiles (b : Fin q.blockNum) : List (ℕ × ℕ) := q.launch.ctaTiles b

theorem kNum_mul : q.launch.kNum * c.bK = q.k := Nat.div_mul_cancel (Nat.dvd_of_mod_eq_zero q.k_mod)

theorem kNum_pos : 0 < q.launch.kNum :=
  Nat.div_pos (Nat.le_of_dvd q.k_pos (Nat.dvd_of_mod_eq_zero q.k_mod)) c.bK_pos

abbrev ctas {R T : Type} [Semiring R] (X : Inputs R T) (b : Fin q.blockNum) :=
  X.dataflow c (q.tiles b) q.launch.kNum

theorem exists_mem_tiles (coord : ℕ × ℕ) :
    (∃ b, coord ∈ q.tiles b) ↔ coord.1 < q.launch.mNum ∧ coord.2 < q.launch.nNum := by
  rw [← Launch.mem_tiles_iff (List.Perm.refl _) coord, List.mem_flatMap]
  constructor
  · rintro ⟨b, hb⟩
    exact ⟨b, List.mem_range.2 b.isLt, hb⟩
  · rintro ⟨b, hb, hm⟩
    exact ⟨⟨b, List.mem_range.1 hb⟩, hm⟩

/-- What a call does to C, whatever the order in which the parties of all CTAs act. -/
structure Executes {R T : Type} [Semiring R] [DecidableEq T] (X : Inputs R T)
    (C : ℕ × ℕ → T) : Prop where
  /-- once every CTA has finished, C is the product -/
  values : ∀ s, Blocks.Reachable (q.ctas X) C s →
    (∀ b p, (s.exec b).control.rest p = []) → ∀ i < q.m, ∀ j < q.n,
      s.outside (i, j) = X.cvt (∑ k ∈ range q.k, X.up (X.A i k) * X.up (X.B j k))
  /-- a CTA that has finished has left its tiles in C, whatever the others do -/
  tiles : ∀ s, Blocks.Reachable (q.ctas X) C s → ∀ b p,
    (s.exec b).control.rest p = [] → ∀ i j, (i / c.bM, j / c.bN) ∈ q.tiles b →
      s.outside (i, j) = X.cvt (∑ k ∈ range q.k, X.up (X.A i k) * X.up (X.B j k))
  /-- no other value is ever seen in C, and nothing else is written -/
  partials : ∀ s, Blocks.Reachable (q.ctas X) C s → ∀ i j,
    s.outside (i, j) = C (i, j) ∨ i < q.m ∧ j < q.n ∧
      s.outside (i, j) = X.cvt (∑ k ∈ range q.k, X.up (X.A i k) * X.up (X.B j k))
  progress : ∀ s, Blocks.Reachable (q.ctas X) C s →
    (¬ ∀ b, Final c (q.tiles b).length q.launch.kNum (s.exec b).control) →
      ∃ b l t, s.fire (q.ctas X) b l = some t
  bounded : ∀ ls s, (Blocks.init (q.ctas X) C).run (q.ctas X) ls = some s →
    ls.length ≤ (1 + 64 * (c.wm + c.wn) * c.bK + c.bM * c.bN) *
      ∑ b, ∑ p, (((c.kernel (q.tiles b).length q.launch.kNum).program p).map
        (c.kernel (q.tiles b).length q.launch.kNum).cost).sum

end Call

section Cta

variable {R T : Type} [Semiring R] [DecidableEq T] {X : Inputs R T} {c : Traits}
    {coords : List (ℕ × ℕ)} {kNum : ℕ}
variable {e : Exec (Fin 127) (Fin c.consumers) Unit Bar Act (Memory c.consumers) Site Address T
    (Data c R T)}

theorem shared_of_store (hk : 0 < kNum) (he : (X.dataflow c coords kNum).Reachable e)
    {p : Party (Fin 127) (Fin c.consumers)} {x : Site} (hx : (p, x) ∈ e.control.stores) :
    x.tile < coords.length ∧ ∀ i < c.bM, ∀ j < c.bN, e.data.shared (.inr (i, j)) =
      some (X.cvt (X.product c (Inputs.tileOf coords x) (kNum * c.bK) i j)) := by
  have hs := he.control
  have hh : (X.lockstep c coords kNum).Holds e := (Inputs.sound hk).holds he
  obtain ⟨w₀, t, rfl, ht, rfl, h3, hd⟩ := store_outstanding hs hx
  refine ⟨ht, fun i hi j hj ↦ ?_⟩
  obtain ⟨w, ⟨hmem, hsC⟩, -⟩ := holds_of_clock hs ht h3 hd i hi j hj
  obtain ⟨v, hv, hval⟩ := hh.agree (.inr (i, j)) (.inr (t, w)) (congrArg (Option.map Sum.inr) hsC)
  obtain ⟨y, hy, hcoord⟩ := Traits.mem_cCells_iff.1 hmem
  have hvy := hval y hy (congrArg Sum.inr hcoord.symm)
  rw [hcoord] at hvy
  exact hv.trans (congrArg some hvy)

theorem sent_of_output (he : (X.dataflow c coords kNum).Reachable e) {x : Site}
    (hx : x ∈ e.control.memory.output) : (X.dataflow c coords kNum).extent x ⊆ e.sent x := by
  refine he.invariant (I := fun e ↦ ∀ x ∈ e.control.memory.output,
    (X.dataflow c coords kNum).extent x ⊆ e.sent x) ?_ ?_ x hx
  · intro x hx
    cases hx
  · intro e l e' _ ih ht x hx
    have hmono := ht.sent_mono x
    have hold : x ∈ e.control.memory.output → (X.dataflow c coords kNum).extent x ⊆ e'.sent x :=
      fun hx ↦ (ih x hx).trans hmono
    cases ht with
    | @act a p y tl hr =>
      refine hold ?_
      cases p <;> cases a <;> exact hx
    | @stored p y hs hy =>
      rcases List.mem_append.1 hx with hx | hx
      · exact hold hx
      · rw [List.mem_singleton.1 hx]
        exact hy
    | _ => exact hold hx

theorem sent_of_ended (he : (X.dataflow c coords kNum).Reachable e)
    {p : Party (Fin 127) (Fin c.consumers)} (hr : e.control.rest p = []) {coord : ℕ × ℕ}
    (hc : coord ∈ coords) :
    ∃ x, Inputs.tileOf coords x = coord ∧ (X.dataflow c coords kNum).extent x ⊆ e.sent x := by
  obtain ⟨hstores, hcoming⟩ := drained_of_ended he.control hr
  have hperm := outputs_perm coords he.control (w := ⟨0, Nat.mul_pos (by decide) c.cwg_pos⟩) rfl
  rw [hstores, hcoming, List.map_nil, List.append_nil, List.append_nil] at hperm
  obtain ⟨x, hx, hget⟩ := List.mem_filterMap.1 (hperm.mem_iff.2 hc)
  exact ⟨x, by rw [Inputs.tileOf, hget, Option.getD_some], sent_of_output he hx⟩

theorem card_needs_le (w slot : ℕ) : (c.needs w slot).card ≤ 64 * (c.wm + c.wn) * c.bK := by
  have hcard : ∀ n, ((range 32 ×ˢ range 2 ×ˢ range n) ×ˢ range c.bK).card = 64 * n * c.bK := by
    intro n
    simp only [card_product, card_range]
    ring
  calc (c.needs w slot).card ≤ 64 * c.wm * c.bK + 64 * c.wn * c.bK := by
        refine (card_union_le _ _).trans (Nat.add_le_add ?_ ?_)
        · exact card_image_le.trans (hcard _).le
        · exact card_image_le.trans (hcard _).le
    _ = 64 * (c.wm + c.wn) * c.bK := by ring

theorem card_extent (x : Site) : ((X.dataflow c coords kNum).extent x).card = c.bM * c.bN := by
  change (((range c.bM ×ˢ range c.bN).map ⟨.inr, Sum.inr_injective⟩ : Finset Address)).card = _
  rw [card_map, card_product, card_range, card_range]

end Cta

namespace Call

section Grid

variable {R T : Type} [Semiring R] [DecidableEq T] {X : Inputs R T} {c : Traits} {q : Call c}
    {C : ℕ × ℕ → T}
variable {s : Blocks (Fin q.blockNum) (Fin 127) (Fin c.consumers) Unit Bar Act
    (Memory c.consumers) Site
  Address T (Data c R T) (ℕ × ℕ → T)}

def ideal (q : Call c) (X : Inputs R T) (a : ℕ × ℕ) : T :=
  X.cvt (∑ k ∈ range q.k, X.up (X.A a.1 k) * X.up (X.B a.2 k))

/-- C is its old self where nothing has gone out, and the product where something has. -/
structure Written (q : Call c) (X : Inputs R T) (C : ℕ × ℕ → T)
    (s : Blocks (Fin q.blockNum) (Fin 127) (Fin c.consumers) Unit Bar Act (Memory c.consumers) Site
      Address T (Data c R T) (ℕ × ℕ → T)) : Prop where
  values : ∀ a, s.outside a = C a ∨ (a.1 < q.m ∧ a.2 < q.n) ∧ s.outside a = q.ideal X a
  sent : ∀ b x i j, .inr (i, j) ∈ (s.exec b).sent x →
    s.outside ((Inputs.tileOf (q.tiles b) x).1 * c.bM + i,
      (Inputs.tileOf (q.tiles b) x).2 * c.bN + j) =
      q.ideal X ((Inputs.tileOf (q.tiles b) x).1 * c.bM + i,
        (Inputs.tileOf (q.tiles b) x).2 * c.bN + j)

theorem product_eq_ideal (coord : ℕ × ℕ) (i j : ℕ) :
    X.cvt (X.product c coord (q.launch.kNum * c.bK) i j) =
      q.ideal X (coord.1 * c.bM + i, coord.2 * c.bN + j) := by
  rw [q.kNum_mul]
  rfl

theorem lt_of_mem_tiles {b : Fin q.blockNum} {coord : ℕ × ℕ} (hc : coord ∈ q.tiles b) {i j : ℕ}
    (hi : i < c.bM) (hj : j < c.bN) : coord.1 * c.bM + i < q.m ∧ coord.2 * c.bN + j < q.n := by
  have hlt := (q.exists_mem_tiles coord).1 ⟨b, hc⟩
  apply (q.launch.div_lt_iff (coord.1 * c.bM + i, coord.2 * c.bN + j)).1
  change (coord.1 * c.bM + i) / c.bM < _ ∧ (coord.2 * c.bN + j) / c.bN < _
  rwa [Nat.add_comm, Nat.add_mul_div_right _ _ c.bM_pos, Nat.div_eq_of_lt hi, Nat.zero_add,
    Nat.add_comm _ j, Nat.add_mul_div_right _ _ c.bN_pos, Nat.div_eq_of_lt hj, Nat.zero_add]

theorem written_init : Written q X C (Blocks.init (q.ctas X) C) where
  values _ := .inl rfl
  sent _ _ _ _ h := absurd h (notMem_empty _)

theorem written_step
    (hs : Blocks.Reachable (q.ctas X) C s) (hw : Written q X C s)
    {b : Fin q.blockNum} {l : Event (Fin 127) (Fin c.consumers) Unit Site Address T}
    {e : Exec (Fin 127) (Fin c.consumers) Unit Bar Act (Memory c.consumers) Site Address T
      (Data c R T)}
    (ht : (q.ctas X b).Fired (s.exec b) l e) :
    Written q X C ⟨update s.exec b e, (q.ctas X b).leave l s.outside⟩ := by
  have hkeep : (q.ctas X b).leave l s.outside = s.outside →
      e.sent = (s.exec b).sent →
      Written q X C ⟨update s.exec b e, (q.ctas X b).leave l s.outside⟩ := by
    intro hout hsent
    rw [hout]
    refine ⟨hw.values, fun b' x i j h ↦ hw.sent b' x i j ?_⟩
    by_cases hb : b' = b
    · subst hb
      dsimp only at h
      rwa [update_self, hsent] at h
    · dsimp only at h
      rwa [update_of_ne hb] at h
  cases ht with
  | @send p x a v hst ha hn hv =>
    obtain ⟨⟨i, j⟩, hij, rfl⟩ := mem_map.1 ha
    rw [mem_product, mem_range, mem_range] at hij
    obtain ⟨htile, hshared⟩ := shared_of_store q.kNum_pos (hs.exec b) hst
    have hval : v = q.ideal X ((Inputs.tileOf (q.tiles b) x).1 * c.bM + i,
        (Inputs.tileOf (q.tiles b) x).2 * c.bN + j) := by
      rw [← product_eq_ideal]
      exact Dataflow.shows_of_eq (hshared i hij.1 j hij.2) hv
    have hmem : Inputs.tileOf (q.tiles b) x ∈ q.tiles b := by
      rw [Inputs.tileOf, List.getElem?_eq_getElem htile]
      exact List.getElem_mem htile
    -- what is written is the product, so nothing that was right becomes wrong
    let a₀ :=
      ((Inputs.tileOf (q.tiles b) x).1 * c.bM + i, (Inputs.tileOf (q.tiles b) x).2 * c.bN + j)
    have hout : (q.ctas X b).leave (.send p x (.inr (i, j)) v) s.outside =
        update s.outside a₀ (q.ideal X a₀) := by
      rw [hval]
      rfl
    have hnew : ∀ a, (a = a₀ ∨ s.outside a = q.ideal X a) →
        update s.outside a₀ (q.ideal X a₀) a = q.ideal X a := by
      intro a h
      by_cases ha : a = a₀
      · rw [ha, update_self]
      · rw [update_of_ne ha]
        exact h.resolve_left ha
    change Written q X C ⟨update s.exec b _,
      (q.ctas X b).leave (.send p x (.inr (i, j)) v) s.outside⟩
    rw [hout]
    constructor
    · intro a
      by_cases ha : a = a₀
      · refine .inr ⟨?_, hnew a (.inl ha)⟩
        rw [ha]
        exact lt_of_mem_tiles hmem hij.1 hij.2
      · refine (hw.values a).imp (fun h ↦ ?_) fun h ↦ ⟨h.1, hnew a (.inr h.2)⟩
        exact (update_of_ne ha _ _).trans h
    · intro b' x' i' j' h
      apply hnew
      by_cases hb : b' = b
      · subst hb
        dsimp only at h
        rw [update_self] at h
        by_cases hx : x' = x
        · subst hx
          dsimp only at h
          rw [update_self, mem_insert] at h
          rcases h with h | h
          · obtain ⟨rfl, rfl⟩ := Prod.mk.inj (Sum.inr.inj h)
            exact .inl rfl
          · exact .inr (hw.sent b' x' i' j' h)
        · dsimp only at h
          rw [update_of_ne hx] at h
          exact .inr (hw.sent b' x' i' j' h)
      · dsimp only at h
        rw [update_of_ne hb] at h
        exact .inr (hw.sent b' x' i' j' h)
  | _ => exact hkeep rfl rfl

theorem written (hs : Blocks.Reachable (q.ctas X) C s) : Written q X C s :=
  hs.invariant written_init fun _ _ _ _ hs hw ht ↦ written_step hs hw ht

theorem tile_of_ended (hs : Blocks.Reachable (q.ctas X) C s)
    {b : Fin q.blockNum} {p : Party (Fin 127) (Fin c.consumers)}
    (hr : (s.exec b).control.rest p = []) {i j : ℕ}
    (hc : (i / c.bM, j / c.bN) ∈ q.tiles b) : s.outside (i, j) = q.ideal X (i, j) := by
  obtain ⟨x, hx, hsent⟩ := sent_of_ended (hs.exec b) hr hc
  have hmem : (.inr (i % c.bM, j % c.bN) : Address) ∈ (q.ctas X b).extent x :=
    mem_map.2 ⟨_, mem_product.2 ⟨mem_range.2 (Nat.mod_lt i c.bM_pos),
      mem_range.2 (Nat.mod_lt j c.bN_pos)⟩, rfl⟩
  have hval := (written hs).sent b x _ _ (hsent hmem)
  rw [hx] at hval
  simpa only [Nat.div_add_mod'] using hval

end Grid

/-- **`gemm_tn` leaves `cvt (A * Bᵀ)` in C, in whatever order its threads act.** -/
theorem executes {R T : Type} [Semiring R] [DecidableEq T] {c : Traits} (q : Call c)
    (X : Inputs R T) (C : ℕ × ℕ → T) : q.Executes X C where
  values s hs hr i hi j hj := by
    obtain ⟨b, hb⟩ :=
      (q.exists_mem_tiles (i / c.bM, j / c.bN)).2 ((q.launch.div_lt_iff (i, j)).2 ⟨hi, hj⟩)
    exact tile_of_ended hs (hr b .producer) hb
  tiles s hs b p hr i j hc := tile_of_ended hs hr hc
  partials s hs i j := ((written hs).values (i, j)).imp id fun h ↦ ⟨h.1.1, h.1.2, h.2⟩
  progress s hs hf := by
    have hT : Nonempty T := ⟨X.cvt 0⟩
    push Not at hf
    obtain ⟨b, hb⟩ := hf
    exact ⟨b, Blocks.exists_fire (exists_step (hs.exec b).control hb)⟩
  bounded ls s hr := by
    refine Blocks.run_length_le (fun b ↦ c.aligned (q.tiles b).length q.launch.kNum) ?_ ?_ hr
    · intro b w r x slot
      exact card_needs_le w slot
    · intro b x
      exact (card_extent x).le

end Call

end Sm120.Gemm
