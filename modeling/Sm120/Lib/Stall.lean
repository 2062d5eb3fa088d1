import Sm120.Lib.Window

set_option linter.unusedSectionVars false

namespace Sm120.Lib

open Function

variable {L W R B A M σ : Type} [DecidableEq L] [DecidableEq W] [DecidableEq R] [DecidableEq B]
variable [Fintype L] [Fintype W] [LinearOrder σ] {k : Kernel L W R B A M σ}
variable {s t : State L W R B A M σ} {a : Action L W R σ}

/-- A run up to site `y` that leaves warp `w₁` at its read at `x`: nothing before `y` waits for what
`w₁` has yet to do. -/
structure Stall (h : Aligned k) (w₁ : W) (x y : σ) : Prop where
  lt : x < y
  read : ∃ r, ⟨x, .read r⟩ ∈ k.program (.warp w₁)
  loads : ∀ r i j z z', (h.items r)[i]? = some z → (h.items r)[j]? = some z' →
    i + k.stages r ≤ j → z' < y → z < x
  syncs : ∀ b z, k.member b (.warp w₁) = true → z ∈ h.rounds b → x ≤ z → y ≤ z

namespace Stall

variable {h : Aligned k} {w₁ : W} {x y : σ}

def limit (w₁ : W) (x y : σ) (p : Party L W) : σ := if p = .warp w₁ then x else y

theorem limit_le (hs : Stall h w₁ x y) (p : Party L W) : limit w₁ x y p ≤ y := by
  unfold limit
  split_ifs
  · exact hs.lt.le
  · exact le_rfl

/-- A site up to which nobody is left behind but `w₁`. -/
def Front (w₁ : W) (x : σ) (s : State L W R B A M σ) (c : σ) : Prop :=
  (∀ q, q ≠ .warp w₁ → (c : WithTop σ) ≤ s.clock q) ∧
    ((c : WithTop σ) ≤ s.clock (.warp w₁) ∨ s.clock (.warp w₁) = x)

theorem ready (hs : Stall h w₁ x y) (hi : h.Inv s) {c : σ} (hf : Front w₁ x s c) (hc : c < y)
    {r : R} {tl : List (Instr σ R B A)} (hr : s.rest .producer = ⟨c, .load r⟩ :: tl) :
    (k.start r).ready (k.stages r) (s.total r) (s.producer r) (s.ring r) = true := by
  obtain ⟨hx, -⟩ := hi.load_head hr
  rw [hi.producer_eq r, (hi.ring r).ready_iff (h.stages_pos r)]
  intro w
  by_contra hle
  have hS := h.stages_pos r
  have hlt : h.released s r w < s.total r := by omega
  obtain ⟨z, hz⟩ : ∃ z, (h.items r)[h.released s r w]? = some z :=
    ⟨_, List.getElem?_eq_getElem (hlt.trans_le (hi.total_le r))⟩
  have hzc : z < c := (h.items_lt_iff hz hx).1 hlt
  -- the item is not released, so its warp stands no further than its site
  have hw := not_lt.1 ((hi.lt_released_iff w hz).not.1 (lt_irrefl _))
  by_cases hw₁ : w = w₁
  · subst hw₁
    rcases hf.2 with hcw | hxw
    · exact (WithTop.coe_lt_coe.2 hzc).not_ge (hcw.trans hw)
    · rw [hxw, WithTop.coe_le_coe] at hw
      exact (hs.loads r _ _ z c hz hx (by omega) hc).not_ge hw
  · have hcw := hf.1 (.warp w) (by simpa using hw₁)
    exact (WithTop.coe_lt_coe.2 hzc).not_ge (hcw.trans hw)

theorem lt_of_sync (hs : Stall h w₁ x y) (hi : h.Inv s) (h₁ : s.clock (.warp w₁) ≤ x) {c : σ}
    {b : B} {tl : List (Instr σ R B A)} (hr : s.rest (.warp w₁) = ⟨c, .sync b⟩ :: tl) :
    (c : WithTop σ) < x := by
  rw [clock_of_head hr] at h₁
  refine lt_of_le_of_ne h₁ fun he ↦ ?_
  obtain ⟨r, hm⟩ := hs.read
  have hcl : s.clock (.warp w₁) = x := (clock_of_head hr).trans he
  obtain ⟨tl', hr'⟩ := hi.head_of_clock ((hi.mem_rest_iff hm).2 hcl.le) hcl.ge
  simp [hr] at hr'

theorem exists_step (hs : Stall h w₁ x y) (hi : h.Inv s) (h₁ : s.clock (.warp w₁) ≤ x)
    (hact : ∃ p, s.clock p < limit w₁ x y p) :
    ∃ a t, k.Fired s a t ∧ ∀ q, t.rest q = s.rest q ∨ s.clock q < limit w₁ x y q := by
  obtain ⟨p₀, hp₀⟩ := hact
  -- the active party furthest behind
  obtain ⟨p, hp, hmin⟩ := Finset.exists_min_image
    (Finset.univ.filter fun p ↦ s.clock p < limit w₁ x y p) s.clock ⟨p₀, by simpa using hp₀⟩
  simp only [Finset.mem_filter, Finset.mem_univ, true_and] at hp hmin
  have hadv : ∀ {t : State L W R B A M σ} {p : Party L W}, s.clock p < limit w₁ x y p →
      t.rest = (s.advance p).rest →
      ∀ q, t.rest q = s.rest q ∨ s.clock q < limit w₁ x y q := by
    intro t p hp ht q
    by_cases hq : q = p
    · exact .inr (hq ▸ hp)
    · exact .inl (by rw [ht, rest_advance_of_ne hq])
  cases hr : s.rest p with
  | nil => simp [State.clock, hr] at hp
  | cons i tl =>
    obtain ⟨c, op⟩ := i
    have hc : s.clock p = c := clock_of_head hr
    rw [hc] at hp hmin
    have hcy : c < y := WithTop.coe_lt_coe.1 (hp.trans_le (WithTop.coe_le_coe.2 (hs.limit_le p)))
    have hfront : Front w₁ x s c := by
      constructor
      · intro q hq
        by_cases ha : s.clock q < limit w₁ x y q
        · exact hmin q ha
        · rw [limit, if_neg hq, not_lt] at ha
          exact (WithTop.coe_lt_coe.2 hcy).le.trans ha
      · by_cases ha : s.clock (.warp w₁) < limit w₁ x y (.warp w₁ : Party L W)
        · exact .inl (hmin _ ha)
        · rw [limit, if_pos rfl, not_lt] at ha
          exact .inr (h₁.antisymm ha)
    have hprod : (c : WithTop σ) < limit w₁ x y (.producer : Party L W) := by
      rw [limit, if_neg (by simp)]
      exact WithTop.coe_lt_coe.2 hcy
    cases op with
    | load r =>
      obtain rfl := hi.producer_of_load hr
      exact ⟨_, _, .load hr (hs.ready hi hfront hcy hr), hadv (hc ▸ hprod) rfl⟩
    | read r =>
      obtain ⟨w, rfl⟩ := hi.warp_of_read hr
      rcases (hfront.1 .producer (by simp)).lt_or_eq with hlt | heq
      · obtain ⟨a, t, ht, hq⟩ := hi.live_of_issued hr hlt
        refine ⟨a, t, ht, fun q ↦ ?_⟩
        by_cases hqw : q = .warp w
        · exact .inr (by rw [hqw, hc]; exact hp)
        · exact .inl (hq q hqw)
      · obtain ⟨hit, -⟩ := hi.read_head hr
        have hm := List.mem_of_getElem? hit
        rw [← h.producer_loads, mem_sites] at hm
        obtain ⟨op, hop, hm⟩ := hm
        obtain ⟨tl', hr'⟩ := hi.head_of_clock ((hi.mem_rest_iff hm).2 heq.ge) heq.le
        cases op with
        | load q =>
          obtain rfl : q = r := by simpa [Op.isLoad] using hop
          exact ⟨_, _, .load hr' (hs.ready hi hfront hcy hr'), hadv (heq ▸ hprod) rfl⟩
        | _ => cases hop
    | sync b =>
      -- whoever joins the barrier here opens it for parties that all stand here
      have hjoin : ∀ {q tl}, s.rest q = ⟨c, .sync b⟩ :: tl → s.busy q = false →
          s.clock q < limit w₁ x y q →
          ∃ a t, k.Fired s a t ∧ ∀ q, t.rest q = s.rest q ∨ s.clock q < limit w₁ x y q := by
        intro q tl hrq hbq hq
        by_cases hcount : s.arrived b + k.threadsOf q = k.count b
        · refine ⟨_, _, .openBarrier hrq hbq hcount, fun v ↦ ?_⟩
          by_cases hv : v = q ∨ s.parked b v = true
          · refine .inr ?_
            rcases hv with rfl | hv
            · exact hq
            · obtain ⟨-, z, tl', hrv⟩ := State.parked_iff.1 hv
              have hal := hi.aligned b v q (hi.member_of_sync hrv) (hi.member_of_sync hrq)
              rw [hrv, hrq, sites_cons_of_pos _ _ (by simp [Op.isSync]),
                sites_cons_of_pos _ _ (by simp [Op.isSync]), List.cons.injEq] at hal
              obtain ⟨rfl, -⟩ := hal
              rw [clock_of_head hrv, limit]
              split_ifs with hv₁
              · subst hv₁
                exact hs.lt_of_sync hi h₁ hrv
              · exact WithTop.coe_lt_coe.2 hcy
          · exact .inl (by simp only [State.openBarrier, if_neg hv])
        · exact ⟨_, _, .park hrq hbq hcount, fun _ ↦ .inl rfl⟩
      by_cases hb : s.busy p = true
      · obtain ⟨q, hq, hnq⟩ := hi.opening b ⟨p, hi.member_of_sync hr⟩
        have hcq : c ∈ sites (Op.isSync b) (s.rest q) := by
          rw [hi.aligned b q p hq (hi.member_of_sync hr), hr,
            sites_cons_of_pos _ _ (by simp [Op.isSync])]
          exact List.mem_cons_self
        obtain ⟨op, hop, hm⟩ := mem_sites.1 hcq
        cases op with
        | sync b' =>
          obtain rfl : b' = b := by simpa [Op.isSync] using hop
          have hge : (c : WithTop σ) ≤ s.clock q := by
            by_cases hqw : q = .warp w₁
            · subst hqw
              rcases hfront.2 with hle | hxw
              · exact hle
              · -- `w₁` waits at its read, before this barrier
                have hround : c ∈ h.rounds b' := by
                  rw [← h.member_syncs b' _ hq]
                  exact mem_sites.2 ⟨_, by simp [Op.isSync], (hi.suffix _).subset hm⟩
                have hxc : x ≤ c := by
                  have := hi.clock_le hm
                  rwa [hxw, WithTop.coe_le_coe] at this
                exact absurd (hs.syncs b' c hq hround hxc) hcy.not_ge
            · exact hfront.1 q hqw
          obtain ⟨tl', hr'⟩ := hi.head_of_clock hm hge
          refine hjoin hr' ?_ ?_
          · rw [← Bool.not_eq_true] at hnq ⊢
            exact fun hbq ↦ hnq (State.parked_iff.2 ⟨hbq, c, tl', hr'⟩)
          · rw [clock_of_head hr', limit]
            split_ifs with hqw
            · subst hqw
              exact hs.lt_of_sync hi h₁ hr'
            · exact WithTop.coe_lt_coe.2 hcy
        | _ => cases hop
      · exact hjoin hr (by simpa using hb) (by rw [hc]; exact hp)
    | act e => exact ⟨_, _, .act hr, hadv (hc ▸ hp) rfl⟩
    | store => exact ⟨_, _, .store hr, hadv (hc ▸ hp) rfl⟩
    | drain =>
      by_cases hst : ∃ z, (p, z) ∈ s.stores
      · obtain ⟨z, hz⟩ := hst
        exact ⟨_, _, .stored hz, fun _ ↦ .inl rfl⟩
      · exact ⟨_, _, .drain hr fun z hz ↦ hst ⟨z, hz⟩, hadv (hc ▸ hp) rfl⟩

/-- **A warp can be left behind.** Another warp gets to `y` while `w₁` has yet to finish its read at
`x`. -/
theorem reachable [Nonempty W] (hs : Stall h w₁ x y) (w₀ : W) (hw : w₀ ≠ w₁) {i : Instr σ R B A}
    (hi₀ : i ∈ k.program (.warp w₀)) (hy : i.site = y) :
    ∃ s, k.Reachable s ∧ s.clock (.warp w₀) = y ∧ s.clock (.warp w₁) = x := by
  obtain ⟨r, hr⟩ := hs.read
  have hgen : ∀ n s, k.Reachable s → s.potential k = n → i ∈ s.rest (.warp w₀) →
      ⟨x, .read r⟩ ∈ s.rest (.warp w₁) →
        ∃ s, k.Reachable s ∧ s.clock (.warp w₀) = y ∧ s.clock (.warp w₁) = x := by
    intro n
    induction n using Nat.strong_induction_on with
    | _ n ih =>
      intro s hreach hn h₀ h₁
      have hi := Kernel.Reachable.inv h hreach
      have hc₀ : s.clock (.warp w₀) ≤ y := hy ▸ hi.clock_le h₀
      have hc₁ : s.clock (.warp w₁) ≤ x := hi.clock_le h₁
      by_cases hact : ∃ p, s.clock p < limit w₁ x y p
      · obtain ⟨a, t, ht, hkeep⟩ := hs.exists_step hi hc₁ hact
        have hmem : ∀ q (j : Instr σ R B A), j.site = limit w₁ x y q → j ∈ s.rest q →
            j ∈ t.rest q := by
          intro q j hj hjs
          by_contra hjt
          have he := ht.rest_of_mem hjs hjt
          rcases hkeep q with hq | hq
          · rw [hq] at he
            simpa using congrArg List.length he
          · rw [clock_of_head he, hj] at hq
            exact lt_irrefl _ hq
        refine ih _ (hn ▸ ht.potential_lt hi) t (hreach.tail ⟨a, Kernel.fire_of_fired ht⟩) rfl ?_ ?_
        · exact hmem _ i (by rw [limit, if_neg (by simpa using hw), hy]) h₀
        · exact hmem _ _ (by rw [limit, if_pos rfl]) h₁
      · push Not at hact
        refine ⟨s, hreach, hc₀.antisymm ?_, hc₁.antisymm ?_⟩
        · have := hact (.warp w₀)
          rwa [limit, if_neg (by simpa using hw)] at this
        · have := hact (.warp w₁)
          rwa [limit, if_pos rfl] at this
  exact hgen _ k.init .refl rfl hi₀ hr

end Stall

end Sm120.Lib
