import Sm120.Lib.Invariant

set_option linter.unusedSectionVars false

namespace Sm120.Lib

open Function

variable {L W R B A M σ : Type} [DecidableEq L] [DecidableEq W] [DecidableEq R] [DecidableEq B]
variable [Fintype L] [Fintype W] [LinearOrder σ] {k : Kernel L W R B A M σ}

/-- The site a party stands at; `⊤` once its program is over. -/
def State.clock (s : State L W R B A M σ) (p : Party L W) : WithTop σ :=
  match s.rest p with
  | [] => ⊤
  | i :: _ => i.site

theorem clock_of_head {s : State L W R B A M σ} {p : Party L W} {i : Instr σ R B A}
    {tl : List (Instr σ R B A)} (hr : s.rest p = i :: tl) : s.clock p = i.site := by
  simp [State.clock, hr]

namespace Aligned.Inv

variable {h : Aligned k} {s : State L W R B A M σ}

theorem clock_le (hi : h.Inv s) {p : Party L W} {i : Instr σ R B A} (hm : i ∈ s.rest p) :
    s.clock p ≤ i.site := by
  have hs := hi.sites_sorted p
  cases hr : s.rest p with
  | nil => simp [hr] at hm
  | cons j tl =>
    rw [hr] at hs hm
    rw [clock_of_head hr, WithTop.coe_le_coe]
    rcases List.mem_cons.1 hm with rfl | hm
    · exact le_rfl
    · exact (List.rel_of_pairwise_cons hs hm).le

theorem mem_rest_iff (hi : h.Inv s) {p : Party L W} {i : Instr σ R B A} (hm : i ∈ k.program p) :
    i ∈ s.rest p ↔ s.clock p ≤ i.site := by
  refine ⟨hi.clock_le, fun hc ↦ ?_⟩
  obtain ⟨dn, hd⟩ := hi.suffix p
  have hs := h.sorted p
  rw [← hd] at hm hs
  rcases List.mem_append.1 hm with hm | hm
  · cases hr : s.rest p with
    | nil => simp [State.clock, hr] at hc
    | cons j tl =>
      rw [hr] at hs
      rw [clock_of_head hr, WithTop.coe_le_coe] at hc
      exact absurd ((List.pairwise_append.1 hs).2.2 i hm j List.mem_cons_self) hc.not_gt
  · exact hm

theorem head_of_clock (hi : h.Inv s) {p : Party L W} {i : Instr σ R B A} (hm : i ∈ s.rest p)
    (hc : (i.site : WithTop σ) ≤ s.clock p) : ∃ tl, s.rest p = i :: tl := by
  have hs := hi.sites_sorted p
  cases hr : s.rest p with
  | nil => simp [hr] at hm
  | cons j tl =>
    rw [hr] at hs hm
    rcases List.mem_cons.1 hm with rfl | hm
    · exact ⟨tl, rfl⟩
    · rw [clock_of_head hr, WithTop.coe_le_coe] at hc
      exact absurd (List.rel_of_pairwise_cons hs hm) hc.not_gt

theorem mem_drop_iff (h : Aligned k) {r : R} {j n : ℕ} {x : σ} (hx : (h.items r)[j]? = some x) :
    x ∈ (h.items r).drop n ↔ n ≤ j := by
  constructor
  · intro hm
    obtain ⟨i, hi, he⟩ := List.getElem_of_mem hm
    have : (h.items r)[n + i]? = some x := by
      rw [List.getElem_drop] at he
      rw [← he]
      exact List.getElem?_eq_getElem _
    have := h.items_inj hx this
    omega
  · intro hn
    obtain ⟨hj, rfl⟩ := List.getElem?_eq_some_iff.1 hx
    obtain ⟨i, rfl⟩ := Nat.exists_eq_add_of_le hn
    have hlen : i < ((h.items r).drop n).length := by
      rw [List.length_drop]
      omega
    have := List.getElem_mem hlen
    rwa [List.getElem_drop] at this

theorem mem_sites_rest_iff (hi : h.Inv s) {f : Op R B A → Bool} {p : Party L W} {x : σ}
    (hx : x ∈ sites f (k.program p)) : x ∈ sites f (s.rest p) ↔ s.clock p ≤ x := by
  constructor
  · intro hm
    obtain ⟨_, -, hm⟩ := mem_sites.1 hm
    exact hi.clock_le hm
  · intro hc
    obtain ⟨op, hop, hm⟩ := mem_sites.1 hx
    exact mem_sites.2 ⟨op, hop, (hi.mem_rest_iff hm).2 hc⟩

theorem lt_total_iff (hi : h.Inv s) {r : R} {j : ℕ} {x : σ} (hx : (h.items r)[j]? = some x) :
    j < s.total r ↔ (x : WithTop σ) < s.clock .producer := by
  have hm := List.mem_of_getElem? hx
  rw [← h.producer_loads] at hm
  have hrest := hi.mem_sites_rest_iff hm
  rw [hi.loads_eq, mem_drop_iff h hx] at hrest
  rw [← not_le, hrest, not_le]

theorem lt_released_iff (hi : h.Inv s) {r : R} {j : ℕ} {x : σ} (w : W)
    (hx : (h.items r)[j]? = some x) :
    j < h.released s r w ↔ (x : WithTop σ) < s.clock (.warp w) := by
  have hm := List.mem_of_getElem? hx
  rw [← h.warp_reads r w] at hm
  have hrest := hi.mem_sites_rest_iff hm
  rw [hi.reads_eq, mem_drop_iff h hx] at hrest
  rw [← not_le, hrest, not_le]

theorem sync_lt_iff (hi : h.Inv s) {b : B} {x : σ} (hx : x ∈ h.rounds b) {p q : Party L W}
    (hp : k.member b p = true) (hq : k.member b q = true) :
    (x : WithTop σ) < s.clock p ↔ (x : WithTop σ) < s.clock q := by
  have hrest : ∀ p, k.member b p = true → (x ∈ sites (Op.isSync b) (s.rest p) ↔ s.clock p ≤ x) := by
    intro p hp
    rw [← h.member_syncs b p hp] at hx
    exact hi.mem_sites_rest_iff hx
  rw [← not_le, ← not_le, ← hrest p hp, ← hrest q hq, hi.aligned b p q hp hq]

theorem notMem_flight (hi : h.Inv s) {r : R} {j : ℕ} {x : σ} (hx : (h.items r)[j]? = some x)
    (hdue : h.due s r j = 0) {c : Copy R σ} (hc : c ∈ s.flight) : ¬ (c.ring = r ∧ c.site = x) := by
  rw [due_of_item h hx, outstanding_eq_zero_iff h fun c hc ↦ by
    obtain ⟨_, -, -, -, hp⟩ := hi.flight c hc; exact hp] at hdue
  exact hdue c hc

theorem released_le_of_flight (hi : h.Inv s) {c : Copy R σ} (hc : c ∈ s.flight) {j : ℕ}
    (hx : (h.items c.ring)[j]? = some c.site) (w : W) : h.released s c.ring w ≤ j := by
  by_contra hlt
  exact hi.notMem_flight hx ((hi.ring c.ring).landed w j (by omega)) hc ⟨rfl, rfl⟩

/-- Once a warp has waited for item `j` of a ring, every warp has released the item that used its
slot before. -/
theorem released_of_wait (hi : h.Inv s) {r : R} {j : ℕ} (hj : j < s.total r) (w : W) :
    j < h.released s r w + k.stages r :=
  hj.trans_le ((hi.ring r).le_rel w)

end Aligned.Inv

section Fire

variable {s : State L W R B A M σ}

theorem Kernel.fire_of_fired {a : Action L W R σ} {t : State L W R B A M σ} (h : k.Fired s a t) :
    k.fire s a = some t := by
  cases h with
  | load hr hg => simp [fire, hr, exec, hg]
  | wait hr hb hg => simp [fire, hr, exec, hb, hg]
  | release hr hb => simp [fire, hr, exec, hb]
  | park hr hb hc => simp [fire, hr, exec, hb, hc]
  | openBarrier hr hb hc => simp [fire, hr, exec, hb, hc]
  | act hr => simp [fire, hr, exec]
  | store hr => simp [fire, hr, exec]
  | drain hr hs => simp [fire, hr, exec, hs]
  | land hc => simp [fire, hc]
  | stored hs => simp [fire, hs]

/-- Some party can move, some copy can land, or some store can finish. -/
def Kernel.Live (k : Kernel L W R B A M σ) (s : State L W R B A M σ) : Prop :=
  ∃ a t, k.Fired s a t

theorem Kernel.live_sync {b : B} {p : Party L W} {x : σ} {tl : List (Instr σ R B A)}
    (hr : s.rest p = ⟨x, .sync b⟩ :: tl) (hb : s.busy p = false) : k.Live s := by
  by_cases hc : s.arrived b + k.threadsOf p = k.count b
  · exact ⟨_, _, .openBarrier hr hb hc⟩
  · exact ⟨_, _, .park hr hb hc⟩

end Fire

namespace Aligned.Inv

variable {h : Aligned k} {s : State L W R B A M σ}

/-- The producer's next load is never blocked while no warp stands before its site. -/
theorem ready_of_le (hi : h.Inv s) {r : R} {x : σ} {tl : List (Instr σ R B A)}
    (hr : s.rest .producer = ⟨x, .load r⟩ :: tl) (hmin : ∀ w, (x : WithTop σ) ≤ s.clock (.warp w)) :
    (k.start r).ready (k.stages r) (s.total r) (s.producer r) (s.ring r) = true := by
  obtain ⟨hx, -⟩ := hi.load_head hr
  rw [hi.producer_eq r, (hi.ring r).ready_iff (h.stages_pos r)]
  intro w
  by_contra hle
  have hS := h.stages_pos r
  have hlt : h.released s r w < s.total r := by omega
  obtain ⟨y, hy⟩ : ∃ y, (h.items r)[h.released s r w]? = some y :=
    ⟨_, List.getElem?_eq_getElem (hlt.trans_le (hi.total_le r))⟩
  have hyx : y < x := (h.items_lt_iff hy hx).1 hlt
  have hnot := (hi.lt_released_iff w hy).not.1 (lt_irrefl _)
  exact hnot ((WithTop.coe_lt_coe.2 hyx).trans_le (hmin w))

/-- A warp in front of an item that has been issued can move, or a copy can land. -/
theorem live_of_issued (hi : h.Inv s) {r : R} {w : W} {x : σ} {tl : List (Instr σ R B A)}
    (hr : s.rest (.warp w) = ⟨x, .read r⟩ :: tl) (hx : (x : WithTop σ) < s.clock .producer) :
    ∃ a t, k.Fired s a t ∧ ∀ q, q ≠ .warp w → t.rest q = s.rest q := by
  obtain ⟨hit, -⟩ := hi.read_head hr
  by_cases hb : s.busy (.warp w) = true
  · exact ⟨_, _, .release hr hb, fun q hq ↦ rest_advance_of_ne hq⟩
  by_cases hdue : h.due s r (h.released s r w) = 0
  · refine ⟨_, _, .wait hr (by simpa using hb) ?_, fun _ _ ↦ rfl⟩
    rw [hi.consumer_eq w r]
    simpa [PipeState.after] using ((hi.ring r).passed_full_iff (h.stages_pos r) w).2
      ⟨(hi.lt_total_iff hit).2 hx, hdue⟩
  · rw [due_of_item h hit, outstanding_eq_zero_iff h fun c hc ↦ by
      obtain ⟨_, -, -, -, hp⟩ := hi.flight c hc; exact hp] at hdue
    push Not at hdue
    obtain ⟨c, hc, -⟩ := hdue
    exact ⟨_, _, .land hc, fun _ _ ↦ rfl⟩

/-- **No deadlock.** As long as some program is not over, some step is enabled. -/
theorem live (hi : h.Inv s) (hne : ∃ p, s.rest p ≠ []) : k.Live s := by
  obtain ⟨p₀, hp₀⟩ := hne
  -- the party furthest behind on the common order of sites
  obtain ⟨p, -, hmin⟩ := Finset.exists_min_image Finset.univ s.clock ⟨p₀, Finset.mem_univ _⟩
  replace hmin : ∀ q, s.clock p ≤ s.clock q := fun q ↦ hmin q (Finset.mem_univ q)
  cases hr : s.rest p with
  | nil =>
    have htop : s.clock p₀ = ⊤ := top_le_iff.1 (by simpa [State.clock, hr] using hmin p₀)
    cases hr₀ : s.rest p₀ with
    | nil => exact absurd hr₀ hp₀
    | cons i tl => simp [clock_of_head hr₀] at htop
  | cons i tl =>
    obtain ⟨x, op⟩ := i
    have hx : s.clock p = x := clock_of_head hr
    rw [hx] at hmin
    cases op with
    | load r =>
      obtain rfl := hi.producer_of_load hr
      exact ⟨_, _, .load hr (hi.ready_of_le hr fun w ↦ hmin _)⟩
    | read r =>
      obtain ⟨w, rfl⟩ := hi.warp_of_read hr
      rcases (hmin .producer).lt_or_eq with hlt | heq
      · obtain ⟨a, t, ht, -⟩ := hi.live_of_issued hr hlt
        exact ⟨a, t, ht⟩
      · -- the producer stands at the very load of this item
        obtain ⟨hit, -⟩ := hi.read_head hr
        have hm := List.mem_of_getElem? hit
        rw [← h.producer_loads, mem_sites] at hm
        obtain ⟨op, hop, hm⟩ := hm
        obtain ⟨tl', hr'⟩ := hi.head_of_clock ((hi.mem_rest_iff hm).2 heq.ge) heq.le
        cases op with
        | load q =>
          obtain rfl : q = r := by simpa [Op.isLoad] using hop
          exact ⟨_, _, .load hr' (hi.ready_of_le hr' fun w ↦ hmin _)⟩
        | _ => cases hop
    | sync b =>
      by_cases hb : s.busy p = true
      · -- parked: some member of the barrier has not arrived, and it stands right here
        obtain ⟨q, hq, hnq⟩ := hi.opening b ⟨p, hi.member_of_sync hr⟩
        have hxq : x ∈ sites (Op.isSync b) (s.rest q) := by
          rw [hi.aligned b q p hq (hi.member_of_sync hr), hr,
            sites_cons_of_pos _ _ (by simp [Op.isSync])]
          exact List.mem_cons_self
        obtain ⟨op, hop, hm⟩ := mem_sites.1 hxq
        obtain ⟨tl', hr'⟩ := hi.head_of_clock hm (hmin q)
        cases op with
        | sync c =>
          obtain rfl : c = b := by simpa [Op.isSync] using hop
          refine k.live_sync hr' ?_
          rw [← Bool.not_eq_true] at hnq ⊢
          exact fun hbq ↦ hnq (State.parked_iff.2 ⟨hbq, x, tl', hr'⟩)
        | _ => cases hop
      · exact k.live_sync hr (by simpa using hb)
    | act a => exact ⟨_, _, .act hr⟩
    | store => exact ⟨_, _, .store hr⟩
    | drain =>
      by_cases hs : ∃ y, (p, y) ∈ s.stores
      · obtain ⟨y, hy⟩ := hs
        exact ⟨_, _, .stored hy⟩
      · exact ⟨_, _, .drain hr fun y hy ↦ hs ⟨y, hy⟩⟩

theorem flight_eq_nil (hi : h.Inv s) [Nonempty W] (hend : ∀ w, s.rest (.warp w) = []) :
    s.flight = [] := by
  rw [List.eq_nil_iff_forall_not_mem]
  intro c hc
  obtain ⟨j, hj, hjx, -, hp⟩ := hi.flight c hc
  obtain ⟨w⟩ := ‹Nonempty W›
  have hrel : j < h.released s c.ring w := by
    rw [hi.lt_released_iff w hjx]
    simp [State.clock, hend w]
  exact (hi.released_le_of_flight hc hjx w).not_gt hrel

end Aligned.Inv

section Bound

/-- Steps one instruction of a program can still cause. -/
def Kernel.cost (k : Kernel L W R B A M σ) (i : Instr σ R B A) : ℕ :=
  match i.op with
  | .load r => 1 + k.parts r
  | .read _ | .sync _ | .store => 2
  | .act _ | .drain => 1

/-- Steps a party can still take, its own asynchronous work included. -/
def State.work (k : Kernel L W R B A M σ) (s : State L W R B A M σ) (p : Party L W) : ℕ :=
  ((s.rest p).map k.cost).sum - if s.busy p then 1 else 0

def State.potential (k : Kernel L W R B A M σ) (s : State L W R B A M σ) : ℕ :=
  ∑ p, s.work k p + s.flight.length + s.stores.length

variable {s t : State L W R B A M σ}

theorem State.sum_work (s : State L W R B A M σ) (p : Party L W) :
    ∑ q, s.work k q = s.work k p + ∑ q ∈ Finset.univ.erase p, s.work k q :=
  (Finset.add_sum_erase _ _ (Finset.mem_univ p)).symm

theorem State.work_advance {p : Party L W} {i : Instr σ R B A} {tl : List (Instr σ R B A)}
    (hr : s.rest p = i :: tl) :
    ∑ q, s.work k q + (if s.busy p then 1 else 0) = ∑ q, (s.advance p).work k q + k.cost i := by
  have hne : ∀ q ∈ Finset.univ.erase p, (s.advance p).work k q = s.work k q := by
    intro q hq
    simp [State.work, State.advance, Finset.ne_of_mem_erase hq]
  have hcost : 1 ≤ k.cost i := by
    unfold Kernel.cost
    split <;> omega
  have hp : s.work k p + (if s.busy p then 1 else 0) = (s.advance p).work k p + k.cost i := by
    cases hb : s.busy p <;>
      simp only [State.work, State.advance, update_self, hr, hb, List.map_cons, List.sum_cons,
        List.tail_cons, Bool.false_eq_true, if_false, if_true] <;> omega
  have hsum : ∑ q ∈ Finset.univ.erase p, (s.advance p).work k q = ∑ q ∈ Finset.univ.erase p,
      s.work k q :=
    Finset.sum_congr rfl hne
  have h1 := s.sum_work (k := k) p
  have h2 := (s.advance p).sum_work (k := k) p
  omega

theorem State.work_busy {p : Party L W} {i : Instr σ R B A} {tl : List (Instr σ R B A)}
    (hr : s.rest p = i :: tl) (hb : s.busy p = false) (hrest : t.rest = s.rest)
    (hbusy : t.busy = update s.busy p true) : ∑ q, s.work k q = ∑ q, t.work k q + 1 := by
  have hne : ∀ q ∈ Finset.univ.erase p, t.work k q = s.work k q := by
    intro q hq
    simp [State.work, hrest, hbusy, Finset.ne_of_mem_erase hq]
  have hcost : 1 ≤ k.cost i := by
    unfold Kernel.cost
    split <;> omega
  have hp : s.work k p = t.work k p + 1 := by
    simp only [State.work, hrest, hbusy, update_self, hr, hb, List.map_cons, List.sum_cons,
      Bool.false_eq_true, if_false, if_true]
    omega
  have hsum : ∑ q ∈ Finset.univ.erase p, t.work k q = ∑ q ∈ Finset.univ.erase p, s.work k q :=
    Finset.sum_congr rfl hne
  have h1 := s.sum_work (k := k) p
  have h2 := t.sum_work (k := k) p
  omega

theorem Aligned.Inv.not_busy {h : Aligned k} (hi : h.Inv s) {p : Party L W} {x : σ} {op : Op R B A}
    {tl : List (Instr σ R B A)} (hr : s.rest p = ⟨x, op⟩ :: tl) (hrd : ∀ r, op ≠ .read r)
    (hsy : ∀ b, op ≠ .sync b) : s.busy p = false := by
  rw [← Bool.not_eq_true]
  intro hb
  obtain ⟨y, op', tl', hr', hop⟩ := hi.busy_head _ hb
  rw [hr, List.cons.injEq, Instr.mk.injEq] at hr'
  obtain ⟨⟨-, rfl⟩, -⟩ := hr'
  rcases hop with ⟨r, rfl⟩ | ⟨b, rfl⟩
  · exact hrd r rfl
  · exact hsy b rfl

theorem Kernel.Fired.potential_lt {h : Aligned k} (hi : h.Inv s) {a : Action L W R σ}
    (ht : k.Fired s a t) : t.potential k < s.potential k := by
  cases ht with
  | @load r x tl hr hg =>
    have hb := hi.not_busy hr (by simp) (by simp)
    have hw := State.work_advance (k := k) hr
    have hfl : (s.load k r x).flight.length = s.flight.length + k.parts r := by simp [State.load]
    have hwork : ∀ q, (s.load k r x).work k q = (s.advance .producer).work k q := fun _ ↦ rfl
    have hst : (s.load k r x).stores = s.stores := rfl
    simp only [hb, Kernel.cost, Bool.false_eq_true, if_false] at hw
    simp only [State.potential, hfl, hwork, hst]
    omega
  | @wait r w x tl hr hb hg =>
    have hw :=
      State.work_busy (k := k) (t := { s with busy := update s.busy (.warp w) true }) hr hb rfl rfl
    simp only [State.potential]
    omega
  | @release r w x tl hr hb =>
    have hw := State.work_advance (k := k) hr
    have hwork : ∀ q, (s.release k w r).work k q = (s.advance (.warp w)).work k q := fun _ ↦ rfl
    have hfl : (s.release k w r).flight = s.flight := rfl
    have hst : (s.release k w r).stores = s.stores := rfl
    simp only [hb, Kernel.cost, if_true] at hw
    simp only [State.potential, hfl, hwork, hst]
    omega
  | @park b p x tl hr hb hc =>
    have hw := State.work_busy (k := k) (t := s.park k b p) hr hb rfl rfl
    have hfl : (s.park k b p).flight = s.flight := rfl
    have hst : (s.park k b p).stores = s.stores := rfl
    simp only [State.potential, hfl, hst]
    omega
  | @openBarrier b p x tl hr hb hc =>
    have hle : ∀ q, (s.openBarrier b p).work k q ≤ s.work k q := by
      intro q
      by_cases hq : q = p ∨ s.parked b q = true
      · obtain ⟨y, tl', hy⟩ : ∃ y tl', s.rest q = ⟨y, .sync b⟩ :: tl' := by
          rcases hq with rfl | hq
          · exact ⟨x, tl, hr⟩
          · exact (State.parked_iff.1 hq).2
        simp only [State.work, State.openBarrier, hq, if_true, hy, List.tail_cons, List.map_cons,
          List.sum_cons, Kernel.cost, Bool.false_eq_true, if_false]
        split_ifs <;> omega
      · simp only [State.work, State.openBarrier, if_neg hq, le_refl]
    have hlt : (s.openBarrier b p).work k p < s.work k p := by
      simp [State.work, State.openBarrier, hr, hb, Kernel.cost]
    have hsum := Finset.sum_lt_sum (fun q _ ↦ hle q) ⟨p, Finset.mem_univ p, hlt⟩
    have hfl : (s.openBarrier b p).flight = s.flight := rfl
    have hst : (s.openBarrier b p).stores = s.stores := rfl
    simp only [State.potential, hfl, hst]
    omega
  | @act a p x tl hr =>
    have hb := hi.not_busy hr (by simp) (by simp)
    have hw := State.work_advance (k := k) hr
    simp only [hb, Kernel.cost, Bool.false_eq_true, if_false] at hw
    change ∑ q, (s.advance p).work k q + s.flight.length + s.stores.length < _
    simp only [State.potential]
    omega
  | @store p x tl hr =>
    have hb := hi.not_busy hr (by simp) (by simp)
    have hw := State.work_advance (k := k) hr
    simp only [hb, Kernel.cost, Bool.false_eq_true, if_false] at hw
    change ∑ q, (s.advance p).work k q + s.flight.length + (s.stores.length + 1) < _
    simp only [State.potential]
    omega
  | @drain p x tl hr hs =>
    have hb := hi.not_busy hr (by simp) (by simp)
    have hw := State.work_advance (k := k) hr
    simp only [hb, Kernel.cost, Bool.false_eq_true, if_false] at hw
    change ∑ q, (s.advance p).work k q + s.flight.length + s.stores.length < _
    simp only [State.potential]
    omega
  | @land c hc =>
    have hlen := List.length_erase_of_mem hc
    have hpos := List.length_pos_of_mem hc
    change ∑ q, s.work k q + (s.flight.erase c).length + s.stores.length < _
    simp only [State.potential]
    omega
  | @stored p x hs =>
    have hlen := List.length_erase_of_mem hs
    have hpos := List.length_pos_of_mem hs
    change ∑ q, s.work k q + s.flight.length + (s.stores.erase (p, x)).length < _
    simp only [State.potential]
    omega

/-- **Every run is finite**: its length is bounded by the programs alone. -/
theorem Kernel.run_length_le [Nonempty W] (h : Aligned k) {as : List (Action L W R σ)}
    (hr : k.run k.init as = some s) : as.length ≤ ∑ p, ((k.program p).map k.cost).sum := by
  have hgen : ∀ (as : List (Action L W R σ)) (u : State L W R B A M σ), h.Inv u →
      k.run u as = some s → as.length + s.potential k ≤ u.potential k := by
    intro as
    induction as with
    | nil =>
      intro u hu hr
      cases hr
      simp
    | cons a as ih =>
      intro u hu hr
      simp only [run, Option.bind_eq_some_iff] at hr
      obtain ⟨v, hv, hr⟩ := hr
      have hf := k.fired_of_fire hv
      have h1 := ih v (hu.step hf) hr
      have h2 := hf.potential_lt hu
      rw [List.length_cons]
      omega
  have hinit : k.init.potential k = ∑ p, ((k.program p).map k.cost).sum := by
    simp [State.potential, State.work, init]
  have := hgen as _ (Aligned.Inv.init h) hr
  omega

end Bound

end Sm120.Lib
