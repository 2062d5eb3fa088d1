import Sm120.Lib.Schedule

set_option linter.unusedSectionVars false

namespace Sm120.Lib

open Function

variable {L W R B A M σ : Type} [DecidableEq L] [DecidableEq W] [DecidableEq R] [DecidableEq B]
variable [Fintype L] [Fintype W] [LinearOrder σ] {k : Kernel L W R B A M σ}

/-- What holds in every reachable state of an aligned kernel. -/
structure Aligned.Inv (h : Aligned k) (s : State L W R B A M σ) : Prop where
  suffix : ∀ p, s.rest p <:+ k.program p
  total_le : ∀ r, s.total r ≤ (h.items r).length
  loads_eq : ∀ r, sites (Op.isLoad r) (s.rest .producer) = (h.items r).drop (s.total r)
  producer_eq : ∀ r, s.producer r = PipeState.after (k.stages r) (k.start r).phase (s.total r)
  consumer_eq : ∀ w r, s.consumer w r = PipeState.after (k.stages r) false (h.released s r w)
  ring : ∀ r, RingInv (k.stages r) k.threads (s.ring r) (s.total r) (h.due s r) (h.released s r)
  flight : ∀ c ∈ s.flight, ∃ j < s.total c.ring, (h.items c.ring)[j]? = some c.site ∧
    c.slot = j % k.stages c.ring ∧ c.part < k.parts c.ring
  reading : ∀ w r x tl, s.busy (.warp w) = true → s.rest (.warp w) = ⟨x, .read r⟩ :: tl →
    h.released s r w < s.total r ∧ h.due s r (h.released s r w) = 0
  busy_head : ∀ p, s.busy p = true → ∃ x op tl, s.rest p = ⟨x, op⟩ :: tl ∧
    ((∃ r, op = .read r) ∨ ∃ b, op = .sync b)
  aligned : ∀ b p q, k.member b p = true → k.member b q = true →
    sites (Op.isSync b) (s.rest p) = sites (Op.isSync b) (s.rest q)
  arrived_eq : ∀ b, s.arrived b = ∑ p with s.parked b p = true, k.threadsOf p
  opening : ∀ b, (∃ p, k.member b p = true) → ∃ p, k.member b p = true ∧ s.parked b p = false

theorem Kernel.threadsOf_pos (h : Aligned k) (p : Party L W) : 0 < k.threadsOf p := by
  cases p <;> simp [threadsOf, h.threads_pos]

namespace Aligned

variable (h : Aligned k)

theorem items_sorted (r : R) : (h.items r).Pairwise (· < ·) := by
  rw [← h.producer_loads r]
  exact List.pairwise_map.2 ((h.sorted .producer).filter _)

theorem items_inj {r : R} {i j : ℕ} {x : σ} (hi : (h.items r)[i]? = some x)
    (hj : (h.items r)[j]? = some x) : i = j :=
  (List.getElem?_inj (List.getElem?_eq_some_iff.1 hi).1 ((h.items_sorted r).imp ne_of_lt)).1
    (hi.trans hj.symm)

theorem items_lt_iff {r : R} {i j : ℕ} {x y : σ} (hi : (h.items r)[i]? = some x)
    (hj : (h.items r)[j]? = some y) : i < j ↔ x < y := by
  have hsorted := List.pairwise_iff_getElem.1 (h.items_sorted r)
  obtain ⟨hi', rfl⟩ := List.getElem?_eq_some_iff.1 hi
  obtain ⟨hj', rfl⟩ := List.getElem?_eq_some_iff.1 hj
  refine ⟨fun hlt ↦ hsorted i j hi' hj' hlt, fun hlt ↦ ?_⟩
  by_contra hle
  rcases (Nat.not_lt.1 hle).lt_or_eq with hlt' | rfl
  · exact hlt.not_gt (hsorted j i hj' hi' hlt')
  · exact lt_irrefl _ hlt

end Aligned

theorem RingInv.ready_iff {S k n : ℕ} {r : Ring} {due : ℕ → ℕ} {rel : W → ℕ}
    (h : RingInv S k r n due rel) (hS : 0 < S) (st : Start) :
    st.ready S n (PipeState.after S st.phase n) r = true ↔ ∀ w, n < rel w + S := by
  cases st with
  | ahead => simpa [Start.ready, Start.phase, PipeState.after] using h.passed_empty_iff hS
  | counted =>
    have hp := h.passed_empty_iff hS
    simp only [Start.ready, Start.phase, PipeState.after, Bool.false_xor, Bool.or_eq_true,
      decide_eq_true_eq, hp]
    exact ⟨fun hc ↦ hc.elim (fun hn w ↦ by omega) id, .inr⟩

section Outstanding

variable {s t : State L W R B A M σ} {r : R} {x : σ}

theorem due_of_item (h : Aligned k) {j : ℕ} (hj : (h.items r)[j]? = some x) :
    h.due s r j = s.outstanding k r x := by
  simp [Aligned.due, hj]

theorem outstanding_load (s : State L W R B A M σ) (r q : R) (x y : σ) :
    (s.load k r x).outstanding k q y =
      s.outstanding k q y + if q = r ∧ y = x then ((List.range (k.parts r)).map (k.bytes r x)).sum
      else 0 := by
  simp only [State.outstanding, State.load, List.filter_append, List.map_append, List.sum_append,
    Nat.add_left_cancel_iff, List.filter_map, List.map_map]
  split_ifs with hc
  · obtain ⟨rfl, rfl⟩ := hc
    congr 1
    rw [List.filter_eq_self.2 (by simp)]
    rfl
  · rw [List.filter_eq_nil_iff.2]
    · rfl
    · intro j _ hj
      simp only [comp_apply, decide_eq_true_eq] at hj
      exact hc ⟨hj.1.symm, hj.2.symm⟩

/-- Landing one copy takes its bytes off its own item and off no other. -/
theorem outstanding_land {c : Copy R σ} (hc : c ∈ s.flight) (hf : t.flight = s.flight.erase c) :
    s.outstanding k r x =
      (if c.ring = r ∧ c.site = x then k.bytes c.ring c.site c.part
        else 0) + t.outstanding k r x := by
  have hp := (List.perm_cons_erase hc).filter fun c ↦ c.ring = r ∧ c.site = x
  have hs := (hp.map fun c ↦ k.bytes c.ring c.site c.part).sum_eq
  simp only [State.outstanding, hf, hs, List.filter_cons, decide_eq_true_eq]
  split_ifs <;> simp

theorem outstanding_eq_zero_iff (h : Aligned k) (hfl : ∀ c ∈ s.flight, c.part < k.parts c.ring) :
    s.outstanding k r x = 0 ↔ ∀ c ∈ s.flight, ¬ (c.ring = r ∧ c.site = x) := by
  simp only [State.outstanding, List.sum_eq_zero_iff, List.mem_map, List.mem_filter]
  constructor
  · intro h0 c hc hcx
    have hb := h.bytes_pos c.ring c.site c.part (hfl c hc)
    have := h0 _ ⟨c, ⟨hc, by simpa using hcx⟩, rfl⟩
    omega
  · rintro h0 _ ⟨c, ⟨hc, hcx⟩, rfl⟩
    exact absurd (by simpa using hcx) (h0 c hc)

end Outstanding

namespace Aligned.Inv

variable {h : Aligned k} {s : State L W R B A M σ}

theorem sites_sorted (hi : h.Inv s) (p : Party L W) :
    (s.rest p).Pairwise fun i j ↦ i.site < j.site :=
  (h.sorted p).sublist (hi.suffix p).sublist

theorem reads_eq (hi : h.Inv s) (r : R) (w : W) :
    sites (Op.isRead r) (s.rest (.warp w)) = (h.items r).drop (h.released s r w) := by
  have := List.suffix_iff_eq_drop.1 (sites_suffix (Op.isRead r) (hi.suffix (.warp w)))
  rwa [h.warp_reads] at this

theorem load_head (hi : h.Inv s) {r : R} {x : σ} {tl : List (Instr σ R B A)}
    (hr : s.rest .producer = ⟨x, .load r⟩ :: tl) :
    (h.items r)[s.total r]? = some x ∧ sites (Op.isLoad r) tl =
      (h.items r).drop (s.total r + 1) := by
  have := hi.loads_eq r
  rw [hr, sites_cons_of_pos _ _ (by simp [Op.isLoad]), eq_comm, drop_cons_iff] at this
  exact ⟨this.1, this.2.symm⟩

theorem read_head (hi : h.Inv s) {r : R} {w : W} {x : σ} {tl : List (Instr σ R B A)}
    (hr : s.rest (.warp w) = ⟨x, .read r⟩ :: tl) :
    (h.items r)[h.released s r w]? = some x ∧
      sites (Op.isRead r) tl = (h.items r).drop (h.released s r w + 1) := by
  have := hi.reads_eq r w
  rw [hr, sites_cons_of_pos _ _ (by simp [Op.isRead]), eq_comm, drop_cons_iff] at this
  exact ⟨this.1, this.2.symm⟩

theorem warp_of_read (hi : h.Inv s) {r : R} {p : Party L W} {x : σ} {tl : List (Instr σ R B A)}
    (hr : s.rest p = ⟨x, .read r⟩ :: tl) : ∃ w, p = .warp w := by
  by_contra hne
  have h1 := sites_suffix (Op.isRead r) (hi.suffix p)
  rw [h.other_reads r p (fun w hw ↦ hne ⟨w, hw⟩), hr,
    sites_cons_of_pos _ _ (by simp [Op.isRead])] at h1
  simpa using h1.length_le

theorem producer_of_load (hi : h.Inv s) {r : R} {p : Party L W} {x : σ} {tl : List (Instr σ R B A)}
    (hr : s.rest p = ⟨x, .load r⟩ :: tl) : p = .producer := by
  by_contra hne
  have h1 := sites_suffix (Op.isLoad r) (hi.suffix p)
  rw [h.other_loads r p hne, hr, sites_cons_of_pos _ _ (by simp [Op.isLoad])] at h1
  simpa using h1.length_le

theorem member_of_sync (hi : h.Inv s) {b : B} {p : Party L W} {x : σ} {tl : List (Instr σ R B A)}
    (hr : s.rest p = ⟨x, .sync b⟩ :: tl) : k.member b p = true := by
  by_contra hne
  have h1 := sites_suffix (Op.isSync b) (hi.suffix p)
  rw [h.other_syncs b p (by simpa using hne), hr, sites_cons_of_pos _ _ (by simp [Op.isSync])] at h1
  simpa using h1.length_le

end Aligned.Inv

theorem State.parked_iff {s : State L W R B A M σ} {b : B} {p : Party L W} :
    s.parked b p = true ↔ s.busy p = true ∧ ∃ x tl, s.rest p = ⟨x, .sync b⟩ :: tl := by
  unfold parked
  cases hr : s.rest p with
  | nil => simp
  | cons i tl =>
    obtain ⟨x, op⟩ := i
    cases op <;> simp


section Advance

variable {s : State L W R B A M σ} {p : Party L W} {x : σ} {op : Op R B A}
    {tl : List (Instr σ R B A)}

theorem rest_advance_self (hr : s.rest p = ⟨x, op⟩ :: tl) : (s.advance p).rest p = tl := by
  simp [State.advance, hr]

theorem rest_advance_of_ne {q : Party L W} (hq : q ≠ p) : (s.advance p).rest q = s.rest q := by
  simp [State.advance, hq]

theorem rest_load (k : Kernel L W R B A M σ) (s : State L W R B A M σ) (r : R) (x : σ) :
    (s.load k r x).rest = (s.advance .producer).rest := rfl

theorem rest_release (k : Kernel L W R B A M σ) (s : State L W R B A M σ) (w : W) (r : R) :
    (s.release k w r).rest = (s.advance (.warp w)).rest := rfl

theorem suffix_advance (hs : ∀ q, s.rest q <:+ k.program q) (q : Party L W) :
    (s.advance p).rest q <:+ k.program q := by
  by_cases hq : q = p
  · subst hq
    simpa [State.advance] using (List.tail_suffix _).trans (hs q)
  · rw [rest_advance_of_ne hq]
    exact hs q

theorem sites_advance {f : Op R B A → Bool} (hr : s.rest p = ⟨x, op⟩ :: tl) (hf : f op = false)
    (q : Party L W) : sites f ((s.advance p).rest q) = sites f (s.rest q) := by
  by_cases hq : q = p
  · subst hq
    rw [rest_advance_self hr, hr, sites_cons_of_neg _ _ hf]
  · rw [rest_advance_of_ne hq]

theorem parked_advance {b : B} (hp : s.parked b p = false) (q : Party L W) :
    (s.advance p).parked b q = s.parked b q := by
  by_cases hq : q = p
  · subst hq
    rw [hp]
    simp [State.parked, State.advance]
  · simp [State.parked, State.advance, hq]

theorem not_parked_of_head {b : B} (hr : s.rest p = ⟨x, op⟩ :: tl) (hop : Op.isSync b op = false) :
    s.parked b p = false := by
  rw [← Bool.not_eq_true, State.parked_iff]
  rintro ⟨-, y, tl', hr'⟩
  rw [hr, List.cons.injEq, Instr.mk.injEq] at hr'
  simp [Op.isSync, hr'.1.2] at hop

end Advance

namespace Aligned.Inv

variable {h : Aligned k} {s : State L W R B A M σ}

theorem init [Nonempty W] (h : Aligned k) : h.Inv k.init where
  suffix _ := List.suffix_rfl
  total_le _ := Nat.zero_le _
  loads_eq r := by simpa [Kernel.init] using h.producer_loads r
  producer_eq r := by simp [Kernel.init]
  consumer_eq w r := by simp [Kernel.init, Aligned.released, h.warp_reads]
  ring r := by
    have hrel : h.released k.init r = fun _ ↦ 0 := by
      funext w
      simp [Kernel.init, Aligned.released, h.warp_reads]
    rw [hrel]
    simpa [Kernel.init, h.emptyCount_eq] using RingInv.init
  flight c hc := absurd hc (List.not_mem_nil)
  reading _ _ _ _ hb := absurd hb (by simp [Kernel.init])
  busy_head _ hb := absurd hb (by simp [Kernel.init])
  aligned b p q hp hq := (h.member_syncs b p hp).trans (h.member_syncs b q hq).symm
  arrived_eq b := by simp [Kernel.init, State.parked]
  opening b := fun ⟨p, hp⟩ ↦ ⟨p, hp, by simp [Kernel.init, State.parked]⟩

theorem frame (hi : h.Inv s) (st : List (Party L W × σ)) (m : M) :
    h.Inv { s with stores := st, memory := m } :=
  ⟨hi.suffix, hi.total_le, hi.loads_eq, hi.producer_eq, hi.consumer_eq, hi.ring, hi.flight,
    hi.reading, hi.busy_head, hi.aligned, hi.arrived_eq, hi.opening⟩

theorem advance (hi : h.Inv s) {p : Party L W} {x : σ} {op : Op R B A} {tl : List (Instr σ R B A)}
    (hr : s.rest p = ⟨x, op⟩ :: tl) (hl : ∀ r, Op.isLoad r op = false)
    (hrd : ∀ r, Op.isRead r op = false) (hsy : ∀ b, Op.isSync b op = false) :
    h.Inv (s.advance p) := by
  have hrel : ∀ r, h.released (s.advance p) r = h.released s r := by
    intro r
    funext w
    simp only [Aligned.released, sites_advance hr (hrd r)]
  have hpark : ∀ b q, (s.advance p).parked b q = s.parked b q :=
    fun b ↦ parked_advance (not_parked_of_head hr (hsy b))
  refine ⟨suffix_advance hi.suffix, hi.total_le, ?_, hi.producer_eq, ?_, ?_, hi.flight, ?_,
    ?_, ?_, ?_, ?_⟩
  · intro r
    rw [sites_advance hr (hl r)]
    exact hi.loads_eq r
  · intro w r
    rw [hrel]
    exact hi.consumer_eq w r
  · intro r
    rw [hrel]
    exact hi.ring r
  · intro w r y tl' hb hr'
    rw [hrel]
    by_cases hw : .warp w = p
    · subst hw
      simp [State.advance] at hb
    · rw [rest_advance_of_ne hw] at hr'
      exact hi.reading w r y tl' (by simpa [State.advance, hw] using hb) hr'
  · intro q hb
    by_cases hq : q = p
    · subst hq
      simp [State.advance] at hb
    · rw [rest_advance_of_ne hq]
      exact hi.busy_head q (by simpa [State.advance, hq] using hb)
  · intro b q q' hq hq'
    rw [sites_advance hr (hsy b), sites_advance hr (hsy b)]
    exact hi.aligned b q q' hq hq'
  · intro b
    simp only [hpark]
    exact hi.arrived_eq b
  · intro b hb
    simp only [hpark]
    exact hi.opening b hb

theorem load [Nonempty W] (hi : h.Inv s) {r : R} {x : σ} {tl : List (Instr σ R B A)}
    (hr : s.rest .producer = ⟨x, .load r⟩ :: tl)
    (hg : (k.start r).ready (k.stages r) (s.total r) (s.producer r) (s.ring r) = true) :
    h.Inv (s.load k r x) := by
  obtain ⟨hx, htl⟩ := hi.load_head hr
  have hlt : s.total r < (h.items r).length := (List.getElem?_eq_some_iff.1 hx).1
  have hpark : ∀ b q, (s.load k r x).parked b q = s.parked b q :=
    fun b ↦ parked_advance (not_parked_of_head hr rfl)
  have hrel : ∀ q, h.released (s.load k r x) q = h.released s q := by
    intro q
    funext w
    rw [Aligned.released, rest_load, sites_advance hr rfl, Aligned.released]
  have hdue : ∀ q j, j < s.total q → h.due (s.load k r x) q j = h.due s q j := by
    intro q j hj
    obtain ⟨y, hy⟩ : ∃ y, (h.items q)[j]? = some y :=
      ⟨_, List.getElem?_eq_getElem (hj.trans_le (hi.total_le q))⟩
    rw [due_of_item h hy, due_of_item h hy, outstanding_load, if_neg, Nat.add_zero]
    rintro ⟨rfl, rfl⟩
    exact hj.ne (h.items_inj hy hx)
  have hnew : h.due (s.load k r x) r (s.total r) = k.expect r x := by
    have h0 : s.outstanding k r x = 0 := by
      rw [outstanding_eq_zero_iff h
        fun c hc ↦ by obtain ⟨j, -, -, -, hp⟩ := hi.flight c hc; exact hp]
      rintro c hc ⟨rfl, rfl⟩
      obtain ⟨j, hj, hjx, -⟩ := hi.flight c hc
      exact hj.ne (h.items_inj hjx hx)
    rw [due_of_item h hx, outstanding_load, h0, if_pos ⟨rfl, rfl⟩, Nat.zero_add, h.expect_eq]
  have hexp : 0 < k.expect r x := by
    rw [h.expect_eq]
    have hp := h.parts_pos r
    exact (h.bytes_pos r x 0 hp).trans_le
      (List.single_le_sum (by simp) _ (List.mem_map.2 ⟨0, List.mem_range.2 hp, rfl⟩))
  refine ⟨suffix_advance hi.suffix, ?_, ?_, ?_, ?_, ?_, ?_, ?_, ?_, ?_, ?_, ?_⟩
  · intro q
    rcases eq_or_ne q r with rfl | hq
    · simpa [State.load] using hlt
    · simpa [State.load, hq] using hi.total_le q
  · intro q
    rcases eq_or_ne q r with rfl | hq
    · have : (s.load k q x).rest .producer = tl := rest_advance_self hr
      rw [this, htl]
      simp [State.load]
    · have hf : Op.isLoad q (Op.load r : Op R B A) = false := by simp [Op.isLoad, hq.symm]
      rw [rest_load, sites_advance hr hf, hi.loads_eq q]
      simp [State.load, hq]
  · intro q
    rcases eq_or_ne q r with rfl | hq
    · simp only [State.load, update_self, hi.producer_eq q]
      exact PipeState.next_after (h.stages_pos q) _ _
    · simpa [State.load, hq] using hi.producer_eq q
  · intro w q
    rw [hrel]
    exact hi.consumer_eq w q
  · intro q
    rw [hrel]
    rcases eq_or_ne q r with rfl | hq
    · have hready := ((hi.ring q).ready_iff (h.stages_pos q) (k.start q)).1 (hi.producer_eq q ▸ hg)
      have hring : (s.load k q x).ring q = (s.ring q).acquire (s.total q % k.stages q)
          (k.expect q x) := by
        simp [State.load, hi.producer_eq q, PipeState.after]
      have htot : (s.load k q x).total q = s.total q + 1 := by simp [State.load]
      rw [hring, htot]
      exact (hi.ring q).acquire (h.stages_pos q) hready hexp hnew (hdue q)
    · have hd : h.due (s.load k r x) q = h.due s q := by
        funext j
        cases hj : (h.items q)[j]? <;> simp [Aligned.due, hj, outstanding_load, hq]
      have hring : (s.load k r x).ring q = s.ring q := by simp [State.load, hq]
      have htot : (s.load k r x).total q = s.total q := by simp [State.load, hq]
      rw [hd, hring, htot]
      exact hi.ring q
  · intro c hc
    simp only [State.load, List.mem_append, List.mem_map, List.mem_range] at hc
    rcases hc with hc | ⟨j, hj, rfl⟩
    · obtain ⟨j, hj, hjx⟩ := hi.flight c hc
      refine ⟨j, hj.trans_le ?_, hjx⟩
      rcases eq_or_ne c.ring r with hq | hq
      · simp [State.load, hq]
      · simp [State.load, hq]
    · exact ⟨s.total r, by simp [State.load], hx, by simp [hi.producer_eq r, PipeState.after], hj⟩
  · intro w q y tl' hb hr'
    obtain ⟨h1, h2⟩ := hi.reading w q y tl' (by simpa [State.load, State.advance] using hb)
      (by simpa [State.load, State.advance] using hr')
    rw [hrel]
    refine ⟨h1.trans_le ?_, (hdue q _ h1).trans h2⟩
    rcases eq_or_ne q r with hq | hq
    · simp [State.load, hq]
    · simp [State.load, hq]
  · intro p hb
    by_cases hp : p = .producer
    · subst hp
      simp [State.load, State.advance] at hb
    · simpa [State.load, State.advance, hp] using
        hi.busy_head p (by simpa [State.load, State.advance, hp] using hb)
  · intro b p q hp hq
    have : ∀ p, sites (Op.isSync b) ((s.load k r x).rest p) = sites (Op.isSync b) (s.rest p) :=
      sites_advance hr rfl
    rw [this, this]
    exact hi.aligned b p q hp hq
  · intro b
    simp only [hpark]
    exact hi.arrived_eq b
  · intro b hb
    simp only [hpark]
    exact hi.opening b hb

theorem wait (hi : h.Inv s) {r : R} {w : W} {x : σ} {tl : List (Instr σ R B A)}
    (hr : s.rest (.warp w) = ⟨x, .read r⟩ :: tl)
    (hg : ((s.ring r).full (s.consumer w r).index).passed (s.consumer w r).phase = true) :
    h.Inv { s with busy := update s.busy (.warp w) true } := by
  have hland : h.released s r w < s.total r ∧ h.due s r (h.released s r w) = 0 := by
    rw [hi.consumer_eq w r] at hg
    simpa [PipeState.after] using ((hi.ring r).passed_full_iff (h.stages_pos r) w).1
      (by simpa [PipeState.after] using hg)
  have hpark :
      ∀ b q, ({ s with busy := update s.busy (.warp w) true } : State L W R B A M σ).parked b q =
      s.parked b q := by
    intro b q
    by_cases hq : q = .warp w
    · subst hq
      rw [not_parked_of_head hr rfl]
      simp [State.parked, hr]
    · simp [State.parked, hq]
  refine ⟨hi.suffix, hi.total_le, hi.loads_eq, hi.producer_eq, hi.consumer_eq, hi.ring, hi.flight,
    ?_, ?_, hi.aligned, ?_, ?_⟩
  · intro v q y tl' hb hr'
    by_cases hv : v = w
    · subst hv
      simp only [hr, List.cons.injEq, Instr.mk.injEq, Op.read.injEq] at hr'
      obtain ⟨⟨-, rfl⟩, -⟩ := hr'
      exact hland
    · exact hi.reading v q y tl' (by simpa [hv] using hb) hr'
  · intro p hb
    by_cases hp : p = .warp w
    · subst hp
      exact ⟨x, _, tl, hr, .inl ⟨r, rfl⟩⟩
    · exact hi.busy_head p (by simpa [hp] using hb)
  · intro b
    simp only [hpark]
    exact hi.arrived_eq b
  · intro b hb
    simp only [hpark]
    exact hi.opening b hb

theorem release [Nonempty W] (hi : h.Inv s) {r : R} {w : W} {x : σ} {tl : List (Instr σ R B A)}
    (hr : s.rest (.warp w) = ⟨x, .read r⟩ :: tl) (hb : s.busy (.warp w) = true) :
    h.Inv (s.release k w r) := by
  obtain ⟨hx, htl⟩ := hi.read_head hr
  obtain ⟨hlt, hdue⟩ := hi.reading w r x tl hb hr
  have hpark : ∀ b q, (s.release k w r).parked b q = s.parked b q :=
    fun b ↦ parked_advance (not_parked_of_head hr rfl)
  have hrel : ∀ q v, h.released (s.release k w r) q v =
      if q = r ∧ v = w then h.released s r w + 1 else h.released s q v := by
    intro q v
    have hrest : (s.release k w r).rest (.warp w) = tl := rest_advance_self hr
    split_ifs with hc
    · obtain ⟨rfl, rfl⟩ := hc
      have hlen : h.released s q v < (h.items q).length := (List.getElem?_eq_some_iff.1 hx).1
      rw [Aligned.released, hrest, htl, List.length_drop]
      omega
    · by_cases hv : v = w
      · subst hv
        have hq : q ≠ r := fun hq ↦ hc ⟨hq, rfl⟩
        exact congrArg _ (congrArg _ (sites_advance hr (by simp [Op.isRead, hq.symm]) _))
      · exact congrArg _ (congrArg _ (congrArg _ (rest_advance_of_ne (by simpa using hv))))
  have hrelr : h.released (s.release k w r) r =
      update (h.released s r) w (h.released s r w + 1) := by
    funext v
    by_cases hv : v = w
    · subst hv
      simp [hrel]
    · simp [hrel, hv]
  have hrelq : ∀ q, q ≠ r → h.released (s.release k w r) q = h.released s q := by
    intro q hq
    funext v
    simp [hrel, hq]
  refine ⟨suffix_advance hi.suffix, hi.total_le, ?_, hi.producer_eq, ?_, ?_, hi.flight, ?_,
    ?_, ?_, ?_, ?_⟩
  · intro q
    rw [rest_release, sites_advance hr rfl]
    exact hi.loads_eq q
  · intro v q
    rw [hrel]
    by_cases hv : v = w
    · subst hv
      by_cases hq : q = r
      · subst hq
        simp only [State.release, update_self, hi.consumer_eq v q, and_self, if_true]
        exact PipeState.next_after (h.stages_pos q) _ _
      · simpa [State.release, hq] using hi.consumer_eq v q
    · simpa [State.release, hv] using hi.consumer_eq v q
  · intro q
    by_cases hq : q = r
    · subst hq
      have hring : (s.release k w q).ring q =
          (s.ring q).release (k.threads * Fintype.card W) k.threads
            (h.released s q w % k.stages q) := by
        simp [State.release, hi.consumer_eq w q, PipeState.after, h.emptyCount_eq]
      rw [hrelr, hring]
      exact (hi.ring q).release (h.stages_pos q) h.threads_pos hlt hdue
    · have hring : (s.release k w r).ring q = s.ring q := by simp [State.release, hq]
      rw [hrelq q hq, hring]
      exact hi.ring q
  · intro v q y tl' hb' hr'
    have hv : (Party.warp v : Party L W) ≠ .warp w := by
      rintro hv
      simp [State.release, State.advance, hv] at hb'
    have hvw : v ≠ w := fun he ↦ hv (he ▸ rfl)
    rw [hrel, if_neg (fun hc ↦ hvw hc.2)]
    refine hi.reading v q y tl' (by simpa [State.release, State.advance, hvw] using hb') ?_
    simpa [State.release, State.advance, hvw] using hr'
  · intro p hb'
    by_cases hp : p = .warp w
    · subst hp
      simp [State.release, State.advance] at hb'
    · simpa [State.release, State.advance, hp] using
        hi.busy_head p (by simpa [State.release, State.advance, hp] using hb')
  · intro b p q hp hq
    have : ∀ p, sites (Op.isSync b) ((s.release k w r).rest p) = sites (Op.isSync b) (s.rest p) :=
      sites_advance hr rfl
    rw [this, this]
    exact hi.aligned b p q hp hq
  · intro b
    simp only [hpark]
    exact hi.arrived_eq b
  · intro b hb
    simp only [hpark]
    exact hi.opening b hb

theorem land [Nonempty W] (hi : h.Inv s) {c : Copy R σ} (hc : c ∈ s.flight) (m : M) :
    h.Inv { s with
      flight := s.flight.erase c
      ring := update s.ring c.ring ((s.ring c.ring).land c.slot (k.bytes c.ring c.site c.part))
      memory := m } := by
  obtain ⟨j, hj, hjx, hslot, hpart⟩ := hi.flight c hc
  set t : State L W R B A M σ := { s with
    flight := s.flight.erase c
    ring := update s.ring c.ring ((s.ring c.ring).land c.slot (k.bytes c.ring c.site c.part))
    memory := m } with ht
  have hout : ∀ q y, s.outstanding k q y =
      (if c.ring = q ∧ c.site = y then k.bytes c.ring c.site c.part else 0) + t.outstanding k q y :=
    fun q y ↦ outstanding_land hc rfl
  have hother : ∀ q i, ¬ (c.ring = q ∧ i = j) → h.due t q i = h.due s q i := by
    intro q i hne
    cases hy : (h.items q)[i]? with
    | none => simp [Aligned.due, hy]
    | some y =>
      rw [due_of_item h hy, due_of_item h hy, hout q y, if_neg, Nat.zero_add]
      rintro ⟨rfl, rfl⟩
      exact hne ⟨rfl, h.items_inj hy hjx⟩
  have hself : h.due s c.ring j = k.bytes c.ring c.site c.part + h.due t c.ring j := by
    rw [due_of_item h hjx, due_of_item h hjx, hout, if_pos ⟨rfl, rfl⟩]
  have hbytes := h.bytes_pos c.ring c.site c.part hpart
  refine ⟨hi.suffix, hi.total_le, hi.loads_eq, hi.producer_eq, hi.consumer_eq, ?_, ?_, ?_,
    hi.busy_head, hi.aligned, hi.arrived_eq, hi.opening⟩
  · intro q
    by_cases hq : c.ring = q
    · subst hq
      have hring : t.ring c.ring =
          (s.ring c.ring).land (j % k.stages c.ring) (k.bytes c.ring c.site c.part) := by
            simp [ht, hslot]
      rw [hring]
      exact (hi.ring c.ring).land (h.stages_pos _) hj hbytes (by omega) (by omega)
        (fun i hi ↦ hother _ i fun hc ↦ hi hc.2)
    · have hd : h.due t q = h.due s q := funext fun i ↦ hother q i fun hc ↦ hq hc.1
      have hring : t.ring q = s.ring q := by simp [ht, Ne.symm hq]
      rw [hd, hring]
      exact hi.ring q
  · exact fun d hd ↦ hi.flight d (List.mem_of_mem_erase hd)
  · intro w q y tl hb hr
    obtain ⟨h1, h2⟩ := hi.reading w q y tl hb hr
    refine ⟨h1, ?_⟩
    rw [hother q _ ?_]
    · exact h2
    · rintro ⟨rfl, hjr⟩
      have : h.due s c.ring j = 0 := hjr ▸ h2
      omega

theorem parked_member (hi : h.Inv s) {b : B} {p : Party L W} (hp : s.parked b p = true) :
    k.member b p = true := by
  obtain ⟨-, x, tl, hr⟩ := State.parked_iff.1 hp
  exact hi.member_of_sync hr

/-- The threads that have arrived once `p` joins, against those the barrier waits for. -/
theorem arrived_add (hi : h.Inv s) {b : B} {p : Party L W} (hb : s.busy p = false) :
    s.arrived b + k.threadsOf p = ∑ q with s.parked b q = true ∨ q = p, k.threadsOf q := by
  have hnp : p ∉ Finset.univ.filter fun q ↦ s.parked b q = true := by simp [State.parked, hb]
  have hset : (Finset.univ.filter fun q ↦ s.parked b q = true ∨ q = p) =
      insert p (Finset.univ.filter fun q ↦ s.parked b q = true) := by
    ext q
    simp [or_comm]
  rw [hset, Finset.sum_insert hnp, hi.arrived_eq b, Nat.add_comm]

theorem park (hi : h.Inv s) {b : B} {p : Party L W} {x : σ} {tl : List (Instr σ R B A)}
    (hr : s.rest p = ⟨x, .sync b⟩ :: tl) (hb : s.busy p = false)
    (hc : s.arrived b + k.threadsOf p ≠ k.count b) : h.Inv (s.park k b p) := by
  have hpark : ∀ c q, (s.park k b p).parked c q = true ↔ s.parked c q = true ∨ (q = p ∧ c = b) := by
    intro c q
    by_cases hq : q = p
    · subst hq
      simp [State.parked, State.park, hr, hb, eq_comm]
    · simp [State.parked, State.park, hq]
  refine ⟨hi.suffix, hi.total_le, hi.loads_eq, hi.producer_eq, hi.consumer_eq, hi.ring, hi.flight,
    ?_, ?_, hi.aligned, ?_, ?_⟩
  · intro w r y tl' hb' hr'
    by_cases hw : .warp w = p
    · subst hw
      simp [State.park, hr] at hr'
    · exact hi.reading w r y tl' (by simpa [State.park, hw] using hb') hr'
  · intro q hb'
    by_cases hq : q = p
    · subst hq
      exact ⟨x, _, tl, hr, .inr ⟨b, rfl⟩⟩
    · exact hi.busy_head q (by simpa [State.park, hq] using hb')
  · intro c
    simp only [hpark]
    by_cases hcb : c = b
    · subst hcb
      simpa [State.park] using hi.arrived_add hb
    · simpa [State.park, hcb] using hi.arrived_eq c
  · intro c hm
    by_cases hcb : c = b
    · subst hcb
      by_contra hall
      push Not at hall
      refine hc ?_
      rw [hi.arrived_add hb, h.count_eq]
      refine Finset.sum_congr (Finset.filter_congr fun q _ ↦ ?_) fun _ _ ↦ rfl
      constructor
      · rintro (hq | rfl)
        · exact hi.parked_member hq
        · exact hi.member_of_sync hr
      · intro hq
        simpa using (hpark c q).1 (by simpa using hall q hq)
    · obtain ⟨q, hq, hnq⟩ := hi.opening c hm
      refine ⟨q, hq, ?_⟩
      rw [← Bool.not_eq_true, hpark]
      simp [hnq, hcb]

/-- When the last thread arrives, the members of the barrier are exactly the parties parked at it
and the one that arrives. -/
theorem member_iff_of_count (hi : h.Inv s) {b : B} {p : Party L W} {x : σ}
    {tl : List (Instr σ R B A)} (hr : s.rest p = ⟨x, .sync b⟩ :: tl) (hb : s.busy p = false)
    (hc : s.arrived b + k.threadsOf p = k.count b) (q : Party L W) :
    k.member b q = true ↔ q = p ∨ s.parked b q = true := by
  have hsub : (Finset.univ.filter fun q ↦ s.parked b q = true ∨ q = p) ⊆
      Finset.univ.filter fun q ↦ k.member b q = true := by
    intro q hq
    simp only [Finset.mem_filter, Finset.mem_univ, true_and] at hq ⊢
    rcases hq with hq | rfl
    · exact hi.parked_member hq
    · exact hi.member_of_sync hr
  constructor
  · intro hq
    by_contra hne
    have hlt := Finset.sum_lt_sum_of_subset hsub (i := q) (by simpa using hq)
      (by simpa [or_comm] using hne) (k.threadsOf_pos h q) (fun _ _ _ ↦ Nat.zero_le _)
    rw [← hi.arrived_add hb, hc, h.count_eq] at hlt
    exact lt_irrefl _ hlt
  · rintro (rfl | hq)
    · exact hi.member_of_sync hr
    · exact hi.parked_member hq

theorem openBarrier (hi : h.Inv s) {b : B} {p : Party L W} {x : σ} {tl : List (Instr σ R B A)}
    (hr : s.rest p = ⟨x, .sync b⟩ :: tl) (hb : s.busy p = false)
    (hc : s.arrived b + k.threadsOf p = k.count b) : h.Inv (s.openBarrier b p) := by
  have hmem := hi.member_iff_of_count hr hb hc
  have hhead : ∀ q, k.member b q = true → ∃ y tl', s.rest q = ⟨y, .sync b⟩ :: tl' := by
    intro q hq
    rcases (hmem q).1 hq with rfl | hq
    · exact ⟨x, tl, hr⟩
    · exact (State.parked_iff.1 hq).2
  have hrest : ∀ q, (s.openBarrier b p).rest q =
      if k.member b q = true then (s.rest q).tail else s.rest q := by
    intro q
    simp only [State.openBarrier, hmem q]
  have hbusy : ∀ q, (s.openBarrier b p).busy q = if k.member b q = true then false
      else s.busy q := by
    intro q
    simp only [State.openBarrier, hmem q]
  have hsites : ∀ (f : Op R B A → Bool) q, f (.sync b) = false →
      sites f ((s.openBarrier b p).rest q) = sites f (s.rest q) := by
    intro f q hf
    rw [hrest]
    split_ifs with hq
    · obtain ⟨y, tl', hy⟩ := hhead q hq
      rw [hy, sites_cons_of_neg _ _ hf, List.tail_cons]
    · rfl
  have hpark : ∀ c q, (s.openBarrier b p).parked c q = true ↔ s.parked c q = true ∧ c ≠ b := by
    intro c q
    rw [State.parked_iff, State.parked_iff, hbusy, hrest]
    split_ifs with hq
    · obtain ⟨y, tl', hy⟩ := hhead q hq
      simp only [hy, List.cons.injEq, Instr.mk.injEq, Op.sync.injEq]
      constructor
      · rintro ⟨h0, -⟩
        cases h0
      · rintro ⟨⟨-, z, tl'', ⟨-, hbc⟩, -⟩, hcb⟩
        exact absurd hbc.symm hcb
    · constructor
      · rintro ⟨h1, y, tl', h2⟩
        refine ⟨⟨h1, y, tl', h2⟩, ?_⟩
        rintro rfl
        exact hq (hi.member_of_sync h2)
      · exact fun hp ↦ hp.1
  have hrel : ∀ r, h.released (s.openBarrier b p) r = h.released s r := by
    intro r
    funext w
    rw [Aligned.released, hsites _ _ rfl, Aligned.released]
  refine ⟨?_, hi.total_le, ?_, hi.producer_eq, ?_, ?_, hi.flight, ?_, ?_, ?_, ?_, ?_⟩
  · intro q
    rw [hrest]
    split_ifs
    · exact (List.tail_suffix _).trans (hi.suffix q)
    · exact hi.suffix q
  · intro r
    rw [hsites _ _ rfl]
    exact hi.loads_eq r
  · intro w r
    rw [hrel]
    exact hi.consumer_eq w r
  · intro r
    rw [hrel]
    exact hi.ring r
  · intro w r y tl' hb' hr'
    rw [hbusy] at hb'
    rw [hrest] at hr'
    rw [hrel]
    split_ifs at hb' hr' with hw
    exact hi.reading w r y tl' hb' hr'
  · intro q hb'
    rw [hbusy] at hb'
    rw [hrest]
    split_ifs at hb' ⊢ with hq
    exact hi.busy_head q hb'
  · intro c q q' hq hq'
    by_cases hcb : c = b
    · subst hcb
      obtain ⟨y, tl₁, h1⟩ := hhead q hq
      obtain ⟨z, tl₂, h2⟩ := hhead q' hq'
      have := hi.aligned c q q' hq hq'
      rw [h1, h2, sites_cons_of_pos _ _ (by simp [Op.isSync]),
        sites_cons_of_pos _ _ (by simp [Op.isSync]), List.cons.injEq] at this
      rw [hrest, hrest, if_pos hq, if_pos hq', h1, h2]
      exact this.2
    · rw [hsites _ _ (by simp [Op.isSync, Ne.symm hcb]),
        hsites _ _ (by simp [Op.isSync, Ne.symm hcb])]
      exact hi.aligned c q q' hq hq'
  · intro c
    simp only [hpark]
    by_cases hcb : c = b
    · subst hcb
      simp [State.openBarrier]
    · simpa [State.openBarrier, hcb] using hi.arrived_eq c
  · intro c hm
    by_cases hcb : c = b
    · subst hcb
      obtain ⟨q, hq⟩ := hm
      refine ⟨q, hq, ?_⟩
      rw [← Bool.not_eq_true, hpark]
      simp
    · obtain ⟨q, hq, hnq⟩ := hi.opening c hm
      refine ⟨q, hq, ?_⟩
      rw [← Bool.not_eq_true, hpark]
      simp [hnq]

theorem step [Nonempty W] (hi : h.Inv s) {a : Action L W R σ} {t : State L W R B A M σ}
    (ht : k.Fired s a t) : h.Inv t := by
  cases ht with
  | load hr hg => exact hi.load hr hg
  | wait hr hb hg => exact hi.wait hr hg
  | release hr hb => exact hi.release hr hb
  | park hr hb hc => exact hi.park hr hb hc
  | openBarrier hr hb hc => exact hi.openBarrier hr hb hc
  | act hr => exact (hi.advance hr (fun _ ↦ rfl) (fun _ ↦ rfl) fun _ ↦ rfl).frame _ _
  | store hr => exact (hi.advance hr (fun _ ↦ rfl) (fun _ ↦ rfl) fun _ ↦ rfl).frame _ _
  | drain hr hs => exact hi.advance hr (fun _ ↦ rfl) (fun _ ↦ rfl) fun _ ↦ rfl
  | land hc => exact hi.land hc _
  | stored hs => exact hi.frame _ _

end Aligned.Inv

theorem Kernel.Reachable.inv [Nonempty W] (h : Aligned k) {s : State L W R B A M σ}
    (hs : k.Reachable s) : h.Inv s :=
  hs.invariant (Aligned.Inv.init h) fun _ _ _ _ hi ht ↦ hi.step ht

end Sm120.Lib
