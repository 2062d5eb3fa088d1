import Sm120.Lib.Progress

set_option linter.unusedSectionVars false

namespace Sm120.Lib

open Function

variable {L W R B A M σ : Type} [DecidableEq L] [DecidableEq W] [DecidableEq R] [DecidableEq B]
variable [Fintype L] [Fintype W] [LinearOrder σ] {k : Kernel L W R B A M σ}
variable {s t : State L W R B A M σ} {a : Action L W R σ}

theorem Kernel.Fired.rest_eq (ht : k.Fired s a t) (q : Party L W) :
    t.rest q = s.rest q ∨ t.rest q = (s.rest q).tail := by
  have hadv : ∀ p, (s.advance p).rest q = s.rest q ∨ (s.advance p).rest q = (s.rest q).tail := by
    intro p
    by_cases hq : q = p
    · subst hq
      exact .inr (by simp [State.advance])
    · exact .inl (rest_advance_of_ne hq)
  cases ht with
  | load hr hg => exact hadv _
  | release hr hb => exact hadv _
  | act hr => exact hadv _
  | store hr => exact hadv _
  | drain hr hs => exact hadv _
  | @openBarrier b p x tl hr hb hc =>
    by_cases hq : q = p ∨ s.parked b q = true
    · exact .inr (by simp [State.openBarrier, hq])
    · exact .inl (by simp only [State.openBarrier, if_neg hq])
  | wait hr hb hg => exact .inl rfl
  | park hr hb hc => exact .inl rfl
  | land hc => exact .inl rfl
  | stored hs => exact .inl rfl

theorem Kernel.Fired.rest_of_mem (ht : k.Fired s a t) {q : Party L W} {i : Instr σ R B A}
    (hs : i ∈ s.rest q) (hi : i ∉ t.rest q) : s.rest q = i :: t.rest q := by
  rcases ht.rest_eq q with he | he
  · exact absurd (he ▸ hs) hi
  · cases hr : s.rest q with
    | nil => simp [hr] at hs
    | cons j tl =>
      rw [hr, List.tail_cons] at he
      rw [hr, List.mem_cons] at hs
      rcases hs with rfl | hs
      · rw [he]
      · exact absurd (he ▸ hs) hi

namespace Aligned.Inv

variable {h : Aligned k}

theorem clock_mono (hi : h.Inv s) (ht : k.Fired s a t) (q : Party L W) : s.clock q ≤ t.clock q := by
  rcases ht.rest_eq q with he | he
  · simp [State.clock, he]
  · cases hr : s.rest q with
    | nil => simp [State.clock, he, hr]
    | cons i tl =>
      have hs := hi.sites_sorted q
      rw [hr] at hs he
      rw [List.tail_cons] at he
      rw [clock_of_head hr]
      cases hr' : tl with
      | nil => simp [State.clock, he, hr']
      | cons j tl' =>
        rw [hr'] at hs he
        rw [clock_of_head he, WithTop.coe_le_coe]
        exact (List.rel_of_pairwise_cons hs List.mem_cons_self).le

end Aligned.Inv

theorem Kernel.Fired.of_rest (ht : k.Fired s a t) {p : Party L W} {z : σ} {op : Op R B A}
    (hr : s.rest p = ⟨z, op⟩ :: t.rest p) :
    (∀ e, op = .act e → t.memory = k.acted p z e s.memory ∧ ∀ q, q ≠ p → t.rest q = s.rest q) ∧
      (op = .drain → ∀ y, (p, y) ∉ s.stores) := by
  have hne : ∀ q, (s.advance q).rest p = t.rest p → q = p := by
    intro q hq
    by_contra hqp
    rw [rest_advance_of_ne (Ne.symm hqp), hr] at hq
    simp at hq
  have hstay : t.rest p ≠ s.rest p := by
    intro he
    rw [hr] at he
    simp at he
  cases ht with
  | load hr' hg =>
    obtain rfl := hne .producer rfl
    rw [hr', List.cons.injEq, Instr.mk.injEq] at hr
    obtain ⟨⟨-, rfl⟩, -⟩ := hr
    simp
  | @release r w x tl hr' hb =>
    obtain rfl := hne (.warp w) rfl
    rw [hr', List.cons.injEq, Instr.mk.injEq] at hr
    obtain ⟨⟨-, rfl⟩, -⟩ := hr
    simp
  | @act e' q x tl hr' =>
    obtain rfl := hne q rfl
    rw [hr', List.cons.injEq, Instr.mk.injEq] at hr
    obtain ⟨⟨rfl, rfl⟩, -⟩ := hr
    refine ⟨fun e he ↦ ?_, nofun⟩
    cases he
    exact ⟨rfl, fun q hq ↦ rest_advance_of_ne hq⟩
  | @store q x tl hr' =>
    obtain rfl := hne q rfl
    rw [hr', List.cons.injEq, Instr.mk.injEq] at hr
    obtain ⟨⟨-, rfl⟩, -⟩ := hr
    simp
  | @drain q x tl hr' hs =>
    obtain rfl := hne q rfl
    rw [hr', List.cons.injEq, Instr.mk.injEq] at hr
    obtain ⟨⟨-, rfl⟩, -⟩ := hr
    exact ⟨nofun, fun _ ↦ hs⟩
  | @openBarrier b q x tl hr' hb hc =>
    by_cases hp : p = q ∨ s.parked b p = true
    · obtain ⟨y, tl', hy⟩ : ∃ y tl', s.rest p = ⟨y, .sync b⟩ :: tl' := by
        rcases hp with rfl | hp
        · exact ⟨x, tl, hr'⟩
        · exact (State.parked_iff.1 hp).2
      rw [hy, List.cons.injEq, Instr.mk.injEq] at hr
      obtain ⟨⟨-, rfl⟩, -⟩ := hr
      simp
    · exact absurd (by simp only [State.openBarrier, if_neg hp]) hstay
  | _ => exact absurd rfl hstay

theorem Kernel.Fired.act_or (ht : k.Fired s a t) :
    (∃ p x e, s.rest p = ⟨x, .act e⟩ :: t.rest p ∧ t.memory = k.acted p x e s.memory ∧
      ∀ q, q ≠ p → t.rest q = s.rest q) ∨
    ((t.memory = s.memory ∨ (∃ r x i, t.memory = k.issued r x i s.memory) ∨
        (∃ c, t.memory = k.landed c s.memory) ∨ ∃ x, t.memory = k.stored x s.memory) ∧
      ∀ q (f : Op R B A → Bool), (∀ op, f op = true → ∃ e, op = .act e) →
        sites f (t.rest q) = sites f (s.rest q)) := by
  by_cases hact : ∃ p x e, s.rest p = ⟨x, .act e⟩ :: t.rest p
  · obtain ⟨p, x, e, hr⟩ := hact
    have h := (ht.of_rest hr).1 e rfl
    exact .inl ⟨p, x, e, hr, h.1, h.2⟩
  · push Not at hact
    refine .inr ⟨?_, fun q f hf ↦ ?_⟩
    · cases ht with
      | load hr hg => exact .inr (.inl ⟨_, _, _, rfl⟩)
      | land hc => exact .inr (.inr (.inl ⟨_, rfl⟩))
      | stored hs => exact .inr (.inr (.inr ⟨_, rfl⟩))
      | @act e p x tl hr => exact absurd (hr.trans (by rw [← rest_advance_self hr])) (hact p x e)
      | _ => exact .inl rfl
    · rcases ht.rest_eq q with he | he
      · rw [he]
      · cases hr : s.rest q with
        | nil => rw [he, hr, List.tail_nil]
        | cons i tl =>
          obtain ⟨x, op⟩ := i
          rw [hr, List.tail_cons] at he
          rw [he, sites_cons_of_neg]
          rw [← Bool.not_eq_true]
          intro hop
          obtain ⟨e, rfl⟩ := hf op hop
          exact hact q x e (by rw [hr, he])

theorem Aligned.Inv.act_of_pass {h : Aligned k} (hi : h.Inv s) (hi' : h.Inv t) (ht : k.Fired s a t)
    {p : Party L W} {z : σ} {e : A} (hm : ⟨z, .act e⟩ ∈ k.program p) (hs : s.clock p ≤ z)
    (hz : (z : WithTop σ) < t.clock p) : t.memory = k.acted p z e s.memory := by
  have hr := ht.rest_of_mem ((hi.mem_rest_iff hm).2 hs) fun hm' ↦
    ((hi'.mem_rest_iff hm).1 hm').not_gt hz
  exact ((ht.of_rest hr).1 e rfl).1

/-- **Windows.** What an action of `p` makes true of memory stays true until `q` passes `y`, when
nothing that happens in between spoils it. -/
theorem Kernel.Reachable.window [Nonempty W] (h : Aligned k) {p q : Party L W} {z y : σ} {e : A}
    {P : M → Prop} (hm : ⟨z, .act e⟩ ∈ k.program p) (hact : ∀ m, P (k.acted p z e m))
    (hissued : ∀ s, h.Inv s → (z : WithTop σ) < s.clock p → s.clock q ≤ y → ∀ r x tl,
      s.rest .producer = ⟨x, .load r⟩ :: tl → P s.memory →
        P (k.issued r x (s.producer r).index s.memory))
    (hlanded : ∀ s, h.Inv s → (z : WithTop σ) < s.clock p → s.clock q ≤ y → ∀ c ∈ s.flight,
      P s.memory →
      P (k.landed c s.memory))
    (hacted : ∀ s, h.Inv s → (z : WithTop σ) < s.clock p → s.clock q ≤ y → ∀ p' x e' tl,
      s.rest p' = ⟨x, .act e'⟩ :: tl → P s.memory → P (k.acted p' x e' s.memory))
    (hstored : ∀ x m, P m → P (k.stored x m)) (hs : k.Reachable s) :
    (z : WithTop σ) < s.clock p → s.clock q ≤ y → P s.memory := by
  refine hs.invariant (I := fun s ↦ (z : WithTop σ) < s.clock p → s.clock q ≤ y → P s.memory) ?_ ?_
  · intro hz
    exact absurd ((Aligned.Inv.init h).clock_le (p := p) hm) hz.not_ge
  · intro s a t hs ih ht hz hy
    have hi := Kernel.Reachable.inv h hs
    have hi' := hi.step ht
    have hy' := (hi.clock_mono ht q).trans hy
    by_cases hzs : (z : WithTop σ) < s.clock p
    · have hP := ih hzs hy'
      cases ht with
      | load hr hg => exact hissued s hi hzs hy' _ _ _ hr hP
      | act hr => exact hacted s hi hzs hy' _ _ _ _ hr hP
      | land hc => exact hlanded s hi hzs hy' _ hc hP
      | stored hs => exact hstored _ _ hP
      | _ => exact hP
    · rw [hi.act_of_pass hi' ht hm (not_lt.1 hzs) hz]
      exact hact _

section Stores

def Op.isStore : Op R B A → Bool
  | .store => true
  | _ => false

theorem Kernel.Reachable.stores_perm {p : Party L W} (out : M → List σ)
    (hp : ∀ q, q ≠ p → sites Op.isStore (k.program q) = []) (hout : out k.memory = [])
    (hissued : ∀ r x j m, out (k.issued r x j m) = out m)
    (hlanded : ∀ c m, out (k.landed c m) = out m)
    (hacted : ∀ q x e m, out (k.acted q x e m) = out m)
    (hstored : ∀ x m, out (k.stored x m) = out m ++ [x]) [Nonempty W] (h : Aligned k)
    (hs : k.Reachable s) :
    (∀ q ∈ s.stores, q.1 = p) ∧
      (out s.memory ++ s.stores.map Prod.snd ++ sites Op.isStore (s.rest p)).Perm
        (sites Op.isStore (k.program p)) := by
  refine hs.invariant (I := fun s ↦ (∀ q ∈ s.stores, q.1 = p) ∧
    (out s.memory ++ s.stores.map Prod.snd ++ sites Op.isStore (s.rest p)).Perm
      (sites Op.isStore (k.program p))) ?_ ?_
  · simp [init, hout]
  · rintro s a t hs ⟨hst, ih⟩ ht
    have hi := Kernel.Reachable.inv h hs
    cases ht with
    | load hr hg =>
      refine ⟨hst, ?_⟩
      rw [rest_load, sites_advance hr rfl]
      simp only [State.load, hissued]
      exact ih
    | wait hr hb hg => exact ⟨hst, ih⟩
    | release hr hb =>
      refine ⟨hst, ?_⟩
      rw [rest_release, sites_advance hr rfl]
      exact ih
    | park hr hb hc => exact ⟨hst, ih⟩
    | @openBarrier b q x tl hr hb hc =>
      refine ⟨hst, ?_⟩
      have he : sites Op.isStore ((s.openBarrier b q).rest p) = sites Op.isStore (s.rest p) := by
        by_cases hq : p = q ∨ s.parked b p = true
        · obtain ⟨y, tl', hy⟩ : ∃ y tl', s.rest p = ⟨y, .sync b⟩ :: tl' := by
            rcases hq with rfl | hq
            · exact ⟨x, tl, hr⟩
            · exact (State.parked_iff.1 hq).2
          have ht : (s.openBarrier b q).rest p = tl' := by simp [State.openBarrier, hq, hy]
          rw [ht, hy, sites_cons_of_neg _ _ rfl]
        · simp [State.openBarrier, hq]
      rw [he]
      exact ih
    | @act e q x tl hr =>
      refine ⟨hst, ?_⟩
      dsimp only
      rw [sites_advance hr rfl, hacted]
      exact ih
    | @store q x tl hr =>
      obtain rfl : q = p := by
        by_contra hq
        have hsuf := sites_suffix Op.isStore (hi.suffix q)
        rw [hp q hq, hr, sites_cons_of_pos _ _ rfl] at hsuf
        simpa using hsuf.length_le
      refine ⟨fun r hr ↦ ?_, ?_⟩
      · rcases List.mem_cons.1 hr with rfl | hr
        · rfl
        · exact hst r hr
      · rw [hr, sites_cons_of_pos _ _ rfl] at ih
        refine List.Perm.trans ?_ ih
        dsimp only [List.map_cons]
        rw [rest_advance_self hr, List.append_assoc, List.append_assoc]
        exact List.Perm.append_left _ List.perm_middle.symm
    | @drain q x tl hr hs =>
      refine ⟨hst, ?_⟩
      rw [sites_advance hr rfl]
      exact ih
    | land hc => exact ⟨hst, by simpa [hlanded] using ih⟩
    | @stored q x hx =>
      refine ⟨fun r hr ↦ hst r (List.mem_of_mem_erase hr), List.Perm.trans ?_ ih⟩
      dsimp only
      rw [hstored, List.append_assoc, List.append_assoc, List.append_assoc]
      refine List.Perm.append_left _ ?_
      rw [← List.append_assoc]
      exact ((List.perm_cons_erase hx).map Prod.snd).symm.append_right _

theorem Kernel.Reachable.store_window [Nonempty W] (h : Aligned k) (hs : k.Reachable s) :
    ∀ p (x : σ), (p, x) ∈ s.stores → (x : WithTop σ) < s.clock p ∧
      ∀ y : σ, ⟨y, .drain⟩ ∈ k.program p → x < y → s.clock p ≤ y := by
  refine hs.invariant (I := fun s ↦ ∀ p (x : σ), (p, x) ∈ s.stores → (x : WithTop σ) < s.clock p ∧
    ∀ y : σ, ⟨y, .drain⟩ ∈ k.program p → x < y → s.clock p ≤ y) ?_ ?_
  · intro p x hx
    exact absurd hx List.not_mem_nil
  · intro s a t hs ih ht p x hx
    have hi := Kernel.Reachable.inv h hs
    have hi' := hi.step ht
    have hkeep : (p, x) ∈ s.stores → (x : WithTop σ) < t.clock p ∧
        ∀ y : σ, ⟨y, .drain⟩ ∈ k.program p → x < y → t.clock p ≤ y := by
      intro hx
      obtain ⟨hlt, hdr⟩ := ih p x hx
      refine ⟨hlt.trans_le (hi.clock_mono ht p), fun y hy hxy ↦ ?_⟩
      rw [← hi'.mem_rest_iff hy]
      by_contra hyt
      have hr := ht.rest_of_mem ((hi.mem_rest_iff hy).2 (hdr y hy hxy)) hyt
      exact (ht.of_rest hr).2 rfl x hx
    have hnew : (p, x) ∈ s.stores ∨ ∃ tl, s.rest p = ⟨x, .store⟩ :: tl ∧ t.rest p = tl := by
      cases ht with
      | @store q z tl hr =>
        rcases List.mem_cons.1 hx with he | hx
        · cases he
          exact .inr ⟨tl, hr, rest_advance_self hr⟩
        · exact .inl hx
      | stored hq => exact .inl (List.mem_of_mem_erase hx)
      | _ => exact .inl hx
    rcases hnew with hx | ⟨tl, hr, htl⟩
    · exact hkeep hx
    · have hsorted := hi.sites_sorted p
      rw [hr, List.pairwise_cons] at hsorted
      constructor
      · cases hrt : t.rest p with
        | nil => simp [State.clock, hrt]
        | cons j tl' =>
          rw [clock_of_head hrt, WithTop.coe_lt_coe]
          exact hsorted.1 j (by rw [← htl, hrt]; exact List.mem_cons_self)
      · intro y hy hxy
        have hm : ⟨y, .drain⟩ ∈ s.rest p := (hi.mem_rest_iff hy).2 (by
          rw [clock_of_head hr, WithTop.coe_le_coe]
          exact hxy.le)
        rw [hr, List.mem_cons] at hm
        rcases hm with he | hm
        · cases he
        · rw [← hi'.mem_rest_iff hy, htl]
          exact hm

end Stores

end Sm120.Lib
