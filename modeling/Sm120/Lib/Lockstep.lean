import Sm120.Lib.Dataflow

set_option linter.unusedSectionVars false

namespace Sm120.Lib

open Function

variable {L W R B A M σ X V D G ρ τ : Type}
variable [DecidableEq L] [DecidableEq W] [DecidableEq R] [DecidableEq B] [DecidableEq X]
    [DecidableEq V]
variable [Fintype L] [Fintype W] [LinearOrder σ] {k : Kernel L W R B A M σ}

theorem past_unique {α : Type} {l past past' tl tl' : List α} {x : α} (hl : l.Nodup)
    (h : l = past ++ x :: tl) (h' : l = past' ++ x :: tl') : past = past' := by
  have hnd := h ▸ hl
  rw [List.nodup_middle, List.nodup_cons] at hnd
  exact ((List.append_cons_inj_of_notMem (fun hx ↦ hnd.1 (List.mem_append_left _ hx))
    fun hx ↦ hnd.1 (List.mem_append_right _ hx)).1 (h.symm.trans h')).1

/-- Data kept in step with a kernel whose memory only says who wrote what. A tag of `view` says what
an address holds, `item` what a warp finds of an item, and `read` and `act` what the instructions of
a warp do to its registers when it finds that. -/
structure Lockstep (f : Dataflow k X V D G) (ρ τ : Type) where
  view : M → X → Option τ
  value : τ → X → V → Prop
  item : R → σ → ℕ → X → V → Prop
  registers : D → W → ρ
  read : W → R → σ → ρ → ρ
  act : W → σ → A → ρ → ρ

namespace Lockstep

variable {f : Dataflow k X V D G} (S : Lockstep f ρ τ)

/-- Every tagged address holds what its tag says. -/
def Agree (m : M) (d : D) : Prop := ∀ a c, S.view m a = some c → ∃ v, f.shared d a = some v ∧
    S.value c a v

def step (w : W) (y : ρ) (i : Instr σ R B A) : ρ :=
  match i.op with
  | .read r => S.read w r i.site y
  | .act a => S.act w i.site a y
  | _ => y

/-- The registers of a warp are those of the instructions behind it. -/
def Follows (e : Exec L W R B A M σ X V D) : Prop := ∀ w, ∃ past,
  k.program (.warp w) = past ++ e.control.rest (.warp w) ∧
    S.registers e.data w = past.foldl (S.step w) (S.registers f.data w)

def Buffered (e : Exec L W R B A M σ X V D) : Prop := ∀ w r x tl,
  e.control.rest (.warp w) = ⟨x, .read r⟩ :: tl → e.control.busy (.warp w) = true →
    ∀ a ∈ f.needs w r x (e.control.consumer w r).index, ∀ v, e.buffer w a = some v →
      S.item r x (e.control.consumer w r).index a v

structure Holds (e : Exec L W R B A M σ X V D) : Prop where
  agree : S.Agree e.control.memory e.data
  follows : S.Follows e
  buffered : S.Buffered e

structure Sound : Prop where
  init : S.Agree k.memory f.data
  issued : ∀ r x i m d, S.Agree m d → S.Agree (k.issued r x i m) (f.issued r x i d)
  landed : ∀ c m d, S.Agree m d → S.Agree (k.landed c m) (f.landed c d)
  stored : ∀ x m d, S.Agree m d → S.Agree (k.stored x m) d
  registers_issued : ∀ r x i d, S.registers (f.issued r x i d) = S.registers d
  registers_landed : ∀ c d, S.registers (f.landed c d) = S.registers d
  shared_consumed : ∀ w r x i b d, f.shared (f.consumed w r x i b d) = f.shared d
  /-- a warp inside a read finds the item -/
  reading : ∀ s, k.Reachable s → ∀ w r x tl, s.rest (.warp w) = ⟨x, .read r⟩ :: tl →
    s.busy (.warp w) = true → ∀ a ∈ f.needs w r x (s.consumer w r).index,
      ∃ c, S.view s.memory a = some c ∧ ∀ v, S.value c a v → S.item r x (s.consumer w r).index a v
  consumed : ∀ w r x i b d, (∀ a ∈ f.needs w r x i, ∃ v, b a = some v ∧ S.item r x i a v) →
    S.registers (f.consumed w r x i b d) = update (S.registers d) w (S.read w r x (S.registers d w))
  acted : ∀ e, f.Reachable e → S.Holds e → ∀ p x a tl, e.control.rest p = ⟨x, .act a⟩ :: tl →
    S.Agree (k.acted p x a e.control.memory) (f.acted p x a e.data) ∧
      ∀ w, S.registers (f.acted p x a e.data) w =
        if p = .warp w then S.act w x a (S.registers e.data w) else S.registers e.data w

variable {S}

theorem Agree.of_view {m m' : M} {d d' : D} (h : S.Agree m d) (hm : S.view m' = S.view m)
    (hd : f.shared d' = f.shared d) : S.Agree m' d' := by
  intro a c hc
  rw [hm] at hc
  rw [hd]
  exact h a c hc

section Steps

variable {e e' : Exec L W R B A M σ X V D} {l : Event L W R σ X V}

theorem agree_step (hS : S.Sound) (he : f.Reachable e) (hh : S.Holds e) (ht : f.Fired e l e') :
    S.Agree e'.control.memory e'.data := by
  cases ht with
  | load hr hk => exact hS.issued _ _ _ _ _ hh.agree
  | release hr hb hall => exact hh.agree.of_view rfl (hS.shared_consumed _ _ _ _ _ _)
  | act hr => exact (hS.acted e he hh _ _ _ _ hr).1
  | land hc => exact hS.landed _ _ _ hh.agree
  | stored hs hx => exact hS.stored _ _ _ hh.agree
  | _ => exact hh.agree

theorem buffered_step (hS : S.Sound) (he : f.Reachable e) (hh : S.Holds e) (ht : f.Fired e l e') :
    S.Buffered e' := by
  intro w r x tl hr hb a ha v hv
  rcases ht.reading hr hb with ⟨-, hbuf⟩ | ⟨hr₀, hb₀, hcons, hbuf⟩
  · rw [hbuf] at hv
    cases hv
  · rw [hcons] at ha ⊢
    rcases hbuf with hbuf | ⟨y, u, -, hy, -, hu, hbuf⟩
    · rw [hbuf] at hv
      exact hh.buffered w r x tl hr₀ hb₀ a ha v hv
    · by_cases hay : a = y
      · -- the element that has just come in
        subst hay
        rw [hbuf, update_self, Option.some.injEq] at hv
        obtain ⟨c, hc, hitem⟩ := hS.reading _ he.control w r x tl hr₀ hb₀ a ha
        obtain ⟨z, hz, hval⟩ := hh.agree a c hc
        rw [← hv, Dataflow.shows_of_eq hz hu]
        exact hitem z hval
      · rw [hbuf, update_of_ne hay] at hv
        exact hh.buffered w r x tl hr₀ hb₀ a ha v hv

theorem Follows.of_step (h : S.Follows e)
    (hstep : ∀ w, (e'.control.rest (.warp w) = e.control.rest (.warp w) ∧
        S.registers e'.data w = S.registers e.data w) ∨
      ∃ i, e.control.rest (.warp w) = i :: e'.control.rest (.warp w) ∧
        S.registers e'.data w = S.step w (S.registers e.data w) i) : S.Follows e' := by
  intro w
  obtain ⟨past, hp, hy⟩ := h w
  rcases hstep w with ⟨hr, hd⟩ | ⟨i, hr, hd⟩
  · exact ⟨past, by rw [hr, hp], by rw [hd, hy]⟩
  · refine ⟨past ++ [i], ?_, ?_⟩
    · rw [hp, hr, List.append_assoc, List.singleton_append]
    · rw [hd, hy, List.foldl_append]
      rfl

theorem Follows.of_advance (h : S.Follows e) {p : Party L W} {x : σ} {op : Op R B A}
    {tl : List (Instr σ R B A)} (hr : e.control.rest p = ⟨x, op⟩ :: tl)
    (hrest : e'.control.rest = (e.control.advance p).rest)
    (hreg : ∀ w, S.registers e'.data w =
      if p = .warp w then S.step w (S.registers e.data w) ⟨x, op⟩ else S.registers e.data w) :
    S.Follows e' := by
  apply h.of_step
  intro w
  rw [hrest, hreg]
  by_cases hp : p = .warp w
  · subst hp
    rw [rest_advance_self hr, if_pos rfl]
    exact .inr ⟨_, hr, rfl⟩
  · rw [rest_advance_of_ne (Ne.symm hp), if_neg hp]
    exact .inl ⟨rfl, rfl⟩

theorem follows_step (hS : S.Sound) (he : f.Reachable e) (hh : S.Holds e) (ht : f.Fired e l e') :
    S.Follows e' := by
  cases ht with
  | fetch hr hb ha hn hv => exact hh.follows
  | send hs ha hn hv => exact hh.follows
  | wait hr hb hk => exact hh.follows
  | park hr hk => exact hh.follows
  | stored hs hx => exact hh.follows
  | land hc => exact hh.follows.of_step fun w ↦ .inl ⟨rfl, by rw [hS.registers_landed]⟩
  | load hr hk =>
    refine hh.follows.of_advance hr rfl fun w ↦ ?_
    rw [hS.registers_issued, if_neg (by simp)]
  | @release r w x tl hr hb hall =>
    refine hh.follows.of_advance hr rfl fun v ↦ ?_
    have hbuf : ∀ a ∈ f.needs w r x (e.control.consumer w r).index, ∃ v, e.buffer w a = some v ∧
        S.item r x (e.control.consumer w r).index a v := by
      intro a ha
      obtain ⟨v, hv⟩ := Option.isSome_iff_exists.1 (hall a ha)
      exact ⟨v, hv, hh.buffered w r x tl hr hb a ha v hv⟩
    rw [hS.consumed w r x _ _ _ hbuf]
    by_cases hv : v = w
    · subst hv
      rw [update_self, if_pos rfl]
      rfl
    · rw [update_of_ne hv, if_neg fun h ↦ hv (Party.warp.inj h).symm]
  | @act c p x tl hr => exact hh.follows.of_advance hr rfl (hS.acted e he hh p x c tl hr).2
  | store hr => exact hh.follows.of_advance hr rfl fun w ↦ (ite_self _).symm
  | drain hr hk => exact hh.follows.of_advance hr rfl fun w ↦ (ite_self _).symm
  | @openBarrier b p x tl hr hk =>
    refine hh.follows.of_step fun w ↦ ?_
    by_cases hq : .warp w = p ∨ e.control.parked b (.warp w) = true
    · obtain ⟨y, tl', hy⟩ : ∃ y tl', e.control.rest (.warp w) = ⟨y, .sync b⟩ :: tl' := by
        rcases hq with rfl | hq
        · exact ⟨x, tl, hr⟩
        · exact (State.parked_iff.1 hq).2
      refine .inr ⟨⟨y, .sync b⟩, ?_, rfl⟩
      dsimp only [State.openBarrier]
      rw [if_pos hq, hy, List.tail_cons]
    · refine .inl ⟨?_, rfl⟩
      dsimp only [State.openBarrier]
      rw [if_neg hq]

/-- **The data follow their tags, and the registers their program.** -/
theorem Sound.holds (hS : S.Sound) (he : f.Reachable e) : S.Holds e := by
  refine he.invariant ?_ ?_
  · refine ⟨hS.init, fun w ↦ ⟨[], rfl, rfl⟩, ?_⟩
    intro w r x tl hr hb
    cases hb
  · intro e l e' he hh ht
    exact ⟨agree_step hS he hh ht, follows_step hS he hh ht, buffered_step hS he hh ht⟩

end Steps

end Lockstep

end Sm120.Lib
