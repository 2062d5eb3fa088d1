import Sm120.Lib.Window

set_option linter.unusedSectionVars false

namespace Sm120.Lib

open Function

variable {L W R B A M σ X V D G : Type}

/-- What a kernel computes, beside what it controls. Shared memory has addresses `X` and values `V`,
and `G` is the memory outside the block. -/
structure Dataflow (k : Kernel L W R B A M σ) (X V D G : Type) where
  data : D
  /-- nothing is certain of an address at `none` -/
  shared : D → X → Option V
  /-- the addresses a warp reads of an item in a slot -/
  needs : W → R → σ → ℕ → Finset X
  /-- the addresses an asynchronous store reads -/
  extent : σ → Finset X
  issued : R → σ → ℕ → D → D
  landed : Copy R σ → D → D
  /-- a warp computes with what it has read of an item -/
  consumed : W → R → σ → ℕ → (X → Option V) → D → D
  acted : Party L W → σ → A → D → D
  /-- an element that a store has read goes out -/
  written : σ → X → V → G → G

/-- A block at work. A read or an asynchronous store takes its elements one by one, at any time
while it lasts. -/
structure Exec (L W R B A M σ X V D : Type) where
  control : State L W R B A M σ
  data : D
  /-- what a warp has read so far of the item it is in -/
  buffer : W → X → Option V
  /-- what a store has read so far -/
  sent : σ → Finset X

inductive Event (L W R σ X V : Type)
  | move (a : Action L W R σ)
  | fetch (w : W) (a : X) (v : V)
  | send (p : Party L W) (x : σ) (a : X) (v : V)

def Event.isFetch : Event L W R σ X V → Bool
  | .fetch _ _ _ => true
  | _ => false

def Event.isSend : Event L W R σ X V → Bool
  | .send _ _ _ _ => true
  | _ => false

def Event.isMove : Event L W R σ X V → Bool
  | .move _ => true
  | _ => false

/-- The buffer of a warp is empty when it enters a read and when it leaves it. -/
def Exec.rebuffer [DecidableEq W] (e : Exec L W R B A M σ X V D) : Action L W R σ → W → X → Option V
  | .move (.warp w) =>
    match e.control.rest (.warp w) with
    | ⟨_, .read _⟩ :: _ => update e.buffer w fun _ ↦ none
    | _ => e.buffer
  | _ => e.buffer

namespace Dataflow

variable {k : Kernel L W R B A M σ} (f : Dataflow k X V D G)

def init : Exec L W R B A M σ X V D where
  control := k.init
  data := f.data
  buffer _ _ := none
  sent _ := ∅

/-- A read of an address returns its value, or anything where nothing is certain. -/
def shows [DecidableEq V] (d : D) (a : X) (v : V) : Bool :=
  match f.shared d a with
  | none => true
  | some u => v = u

/-- A warp releases an item when it has all it needs of it, and a store ends when it has read
all. -/
def ready [DecidableEq W] [DecidableEq X] (e : Exec L W R B A M σ X V D) : Action L W R σ → Bool
  | .move (.warp w) =>
    match e.control.rest (.warp w) with
    | ⟨x, .read r⟩ :: _ => !e.control.busy (.warp w) ||
        decide (∀ a ∈ f.needs w r x (e.control.consumer w r).index, (e.buffer w a).isSome = true)
    | _ => true
  | .stored _ x => f.extent x ⊆ e.sent x
  | _ => true

def effect (e : Exec L W R B A M σ X V D) : Action L W R σ → D
  | .land c => f.landed c e.data
  | .stored _ _ => e.data
  | .move p =>
    match p, e.control.rest p with
    | .producer, ⟨x, .load r⟩ :: _ => f.issued r x (e.control.producer r).index e.data
    | .warp w, ⟨x, .read r⟩ :: _ =>
      if e.control.busy (.warp w) then
        f.consumed w r x (e.control.consumer w r).index (e.buffer w) e.data
      else e.data
    | p, ⟨x, .act a⟩ :: _ => f.acted p x a e.data
    | _, _ => e.data

variable [DecidableEq L] [DecidableEq W] [DecidableEq R] [DecidableEq B] [DecidableEq X]
    [DecidableEq V]
variable [LinearOrder σ]

def fire (e : Exec L W R B A M σ X V D) : Event L W R σ X V → Option (Exec L W R B A M σ X V D)
  | .move a =>
    if f.ready e a then
      (k.fire e.control a).map fun t ↦ ⟨t, f.effect e a, e.rebuffer a, e.sent⟩
    else none
  | .fetch w a v =>
    match e.control.rest (.warp w) with
    | ⟨x, .read r⟩ :: _ =>
      if e.control.busy (.warp w) ∧ a ∈ f.needs w r x (e.control.consumer w r).index ∧
          e.buffer w a = none ∧ f.shows e.data a v then
        some { e with buffer := update e.buffer w (update (e.buffer w) a (some v)) }
      else none
    | _ => none
  | .send p x a v =>
    if (p, x) ∈ e.control.stores ∧ a ∈ f.extent x ∧ a ∉ e.sent x ∧ f.shows e.data a v then
      some { e with sent := update e.sent x (insert a (e.sent x)) }
    else none

def leave (l : Event L W R σ X V) (g : G) : G :=
  match l with
  | .send _ x a v => f.written x a v g
  | _ => g

def run (f : Dataflow k X V D G) (e : Exec L W R B A M σ X V D) :
    List (Event L W R σ X V) → Option (Exec L W R B A M σ X V D)
  | [] => some e
  | l :: ls => (f.fire e l).bind fun e' ↦ f.run e' ls

def Reachable (e : Exec L W R B A M σ X V D) : Prop :=
  Relation.ReflTransGen (fun e e' ↦ ∃ l, f.fire e l = some e') f.init e

inductive Fired (e : Exec L W R B A M σ X V D) : Event L W R σ X V → Exec L W R B A M σ X V D → Prop
  | fetch {w : W} {r : R} {x : σ} {tl : List (Instr σ R B A)} {a : X} {v : V}
      (hr : e.control.rest (.warp w) = ⟨x, .read r⟩ :: tl) (hb : e.control.busy (.warp w) = true)
      (ha : a ∈ f.needs w r x (e.control.consumer w r).index) (hn : e.buffer w a = none)
      (hv : f.shows e.data a v = true) : Fired e (.fetch w a v)
        { e with buffer := update e.buffer w (update (e.buffer w) a (some v)) }
  | send {p : Party L W} {x : σ} {a : X} {v : V} (hs : (p, x) ∈ e.control.stores)
      (ha : a ∈ f.extent x) (hn : a ∉ e.sent x) (hv : f.shows e.data a v = true) :
      Fired e (.send p x a v) { e with sent := update e.sent x (insert a (e.sent x)) }
  | load {r : R} {x : σ} {tl : List (Instr σ R B A)}
      (hr : e.control.rest .producer = ⟨x, .load r⟩ :: tl)
      (hk : k.Fired e.control (.move .producer) (e.control.load k r x)) :
      Fired e (.move (.move .producer))
        ⟨e.control.load k r x, f.issued r x (e.control.producer r).index e.data, e.buffer, e.sent⟩
  | wait {r : R} {w : W} {x : σ} {tl : List (Instr σ R B A)}
      (hr : e.control.rest (.warp w) = ⟨x, .read r⟩ :: tl) (hb : e.control.busy (.warp w) = false)
      (hk : k.Fired e.control (.move (.warp w))
        { e.control with busy := update e.control.busy (.warp w) true }) :
      Fired e (.move (.move (.warp w)))
        ⟨{ e.control with busy := update e.control.busy (.warp w) true }, e.data,
          update e.buffer w fun _ ↦ none, e.sent⟩
  | release {r : R} {w : W} {x : σ} {tl : List (Instr σ R B A)}
      (hr : e.control.rest (.warp w) = ⟨x, .read r⟩ :: tl) (hb : e.control.busy (.warp w) = true)
      (hall : ∀ a ∈ f.needs w r x (e.control.consumer w r).index, (e.buffer w a).isSome = true) :
      Fired e (.move (.move (.warp w)))
        ⟨e.control.release k w r,
          f.consumed w r x (e.control.consumer w r).index (e.buffer w) e.data,
          update e.buffer w fun _ ↦ none, e.sent⟩
  | park {b : B} {p : Party L W} {x : σ} {tl : List (Instr σ R B A)}
      (hr : e.control.rest p = ⟨x, .sync b⟩ :: tl)
      (hk : k.Fired e.control (.move p) (e.control.park k b p)) :
      Fired e (.move (.move p)) ⟨e.control.park k b p, e.data, e.buffer, e.sent⟩
  | openBarrier {b : B} {p : Party L W} {x : σ} {tl : List (Instr σ R B A)}
      (hr : e.control.rest p = ⟨x, .sync b⟩ :: tl)
      (hk : k.Fired e.control (.move p) (e.control.openBarrier b p)) :
      Fired e (.move (.move p)) ⟨e.control.openBarrier b p, e.data, e.buffer, e.sent⟩
  | act {c : A} {p : Party L W} {x : σ} {tl : List (Instr σ R B A)}
      (hr : e.control.rest p = ⟨x, .act c⟩ :: tl) :
      Fired e (.move (.move p))
        ⟨{ e.control.advance p with memory := k.acted p x c e.control.memory },
          f.acted p x c e.data, e.buffer, e.sent⟩
  | store {p : Party L W} {x : σ} {tl : List (Instr σ R B A)}
      (hr : e.control.rest p = ⟨x, .store⟩ :: tl) :
      Fired e (.move (.move p))
        ⟨{ e.control.advance p with stores := (p, x) :: e.control.stores }, e.data,
          e.buffer, e.sent⟩
  | drain {p : Party L W} {x : σ} {tl : List (Instr σ R B A)}
      (hr : e.control.rest p = ⟨x, .drain⟩ :: tl)
      (hk : k.Fired e.control (.move p) (e.control.advance p)) :
      Fired e (.move (.move p)) ⟨e.control.advance p, e.data, e.buffer, e.sent⟩
  | land {c : Copy R σ} (hc : c ∈ e.control.flight) : Fired e (.move (.land c))
      ⟨{ e.control with
          flight := e.control.flight.erase c
          ring := update e.control.ring c.ring
            ((e.control.ring c.ring).land c.slot (k.bytes c.ring c.site c.part))
          memory := k.landed c e.control.memory }, f.landed c e.data, e.buffer, e.sent⟩
  | stored {p : Party L W} {x : σ} (hs : (p, x) ∈ e.control.stores) (hx : f.extent x ⊆ e.sent x) :
      Fired e (.move (.stored p x))
        ⟨{ e.control with
            stores := e.control.stores.erase (p, x)
            memory := k.stored x e.control.memory }, e.data, e.buffer, e.sent⟩

variable {f} {e e' : Exec L W R B A M σ X V D} {l : Event L W R σ X V}

theorem fired_of_fire (h : f.fire e l = some e') : f.Fired e l e' := by
  cases l with
  | move a =>
    simp only [fire, Option.ite_none_right_eq_some, Option.map_eq_some_iff] at h
    obtain ⟨hready, t, ht, rfl⟩ := h
    have hk := k.fired_of_fire ht
    cases id hk with
    | load hr hg =>
      have h := Fired.load (f := f) hr hk
      simpa only [effect, Exec.rebuffer, hr] using h
    | wait hr hb hg =>
      have h := Fired.wait (f := f) hr hb hk
      simpa only [effect, Exec.rebuffer, hr, hb, Bool.false_eq_true, if_false] using h
    | release hr hb =>
      simp only [ready, hr, hb, Bool.not_true, Bool.false_or, decide_eq_true_eq] at hready
      have h := Fired.release (f := f) hr hb hready
      simpa only [effect, Exec.rebuffer, hr, hb, if_true] using h
    | @park b p x tl hr hb hc =>
      have h := Fired.park (f := f) hr hk
      cases p <;> simpa only [effect, Exec.rebuffer, hr] using h
    | @openBarrier b p x tl hr hb hc =>
      have h := Fired.openBarrier (f := f) hr hk
      cases p <;> simpa only [effect, Exec.rebuffer, hr] using h
    | @act c p x tl hr =>
      have h := Fired.act (f := f) hr
      cases p <;> simpa only [effect, Exec.rebuffer, hr] using h
    | @store p x tl hr =>
      have h := Fired.store (f := f) hr
      cases p <;> simpa only [effect, Exec.rebuffer, hr] using h
    | @drain p x tl hr hs =>
      have h := Fired.drain (f := f) hr hk
      cases p <;> simpa only [effect, Exec.rebuffer, hr] using h
    | land hc => exact .land hc
    | stored hs =>
      simp only [ready, decide_eq_true_eq] at hready
      exact .stored hs hready
  | fetch w a v =>
    simp only [fire] at h
    split at h
    next x r tl hr =>
      simp only [Option.ite_none_right_eq_some, Option.some.injEq] at h
      obtain ⟨⟨hb, ha, hn, hv⟩, rfl⟩ := h
      exact .fetch hr hb ha hn hv
    · cases h
  | send p x a v =>
    simp only [fire, Option.ite_none_right_eq_some, Option.some.injEq] at h
    obtain ⟨⟨hs, ha, hn, hv⟩, rfl⟩ := h
    exact .send hs ha hn hv

theorem Reachable.invariant {I : Exec L W R B A M σ X V D → Prop} (h₀ : I f.init)
    (hstep : ∀ e l e', f.Reachable e → I e → f.Fired e l e' → I e') (h : f.Reachable e) : I e := by
  induction h with
  | refl => exact h₀
  | tail he hl ih =>
    obtain ⟨l, hl⟩ := hl
    exact hstep _ l _ he ih (fired_of_fire hl)

theorem Reachable.control (h : f.Reachable e) : k.Reachable e.control := by
  induction h with
  | refl => exact .refl
  | @tail e e' he hl ih =>
    obtain ⟨l, hl⟩ := hl
    have hk : (∃ a, k.fire e.control a = some e'.control) ∨ e'.control = e.control := by
      cases l with
      | move a =>
        simp only [fire, Option.ite_none_right_eq_some, Option.map_eq_some_iff] at hl
        obtain ⟨-, t, ht, rfl⟩ := hl
        exact .inl ⟨a, ht⟩
      | fetch w a v => exact .inr (by cases fired_of_fire hl; rfl)
      | send p x a v => exact .inr (by cases fired_of_fire hl; rfl)
    rcases hk with hk | hk
    · exact ih.tail hk
    · rw [hk]
      exact ih

theorem Fired.sent_mono (h : f.Fired e l e') (x : σ) : e.sent x ⊆ e'.sent x := by
  cases h with
  | @send p y a v hs ha hn hv =>
    by_cases hxy : x = y
    · subst hxy
      dsimp only
      rw [update_self]
      exact Finset.subset_insert _ _
    · dsimp only
      rw [update_of_ne hxy]
  | _ => exact subset_rfl

theorem shows_of_eq {d : D} {a : X} {u v : V} (hu : f.shared d a = some u)
    (hv : f.shows d a v = true) : v = u := by
  simpa only [shows, hu, decide_eq_true_eq] using hv

section Reading

variable [Fintype L] [Fintype W]

theorem reading_of_advance {w : W} {r : R} {x : σ} {tl : List (Instr σ R B A)} {p : Party L W}
    {s t : State L W R B A M σ} (hrest : t.rest = (s.advance p).rest)
    (hbusy : t.busy = (s.advance p).busy)
    (hr : t.rest (.warp w) = ⟨x, .read r⟩ :: tl) (hb : t.busy (.warp w) = true) :
    .warp w ≠ p ∧ s.rest (.warp w) = ⟨x, .read r⟩ :: tl ∧ s.busy (.warp w) = true := by
  have hne : .warp w ≠ p := by
    rintro rfl
    rw [hbusy, State.advance] at hb
    simp at hb
  rw [hrest, rest_advance_of_ne hne] at hr
  rw [hbusy, State.advance] at hb
  dsimp only at hb
  rw [update_of_ne hne] at hb
  exact ⟨hne, hr, hb⟩

/-- A warp inside a read has just entered it with an empty buffer, or it was inside it before, and
at most one element has come in. -/
theorem Fired.reading (ht : f.Fired e l e') {w : W} {r : R} {x : σ} {tl : List (Instr σ R B A)}
    (hr : e'.control.rest (.warp w) = ⟨x, .read r⟩ :: tl) (hb : e'.control.busy (.warp w) = true) :
    (l = .move (.move (.warp w)) ∧ e'.buffer w = fun _ ↦ none) ∨
      e.control.rest (.warp w) = ⟨x, .read r⟩ :: tl ∧ e.control.busy (.warp w) = true ∧
        e'.control.consumer w = e.control.consumer w ∧
          (e'.buffer w = e.buffer w ∨ ∃ a v, l = .fetch w a v ∧
            a ∈ f.needs w r x (e.control.consumer w r).index ∧ e.buffer w a = none ∧
              f.shows e.data a v = true ∧ e'.buffer w = update (e.buffer w) a (some v)) := by
  cases ht with
  | @fetch w' r' x' tl' a v hr' hb' ha hn hv =>
    refine .inr ⟨hr, hb, rfl, ?_⟩
    by_cases hw : w = w'
    · subst hw
      rw [hr', List.cons.injEq, Instr.mk.injEq, Op.read.injEq] at hr
      obtain ⟨⟨rfl, rfl⟩, -⟩ := hr
      exact .inr ⟨a, v, rfl, ha, hn, hv, update_self _ _ _⟩
    · exact .inl (update_of_ne hw _ _)
  | @wait r' w' x' tl' hr' hb' hk =>
    by_cases hw : w = w'
    · subst hw
      exact .inl ⟨rfl, update_self _ _ _⟩
    · dsimp only at hb
      rw [update_of_ne fun h ↦ hw (Party.warp.inj h)] at hb
      exact .inr ⟨hr, hb, rfl, .inl (update_of_ne hw _ _)⟩
  | @release r' w' x' tl' hr' hb' hall =>
    obtain ⟨hne, hr, hb⟩ := reading_of_advance (s := e.control) rfl rfl hr hb
    have hw : w ≠ w' := fun h ↦ hne (by rw [h])
    exact .inr ⟨hr, hb, update_of_ne hw _ _, .inl (update_of_ne hw _ _)⟩
  | @park b p x' tl' hr' hk =>
    by_cases hp : .warp w = p
    · dsimp only [State.park] at hr
      rw [hp, hr'] at hr
      cases hr
    · dsimp only [State.park] at hb
      rw [update_of_ne hp] at hb
      exact .inr ⟨hr, hb, rfl, .inl rfl⟩
  | @openBarrier b p x' tl' hr' hk =>
    dsimp only [State.openBarrier] at hr hb
    split_ifs at hr hb
    exact .inr ⟨hr, hb, rfl, .inl rfl⟩
  | load hr' hk =>
    obtain ⟨-, hr, hb⟩ := reading_of_advance (s := e.control) (p := .producer) rfl rfl hr hb
    exact .inr ⟨hr, hb, rfl, .inl rfl⟩
  | act hr' =>
    obtain ⟨-, hr, hb⟩ := reading_of_advance (s := e.control) rfl rfl hr hb
    exact .inr ⟨hr, hb, rfl, .inl rfl⟩
  | store hr' =>
    obtain ⟨-, hr, hb⟩ := reading_of_advance (s := e.control) rfl rfl hr hb
    exact .inr ⟨hr, hb, rfl, .inl rfl⟩
  | drain hr' hk =>
    obtain ⟨-, hr, hb⟩ := reading_of_advance (s := e.control) rfl rfl hr hb
    exact .inr ⟨hr, hb, rfl, .inl rfl⟩
  | send hs ha hn hv => exact .inr ⟨hr, hb, rfl, .inl rfl⟩
  | land hc => exact .inr ⟨hr, hb, rfl, .inl rfl⟩
  | stored hs hx => exact .inr ⟨hr, hb, rfl, .inl rfl⟩

end Reading

section Progress

variable [Fintype L] [Fintype W]

theorem exists_fire [Nonempty V] (h : ∃ a t, k.fire e.control a = some t) :
    ∃ l e', f.fire e l = some e' := by
  obtain ⟨a, t, ht⟩ := h
  by_cases hready : f.ready e a = true
  · refine ⟨.move a, ⟨t, f.effect e a, e.rebuffer a, e.sent⟩, ?_⟩
    simp only [fire, hready, if_true, ht, Option.map_some]
  · -- an element is still to be read
    have hshows : ∀ x, ∃ v, f.shows e.data x v = true := by
      intro x
      obtain ⟨v⟩ := ‹Nonempty V›
      cases hx : f.shared e.data x with
      | none => exact ⟨v, by simp [shows, hx]⟩
      | some u => exact ⟨u, by simp [shows, hx]⟩
    have hk := k.fired_of_fire ht
    cases a with
    | land c => exact absurd rfl hready
    | stored p x =>
      cases hk with
      | stored hs =>
        simp only [ready, decide_eq_true_eq, Finset.not_subset] at hready
        obtain ⟨y, hy, hn⟩ := hready
        obtain ⟨v, hv⟩ := hshows y
        exact ⟨.send p x y v, _, by rw [fire, if_pos ⟨hs, hy, hn, hv⟩]⟩
    | move p =>
      cases p with
      | producer => exact absurd rfl hready
      | lane i => exact absurd rfl hready
      | warp w =>
        cases hr : e.control.rest (.warp w) with
        | nil => simp [ready, hr] at hready
        | cons i tl =>
          obtain ⟨x, op⟩ := i
          cases op with
          | read r =>
            simp only [ready, hr, Bool.or_eq_true, Bool.not_eq_true', decide_eq_true_eq, not_or,
              Bool.not_eq_false] at hready
            obtain ⟨hb, hall⟩ := hready
            push Not at hall
            obtain ⟨y, hy, hn⟩ := hall
            obtain ⟨v, hv⟩ := hshows y
            refine ⟨.fetch w y v,
              { e with buffer := update e.buffer w (update (e.buffer w) y (some v)) }, ?_⟩
            simp only [fire, hr]
            rw [if_pos ⟨hb, hy, by simpa using hn, hv⟩]
          | _ => simp [ready, hr] at hready

end Progress

section Bounded

variable [Fintype L] [Fintype W]

def pending (f : Dataflow k X V D G) (e : Exec L W R B A M σ X V D) (w : W) : Finset X :=
  match e.control.rest (.warp w) with
  | ⟨x, .read r⟩ :: _ =>
    if e.control.busy (.warp w) then
      (f.needs w r x (e.control.consumer w r).index).filter fun a ↦ e.buffer w a = none
    else ∅
  | _ => ∅

def unsent (f : Dataflow k X V D G) (e : Exec L W R B A M σ X V D) : ℕ :=
  (e.control.stores.map fun q ↦ (f.extent q.2 \ e.sent q.2).card).sum

theorem mem_pending {w : W} {a : X} (h : a ∈ f.pending e w) : ∃ x r tl,
    e.control.rest (.warp w) = ⟨x, .read r⟩ :: tl ∧ e.control.busy (.warp w) = true ∧
      a ∈ f.needs w r x (e.control.consumer w r).index ∧ e.buffer w a = none := by
  unfold pending at h
  split at h
  next x r tl hr =>
    split_ifs at h with hb
    · rw [Finset.mem_filter] at h
      exact ⟨x, r, tl, hr, hb, h.1, h.2⟩
    · cases h
  · cases h

theorem mem_pending_of_read {w : W} {a : X} {x : σ} {r : R} {tl : List (Instr σ R B A)}
    (hr : e.control.rest (.warp w) = ⟨x, .read r⟩ :: tl) (hb : e.control.busy (.warp w) = true)
    (ha : a ∈ f.needs w r x (e.control.consumer w r).index) (hn : e.buffer w a = none) :
    a ∈ f.pending e w := by
  simp only [pending, hr, hb, if_true]
  exact Finset.mem_filter.2 ⟨ha, hn⟩

theorem pending_card_le {n : ℕ} (hn : ∀ w r x i, (f.needs w r x i).card ≤ n) (w : W) :
    (f.pending e w).card ≤ n := by
  unfold pending
  split
  next x r tl hr =>
    split_ifs
    · exact (Finset.card_filter_le _ _).trans (hn _ _ _ _)
    · exact Nat.zero_le _
  · exact Nat.zero_le _

theorem pending_subset (ht : f.Fired e l e') {w : W} (hw : l ≠ .move (.move (.warp w))) :
    f.pending e' w ⊆ f.pending e w := by
  intro a ha
  obtain ⟨x, r, tl, hr, hb, hneed, hn⟩ := mem_pending ha
  rcases ht.reading hr hb with ⟨hl, -⟩ | ⟨hr₀, hb₀, hcons, hbuf⟩
  · exact absurd hl hw
  · rw [hcons] at hneed
    refine mem_pending_of_read hr₀ hb₀ hneed ?_
    rcases hbuf with hbuf | ⟨y, v, -, -, hy, -, hbuf⟩
    · rwa [hbuf] at hn
    · by_cases hay : a = y
      · rwa [hay]
      · rwa [hbuf, update_of_ne hay] at hn

theorem pending_fetch {w : W} {a : X} {v : V} (ht : f.Fired e (.fetch w a v) e') :
    f.pending e' w ⊂ f.pending e w := by
  refine (Finset.ssubset_iff_of_subset (pending_subset ht (by simp))).2 ⟨a, ?_, fun ha ↦ ?_⟩
  · cases ht with
    | fetch hr hb ha hn hv => exact mem_pending_of_read hr hb ha hn
  · obtain ⟨x, r, tl, -, -, -, hn⟩ := mem_pending ha
    cases ht with
    | fetch hr hb ha hn hv => simp at hn

theorem sum_pending_le {n : ℕ} (hn : ∀ w r x i, (f.needs w r x i).card ≤ n) (ht : f.Fired e l e') :
    ∑ w, (f.pending e' w).card + (if l.isFetch then 1 else 0) ≤
      ∑ w, (f.pending e w).card + if l.isMove then n else 0 := by
  have hle : ∀ w, l ≠ .move (.move (.warp w)) →
      (f.pending e' w).card ≤ (f.pending e w).card := fun w hw ↦
    Finset.card_le_card (pending_subset ht hw)
  cases l with
  | send p x a v => exact Finset.sum_le_sum fun w _ ↦ hle w (by simp)
  | fetch w a v =>
    exact Finset.sum_lt_sum (fun w _ ↦ hle w (by simp))
      ⟨w, Finset.mem_univ _, Finset.card_lt_card (pending_fetch ht)⟩
  | move a =>
    change ∑ w, (f.pending e' w).card ≤ ∑ w, (f.pending e w).card + n
    by_cases hw : ∃ w, a = .move (.warp w)
    · obtain ⟨w, rfl⟩ := hw
      have hone : ∀ v, (f.pending e' v).card ≤ (f.pending e v).card + if v = w then n else 0 := by
        intro v
        by_cases hv : v = w
        · rw [if_pos hv]
          exact (pending_card_le hn v).trans (Nat.le_add_left _ _)
        · rw [if_neg hv]
          exact hle v fun h ↦ hv (Party.warp.inj (Action.move.inj (Event.move.inj h))).symm
      have hsum := Finset.sum_le_sum fun v (_ : v ∈ Finset.univ) ↦ hone v
      rwa [Finset.sum_add_distrib, Finset.sum_ite_eq', if_pos (Finset.mem_univ w)] at hsum
    · have hsum := Finset.sum_le_sum fun v (_ : v ∈ Finset.univ) ↦
        hle v fun h ↦ hw ⟨v, Event.move.inj h⟩
      exact hsum.trans (Nat.le_add_right _ _)

theorem unsent_le {m : ℕ} (hm : ∀ x, (f.extent x).card ≤ m) (ht : f.Fired e l e') :
    f.unsent e' + (if l.isSend then 1 else 0) ≤ f.unsent e + if l.isMove then m else 0 := by
  cases ht with
  | @send p x a v hs ha hn hv =>
    change f.unsent _ < f.unsent e
    refine List.sum_lt_sum (l := e.control.stores) _ _ (fun q _ ↦ ?_) ⟨(p, x), hs, ?_⟩
    · refine Finset.card_le_card (Finset.sdiff_subset_sdiff subset_rfl ?_)
      dsimp only
      by_cases hq : q.2 = x
      · rw [hq, update_self]
        exact Finset.subset_insert _ _
      · rw [update_of_ne hq]
    · refine Finset.card_lt_card ((Finset.ssubset_iff_of_subset ?_).2 ⟨a, ?_, ?_⟩)
      · refine Finset.sdiff_subset_sdiff subset_rfl ?_
        dsimp only
        rw [update_self]
        exact Finset.subset_insert _ _
      · exact Finset.mem_sdiff.2 ⟨ha, hn⟩
      · simp
  | @store p x tl hr =>
    have h :=
      (Finset.card_le_card (Finset.sdiff_subset (s := f.extent x) (t := e.sent x))).trans (hm x)
    change (f.extent x \ e.sent x).card + f.unsent e ≤ f.unsent e + m
    omega
  | @stored p x hs hx =>
    have h := ((List.erase_sublist (a := (p, x)) (l := e.control.stores)).map
      fun q ↦ (f.extent q.2 \ e.sent q.2).card).sum_le_sum fun _ _ ↦ Nat.zero_le _
    exact h.trans (Nat.le_add_right _ _)
  | _ => exact Nat.le_add_right _ _

theorem counts_le {n m : ℕ} (hn : ∀ w r x i, (f.needs w r x i).card ≤ n)
    (hm : ∀ x, (f.extent x).card ≤ m) {ls : List (Event L W R σ X V)} (h : f.run e ls = some e') :
    ls.countP Event.isFetch + ∑ w, (f.pending e' w).card ≤
        ∑ w, (f.pending e w).card + n * ls.countP Event.isMove ∧
      ls.countP Event.isSend + f.unsent e' ≤ f.unsent e + m * ls.countP Event.isMove := by
  induction ls generalizing e with
  | nil =>
    cases h
    simp
  | cons l ls ih =>
    obtain ⟨e₁, hl, hls⟩ := Option.bind_eq_some_iff.1 h
    have ht := fired_of_fire hl
    obtain ⟨h1, h2⟩ := ih hls
    have h3 := sum_pending_le hn ht
    have h4 := unsent_le hm ht
    simp only [List.countP_cons, Nat.mul_add]
    cases l <;> simp only [Event.isFetch, Event.isSend, Event.isMove, if_true,
      Bool.false_eq_true, if_false,
      Nat.mul_one, Nat.mul_zero, Nat.add_zero] at h3 h4 ⊢ <;> omega

theorem run_control {ls : List (Event L W R σ X V)} (h : f.run e ls = some e') :
    ∃ as, k.run e.control as = some e'.control ∧ as.length = ls.countP Event.isMove := by
  induction ls generalizing e with
  | nil =>
    cases h
    exact ⟨[], rfl, rfl⟩
  | cons l ls ih =>
    obtain ⟨e₁, hl, hls⟩ := Option.bind_eq_some_iff.1 h
    obtain ⟨as, has, hlen⟩ := ih hls
    cases l with
    | move a =>
      simp only [fire, Option.ite_none_right_eq_some, Option.map_eq_some_iff] at hl
      obtain ⟨-, t, ht, rfl⟩ := hl
      refine ⟨a :: as, ?_, ?_⟩
      · rw [Kernel.run, ht]
        exact has
      · rw [List.length_cons, hlen, List.countP_cons_of_pos rfl]
    | fetch w a v =>
      refine ⟨as, ?_, by rw [hlen, List.countP_cons_of_neg (by simp [Event.isMove])]⟩
      cases fired_of_fire hl
      exact has
    | send p x a v =>
      refine ⟨as, ?_, by rw [hlen, List.countP_cons_of_neg (by simp [Event.isMove])]⟩
      cases fired_of_fire hl
      exact has

/-- Every run ends: it reads no more than its items and stores hold. -/
theorem run_length_le [Nonempty W] (h : Aligned k) {n m : ℕ}
    (hn : ∀ w r x i, (f.needs w r x i).card ≤ n) (hm : ∀ x, (f.extent x).card ≤ m)
    {ls : List (Event L W R σ X V)} (hr : f.run f.init ls = some e) :
    ls.length ≤ (1 + n + m) * ∑ p, ((k.program p).map k.cost).sum := by
  obtain ⟨as, has, hlen⟩ := run_control hr
  have hB := Kernel.run_length_le h has
  obtain ⟨h1, h2⟩ := counts_le hn hm hr
  have h3 : ∑ w, (f.pending f.init w).card = 0 := by
    refine Finset.sum_eq_zero fun w _ ↦
      Finset.card_eq_zero.2 (Finset.eq_empty_of_forall_notMem fun a ha ↦ ?_)
    obtain ⟨x, r, tl, -, hb, -⟩ := mem_pending ha
    cases hb
  have h4 : f.unsent f.init = 0 := rfl
  have hsplit : ∀ ls : List (Event L W R σ X V),
      ls.length = ls.countP Event.isFetch + ls.countP Event.isSend + ls.countP Event.isMove := by
    intro ls
    induction ls with
    | nil => rfl
    | cons l ls ih =>
      simp only [List.length_cons, List.countP_cons, ih]
      cases l <;> simp only [Event.isFetch, Event.isSend, Event.isMove, if_true, Bool.false_eq_true,
        if_false] <;> omega
  rw [hlen] at hB
  calc ls.length ≤ (1 + n + m) * ls.countP Event.isMove := by
        rw [hsplit, Nat.add_mul, Nat.add_mul]
        omega
    _ ≤ _ := Nat.mul_le_mul_left _ hB

end Bounded

end Dataflow

end Sm120.Lib
