import Mathlib.Data.List.Infix
import Mathlib.Logic.Relation
import Sm120.Lib.Ring

namespace Sm120.Lib

open Function

/-- How a producer treats the first round of a ring: either its parity starts one phase ahead, or it
starts level and skips the wait by counting its loads. -/
inductive Start
  | ahead
  | counted
deriving DecidableEq, Repr

def Start.phase : Start → Bool
  | .ahead => true
  | .counted => false

/-- Whether the producer's wait for its next slot returns, after `total` loads. -/
def Start.ready (st : Start) (S total : ℕ) (p : PipeState) (r : Ring) : Bool :=
  match st with
  | .ahead => (r.empty p.index).passed p.phase
  | .counted => decide (total < S) || (r.empty p.index).passed (!p.phase)

/-- The threads of a block: the elected producer thread, the other producer lanes, and the consumer
warps. -/
inductive Party (L W : Type)
  | producer
  | lane (i : L)
  | warp (w : W)
deriving DecidableEq, Fintype

inductive Op (R B A : Type)
  /-- wait for the slot, announce the bytes, issue the copies, move on -/
  | load (r : R)
  /-- wait for the item, read it, release the slot, move on -/
  | read (r : R)
  | sync (b : B)
  | act (a : A)
  /-- issue and commit an asynchronous store of shared memory -/
  | store
  /-- wait until no store of this thread still reads shared memory -/
  | drain
deriving DecidableEq

/-- An operation together with the place of the program it stands at. -/
structure Instr (σ R B A : Type) where
  site : σ
  op : Op R B A

structure Copy (R σ : Type) where
  ring : R
  site : σ
  part : ℕ
  slot : ℕ
deriving DecidableEq

/-- A warp-specialised kernel as one block runs it: the unrolled program of every party, the rings
and named barriers it uses, and what its asynchronous copies, its own actions and its stores do to
memory. -/
structure Kernel (L W R B A M σ : Type) where
  program : Party L W → List (Instr σ R B A)
  /-- threads of a consumer warp -/
  threads : ℕ
  stages : R → ℕ
  start : R → Start
  parts : R → ℕ
  bytes : R → σ → ℕ → ℕ
  expect : R → σ → ℕ
  emptyCount : R → ℕ
  member : B → Party L W → Bool
  count : B → ℕ
  memory : M
  issued : R → σ → ℕ → M → M
  landed : Copy R σ → M → M
  acted : Party L W → σ → A → M → M
  stored : σ → M → M

structure State (L W R B A M σ : Type) where
  rest : Party L W → List (Instr σ R B A)
  /-- inside its first instruction: reading an item, or parked at a barrier -/
  busy : Party L W → Bool
  ring : R → Ring
  /-- loads issued so far -/
  total : R → ℕ
  producer : R → PipeState
  consumer : W → R → PipeState
  flight : List (Copy R σ)
  stores : List (Party L W × σ)
  arrived : B → ℕ
  memory : M

inductive Action (L W R σ : Type)
  | move (p : Party L W)
  | land (c : Copy R σ)
  | stored (p : Party L W) (x : σ)

variable {L W R B A M σ : Type}

def Kernel.threadsOf (k : Kernel L W R B A M σ) : Party L W → ℕ
  | .warp _ => k.threads
  | _ => 1

def Kernel.init (k : Kernel L W R B A M σ) : State L W R B A M σ where
  rest := k.program
  busy _ := false
  ring r := Ring.init 1 (k.emptyCount r)
  total _ := 0
  producer r := ⟨0, (k.start r).phase⟩
  consumer _ _ := ⟨0, false⟩
  flight := []
  stores := []
  arrived _ := 0
  memory := k.memory

def State.parked [DecidableEq B] (s : State L W R B A M σ) (b : B) (p : Party L W) : Bool :=
  s.busy p && match s.rest p with
    | ⟨_, .sync c⟩ :: _ => c = b
    | _ => false

section Steps

variable [DecidableEq L] [DecidableEq W] [DecidableEq R] [DecidableEq B]

def State.advance (s : State L W R B A M σ) (p : Party L W) : State L W R B A M σ :=
  { s with rest := update s.rest p (s.rest p).tail, busy := update s.busy p false }

def State.load (k : Kernel L W R B A M σ) (s : State L W R B A M σ) (r : R) (x : σ) :
    State L W R B A M σ :=
  { s.advance .producer with
    ring := update s.ring r ((s.ring r).acquire (s.producer r).index (k.expect r x))
    total := update s.total r (s.total r + 1)
    producer := update s.producer r ((s.producer r).next (k.stages r))
    flight := s.flight ++ (List.range (k.parts r)).map fun j ↦ ⟨r, x, j, (s.producer r).index⟩
    memory := k.issued r x (s.producer r).index s.memory }

def State.release (k : Kernel L W R B A M σ) (s : State L W R B A M σ) (w : W) (r : R) :
    State L W R B A M σ :=
  { s.advance (.warp w) with
    ring := update s.ring r ((s.ring r).release (k.emptyCount r) k.threads (s.consumer w r).index)
    consumer := update s.consumer w (update (s.consumer w) r ((s.consumer w r).next (k.stages r))) }

/-- The last thread has arrived: everyone parked at the barrier goes on. -/
def State.openBarrier (s : State L W R B A M σ) (b : B) (p : Party L W) : State L W R B A M σ :=
  { s with
    rest := fun q ↦ if q = p ∨ s.parked b q then (s.rest q).tail else s.rest q
    busy := fun q ↦ if q = p ∨ s.parked b q then false else s.busy q
    arrived := update s.arrived b 0 }

def State.park (k : Kernel L W R B A M σ) (s : State L W R B A M σ) (b : B) (p : Party L W) :
    State L W R B A M σ :=
  { s with
    busy := update s.busy p true
    arrived := update s.arrived b (s.arrived b + k.threadsOf p) }

def Kernel.exec (k : Kernel L W R B A M σ) (s : State L W R B A M σ) (x : σ) :
    Op R B A → Party L W → Option (State L W R B A M σ)
  | .load r, .producer =>
    if (k.start r).ready (k.stages r) (s.total r) (s.producer r) (s.ring r) then some (s.load k r x)
      else none
  | .read r, .warp w =>
    if s.busy (.warp w) then some (s.release k w r)
    else if ((s.ring r).full (s.consumer w r).index).passed (s.consumer w r).phase then
      some { s with busy := update s.busy (.warp w) true }
    else none
  | .sync b, p =>
    if s.busy p then none
    else if s.arrived b + k.threadsOf p = k.count b then some (s.openBarrier b p)
    else some (s.park k b p)
  | .act a, p => some { s.advance p with memory := k.acted p x a s.memory }
  | .store, p => some { s.advance p with stores := (p, x) :: s.stores }
  | .drain, p => if s.stores.any (fun q ↦ q.1 = p) then none else some (s.advance p)
  | _, _ => none

variable [DecidableEq σ]

def Kernel.fire (k : Kernel L W R B A M σ) (s : State L W R B A M σ) :
    Action L W R σ → Option (State L W R B A M σ)
  | .move p =>
    match s.rest p with
    | [] => none
    | i :: _ => k.exec s i.site i.op p
  | .land c =>
    if c ∈ s.flight then
      some { s with
        flight := s.flight.erase c
        ring := update s.ring c.ring ((s.ring c.ring).land c.slot (k.bytes c.ring c.site c.part))
        memory := k.landed c s.memory }
    else none
  | .stored p x =>
    if (p, x) ∈ s.stores then
      some { s with stores := s.stores.erase (p, x), memory := k.stored x s.memory }
    else none

def Kernel.run (k : Kernel L W R B A M σ) (s : State L W R B A M σ) :
    List (Action L W R σ) → Option (State L W R B A M σ)
  | [] => some s
  | a :: as => (k.fire s a).bind fun t ↦ k.run t as

def Kernel.Reachable (k : Kernel L W R B A M σ) (s : State L W R B A M σ) : Prop :=
  Relation.ReflTransGen (fun s t ↦ ∃ a, k.fire s a = some t) k.init s

/-- What one action can do, with the guard it passed. -/
inductive Kernel.Fired (k : Kernel L W R B A M σ) (s : State L W R B A M σ) :
    Action L W R σ → State L W R B A M σ → Prop
  | load {r : R} {x : σ} {tl : List (Instr σ R B A)} (hr : s.rest .producer = ⟨x, .load r⟩ :: tl)
      (hg : (k.start r).ready (k.stages r) (s.total r) (s.producer r) (s.ring r) = true) :
      Fired k s (.move .producer) (s.load k r x)
  | wait {r : R} {w : W} {x : σ} {tl : List (Instr σ R B A)}
      (hr : s.rest (.warp w) = ⟨x, .read r⟩ :: tl)
      (hb : s.busy (.warp w) = false)
      (hg : ((s.ring r).full (s.consumer w r).index).passed (s.consumer w r).phase = true) :
      Fired k s (.move (.warp w)) { s with busy := update s.busy (.warp w) true }
  | release {r : R} {w : W} {x : σ} {tl : List (Instr σ R B A)}
      (hr : s.rest (.warp w) = ⟨x, .read r⟩ :: tl) (hb : s.busy (.warp w) = true) :
      Fired k s (.move (.warp w)) (s.release k w r)
  | park {b : B} {p : Party L W} {x : σ} {tl : List (Instr σ R B A)}
      (hr : s.rest p = ⟨x, .sync b⟩ :: tl)
      (hb : s.busy p = false) (hc : s.arrived b + k.threadsOf p ≠ k.count b) :
      Fired k s (.move p) (s.park k b p)
  | openBarrier {b : B} {p : Party L W} {x : σ} {tl : List (Instr σ R B A)}
      (hr : s.rest p = ⟨x, .sync b⟩ :: tl) (hb : s.busy p = false)
      (hc : s.arrived b + k.threadsOf p = k.count b) : Fired k s (.move p) (s.openBarrier b p)
  | act {a : A} {p : Party L W} {x : σ} {tl : List (Instr σ R B A)}
      (hr : s.rest p = ⟨x, .act a⟩ :: tl) :
      Fired k s (.move p) { s.advance p with memory := k.acted p x a s.memory }
  | store {p : Party L W} {x : σ} {tl : List (Instr σ R B A)} (hr : s.rest p = ⟨x, .store⟩ :: tl) :
      Fired k s (.move p) { s.advance p with stores := (p, x) :: s.stores }
  | drain {p : Party L W} {x : σ} {tl : List (Instr σ R B A)} (hr : s.rest p = ⟨x, .drain⟩ :: tl)
      (hs : ∀ y, (p, y) ∉ s.stores) : Fired k s (.move p) (s.advance p)
  | land {c : Copy R σ} (hc : c ∈ s.flight) : Fired k s (.land c)
      { s with
        flight := s.flight.erase c
        ring := update s.ring c.ring ((s.ring c.ring).land c.slot (k.bytes c.ring c.site c.part))
        memory := k.landed c s.memory }
  | stored {p : Party L W} {x : σ} (hs : (p, x) ∈ s.stores) : Fired k s (.stored p x)
      { s with stores := s.stores.erase (p, x), memory := k.stored x s.memory }

theorem Kernel.fired_of_fire {k : Kernel L W R B A M σ} {s t : State L W R B A M σ}
    {a : Action L W R σ} (h : k.fire s a = some t) : k.Fired s a t := by
  cases a with
  | move p =>
    simp only [fire] at h
    split at h
    · cases h
    next i tl hr =>
      obtain ⟨x, op⟩ := i
      cases op with
      | load r =>
        cases p with
        | producer =>
          simp only [exec, Option.ite_none_right_eq_some, Option.some.injEq] at h
          obtain ⟨hg, rfl⟩ := h
          exact .load hr hg
        | lane i => cases h
        | warp w => cases h
      | read r =>
        cases p with
        | producer => cases h
        | lane i => cases h
        | warp w =>
          simp only [exec] at h
          split_ifs at h with hb hg
          · cases h
            exact .release hr hb
          · cases h
            exact .wait hr (by simpa using hb) hg
      | sync b =>
        simp only [exec] at h
        split_ifs at h with hb hc
        · cases h
          exact .openBarrier hr (by simpa using hb) hc
        · cases h
          exact .park hr (by simpa using hb) hc
      | act a =>
        cases h
        exact .act hr
      | store =>
        cases h
        exact .store hr
      | drain =>
        simp only [exec, Option.ite_none_left_eq_some, Option.some.injEq] at h
        obtain ⟨hs, rfl⟩ := h
        refine .drain hr fun y hy ↦ hs ?_
        exact List.any_eq_true.2 ⟨_, hy, by simp⟩
  | land c =>
    simp only [fire, Option.ite_none_right_eq_some, Option.some.injEq] at h
    obtain ⟨hc, rfl⟩ := h
    exact .land hc
  | stored p x =>
    simp only [fire, Option.ite_none_right_eq_some, Option.some.injEq] at h
    obtain ⟨hs, rfl⟩ := h
    exact .stored hs

theorem Kernel.Reachable.invariant {k : Kernel L W R B A M σ} {I : State L W R B A M σ → Prop}
    (h₀ : I k.init) (hstep : ∀ s a t, k.Reachable s → I s → k.Fired s a t → I t)
    {s : State L W R B A M σ} (h : k.Reachable s) : I s := by
  induction h with
  | refl => exact h₀
  | tail hs ht ih =>
    obtain ⟨a, ha⟩ := ht
    exact hstep _ a _ hs ih (k.fired_of_fire ha)

end Steps

end Sm120.Lib
