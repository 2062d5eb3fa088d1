import Sm120.Lib.Cta

set_option linter.unusedSectionVars false

namespace Sm120.Lib

variable {L W R B A M M' σ : Type}

def State.forget (s : State L W R B A M σ) : State L W R B A Unit σ where
  rest := s.rest
  busy := s.busy
  ring := s.ring
  total := s.total
  producer := s.producer
  consumer := s.consumer
  flight := s.flight
  stores := s.stores
  arrived := s.arrived
  memory := ()

/-- The kernel without its memory: nothing that decides what can be done next. -/
def Kernel.forget (k : Kernel L W R B A M σ) : Kernel L W R B A Unit σ where
  program := k.program
  threads := k.threads
  stages := k.stages
  start := k.start
  parts := k.parts
  bytes := k.bytes
  expect := k.expect
  emptyCount := k.emptyCount
  member := k.member
  count := k.count
  memory := ()
  issued _ _ _ _ := ()
  landed _ _ := ()
  acted _ _ _ _ := ()
  stored _ _ := ()

theorem State.rest_of_forget {s : State L W R B A M σ} {s' : State L W R B A M' σ}
    (h : s'.forget = s.forget) : s'.rest = s.rest := congrArg (State.rest (M := Unit)) h

section Steps

variable [DecidableEq L] [DecidableEq W] [DecidableEq R] [DecidableEq B] [DecidableEq σ]
variable {k : Kernel L W R B A M σ} {k' : Kernel L W R B A M' σ} {s t : State L W R B A M σ}

theorem Kernel.threadsOf_forget (p : Party L W) : k.forget.threadsOf p = k.threadsOf p := by
  cases p <;> rfl

theorem State.park_forget (b : B) (p : Party L W) :
    (s.park k b p).forget = s.forget.park k.forget b p := by
  simp only [State.park, Kernel.threadsOf_forget]
  rfl

theorem Kernel.exec_forget (x : σ) (op : Op R B A) (p : Party L W) :
    k.forget.exec s.forget x op p = (k.exec s x op p).map State.forget := by
  cases op with
  | load r =>
    cases p with
    | producer =>
      simp only [exec]
      rw [apply_ite (Option.map State.forget)]
      rfl
    | lane i => rfl
    | warp w => rfl
  | read r =>
    cases p with
    | producer => rfl
    | lane i => rfl
    | warp w =>
      simp only [exec]
      rw [apply_ite (Option.map State.forget), apply_ite (Option.map State.forget)]
      rfl
  | sync b =>
    simp only [exec]
    rw [apply_ite (Option.map State.forget), apply_ite (Option.map State.forget), threadsOf_forget,
      Option.map_some, Option.map_some, State.park_forget]
    rfl
  | act a => rfl
  | store => rfl
  | drain =>
    simp only [exec]
    rw [apply_ite (Option.map State.forget)]
    rfl

theorem Kernel.fire_forget (a : Action L W R σ) :
    k.forget.fire s.forget a = (k.fire s a).map State.forget := by
  cases a with
  | move p =>
    simp only [fire]
    cases hr : s.rest p with
    | nil =>
      have hr' : s.forget.rest p = [] := hr
      rw [hr']
      rfl
    | cons i tl =>
      have hr' : s.forget.rest p = i :: tl := hr
      rw [hr']
      exact exec_forget i.site i.op p
  | land c =>
    simp only [fire]
    rw [apply_ite (Option.map State.forget)]
    rfl
  | stored p x =>
    simp only [fire]
    rw [apply_ite (Option.map State.forget)]
    rfl

theorem Kernel.Reachable.forget (h : k.Reachable s) : k.forget.Reachable s.forget := by
  induction h with
  | refl => exact .refl
  | tail _ hstep ih =>
    obtain ⟨a, ha⟩ := hstep
    apply ih.tail
    refine ⟨a, ?_⟩
    rw [fire_forget, ha]
    rfl

theorem Kernel.Reachable.of_forget {u : State L W R B A Unit σ} (h : k.forget.Reachable u) :
    ∃ s, k.Reachable s ∧ s.forget = u := by
  induction h with
  | refl => exact ⟨k.init, .refl, rfl⟩
  | tail _ hstep ih =>
    obtain ⟨a, ha⟩ := hstep
    obtain ⟨s, hs, rfl⟩ := ih
    rw [fire_forget] at ha
    obtain ⟨t, ht, rfl⟩ := Option.map_eq_some_iff.1 ha
    exact ⟨t, hs.tail ⟨a, ht⟩, rfl⟩

/-- Kernels that differ in their memory alone have the same runs but for what is in memory. -/
theorem Kernel.Reachable.transfer (hk : k.forget = k'.forget) (h : k.Reachable s) :
    ∃ s', k'.Reachable s' ∧ s'.forget = s.forget := by
  have hf := h.forget
  rw [hk] at hf
  exact hf.of_forget

end Steps

end Sm120.Lib
