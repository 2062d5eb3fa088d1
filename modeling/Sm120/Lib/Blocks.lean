import Sm120.Lib.Dataflow

set_option linter.unusedSectionVars false

namespace Sm120.Lib

open Function

variable {ι L W R B A M σ X V D G : Type}

/-- The blocks of a launch, and the memory they write to. -/
structure Blocks (ι L W R B A M σ X V D G : Type) where
  exec : ι → Exec L W R B A M σ X V D
  outside : G

variable [DecidableEq ι] [DecidableEq L] [DecidableEq W] [DecidableEq R] [DecidableEq B]
    [DecidableEq X]
variable [DecidableEq V] [LinearOrder σ] {k : ι → Kernel L W R B A M σ}

namespace Blocks

def init (f : ∀ b, Dataflow (k b) X V D G) (g : G) : Blocks ι L W R B A M σ X V D G where
  exec b := (f b).init
  outside := g

def fire (f : ∀ b, Dataflow (k b) X V D G) (s : Blocks ι L W R B A M σ X V D G) (b : ι)
    (l : Event L W R σ X V) : Option (Blocks ι L W R B A M σ X V D G) :=
  ((f b).fire (s.exec b) l).map fun e ↦ ⟨update s.exec b e, (f b).leave l s.outside⟩

def run (f : ∀ b, Dataflow (k b) X V D G) (s : Blocks ι L W R B A M σ X V D G) :
    List (ι × Event L W R σ X V) → Option (Blocks ι L W R B A M σ X V D G)
  | [] => some s
  | bl :: bls => (s.fire f bl.1 bl.2).bind fun t ↦ t.run f bls

def Reachable (f : ∀ b, Dataflow (k b) X V D G) (g : G)
    (s : Blocks ι L W R B A M σ X V D G) : Prop :=
  Relation.ReflTransGen (fun s t ↦ ∃ b l, fire f s b l = some t) (init f g) s

variable {f : ∀ b, Dataflow (k b) X V D G} {g : G} {s t : Blocks ι L W R B A M σ X V D G} {b : ι}
variable {l : Event L W R σ X V}

theorem fire_eq_some : s.fire f b l = some t ↔ ∃ e, (f b).fire (s.exec b) l = some e ∧
    t = ⟨update s.exec b e, (f b).leave l s.outside⟩ := by
  rw [fire, Option.map_eq_some_iff]
  constructor
  · rintro ⟨e, he, rfl⟩
    exact ⟨e, he, rfl⟩
  · rintro ⟨e, he, rfl⟩
    exact ⟨e, he, rfl⟩

theorem Reachable.exec (h : Reachable f g s) (b : ι) : (f b).Reachable (s.exec b) := by
  induction h with
  | refl => exact .refl
  | @tail s t hs ht ih =>
    obtain ⟨c, l, hl⟩ := ht
    obtain ⟨e, he, rfl⟩ := fire_eq_some.1 hl
    dsimp only
    by_cases hbc : b = c
    · subst hbc
      rw [update_self]
      exact ih.tail ⟨l, he⟩
    · rw [update_of_ne hbc]
      exact ih

theorem Reachable.invariant {I : Blocks ι L W R B A M σ X V D G → Prop} (h₀ : I (init f g))
    (hstep : ∀ s b l e, Reachable f g s → I s → (f b).Fired (s.exec b) l e →
      I ⟨update s.exec b e, (f b).leave l s.outside⟩) (h : Reachable f g s) : I s := by
  induction h with
  | refl => exact h₀
  | tail hs ht ih =>
    obtain ⟨b, l, hl⟩ := ht
    obtain ⟨e, he, rfl⟩ := fire_eq_some.1 hl
    exact hstep _ b l e hs ih (Dataflow.fired_of_fire he)

theorem exists_fire [Fintype L] [Fintype W] [Nonempty V]
    (h : ∃ a t, (k b).fire (s.exec b).control a = some t) : ∃ l t, s.fire f b l = some t := by
  obtain ⟨l, e, he⟩ := (f b).exists_fire h
  exact ⟨l, _, fire_eq_some.2 ⟨e, he, rfl⟩⟩

theorem run_exec {bls : List (ι × Event L W R σ X V)} (h : s.run f bls = some t) (b : ι) :
    (f b).run (s.exec b) ((bls.filter fun bl ↦ bl.1 = b).map Prod.snd) = some (t.exec b) := by
  induction bls generalizing s with
  | nil =>
    cases h
    rfl
  | cons bl bls ih =>
    obtain ⟨s₁, hl, hls⟩ := Option.bind_eq_some_iff.1 h
    obtain ⟨e, he, rfl⟩ := fire_eq_some.1 hl
    have hrest := ih hls
    dsimp only at hrest
    by_cases hb : bl.1 = b
    · subst hb
      rw [List.filter_cons_of_pos (by simp), List.map_cons, Dataflow.run, he]
      rwa [update_self] at hrest
    · rw [List.filter_cons_of_neg (by simpa using hb)]
      rwa [update_of_ne (Ne.symm hb)] at hrest

theorem sum_filter_length [Fintype ι] {α : Type} (l : List (ι × α)) :
    ∑ b, (l.filter fun x ↦ x.1 = b).length = l.length := by
  induction l with
  | nil => simp
  | cons x l ih =>
    have hcons : ∀ b, ((x :: l).filter fun y ↦ y.1 = b).length =
        (if x.1 = b then 1 else 0) + (l.filter fun y ↦ y.1 = b).length := by
      intro b
      by_cases hb : x.1 = b
      · simp [hb, Nat.add_comm]
      · simp [hb]
    simp only [hcons, Finset.sum_add_distrib, ih, Finset.sum_ite_eq, Finset.mem_univ, if_true,
      List.length_cons]
    omega

theorem run_length_le [Fintype ι] [Fintype L] [Fintype W] [Nonempty W] (h : ∀ b, Aligned (k b))
    {n m : ℕ} (hn : ∀ b w r x i, ((f b).needs w r x i).card ≤ n)
    (hm : ∀ b x, ((f b).extent x).card ≤ m) {bls : List (ι × Event L W R σ X V)}
    (hr : (init f g).run f bls = some s) :
    bls.length ≤ (1 + n + m) * ∑ b, ∑ p, (((k b).program p).map (k b).cost).sum := by
  have hone : ∀ b, (bls.filter fun x ↦ x.1 = b).length ≤
      (1 + n + m) * ∑ p, (((k b).program p).map (k b).cost).sum := by
    intro b
    have hb := Dataflow.run_length_le (h b) (hn b) (hm b) (run_exec hr b)
    rwa [List.length_map] at hb
  rw [← sum_filter_length bls, Finset.mul_sum]
  exact Finset.sum_le_sum fun b _ ↦ hone b

end Blocks

end Sm120.Lib
