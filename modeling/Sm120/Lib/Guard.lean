import Mathlib.Tactic

namespace Sm120.Lib

variable {ε α β : Type}

/-- Conditions that are checked in order, each with the error that it raises. -/
def guards : List (Bool × ε) → Except ε Unit
  | [] => .ok ()
  | (holds, e) :: rest => if holds then guards rest else .error e

theorem guards_ok {gs : List (Bool × ε)} : guards gs = .ok () ↔ ∀ g ∈ gs, g.1 = true := by
  induction gs with
  | nil => simp [guards]
  | cons g gs ih =>
    obtain ⟨holds, e⟩ := g
    cases holds with
    | false => simp [guards]
    | true => simp [guards, ih]

theorem except_bind_ok {x : Except ε α} {f : α → Except ε β} {b : β} :
    (x >>= f) = .ok b ↔ ∃ a, x = .ok a ∧ f a = .ok b := by
  cases x with
  | error e => simp [bind, Except.bind]
  | ok a => simp [bind, Except.bind]

theorem ok_bind (a : α) (f : α → Except ε β) : (Except.ok a >>= f) = f a := rfl

theorem guards_bind_ok {gs : List (Bool × ε)} {f : Unit → Except ε β} {b : β} :
    (guards gs >>= f) = .ok b ↔ (∀ g ∈ gs, g.1 = true) ∧ f () = .ok b := by
  rw [except_bind_ok, ← guards_ok]
  constructor
  · intro ⟨u, hu, hf⟩
    cases u
    exact ⟨hu, hf⟩
  · intro ⟨hu, hf⟩
    exact ⟨(), hu, hf⟩

section Lookup

variable {l : List α} {p : α → Prop} [DecidablePred p] {a : α}

theorem find_holds (h : (l.find? fun x ↦ decide (p x)) = some a) : a ∈ l ∧ p a :=
  ⟨List.mem_of_find?_eq_some h, of_decide_eq_true (List.find?_some (p := fun x ↦ decide (p x)) h)⟩

theorem find_unique (ha : a ∈ l) (hp : p a) (honly : ∀ b ∈ l, p b → b = a) :
    (l.find? fun x ↦ decide (p x)) = some a := by
  cases h : l.find? fun x ↦ decide (p x) with
  | none => exact absurd (decide_eq_true hp) (List.find?_eq_none.1 h a ha)
  | some b =>
    obtain ⟨hb, hpb⟩ := find_holds h
    rw [honly b hb hpb]

end Lookup

end Sm120.Lib
