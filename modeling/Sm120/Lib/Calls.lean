import Mathlib.Tactic

namespace Sm120.Lib

/-- The calls that have been made and their answers, the last one first. -/
abbrev Calls (A R : Type) := List (A × R)

/-- A program that makes calls `A`, which its environment answers in `R`. It returns, or ends the
whole process with a code `ε`. -/
def Prog (A R ε α : Type) := (Calls A R → A → R) → Calls A R → Except ε α × Calls A R

/-- What may be called in which state, and what it leads to. A call is known by its number. -/
structure Protocol (A R S : Type) where
  start : S
  step : S → ℕ → A → R → Option S

variable {A R S ε α β : Type}

namespace Prog

def ret (a : α) : Prog A R ε α := fun _ h ↦ (.ok a, h)

def andThen (p : Prog A R ε α) (f : α → Prog A R ε β) : Prog A R ε β := fun env h ↦
  match p env h with
  | (.ok a, h') => f a env h'
  | (.error e, h') => (.error e, h')

instance : Monad (Prog A R ε) where
  pure := ret
  bind := andThen

def call (a : A) : Prog A R ε (ℕ × R) := fun env h ↦ (.ok (h.length, env h a), (a, env h a) :: h)

def exit (e : ε) : Prog A R ε α := fun _ h ↦ (.error e, h)

def attempts (p : Prog A R ε Bool) : ℕ → Prog A R ε Bool
  | 0 => pure true
  | n + 1 => do if ← p then attempts p n else pure false

theorem bind_eq (p : Prog A R ε α) (f : α → Prog A R ε β) (env : Calls A R → A → R)
    (h : Calls A R) :
    (p >>= f) env h =
      match p env h with
      | (.ok a, h') => f a env h'
      | (.error e, h') => (.error e, h') := rfl

/-- A program makes only calls among `K`: what such calls keep, as they are answered, it keeps. -/
def Makes (K : A → Prop) (p : Prog A R ε α) : Prop :=
  ∀ (env : Calls A R → A → R) (I : Calls A R → Prop), (∀ h a, K a → I h → I ((a, env h a) :: h)) →
    ∀ h, I h → I (p env h).2

namespace Makes

variable {K : A → Prop} {p q : Prog A R ε α} {f : α → Prog A R ε β}

theorem ret {a : α} : (pure a : Prog A R ε α).Makes K := fun _ _ _ _ h ↦ h

theorem exit {e : ε} : (Prog.exit e : Prog A R ε α).Makes K := fun _ _ _ _ h ↦ h

theorem call {a : A} (ha : K a) : (Prog.call a : Prog A R ε (ℕ × R)).Makes K :=
  fun _ _ hI h hh ↦ hI h a ha hh

theorem bind (hp : p.Makes K) (hf : ∀ a, (f a).Makes K) : (p >>= f).Makes K := by
  intro env I hI h hh
  have hp' := hp env I hI h hh
  rw [bind_eq]
  rcases hres : p env h with ⟨_ | a, h'⟩
  · rw [hres] at hp'
    exact hp'
  · rw [hres] at hp'
    exact hf a env I hI h' hp'

theorem ite {b : Prop} [Decidable b] (hp : p.Makes K) (hq : q.Makes K) :
    (if b then p else q).Makes K := by
  split_ifs
  · exact hp
  · exact hq

theorem attempts {p : Prog A R ε Bool} {n : ℕ} (hp : p.Makes K) : (p.attempts n).Makes K := by
  induction n with
  | zero => exact ret
  | succ n ih => exact bind hp fun _ ↦ ite ih ret

theorem foldlM {γ : Type} {l : List γ} {b : β} {g : β → γ → Prog A R ε β}
    (hg : ∀ b x, (g b x).Makes K) :
    (l.foldlM g b).Makes K := by
  induction l generalizing b with
  | nil => exact ret
  | cons x l ih =>
    rw [List.foldlM_cons]
    exact bind (hg b x) fun _ ↦ ih

end Makes

end Prog

namespace Protocol

variable (P : Protocol A R S)

def after : Calls A R → Option S
  | [] => some P.start
  | (a, r) :: h => (after h).bind fun s ↦ P.step s h.length a r

def Ends (Q : α → S → Prop) (E : ε → S → Prop) : Except ε α → S → Prop
  | .ok a, s => Q a s
  | .error e, s => E e s

/-- From `s` on a program keeps to the protocol, whatever the answers. -/
def Spec (s : S) (p : Prog A R ε α) (Q : α → S → Prop) (E : ε → S → Prop) : Prop :=
  ∀ env h, P.after h = some s → ∃ s', P.after (p env h).2 = some s' ∧ Ends Q E (p env h).1 s'

variable {P}

namespace Spec

variable {s : S} {p : Prog A R ε α} {f : α → Prog A R ε β} {Q Q' : α → S → Prop}
    {E E' : ε → S → Prop}

theorem ret {a : α} (h : Q a s) : P.Spec s (pure a) Q E := fun _ _ hs ↦ ⟨s, hs, h⟩

theorem exit {e : ε} (h : E e s) : P.Spec s (.exit e) Q E := fun _ _ hs ↦ ⟨s, hs, h⟩

theorem mono (h : P.Spec s p Q E) (hQ : ∀ a s', Q a s' → Q' a s') (hE : ∀ e s', E e s' → E' e s') :
    P.Spec s p Q' E' := by
  intro env c hs
  obtain ⟨s', hs', hend⟩ := h env c hs
  refine ⟨s', hs', ?_⟩
  cases hp : (p env c).1 with
  | ok a =>
    rw [hp] at hend
    exact hQ a s' hend
  | error e =>
    rw [hp] at hend
    exact hE e s' hend

theorem bind {Q : β → S → Prop} (hp : P.Spec s p Q' E)
    (hf : ∀ a s', Q' a s' → P.Spec s' (f a) Q E) : P.Spec s (p >>= f) Q E := by
  intro env c hs
  obtain ⟨s', hs', hend⟩ := hp env c hs
  rw [Prog.bind_eq]
  rcases hres : p env c with ⟨_ | a, c'⟩
  · rw [hres] at hs' hend
    exact ⟨s', hs', hend⟩
  · rw [hres] at hs' hend
    exact hf a s' hend env c' hs'

theorem call {a : A} {Q : ℕ × R → S → Prop} (h : ∀ n r, ∃ s',
    P.step s n a r = some s' ∧ Q (n, r) s') : P.Spec s (Prog.call a : Prog A R ε (ℕ × R)) Q E := by
  intro env c hs
  obtain ⟨s', hstep, hq⟩ := h c.length (env c a)
  refine ⟨s', ?_, hq⟩
  change (P.after c).bind (fun s ↦ P.step s c.length a (env c a)) = some s'
  rw [hs]
  exact hstep

theorem cond {p : Prog A R ε Bool} {q q' : Prog A R ε β} {Q : β → S → Prop} {T F : S → Prop}
    (hp : P.Spec s p (fun b s' ↦ if b then T s' else F s') E) (hq : ∀ s', T s' → P.Spec s' q Q E)
    (hq' : ∀ s', F s' → P.Spec s' q' Q E) : P.Spec s (p >>= fun b ↦ if b then q else q') Q E := by
  refine hp.bind fun b s' hb ↦ ?_
  cases b with
  | true => exact hq s' hb
  | false => exact hq' s' hb

theorem attempts {p : Prog A R ε Bool} {T : ℕ → S → Prop} {F : S → Prop} (n : ℕ) (hs : T 0 s)
    (hp : ∀ k s, T k s → P.Spec s p (fun b s' ↦ if b then T (k + 1) s' else F s') E) :
    P.Spec s (p.attempts n) (fun b s' ↦ if b then T n s' else F s') E := by
  induction n generalizing T s with
  | zero => exact ret hs
  | succ n ih =>
    refine cond (hp 0 s hs) (fun s' hs' ↦ ?_) fun s' h ↦ ret h
    exact ih (T := fun k ↦ T (k + 1)) hs' fun k ↦ hp (k + 1)

theorem foldlM {γ : Type} {l : List γ} {b : β} {g : β → γ → Prog A R ε β}
    (I : List γ → β → S → Prop) (hs : I [] b s) (hg : ∀ done x rest, l = done ++ x :: rest → ∀ b s,
    I done b s → P.Spec s (g b x) (I (done ++ [x])) E) : P.Spec s (l.foldlM g b) (I l) E := by
  suffices h : ∀ done rest, l = done ++ rest → ∀ b s, I done b s →
      P.Spec s (rest.foldlM g b) (I l) E from
    h [] l rfl b s hs
  intro done rest
  induction rest generalizing done with
  | nil =>
    intro hl b s hI
    rw [List.append_nil] at hl
    rw [hl]
    exact ret hI
  | cons x rest ih =>
    intro hl b s hI
    rw [List.foldlM_cons]
    refine (hg done x rest hl b s hI).bind fun b' s' hI' ↦ ?_
    refine ih (done ++ [x]) ?_ b' s' hI'
    rw [hl, List.append_assoc, List.singleton_append]

end Spec

theorem Spec.run {p : Prog A R ε α} {Q : α → S → Prop} {E : ε → S → Prop} (h : P.Spec P.start p Q E)
    (env : Calls A R → A → R) : ∃ s, P.after (p env []).2 = some s ∧
    Ends Q E (p env []).1 s := h env [] rfl

theorem invariant_of_makes {K : A → Prop} {p : Prog A R ε α} (hp : p.Makes K)
    {env : Calls A R → A → R} {I : S → Prop} (hstart : I P.start)
    (hstep : ∀ c s s' a, K a → I s → P.step s c.length a (env c a) = some s' → I s') {s : S}
    (hs : P.after (p env []).2 = some s) : I s := by
  refine hp env (fun c ↦ ∀ s, P.after c = some s → I s) ?_ [] ?_ s hs
  · intro c a ha hc s' hs'
    obtain ⟨s₀, hs₀, hs₀'⟩ := Option.bind_eq_some_iff.1 hs'
    exact hstep c s₀ s' a ha (hc s₀ hs₀) hs₀'
  · intro s' hs'
    rwa [← Option.some.inj hs']

end Protocol

end Sm120.Lib
