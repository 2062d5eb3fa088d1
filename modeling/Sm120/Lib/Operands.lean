import Sm120.Lib.Window

set_option linter.unusedSectionVars false

namespace Sm120.Lib

open Function

section Memory

variable {α : Type}

def clear (span : Finset ℕ) (m : ℕ → Option α) : ℕ → Option α :=
  fun a ↦ if a ∈ span then none else m a

def fill (span : Finset ℕ) (v : α) (m : ℕ → Option α) : ℕ → Option α :=
  fun a ↦ if a ∈ span then some v else m a

variable {span : Finset ℕ} {v : α} {m : ℕ → Option α} {a : ℕ}

theorem clear_of_notMem (h : a ∉ span) : clear span m a = m a := if_neg h

theorem fill_of_mem (h : a ∈ span) : fill span v m a = some v := if_pos h

theorem fill_of_notMem (h : a ∉ span) : fill span v m a = m a := if_neg h

end Memory

variable {L W R B A M σ : Type} [DecidableEq L] [DecidableEq W] [DecidableEq R] [DecidableEq B]
variable [Fintype L] [Fintype W] [LinearOrder σ] {k : Kernel L W R B A M σ}

/-- The view of memory that only the copies of the rings write: the addresses of an item hold
nothing certain from the issue of a copy until it lands. Items that may be in the rings at the same
time do not overlap. -/
structure Operands (h : Aligned k) where
  /-- addresses of a part of an item in a slot -/
  span : R → σ → ℕ → ℕ → Finset ℕ
  view : M → ℕ → Option (Copy R σ)
  issued : ∀ r x slot m a, (∀ p < k.parts r, a ∉ span r x p slot) →
    view (k.issued r x slot m) a = view m a
  landed : ∀ c m, view (k.landed c m) = fill (span c.ring c.site c.part c.slot) c (view m)
  acted : ∀ p x e m, view (k.acted p x e m) = view m
  stored : ∀ x m, view (k.stored x m) = view m
  parts_disjoint : ∀ r x slot p q, slot < k.stages r → p < k.parts r → q < k.parts r → p ≠ q →
    Disjoint (span r x p slot) (span r x q slot)
  items_disjoint : ∀ r i j x y p q, (h.items r)[i]? = some x → (h.items r)[j]? = some y →
    i < j → j < i + k.stages r →
      Disjoint (span r x p (i % k.stages r)) (span r y q (j % k.stages r))
  rings_disjoint : ∀ r r' i j x y p q, r ≠ r' → i < k.stages r → j < k.stages r' →
    Disjoint (span r x p i) (span r' y q j)

/-- Item `j` of ring `r` has been issued, and some warp has not released it. -/
def Aligned.live (h : Aligned k) (s : State L W R B A M σ) (r : R) (j : ℕ) : Prop :=
  j < s.total r ∧ ∃ w, h.released s r w ≤ j

namespace Operands

variable {h : Aligned k} (o : Operands h) {s t : State L W R B A M σ}

theorem live_disjoint (hi : h.Inv s) {r r' : R} {i j : ℕ} {x y : σ} (p q : ℕ)
    (hx : (h.items r)[i]? = some x) (hy : (h.items r')[j]? = some y) (hil : h.live s r i)
    (hjl : h.live s r' j) (hne : (r, i) ≠ (r', j)) :
    Disjoint (o.span r x p (i % k.stages r)) (o.span r' y q (j % k.stages r')) := by
  by_cases hr : r = r'
  · subst hr
    obtain ⟨hi', v, hv⟩ := hil
    obtain ⟨hj', w, hw⟩ := hjl
    have h1 := (hi.ring r).le_rel v
    have h2 := (hi.ring r).le_rel w
    rcases Nat.lt_trichotomy i j with hlt | rfl | hlt
    · exact o.items_disjoint r i j x y p q hx hy hlt (by omega)
    · exact absurd rfl hne
    · exact (o.items_disjoint r j i y x q p hy hx hlt (by omega)).symm
  · exact o.rings_disjoint r r' _ _ x y p q hr (Nat.mod_lt _ (h.stages_pos r))
      (Nat.mod_lt _ (h.stages_pos r'))

theorem live_of_flight [Nonempty W] (hi : h.Inv s) {c : Copy R σ} (hc : c ∈ s.flight) :
    ∃ j, (h.items c.ring)[j]? = some c.site ∧ c.slot = j % k.stages c.ring ∧
      c.part < k.parts c.ring ∧ h.live s c.ring j := by
  obtain ⟨j, hj, hx, hslot, hp⟩ := hi.flight c hc
  obtain ⟨w⟩ := ‹Nonempty W›
  exact ⟨j, hx, hslot, hp, hj, w, hi.released_le_of_flight hc hx w⟩

/-- **No copy ever writes onto an item that some warp has not released.** -/
theorem flight_disjoint [Nonempty W] (hi : h.Inv s) {c : Copy R σ} (hc : c ∈ s.flight) {r : R}
    {j : ℕ} {y : σ} (q : ℕ) (hy : (h.items r)[j]? = some y) (hl : h.live s r j)
    (hne : (r, y) ≠ (c.ring, c.site)) :
    Disjoint (o.span c.ring c.site c.part c.slot) (o.span r y q (j % k.stages r)) := by
  obtain ⟨i, hx, hslot, -, hil⟩ := live_of_flight hi hc
  rw [hslot]
  refine o.live_disjoint hi _ q hx hy hil hl fun he ↦ hne ?_
  rw [Prod.mk.injEq] at he ⊢
  obtain ⟨rfl, rfl⟩ := he
  exact ⟨rfl, Option.some_injective _ (hy.symm.trans hx)⟩

theorem released_le_of_fired {a : Action L W R σ} (ht : k.Fired s a t) (r : R) (w : W) :
    h.released s r w ≤ h.released t r w := by
  have hlen : (sites (Op.isRead r) (t.rest (.warp w))).length ≤
      (sites (Op.isRead r) (s.rest (.warp w))).length := by
    rcases ht.rest_eq (.warp w) with he | he
    · rw [he]
    · rw [he]
      exact (sites_suffix (Op.isRead r) (List.tail_suffix _)).length_le
  unfold Aligned.released
  omega

theorem placed [Nonempty W] (hs : k.Reachable s) {r : R} {j : ℕ} {x : σ}
    (hx : (h.items r)[j]? = some x) (hl : h.live s r j) {p : ℕ} (hp : p < k.parts r) {a : ℕ}
    (ha : a ∈ o.span r x p (j % k.stages r)) :
    ⟨r, x, p, j % k.stages r⟩ ∈ s.flight ∨
      o.view s.memory a = some ⟨r, x, p, j % k.stages r⟩ := by
  induction hs generalizing r j x p a with
  | refl => exact absurd hl.1 (Nat.not_lt_zero j)
  | @tail s t hs ht ih =>
    obtain ⟨act, hact⟩ := ht
    have ht := k.fired_of_fire hact
    have hi := Kernel.Reachable.inv h hs
    have hit := hi.step ht
    have hold : j < s.total r → h.live s r j := fun hj ↦
      ⟨hj, hl.2.imp fun w hw ↦ (released_le_of_fired ht r w).trans hw⟩
    cases ht with
    | @load r₀ x₀ tl hr hg =>
      obtain ⟨hx₀, -⟩ := hi.load_head hr
      have hslot : (s.producer r₀).index = s.total r₀ % k.stages r₀ := by
        rw [hi.producer_eq]
        rfl
      by_cases hnew : r = r₀ ∧ j = s.total r₀
      · -- the item just issued
        obtain ⟨rfl, rfl⟩ := hnew
        obtain rfl := Option.some_injective _ (hx.symm.trans hx₀)
        refine .inl (List.mem_append_right _ (List.mem_map.2 ⟨p, List.mem_range.2 hp, ?_⟩))
        rw [hslot]
      · have hj : j < s.total r := by
          have := hl.1
          by_cases hr₀ : r = r₀
          · subst hr₀
            have hlt : j < s.total r + 1 := by simpa [State.load] using this
            have hne : j ≠ s.total r := fun he ↦ hnew ⟨rfl, he⟩
            omega
          · simpa [State.load, hr₀] using this
        rcases ih hx (hold hj) hp ha with hf | hv
        · exact .inl (List.mem_append_left _ hf)
        · refine .inr ?_
          have hl₀ : h.live (s.load k r₀ x₀) r₀ (s.total r₀) := by
            obtain ⟨w⟩ := ‹Nonempty W›
            refine ⟨by simp [State.load], w, ?_⟩
            have hle := (hi.ring r₀).rel_le w
            exact hle
          rw [State.load, o.issued]
          · exact hv
          · intro q _ haq
            rw [hslot] at haq
            have hd := o.live_disjoint hit p q hx hx₀ hl hl₀ fun he ↦ hnew (by simpa using he)
            exact Finset.disjoint_left.1 hd ha haq
    | @land c hc =>
      rcases ih hx (hold hl.1) hp ha with hf | hv
      · by_cases he : (⟨r, x, p, j % k.stages r⟩ : Copy R σ) = c
        · subst he
          exact .inr (by rw [o.landed]; exact fill_of_mem ha)
        · exact .inl ((List.mem_erase_of_ne he).2 hf)
      · refine .inr ?_
        rw [o.landed]
        by_cases hac : a ∈ o.span c.ring c.site c.part c.slot
        · -- the copy that lands here is this very part
          rw [fill_of_mem hac]
          obtain ⟨i, hxc, hslot, hpc, hlc⟩ := live_of_flight hi hc
          by_cases he : (r, j) = (c.ring, i)
          · rw [Prod.mk.injEq] at he
            obtain ⟨rfl, rfl⟩ := he
            obtain rfl := Option.some_injective _ (hx.symm.trans hxc)
            rw [← hslot] at ha ⊢
            by_cases hpe : p = c.part
            · rw [hpe]
            · exact absurd hac (Finset.disjoint_left.1 (o.parts_disjoint _ _ _ _ _
                (hslot ▸ Nat.mod_lt _ (h.stages_pos _)) hp hpc hpe) ha)
          · rw [hslot] at hac
            exact absurd hac (Finset.disjoint_left.1
              (o.live_disjoint hi p c.part hx hxc (hold hl.1) hlc he) ha)
        · rwa [fill_of_notMem hac]
    | act hr => exact (ih hx (hold hl.1) hp ha).imp id fun hv ↦ by rwa [o.acted]
    | stored hs => exact (ih hx (hold hl.1) hp ha).imp id fun hv ↦ by rwa [o.stored]
    | _ => exact ih hx (hold hl.1) hp ha

/-- **A warp inside a read sees exactly the item it reads**, at the slot its own index names. -/
theorem reading [Nonempty W] (hs : k.Reachable s) {r : R} {w : W} {x : σ}
    {tl : List (Instr σ R B A)} (hr : s.rest (.warp w) = ⟨x, .read r⟩ :: tl)
    (hb : s.busy (.warp w) = true) {p : ℕ} (hp : p < k.parts r) {a : ℕ}
    (ha : a ∈ o.span r x p (s.consumer w r).index) :
    o.view s.memory a = some ⟨r, x, p, (s.consumer w r).index⟩ := by
  have hi := Kernel.Reachable.inv h hs
  obtain ⟨hx, -⟩ := hi.read_head hr
  obtain ⟨hlt, hdue⟩ := hi.reading w r x tl hb hr
  have hidx : (s.consumer w r).index = h.released s r w % k.stages r := by
    rw [hi.consumer_eq]
    rfl
  rw [hidx] at ha ⊢
  rcases o.placed hs hx ⟨hlt, w, le_rfl⟩ hp ha with hf | hv
  · exact absurd ⟨rfl, rfl⟩ (hi.notMem_flight hx hdue hf)
  · exact hv

end Operands

end Sm120.Lib
