import Sm120.Lib.Cta

namespace Sm120.Lib

open Function

variable {L W R B A M σ : Type}

def Op.isLoad [DecidableEq R] (r : R) : Op R B A → Bool
  | .load q => q = r
  | _ => false

def Op.isRead [DecidableEq R] (r : R) : Op R B A → Bool
  | .read q => q = r
  | _ => false

def Op.isSync [DecidableEq B] (b : B) : Op R B A → Bool
  | .sync c => c = b
  | _ => false

def sites (q : Op R B A → Bool) (l : List (Instr σ R B A)) : List σ :=
  (l.filter fun i ↦ q i.op).map Instr.site

section Sites

variable (q : Op R B A → Bool)

@[simp] theorem sites_nil : sites q ([] : List (Instr σ R B A)) = [] := rfl

@[simp] theorem sites_append (l m : List (Instr σ R B A)) :
    sites q (l ++ m) = sites q l ++ sites q m := by
  simp [sites]

theorem sites_cons (i : Instr σ R B A) (l : List (Instr σ R B A)) :
    sites q (i :: l) = if q i.op then i.site :: sites q l else sites q l := by
  simp only [sites, List.filter_cons]
  split_ifs <;> rfl

@[simp] theorem sites_cons_of_pos {x : σ} {op : Op R B A} (l : List (Instr σ R B A))
    (h : q op = true) : sites q (⟨x, op⟩ :: l) = x :: sites q l := by
  rw [sites_cons, if_pos h]

@[simp] theorem sites_cons_of_neg {x : σ} {op : Op R B A} (l : List (Instr σ R B A))
    (h : q op = false) : sites q (⟨x, op⟩ :: l) = sites q l := by
  rw [sites_cons, if_neg (by simp [h])]

theorem mem_sites {q : Op R B A → Bool} {l : List (Instr σ R B A)} {x : σ} :
    x ∈ sites q l ↔ ∃ op, q op = true ∧ (⟨x, op⟩ : Instr σ R B A) ∈ l := by
  simp only [sites, List.mem_map, List.mem_filter]
  constructor
  · rintro ⟨⟨y, op⟩, ⟨hm, hq⟩, rfl⟩
    exact ⟨op, hq, hm⟩
  · rintro ⟨op, hq, hm⟩
    exact ⟨⟨x, op⟩, ⟨hm, hq⟩, rfl⟩

theorem sites_suffix {l m : List (Instr σ R B A)} (h : l <:+ m) : sites q l <:+ sites q m :=
  (h.filter _).map _

theorem sites_flatMap {α : Type} (f : α → List (Instr σ R B A)) (l : List α) :
    sites q (l.flatMap f) = l.flatMap fun a ↦ sites q (f a) := by
  induction l with
  | nil => rfl
  | cons a l ih => simp [ih]

end Sites

theorem sum_party [Fintype L] [Fintype W] (f : Party L W → ℕ) :
    ∑ p, f p = f .producer + ∑ i, f (.lane i) + ∑ w, f (.warp w) := by
  rw [← (Party.proxyTypeEquiv L W).sum_comp f, Fintype.sum_sum_type, Fintype.sum_sum_type,
    Fintype.sum_unique, ← Nat.add_assoc]
  rfl

section Aligned

variable [DecidableEq R] [DecidableEq B] [Fintype L] [Fintype W] [LinearOrder σ]

/-- The kernels whose parties agree with each other: every program runs through its sites in order,
the producer loads each ring in the order the warps read it, and the members of a barrier meet it at
the same sites. -/
structure Aligned (k : Kernel L W R B A M σ) where
  items : R → List σ
  rounds : B → List σ
  sorted : ∀ p, (k.program p).Pairwise fun i j ↦ i.site < j.site
  producer_loads : ∀ r, sites (Op.isLoad r) (k.program .producer) = items r
  warp_reads : ∀ r w, sites (Op.isRead r) (k.program (.warp w)) = items r
  other_loads : ∀ r p, p ≠ .producer → sites (Op.isLoad r) (k.program p) = []
  other_reads : ∀ r p, (∀ w, p ≠ .warp w) → sites (Op.isRead r) (k.program p) = []
  member_syncs : ∀ b p, k.member b p = true → sites (Op.isSync b) (k.program p) = rounds b
  other_syncs : ∀ b p, k.member b p = false → sites (Op.isSync b) (k.program p) = []
  threads_pos : 0 < k.threads
  stages_pos : ∀ r, 0 < k.stages r
  parts_pos : ∀ r, 0 < k.parts r
  bytes_pos : ∀ r x j, j < k.parts r → 0 < k.bytes r x j
  expect_eq : ∀ r x, k.expect r x = ((List.range (k.parts r)).map (k.bytes r x)).sum
  emptyCount_eq : ∀ r, k.emptyCount r = k.threads * Fintype.card W
  count_eq : ∀ b, k.count b = ∑ p with k.member b p = true, k.threadsOf p

end Aligned

theorem drop_cons_iff {α : Type} {l m : List α} {n : ℕ} {x : α} :
    l.drop n = x :: m ↔ l[n]? = some x ∧ l.drop (n + 1) = m := by
  constructor
  · intro h
    have hn : n < l.length := by
      by_contra hlt
      simp [List.drop_eq_nil_of_le (Nat.le_of_not_lt hlt)] at h
    rw [List.drop_eq_getElem_cons hn, List.cons.injEq] at h
    exact ⟨by rw [List.getElem?_eq_getElem hn, h.1], h.2⟩
  · rintro ⟨h, rfl⟩
    obtain ⟨hn, rfl⟩ := List.getElem?_eq_some_iff.1 h
    exact List.drop_eq_getElem_cons hn

section Counters

variable [DecidableEq R] [DecidableEq B] [Fintype L] [Fintype W] [LinearOrder σ]
variable {k : Kernel L W R B A M σ}

def Aligned.released (h : Aligned k) (s : State L W R B A M σ) (r : R) (w : W) : ℕ :=
  (h.items r).length - (sites (Op.isRead r) (s.rest (.warp w))).length

def State.outstanding (k : Kernel L W R B A M σ) (s : State L W R B A M σ) (r : R) (x : σ) : ℕ :=
  ((s.flight.filter fun c ↦ c.ring = r ∧ c.site = x).map fun c ↦ k.bytes c.ring c.site c.part).sum

def Aligned.due (h : Aligned k) (s : State L W R B A M σ) (r : R) (j : ℕ) : ℕ :=
  ((h.items r)[j]?.map (s.outstanding k r)).getD 0

end Counters

end Sm120.Lib
