import Sm120.Flash.Kernels

namespace Sm120.Flash

open Lib Function

variable {S : Storage} {n : ℕ} {E : Epilogue n} {T : Tiles}

theorem isQ_site (t line : ℕ) : isQ (site t line) = decide (line = 0) := rfl

theorem qk_chain (T : Tiles) : (T.items .qk).IsChain fun x y ↦ ¬ (isQ x = true ∧ isQ y = true) := by
  have hbody : ∀ t kb, (qkItems t kb).IsChain fun x y ↦ ¬ (isQ x = true ∧ isQ y = true) := by
    intro t kb
    refine List.IsChain.cons (List.Pairwise.isChain ?_) ?_
    · exact List.pairwise_map.2 (List.pairwise_lt_range.imp fun _ ↦ by simp [isQ_site])
    · intro y hy
      obtain ⟨i, -, rfl⟩ := List.mem_map.1 (List.mem_of_mem_head? hy)
      simp [isQ_site]
  have hlast : ∀ t kb, 0 < kb → ∀ x ∈ (qkItems t kb).getLast?, isQ x = false := by
    intro t kb hkb x hx
    obtain ⟨m, rfl⟩ := Nat.exists_eq_succ_of_ne_zero hkb.ne'
    rw [qkItems, List.range_succ, List.map_append, List.map_singleton, ← List.cons_append,
      List.getLast?_concat, Option.mem_some_iff] at hx
    subst hx
    simp [isQ_site]
  have hgen : ∀ (l : List ℕ), (∀ kb ∈ l, 0 < kb) → ∀ t, (unroll qkItems t l).IsChain
      fun x y ↦ ¬ (isQ x = true ∧ isQ y = true) := by
    intro l
    induction l with
    | nil => exact fun _ _ ↦ .nil
    | cons kb l ih =>
      intro hl t
      refine (hbody t kb).append (ih (fun x hx ↦ hl x (List.mem_cons_of_mem _ hx)) (t + 1)) ?_
      intro x hx y _
      simp [hlast t kb (hl kb List.mem_cons_self) x hx]
  exact hgen T.blocks T.pos 0

theorem qk_adjacent {i : ℕ} {x y : Site} (hx : (T.items .qk)[i]? = some x)
    (hy : (T.items .qk)[i + 1]? = some y) : ¬ (isQ x = true ∧ isQ y = true) := by
  obtain ⟨_, rfl⟩ := List.getElem?_eq_some_iff.1 hx
  obtain ⟨hi, rfl⟩ := List.getElem?_eq_some_iff.1 hy
  exact (qk_chain T).getElem i hi

/-- Neighbours in the qk ring never overlap. -/
theorem itemSpan_disjoint_succ {i : ℕ} {x y : Site} (hx : (T.items .qk)[i]? = some x)
    (hy : (T.items .qk)[i + 1]? = some y) :
    Disjoint (itemSpan S .qk x (i % 2)) (itemSpan S .qk y ((i + 1) % 2)) := by
  have hne : i % 2 ≠ (i + 1) % 2 := by omega
  have hq := qk_adjacent hx hy
  simp only [itemSpan]
  split_ifs with h1 h2
  · exact absurd ⟨h1, h2⟩ hq
  · exact S.getSQ_disjoint_getSK (by omega) (by omega) hne
  · exact (S.getSQ_disjoint_getSK (by omega) (by omega) hne.symm).symm
  · exact S.getSK_disjoint hne

theorem itemSpan_disjoint_v (x y : Site) {i : ℕ} (hi : i < 2) (j : ℕ) :
    Disjoint (itemSpan S .qk x i) (itemSpan S .v y j) := by
  simp only [itemSpan]
  split_ifs
  · exact S.getSQ_disjoint_getSV hi
  · exact S.getSK_disjoint_getSV hi

section Operands

variable (S : Storage) (E : Epilogue n) (T : Tiles)

theorem issued_operand (r : Ring) (x : Site) (idx : ℕ) (m : Memory n) (a : ℕ)
    (h : ∀ p < (ctaKernel S E T).parts r, a ∉ itemSpan S r x idx) :
    ((ctaKernel S E T).issued r x idx m).operand a = m.operand a :=
  clear_of_notMem (h 0 Nat.one_pos)

theorem acted_operand (p : Party (Fin 127) (Fin n)) (x : Site) (e : Act) (m : Memory n) :
    ((ctaKernel S E T).acted p x e m).operand = m.operand := by
  cases p with
  | warp w => exact E.operand w x.tile e m
  | producer => rfl
  | lane i => rfl

theorem parts_unique (r : Ring) {p q : ℕ} (hp : p < (ctaKernel S E T).parts r)
    (hq : q < (ctaKernel S E T).parts r) : p = q := by
  simp only [ctaKernel] at hp hq
  omega

theorem items_disjoint (r : Ring) (i j : ℕ) (x y : Site) (hx : (T.items r)[i]? = some x)
    (hy : (T.items r)[j]? = some y) (hij : i < j) (hji : j < i + (ctaKernel S E T).stages r) :
    Disjoint (itemSpan S r x (i % (ctaKernel S E T).stages r))
      (itemSpan S r y (j % (ctaKernel S E T).stages r)) := by
  cases r with
  | qk =>
    simp only [ctaKernel] at hji
    obtain rfl : j = i + 1 := by omega
    exact itemSpan_disjoint_succ hx hy
  | v =>
    simp only [ctaKernel] at hji
    omega

theorem rings_disjoint (r r' : Ring) (i j : ℕ) (x y : Site) (hne : r ≠ r')
    (hi : i < (ctaKernel S E T).stages r) (hj : j < (ctaKernel S E T).stages r') :
    Disjoint (itemSpan S r x i) (itemSpan S r' y j) := by
  cases r <;> cases r'
  · exact absurd rfl hne
  · exact itemSpan_disjoint_v x y hi j
  · exact (itemSpan_disjoint_v y x hj i).symm
  · exact absurd rfl hne

def ctaOperands : Operands (ctaAligned S E T) where
  span r x _ idx := itemSpan S r x idx
  view := Memory.operand
  issued := issued_operand S E T
  landed _ _ := rfl
  acted := acted_operand S E T
  stored _ _ := rfl
  parts_disjoint r _ _ _ _ _ hp hq hne := absurd (parts_unique S E T r hp hq) hne
  items_disjoint r i j x y _ _ := items_disjoint S E T r i j x y
  rings_disjoint r r' i j x y _ _ := rings_disjoint S E T r r' i j x y

end Operands

structure DeliversOperands (S : Storage) (E : Epilogue n) (T : Tiles) : Prop where
  /-- the producer and every warp go through a ring in one order -/
  order : ∀ r, sites (Op.isLoad r) ((ctaKernel S E T).program .producer) = T.items r ∧
    ∀ w, sites (Op.isRead r) ((ctaKernel S E T).program (.warp w)) = T.items r
  /-- past its `j`-th wait, a warp reads the `j`-th item of the ring -/
  reads : ∀ s, (ctaKernel S E T).Reachable s → ∀ w r x tl,
    s.rest (.warp w) = ⟨x, .read r⟩ :: tl → s.busy (.warp w) = true →
      (T.items r)[(ctaAligned S E T).released s r w]? = some x ∧
      ∀ a ∈ itemSpan S r x (s.consumer w r).index,
        s.memory.operand a = some ⟨r, x, 0, (s.consumer w r).index⟩
  /-- no load in flight overlaps an issued item that some warp has not released -/
  loads : ∀ s, (ctaKernel S E T).Reachable s → ∀ c ∈ s.flight, ∀ r j x, (T.items r)[j]? = some x →
    j < s.total r → (∃ w, (ctaAligned S E T).released s r w ≤ j) → (r, x) ≠ (c.ring, c.site) →
      Disjoint (itemSpan S c.ring c.site c.slot) (itemSpan S r x (j % (ctaKernel S E T).stages r))

theorem deliversOperands [Nonempty (Fin n)] (S : Storage) (E : Epilogue n) (T : Tiles) :
    DeliversOperands S E T where
  order r := ⟨(ctaAligned S E T).producer_loads r, (ctaAligned S E T).warp_reads r⟩
  reads s hs w r x tl hr hb := by
    have hi := Kernel.Reachable.inv (ctaAligned S E T) hs
    exact ⟨(hi.read_head hr).1, fun a ha ↦ (ctaOperands S E T).reading hs hr hb Nat.one_pos ha⟩
  loads s hs c hc r j x hx hj hw hne := by
    have hi := Kernel.Reachable.inv (ctaAligned S E T) hs
    exact (ctaOperands S E T).flight_disjoint hi hc 0 hx ⟨hj, hw⟩ hne

theorem loads_delivered :
    (∀ (c : MMnNkN.Traits) (S : Storage) (T : Tiles), DeliversOperands S (c.epilogue S) T) ∧
      ∀ (c : MMn1k1.Traits) (S : Storage) (T : Tiles), DeliversOperands S c.epilogue T :=
  ⟨fun c S T ↦ deliversOperands S (c.epilogue S) T, fun c S T ↦ deliversOperands S c.epilogue T⟩

/-- All tiles are stored, and every thread is past its last barrier. -/
structure Final (S : Storage) (E : Epilogue n) (T : Tiles)
    (s : State (Fin 127) (Fin n) Ring Bar Act (Memory n) Site) : Prop where
  ended : ∀ p, s.rest p = []
  flight : s.flight = []
  stores : s.stores = []
  output : s.memory.output.Perm (unroll (fun t kb ↦ [after t kb 8]) 0 T.blocks)

theorem sites_store_other {p : Party (Fin 127) (Fin n)} (w : Fin n) (hw : w.val = 0)
    (hp : p ≠ .warp w) : sites Op.isStore ((ctaKernel S E T).program p) = [] := by
  cases p with
  | producer =>
    rw [sites_producer rfl]
    exact unroll_eq_nil fun t kb _ ↦ sites_operandLoop_nil t kb fun _ ↦ rfl
  | lane i => exact sites_lane i rfl
  | warp v =>
    have hv : v.val ≠ 0 := fun h0 ↦ hp (by rw [Fin.ext (h0.trans hw.symm)])
    have hnil : ∀ o ∈ E.ops v, o.2.isStore = false := by
      have h := E.stores v
      rw [if_neg hv, List.map_eq_nil_iff, List.filter_eq_nil_iff] at h
      exact fun o ho ↦ by simpa using h o ho
    rw [sites_warp v rfl hnil]
    exact unroll_eq_nil fun t kb _ ↦ sites_operandLoop_nil t kb fun _ ↦ rfl

theorem sites_store (w : Fin n) (hw : w.val = 0) :
    sites Op.isStore ((ctaKernel S E T).program (.warp w)) =
      unroll (fun t kb ↦ [after t kb 8]) 0 T.blocks := by
  rw [ctaKernel, sites_unroll]
  refine unroll_congr fun t kb _ ↦ ?_
  have h := epilogue_sites Op.isStore (E.ops w) t kb
  rw [E.stores w, if_pos hw] at h
  rw [consumerBody, sites_append, sites_append, sites_operandLoop_nil t kb fun _ ↦ rfl, h,
    tileBufferSync, sites_cons_of_neg _ _ rfl]
  rfl

theorem output_perm [Nonempty (Fin n)] {s : State (Fin 127) (Fin n) Ring Bar Act (Memory n) Site}
    (hs : (ctaKernel S E T).Reachable s) (w : Fin n) (hw : w.val = 0) :
    (∀ q ∈ s.stores, q.1 = .warp w) ∧
      (s.memory.output ++ s.stores.map Prod.snd ++ sites Op.isStore (s.rest (.warp w))).Perm
        (unroll (fun t kb ↦ [after t kb 8]) 0 T.blocks) := by
  have h := Kernel.Reachable.stores_perm Memory.output
    (fun q hq ↦ sites_store_other (S := S) (E := E) (T := T) w hw hq) rfl (fun _ _ _ _ ↦ rfl)
    (fun _ _ ↦ rfl) ?_ (fun _ _ ↦ rfl) (ctaAligned S E T) hs
  · rwa [sites_store w hw] at h
  · intro q x e m
    cases q with
    | warp v => exact E.output v x.tile e m
    | _ => rfl

theorem exists_step [Nonempty (Fin n)] {s : State (Fin 127) (Fin n) Ring Bar Act (Memory n) Site}
    (hs : (ctaKernel S E T).Reachable s) (hf : ¬ Final S E T s) :
    ∃ a t, (ctaKernel S E T).fire s a = some t := by
  have hi := Kernel.Reachable.inv (ctaAligned S E T) hs
  by_cases hrest : ∃ p, s.rest p ≠ []
  · obtain ⟨a, t, ht⟩ := hi.live hrest
    exact ⟨a, t, Kernel.fire_of_fired ht⟩
  · push Not at hrest
    cases hst : s.stores with
    | cons q qs =>
      exact ⟨.stored q.1 q.2, _,
        Kernel.fire_of_fired (.stored (by rw [hst]; exact List.mem_cons_self))⟩
    | nil =>
      obtain ⟨w⟩ := ‹Nonempty (Fin n)›
      have hperm := (output_perm hs ⟨0, w.pos⟩ rfl).2
      rw [hst, hrest] at hperm
      refine absurd ⟨hrest, hi.flight_eq_nil fun w ↦ hrest _, hst, ?_⟩ hf
      simpa using hperm

theorem length_le_of_lines {l : List (ℕ × FlashOp)} {m : ℕ} (hs : l.Pairwise fun a b ↦ a.1 < b.1)
    (hl : ∀ o ∈ l, o.1 < m) : l.length ≤ m := by
  have hsub : l.map Prod.fst ⊆ List.range m := by
    intro x hx
    obtain ⟨o, ho, rfl⟩ := List.mem_map.1 hx
    exact List.mem_range.2 (hl o ho)
  have hnd : (l.map Prod.fst).Nodup := List.pairwise_map.2 (hs.imp fun h ↦ h.ne)
  simpa using (List.subperm_of_subset hnd hsub).length_le

theorem cost_le (i : Line) : (ctaKernel S E T).cost i ≤ 2 := by
  unfold Kernel.cost
  split <;> simp [ctaKernel]

theorem cost_sum_le (l : List Line) : (l.map (ctaKernel S E T).cost).sum ≤ 2 * l.length := by
  have h := List.sum_le_card_nsmul (l.map (ctaKernel S E T).cost) 2 fun x hx ↦ by
    obtain ⟨i, -, rfl⟩ := List.mem_map.1 hx
    exact cost_le i
  simpa [Nat.mul_comm] using h

theorem unroll_length_le {body : ℕ → ℕ → List Line} {xs : List ℕ} {f : ℕ → ℕ} (t : ℕ)
    (h : ∀ t, ∀ x ∈ xs, (body t x).length ≤ f x) : (unroll body t xs).length ≤ (xs.map f).sum := by
  induction xs generalizing t with
  | nil => simp
  | cons x xs ih =>
    rw [unroll_cons, List.length_append, List.map_cons, List.sum_cons]
    exact Nat.add_le_add (h t x List.mem_cons_self)
      (ih (t + 1) fun t y hy ↦ h t y (List.mem_cons_of_mem _ hy))

theorem operandLoop_length (op : Ring → FlashOp) (t kb : ℕ) :
    (operandLoop op t kb).length = 2 * kb + 1 := by
  simp [operandLoop, List.length_flatMap, Nat.mul_comm]

theorem program_length_le (p : Party (Fin 127) (Fin n)) :
    ((ctaKernel S E T).program p).length ≤ (T.blocks.map fun kb ↦ 2 * kb + 12).sum := by
  cases p with
  | producer =>
    exact unroll_length_le 0 fun t kb _ ↦ by simp [producerBody, operandLoop_length]
  | lane i => exact unroll_length_le 0 fun t kb _ ↦ by simp
  | warp w =>
    refine unroll_length_le 0 fun t kb _ ↦ ?_
    have h := length_le_of_lines (E.sorted w) fun o ho ↦ E.line_lt w ho
    simp only [consumerBody, List.length_append, operandLoop_length, List.length_map,
      List.length_singleton]
    omega

/-- One CTA cannot deadlock: it moves until it is done, its runs are bounded by its tiles, and its
barriers never mix tiles. -/
structure DeadlockFree (S : Storage) (E : Epilogue n) (T : Tiles) : Prop where
  progress : ∀ s, (ctaKernel S E T).Reachable s → ¬ Final S E T s →
    ∃ a t, (ctaKernel S E T).fire s a = some t
  bounded : ∀ as s, (ctaKernel S E T).run (ctaKernel S E T).init as = some s →
    as.length ≤ (n + 128) * (2 * (T.blocks.map fun kb ↦ 2 * kb + 12).sum)
  rounds : ∀ p, (sites (Op.isSync .tileBuffer) ((ctaKernel S E T).program p)).map Site.tile =
    List.range T.blocks.length
  /-- the threads parked at a barrier stand at one place, and so does every thread about to join -/
  unmixed : ∀ s, (ctaKernel S E T).Reachable s → ∀ b p q x y tl tl', s.rest p = ⟨x, .sync b⟩ :: tl →
    s.rest q = ⟨y, .sync b⟩ :: tl' → s.parked b q = true → x = y

theorem deadlockFree [Nonempty (Fin n)] (S : Storage) (E : Epilogue n) (T : Tiles) :
    DeadlockFree S E T where
  progress s hs hf := exists_step hs hf
  bounded as s hr := by
    have h := Kernel.run_length_le (ctaAligned S E T) hr
    have hp : ∀ p ∈ Finset.univ, (((ctaKernel S E T).program p).map (ctaKernel S E T).cost).sum ≤
        2 * (T.blocks.map fun kb ↦ 2 * kb + 12).sum := fun p _ ↦
      (cost_sum_le _).trans (Nat.mul_le_mul_left _ (program_length_le p))
    have hcard : (Finset.univ : Finset (Party (Fin 127) (Fin n))).card = n + 128 := by
      rw [Finset.card_eq_sum_ones, sum_party]
      simp only [Finset.sum_const, Finset.card_univ, Fintype.card_fin, smul_eq_mul]
      omega
    have hsum := Finset.sum_le_card_nsmul Finset.univ _ _ hp
    rw [hcard, smul_eq_mul] at hsum
    exact h.trans hsum
  rounds p := by
    rw [sites_tileBuffer, barrierRounds]
    refine List.ext_getElem? fun j ↦ ?_
    rw [List.getElem?_map, unroll_singleton_getElem?, Option.map_map]
    by_cases hj : j < T.blocks.length
    · rw [List.getElem?_eq_getElem hj, List.getElem?_range hj, Option.map_some, Nat.zero_add]
      rfl
    · rw [List.getElem?_eq_none (Nat.le_of_not_lt hj), List.getElem?_eq_none (by simpa using hj)]
      rfl
  unmixed s hs b p q x y tl tl' hp hq _ := by
    have hi := Kernel.Reachable.inv (ctaAligned S E T) hs
    have h := hi.aligned b p q (hi.member_of_sync hp) (hi.member_of_sync hq)
    rw [hp, hq, sites_cons_of_pos _ _ (by simp [Op.isSync]),
      sites_cons_of_pos _ _ (by simp [Op.isSync]), List.cons.injEq] at h
    exact h.1

theorem no_deadlock :
    (∀ (c : MMnNkN.Traits) (S : Storage) (T : Tiles), DeadlockFree S (c.epilogue S) T) ∧
      ∀ (c : MMn1k1.Traits) (S : Storage) (T : Tiles), DeadlockFree S c.epilogue T :=
  ⟨fun c S T ↦ deadlockFree S (c.epilogue S) T, fun c S T ↦ deadlockFree S c.epilogue T⟩

end Sm120.Flash
