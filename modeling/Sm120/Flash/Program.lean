import Sm120.Flash.Storage
import Sm120.Lib.Operands
import Sm120.Lib.Window
import Sm120.Lib.TileLoop

namespace Sm120.Flash

open Lib Function

inductive Ring
  | qk
  | v
deriving DecidableEq, Repr

inductive Bar
  | epilogue
  | tileBuffer
deriving DecidableEq, Repr

inductive Stat
  | rowMax
  | rowSum
deriving DecidableEq, Repr

/-- What the consumer warps do to shared memory after the k loop of a tile. -/
inductive Act
  | statsWrite
  | statsRead
  | partialWrite
  | partialRead
  | outWrite
deriving DecidableEq, Repr

def Act.line : Act → ℕ
  | .statsWrite => 0
  | .statsRead => 2
  | .partialWrite => 3
  | .partialRead => 5
  | .outWrite => 6

/-- The `k_blocks` of each tile of a CTA, in the order of its persistent loop. -/
structure Tiles where
  blocks : List ℕ
  pos : ∀ kb ∈ blocks, 0 < kb

/-- What an element of the QKV array holds, by its last writer. -/
inductive Cell (n : ℕ)
  | load (c : Copy Ring Site)
  | part (t : ℕ) (w : Fin n)
  | out (t : ℕ) (w : Fin n)
deriving DecidableEq

structure Memory (n : ℕ) where
  /-- the QKV array as the loads alone write it -/
  operand : ℕ → Option (Copy Ring Site)
  qkv : ℕ → Option (Cell n)
  /-- the writers of each slot of `row_max` and `row_sum`, with their tiles, in order -/
  stats : Stat → ℕ → List (ℕ × Fin n)
  /-- the finished stores of O tiles -/
  output : List Site

abbrev Line := Instr Site Ring Bar Act

abbrev FlashOp := Op Ring Bar Act

abbrev CtaState (n : ℕ) := State (Fin 127) (Fin n) Ring Bar Act (Memory n) Site

/-- Q, then K and V of each block. -/
def operandLoop (op : Ring → FlashOp) (t kb : ℕ) : List Line :=
  ⟨site t 0, op .qk⟩ ::
    (List.range kb).flatMap fun i ↦ [⟨site t (2 * i + 1), op .qk⟩, ⟨site t (2 * i + 2), op .v⟩]

def after (t kb e : ℕ) : Site := site t (2 * kb + 1 + e)

def tileBufferSync (t kb : ℕ) : Line := ⟨after t kb 10, .sync .tileBuffer⟩

/-- Everything a warp may do between the k loop and `tile_buffer_sync`, by line. -/
def epilogueLines : List (ℕ × FlashOp) :=
  [(0, .act .statsWrite), (1, .sync .epilogue), (2, .act .statsRead), (3, .act .partialWrite),
    (4, .sync .epilogue), (5, .act .partialRead), (6, .act .outWrite), (7, .sync .epilogue),
    (8, .store), (9, .drain)]

/-- What each warp runs between the k loop and `tile_buffer_sync`, and what it does to memory. -/
structure Epilogue (n : ℕ) where
  ops : Fin n → List (ℕ × FlashOp)
  acted : Fin n → ℕ → Act → Memory n → Memory n
  rounds : List ℕ
  sublist : ∀ w, (ops w).Sublist epilogueLines
  syncs : ∀ w, ((ops w).filter fun o ↦ o.2.isSync .epilogue).map Prod.fst = rounds
  stores : ∀ w, ((ops w).filter fun o ↦ o.2.isStore).map Prod.fst = if w.val = 0 then [8] else []
  operand : ∀ w t e m, (acted w t e m).operand = m.operand
  output : ∀ w t e m, (acted w t e m).output = m.output

namespace Epilogue

variable {n : ℕ} (E : Epilogue n) (w : Fin n)

theorem sorted : (E.ops w).Pairwise fun a b ↦ a.1 < b.1 :=
  List.Pairwise.sublist (E.sublist w) (by decide)

theorem line_lt {o : ℕ × FlashOp} (h : o ∈ E.ops w) : o.1 < 10 :=
  (show ∀ o ∈ epilogueLines, o.1 < 10 by decide) o ((E.sublist w).subset h)

theorem no_load {o : ℕ × FlashOp} (h : o ∈ E.ops w) (r : Ring) : o.2.isLoad r = false :=
  (show ∀ o ∈ epilogueLines, o.2.isLoad r = false by cases r <;> decide) o ((E.sublist w).subset h)

theorem no_read {o : ℕ × FlashOp} (h : o ∈ E.ops w) (r : Ring) : o.2.isRead r = false :=
  (show ∀ o ∈ epilogueLines, o.2.isRead r = false by cases r <;> decide) o ((E.sublist w).subset h)

theorem no_tileBuffer {o : ℕ × FlashOp} (h : o ∈ E.ops w) : o.2.isSync .tileBuffer = false :=
  (show ∀ o ∈ epilogueLines, o.2.isSync .tileBuffer = false by decide) o ((E.sublist w).subset h)

end Epilogue

def producerBody (t kb : ℕ) : List Line := operandLoop .load t kb ++ [tileBufferSync t kb]

def consumerBody (ops : List (ℕ × FlashOp)) (t kb : ℕ) : List Line :=
  operandLoop .read t kb ++ ops.map (fun o ↦ ⟨after t kb o.1, o.2⟩) ++ [tileBufferSync t kb]

def isQ (x : Site) : Bool := x.line = 0

def itemSize (S : Storage) : Ring → Site → ℕ
  | .qk, x => if isQ x then S.qSize else S.kSize
  | .v, _ => S.vSize

def itemSpan (S : Storage) : Ring → Site → ℕ → Finset ℕ
  | .qk, x, idx => if isQ x then S.getSQ idx else S.getSK idx
  | .v, _, _ => S.getSV

/-- One CTA of `flash_atten_v3_fwd` with `n` consumer warps. -/
def ctaKernel (S : Storage) {n : ℕ} (E : Epilogue n) (T : Tiles) :
    Kernel (Fin 127) (Fin n) Ring Bar Act (Memory n) Site where
  program
    | .producer => unroll producerBody 0 T.blocks
    | .lane _ => unroll (fun t kb ↦ [tileBufferSync t kb]) 0 T.blocks
    | .warp w => unroll (consumerBody (E.ops w)) 0 T.blocks
  threads := 32
  stages
    | .qk => 2
    | .v => 1
  start _ := .ahead
  parts _ := 1
  bytes r x _ := 2 * itemSize S r x
  expect r x := 2 * itemSize S r x
  emptyCount _ := n * 32
  member
    | .epilogue, .warp _ => true
    | .epilogue, _ => false
    | .tileBuffer, _ => true
  count
    | .epilogue => n * 32
    | .tileBuffer => (n + 4) * 32
  memory := ⟨fun _ ↦ none, fun _ ↦ none, fun _ _ ↦ [], []⟩
  issued r x idx m :=
    { m with
      operand := clear (itemSpan S r x idx) m.operand
      qkv := clear (itemSpan S r x idx) m.qkv }
  landed c m :=
    { m with
      operand := fill (itemSpan S c.ring c.site c.slot) c m.operand
      qkv := fill (itemSpan S c.ring c.site c.slot) (.load c) m.qkv }
  acted p x e m :=
    match p with
    | .warp w => E.acted w x.tile e m
    | _ => m
  stored x m := { m with output := m.output ++ [x] }

def qkItems (t kb : ℕ) : List Site := site t 0 :: (List.range kb).map fun i ↦ site t (2 * i + 1)

def vItems (t kb : ℕ) : List Site := (List.range kb).map fun i ↦ site t (2 * i + 2)

def Tiles.items (T : Tiles) : Ring → List Site
  | .qk => unroll qkItems 0 T.blocks
  | .v => unroll vItems 0 T.blocks

theorem flatMap_singleton_eq {α β : Type} (f : α → β) (l : List α) :
    (l.flatMap fun a ↦ [f a]) = l.map f := by
  induction l with
  | nil => rfl
  | cons a l ih => simp [ih]

theorem sites_operandLoop {f : FlashOp → Bool} {op : Ring → FlashOp} (t kb : ℕ)
    (hq : f (op .qk) = true) (hv : f (op .v) = false) :
    sites f (operandLoop op t kb) = qkItems t kb := by
  rw [operandLoop, sites_cons_of_pos _ _ hq, sites_flatMap, qkItems, ← flatMap_singleton_eq]
  simp [hq, hv]

theorem sites_operandLoop_v {f : FlashOp → Bool} {op : Ring → FlashOp} (t kb : ℕ)
    (hq : f (op .qk) = false) (hv : f (op .v) = true) :
    sites f (operandLoop op t kb) = vItems t kb := by
  rw [operandLoop, sites_cons_of_neg _ _ hq, sites_flatMap, vItems, ← flatMap_singleton_eq]
  simp [hq, hv]

theorem sites_operandLoop_nil {f : FlashOp → Bool} {op : Ring → FlashOp} (t kb : ℕ)
    (h : ∀ r, f (op r) = false) : sites f (operandLoop op t kb) = [] := by
  rw [operandLoop, sites_cons_of_neg _ _ (h _), sites_flatMap]
  simp [h]

theorem mem_operandLoop {op : Ring → FlashOp} {t kb : ℕ} {i : Line} (h : i ∈ operandLoop op t kb) :
    i.site.tile = t ∧ i.site.line < 2 * kb + 1 := by
  simp only [operandLoop, List.mem_cons, List.mem_flatMap, List.mem_range, List.not_mem_nil,
    or_false] at h
  rcases h with rfl | ⟨j, hj, rfl | rfl⟩ <;> simp <;> omega

theorem operandLoop_op {op : Ring → FlashOp} {t kb : ℕ} {i : Line} (h : i ∈ operandLoop op t kb) :
    ∃ r, i.op = op r := by
  simp only [operandLoop, List.mem_cons, List.mem_flatMap, List.not_mem_nil, or_false] at h
  rcases h with rfl | ⟨j, -, rfl | rfl⟩
  · exact ⟨.qk, rfl⟩
  · exact ⟨.qk, rfl⟩
  · exact ⟨.v, rfl⟩

theorem operandLoop_sorted (op : Ring → FlashOp) (t kb : ℕ) :
    (operandLoop op t kb).Pairwise fun i j ↦ i.site < j.site := by
  rw [operandLoop, List.pairwise_cons, List.pairwise_flatMap]
  refine ⟨?_, ?_, ?_⟩
  · intro i hi
    simp only [List.mem_flatMap, List.mem_cons, List.not_mem_nil, or_false] at hi
    rcases hi with ⟨j, -, rfl | rfl⟩ <;> simp [Site.lt_iff]
  · intro j _
    simp [Site.lt_iff]
  · refine List.pairwise_lt_range.imp fun {a b} hab i hi j hj ↦ ?_
    simp only [List.mem_cons, List.not_mem_nil, or_false] at hi hj
    rcases hi with rfl | rfl <;> rcases hj with rfl | rfl <;>
      exact Site.lt_iff.2 (.inr ⟨rfl, by omega⟩)

section Aligned

variable {S : Storage} {n : ℕ} {E : Epilogue n} {T : Tiles}

theorem epilogue_sites_nil {f : FlashOp → Bool} {ops : List (ℕ × FlashOp)} (t kb : ℕ)
    (h : ∀ o ∈ ops, f o.2 = false) :
    sites f (ops.map fun o ↦ (⟨after t kb o.1, o.2⟩ : Line)) = [] := by
  rw [List.eq_nil_iff_forall_not_mem]
  intro x hx
  obtain ⟨op, hop, hm⟩ := mem_sites.1 hx
  obtain ⟨o, ho, he⟩ := List.mem_map.1 hm
  cases he
  simp [h o ho] at hop

theorem epilogue_sites (f : FlashOp → Bool) (ops : List (ℕ × FlashOp)) (t kb : ℕ) :
    sites f (ops.map fun o ↦ (⟨after t kb o.1, o.2⟩ : Line)) =
      ((ops.filter fun o ↦ f o.2).map Prod.fst).map (after t kb) := by
  simp only [sites, List.filter_map, List.map_map]
  rfl

theorem consumerBody_mem {ops : List (ℕ × FlashOp)} {t kb : ℕ} {i : Line}
    (h : i ∈ consumerBody ops t kb) : i.site.tile = t := by
  simp only [consumerBody, List.mem_append, List.mem_map, List.mem_singleton] at h
  rcases h with (h | ⟨o, -, rfl⟩) | rfl
  · exact (mem_operandLoop h).1
  · rfl
  · rfl

theorem consumerBody_sorted (E : Epilogue n) (w : Fin n) (t kb : ℕ) :
    (consumerBody (E.ops w) t kb).Pairwise fun i j ↦ i.site < j.site := by
  simp only [consumerBody, List.pairwise_append, List.pairwise_singleton, List.mem_append,
    List.mem_map, List.mem_singleton]
  refine ⟨⟨operandLoop_sorted _ t kb, ?_, ?_⟩, trivial, ?_⟩
  · refine List.pairwise_map.2 ((E.sorted w).imp fun {a b} hab ↦ Site.lt_iff.2 (.inr ⟨rfl, ?_⟩))
    omega
  · rintro i hi _ ⟨o, -, rfl⟩
    obtain ⟨ht, hl⟩ := mem_operandLoop hi
    rw [← i.site.eta, ht]
    exact Site.lt_iff.2 (.inr ⟨rfl, by omega⟩)
  · rintro i hi j rfl
    rcases hi with hi | ⟨o, ho, rfl⟩
    · obtain ⟨ht, hl⟩ := mem_operandLoop hi
      rw [← i.site.eta, ht]
      exact Site.lt_iff.2 (.inr ⟨rfl, by omega⟩)
    · have := E.line_lt w ho
      exact Site.lt_iff.2 (.inr ⟨rfl, by omega⟩)

theorem producerBody_mem {t kb : ℕ} {i : Line} (h : i ∈ producerBody t kb) : i.site.tile = t := by
  simp only [producerBody, List.mem_append, List.mem_singleton] at h
  rcases h with h | rfl
  · exact (mem_operandLoop h).1
  · rfl

theorem producerBody_sorted (t kb : ℕ) : (producerBody t kb).Pairwise fun i j ↦
    i.site < j.site := by
  simp only [producerBody, List.pairwise_append, List.pairwise_singleton, List.mem_singleton]
  refine ⟨operandLoop_sorted _ t kb, trivial, ?_⟩
  rintro i hi j rfl
  obtain ⟨ht, hl⟩ := mem_operandLoop hi
  rw [← i.site.eta, ht]
  exact Site.lt_iff.2 (.inr ⟨rfl, by omega⟩)

theorem sites_producer {f : FlashOp → Bool} (h : f (.sync .tileBuffer) = false) :
    sites f ((ctaKernel S E T).program .producer) =
      unroll (fun t kb ↦ sites f (operandLoop .load t kb)) 0 T.blocks := by
  rw [ctaKernel, sites_unroll]
  exact unroll_congr fun t kb _ ↦ by simp [producerBody, tileBufferSync, h]

theorem sites_warp {f : FlashOp → Bool} (w : Fin n) (h : f (.sync .tileBuffer) = false)
    (hE : ∀ o ∈ E.ops w, f o.2 = false) :
    sites f ((ctaKernel S E T).program (.warp w)) =
      unroll (fun t kb ↦ sites f (operandLoop .read t kb)) 0 T.blocks := by
  rw [ctaKernel, sites_unroll]
  exact unroll_congr fun t kb _ ↦ by
    simp [consumerBody, tileBufferSync, h, epilogue_sites_nil t kb hE]

theorem sites_lane {f : FlashOp → Bool} (i : Fin 127) (h : f (.sync .tileBuffer) = false) :
    sites f ((ctaKernel S E T).program (.lane i)) = [] := by
  rw [ctaKernel, sites_unroll]
  exact unroll_eq_nil fun t kb _ ↦ by simp [tileBufferSync, h]

def barrierRounds (E : Epilogue n) (T : Tiles) : Bar → List Site
  | .epilogue => unroll (fun t kb ↦ E.rounds.map (after t kb)) 0 T.blocks
  | .tileBuffer => unroll (fun t kb ↦ [after t kb 10]) 0 T.blocks

theorem sites_tileBuffer (p : Party (Fin 127) (Fin n)) :
    sites (Op.isSync .tileBuffer) ((ctaKernel S E T).program p) =
      barrierRounds E T .tileBuffer := by
  have hop : ∀ op : Ring → FlashOp, (∀ r, (op r).isSync .tileBuffer = false) → ∀ t kb,
      sites (Op.isSync .tileBuffer) (operandLoop op t kb) = [] :=
    fun op h t kb ↦ sites_operandLoop_nil t kb h
  cases p with
  | producer =>
    rw [ctaKernel, sites_unroll]
    exact unroll_congr fun t kb _ ↦ by
      simp [producerBody, tileBufferSync, hop .load fun _ ↦ rfl, Op.isSync]
  | lane i =>
    rw [ctaKernel, sites_unroll]
    exact unroll_congr fun t kb _ ↦ by simp [tileBufferSync, Op.isSync]
  | warp w =>
    rw [ctaKernel, sites_unroll]
    exact unroll_congr fun t kb _ ↦ by
      simp [consumerBody, tileBufferSync, hop .read fun _ ↦ rfl, Op.isSync,
        epilogue_sites_nil t kb (fun o ho ↦ E.no_tileBuffer w ho)]

theorem sites_epilogue (w : Fin n) :
    sites (Op.isSync .epilogue) ((ctaKernel S E T).program (.warp w)) =
      barrierRounds E T .epilogue := by
  rw [ctaKernel, sites_unroll]
  exact unroll_congr fun t kb _ ↦ by
    have hop : sites (Op.isSync .epilogue) (operandLoop .read t kb) = [] :=
      sites_operandLoop_nil t kb fun _ ↦ rfl
    rw [← E.syncs w, ← epilogue_sites]
    simp [consumerBody, tileBufferSync, hop, Op.isSync]

theorem itemSize_pos (S : Storage) (r : Ring) (x : Site) : 0 < itemSize S r x := by
  have hq := S.qSize_pos
  have hk := S.kSize_pos
  cases r with
  | qk =>
    simp only [itemSize]
    split_ifs <;> omega
  | v => exact hk

section Aligned

variable (S E T)

theorem program_sorted (p : Party (Fin 127) (Fin n)) :
    ((ctaKernel S E T).program p).Pairwise fun i j ↦ i.site < j.site := by
  cases p with
  | producer =>
    exact unroll_sorted (fun t kb _ ↦ producerBody_sorted t kb) fun t kb _ i hi ↦
      producerBody_mem hi
  | lane i =>
    exact unroll_sorted (fun t kb _ ↦ List.pairwise_singleton _ _)
      fun t kb _ i hi ↦ by rw [List.mem_singleton.1 hi]; rfl
  | warp w =>
    exact unroll_sorted (fun t kb _ ↦ consumerBody_sorted E w t kb)
      fun t kb _ i hi ↦ consumerBody_mem hi

theorem producer_loads (r : Ring) :
    sites (Op.isLoad r) ((ctaKernel S E T).program .producer) = T.items r := by
  rw [sites_producer (by rfl)]
  cases r with
  | qk => exact unroll_congr fun t kb _ ↦ sites_operandLoop t kb rfl rfl
  | v => exact unroll_congr fun t kb _ ↦ sites_operandLoop_v t kb rfl rfl

theorem warp_reads (r : Ring) (w : Fin n) :
    sites (Op.isRead r) ((ctaKernel S E T).program (.warp w)) = T.items r := by
  rw [sites_warp w (by rfl) fun o ho ↦ E.no_read w ho r]
  cases r with
  | qk => exact unroll_congr fun t kb _ ↦ sites_operandLoop t kb rfl rfl
  | v => exact unroll_congr fun t kb _ ↦ sites_operandLoop_v t kb rfl rfl

theorem other_loads (r : Ring) (p : Party (Fin 127) (Fin n)) (hp : p ≠ .producer) :
    sites (Op.isLoad r) ((ctaKernel S E T).program p) = [] := by
  cases p with
  | producer => exact absurd rfl hp
  | lane i => exact sites_lane i rfl
  | warp w =>
    rw [sites_warp w (by rfl) fun o ho ↦ E.no_load w ho r]
    exact unroll_eq_nil fun t kb _ ↦ sites_operandLoop_nil t kb fun _ ↦ rfl

theorem other_reads (r : Ring) (p : Party (Fin 127) (Fin n)) (hp : ∀ w, p ≠ .warp w) :
    sites (Op.isRead r) ((ctaKernel S E T).program p) = [] := by
  cases p with
  | producer =>
    rw [sites_producer (by rfl)]
    exact unroll_eq_nil fun t kb _ ↦ sites_operandLoop_nil t kb fun _ ↦ rfl
  | lane i => exact sites_lane i rfl
  | warp w => exact absurd rfl (hp w)

theorem member_syncs (b : Bar) (p : Party (Fin 127) (Fin n))
    (hp : (ctaKernel S E T).member b p = true) :
    sites (Op.isSync b) ((ctaKernel S E T).program p) = barrierRounds E T b := by
  cases b with
  | tileBuffer => exact sites_tileBuffer p
  | epilogue =>
    cases p with
    | warp w => exact sites_epilogue w
    | producer => cases hp
    | lane i => cases hp

theorem other_syncs (b : Bar) (p : Party (Fin 127) (Fin n))
    (hp : (ctaKernel S E T).member b p = false) :
    sites (Op.isSync b) ((ctaKernel S E T).program p) = [] := by
  cases b with
  | tileBuffer => cases hp
  | epilogue =>
    cases p with
    | warp w => cases hp
    | producer =>
      rw [sites_producer (by rfl)]
      exact unroll_eq_nil fun t kb _ ↦ sites_operandLoop_nil t kb fun _ ↦ rfl
    | lane i => exact sites_lane i rfl

theorem threads_pos : 0 < (ctaKernel S E T).threads := by simp [ctaKernel]

theorem stages_pos (r : Ring) : 0 < (ctaKernel S E T).stages r := by cases r <;> simp [ctaKernel]

theorem bytes_pos (r : Ring) (x : Site) (j : ℕ) : 0 < (ctaKernel S E T).bytes r x j :=
  Nat.mul_pos Nat.two_pos (itemSize_pos S r x)

theorem expect_eq (r : Ring) (x : Site) : (ctaKernel S E T).expect r x =
    ((List.range ((ctaKernel S E T).parts r)).map ((ctaKernel S E T).bytes r x)).sum := by
  simp [ctaKernel]

theorem emptyCount_eq (r : Ring) : (ctaKernel S E T).emptyCount r =
    (ctaKernel S E T).threads * Fintype.card (Fin n) := by
  simp [ctaKernel, Nat.mul_comm]

theorem count_eq (b : Bar) : (ctaKernel S E T).count b =
    ∑ p with (ctaKernel S E T).member b p = true, (ctaKernel S E T).threadsOf p := by
  rw [Finset.sum_filter, sum_party]
  cases b with
  | epilogue => simp [ctaKernel, Kernel.threadsOf]
  | tileBuffer =>
    simp only [ctaKernel, Kernel.threadsOf, if_true, Finset.sum_const, Finset.card_univ,
      Fintype.card_fin, smul_eq_mul]
    omega

def ctaAligned : Aligned (ctaKernel S E T) where
  items := T.items
  rounds := barrierRounds E T
  sorted := program_sorted S E T
  producer_loads := producer_loads S E T
  warp_reads := warp_reads S E T
  other_loads := other_loads S E T
  other_reads := other_reads S E T
  member_syncs := member_syncs S E T
  other_syncs := other_syncs S E T
  threads_pos := threads_pos S E T
  stages_pos := stages_pos S E T
  parts_pos _ := Nat.one_pos
  bytes_pos r x j _ := bytes_pos S E T r x j
  expect_eq := expect_eq S E T
  emptyCount_eq := emptyCount_eq S E T
  count_eq := count_eq S E T

end Aligned

theorem mem_program_warp {w : Fin n} {i : Line} : i ∈ (ctaKernel S E T).program (.warp w) ↔
    ∃ t kb, T.blocks[t]? = some kb ∧ i ∈ consumerBody (E.ops w) t kb := by
  simp only [ctaKernel, mem_unroll, Nat.zero_add]

theorem mem_items_qk {x : Site} : x ∈ T.items .qk ↔ ∃ t kb, T.blocks[t]? = some kb ∧
    (x = site t 0 ∨ ∃ i < kb, x = site t (2 * i + 1)) := by
  simp only [Tiles.items, mem_unroll, Nat.zero_add, qkItems, List.mem_cons, List.mem_map,
    List.mem_range, eq_comm (a := site _ (2 * _ + 1))]

theorem mem_items_v {x : Site} : x ∈ T.items .v ↔ ∃ t kb, T.blocks[t]? = some kb ∧
    ∃ i < kb, x = site t (2 * i + 2) := by
  simp only [Tiles.items, mem_unroll, Nat.zero_add, vItems, List.mem_map, List.mem_range,
    eq_comm (a := site _ (2 * _ + 2))]

theorem act_line {l : ℕ} {e : Act} (h : (l, .act e) ∈ epilogueLines) : l = e.line := by
  cases e <;> simpa [epilogueLines, Act.line] using h

theorem mem_program_act {w : Fin n} {x : Site} {e : Act} :
    (⟨x, .act e⟩ : Line) ∈ (ctaKernel S E T).program (.warp w) ↔
      ∃ t kb, T.blocks[t]? = some kb ∧ (e.line, .act e) ∈ E.ops w ∧ x = after t kb e.line := by
  rw [mem_program_warp]
  constructor
  · rintro ⟨t, kb, ht, hm⟩
    simp only [consumerBody, List.mem_append, List.mem_map, List.mem_singleton] at hm
    rcases hm with (hm | ⟨o, ho, he⟩) | hm
    · obtain ⟨r, hr⟩ := operandLoop_op hm
      cases hr
    · obtain ⟨l, op⟩ := o
      cases he
      obtain rfl := act_line ((E.sublist w).subset ho)
      exact ⟨t, kb, ht, ho, rfl⟩
    · cases hm
  · rintro ⟨t, kb, ht, ho, rfl⟩
    refine ⟨t, kb, ht, ?_⟩
    simp only [consumerBody, List.mem_append, List.mem_map]
    exact .inl (.inr ⟨_, ho, rfl⟩)

variable {s : CtaState n} {t kb : ℕ}

theorem mem_rounds_tileBuffer (ht : T.blocks[t]? = some kb) :
    after t kb 10 ∈ barrierRounds E T .tileBuffer :=
  mem_unroll.2 ⟨t, kb, ht, by simp⟩

theorem mem_rounds_epilogue (ht : T.blocks[t]? = some kb) {l : ℕ} (hl : l ∈ E.rounds) :
    after t kb l ∈ barrierRounds E T .epilogue :=
  mem_unroll.2 ⟨t, kb, ht, by simpa using List.mem_map_of_mem (f := after t kb) hl⟩

/-- All threads pass the end of a tile together. -/
theorem tileBuffer_lt_iff (hi : (ctaAligned S E T).Inv s) (ht : T.blocks[t]? = some kb)
    (p q : Party (Fin 127) (Fin n)) :
    (after t kb 10 : WithTop Site) < s.clock p ↔ (after t kb 10 : WithTop Site) < s.clock q :=
  hi.sync_lt_iff (b := .tileBuffer) (mem_rounds_tileBuffer (E := E) ht) rfl rfl

theorem epilogue_lt_iff (hi : (ctaAligned S E T).Inv s) (ht : T.blocks[t]? = some kb) {l : ℕ}
    (hl : l ∈ E.rounds) (w v : Fin n) :
    (after t kb l : WithTop Site) < s.clock (.warp w) ↔
    (after t kb l : WithTop Site) < s.clock (.warp v) :=
  hi.sync_lt_iff (b := .epilogue) (mem_rounds_epilogue (E := E) ht hl) rfl rfl

theorem after_lt {t kb l t' kb' l' : ℕ} (ht : T.blocks[t]? = some kb)
    (ht' : T.blocks[t']? = some kb') :
    after t kb l < after t' kb' l' ↔ t < t' ∨ t = t' ∧ l < l' := by
  rw [after, after, Site.lt_iff]
  constructor
  · rintro (h | ⟨rfl, h⟩)
    · exact .inl h
    · obtain rfl := Option.some_injective _ (ht.symm.trans ht')
      exact .inr ⟨rfl, by omega⟩
  · rintro (h | ⟨rfl, h⟩)
    · exact .inl h
    · obtain rfl := Option.some_injective _ (ht.symm.trans ht')
      exact .inr ⟨rfl, by omega⟩

theorem items_line {r : Ring} {y : Site} (hy : y ∈ T.items r) :
    ∃ kb, T.blocks[y.tile]? = some kb ∧ y.line < 2 * kb + 1 := by
  cases r with
  | qk =>
    obtain ⟨t, kb, ht, rfl | ⟨i, hi, rfl⟩⟩ := mem_items_qk.1 hy
    · exact ⟨kb, ht, by simp⟩
    · exact ⟨kb, ht, by simp; omega⟩
  | v =>
    obtain ⟨t, kb, ht, i, hi, rfl⟩ := mem_items_v.1 hy
    exact ⟨kb, ht, by simp; omega⟩

theorem item_lt_after {r : Ring} {y : Site} (ht : T.blocks[t]? = some kb) (hy : y ∈ T.items r)
    (hle : y.tile ≤ t) : y < after t kb 0 := by
  obtain ⟨kb', ht', hl⟩ := items_line hy
  rw [← y.eta, after, Site.lt_iff]
  rcases hle.lt_or_eq with h | h
  · exact .inl h
  · rw [h] at ht'
    obtain rfl := Option.some_injective _ (ht.symm.trans ht')
    exact .inr ⟨h, by omega⟩

theorem tile_le_of_le_after {y : Site} {l : ℕ} (h : y ≤ after t kb l) : y.tile ≤ t := by
  rw [← y.eta, after, Site.le_iff] at h
  omega

/-- From the end of a warp's k loop to the end of the tile the loads are quiet. -/
theorem quiet (hi : (ctaAligned S E T).Inv s) (ht : T.blocks[t]? = some kb) {w : Fin n}
    (hw : (after t kb 0 : WithTop Site) ≤ s.clock (.warp w)) {q : Party (Fin 127) (Fin n)}
    (hq : s.clock q ≤ after t kb 10) :
    s.flight = [] ∧ ∀ x r tl, s.rest .producer ≠ ⟨x, .load r⟩ :: tl := by
  have hp : s.clock .producer ≤ after t kb 10 := by
    rw [← not_lt] at hq ⊢
    exact fun h ↦ hq ((tileBuffer_lt_iff hi ht _ _).1 h)
  constructor
  · rw [List.eq_nil_iff_forall_not_mem]
    intro c hc
    obtain ⟨j, hj, hx, -, -⟩ := hi.flight c hc
    have hle := (((hi.lt_total_iff hx).1 hj).trans_le hp).le
    have hlt :=
      item_lt_after ht (List.mem_of_getElem? hx) (tile_le_of_le_after (WithTop.coe_le_coe.1 hle))
    have hrel := (hi.lt_released_iff w hx).2 ((WithTop.coe_lt_coe.2 hlt).trans_le hw)
    exact (hi.released_le_of_flight hc hx w).not_gt hrel
  · intro x r tl hr
    obtain ⟨hx, -⟩ := hi.load_head hr
    rw [clock_of_head hr, WithTop.coe_le_coe] at hp
    have hlt := item_lt_after ht (List.mem_of_getElem? hx) (tile_le_of_le_after hp)
    have hrel := (hi.lt_released_iff w hx).2 ((WithTop.coe_lt_coe.2 hlt).trans_le hw)
    have hle := (hi.ring r).rel_le w
    omega

theorem act_party (hi : (ctaAligned S E T).Inv s) {p : Party (Fin 127) (Fin n)} {x : Site} {e : Act}
    {tl : List Line} (hr : s.rest p = ⟨x, .act e⟩ :: tl) : ∃ v, p = .warp v := by
  have hm := (hi.suffix p).subset (hr ▸ List.mem_cons_self)
  cases p with
  | warp v => exact ⟨v, rfl⟩
  | producer =>
    have h := sites_producer (S := S) (E := E) (T := T) (f := fun op ↦ op = .act e) (by simp)
    rw [unroll_eq_nil fun t kb _ ↦ sites_operandLoop_nil t kb fun _ ↦ by simp] at h
    exact absurd (h ▸ mem_sites.2 ⟨_, by simp, hm⟩) List.not_mem_nil
  | lane i =>
    have h := sites_lane (S := S) (E := E) (T := T) (f := fun op ↦ op = .act e) i (by simp)
    exact absurd (h ▸ mem_sites.2 ⟨_, by simp, hm⟩) List.not_mem_nil

/-- Between a barrier of the epilogue and the end of its tile, warps only act behind that barrier in
that tile. -/
theorem act_head (hi : (ctaAligned S E T).Inv s) (ht : T.blocks[t]? = some kb) {l : ℕ}
    (hl : l ∈ E.rounds) {w : Fin n} (hw : (after t kb l : WithTop Site) < s.clock (.warp w))
    {q : Party (Fin 127) (Fin n)} (hq : s.clock q ≤ after t kb 10) {p : Party (Fin 127) (Fin n)}
    {x : Site} {e : Act} {tl : List Line} (hr : s.rest p = ⟨x, .act e⟩ :: tl) :
    ∃ v, p = .warp v ∧ x = after t kb e.line ∧ l < e.line ∧ (e.line, .act e) ∈ E.ops v := by
  obtain ⟨v, rfl⟩ := act_party hi hr
  have hm := (hi.suffix (.warp v)).subset (hr ▸ List.mem_cons_self)
  obtain ⟨t', kb', ht', ho, rfl⟩ := mem_program_act.1 hm
  have hlo := (epilogue_lt_iff hi ht hl w v).1 hw
  have hhi : s.clock (.warp v) ≤ after t kb 10 := by
    rw [← not_lt] at hq ⊢
    exact fun h ↦ hq ((tileBuffer_lt_iff hi ht _ _).1 h)
  rw [clock_of_head hr, WithTop.coe_lt_coe, after_lt ht ht'] at hlo
  rw [clock_of_head hr, WithTop.coe_le_coe] at hhi
  have hle := tile_le_of_le_after hhi
  obtain rfl : t = t' := by
    simp only [after, Site.tile] at hle
    change t' ≤ t at hle
    omega
  obtain rfl := Option.some_injective _ (ht.symm.trans ht')
  exact ⟨v, rfl, rfl, by omega, ho⟩

/-- What a warp's action behind a barrier of the epilogue makes true of memory holds until `q` is
past line `m` of the tile, when the other actions behind that barrier leave it alone. -/
theorem epilogue_window [Nonempty (Fin n)] {w : Fin n} {q : Party (Fin 127) (Fin n)} {e : Act}
    {l m : ℕ} {P : Memory n → Prop} (ht : T.blocks[t]? = some kb) (ho : (e.line, .act e) ∈ E.ops w)
    (hl : l ∈ E.rounds) (hle : l < e.line) (hm : m ≤ 10) (hact : ∀ m, P (E.acted w t e m))
    (hother : ∀ s : CtaState n, (ctaAligned S E T).Inv s → s.clock q ≤ after t kb m → ∀ v e',
      s.clock (.warp v) = after t kb e'.line → l < e'.line → (e'.line, .act e') ∈ E.ops v →
        (after t kb e.line : WithTop Site) < s.clock (.warp w) → P s.memory →
        P (E.acted v t e' s.memory))
    (hstored : ∀ x m, P m → P ((ctaKernel S E T).stored x m)) (hs : (ctaKernel S E T).Reachable s)
    (hz : (after t kb e.line : WithTop Site) < s.clock (.warp w)) (hy : s.clock q ≤ after t kb m) :
    P s.memory := by
  have hge : ∀ {s : CtaState n} {l}, l ≤ e.line →
      (after t kb e.line : WithTop Site) < s.clock (.warp w) →
      (after t kb l : WithTop Site) < s.clock (.warp w) := by
    intro s l hl hz
    exact (WithTop.coe_le_coe.2 (Site.le_iff.2 (.inr ⟨rfl, by omega⟩))).trans_lt hz
  have hlast : ∀ {s : CtaState n}, s.clock q ≤ after t kb m → s.clock q ≤ after t kb 10 := fun hy ↦
    hy.trans (WithTop.coe_le_coe.2 (Site.le_iff.2 (.inr ⟨rfl, by omega⟩)))
  refine Kernel.Reachable.window (ctaAligned S E T) (mem_program_act.2 ⟨t, kb, ht, ho, rfl⟩) hact
    ?_ ?_ ?_ hstored hs hz hy
  · intro s hi hz hy r x tl hr
    exact absurd hr ((quiet hi ht (hge (Nat.zero_le _) hz).le (hlast hy)).2 x r tl)
  · intro s hi hz hy c hc
    rw [(quiet hi ht (hge (Nat.zero_le _) hz).le (hlast hy)).1] at hc
    exact absurd hc List.not_mem_nil
  · intro s hi hz hy p x e' tl hr
    obtain ⟨v, rfl, rfl, hlt, ho'⟩ := act_head hi ht hl (hge hle.le hz) (hlast hy) hr
    exact hother s hi hy v e' (clock_of_head hr) hlt ho' hz

end Aligned

end Sm120.Flash
