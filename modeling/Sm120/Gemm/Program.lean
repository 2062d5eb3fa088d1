import Sm120.Lib.Fragment
import Sm120.Lib.Operands
import Sm120.Lib.TileLoop

namespace Sm120.Gemm

open Lib Finset

/-- The template parameters of `gemm_tn` that its static assertions admit. -/
structure Traits where
  bM : ℕ
  bN : ℕ
  bK : ℕ
  stage : ℕ
  cwg : ℕ
  warpsM : ℕ
  warpsN : ℕ
  bM_pos : 0 < bM
  bN_pos : 0 < bN
  bK_pos : 0 < bK
  stage_eq : stage = 2 ∨ stage = 3
  cwg_pos : 0 < cwg
  warps_eq : warpsM * warpsN = 4 * cwg
  bM_mod : bM % 32 = 0
  bN_mod : bN % 64 = 0
  bK_mod : bK % 64 = 0
  bM_warps : bM % (16 * warpsM) = 0
  bN_warps : bN % (8 * warpsN) = 0

inductive Bar
  | epilogue
  /-- `__syncthreads` -/
  | block
deriving DecidableEq, Repr

inductive Act
  | cWrite
  | invalidate
deriving DecidableEq, Repr

structure Memory (n : ℕ) where
  /-- the arrays A and B of all pipeline slots -/
  operand : ℕ → Option (Copy Unit Site)
  /-- the last writer of each element of sC, with its tile -/
  sC : ℕ × ℕ → Option (ℕ × Fin n)
  /-- the slots whose barriers are invalidated -/
  invalid : Finset ℕ
  /-- the finished stores of sC -/
  output : List Site

abbrev Line := Instr Site Unit Bar Act

abbrev GemmOp := Op Unit Bar Act

namespace Traits

variable (c : Traits)

def consumers : ℕ := 4 * c.cwg

instance : Nonempty (Fin c.consumers) := ⟨⟨0, Nat.mul_pos (by decide) c.cwg_pos⟩⟩

def wm : ℕ := c.bM / (16 * c.warpsM)

def wn : ℕ := c.bN / (8 * c.warpsN)

def mma : TiledMMA where
  warps := (c.warpsM, c.warpsN, 1)
  permM := Layout.strips 16 c.warpsM c.wm
  permN := Layout.strips 8 c.warpsN c.wn
  permK := [(16, 1)]

def cCells (wid : ℕ) : Finset (ℕ × ℕ) :=
  (range 32 ×ˢ (range 2 ×ˢ range c.wm) ×ˢ range 2 ×ˢ range c.wn).image fun x ↦
    (c.mma.row wid x.1 x.2.1.1 x.2.1.2, c.mma.col wid x.1 x.2.2.1 x.2.2.2)

def sizeA : ℕ := c.bM * c.bK

def sizeB : ℕ := c.bN * c.bK

def getSA (slot : ℕ) : Finset ℕ := Ico (slot * c.sizeA) (slot * c.sizeA + c.sizeA)

/-- The addresses of a B tile in a pipeline slot. B lies behind the slots of A. -/
def getSB (slot : ℕ) : Finset ℕ :=
  Ico (c.stage * c.sizeA + slot * c.sizeB) (c.stage * c.sizeA + slot * c.sizeB + c.sizeB)

/-- `tma_a` is the first copy of a load, `tma_b` the second. -/
def partSpan (part slot : ℕ) : Finset ℕ := if part = 0 then c.getSA slot else c.getSB slot

end Traits

def producerBody (t kNum : ℕ) : List Line := (List.range kNum).map fun k ↦ ⟨site t k, .load ()⟩

def mainloop (t kNum : ℕ) : List Line := (List.range kNum).map fun k ↦ ⟨site t k, .read ()⟩

/-- The part of the tile loop behind the mainloop. Thread 0 waits for the store of the tile before,
if there was one. -/
def epilogue (wid t kNum : ℕ) : List Line :=
  (if wid = 0 ∧ 0 < t then [⟨site t kNum, .drain⟩] else []) ++
  [⟨site t (kNum + 1), .sync .epilogue⟩, ⟨site t (kNum + 2), .act .cWrite⟩,
    ⟨site t (kNum + 3), .sync .epilogue⟩] ++
  (if wid = 0 then [⟨site t (kNum + 4), .store⟩] else [])

def consumerBody (wid t kNum : ℕ) : List Line := mainloop t kNum ++ epilogue wid t kNum

def syncThreads (tiles : ℕ) : Line := ⟨site tiles 1, .sync .block⟩

/-- Thread `x` of the first warp invalidates the barriers of slot `x`. -/
def invalidate (stage tiles x : ℕ) : List Line :=
  if x < stage then [⟨site tiles 2, .act .invalidate⟩] else []

def lastDrain (wid tiles : ℕ) : List Line :=
  if wid = 0 ∧ 0 < tiles then [⟨site tiles 0, .drain⟩] else []

namespace Traits

variable (c : Traits) (tiles kNum : ℕ)

def program : Party (Fin 127) (Fin c.consumers) → List Line
  | .producer =>
    unroll producerBody 0 (List.replicate tiles kNum) ++
      (syncThreads tiles :: invalidate c.stage tiles 0)
  | .lane i => syncThreads tiles :: invalidate c.stage tiles (i + 1)
  | .warp w =>
    unroll (consumerBody w) 0 (List.replicate tiles kNum) ++
      (lastDrain w tiles ++ [syncThreads tiles])

def acted (p : Party (Fin 127) (Fin c.consumers)) (x : Site) (e : Act) (m : Memory c.consumers) :
    Memory c.consumers :=
  match p, e with
  | .warp w, .cWrite => { m with sC := fun a ↦ if a ∈ c.cCells w then some (x.tile, w) else m.sC a }
  | .producer, .invalidate => { m with invalid := insert 0 m.invalid }
  | .lane i, .invalidate => { m with invalid := insert (i.val + 1) m.invalid }
  | _, _ => m

/-- One CTA of `b16_gemm`, with `tiles` tiles of `kNum` steps each. -/
def kernel : Kernel (Fin 127) (Fin c.consumers) Unit Bar Act (Memory c.consumers) Site where
  program := c.program tiles kNum
  threads := 32
  stages _ := c.stage
  start _ := .counted
  parts _ := 2
  bytes _ _ part := 2 * if part = 0 then c.sizeA else c.sizeB
  expect _ _ := (c.bM * c.bK + c.bN * c.bK) * 2
  emptyCount _ := c.consumers * 32
  member
    | .epilogue, .warp _ => true
    | .epilogue, _ => false
    | .block, _ => true
  count
    | .epilogue => c.consumers * 32
    | .block => (c.consumers + 4) * 32
  memory := ⟨fun _ ↦ none, fun _ ↦ none, ∅, []⟩
  issued _ _ slot m := { m with operand := clear (c.getSA slot ∪ c.getSB slot) m.operand }
  landed d m := { m with operand := fill (c.partSpan d.part d.slot) d m.operand }
  acted := c.acted
  stored x m := { m with output := m.output ++ [x] }

end Traits

def items (tiles kNum : ℕ) : List Site :=
  unroll (fun t kNum ↦ (List.range kNum).map (site t)) 0 (List.replicate tiles kNum)

def barrierRounds (tiles kNum : ℕ) : Bar → List Site
  | .epilogue =>
    unroll (fun t kNum ↦ [site t (kNum + 1), site t (kNum + 3)]) 0 (List.replicate tiles kNum)
  | .block => [site tiles 1]

theorem sites_mainloop {f : GemmOp → Bool} {op : GemmOp} (t kNum : ℕ) :
    sites f ((List.range kNum).map fun k ↦ (⟨site t k, op⟩ : Line)) =
      if f op then (List.range kNum).map (site t) else [] := by
  simp only [sites, List.filter_map, List.map_map, Function.comp_def]
  split_ifs with h <;> simp [h]

theorem mem_mainloop {op : GemmOp} {t kNum : ℕ} {i : Line}
    (h : i ∈ (List.range kNum).map fun k ↦ (⟨site t k, op⟩ : Line)) :
    i.site.tile = t ∧ i.site.line < kNum := by
  obtain ⟨k, hk, rfl⟩ := List.mem_map.1 h
  exact ⟨rfl, List.mem_range.1 hk⟩

theorem mainloop_sorted (op : GemmOp) (t kNum : ℕ) :
    ((List.range kNum).map fun k ↦ (⟨site t k, op⟩ : Line)).Pairwise fun i j ↦ i.site < j.site :=
  List.pairwise_map.2 (List.pairwise_lt_range.imp fun h ↦ Site.lt_iff.2 (.inr ⟨rfl, h⟩))

theorem mem_epilogue {wid t kNum : ℕ} {i : Line} (h : i ∈ epilogue wid t kNum) :
    i.site.tile = t ∧ kNum ≤ i.site.line := by
  simp only [epilogue, List.mem_append] at h
  rcases h with (h | h) | h
  · split_ifs at h
    · rw [List.mem_singleton.1 h]
      exact ⟨rfl, le_rfl⟩
    · cases h
  · simp only [List.mem_cons, List.not_mem_nil, or_false] at h
    rcases h with rfl | rfl | rfl <;> exact ⟨rfl, by simp⟩
  · split_ifs at h
    · rw [List.mem_singleton.1 h]
      exact ⟨rfl, by simp⟩
    · cases h

theorem epilogue_sorted (wid t kNum : ℕ) :
    (epilogue wid t kNum).Pairwise fun i j ↦ i.site < j.site := by
  unfold epilogue
  split_ifs <;> simp [Site.lt_iff]

theorem consumerBody_mem {wid t kNum : ℕ} {i : Line} (h : i ∈ consumerBody wid t kNum) :
    i.site.tile = t :=
  (List.mem_append.1 h).elim (fun h ↦ (mem_mainloop h).1) fun h ↦ (mem_epilogue h).1

theorem consumerBody_sorted (wid t kNum : ℕ) :
    (consumerBody wid t kNum).Pairwise fun i j ↦ i.site < j.site := by
  refine List.pairwise_append.2 ⟨mainloop_sorted _ t kNum, epilogue_sorted wid t kNum,
    fun i hi j hj ↦ ?_⟩
  obtain ⟨hit, hil⟩ := mem_mainloop hi
  obtain ⟨hjt, hjl⟩ := mem_epilogue hj
  rw [← i.site.eta, ← j.site.eta, hit, hjt]
  exact Site.lt_iff.2 (.inr ⟨rfl, by omega⟩)

theorem loop_append_sorted {body : ℕ → ℕ → List Line} {tiles kNum : ℕ} {l : List Line}
    (hb : ∀ t, (body t kNum).Pairwise fun i j ↦ i.site < j.site)
    (ht : ∀ t, ∀ i ∈ body t kNum, i.site.tile = t) (hl : l.Pairwise fun i j ↦ i.site < j.site)
    (hlt : ∀ i ∈ l, i.site.tile = tiles) :
    (unroll body 0 (List.replicate tiles kNum) ++ l).Pairwise fun i j ↦ i.site < j.site := by
  have hx : ∀ x ∈ List.replicate tiles kNum, x = kNum := fun x hx ↦ List.eq_of_mem_replicate hx
  refine List.pairwise_append.2 ⟨unroll_sorted (fun t x h ↦ hx x h ▸ hb t)
    (fun t x h ↦ hx x h ▸ ht t), hl,
    fun i hi j hj ↦ ?_⟩
  obtain ⟨t, x, hxt, hm⟩ := mem_unroll.1 hi
  have hlt' : t < tiles := by simpa using (List.getElem?_eq_some_iff.1 hxt).1
  have hit := ht _ i (hx x (List.mem_of_getElem? hxt) ▸ hm)
  have hjt := hlt j hj
  rw [← i.site.eta, ← j.site.eta, Site.lt_iff]
  omega

namespace Traits

variable {c : Traits} {tiles kNum : ℕ}

theorem program_sorted (p : Party (Fin 127) (Fin c.consumers)) :
    (c.program tiles kNum p).Pairwise fun i j ↦ i.site < j.site := by
  have hend : ∀ x, (syncThreads tiles :: invalidate c.stage tiles x).Pairwise fun i j ↦
      i.site < j.site := by
    intro x
    unfold invalidate syncThreads
    split_ifs <;> simp [Site.lt_iff]
  have hend' : ∀ x, ∀ i ∈ syncThreads tiles :: invalidate c.stage tiles x, i.site.tile = tiles := by
    intro x i hi
    unfold invalidate syncThreads at hi
    split_ifs at hi <;> simp at hi
    · rcases hi with rfl | rfl <;> rfl
    · rw [hi]
      rfl
  cases p with
  | producer =>
    exact loop_append_sorted (fun t ↦ mainloop_sorted _ t kNum) (fun t i hi ↦ (mem_mainloop hi).1)
      (hend 0) (hend' 0)
  | lane i => exact hend (i + 1)
  | warp w =>
    refine loop_append_sorted (fun t ↦ consumerBody_sorted w t kNum)
      (fun t i hi ↦ consumerBody_mem hi) ?_ ?_
    · unfold lastDrain syncThreads
      split_ifs <;> simp [Site.lt_iff]
    · intro i hi
      unfold lastDrain syncThreads at hi
      split_ifs at hi <;> simp at hi
      · rcases hi with rfl | rfl <;> rfl
      · rw [hi]
        rfl

theorem sites_epilogue_nil {f : GemmOp → Bool} (wid t kNum : ℕ) (hd : f .drain = false)
    (hb : f (.sync .epilogue) = false) (ha : f (.act .cWrite) = false) (hs : f .store = false) :
    sites f (epilogue wid t kNum) = [] := by
  unfold epilogue
  split_ifs <;> simp [hd, hb, ha, hs]

theorem sites_epilogue_sync (wid t kNum : ℕ) : sites (Op.isSync .epilogue) (epilogue wid t kNum) =
    [site t (kNum + 1), site t (kNum + 3)] := by
  unfold epilogue
  split_ifs <;> rfl

theorem sites_end_nil {f : GemmOp → Bool} (tiles x : ℕ) (hb : f (.sync .block) = false)
    (ha : f (.act .invalidate) = false) :
    sites f (syncThreads tiles :: invalidate c.stage tiles x) = [] := by
  unfold syncThreads invalidate
  split_ifs <;> simp [hb, ha]

theorem sites_end_sync (tiles x : ℕ) :
    sites (Op.isSync .block) (syncThreads tiles :: invalidate c.stage tiles x) =
      [site tiles 1] := by
  unfold syncThreads invalidate
  split_ifs <;> rfl

theorem sites_last_nil {f : GemmOp → Bool} (wid tiles : ℕ) (hd : f .drain = false)
    (hb : f (.sync .block) = false) :
    sites f (lastDrain wid tiles ++ [syncThreads tiles]) = [] := by
  unfold syncThreads lastDrain
  split_ifs <;> simp [hd, hb]

theorem sites_last_sync (wid tiles : ℕ) :
    sites (Op.isSync .block) (lastDrain wid tiles ++ [syncThreads tiles]) = [site tiles 1] := by
  unfold syncThreads lastDrain
  split_ifs <;> rfl

theorem sites_producer (f : GemmOp → Bool) : sites f (c.program tiles kNum .producer) =
    unroll (fun t kNum ↦ if f (.load ()) then (List.range kNum).map (site t) else []) 0
      (List.replicate tiles kNum) ++ sites f (syncThreads tiles :: invalidate c.stage tiles 0) := by
  rw [program, sites_append, sites_unroll]
  exact congrArg (· ++ _) (unroll_congr fun t kNum _ ↦ sites_mainloop t kNum)

theorem sites_warp (f : GemmOp → Bool) (w : Fin c.consumers) :
    sites f (c.program tiles kNum (.warp w)) =
      unroll (fun t kNum ↦ (if f (.read ()) then (List.range kNum).map (site t) else []) ++
        sites f (epilogue w t kNum)) 0 (List.replicate tiles kNum) ++
          sites f (lastDrain w tiles ++ [syncThreads tiles]) := by
  rw [program, sites_append, sites_unroll]
  congr 1
  exact unroll_congr fun t kNum _ ↦ by rw [consumerBody, sites_append, mainloop, sites_mainloop]

section Aligned

variable (c : Traits) (tiles kNum : ℕ)

theorem producer_loads (r : Unit) :
    sites (Op.isLoad r) ((c.kernel tiles kNum).program .producer) = items tiles kNum := by
  rw [kernel, sites_producer, sites_end_nil tiles 0 rfl rfl, List.append_nil]
  rfl

theorem warp_reads (r : Unit) (w : Fin c.consumers) :
    sites (Op.isRead r) ((c.kernel tiles kNum).program (.warp w)) = items tiles kNum := by
  rw [kernel, sites_warp, sites_last_nil w tiles rfl rfl, List.append_nil]
  exact unroll_congr fun t kNum _ ↦ by
    rw [sites_epilogue_nil w t kNum rfl rfl rfl rfl, List.append_nil]
    rfl

theorem other_loads (r : Unit) (p : Party (Fin 127) (Fin c.consumers)) (hp : p ≠ .producer) :
    sites (Op.isLoad r) ((c.kernel tiles kNum).program p) = [] := by
  cases p with
  | producer => exact absurd rfl hp
  | lane i => exact sites_end_nil tiles (i + 1) rfl rfl
  | warp w =>
    rw [kernel, sites_warp, sites_last_nil w tiles rfl rfl, List.append_nil]
    exact unroll_eq_nil fun t kNum _ ↦ by
      rw [sites_epilogue_nil w t kNum rfl rfl rfl rfl, List.append_nil]
      rfl

theorem other_reads (r : Unit) (p : Party (Fin 127) (Fin c.consumers)) (hp : ∀ w, p ≠ .warp w) :
    sites (Op.isRead r) ((c.kernel tiles kNum).program p) = [] := by
  cases p with
  | producer =>
    rw [kernel, sites_producer, sites_end_nil tiles 0 rfl rfl, List.append_nil]
    exact unroll_eq_nil fun t kNum _ ↦ rfl
  | lane i => exact sites_end_nil tiles (i + 1) rfl rfl
  | warp w => exact absurd rfl (hp w)

theorem member_syncs (b : Bar) (p : Party (Fin 127) (Fin c.consumers))
    (hp : (c.kernel tiles kNum).member b p = true) :
    sites (Op.isSync b) ((c.kernel tiles kNum).program p) = barrierRounds tiles kNum b := by
  cases b with
  | epilogue =>
    cases p with
    | warp w =>
      have hlast : sites (Op.isSync Bar.epilogue) (lastDrain w tiles ++ [syncThreads tiles]) = [] :=
        sites_last_nil w tiles rfl rfl
      rw [kernel, sites_warp, hlast, List.append_nil]
      exact unroll_congr fun t kNum _ ↦ by rw [sites_epilogue_sync]; rfl
    | producer => cases hp
    | lane i => cases hp
  | block =>
    cases p with
    | producer =>
      have hloop : unroll (fun t kNum ↦ if Op.isSync Bar.block (Op.load () : GemmOp) then
          (List.range kNum).map (site t) else []) 0 (List.replicate tiles kNum) = [] :=
        unroll_eq_nil fun t kNum _ ↦ rfl
      rw [kernel, sites_producer, sites_end_sync, hloop]
      rfl
    | lane i => exact sites_end_sync tiles (i + 1)
    | warp w =>
      have hloop : unroll (fun t kNum ↦ (if Op.isSync Bar.block (Op.read () : GemmOp) then
          (List.range kNum).map (site t) else []) ++ sites (Op.isSync Bar.block)
            (epilogue w t kNum)) 0 (List.replicate tiles kNum) = [] :=
        unroll_eq_nil fun t kNum _ ↦ sites_epilogue_nil w t kNum rfl rfl rfl rfl
      rw [kernel, sites_warp, sites_last_sync, hloop]
      rfl

theorem other_syncs (b : Bar) (p : Party (Fin 127) (Fin c.consumers))
    (hp : (c.kernel tiles kNum).member b p = false) :
    sites (Op.isSync b) ((c.kernel tiles kNum).program p) = [] := by
  cases b with
  | block => cases hp
  | epilogue =>
    cases p with
    | warp w => cases hp
    | producer =>
      rw [kernel, sites_producer, sites_end_nil tiles 0 rfl rfl, List.append_nil]
      exact unroll_eq_nil fun t kNum _ ↦ rfl
    | lane i => exact sites_end_nil tiles (i + 1) rfl rfl

theorem threads_pos : 0 < (c.kernel tiles kNum).threads := by simp [kernel]

theorem stages_pos (r : Unit) : 0 < (c.kernel tiles kNum).stages r := by
  have := c.stage_eq
  simp only [kernel]
  omega

theorem bytes_pos (r : Unit) (x : Site) (part : ℕ) : 0 < (c.kernel tiles kNum).bytes r x part := by
  have hA := Nat.mul_pos c.bM_pos c.bK_pos
  have hB := Nat.mul_pos c.bN_pos c.bK_pos
  simp only [kernel, sizeA, sizeB]
  split_ifs <;> omega

theorem expect_eq (r : Unit) (x : Site) : (c.kernel tiles kNum).expect r x =
    ((List.range ((c.kernel tiles kNum).parts r)).map ((c.kernel tiles kNum).bytes r x)).sum := by
  simp only [kernel, List.range_succ, List.range_zero, List.nil_append, List.map_append,
    List.map_cons, List.map_nil, List.sum_append, List.sum_cons, List.sum_nil, sizeA, sizeB]
  simp
  ring

theorem emptyCount_eq (r : Unit) : (c.kernel tiles kNum).emptyCount r =
    (c.kernel tiles kNum).threads * Fintype.card (Fin c.consumers) := by
  simp [kernel, Nat.mul_comm]

theorem count_eq (b : Bar) : (c.kernel tiles kNum).count b =
    ∑ p with (c.kernel tiles kNum).member b p = true, (c.kernel tiles kNum).threadsOf p := by
  rw [Finset.sum_filter, sum_party]
  cases b with
  | epilogue => simp [kernel, Kernel.threadsOf]
  | block =>
    simp only [kernel, Kernel.threadsOf, if_true, Finset.sum_const, Finset.card_univ,
      Fintype.card_fin, smul_eq_mul]
    omega

def aligned : Aligned (c.kernel tiles kNum) where
  items _ := items tiles kNum
  rounds := barrierRounds tiles kNum
  sorted p := program_sorted p
  producer_loads := producer_loads c tiles kNum
  warp_reads := warp_reads c tiles kNum
  other_loads := other_loads c tiles kNum
  other_reads := other_reads c tiles kNum
  member_syncs := member_syncs c tiles kNum
  other_syncs := other_syncs c tiles kNum
  threads_pos := threads_pos c tiles kNum
  stages_pos := stages_pos c tiles kNum
  parts_pos _ := Nat.two_pos
  bytes_pos r x part _ := bytes_pos c tiles kNum r x part
  expect_eq := expect_eq c tiles kNum
  emptyCount_eq := emptyCount_eq c tiles kNum
  count_eq := count_eq c tiles kNum

end Aligned

end Traits

end Sm120.Gemm
