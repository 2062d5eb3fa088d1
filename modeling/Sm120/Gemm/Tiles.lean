import Mathlib.Data.List.ProdSigma
import Sm120.Lib.Grid
import Sm120.Lib.Layout

namespace Sm120.Gemm

open Lib Finset

/-- The coordinates `(bm, bn)` of a tile. -/
def blockSwizzle (bsW mNum nNum tiledId : ℕ) : ℕ × ℕ :=
  let sw := if bsW < nNum then bsW else nNum
  let square := sw * mNum
  let num := tiledId / square
  let baseCol := num * sw
  let sw2 := if baseCol + sw < nNum then sw else nNum - baseCol
  let inSquare := tiledId % (sw2 * mNum)
  (inSquare / sw2, baseCol + inSquare % sw2)

section Swizzle

variable {bsW mNum nNum : ℕ}

def bandWidth (bsW nNum : ℕ) : ℕ := if bsW < nNum then bsW else nNum

/-- Width of band `num`: the last one may be narrower. -/
def widthOf (bsW nNum num : ℕ) : ℕ :=
  if num * bandWidth bsW nNum + bandWidth bsW nNum < nNum then bandWidth bsW nNum
  else nNum - num * bandWidth bsW nNum

theorem bandWidth_pos (hb : 0 < bsW) (hn : 0 < nNum) : 0 < bandWidth bsW nNum := by
  unfold bandWidth
  split_ifs <;> omega

theorem widthOf_le (num : ℕ) : widthOf bsW nNum num ≤ bandWidth bsW nNum := by
  unfold widthOf
  split_ifs <;> omega

/-- A tile index lies in its band, and is reduced modulo the size of that band. -/
theorem blockSwizzle_spec (hb : 0 < bsW) {tiledId : ℕ} (h : tiledId < mNum * nNum) :
    ∃ num, num * bandWidth bsW nNum + widthOf bsW nNum num ≤ nNum ∧ 0 < widthOf bsW nNum num ∧
      num * bandWidth bsW nNum * mNum ≤ tiledId ∧
      tiledId < num * bandWidth bsW nNum * mNum + widthOf bsW nNum num * mNum ∧
      blockSwizzle bsW mNum nNum tiledId =
        (tiledId % (widthOf bsW nNum num * mNum) / widthOf bsW nNum num,
          num * bandWidth bsW nNum + tiledId % (widthOf bsW nNum num * mNum) % widthOf bsW
            nNum num) := by
  have hm : 0 < mNum := Nat.pos_of_mul_pos_right (Nat.zero_lt_of_lt h)
  have hn : 0 < nNum := Nat.pos_of_mul_pos_left (Nat.zero_lt_of_lt h)
  have hw := bandWidth_pos hb hn
  set sw := bandWidth bsW nNum with hsw
  set num := tiledId / (sw * mNum) with hnum
  have hlo : num * sw * mNum ≤ tiledId := by
    rw [Nat.mul_assoc]
    exact Nat.div_mul_le_self tiledId (sw * mNum)
  have hhi : tiledId < num * sw * mNum + sw * mNum := by
    rw [Nat.mul_assoc]
    exact Nat.lt_div_mul_add (Nat.mul_pos hw hm)
  have hbase : num * sw < nNum := by
    rw [Nat.mul_comm mNum] at h
    exact Nat.lt_of_mul_lt_mul_right (hlo.trans_lt h)
  refine ⟨num, ?_, ?_, hlo, ?_, rfl⟩
  · rw [widthOf, ← hsw]
    split_ifs <;> omega
  · rw [widthOf, ← hsw]
    split_ifs <;> omega
  · rw [widthOf, ← hsw]
    split_ifs with hc
    · exact hhi
    · rwa [← Nat.add_mul, Nat.add_sub_cancel' hbase.le, Nat.mul_comm]

theorem blockSwizzle_lt (hb : 0 < bsW) {tiledId : ℕ} (h : tiledId < mNum * nNum) :
    (blockSwizzle bsW mNum nNum tiledId).1 < mNum ∧
    (blockSwizzle bsW mNum nNum tiledId).2 < nNum := by
  have hm : 0 < mNum := Nat.pos_of_mul_pos_right (Nat.zero_lt_of_lt h)
  obtain ⟨num, hle, hpos, -, -, he⟩ := blockSwizzle_spec hb h
  rw [he]
  constructor
  · exact Nat.div_lt_of_lt_mul (Nat.mod_lt _ (Nat.mul_pos hpos hm))
  · have := Nat.mod_lt (tiledId % (widthOf bsW nNum num * mNum)) hpos
    dsimp only
    omega

theorem eq_of_mod_eq {a b lo n : ℕ} (ha : lo ≤ a) (ha' : a < lo + n) (hb : lo ≤ b)
    (hb' : b < lo + n) (h : a % n = b % n) : a = b := by
  rcases Nat.le_total a b with hab | hab
  · have hd := Nat.sub_mod_eq_zero_of_mod_eq h.symm
    rw [Nat.mod_eq_of_lt (by omega)] at hd
    omega
  · have hd := Nat.sub_mod_eq_zero_of_mod_eq h
    rw [Nat.mod_eq_of_lt (by omega)] at hd
    omega

/-- The column determines the band, and a band is rotated but never doubled. -/
theorem blockSwizzle_inj (hb : 0 < bsW) {i j : ℕ} (hi : i < mNum * nNum) (hj : j < mNum * nNum)
    (h : blockSwizzle bsW mNum nNum i = blockSwizzle bsW mNum nNum j) : i = j := by
  have hn : 0 < nNum := Nat.pos_of_mul_pos_left (Nat.zero_lt_of_lt hi)
  obtain ⟨num, -, hpos, hlo, hhi, he⟩ := blockSwizzle_spec hb hi
  obtain ⟨num', -, hpos', hlo', hhi', he'⟩ := blockSwizzle_spec hb hj
  have hw := bandWidth_pos hb hn
  rw [he, he', Prod.mk.injEq] at h
  obtain ⟨hrow, hcol⟩ := h
  have hband : ∀ {n x}, x < widthOf bsW nNum n →
      (n * bandWidth bsW nNum + x) / bandWidth bsW nNum = n := by
    intro n x hx
    rw [Nat.add_comm, Nat.add_mul_div_right _ _ hw, Nat.div_eq_of_lt (hx.trans_le (widthOf_le n)),
      Nat.zero_add]
  have hnum : num = num' := by
    rw [← hband (Nat.mod_lt _ hpos), hcol, hband (Nat.mod_lt _ hpos')]
  subst hnum
  refine eq_of_mod_eq hlo hhi hlo' hhi' ?_
  rw [← Nat.div_add_mod (i % _) (widthOf bsW nNum num),
    ← Nat.div_add_mod (j % _) (widthOf bsW nNum num), hrow, Nat.add_left_cancel hcol]

theorem blockSwizzle_perm (hb : 0 < bsW) :
    ((List.range (mNum * nNum)).map (blockSwizzle bsW mNum nNum)).Perm
    (List.range mNum ×ˢ List.range nNum) := by
  have hnd : ((List.range (mNum * nNum)).map (blockSwizzle bsW mNum nNum)).Nodup := by
    refine (List.nodup_map_iff_inj_on List.nodup_range).2 fun i hi j hj h ↦ ?_
    exact blockSwizzle_inj hb (List.mem_range.1 hi) (List.mem_range.1 hj) h
  have hsub : (List.range (mNum * nNum)).map (blockSwizzle bsW mNum nNum) ⊆
      List.range mNum ×ˢ List.range nNum := by
    intro x hx
    obtain ⟨i, hi, rfl⟩ := List.mem_map.1 hx
    obtain ⟨h1, h2⟩ := blockSwizzle_lt hb (List.mem_range.1 hi)
    exact List.pair_mem_product.2 ⟨List.mem_range.2 h1, List.mem_range.2 h2⟩
  refine (List.subperm_of_subset hnd hsub).perm_of_length_le ?_
  simp [List.length_product]

/-- The last band of five columns is two wide, and its tiles are rotated. -/
example : (List.range 4).map (fun i ↦ blockSwizzle 3 2 5 (6 + i)) =
    [(1, 3), (1, 4), (0, 3), (0, 4)] := by
  decide

end Swizzle

/-- A launch of `gemm_tn`: template parameters, problem size and grid. -/
structure Launch where
  bM : ℕ
  bN : ℕ
  bK : ℕ
  bsW : ℕ
  m : ℕ
  n : ℕ
  k : ℕ
  grid : ℕ
  bM_pos : 0 < bM
  bN_pos : 0 < bN
  bK_pos : 0 < bK
  bsW_pos : 0 < bsW
  m_pos : 0 < m
  n_pos : 0 < n
  k_pos : 0 < k
  grid_pos : 0 < grid
  m_mod : m % bM = 0
  n_mod : n % bN = 0
  k_mod : k % bK = 0

namespace Launch

variable (l : Launch)

def mNum : ℕ := l.m / l.bM

def nNum : ℕ := l.n / l.bN

def kNum : ℕ := l.k / l.bK

def tilesNum : ℕ := l.mNum * l.nNum

def ctaTiles (blockIdx : ℕ) : List (ℕ × ℕ) :=
  (gridStride l.grid l.tilesNum blockIdx).map (blockSwizzle l.bsW l.mNum l.nNum)

section Values

variable {R T : Type*} [Semiring R]

def localTile (rows cols : ℕ) (X : ℕ → ℕ → R) (r k : ℕ) : ℕ → ℕ → R :=
  fun i j ↦ X (r * rows + i) (k * cols + j)

def consumePipe (sA sB rC : ℕ → ℕ → R) : ℕ → ℕ → R :=
  fun i j ↦ rC i j + ∑ kk ∈ range l.bK, sA i kk * sB j kk

def accumulators (A B : ℕ → ℕ → R) (coord : ℕ × ℕ) : ℕ → ℕ → R :=
  (List.range l.kNum).foldl
    (fun rC k ↦ l.consumePipe (localTile l.bM l.bK A coord.1 k)
      (localTile l.bN l.bK B coord.2 k) rC)
    fun _ _ ↦ 0

def tileRegion (coord a : ℕ × ℕ) : Prop := a.1 / l.bM = coord.1 ∧ a.2 / l.bN = coord.2

instance (coord : ℕ × ℕ) : DecidablePred (l.tileRegion coord) := fun a ↦
  inferInstanceAs (Decidable (a.1 / l.bM = coord.1 ∧ a.2 / l.bN = coord.2))

def tileValue (cvt : R → T) (A B : ℕ → ℕ → R) (coord a : ℕ × ℕ) : T :=
  cvt (l.accumulators A B coord (a.1 % l.bM) (a.2 % l.bN))

def output (cvt : R → T) (A B : ℕ → ℕ → R) (C : ℕ × ℕ → T) (tiles : List (ℕ × ℕ)) : ℕ × ℕ → T :=
  tiles.foldl (storeRegion l.tileRegion (l.tileValue cvt A B)) C

variable {l}

theorem foldl_consumePipe (A B : ℕ → ℕ → R) (coord : ℕ × ℕ) (n i j : ℕ) :
    (List.range n).foldl
      (fun rC k ↦ l.consumePipe (localTile l.bM l.bK A coord.1 k)
        (localTile l.bN l.bK B coord.2 k) rC)
      (fun _ _ ↦ 0) i j =
        ∑ k ∈ range (n * l.bK), A (coord.1 * l.bM + i) k * B (coord.2 * l.bN + j) k := by
  rw [sum_range_mul]
  induction n with
  | zero => rfl
  | succ n ih =>
    rw [List.range_succ, List.foldl_append, sum_range_succ, ← ih]
    rfl

theorem accumulators_eq (A B : ℕ → ℕ → R) (coord : ℕ × ℕ) (i j : ℕ) :
    l.accumulators A B coord i j =
      ∑ k ∈ range l.k, A (coord.1 * l.bM + i) k * B (coord.2 * l.bN + j) k := by
  have hk : l.kNum * l.bK = l.k := Nat.div_mul_cancel (Nat.dvd_of_mod_eq_zero l.k_mod)
  rw [accumulators, foldl_consumePipe, hk]

theorem tileValue_eq (cvt : R → T) (A B : ℕ → ℕ → R) {coord a : ℕ × ℕ} (ha : l.tileRegion coord a) :
    l.tileValue cvt A B coord a = cvt (∑ k ∈ range l.k, A a.1 k * B a.2 k) := by
  obtain ⟨h1, h2⟩ := ha
  rw [tileValue, accumulators_eq, ← h1, ← h2, Nat.div_add_mod', Nat.div_add_mod']

theorem ctaTiles_perm (l : Launch) : ((List.range l.grid).flatMap l.ctaTiles).Perm
    (List.range l.mNum ×ˢ List.range l.nNum) := by
  have h := (gridStride_perm (n := l.tilesNum) l.grid_pos).map (blockSwizzle l.bsW l.mNum l.nNum)
  rw [List.map_flatMap] at h
  exact h.trans (blockSwizzle_perm l.bsW_pos)

theorem mem_tiles_iff {tiles : List (ℕ × ℕ)}
    (hp : tiles.Perm ((List.range l.grid).flatMap l.ctaTiles)) (coord : ℕ × ℕ) :
    coord ∈ tiles ↔ coord.1 < l.mNum ∧ coord.2 < l.nNum := by
  have h : coord ∈ List.range l.mNum ×ˢ List.range l.nNum ↔
      coord.1 ∈ List.range l.mNum ∧ coord.2 ∈ List.range l.nNum := List.pair_mem_product
  rw [List.mem_range, List.mem_range] at h
  exact (hp.trans l.ctaTiles_perm).mem_iff.trans h

theorem div_lt_iff (a : ℕ × ℕ) :
    (a.1 / l.bM < l.mNum ∧ a.2 / l.bN < l.nNum) ↔ a.1 < l.m ∧ a.2 < l.n := by
  have hm : l.mNum * l.bM = l.m := Nat.div_mul_cancel (Nat.dvd_of_mod_eq_zero l.m_mod)
  have hn : l.nNum * l.bN = l.n := Nat.div_mul_cancel (Nat.dvd_of_mod_eq_zero l.n_mod)
  rw [Nat.div_lt_iff_lt_mul l.bM_pos, Nat.div_lt_iff_lt_mul l.bN_pos, hm, hn]

structure Correct (l : Launch) (cvt : R → T) (A B : ℕ → ℕ → R) (C : ℕ × ℕ → T) : Prop where
  /-- every output tile is visited once, and nothing else is -/
  visits : ((List.range l.grid).flatMap l.ctaTiles).Perm (List.range l.mNum ×ˢ List.range l.nNum)
  /-- in whatever order the tiles of all CTAs are stored -/
  values : ∀ tiles, tiles.Perm ((List.range l.grid).flatMap l.ctaTiles) → ∀ i < l.m, ∀ j < l.n,
    l.output cvt A B C tiles (i, j) = cvt (∑ k ∈ range l.k, A i k * B j k)
  frame : ∀ tiles, tiles.Perm ((List.range l.grid).flatMap l.ctaTiles) → ∀ a : ℕ × ℕ,
    ¬ (a.1 < l.m ∧ a.2 < l.n) → l.output cvt A B C tiles a = C a

theorem gemmTn_correct (l : Launch) (cvt : R → T) (A B : ℕ → ℕ → R) (C : ℕ × ℕ → T) :
    l.Correct cvt A B C where
  visits := l.ctaTiles_perm
  values tiles hp i hi j hj := by
    have hmem := (mem_tiles_iff hp (i / l.bM, j / l.bN)).2 ((div_lt_iff (i, j)).2 ⟨hi, hj⟩)
    rw [output, foldl_storeRegion_of_mem hmem ⟨rfl, rfl⟩ fun coord _ h ↦ Prod.ext h.1.symm h.2.symm]
    exact tileValue_eq cvt A B ⟨rfl, rfl⟩
  frame tiles hp a ha := by
    refine foldl_storeRegion_of_notMem (fun coord hc hr ↦ ha ?_) C
    rw [mem_tiles_iff hp, ← hr.1, ← hr.2] at hc
    exact (div_lt_iff a).1 hc

end Values

end Launch

end Sm120.Gemm
