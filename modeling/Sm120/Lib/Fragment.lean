import Sm120.Lib.Layout

namespace Sm120.Lib

open Finset

/-- Row of a lane's C or A registers with value index `v1` in the m16n8k16 atom. -/
def atomRow (lane v1 : ℕ) : ℕ := lane / 4 + 8 * v1

/-- Column of a lane's C registers with value index `v0`. -/
def atomCol (lane v0 : ℕ) : ℕ := lane % 4 * 2 + v0

/-- Depth of a lane's A registers with value indices `v0` and `v2`. -/
def atomDepth (lane v0 v2 : ℕ) : ℕ := lane % 4 * 2 + v0 + 8 * v2

theorem atomRow_lt {lane v1 : ℕ} (hl : lane < 32) (hv : v1 < 2) : atomRow lane v1 < 16 := by
  unfold atomRow
  omega

theorem atomCol_lt {v0 : ℕ} (lane : ℕ) (hv : v0 < 2) : atomCol lane v0 < 8 := by
  unfold atomCol
  omega

theorem atomDepth_lt {v0 v2 : ℕ} (lane : ℕ) (h0 : v0 < 2) (h2 : v2 < 2) :
    atomDepth lane v0 v2 < 16 := by
  unfold atomDepth
  omega

theorem atomDepth_eq (lane v0 v2 : ℕ) : atomDepth lane v0 v2 = v2 * 8 + atomCol lane v0 := by
  unfold atomDepth atomCol
  omega

def quadLane (lane q : ℕ) : ℕ := lane / 4 * 4 + q

@[simp]
theorem quadLane_div {q : ℕ} (lane : ℕ) (hq : q < 4) : quadLane lane q / 4 = lane / 4 := by
  unfold quadLane
  omega

@[simp]
theorem quadLane_mod {q : ℕ} (lane : ℕ) (hq : q < 4) : quadLane lane q % 4 = q := by
  unfold quadLane
  omega

theorem quadLane_lt {lane q : ℕ} (hl : lane < 32) (hq : q < 4) : quadLane lane q < 32 := by
  unfold quadLane
  omega

theorem quadLane_self (lane : ℕ) : quadLane lane (lane % 4) = lane := by
  unfold quadLane
  omega

theorem atomRow_quadLane {q : ℕ} (lane v1 : ℕ) (hq : q < 4) :
    atomRow (quadLane lane q) v1 = atomRow lane v1 := by
  simp [atomRow, hq]

/-- Layout of a fragment: its value modes, its M modes and its N or K modes. -/
structure FragmentLayout where
  v : Layout
  m : Layout
  n : Layout

def FragmentLayout.address (l : FragmentLayout) (v : List ℕ) (m n : ℕ) : ℕ :=
  l.v.offset v + l.m.offset [m] + l.n.offset [n]

/-- The compact `((2,2),M,N)` fragment of an accumulator. -/
def fragmentC (M N : ℕ) : FragmentLayout where
  v := [(2, 1), (2, 2)]
  m := [(M, 4)]
  n := [(N, 4 * M)]

/-- The accumulator's registers regrouped as `((2,2,2),M,N/2)` A fragments. -/
def convertAreg (l : FragmentLayout) : FragmentLayout where
  v := l.v ++ (l.n.divide 2).1
  m := l.m
  n := (l.n.divide 2).2

/-- Both views name one register exactly when the pairs of N atoms line up with K atoms. -/
theorem convertAreg_address (M N v0 v1 v2 m kk : ℕ) :
    (convertAreg (fragmentC M N)).address [v0, v1, v2] m kk =
      (fragmentC M N).address [v0, v1] m (v2 + 2 * kk) := by
  simp only [FragmentLayout.address, convertAreg, fragmentC, Layout.divide, Layout.offset,
    List.cons_append, List.nil_append]
  ring

theorem fragmentC_inj {M N v0 v1 m n v0' v1' m' n' : ℕ} (hv0 : v0 < 2) (hv1 : v1 < 2) (hm : m < M)
    (hv0' : v0' < 2) (hv1' : v1' < 2) (hm' : m' < M)
    (h : (fragmentC M N).address [v0, v1] m n = (fragmentC M N).address [v0', v1'] m' n') :
    v0 = v0' ∧ v1 = v1' ∧ m = m' ∧ n = n' := by
  simp only [FragmentLayout.address, fragmentC, Layout.offset] at h
  have hn : n = n' := by
    have e : ∀ b a x : ℕ, b < 2 → a < 2 → x < M → b + 2 * a + 4 * x < 4 * M := by omega
    have h₁ := e v0 v1 m hv0 hv1 hm
    have h₂ := e v0' v1' m' hv0' hv1' hm'
    have hd : ∀ b y : ℕ, b < 4 * M → (b + 4 * M * y) / (4 * M) = y := by
      intro b y hb
      rw [Nat.add_mul_div_left _ _ (by omega), Nat.div_eq_of_lt hb, Nat.zero_add]
    rw [← hd _ n h₁, ← hd _ n' h₂]
    congr 1
    linarith
  subst hn
  omega

/-- A tiled MMA of m16n8k16 atoms: the warps along each mode, and how each mode is permuted. -/
structure TiledMMA where
  warps : ℕ × ℕ × ℕ
  permM : Layout
  permN : Layout
  permK : Layout

theorem fragmentC_address (M N v0 v1 m n : ℕ) :
    (fragmentC M N).address [v0, v1] m n = v0 + 2 * v1 + 4 * m + 4 * M * n := by
  simp only [FragmentLayout.address, fragmentC, Layout.offset]
  ring

theorem fragmentC_coords {M v0 v1 m : ℕ} (N n : ℕ) (h0 : v0 < 2) (h1 : v1 < 2) (hm : m < M) :
    (fragmentC M N).address [v0, v1] m n % 2 = v0 ∧
      (fragmentC M N).address [v0, v1] m n / 2 % 2 = v1 ∧
      (fragmentC M N).address [v0, v1] m n / 4 % M = m ∧
      (fragmentC M N).address [v0, v1] m n / (4 * M) = n := by
  have hb : v0 + 2 * v1 + 4 * m < 4 * M := by omega
  have e : 4 * M * n = 4 * (M * n) := by ring
  rw [fragmentC_address]
  refine ⟨by omega, by omega, ?_, ?_⟩
  · have hq : v0 + 2 * v1 + 4 * m + 4 * M * n = v0 + 2 * v1 + 4 * (m + M * n) := by ring
    rw [hq, Nat.add_mul_div_left _ _ (by omega), Nat.div_eq_of_lt (by omega), Nat.zero_add,
      Nat.add_mul_mod_self_left, Nat.mod_eq_of_lt hm]
  · rw [Nat.add_mul_div_left _ _ (by omega), Nat.div_eq_of_lt hb, Nat.zero_add]

/-- The registers of an accumulator whose rows and columns are those of `get_rowcol`. -/
def rowcolRegs {α : Type} (M : ℕ) (x : ℕ → ℕ → α) (a : ℕ) : α :=
  x (a / 2 % 2 + 2 * (a / 4 % M)) (a % 2 + 2 * (a / (4 * M)))

theorem rowcolRegs_address {α : Type} {M v0 v1 m : ℕ} (N n : ℕ) (x : ℕ → ℕ → α) (h0 : v0 < 2)
    (h1 : v1 < 2) (hm : m < M) :
    rowcolRegs M x ((fragmentC M N).address [v0, v1] m n) = x (v1 + 2 * m) (v0 + 2 * n) := by
  obtain ⟨e0, e1, em, en⟩ := fragmentC_coords N n h0 h1 hm
  rw [rowcolRegs, e0, e1, em, en]

/-- Column of a strip held by lane `q` of a quad in column `i` of its registers. -/
def quadCol (q i : ℕ) : ℕ := i / 2 * 8 + q * 2 + i % 2

theorem quadCol_mod (lane i : ℕ) : quadCol (lane % 4) i = i / 2 * 8 + atomCol lane (i % 2) := by
  unfold quadCol atomCol
  omega

theorem image_quadCol (n : ℕ) :
    (range 4 ×ˢ range (2 * n)).image (fun p ↦ quadCol p.1 p.2) = range (8 * n) := by
  ext k
  simp only [mem_image, mem_product, mem_range, Prod.exists, quadCol]
  constructor
  · rintro ⟨q, i, ⟨hq, hi⟩, rfl⟩
    omega
  · intro hk
    exact ⟨k % 8 / 2, k / 8 * 2 + k % 2, by omega, by omega⟩

theorem quadCol_injOn (s : Finset ℕ) :
    Set.InjOn (fun p : ℕ × ℕ ↦ quadCol p.1 p.2) (range 4 ×ˢ s : Finset (ℕ × ℕ)) := by
  rintro ⟨q, i⟩ hp ⟨q', i'⟩ hp' h
  simp only [coe_product, Set.mem_prod, mem_coe, mem_range] at hp hp'
  simp only [quadCol] at h
  obtain ⟨hq, -⟩ := hp
  obtain ⟨hq', -⟩ := hp'
  have : q = q' ∧ i = i' := by omega
  exact Prod.ext this.1 this.2

theorem sum_quadCol {M : Type*} [AddCommMonoid M] (f : ℕ → M) (n : ℕ) :
    ∑ q ∈ range 4, ∑ i ∈ range (2 * n), f (quadCol q i) = ∑ k ∈ range (8 * n), f k := by
  rw [← image_quadCol, sum_image (quadCol_injOn _), sum_product]

theorem sup_quadCol {α : Type*} [SemilatticeSup α] [OrderBot α] (f : ℕ → α) (n : ℕ) :
    ((range 4).sup fun q ↦ (range (2 * n)).sup fun i ↦ f (quadCol q i)) =
      (range (8 * n)).sup f := by
  rw [← image_quadCol, sup_image, sup_product_left]
  rfl

namespace TiledMMA

def warpM (t : TiledMMA) (wid : ℕ) : ℕ := wid % t.warps.1

def warpN (t : TiledMMA) (wid : ℕ) : ℕ := wid / t.warps.1 % t.warps.2.1

def warpK (t : TiledMMA) (wid : ℕ) : ℕ := wid / (t.warps.1 * t.warps.2.1) % t.warps.2.2

def row (t : TiledMMA) (wid lane v1 m : ℕ) : ℕ :=
  t.permM.owned 16 t.warps.1 (t.warpM wid) m (atomRow lane v1)

def col (t : TiledMMA) (wid lane v0 n : ℕ) : ℕ :=
  t.permN.owned 8 t.warps.2.1 (t.warpN wid) n (atomCol lane v0)

def depth (t : TiledMMA) (wid lane v0 v2 kk : ℕ) : ℕ :=
  t.permK.owned 16 t.warps.2.2 (t.warpK wid) kk (atomDepth lane v0 v2)

def fragment {F : Type} (t : TiledMMA) (M : ℕ) (S : ℕ → ℕ → F) (wid lane a : ℕ) : F :=
  S (t.row wid lane (a / 2 % 2) (a / 4 % M)) (t.col wid lane (a % 2) (a / (4 * M)))

theorem fragment_address {F : Type} (t : TiledMMA) {M v0 v1 m : ℕ} (N n : ℕ) (S : ℕ → ℕ → F)
    (wid lane : ℕ) (h0 : v0 < 2) (h1 : v1 < 2) (hm : m < M) :
    t.fragment M S wid lane ((fragmentC M N).address [v0, v1] m n) =
      S (t.row wid lane v1 m) (t.col wid lane v0 n) := by
  obtain ⟨e0, e1, em, en⟩ := fragmentC_coords N n h0 h1 hm
  rw [fragment, e0, e1, em, en]

variable {F : Type} [AddCommMonoid F]

theorem sum_atomDepth (f : ℕ → F) (lane : ℕ) :
    ∑ q ∈ range 4, ∑ v2 ∈ range 2, ∑ v0 ∈ range 2, f (atomDepth (quadLane lane q) v0 v2) =
      ∑ a ∈ range 16, f a := by
  have h : ∀ q ∈ range 4, ∑ v2 ∈ range 2, ∑ v0 ∈ range 2, f (atomDepth (quadLane lane q) v0 v2) =
      ∑ v2 ∈ range 2, ∑ v0 ∈ range 2, f (q * 2 + v0 + 8 * v2) := by
    intro q hq
    simp [atomDepth, mem_range.1 hq]
  rw [sum_congr rfl h]
  simp only [sum_range_succ, range_zero, sum_empty]
  abel

variable [Mul F]

/-- What the atoms of a warp add to the accumulator row `(v1, m)` at column `d`, with the `M` by `N`
accumulator `rP` regrouped as A operand and `B` read at `(d, depth)`. -/
def product (t : TiledMMA) (M N : ℕ) (rP B : ℕ → ℕ → F) (wid lane v1 m d : ℕ) : F :=
  ∑ kk ∈ range (N / 2), ∑ q ∈ range 4, ∑ v2 ∈ range 2, ∑ v0 ∈ range 2,
    rP (quadLane lane q) ((convertAreg (fragmentC M N)).address [v0, v1, v2] m kk) *
      B d (t.depth wid (quadLane lane q) v0 v2 kk)

/-- A warp whose columns and depths are one strip multiplies each of its own probabilities by the
row of B at its column. -/
theorem product_eq (t : TiledMMA) {M N wid lane v1 m base : ℕ} (d : ℕ) (hN : N % 2 = 0)
    {rP : ℕ → ℕ → F} {P : ℕ → F} (B : ℕ → ℕ → F)
    (hP : ∀ q < 4, ∀ v0 < 2, ∀ n < N, rP (quadLane lane q) ((fragmentC M N).address [v0, v1] m n) =
      P (base + n * 8 + atomCol (quadLane lane q) v0))
    (hd : ∀ q < 4, ∀ v0 < 2, ∀ v2 < 2, ∀ kk, t.depth wid (quadLane lane q) v0 v2 kk =
      base + kk * 16 + atomDepth (quadLane lane q) v0 v2) :
    t.product M N rP B wid lane v1 m d = ∑ k ∈ range (8 * N), P (base + k) * B d (base + k) := by
  have h : ∀ kk ∈ range (N / 2), ∑ q ∈ range 4, ∑ v2 ∈ range 2, ∑ v0 ∈ range 2,
      rP (quadLane lane q) ((convertAreg (fragmentC M N)).address [v0, v1, v2] m kk) *
        B d (t.depth wid (quadLane lane q) v0 v2 kk) =
      ∑ a ∈ range 16, P (base + (kk * 16 + a)) * B d (base + (kk * 16 + a)) := by
    intro kk hk
    have hk := mem_range.1 hk
    rw [← sum_atomDepth (fun a ↦ P (base + (kk * 16 + a)) * B d (base + (kk * 16 + a))) lane]
    refine sum_congr rfl fun q hq ↦ sum_congr rfl fun v2 h2 ↦ sum_congr rfl fun v0 h0 ↦ ?_
    simp only [mem_range] at hq h2 h0
    have e : base + (v2 + 2 * kk) * 8 + atomCol (quadLane lane q) v0 =
        base + (kk * 16 + atomDepth (quadLane lane q) v0 v2) := by
      rw [atomDepth_eq]
      ring
    rw [convertAreg_address, hP q hq v0 h0 _ (by omega), hd q hq v0 h0 v2 h2, e, Nat.add_assoc]
  have e : 8 * N = N / 2 * 16 := by omega
  rw [product, sum_congr rfl h, e, sum_range_mul]

end TiledMMA

end Sm120.Lib
