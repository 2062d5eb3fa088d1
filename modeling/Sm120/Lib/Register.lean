import Sm120.Lib.Fragment

namespace Sm120.Lib

/-- A register of the accumulators of a tile: warp, lane, row and column coordinates. -/
structure Register where
  wid : ℕ
  lane : ℕ
  v1 : ℕ
  m : ℕ
  v0 : ℕ
  n : ℕ
deriving DecidableEq

namespace Register

structure Valid (warps M N : ℕ) (x : Register) : Prop where
  wid : x.wid < warps
  lane : x.lane < 32
  v1 : x.v1 < 2
  m : x.m < M
  v0 : x.v0 < 2
  n : x.n < N

end Register

/-- `units` units with `reps` repetitions each share out the atoms of a mode. -/
structure Shares (units reps : ℕ) (place : ℕ → ℕ → ℕ) : Prop where
  lt : ∀ u < units, ∀ j < reps, place u j < units * reps
  existsUnique : ∀ i < units * reps, ∃! p : ℕ × ℕ, (p.1 < units ∧ p.2 < reps) ∧ place p.1 p.2 = i

theorem shares_strips (units reps : ℕ) : Shares units reps fun u j ↦ u * reps + j := by
  constructor
  · intro u hu j hj
    calc u * reps + j < (u + 1) * reps := by rw [Nat.succ_mul]; omega
      _ ≤ units * reps := Nat.mul_le_mul_right _ hu
  · intro i hi
    have hreps : 0 < reps := Nat.pos_of_mul_pos_left (Nat.zero_lt_of_lt hi)
    refine ⟨(i / reps, i % reps), ⟨⟨?_, Nat.mod_lt _ hreps⟩, Nat.div_add_mod' i reps⟩, ?_⟩
    · exact (Nat.div_lt_iff_lt_mul hreps).2 hi
    · rintro ⟨u, j⟩ ⟨⟨-, hj⟩, rfl⟩
      dsimp only at hj ⊢
      rw [Nat.add_comm, Nat.add_mul_div_right _ _ hreps, Nat.div_eq_of_lt hj, Nat.zero_add,
        Nat.add_mul_mod_self_right, Nat.mod_eq_of_lt hj]

theorem shares_interleaved (units reps : ℕ) : Shares units reps fun u j ↦ u + units * j := by
  constructor
  · intro u hu j hj
    calc u + units * j < units * (j + 1) := by rw [Nat.mul_succ]; omega
      _ ≤ units * reps := Nat.mul_le_mul_left _ hj
  · intro i hi
    have hunits : 0 < units := Nat.pos_of_mul_pos_right (Nat.zero_lt_of_lt hi)
    refine ⟨(i % units, i / units), ⟨⟨Nat.mod_lt _ hunits, Nat.div_lt_of_lt_mul hi⟩,
      Nat.mod_add_div i units⟩, ?_⟩
    rintro ⟨u, j⟩ ⟨⟨hu, -⟩, rfl⟩
    dsimp only at hu ⊢
    rw [Nat.add_mul_mod_self_left, Nat.mod_eq_of_lt hu, Nat.add_mul_div_left _ _ hunits,
      Nat.div_eq_of_lt hu, Nat.zero_add]

namespace TiledMMA

def coord (t : TiledMMA) (x : Register) : ℕ × ℕ :=
  (t.row x.wid x.lane x.v1 x.m, t.col x.wid x.lane x.v0 x.n)

/-- An `A` by `B` grid of warps, warp `a + A * b` at `(a, b)`, whose rows and columns are shared out
by atoms of 16 rows and of 8 columns. -/
structure Covers (t : TiledMMA) (A B M N : ℕ) (rowPlace colPlace : ℕ → ℕ → ℕ) : Prop where
  rows : Shares A M rowPlace
  cols : Shares B N colPlace
  row_eq : ∀ wid < A * B, ∀ lane < 32, ∀ v1 < 2, ∀ m,
    t.row wid lane v1 m = 16 * rowPlace (wid % A) m + atomRow lane v1
  col_eq : ∀ wid < A * B, ∀ lane, ∀ v0 < 2, ∀ n,
    t.col wid lane v0 n = 8 * colPlace (wid / A) n + atomCol lane v0

namespace Covers

variable {t : TiledMMA} {A B M N : ℕ} {rowPlace colPlace : ℕ → ℕ → ℕ}

theorem coord_div_mod (h : t.Covers A B M N rowPlace colPlace) {x : Register}
    (hx : x.Valid (A * B) M N) :
    (t.coord x).1 / 16 = rowPlace (x.wid % A) x.m ∧ (t.coord x).1 % 16 = atomRow x.lane x.v1 ∧
      (t.coord x).2 / 8 = colPlace (x.wid / A) x.n ∧ (t.coord x).2 % 8 = atomCol x.lane x.v0 := by
  have hr := atomRow_lt hx.lane hx.v1
  have hc := atomCol_lt x.lane hx.v0
  rw [coord, h.row_eq _ hx.wid _ hx.lane _ hx.v1, h.col_eq _ hx.wid _ _ hx.v0]
  dsimp only
  omega

theorem coord_lt (h : t.Covers A B M N rowPlace colPlace) {x : Register}
    (hx : x.Valid (A * B) M N) :
    (t.coord x).1 < 16 * (A * M) ∧ (t.coord x).2 < 8 * (B * N) := by
  obtain ⟨hr, -, hc, -⟩ := h.coord_div_mod hx
  have hA : 0 < A := Nat.pos_of_mul_pos_right (Nat.zero_lt_of_lt hx.wid)
  have hrow := h.rows.lt _ (Nat.mod_lt x.wid hA) _ hx.m
  have hcol := h.cols.lt _ (Nat.div_lt_of_lt_mul hx.wid) _ hx.n
  omega

/-- **Every element of the tile is held by one register.** -/
theorem existsUnique (h : t.Covers A B M N rowPlace colPlace) {row col : ℕ}
    (hrow : row < 16 * (A * M)) (hcol : col < 8 * (B * N)) :
    ∃! x : Register, x.Valid (A * B) M N ∧ t.coord x = (row, col) := by
  obtain ⟨⟨a, m⟩, ⟨⟨ha, hm⟩, hrm⟩, huniqR⟩ := h.rows.existsUnique (row / 16) (by omega)
  obtain ⟨⟨b, n⟩, ⟨⟨hb, hn⟩, hcn⟩, huniqC⟩ := h.cols.existsUnique (col / 8) (by omega)
  dsimp only at ha hm hrm hb hn hcn
  have hmod : (a + A * b) % A = a := by rw [Nat.add_mul_mod_self_left, Nat.mod_eq_of_lt ha]
  have hdiv : (a + A * b) / A = b := by
    rw [Nat.add_mul_div_left _ _ (by omega), Nat.div_eq_of_lt ha, Nat.zero_add]
  have hwid : a + A * b < A * B :=
    calc a + A * b < A * (b + 1) := by rw [Nat.mul_succ]; omega
      _ ≤ A * B := Nat.mul_le_mul_left _ hb
  have hlane : row % 8 * 4 + col % 8 / 2 < 32 := by omega
  have hv1 : row % 16 / 8 < 2 := by omega
  have hv0 : col % 2 < 2 := by omega
  refine ⟨⟨a + A * b, row % 8 * 4 + col % 8 / 2, row % 16 / 8, m, col % 2, n⟩,
    ⟨⟨hwid, hlane, hv1, hm, hv0, hn⟩, ?_⟩, ?_⟩
  · rw [coord, h.row_eq _ hwid _ hlane _ hv1, h.col_eq _ hwid _ _ hv0]
    dsimp only
    rw [hmod, hdiv, hrm, hcn, atomRow, atomCol, Prod.mk.injEq]
    omega
  · rintro x ⟨hx, hxe⟩
    obtain ⟨hrp, hra, hcp, hca⟩ := h.coord_div_mod hx
    rw [hxe] at hrp hra hcp hca
    dsimp only at hrp hra hcp hca
    have hA := Nat.mod_lt x.wid (Nat.zero_lt_of_lt ha)
    have hB : x.wid / A < B := Nat.div_lt_of_lt_mul hx.wid
    have er := huniqR (x.wid % A, x.m) ⟨⟨hA, hx.m⟩, hrp.symm⟩
    have ec := huniqC (x.wid / A, x.n) ⟨⟨hB, hx.n⟩, hcp.symm⟩
    rw [Prod.mk.injEq] at er ec
    have hw : x.wid = a + A * b := by rw [← er.1, ← ec.1, Nat.mod_add_div]
    have h0 := hx.v0
    have h1 := hx.v1
    have hl := hx.lane
    rw [atomRow] at hra
    rw [atomCol] at hca
    cases x
    simp only [Register.mk.injEq]
    dsimp only at hw h0 h1 hl hra hca er ec
    exact ⟨hw, by omega, by omega, er.2, by omega, ec.2⟩

end Covers

end TiledMMA

end Sm120.Lib
