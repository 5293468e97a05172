import S2Geography.HilbertCells

/-!
# Cells with their bounds

`S2Cell` of `s2cell.cc` keeps the sides of a cell beside its id, its level and its
orientation. `Subdivide` finds the same for the four quarters without another walk along the
curve. The coordinates of the sides are multiples of powers of two, which double precision
has exactly, and the projection to the face is applied to these.
-/
namespace S2Geography

open QuadrantCurves QuadrantCurve DyadicCells DyadicCell
open S2CellId hiding none

/-- `IJtoSTMin`. -/
def ijToSTMin (i : ℕ) : ℚ := 1 / 2 ^ 30 * i

def siTiToST (si : ℕ) : ℚ := 1 / 2 ^ 31 * si

structure R2Rect (α : Type) where
  u : α × α
  v : α × α
  deriving DecidableEq, Repr

structure S2Cell (α : Type) where
  id : S2CellId
  face : ℕ
  level : ℤ
  orientation : Fin 4
  uv : R2Rect α
  deriving DecidableEq, Repr

namespace S2Cell

variable {α : Type} (stToUV : ℚ → α) {c d : S2CellId} {l h p n : ℕ}

/-- The lower end of a cell: `ij[d] & -cell_size` of 32-bit integers. -/
def ijLo (ij cellSize : ℕ) : ℕ := (BitVec.ofNat 32 ij &&& -BitVec.ofNat 32 cellSize).toNat

def ijLevelToBoundUV (i j : ℕ) (level : ℤ) : R2Rect α :=
  let cellSize := getSizeIJ level
  ⟨(stToUV (ijToSTMin (ijLo i cellSize)), stToUV (ijToSTMin (ijLo i cellSize + cellSize))),
    (stToUV (ijToSTMin (ijLo j cellSize)), stToUV (ijToSTMin (ijLo j cellSize + cellSize)))⟩

/-- The constructor `S2Cell(S2CellId)`. -/
def ofId (id : S2CellId) : S2Cell α :=
  let f := id.toFaceIJOrientation
  ⟨id, f.face, id.level, orientationOf f.orientation, ijLevelToBoundUV stToUV f.i f.j id.level⟩

/-- `S2CellId::GetCenterUV`. -/
def getCenterUV (id : S2CellId) : α × α :=
  let center := id.getCenterSiTi
  (stToUV (siTiToST center.2.1), stToUV (siTiToST center.2.2))

/-- One side of a quarter: of the two bounds one is kept and the other is the middle. -/
def halfInterval (bounds : α × α) (mid : α) (i : ℕ) : α × α :=
  if i = 0 then (bounds.1, mid) else (mid, bounds.2)

/-- `Subdivide`, which returns false for a leaf. -/
def subdivide (cell : S2Cell α) : Option (List (S2Cell α)) :=
  if cell.id.isLeaf then none
  else
    let mid := getCenterUV stToUV cell.id
    let run := positions.foldl (fun (s : List (S2Cell α) × S2CellId) pos =>
      let ij := (kPosToIJ cell.orientation pos).val
      (s.1 ++ [⟨s.2, cell.face, cell.level + 1, cell.orientation ^^^ kPosToOrientation pos,
        ⟨halfInterval cell.uv.u mid.1 (ij >>> 1), halfInterval cell.uv.v mid.2 (ij &&& 1)⟩⟩],
        s.2.next)) ([], cell.id.childBegin)
    some run.1

/-! ### The quarters in order -/

theorem childBegin_eq (hv : c.isValid = true) (hl : c.isLeaf = false) :
    c.childBegin = c.child 0 := by
  have hne := ne_none_of_isValid hv
  have hh := two_le_height hv hl
  obtain ⟨hb, hbcell⟩ := childBegin_cell hne hh
  obtain ⟨hd, hdcell⟩ := child_cell hne hh (k := 0) (by omega)
  exact eq_of_cell_eq hb hd (hbcell.trans hdcell.symm)

theorem next_child (hv : c.isValid = true) (hl : c.isLeaf = false) {k : ℕ} (hk : k < 3) :
    (c.child k).next = c.child (k + 1) := by
  have hne := ne_none_of_isValid hv
  have hh := two_le_height hv hl
  obtain ⟨hd, hdcell⟩ := child_cell hne hh (show k < 4 by omega)
  obtain ⟨he, hecell⟩ := child_cell hne hh (show k + 1 < 4 by omega)
  obtain ⟨hn, hncell⟩ := next_cell (d := c.cell.child (k + 1)) hd (by simp [hdcell]) (by
    rw [hdcell]
    rfl) (by
    rw [← hecell, ← S2CellId.toNat_eq he]
    exact toNat_lt _)
  exact eq_of_cell_eq hn he (hncell.trans hecell.symm)

/-! ### The sides of the quarters -/

/-- The mask with a negated power of two rounds down to its multiples. -/
theorem ijLo_eq {i : ℕ} (hi : i < 2 ^ 30) (hn : n ≤ 30) : ijLo i (2 ^ n) = i / 2 ^ n * 2 ^ n := by
  have hpos := Nat.two_pow_pos n
  have hlt : 2 ^ n < 2 ^ 32 := Nat.pow_lt_pow_right (by omega) (by omega)
  have hneg : (-BitVec.ofNat 32 (2 ^ n)).toNat = 2 ^ 32 - (2 ^ n - 1 + 1) := by
    rw [BitVec.toNat_neg, BitVec.toNat_ofNat, Nat.mod_eq_of_lt hlt]
    omega
  rw [ijLo, BitVec.toNat_and, hneg, BitVec.toNat_ofNat, Nat.mod_eq_of_lt (by omega)]
  apply Nat.eq_of_testBit_eq
  intro k
  rw [Nat.testBit_and, Nat.testBit_two_pow_sub_succ (by omega), Nat.testBit_two_pow_sub_one,
    Nat.testBit_mul_two_pow, Nat.testBit_div_two_pow]
  by_cases hkn : n ≤ k
  · rw [Nat.sub_add_cancel hkn]
    by_cases hk : k < 32
    · simp [hk, hkn]
    · have hzero : i.testBit k = false := by
        apply Nat.testBit_lt_two_pow
        exact hi.trans_le (Nat.pow_le_pow_right (by omega) (by omega))
      simp [hzero]
  · simp [hkn, Nat.lt_of_not_le hkn]

theorem siTiToST_two_mul (i : ℕ) : siTiToST (2 * i) = ijToSTMin i := by
  simp only [siTiToST, ijToSTMin]
  push_cast
  ring

theorem ijLevelToBoundUV_eq (hc : CurveCell c l h p) (hv : c.isValid = true) {i j : ℕ}
    (hi : i < 2 ^ 30) (hj : j < 2 ^ 30) : ijLevelToBoundUV stToUV i j c.level =
      ⟨(stToUV (ijToSTMin (i / 2 ^ h * 2 ^ h)), stToUV (ijToSTMin (i / 2 ^ h * 2 ^ h + 2 ^ h))),
        (stToUV (ijToSTMin (j / 2 ^ h * 2 ^ h)),
          stToUV (ijToSTMin (j / 2 ^ h * 2 ^ h + 2 ^ h)))⟩ := by
  have hsum := hc.sum
  rw [ijLevelToBoundUV, hc.getSizeIJ_eq hv, ijLo_eq hi (by omega), ijLo_eq hj (by omega)]

theorem halfInterval_eq (f : ℕ → α) (x n q : ℕ) (hq : q < 2) :
    halfInterval (f (x * 2 ^ (n + 1)), f (x * 2 ^ (n + 1) + 2 ^ (n + 1)))
      (f (x * 2 ^ (n + 1) + 2 ^ n)) q =
      (f ((x * 2 + q) * 2 ^ n), f ((x * 2 + q) * 2 ^ n + 2 ^ n)) := by
  have hlo : x * 2 ^ (n + 1) = x * 2 * 2 ^ n := by ring
  have hmid : x * 2 ^ (n + 1) + 2 ^ n = (x * 2 + 1) * 2 ^ n := by ring
  have hhi : x * 2 ^ (n + 1) + 2 ^ (n + 1) = (x * 2 + 1) * 2 ^ n + 2 ^ n := by ring
  rw [halfInterval, hmid, hhi, hlo]
  obtain rfl | rfl : q = 0 ∨ q = 1 := by omega
  · simp [Nat.add_mul]
  · rw [if_neg (by omega)]

/-- A quarter as `Subdivide` fills it in. -/
theorem ofId_child (hv : c.isValid = true) (hl : c.isLeaf = false) (pos : Fin 4) :
    ofId stToUV (c.child pos) =
      ⟨c.child pos, (ofId stToUV c).face, (ofId stToUV c).level + 1,
        (ofId stToUV c).orientation ^^^ kPosToOrientation pos,
        ⟨halfInterval (ofId stToUV c).uv.u (getCenterUV stToUV c).1
            ((kPosToIJ (ofId stToUV c).orientation pos).val >>> 1),
          halfInterval (ofId stToUV c).uv.v (getCenterUV stToUV c).2
            ((kPosToIJ (ofId stToUV c).orientation pos).val &&& 1)⟩⟩ := by
  obtain ⟨l, h, p, hc⟩ := exists_curveCell hv
  obtain ⟨n, rfl⟩ := hc.exists_succ hv hl
  obtain ⟨hdv, hlevel, -⟩ := child_spec hv hl pos.isLt
  obtain ⟨hface, hd⟩ := hc.child hv pos.isLt
  obtain ⟨o, ho, hfaces, hdo, hdi, hdj⟩ := child_toFaceIJOrientation hv hl pos
  obtain ⟨hi, hj⟩ := c.toFaceIJOrientation_lt
  obtain ⟨hi', hj'⟩ := (c.child pos).toFaceIJOrientation_lt
  rw [hc.getSizeIJ_eq hv, hd.getSizeIJ_eq hdv] at hdi hdj
  have hcenter : ∀ x, 2 * x + 2 ^ (n + 1) = 2 * (x + 2 ^ n) := by
    intro x
    rw [Nat.pow_succ]
    ring
  have hbound := ijLevelToBoundUV_eq stToUV hc hv hi hj
  have hbound' := ijLevelToBoundUV_eq stToUV hd hdv hi' hj'
  rw [hlevel, hdi, hdj] at hbound'
  have hcenteruv : getCenterUV stToUV c =
      (stToUV (ijToSTMin (c.toFaceIJOrientation.i / 2 ^ (n + 1) * 2 ^ (n + 1) + 2 ^ n)),
        stToUV (ijToSTMin (c.toFaceIJOrientation.j / 2 ^ (n + 1) * 2 ^ (n + 1) + 2 ^ n))) := by
    rw [getCenterUV, getCenterSiTi_eq hv, hc.getSizeIJ_eq hv]
    simp only [hcenter, siTiToST_two_mul]
  have hu := halfInterval_eq (fun k => stToUV (ijToSTMin k))
    (c.toFaceIJOrientation.i / 2 ^ (n + 1)) n _ (quadI_lt (kPosToIJ o pos))
  have hv' := halfInterval_eq (fun k => stToUV (ijToSTMin k))
    (c.toFaceIJOrientation.j / 2 ^ (n + 1)) n _ (quadJ_lt (kPosToIJ o pos))
  simp only [quadI, quadJ] at hu hv'
  simp only [ofId, hcenteruv, hbound, hbound', ho, hdo, orientationOf_val, hlevel, hfaces,
    Nat.shiftRight_eq_div_pow, Nat.pow_one, Nat.and_one_is_mod, hu, hv']

/-- `Subdivide` is equivalent to iterating over the child cell ids and calling the
constructor. -/
theorem subdivide_ofId (hv : c.isValid = true) : (ofId stToUV c).subdivide stToUV =
    if c.isLeaf then none
    else some ((List.range 4).map fun k => ofId stToUV (c.child k)) := by
  rw [subdivide]
  change (if c.isLeaf = true then none else _) = _
  cases hl : c.isLeaf with
  | true => rfl
  | false =>
    -- the ids of the turns of the loop
    have h1 := next_child hv hl (show 0 < 3 by omega)
    have h2 := next_child hv hl (show 1 < 3 by omega)
    have h3 := next_child hv hl (show 2 < 3 by omega)
    have q0 := ofId_child stToUV hv hl 0
    have q1 := ofId_child stToUV hv hl 1
    have q2 := ofId_child stToUV hv hl 2
    have q3 := ofId_child stToUV hv hl 3
    have hid : (ofId stToUV c).id = c := rfl
    simp only [Nat.zero_add, Nat.reduceAdd] at h1 h2 h3
    simp only [positions, List.foldl_cons, List.foldl_nil, hid, childBegin_eq hv hl, h1, h2, h3]
    simp only [List.range_succ, List.range_zero, List.nil_append, List.cons_append, List.map_cons,
      List.map_nil]
    rw [if_neg (by simp), if_neg (by simp)]
    congr 1
    exact congrArg₂ List.cons q0.symm (congrArg₂ List.cons q1.symm
      (congrArg₂ List.cons q2.symm (congrArg₂ List.cons q3.symm rfl)))

/-- The third face, with the linear projection. -/
theorem subdivide_ofId_face :
    (ofId (fun s => 2 * s - 1) ⟨0x5000000000000000⟩).subdivide (fun s => 2 * s - 1) =
      if (⟨0x5000000000000000⟩ : S2CellId).isLeaf then none
      else some ((List.range 4).map fun k =>
        ofId (fun s => 2 * s - 1) ((⟨0x5000000000000000⟩ : S2CellId).child k)) :=
  subdivide_ofId _ (by decide)

end S2Cell

end S2Geography
