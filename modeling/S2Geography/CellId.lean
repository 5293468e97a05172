import S2Geography.DyadicCells
import Mathlib.Order.Defs.LinearOrder
import Mathlib.Order.Basic

/-!
# Cell identifiers

A cell id is a 64-bit word: three face bits, the position along the Hilbert curve,
and a trailing one whose place gives the level. The methods below are the word
arithmetic of `s2cell_id.h`, with wrap-around. Every nonzero word names a dyadic
cell, and its leaf range is that cell's interval.
-/
namespace S2Geography

structure S2CellId where
  id : BitVec 64
  deriving DecidableEq, Repr

namespace S2CellId

def kMaxLevel : ℕ := 30
def kNumFaces : ℕ := 6
def kPosBits : ℕ := 2 * kMaxLevel + 1

def none : S2CellId := ⟨0⟩
def sentinel : S2CellId := ⟨~~~0⟩

def toNat (c : S2CellId) : ℕ := c.id.toNat

theorem toNat_injective : Function.Injective toNat := by
  rintro ⟨a⟩ ⟨b⟩ h
  exact congrArg S2CellId.mk (BitVec.eq_of_toNat_eq h)

theorem toNat_lt (c : S2CellId) : c.toNat < 2 ^ 64 := c.id.isLt

/-- Ids are compared as unsigned words. -/
instance : LinearOrder S2CellId := LinearOrder.lift' toNat toNat_injective

theorem le_def {a b : S2CellId} : a ≤ b ↔ a.toNat ≤ b.toNat := Iff.rfl

/-- The lowest set bit of the id. -/
def lsb (c : S2CellId) : BitVec 64 := c.id &&& (~~~c.id + 1#64)

def face (c : S2CellId) : ℕ := (c.id >>> kPosBits).toNat

def isValid (c : S2CellId) : Bool :=
  decide (c.face < kNumFaces) && (c.lsb &&& 0x1555555555555555#64 != 0)

def isLeaf (c : S2CellId) : Bool := c.id &&& 1 != 0

def rangeMin (c : S2CellId) : S2CellId := ⟨c.id - (c.lsb - 1#64)⟩
def rangeMax (c : S2CellId) : S2CellId := ⟨c.id + (c.lsb - 1#64)⟩

def contains (c other : S2CellId) : Bool :=
  decide (other ≥ c.rangeMin) && decide (other ≤ c.rangeMax)

def intersects (c other : S2CellId) : Bool :=
  decide (other.rangeMin ≤ c.rangeMax) && decide (other.rangeMax ≥ c.rangeMin)

theorem contains_eq_true {c other : S2CellId} :
    c.contains other = true ↔ c.rangeMin ≤ other ∧ other ≤ c.rangeMax := by
  simp [contains]

theorem intersects_eq_true {c other : S2CellId} :
    c.intersects other = true ↔ other.rangeMin ≤ c.rangeMax ∧ c.rangeMin ≤ other.rangeMax := by
  simp [intersects]

theorem intersects_comm (a b : S2CellId) : a.intersects b = b.intersects a := by
  rw [Bool.eq_iff_iff, intersects_eq_true, intersects_eq_true]
  exact and_comm

theorem ne_none_of_isValid {c : S2CellId} (h : c.isValid = true) : c ≠ none := by
  rintro rfl
  revert h
  decide

theorem toNat_pos {c : S2CellId} (h : c ≠ none) : 0 < c.toNat := by
  refine Nat.pos_of_ne_zero fun h0 => h (toNat_injective ?_)
  rw [h0]
  rfl

/-- Every nonzero id names a dyadic cell, and its leaf range is the cell's interval:
the arithmetic of `range_min` and `range_max` does not wrap. -/
theorem exists_cell {c : S2CellId} (h : c ≠ none) :
    ∃ d : DyadicCells.DyadicCell, c.toNat = d.center ∧ c.lsb.toNat = d.size ∧
      c.rangeMin.toNat = d.lo ∧ c.rangeMax.toNat = d.hi := by
  obtain ⟨d, hd⟩ := DyadicCells.exists_center_eq (toNat_pos h)
  have hlt : d.center < 2 ^ 64 := hd ▸ c.toNat_lt
  have hid : c.id.toNat = d.center := hd.symm
  have hpos : 0 < d.center := hd ▸ toNat_pos h
  have hlsb : c.lsb.toNat = d.size := by
    have hneg : (~~~c.id + 1#64).toNat = 2 ^ 64 - d.center := by
      rw [← BitVec.neg_eq_not_add, BitVec.toNat_neg, hid, Nat.mod_eq_of_lt (by omega)]
    rw [lsb, BitVec.toNat_and, hneg, hid]
    exact DyadicCells.and_two_pow_sub hlt
  have hsize := d.size_pos
  have hmask : (c.lsb - 1#64).toNat = d.size - 1 := by
    have hs : d.size < 2 ^ 64 := hlsb ▸ c.lsb.isLt
    rw [BitVec.toNat_sub, hlsb]
    simp only [BitVec.toNat_ofNat]
    omega
  -- the interval of a cell below `2 ^ 64` ends at most at `2 ^ 64`
  have hhi : d.center + (d.size - 1) < 2 ^ 64 := by
    have hle : d.height < 64 := by
      have : d.size < 2 ^ 64 := hlsb ▸ c.lsb.isLt
      exact (Nat.pow_lt_pow_iff_right (by omega)).mp this
    obtain ⟨e, he⟩ := Nat.exists_eq_add_of_lt hle
    have hw : 2 ^ 64 = 2 * 2 ^ e * d.size := by
      rw [DyadicCells.DyadicCell.size, he, Nat.pow_add, Nat.pow_add]
      ring
    have hidx : d.index < 2 ^ e := by
      by_contra hge
      have hm := Nat.mul_le_mul_right d.size (Nat.mul_le_mul_left 2 (Nat.le_of_not_lt hge))
      rw [DyadicCells.DyadicCell.center, Nat.add_mul, Nat.one_mul] at hlt
      omega
    have hm := Nat.mul_le_mul_right d.size (Nat.mul_le_mul_left 2 (Nat.succ_le_of_lt hidx))
    simp only [DyadicCells.DyadicCell.center, Nat.succ_eq_add_one, Nat.mul_add, Nat.add_mul] at *
    omega
  refine ⟨d, hd.symm, hlsb, ?_, ?_⟩
  · have hle : d.size - 1 ≤ d.center := by
      have := Nat.le_mul_of_pos_left d.size (show 0 < 2 * d.index + 1 by omega)
      simp only [DyadicCells.DyadicCell.center]
      omega
    rw [d.lo_eq, rangeMin, toNat, BitVec.toNat_sub, hmask, hid]
    omega
  · rw [d.hi_eq, rangeMax, toNat, BitVec.toNat_add, hmask, hid, Nat.mod_eq_of_lt hhi]

theorem rangeMin_le {c : S2CellId} (h : c ≠ none) : c.rangeMin ≤ c := by
  obtain ⟨d, hc, -, hl, -⟩ := exists_cell h
  rw [le_def, hl, hc]
  exact d.lo_le_center

theorem le_rangeMax {c : S2CellId} (h : c ≠ none) : c ≤ c.rangeMax := by
  obtain ⟨d, hc, -, -, hh⟩ := exists_cell h
  rw [le_def, hh, hc]
  exact d.center_le_hi

/-- Testing an id against a range tests containment of the ranges. -/
theorem contains_iff {a b : S2CellId} (ha : a ≠ none) (hb : b ≠ none) :
    a.contains b = true ↔ a.rangeMin ≤ b.rangeMin ∧ b.rangeMax ≤ a.rangeMax := by
  obtain ⟨d, -, -, hdl, hdh⟩ := exists_cell ha
  obtain ⟨e, hec, -, hel, heh⟩ := exists_cell hb
  rw [contains_eq_true, le_def, le_def, le_def, le_def, hdl, hdh, hec, hel, heh]
  exact DyadicCells.DyadicCell.center_mem_iff e d

theorem contains_trans {a b c : S2CellId} (ha : a ≠ none) (hb : b ≠ none) (hc : c ≠ none)
    (hab : a.contains b = true) (hbc : b.contains c = true) : a.contains c = true := by
  rw [contains_iff ha hb] at hab
  rw [contains_iff hb hc] at hbc
  exact (contains_iff ha hc).mpr ⟨hab.1.trans hbc.1, hbc.2.trans hab.2⟩

/-- Two cells meet exactly when one contains the other. -/
theorem intersects_iff {a b : S2CellId} (ha : a ≠ none) (hb : b ≠ none) :
    a.intersects b = true ↔ a.contains b = true ∨ b.contains a = true := by
  rw [intersects_eq_true, contains_iff ha hb, contains_iff hb ha]
  have ha' := (rangeMin_le ha).trans (le_rangeMax ha)
  have hb' := (rangeMin_le hb).trans (le_rangeMax hb)
  obtain ⟨d, -, -, hdl, hdh⟩ := exists_cell ha
  obtain ⟨e, -, -, hel, heh⟩ := exists_cell hb
  constructor
  · rintro ⟨h₁, h₂⟩
    rw [le_def, hel, hdh] at h₁
    rw [le_def, hdl, heh] at h₂
    simp only [le_def, hdl, hdh, hel, heh]
    exact DyadicCells.DyadicCell.within_or_within h₂ h₁
  · rintro (⟨h₁, h₂⟩ | ⟨h₁, h₂⟩)
    · exact ⟨hb'.trans h₂, h₁.trans hb'⟩
    · exact ⟨h₁.trans ha', ha'.trans h₂⟩

/-- Cells that contain a common id meet. -/
theorem intersects_of_contains {a b c : S2CellId}
    (ha : a.contains c = true) (hb : b.contains c = true) : a.intersects b = true := by
  rw [contains_eq_true] at ha hb
  exact intersects_eq_true.mpr ⟨hb.1.trans ha.2, ha.1.trans hb.2⟩

end S2CellId

end S2Geography
