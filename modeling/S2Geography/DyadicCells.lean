import Mathlib.Algebra.Order.Ring.Nat
import Mathlib.Algebra.Ring.Parity
import Mathlib.Data.Nat.Bitwise
import Mathlib.Data.Nat.Factorization.Basic
import Mathlib.Tactic.Ring
import Mathlib.Tactic.Linarith

/-!
# Dyadic cells numbered by odd multiples of a power of two

A positive number is `(2 * index + 1) * 2 ^ height` in exactly one way. Read as a
cell, it stands for the open interval between the two neighbouring multiples of
`2 ^ (height + 1)`. Any two such intervals are nested or disjoint, and the number
of a cell lies in another cell's interval exactly when the intervals are nested.
-/
namespace DyadicCells

/-- A cell is its position among the cells of its size, and the log of that size. -/
structure DyadicCell where
  index : ℕ
  height : ℕ
  deriving DecidableEq, Repr

namespace DyadicCell

/-- Half the width of the cell. -/
def size (c : DyadicCell) : ℕ := 2 ^ c.height

/-- The number of the cell, which is also the middle of its interval. -/
def center (c : DyadicCell) : ℕ := (2 * c.index + 1) * c.size

/-- The least number strictly above the left end of the interval. -/
def lo (c : DyadicCell) : ℕ := 2 * c.index * c.size + 1

/-- The greatest number strictly below the right end of the interval. -/
def hi (c : DyadicCell) : ℕ := (2 * c.index + 2) * c.size - 1

theorem size_pos (c : DyadicCell) : 0 < c.size := Nat.two_pow_pos _

theorem lo_eq (c : DyadicCell) : c.lo = c.center - (c.size - 1) := by
  have h := c.size_pos
  simp only [lo, center, Nat.add_mul, Nat.one_mul]
  omega

theorem hi_eq (c : DyadicCell) : c.hi = c.center + (c.size - 1) := by
  have h := c.size_pos
  simp only [hi, center, Nat.add_mul, Nat.one_mul]
  omega

theorem lo_le_center (c : DyadicCell) : c.lo ≤ c.center := by
  rw [lo_eq]
  exact Nat.sub_le _ _

theorem center_le_hi (c : DyadicCell) : c.center ≤ c.hi := by
  rw [hi_eq]
  exact Nat.le_add_right _ _

theorem lo_pos (c : DyadicCell) : 0 < c.lo := Nat.succ_pos _

/-- Containment of intervals. -/
def Within (a b : DyadicCell) : Prop := b.lo ≤ a.lo ∧ a.hi ≤ b.hi

theorem Within.refl (a : DyadicCell) : a.Within a := ⟨le_rfl, le_rfl⟩

theorem Within.trans {a b c : DyadicCell} (h : a.Within b) (h' : b.Within c) : a.Within c :=
  ⟨h'.1.trans h.1, h.2.trans h'.2⟩

/-- A cell no larger than another is inside it or beside it: both intervals end at
multiples of the smaller cell's width, so no end falls strictly inside it. -/
theorem within_or_disjoint {a b : DyadicCell} (h : a.height ≤ b.height) :
    a.Within b ∨ a.hi < b.lo ∨ b.hi < a.lo := by
  obtain ⟨d, hd⟩ := Nat.exists_eq_add_of_le h
  have hb : b.size = 2 ^ d * a.size := by
    simp only [size, hd, Nat.pow_add]
    ring
  have ha := a.size_pos
  have hbl : b.lo = 2 * (b.index * 2 ^ d) * a.size + 1 := by
    simp only [lo, hb]
    ring
  have hbh : b.hi = 2 * ((b.index + 1) * 2 ^ d) * a.size - 1 := by
    simp only [hi, hb]
    congr 1
    ring
  have hah : a.hi = 2 * (a.index + 1) * a.size - 1 := by
    simp only [hi]
    congr 1
  rcases Nat.lt_or_ge a.index (b.index * 2 ^ d) with hlt | hge
  · right; left
    have hm := Nat.mul_le_mul_right a.size (Nat.mul_le_mul_left 2 (Nat.succ_le_of_lt hlt))
    rw [hah, hbl]
    simp only [Nat.succ_eq_add_one] at hm
    omega
  rcases Nat.lt_or_ge a.index ((b.index + 1) * 2 ^ d) with hlt' | hge'
  · left
    have hl := Nat.mul_le_mul_right a.size (Nat.mul_le_mul_left 2 hge)
    have hr := Nat.mul_le_mul_right a.size (Nat.mul_le_mul_left 2 (Nat.succ_le_of_lt hlt'))
    simp only [Nat.succ_eq_add_one] at hr
    refine ⟨?_, ?_⟩
    · rw [hbl]
      simp only [lo]
      omega
    · rw [hah, hbh]
      omega
  · right; right
    have hm := Nat.mul_le_mul_right a.size (Nat.mul_le_mul_left 2 hge')
    have hpos : 0 < 2 * ((b.index + 1) * 2 ^ d) * a.size := by positivity
    rw [hbh]
    simp only [lo]
    omega

/-- The number of a larger cell is a multiple of the smaller cell's width, so it is
never strictly inside the smaller one. -/
theorem center_notMem_of_height_lt {a b : DyadicCell} (h : b.height < a.height) :
    a.center < b.lo ∨ b.hi < a.center := by
  obtain ⟨d, hd⟩ := Nat.exists_eq_add_of_lt h
  have ha : a.size = 2 * (2 ^ d * b.size) := by
    simp only [size, hd, Nat.pow_add, Nat.pow_one]
    ring
  have hc : a.center = 2 * ((2 * a.index + 1) * 2 ^ d) * b.size := by
    simp only [center, ha]
    ring
  have hb := b.size_pos
  rcases Nat.lt_or_ge b.index ((2 * a.index + 1) * 2 ^ d) with hlt | hge
  · right
    have hm := Nat.mul_le_mul_right b.size (Nat.mul_le_mul_left 2 (Nat.succ_le_of_lt hlt))
    simp only [Nat.succ_eq_add_one] at hm
    have hh : b.hi = 2 * (b.index + 1) * b.size - 1 := by
      simp only [hi]
      congr 1
    have hpos : 0 < 2 * (b.index + 1) * b.size := by positivity
    rw [hh, hc]
    omega
  · left
    have hm := Nat.mul_le_mul_right b.size (Nat.mul_le_mul_left 2 hge)
    rw [hc]
    simp only [lo]
    omega

/-- Testing the number of a cell against another interval tests containment. -/
theorem center_mem_iff (a b : DyadicCell) :
    (b.lo ≤ a.center ∧ a.center ≤ b.hi) ↔ a.Within b := by
  constructor
  · rintro ⟨hl, hh⟩
    rcases Nat.lt_or_ge b.height a.height with hlt | hge
    · rcases center_notMem_of_height_lt hlt with h | h <;> omega
    · rcases within_or_disjoint hge with h | h | h
      · exact h
      · have := a.center_le_hi; omega
      · have := a.lo_le_center; omega
  · rintro ⟨hl, hh⟩
    exact ⟨hl.trans a.lo_le_center, a.center_le_hi.trans hh⟩

/-- Two intervals that meet are nested one way or the other. -/
theorem within_or_within {a b : DyadicCell} (hab : b.lo ≤ a.hi) (hba : a.lo ≤ b.hi) :
    a.Within b ∨ b.Within a := by
  rcases Nat.le_total a.height b.height with h | h
  · rcases within_or_disjoint h with h | h | h
    · exact Or.inl h
    · omega
    · omega
  · rcases within_or_disjoint h with h | h | h
    · exact Or.inr h
    · omega
    · omega

end DyadicCell

/-- Every positive number names a cell. -/
theorem exists_center_eq {n : ℕ} (hn : 0 < n) : ∃ c : DyadicCell, c.center = n := by
  obtain ⟨t, m, ⟨k, hk⟩, h⟩ := Nat.exists_eq_two_pow_mul_odd hn.ne'
  exact ⟨⟨k, t⟩, by simp only [DyadicCell.center, DyadicCell.size]; rw [h, hk]; ring⟩

/-- Above the lowest set bit, the two's complement has the complementary bits. -/
theorem testBit_two_pow_sub {w k t i : ℕ} (h : (2 * k + 1) * 2 ^ t ≤ 2 ^ w) (hi : t < i)
    (hw : i < w) :
    (2 ^ w - (2 * k + 1) * 2 ^ t).testBit i = !((2 * k + 1) * 2 ^ t).testBit i := by
  have hsplit : 2 ^ w - (2 * k + 1) * 2 ^ t = 2 ^ w - ((2 * k + 1) * 2 ^ t - 1 + 1) := by
    have := Nat.mul_pos (show 0 < 2 * k + 1 by omega) (Nat.two_pow_pos t)
    omega
  have hpos := Nat.mul_pos (show 0 < 2 * k + 1 by omega) (Nat.two_pow_pos t)
  rw [hsplit, Nat.testBit_two_pow_sub_succ (by omega)]
  simp only [hw, decide_true, Bool.true_and]
  congr 1
  -- subtracting one only changes the bits up to `t`
  have hlow : (2 * k + 1) * 2 ^ t - 1 = 2 ^ (t + 1) * k + (2 ^ t - 1) := by
    have := Nat.two_pow_pos t
    rw [Nat.pow_succ]
    have : (2 * k + 1) * 2 ^ t = 2 ^ t * 2 * k + 2 ^ t := by ring
    omega
  have hhigh : (2 * k + 1) * 2 ^ t = 2 ^ (t + 1) * k + 2 ^ t := by
    rw [Nat.pow_succ]
    ring
  have hlt : 2 ^ t < 2 ^ (t + 1) := Nat.pow_lt_pow_right (by omega) (by omega)
  rw [hlow, hhigh, Nat.testBit_two_pow_mul_add _ (by omega), Nat.testBit_two_pow_mul_add _ hlt,
    if_neg (by omega), if_neg (by omega)]

/-- The lowest set bit of a word, isolated by masking it with its two's complement. -/
theorem and_two_pow_sub {w k t : ℕ} (h : (2 * k + 1) * 2 ^ t < 2 ^ w) :
    (2 * k + 1) * 2 ^ t &&& (2 ^ w - (2 * k + 1) * 2 ^ t) = 2 ^ t := by
  have htw : t < w := by
    have hle : 2 ^ t ≤ (2 * k + 1) * 2 ^ t := Nat.le_mul_of_pos_left _ (by omega)
    exact (Nat.pow_lt_pow_iff_right (by omega)).mp (hle.trans_lt h)
  obtain ⟨d, rfl⟩ := Nat.exists_eq_add_of_lt htw
  have hcomp : 2 ^ (t + d + 1) - (2 * k + 1) * 2 ^ t = 2 ^ t * (2 ^ (d + 1) - (2 * k + 1)) := by
    rw [Nat.mul_sub, show t + d + 1 = t + (d + 1) by ring, Nat.pow_add, Nat.mul_comm (2 * k + 1)]
  have hlt : 2 * k + 1 < 2 ^ (d + 1) := by
    have : (2 * k + 1) * 2 ^ t < 2 ^ (d + 1) * 2 ^ t := by
      rw [← Nat.pow_add, show d + 1 + t = t + d + 1 by ring]
      exact h
    exact Nat.lt_of_mul_lt_mul_right this
  apply Nat.eq_of_testBit_eq
  intro i
  rw [Nat.testBit_and, Nat.testBit_two_pow]
  rcases lt_trichotomy i t with hi | rfl | hi
  · rw [Nat.mul_comm, Nat.testBit_two_pow_mul]
    simp [show ¬ t ≤ i by omega, show t ≠ i by omega]
  · rw [hcomp, Nat.mul_comm, Nat.testBit_two_pow_mul, Nat.testBit_two_pow_mul]
    have hodd : (2 ^ (d + 1) - (2 * k + 1)) % 2 = 1 := by
      rw [Nat.pow_succ] at hlt ⊢
      omega
    simp [Nat.testBit_zero, hodd, show (2 * k + 1) % 2 = 1 by omega]
  · by_cases hw : i < t + d + 1
    · rw [testBit_two_pow_sub h.le hi hw]
      simp [show t ≠ i by omega]
    · have hx : ((2 * k + 1) * 2 ^ t).testBit i = false := by
        apply Nat.testBit_lt_two_pow
        exact h.trans_le (Nat.pow_le_pow_right (by omega) (by omega))
      simp [hx, show t ≠ i by omega]

end DyadicCells
