import S2Geography.DyadicForms
import Mathlib.Algebra.Order.Ring.Nat

/-!
# Ancestors of dyadic cells

Above every cell there is one cell of each greater height that contains it. The numbers of
two cells agree above a bit exactly when their ancestors of that height are the same.
-/
namespace DyadicCells.DyadicCell

/-- The cell of a height whose interval holds the number of a cell. -/
def ancestor (c : DyadicCell) (h : ℕ) : DyadicCell := ⟨c.center / 2 ^ (h + 1), h⟩

@[simp] theorem ancestor_height (c : DyadicCell) (h : ℕ) : (c.ancestor h).height = h := rfl

variable {a b c d : DyadicCell} {h : ℕ}

theorem height_le_iff : c.height ≤ h ↔ c.size < 2 ^ (h + 1) := by
  rw [size, Nat.pow_lt_pow_iff_right (by omega), Nat.lt_succ_iff]

theorem within_ancestor (hh : c.height ≤ h) : c.Within (c.ancestor h) := by
  -- the number of the cell is no multiple of the width of a higher one
  have hrem : c.center % 2 ^ (h + 1) ≠ 0 := by
    obtain ⟨e, rfl⟩ := Nat.exists_eq_add_of_le hh
    have hwidth : 2 ^ (c.height + e + 1) = 2 ^ c.height * (2 * 2 ^ e) := by
      rw [Nat.pow_succ, Nat.pow_add]
      ring
    rw [center, size, hwidth, Nat.mul_comm, Nat.mul_mod_mul_left]
    have hpos := Nat.two_pow_pos c.height
    have hodd : (2 * c.index + 1) % (2 * 2 ^ e) % 2 = 1 := by
      rw [Nat.mod_mul_right_mod]
      omega
    refine Nat.mul_ne_zero (by omega) fun hzero => ?_
    rw [hzero] at hodd
    exact absurd hodd (by decide)
  have hdiv := Nat.div_add_mod c.center (2 ^ (h + 1))
  have hlt := Nat.mod_lt c.center (Nat.two_pow_pos (h + 1))
  have hpow : 2 ^ (h + 1) = 2 * 2 ^ h := by
    rw [Nat.pow_succ]
    ring
  refine (center_mem_iff c (c.ancestor h)).mp ⟨?_, ?_⟩
  · have hlo : (c.ancestor h).lo = 2 ^ (h + 1) * (c.center / 2 ^ (h + 1)) + 1 := by
      simp only [lo, size, ancestor, hpow]
      ring
    omega
  · have hhi : (c.ancestor h).hi =
        2 ^ (h + 1) * (c.center / 2 ^ (h + 1)) + 2 ^ (h + 1) - 1 := by
      simp only [hi, size, ancestor, hpow]
      congr 1
      ring
    omega

/-- The cell of a height that contains a cell is its ancestor. -/
theorem Within.ancestor_eq (hcd : c.Within d) : c.ancestor d.height = d := by
  have hup := within_ancestor hcd.height_le
  have hmeets : (c.ancestor d.height).Meets d := hup.meets.symm.mono (Within.refl _) hcd
  exact (hmeets.within le_rfl).eq_of_height_le le_rfl

theorem ancestor_eq_iff : a.ancestor h = b.ancestor h ↔ a.center ^^^ b.center < 2 ^ (h + 1) := by
  have hdiv : a.ancestor h = b.ancestor h ↔
      a.center / 2 ^ (h + 1) = b.center / 2 ^ (h + 1) := by
    simp only [ancestor, mk.injEq, and_true]
  rw [hdiv, ← Nat.shiftRight_eq_div_pow, ← Nat.shiftRight_eq_div_pow, ← Nat.xor_eq_zero_iff,
    ← Nat.shiftRight_xor_distrib, Nat.shiftRight_eq_div_pow,
    Nat.div_eq_zero_iff_lt (Nat.two_pow_pos _)]

end DyadicCells.DyadicCell
