import S2Geography.CellId
import S2Geography.DyadicForms

/-!
# Parents, children and neighbours of cell ids

The rest of the arithmetic of `s2cell_id.h` that cell unions use. Every nonzero id names
a dyadic cell, valid or not: a cell of level `k` has height `2 * (kMaxLevel - k)`, and
ids of odd height or of a height above that of a face cell are not valid.
-/
namespace S2Geography

open DyadicCells DyadicCell

namespace S2CellId

def lsbForLevel (level : ℕ) : BitVec 64 := 1#64 <<< (2 * (kMaxLevel - level))

def isFace (c : S2CellId) : Bool := c.id &&& (lsbForLevel 0 - 1#64) == 0

def parent (c : S2CellId) : S2CellId :=
  let newLsb := c.lsb <<< 2
  ⟨(c.id &&& (~~~newLsb + 1#64)) ||| newLsb⟩

def child (c : S2CellId) (position : ℕ) : S2CellId :=
  let newLsb := c.lsb >>> 2
  ⟨c.id + BitVec.ofInt 64 (2 * position + 1 - 4) * newLsb⟩

def childBegin (c : S2CellId) : S2CellId :=
  let oldLsb := c.lsb
  ⟨c.id - oldLsb + (oldLsb >>> 2)⟩

def next (c : S2CellId) : S2CellId := ⟨c.id + (c.lsb <<< 1)⟩

/-! ### The cell an id names -/

def cell (c : S2CellId) : DyadicCell := ⟨c.toNat / (2 * c.lsb.toNat), c.lsb.toNat.log2⟩

theorem cell_spec {c : S2CellId} (h : c ≠ none) :
    c.toNat = c.cell.center ∧ c.lsb.toNat = c.cell.size ∧
      c.rangeMin.toNat = c.cell.lo ∧ c.rangeMax.toNat = c.cell.hi := by
  obtain ⟨d, hd, hl, hmin, hmax⟩ := exists_cell h
  have hcell : c.cell = d := by
    have hs := d.size_pos
    have hidx : d.center / (2 * d.size) = d.index := by
      have hc : d.center = d.size + d.index * (2 * d.size) := by
        simp only [center]
        ring
      rw [hc, Nat.add_mul_div_right _ _ (by omega), Nat.div_eq_of_lt (by omega)]
      exact Nat.zero_add _
    have hlog : d.size.log2 = d.height := Nat.log2_two_pow
    cases d
    simp only [cell, hd, hl, hidx, hlog]
  rw [hcell]
  exact ⟨hd, hl, hmin, hmax⟩

variable {a b c : S2CellId}

theorem toNat_eq (h : c ≠ none) : c.toNat = c.cell.center := (cell_spec h).1

theorem lsb_toNat (h : c ≠ none) : c.lsb.toNat = c.cell.size := (cell_spec h).2.1

theorem rangeMin_toNat (h : c ≠ none) : c.rangeMin.toNat = c.cell.lo := (cell_spec h).2.2.1

theorem rangeMax_toNat (h : c ≠ none) : c.rangeMax.toNat = c.cell.hi := (cell_spec h).2.2.2

/-- A word whose value is the number of a cell names that cell. -/
theorem cell_eq_of_toNat {d : DyadicCell} (h : c.toNat = d.center) : c ≠ none ∧ c.cell = d := by
  have hne : c ≠ none := by
    rintro rfl
    have hl := d.lo_pos
    have hc := d.lo_le_center
    rw [← h] at hc
    exact absurd (hl.trans_le hc) (by decide)
  exact ⟨hne, center_injective ((toNat_eq hne).symm.trans h)⟩

theorem eq_of_cell_eq (ha : a ≠ none) (hb : b ≠ none) (h : a.cell = b.cell) : a = b := by
  apply toNat_injective
  rw [toNat_eq ha, toNat_eq hb, h]

theorem cell_hi_lt (h : c ≠ none) : c.cell.hi < 2 ^ 64 := by
  rw [← rangeMax_toNat h]
  exact c.rangeMax.toNat_lt

theorem height_lt (h : c ≠ none) : c.cell.height < 64 := by
  have hs : 2 ^ c.cell.height < 2 ^ 64 := by
    have hsize := lsb_toNat h
    rw [size] at hsize
    rw [← hsize]
    exact c.lsb.isLt
  exact (Nat.pow_lt_pow_iff_right (by omega)).mp hs

theorem exists_cell_eq {d : DyadicCell} (h : d.center < 2 ^ 64) :
    ∃ b : S2CellId, b ≠ none ∧ b.cell = d := by
  refine ⟨⟨BitVec.ofNat 64 d.center⟩, cell_eq_of_toNat ?_⟩
  simp only [toNat, BitVec.toNat_ofNat]
  exact Nat.mod_eq_of_lt h

/-- Every cell inside the cell of an id has an id. -/
theorem exists_of_within {d : DyadicCell} (h : c ≠ none) (hd : d.Within c.cell) :
    ∃ b : S2CellId, b ≠ none ∧ b.cell = d :=
  exists_cell_eq (hd.center_mem.2.trans_lt (cell_hi_lt h))

theorem lt_def : a < b ↔ a.toNat < b.toNat := by
  rw [lt_iff_not_ge, le_def]
  exact Nat.not_le

theorem lt_iff_center (ha : a ≠ none) (hb : b ≠ none) :
    a < b ↔ a.cell.center < b.cell.center := by
  rw [lt_def, toNat_eq ha, toNat_eq hb]

theorem le_iff_center (ha : a ≠ none) (hb : b ≠ none) :
    a ≤ b ↔ a.cell.center ≤ b.cell.center := by
  rw [← toNat_eq ha, ← toNat_eq hb, le_def]

theorem contains_iff_within (ha : a ≠ none) (hb : b ≠ none) :
    a.contains b = true ↔ b.cell.Within a.cell := by
  rw [contains_iff ha hb, le_def, le_def, rangeMin_toNat ha, rangeMin_toNat hb,
    rangeMax_toNat ha, rangeMax_toNat hb]
  exact Iff.rfl

theorem intersects_iff_meets (ha : a ≠ none) (hb : b ≠ none) :
    a.intersects b = true ↔ a.cell.Meets b.cell := by
  rw [intersects_eq_true, le_def, le_def, rangeMin_toNat ha, rangeMin_toNat hb,
    rangeMax_toNat ha, rangeMax_toNat hb]
  exact and_comm

theorem rangeMax_lt_rangeMin_iff (ha : a ≠ none) (hb : b ≠ none) :
    a.rangeMax < b.rangeMin ↔ a.cell.Before b.cell := by
  rw [lt_def, rangeMin_toNat hb, rangeMax_toNat ha]
  exact Iff.rfl

theorem rangeMin_lt_iff (ha : a ≠ none) (hb : b ≠ none) :
    a.rangeMin < b.rangeMin ↔ a.cell.lo < b.cell.lo := by
  rw [lt_def, rangeMin_toNat ha, rangeMin_toNat hb]

theorem le_rangeMax_iff (ha : a ≠ none) (hb : b ≠ none) :
    a ≤ b.rangeMax ↔ a.cell.center ≤ b.cell.hi := by
  rw [le_def, toNat_eq ha, rangeMax_toNat hb]

/-- The range of `none` wraps around to all other ids. -/
theorem none_contains (h : c ≠ none) : none.contains c = true := by
  rw [contains_eq_true, le_def, le_def]
  have hpos := toNat_pos h
  have hlt := c.toNat_lt
  have hmin : none.rangeMin.toNat = 1 := by decide
  have hmax : none.rangeMax.toNat = 2 ^ 64 - 1 := by decide
  omega

theorem contains_none (h : c ≠ none) : c.contains none = false := by
  rw [Bool.eq_false_iff, Ne, contains_eq_true, le_def]
  have hmin := rangeMin_toNat h
  have hpos := c.cell.lo_pos
  have hzero : none.toNat = 0 := rfl
  omega

theorem isLeaf_iff_toNat (c : S2CellId) : c.isLeaf = true ↔ c.toNat % 2 = 1 := by
  have hand : (c.id &&& 1).toNat = c.toNat % 2 :=
    (BitVec.toNat_and c.id 1).trans (Nat.and_one_is_mod c.toNat)
  rw [isLeaf, bne_iff_ne, ne_eq, ← BitVec.toNat_inj, hand]
  change ¬c.toNat % 2 = 0 ↔ c.toNat % 2 = 1
  omega

/-- The centre of a cell is odd at height 0 only. -/
theorem isLeaf_iff (h : c ≠ none) : c.isLeaf = true ↔ c.cell.height = 0 := by
  rw [isLeaf_iff_toNat, toNat_eq h, center, size]
  cases c.cell.height with
  | zero => omega
  | succ k =>
    rw [Nat.pow_succ, ← Nat.mul_assoc]
    omega

theorem toNat_and_sub_one (x : BitVec 64) {n : ℕ} (hn : n < 64) :
    (x &&& (1#64 <<< n - 1#64)).toNat = x.toNat % 2 ^ n := by
  have hlt : 2 ^ n < 2 ^ 64 := Nat.pow_lt_pow_right (by omega) hn
  have hpos := Nat.two_pow_pos n
  have hshift : (1#64 <<< n).toNat = 2 ^ n := by
    rw [BitVec.toNat_shiftLeft, Nat.shiftLeft_eq]
    simp only [BitVec.toNat_ofNat]
    omega
  have hmask : (1#64 <<< n - 1#64).toNat = 2 ^ n - 1 := by
    rw [BitVec.toNat_sub, hshift]
    simp only [BitVec.toNat_ofNat]
    omega
  rw [BitVec.toNat_and, hmask, Nat.and_two_pow_sub_one_eq_mod]

theorem isFace_iff (h : c ≠ none) : c.isFace = true ↔ 60 ≤ c.cell.height := by
  have hmod : c.isFace = true ↔ c.toNat % 2 ^ 60 = 0 := by
    rw [isFace, lsbForLevel, beq_iff_eq, BitVec.toNat_eq,
      toNat_and_sub_one c.id (show 2 * (kMaxLevel - 0) < 64 by decide)]
    exact Iff.rfl
  rw [hmod, ← Nat.dvd_iff_mod_eq_zero, toNat_eq h, center, size]
  constructor
  · intro hdvd
    have hcop : Nat.Coprime (2 ^ 60) (2 * c.cell.index + 1) := by
      apply Nat.Coprime.pow_left
      rw [Nat.coprime_two_left]
      exact ⟨c.cell.index, rfl⟩
    exact (Nat.pow_dvd_pow_iff_le_right (by omega)).mp (hcop.dvd_of_dvd_mul_left hdvd)
  · intro hle
    exact (Nat.pow_dvd_pow 2 hle).mul_left _

theorem isValid_iff : c.isValid = true ↔
    c ≠ none ∧ c.cell.height % 2 = 0 ∧ c.cell.height ≤ 60 ∧ c.toNat < 6 * 2 ^ 61 := by
  by_cases h : c = none
  · subst h
    simp [show none.isValid = false by decide]
  have hface : c.face < kNumFaces ↔ c.toNat < 6 * 2 ^ 61 := by
    rw [face, BitVec.toNat_ushiftRight, Nat.shiftRight_eq_div_pow]
    exact Nat.div_lt_iff_lt_mul (by decide)
  have hlevel : c.lsb &&& 0x1555555555555555#64 ≠ 0 ↔
      c.cell.height % 2 = 0 ∧ c.cell.height ≤ 60 := by
    have hcheck : ∀ k : Fin 64, BitVec.ofNat 64 (2 ^ k.val) &&& 0x1555555555555555#64 ≠ 0 ↔
        k.val % 2 = 0 ∧ k.val ≤ 60 := by decide
    have hlsb : c.lsb = BitVec.ofNat 64 (2 ^ c.cell.height) := by
      apply BitVec.eq_of_toNat_eq
      rw [BitVec.toNat_ofNat, lsb_toNat h, size, Nat.mod_eq_of_lt]
      exact Nat.pow_lt_pow_right (by omega) (height_lt h)
    rw [hlsb]
    exact hcheck ⟨c.cell.height, height_lt h⟩
  rw [isValid, Bool.and_eq_true, decide_eq_true_eq, hface, bne_iff_ne, hlevel]
  constructor
  · rintro ⟨hf, hpar, hle⟩
    exact ⟨h, hpar, hle, hf⟩
  · rintro ⟨-, hpar, hle, hf⟩
    exact ⟨hf, hpar, hle⟩

/-- The cells of the valid ids: on one of the six faces, of a level from 0 to 30. -/
def ValidCell (d : DyadicCell) : Prop := d.height % 2 = 0 ∧ d.height ≤ 60 ∧ d.hi < 6 * 2 ^ 61

theorem ValidCell.of_within {d e : DyadicCell} (he : ValidCell e) (h : d.Within e)
    (heven : d.height % 2 = 0) : ValidCell d :=
  ⟨heven, h.height_le.trans he.2.1, h.2.trans_lt he.2.2⟩

/-- The faces end at a multiple of the width of a cell no larger than a face. -/
theorem hi_lt_of_lo_lt {d : DyadicCell} (hh : d.height ≤ 60) (h : d.lo < 6 * 2 ^ 61) :
    d.hi < 6 * 2 ^ 61 := by
  have hwidth : 6 * 2 ^ 61 = 2 * (3 * 2 ^ (61 - d.height)) * d.size := by
    have hsplit : 2 ^ (61 - d.height) * 2 ^ d.height = 2 ^ 61 := by
      rw [← Nat.pow_add]
      congr 1
      omega
    rw [size, Nat.mul_assoc, Nat.mul_assoc, hsplit]
    omega
  rw [hwidth] at h ⊢
  have hidx : 2 * d.index < 2 * (3 * 2 ^ (61 - d.height)) := by
    refine Nat.lt_of_mul_lt_mul_right (a := d.size) ?_
    simp only [lo] at h
    omega
  have hm := Nat.mul_le_mul_right d.size
    (show 2 * d.index + 2 ≤ 2 * (3 * 2 ^ (61 - d.height)) by omega)
  have hpos := d.lo_pos.trans_le d.lo_le_hi
  simp only [hi] at hpos ⊢
  omega

theorem isValid_iff_validCell : c.isValid = true ↔ c ≠ none ∧ ValidCell c.cell := by
  rw [isValid_iff]
  refine and_congr_right fun h => and_congr_right fun _ => and_congr_right fun hle => ?_
  rw [toNat_eq h]
  constructor
  · intro hlt
    exact hi_lt_of_lo_lt hle (c.cell.lo_le_center.trans_lt hlt)
  · intro hlt
    exact c.cell.center_le_hi.trans_lt hlt

theorem toNat_lsb_ushiftRight (h : c ≠ none) (hh : 2 ≤ c.cell.height) (k : ℕ) :
    (c.lsb >>> 2).toNat = (c.cell.child k).size := by
  rw [BitVec.toNat_ushiftRight, Nat.shiftRight_eq_div_pow, lsb_toNat h, size_eq_four_mul hh k]
  omega

theorem childBegin_cell (h : c ≠ none) (hh : 2 ≤ c.cell.height) :
    c.childBegin ≠ none ∧ c.childBegin.cell = c.cell.child 0 := by
  have hlo := c.cell.lo_eq
  have hlt := c.cell.center_le_hi.trans_lt (cell_hi_lt h)
  have hclo := (c.cell.child 0).lo_eq
  have hll := (c.cell.child 0).lo_pos
  have hl := c.cell.lo_pos
  have hsize := size_eq_four_mul hh 0
  rw [child_lo hh 0] at hclo hll
  apply cell_eq_of_toNat
  simp only [childBegin, toNat]
  rw [BitVec.toNat_add, BitVec.toNat_sub, toNat_lsb_ushiftRight h hh 0, lsb_toNat h]
  rw [show c.id.toNat = c.cell.center from toNat_eq h]
  omega

/-- The next cell of the same size, unless the numbers end there. -/
theorem next_cell (h : c ≠ none) {d : DyadicCell} (hd : d.height = c.cell.height)
    (hi : d.index = c.cell.index + 1) (hlt : d.center < 2 ^ 64) :
    c.next ≠ none ∧ c.next.cell = d := by
  have hcenter : d.center = c.cell.center + 2 * c.cell.size := by
    simp only [center, size, hd, hi]
    ring
  have hshift : (c.lsb <<< 1).toNat = 2 * c.cell.size := by
    rw [BitVec.toNat_shiftLeft, Nat.shiftLeft_eq, lsb_toNat h]
    omega
  apply cell_eq_of_toNat
  rw [hcenter] at hlt ⊢
  simp only [next, toNat]
  rw [BitVec.toNat_add, hshift, show c.id.toNat = c.cell.center from toNat_eq h,
    Nat.mod_eq_of_lt hlt]

theorem child_cell (h : c ≠ none) (hh : 2 ≤ c.cell.height) {k : ℕ} (hk : k < 4) :
    c.child k ≠ none ∧ (c.child k).cell = c.cell.child k := by
  have hlt := c.cell.center_le_hi.trans_lt (cell_hi_lt h)
  have hsize := size_eq_four_mul hh k
  have hlo := c.cell.lo_eq
  have hl := c.cell.lo_pos
  have hcl := (c.cell.child k).lo_eq
  have hcp := (c.cell.child k).lo_pos
  have hhi := (child_within hh hk).2
  have hch := (c.cell.child k).center_le_hi
  have hbound := cell_hi_lt h
  rw [child_lo hh k] at hcl hcp
  have hfactor : (BitVec.ofInt 64 (2 * (k : ℤ) + 1 - 4)).toNat =
      if k < 2 then 2 ^ 64 + 2 * k - 3 else 2 * k - 3 := by
    have hcases : k = 0 ∨ k = 1 ∨ k = 2 ∨ k = 3 := by omega
    rcases hcases with rfl | rfl | rfl | rfl <;> decide
  apply cell_eq_of_toNat
  simp only [child, toNat]
  rw [BitVec.toNat_add, BitVec.toNat_mul, hfactor, toNat_lsb_ushiftRight h hh k,
    show c.id.toNat = c.cell.center from toNat_eq h]
  have hcases : k = 0 ∨ k = 1 ∨ k = 2 ∨ k = 3 := by omega
  rcases hcases with rfl | rfl | rfl | rfl
  · rw [if_pos (by omega)]
    omega
  · rw [if_pos (by omega)]
    omega
  · rw [if_neg (by omega)]
    omega
  · rw [if_neg (by omega)]
    omega

/-- Clearing the bits below a given one and setting that one. -/
theorem toNat_withLsb (x : BitVec 64) {n : ℕ} (hn : n < 64) :
    ((x &&& (~~~(1#64 <<< n) + 1#64)) ||| 1#64 <<< n).toNat =
      (2 * (x.toNat / 2 ^ (n + 1)) + 1) * 2 ^ n := by
  have hpos := Nat.two_pow_pos n
  have hlt : 2 ^ n < 2 ^ 64 := Nat.pow_lt_pow_right (by omega) hn
  have hnew : (1#64 <<< n).toNat = 2 ^ n := by
    rw [BitVec.toNat_shiftLeft, Nat.shiftLeft_eq]
    simp only [BitVec.toNat_ofNat]
    omega
  have hneg : (~~~(1#64 <<< n) + 1#64).toNat = 2 ^ 64 - (2 ^ n - 1 + 1) := by
    rw [← BitVec.neg_eq_not_add, BitVec.toNat_neg, hnew, Nat.mod_eq_of_lt (by omega)]
    omega
  rw [BitVec.toNat_or, BitVec.toNat_and, hneg, hnew]
  apply Nat.eq_of_testBit_eq
  intro i
  rw [Nat.testBit_or, Nat.testBit_and, Nat.testBit_two_pow_sub_succ (by omega),
    Nat.testBit_two_pow_sub_one, Nat.testBit_two_pow, Nat.testBit_mul_two_pow]
  rcases lt_trichotomy i n with hi | rfl | hi
  · simp [hi, Nat.not_le.mpr hi, Nat.ne_of_gt hi]
  · simp
  · -- above the bit that is set, the bits are those of the word
    obtain ⟨j, rfl⟩ := Nat.exists_eq_add_of_lt hi
    have habove : (2 * (x.toNat / 2 ^ (n + 1)) + 1).testBit (n + j + 1 - n) =
        x.toNat.testBit (n + j + 1) := by
      rw [show n + j + 1 - n = j + 1 by omega, Nat.testBit_succ,
        show (2 * (x.toNat / 2 ^ (n + 1)) + 1) / 2 = x.toNat / 2 ^ (n + 1) by omega,
        Nat.testBit_div_two_pow, show j + (n + 1) = n + j + 1 by omega]
    have hword : 64 ≤ n + j + 1 → x.toNat.testBit (n + j + 1) = false := fun hge =>
      Nat.testBit_lt_two_pow (x.isLt.trans_le (Nat.pow_le_pow_right (by omega) hge))
    rw [habove]
    by_cases hw : n + j + 1 < 64
    · simp [hw, show ¬ n + j + 1 < n by omega, show n ≤ n + j + 1 by omega,
        show n ≠ n + j + 1 by omega]
    · simp [hword (Nat.le_of_not_lt hw), show n ≠ n + j + 1 by omega]

theorem parent_cell (h : c ≠ none) (hh : c.cell.height ≤ 61) :
    c.parent ≠ none ∧ c.parent.cell = c.cell.parent := by
  have hlsb : c.lsb <<< 2 = 1#64 <<< (c.cell.height + 2) := by
    apply BitVec.eq_of_toNat_eq
    rw [BitVec.toNat_shiftLeft, BitVec.toNat_shiftLeft, lsb_toNat h, size, Nat.shiftLeft_eq,
      Nat.shiftLeft_eq, Nat.pow_add]
    simp
  have hquarter : c.cell.center / 2 ^ (c.cell.height + 2 + 1) = c.cell.index / 4 := by
    rw [center, size, Nat.pow_add, Nat.pow_add, Nat.mul_assoc, Nat.mul_comm,
      Nat.mul_div_mul_left _ _ (Nat.two_pow_pos _)]
    omega
  apply cell_eq_of_toNat
  simp only [parent, toNat]
  rw [hlsb, toNat_withLsb c.id (show c.cell.height + 2 < 64 by omega),
    show c.id.toNat = c.cell.center from toNat_eq h, hquarter]
  rfl

end S2CellId

end S2Geography
