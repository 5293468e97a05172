import S2Geography.CellHierarchy
import S2Geography.DyadicAncestors

/-!
# Levels and ancestors of cell ids

`level`, `parent(level)` and `GetCommonAncestorLevel` of `S2CellId`: the level is read off
the lowest set bit, and the level of the deepest common ancestor off the highest bit in
which two ids differ, unless the lowest set bit of one of them is higher.
-/
namespace S2Geography

open DyadicCells DyadicCell

namespace Bits

/-- `FindLSBSetNonZero64`: the number of trailing zeros. -/
def findLSBSetNonZero64 (n : BitVec 64) : ℕ := n.ctz.toNat

/-- `FindMSBSetNonZero64`. -/
def findMSBSetNonZero64 (n : BitVec 64) : ℕ := n.toNat.log2

theorem findMSBSetNonZero64_lt_iff {n : BitVec 64} (hn : n ≠ 0) (k : ℕ) :
    findMSBSetNonZero64 n < k ↔ n.toNat < 2 ^ k := by
  refine Nat.log2_lt fun hzero => hn ?_
  exact BitVec.eq_of_toNat_eq hzero

end Bits

namespace S2CellId

def level (c : S2CellId) : ℤ := (kMaxLevel : ℤ) - (Bits.findLSBSetNonZero64 c.id >>> 1 : ℕ)

/-- `parent(level)`. -/
def parentAt (c : S2CellId) (level : ℤ) : S2CellId :=
  let newLsb := lsbForLevel level.toNat
  ⟨(c.id &&& (~~~newLsb + 1#64)) ||| newLsb⟩

/-- `std::max` of unsigned words. -/
def umax (a b : BitVec 64) : BitVec 64 := if a < b then b else a

theorem umax_toNat (a b : BitVec 64) : (umax a b).toNat = max a.toNat b.toNat := by
  rw [umax]
  split
  · rename_i h
    exact (max_eq_right (BitVec.lt_def.mp h).le).symm
  · rename_i h
    exact (max_eq_left (Nat.le_of_not_lt fun hlt => h (BitVec.lt_def.mpr hlt))).symm

def getCommonAncestorLevel (c other : S2CellId) : ℤ :=
  let bits := umax (c.id ^^^ other.id) (umax c.lsb other.lsb)
  max (60 - (Bits.findMSBSetNonZero64 bits : ℤ)) (-1) >>> (1 : ℕ)

variable {a b c : S2CellId}

/-! ### Levels -/

theorem findLSBSetNonZero64_eq (h : c ≠ none) :
    Bits.findLSBSetNonZero64 c.id = c.cell.height := by
  have hid : c.id ≠ 0 := fun hzero => h (congrArg S2CellId.mk hzero)
  have hbits : ∀ i, c.id.getLsbD i = c.cell.center.testBit i := by
    intro i
    rw [← BitVec.testBit_toNat]
    exact congrArg (Nat.testBit · i) (toNat_eq h)
  have hset : c.id.getLsbD c.cell.height = true := by
    rw [hbits, center, size, Nat.testBit_mul_two_pow]
    simp
  have hclear : ∀ i < c.cell.height, c.id.getLsbD i = false := by
    intro i hi
    rw [hbits, center, size, Nat.testBit_mul_two_pow]
    simp [Nat.not_le.mpr hi]
  rw [Bits.findLSBSetNonZero64]
  rcases lt_trichotomy c.id.ctz.toNat c.cell.height with hlt | heq | hgt
  · have htrue := BitVec.getLsbD_true_ctz_of_ne_zero hid
    rw [hclear _ hlt] at htrue
    exact absurd htrue (by decide)
  · exact heq
  · rw [BitVec.getLsbD_false_of_lt_ctz hgt] at hset
    exact absurd hset (by decide)

theorem level_eq (h : c ≠ none) : c.level = 30 - (c.cell.height / 2 : ℕ) := by
  rw [level, findLSBSetNonZero64_eq h, Nat.shiftRight_eq_div_pow, Nat.pow_one]
  rfl

/-- The height of the cell of a valid id, from the level. -/
theorem level_spec (h : c.isValid = true) :
    0 ≤ c.level ∧ c.level ≤ 30 ∧ (c.cell.height : ℤ) = 60 - 2 * c.level := by
  obtain ⟨hc, heven, hle, -⟩ := isValid_iff_validCell.mp h
  rw [level_eq hc]
  omega

/-! ### Ancestors -/

theorem parentAt_cell (h : c ≠ none) (l : ℤ) :
    c.parentAt l ≠ none ∧ (c.parentAt l).cell = c.cell.ancestor (2 * (kMaxLevel - l.toNat)) := by
  have hn : 2 * (kMaxLevel - l.toNat) < 64 := by
    rw [kMaxLevel]
    omega
  apply cell_eq_of_toNat
  simp only [parentAt, lsbForLevel, toNat]
  rw [toNat_withLsb c.id hn, show c.id.toNat = c.cell.center from toNat_eq h]
  rfl

theorem height_le_of_le_level (h : c.isValid = true) {l : ℤ} (hl : l ≤ c.level) :
    c.cell.height ≤ 2 * (kMaxLevel - l.toNat) := by
  have hspec := level_spec h
  rw [kMaxLevel]
  omega

/-- `parent(level)` is the valid cell of that level that contains the cell. -/
theorem parentAt_spec (h : c.isValid = true) {l : ℤ} (h0 : 0 ≤ l) (hl : l ≤ c.level) :
    (c.parentAt l).isValid = true ∧ (c.parentAt l).level = l ∧
      (c.parentAt l).contains c = true := by
  obtain ⟨hc, -, -, hface⟩ := isValid_iff_validCell.mp h
  obtain ⟨hp, hcell⟩ := parentAt_cell hc l
  have hwithin := within_ancestor (height_le_of_le_level h hl)
  have hlevel := (level_spec h).2.1
  have hheight : (c.parentAt l).cell.height = 2 * (kMaxLevel - l.toNat) := by
    rw [hcell, ancestor_height]
  have hvalid : (c.parentAt l).isValid = true := by
    rw [isValid_iff_validCell]
    refine ⟨hp, by omega, by rw [hheight, kMaxLevel]; omega, ?_⟩
    apply hi_lt_of_lo_lt
    · rw [hheight, kMaxLevel]
      omega
    · rw [hcell]
      exact hwithin.1.trans_lt (c.cell.lo_le_hi.trans_lt hface)
  refine ⟨hvalid, ?_, ?_⟩
  · have hspec := (level_spec hvalid).2.2
    rw [hheight, kMaxLevel] at hspec
    omega
  · rw [contains_iff_within hp hc, hcell]
    exact hwithin

/-- A cell contains another exactly when it is the other's ancestor of its own level. -/
theorem contains_iff_parentAt (ha : a.isValid = true) (hb : b.isValid = true) :
    a.contains b = true ↔ a.level ≤ b.level ∧ b.parentAt a.level = a := by
  have hal := level_spec ha
  have hbl := level_spec hb
  constructor
  · intro hab
    rw [contains_iff_within (ne_none_of_isValid ha) (ne_none_of_isValid hb)] at hab
    have hle : a.level ≤ b.level := by
      have hheight := hab.height_le
      omega
    obtain ⟨hp, hcell⟩ := parentAt_cell (ne_none_of_isValid hb) a.level
    refine ⟨hle, eq_of_cell_eq hp (ne_none_of_isValid ha) ?_⟩
    have hheight : 2 * (kMaxLevel - a.level.toNat) = a.cell.height := by
      rw [kMaxLevel]
      omega
    rw [hcell, hheight]
    exact hab.ancestor_eq
  · rintro ⟨hle, heq⟩
    rw [← heq]
    exact (parentAt_spec hb hal.1 hle).2.2

/-! ### Common ancestors -/

theorem neg_one_le_getCommonAncestorLevel (a b : S2CellId) : -1 ≤ a.getCommonAncestorLevel b := by
  rw [getCommonAncestorLevel, Int.shiftRight_eq_div_pow]
  omega

/-- The bits that `GetCommonAncestorLevel` looks at, as a number. -/
theorem toNat_commonBits (ha : a ≠ none) (hb : b ≠ none) :
    (umax (a.id ^^^ b.id) (umax a.lsb b.lsb)).toNat =
      max (a.cell.center ^^^ b.cell.center) (max a.cell.size b.cell.size) := by
  rw [umax_toNat, umax_toNat, BitVec.toNat_xor, lsb_toNat ha, lsb_toNat hb]
  exact congrArg₂ (fun x y => max (x ^^^ y) (max a.cell.size b.cell.size)) (toNat_eq ha)
    (toNat_eq hb)

/-- A level is common if the highest of these bits lies below the bit of a cell of that level. -/
theorem le_getCommonAncestorLevel_iff_toNat (ha : a ≠ none) (hb : b ≠ none) {l : ℤ} (h0 : 0 ≤ l)
    (hdeep : l ≤ 30) : l ≤ a.getCommonAncestorLevel b ↔
      max (a.cell.center ^^^ b.cell.center) (max a.cell.size b.cell.size) <
        2 ^ (2 * (kMaxLevel - l.toNat) + 1) := by
  have hbits := toNat_commonBits ha hb
  have hne : umax (a.id ^^^ b.id) (umax a.lsb b.lsb) ≠ 0 := by
    intro hzero
    have hsize := a.cell.size_pos
    rw [hzero] at hbits
    simp only [BitVec.ofNat_eq_ofNat, BitVec.toNat_ofNat, Nat.zero_mod] at hbits
    omega
  rw [← hbits, ← Bits.findMSBSetNonZero64_lt_iff hne, kMaxLevel, getCommonAncestorLevel,
    Int.shiftRight_eq_div_pow]
  omega

/-- A level up to a common one is a level of both cells at which they have the same ancestor. -/
theorem le_getCommonAncestorLevel_iff (ha : a.isValid = true) (hb : b.isValid = true) {l : ℤ}
    (h0 : 0 ≤ l) : l ≤ a.getCommonAncestorLevel b ↔
      l ≤ a.level ∧ l ≤ b.level ∧ a.parentAt l = b.parentAt l := by
  have ha0 := ne_none_of_isValid ha
  have hb0 := ne_none_of_isValid hb
  have hal := level_spec ha
  have hbl := level_spec hb
  have hmax : a.getCommonAncestorLevel b ≤ 30 := by
    rw [getCommonAncestorLevel, Int.shiftRight_eq_div_pow]
    omega
  by_cases hdeep : l ≤ 30
  · have hlevel : ∀ c : S2CellId, c.isValid = true →
        (c.cell.height ≤ 2 * (kMaxLevel - l.toNat) ↔ l ≤ c.level) := by
      intro c hc
      have hcl := level_spec hc
      rw [kMaxLevel]
      omega
    rw [le_getCommonAncestorLevel_iff_toNat ha0 hb0 h0 hdeep, max_lt_iff, max_lt_iff,
      ← ancestor_eq_iff, ← height_le_iff, ← height_le_iff, hlevel a ha, hlevel b hb]
    constructor
    · rintro ⟨heq, hla, hlb⟩
      obtain ⟨hpa, hca⟩ := parentAt_cell ha0 l
      obtain ⟨hpb, hcb⟩ := parentAt_cell hb0 l
      exact ⟨hla, hlb, eq_of_cell_eq hpa hpb (by rw [hca, hcb, heq])⟩
    · rintro ⟨hla, hlb, heq⟩
      rw [← (parentAt_cell ha0 l).2, ← (parentAt_cell hb0 l).2, heq]
      exact ⟨rfl, hla, hlb⟩
  · constructor
    · omega
    · rintro ⟨hla, -, -⟩
      omega

theorem parentAt_zero_eq_iff (ha : a ≠ none) (hb : b ≠ none) :
    a.parentAt 0 = b.parentAt 0 ↔ a.face = b.face := by
  have hface : ∀ c : S2CellId, c ≠ none → (c.parentAt 0).cell = ⟨c.face, 60⟩ := by
    intro c hc
    rw [(parentAt_cell hc 0).2, face, BitVec.toNat_ushiftRight, Nat.shiftRight_eq_div_pow,
      show c.id.toNat = c.cell.center from toNat_eq hc]
    rfl
  constructor
  · intro heq
    have hcell := hface a ha
    rw [heq, hface b hb] at hcell
    exact (congrArg index hcell).symm
  · intro heq
    refine eq_of_cell_eq (parentAt_cell ha 0).1 (parentAt_cell hb 0).1 ?_
    rw [hface a ha, hface b hb, heq]

/-- The ancestor at the common level is in every cell that contains both. -/
theorem getCommonAncestorLevel_spec (ha : a.isValid = true) (hb : b.isValid = true) {d : S2CellId}
    (hd : d.isValid = true) : (d.contains a = true ∧ d.contains b = true) ↔
      0 ≤ a.getCommonAncestorLevel b ∧
        d.contains (a.parentAt (a.getCommonAncestorLevel b)) = true := by
  have hdl := level_spec hd
  constructor
  · rintro ⟨hda, hdb⟩
    obtain ⟨hla, hea⟩ := (contains_iff_parentAt hd ha).mp hda
    obtain ⟨hlb, heb⟩ := (contains_iff_parentAt hd hb).mp hdb
    have hle := (le_getCommonAncestorLevel_iff ha hb hdl.1).mpr
      ⟨hla, hlb, hea.trans heb.symm⟩
    have h0 := hdl.1.trans hle
    obtain ⟨hca, -, -⟩ := (le_getCommonAncestorLevel_iff ha hb h0).mp le_rfl
    obtain ⟨hp, hpl, hpa⟩ := parentAt_spec ha h0 hca
    -- both cells contain `a`, and the one of lower level contains the other
    have hd0 := ne_none_of_isValid hd
    have hp0 := ne_none_of_isValid hp
    have ha0 := ne_none_of_isValid ha
    rw [contains_iff_within hd0 ha0] at hda
    rw [contains_iff_within hp0 ha0] at hpa
    rw [contains_iff_within hd0 hp0]
    have hheight := (level_spec hp).2.2
    exact ⟨h0, (hpa.meets.symm.mono (Within.refl _) hda).within (by omega)⟩
  · rintro ⟨h0, hdp⟩
    obtain ⟨hca, hcb, heq⟩ := (le_getCommonAncestorLevel_iff ha hb h0).mp le_rfl
    obtain ⟨hp, -, hpa⟩ := parentAt_spec ha h0 hca
    have hpb := (parentAt_spec hb h0 hcb).2.2
    rw [← heq] at hpb
    exact ⟨contains_trans (ne_none_of_isValid hd) (ne_none_of_isValid hp)
      (ne_none_of_isValid ha) hdp hpa, contains_trans (ne_none_of_isValid hd)
      (ne_none_of_isValid hp) (ne_none_of_isValid hb) hdp hpb⟩

end S2CellId

end S2Geography
