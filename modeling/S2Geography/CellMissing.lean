import S2Geography.CellChildren
import S2Geography.Geography

/-!
# Missing cells

A vector of cells is a vector of doubles of the same bits, and a cell is missing when its
double is the missing value of R: a NaN with the low word 1954. A 64-bit integer of the
bit64 package is missing when it is the smallest one.
-/
namespace S2Geography

open S2CellId hiding none

/-- `reinterpret_double`. -/
def reinterpretDouble (id : BitVec 64) : Double := ⟨id⟩

def cppS2CellIsNa (cellIdVector : List S2CellId) : List Bool := cellIdVector.map rIsNA

/-- What the conversions use of the bit64 package. -/
structure Bit64 where
  naInteger64 : BitVec 64
  /-- `is.na` of an `integer64`. -/
  isNa : BitVec 64 → Bool

/-- `NA_integer64_` is the smallest integer, and the only missing one. -/
structure Bit64.Documented (bit64 : Bit64) : Prop where
  naInteger64 : bit64.naInteger64 = BitVec.intMin 64
  isNa : ∀ x, bit64.isNa x = true ↔ x = bit64.naInteger64

variable (bit64 : Bit64)

/-- `as_s2_cell.integer64`. -/
def asS2CellInteger64 (x : List (BitVec 64)) : List S2CellId :=
  x.map fun value => if bit64.isNa value then naReal else ⟨value⟩

/-- `as.integer64.s2_cell`. -/
def asInteger64S2Cell (x : List S2CellId) : List (BitVec 64) :=
  x.map fun c => if rIsNA c then bit64.naInteger64 else c.id

/-- The ids that cell vectors are meant to hold besides missing ones. -/
def IsCell (c : S2CellId) : Prop := c.isValid = true ∨ c = S2CellId.none ∨ c = sentinel

variable {bit64 : Bit64} {c : S2CellId}

theorem rIsNA_iff (c : S2CellId) : rIsNA c = true ↔
    (reinterpretDouble c.id).isNaN = true ∧ c.id &&& 0xFFFFFFFF#64 = 1954 := by
  have hnan : (reinterpretDouble c.id).isNaN = true ↔
      c.id >>> 52 &&& 0x7FF#64 = 0x7FF#64 ∧ c.id &&& 0xFFFFFFFFFFFFF#64 ≠ 0 := by
    have hmag : (c.id &&& 0x7FFFFFFFFFFFFFFF#64).toNat = c.id.toNat % 2 ^ 63 :=
      (BitVec.toNat_and _ _).trans (Nat.and_two_pow_sub_one_eq_mod c.id.toNat 63)
    have hexp : (c.id >>> 52 &&& 0x7FF#64).toNat = c.id.toNat / 2 ^ 52 % 2 ^ 11 := by
      rw [BitVec.toNat_and, BitVec.toNat_ushiftRight, Nat.shiftRight_eq_div_pow]
      exact Nat.and_two_pow_sub_one_eq_mod _ 11
    have hfrac : (c.id &&& 0xFFFFFFFFFFFFF#64).toNat = c.id.toNat % 2 ^ 52 :=
      (BitVec.toNat_and _ _).trans (Nat.and_two_pow_sub_one_eq_mod c.id.toNat 52)
    have hlt : (reinterpretDouble c.id).isNaN = true ↔
        2047 * 2 ^ 52 < (c.id &&& 0x7FFFFFFFFFFFFFFF#64).toNat := by
      rw [Double.isNaN, BitVec.ult, decide_eq_true_eq]
      rfl
    rw [hlt, ← BitVec.toNat_inj, ne_eq, ← BitVec.toNat_inj, hmag, hexp, hfrac]
    simp only [BitVec.ofNat_eq_ofNat, BitVec.toNat_ofNat]
    omega
  rw [hnan, rIsNA]
  simp only [Bool.and_eq_true, beq_iff_eq, bne_iff_ne]

theorem rIsNA_of_isCell (h : IsCell c) : rIsNA c = false := by
  rcases h with hvalid | rfl | rfl
  · exact rIsNA_of_isValid hvalid
  · rfl
  · rfl

/-- No cell has the bits of `NA_integer64_`: its lowest set bit would be the highest of all. -/
theorem not_isNa_of_isCell (hb : bit64.Documented) (h : IsCell c) : bit64.isNa c.id = false := by
  rw [Bool.eq_false_iff, Ne, hb.isNa, hb.naInteger64]
  intro hid
  obtain rfl : c = ⟨BitVec.intMin 64⟩ := congrArg S2CellId.mk hid
  rcases h with hvalid | hnone | hsentinel
  · exact absurd hvalid (by decide)
  · exact absurd hnone (by decide)
  · exact absurd hsentinel (by decide)

theorem isNa_naInteger64 (hb : bit64.Documented) : bit64.isNa bit64.naInteger64 = true :=
  (hb.isNa _).mpr rfl

/-! ### Round trips -/

theorem isNa_integerOfCell (hb : bit64.Documented) (h : IsCell c ∨ rIsNA c = true) :
    bit64.isNa (if rIsNA c then bit64.naInteger64 else c.id) = rIsNA c := by
  rcases h with h | h
  · rw [rIsNA_of_isCell h]
    exact not_isNa_of_isCell hb h
  · rw [h]
    exact isNa_naInteger64 hb

theorem cellOfInteger_integerOfCell (hb : bit64.Documented) (h : IsCell c ∨ rIsNA c = true) :
    (if bit64.isNa (if rIsNA c then bit64.naInteger64 else c.id) then naReal
      else ⟨if rIsNA c then bit64.naInteger64 else c.id⟩) = if rIsNA c then naReal else c := by
  rw [isNa_integerOfCell hb h]
  split
  · rfl
  · rfl

/-- Cells are never missing, and come back from integers with the same bits; what is missing
on one side is missing on the other. -/
theorem integer64_roundTrip (hb : bit64.Documented) {cells : List S2CellId}
    (h : ∀ c ∈ cells, IsCell c ∨ rIsNA c = true) :
    (∀ c, IsCell c →
      ¬((reinterpretDouble c.id).isNaN = true ∧ c.id &&& 0xFFFFFFFF#64 = 1954)) ∧
    (asInteger64S2Cell bit64 cells).map bit64.isNa = cppS2CellIsNa cells ∧
    asS2CellInteger64 bit64 (asInteger64S2Cell bit64 cells) =
      cells.map (fun c => if rIsNA c then naReal else c) ∧
    cppS2CellIsNa (asS2CellInteger64 bit64 (asInteger64S2Cell bit64 cells)) =
      cppS2CellIsNa cells ∧
    asInteger64S2Cell bit64 (asS2CellInteger64 bit64 (asInteger64S2Cell bit64 cells)) =
      asInteger64S2Cell bit64 cells := by
  have hback : asS2CellInteger64 bit64 (asInteger64S2Cell bit64 cells) =
      cells.map fun c => if rIsNA c then naReal else c := by
    rw [asS2CellInteger64, asInteger64S2Cell, List.map_map]
    exact List.map_congr_left fun c hc => cellOfInteger_integerOfCell hb (h c hc)
  have hmissing : ∀ c : S2CellId, rIsNA (if rIsNA c then naReal else c) = rIsNA c := by
    intro c
    split
    · rename_i hc
      rw [hc]
      exact rIsNA_naReal
    · rfl
  refine ⟨?_, ?_, hback, ?_, ?_⟩
  · intro c hc
    rw [← rIsNA_iff, rIsNA_of_isCell hc]
    exact Bool.false_ne_true
  · rw [asInteger64S2Cell, cppS2CellIsNa, List.map_map]
    exact List.map_congr_left fun c hc => isNa_integerOfCell hb (h c hc)
  · rw [hback, cppS2CellIsNa, cppS2CellIsNa, List.map_map]
    exact List.map_congr_left fun c _ => hmissing c
  · rw [hback, asInteger64S2Cell, asInteger64S2Cell, List.map_map]
    refine List.map_congr_left fun c _ => ?_
    rw [Function.comp_apply, hmissing]
    split
    · rfl
    · rfl

/-- The bit64 package, for its smallest integer. -/
def smallestMissing : Bit64 := ⟨BitVec.intMin 64, fun x => x == BitVec.intMin 64⟩

theorem smallestMissing_documented : smallestMissing.Documented := ⟨rfl, fun _ => beq_iff_eq⟩

theorem integer64_roundTrip_face :
    asS2CellInteger64 smallestMissing
        (asInteger64S2Cell smallestMissing [⟨0x1000000000000000⟩, naReal, sentinel]) =
      [⟨0x1000000000000000⟩, naReal, sentinel] := by
  have h : ∀ c ∈ [⟨0x1000000000000000⟩, naReal, sentinel], IsCell c ∨ rIsNA c = true := by
    intro c hc
    simp only [List.mem_cons, List.not_mem_nil, or_false] at hc
    rcases hc with rfl | rfl | rfl
    · exact Or.inl (Or.inl (by decide))
    · exact Or.inr rfl
    · exact Or.inl (Or.inr (Or.inr rfl))
  exact (integer64_roundTrip smallestMissing_documented h).2.2.1

end S2Geography
