import S2Geography.CellSquares
import Mathlib.Algebra.Order.Field.Basic
import Mathlib.Tactic.FieldSimp
import Mathlib.Tactic.NormNum
import Mathlib.Tactic.Positivity

/-!
# The closed curve of the cells of a level

The curves of the six faces are joined end to end. `next_wrap` walks over the cells of a
level in this order, and each cell shares an edge with the next one, also from face to face
and from the last cell to the first. Edges are compared on the cube, in exact arithmetic.
-/
namespace S2Geography

open QuadrantCurves QuadrantCurve DyadicCells DyadicCell
open S2CellId hiding none

namespace S2CellId

def kWrapOffset : BitVec 64 := BitVec.ofNat 64 kNumFaces <<< kPosBits

def nextWrap (c : S2CellId) : S2CellId :=
  let n := c.next
  if n.id < kWrapOffset then n else ⟨n.id - kWrapOffset⟩

variable {c : S2CellId} {l h p : ℕ}

/-- The cell after a cell: one position on, or the first one of the next face. -/
theorem CurveCell.nextWrap (hc : CurveCell c l h p) (hv : c.isValid = true) :
    ∃ p', CurveCell c.nextWrap l h p' ∧
      ((p + 1 < 4 ^ l ∧ p' = p + 1 ∧ c.nextWrap.face = c.face) ∨
        (p + 1 = 4 ^ l ∧ p' = 0 ∧ c.nextWrap.face = (c.face + 1) % kNumFaces)) := by
  have hface := face_lt_of_isValid hv
  have hsum := hc.sum
  have hpow := hc.pow_eq
  have hpos : 0 < 4 ^ h := Nat.pow_pos (by omega)
  have hle : (p + 1) * 4 ^ h ≤ 4 ^ 30 := hpow ▸ Nat.mul_le_mul_right _ hc.pos_lt
  have hwrap : kWrapOffset.toNat = 6 * 2 ^ 61 := by decide
  rw [kNumFaces] at hface
  have hnext : c.next.id.toNat = c.face * 2 ^ 61 + (2 * (p + 1) + 1) * 4 ^ h := by
    have hlsb : c.lsb.toNat = 4 ^ h := by
      rw [lsb_toNat (ne_none_of_isValid hv), DyadicCell.size, hc.height, Nat.pow_mul]
    have hnat : c.id.toNat = c.face * 2 ^ 61 + (2 * (p * 4 ^ h) + 4 ^ h) :=
      hc.toNat_eq.trans (by ring)
    have hgoal : (2 * (p + 1) + 1) * 4 ^ h = 2 * (p * 4 ^ h) + 3 * 4 ^ h := by ring
    rw [next, BitVec.toNat_add, BitVec.toNat_shiftLeft, hlsb, hnat, hgoal, Nat.shiftLeft_eq]
    rw [Nat.add_mul, Nat.one_mul] at hle
    generalize p * 4 ^ h = x at *
    generalize 4 ^ h = s at *
    omega
  rcases Nat.lt_or_ge (p + 1) (4 ^ l) with hin | hend
  · -- the next position is on the same face
    have hle' : (p + 2) * 4 ^ h ≤ 4 ^ 30 := hpow ▸ Nat.mul_le_mul_right _ hin
    have hsplit : (2 * (p + 1) + 1) * 4 ^ h + 4 ^ h = 2 * ((p + 2) * 4 ^ h) := by ring
    have hlt : c.next.id < kWrapOffset := by
      rw [BitVec.lt_def, hnext, hwrap]
      omega
    have hn : c.nextWrap = c.next := if_pos hlt
    obtain ⟨hf, hcell⟩ := curveCell_of_toNat (c := c.nextWrap) hsum hin (by rw [hn, toNat, hnext])
    exact ⟨p + 1, hcell, Or.inl ⟨hin, rfl, hf⟩⟩
  · -- the next position is the first one of another face
    have hlast : p + 1 = 4 ^ l := Nat.le_antisymm hc.pos_lt hend
    rw [hlast, Nat.add_mul, Nat.mul_assoc, hpow, Nat.one_mul] at hnext
    have hsmall : 4 ^ h ≤ 4 ^ 30 := Nat.pow_le_pow_right (by omega) (by omega)
    have hfirst : 0 < 4 ^ l := Nat.pow_pos (by omega)
    rcases Nat.lt_or_ge (c.face + 1) 6 with hnotlast | hlastface
    · have hlt : c.next.id < kWrapOffset := by
        rw [BitVec.lt_def, hnext, hwrap]
        omega
      have hn : c.nextWrap = c.next := if_pos hlt
      obtain ⟨hf, hcell⟩ := @curveCell_of_toNat c.nextWrap l h 0 (c.face + 1) hsum hfirst (by
        rw [hn, toNat, hnext]
        omega)
      exact ⟨0, hcell, Or.inr ⟨hlast, rfl, by rw [hf, kNumFaces, Nat.mod_eq_of_lt hnotlast]⟩⟩
    · have hge : ¬ c.next.id < kWrapOffset := by
        rw [BitVec.lt_def, hnext, hwrap]
        omega
      have hn : c.nextWrap = ⟨c.next.id - kWrapOffset⟩ := if_neg hge
      obtain ⟨hf, hcell⟩ := @curveCell_of_toNat c.nextWrap l h 0 0 hsum hfirst (by
        rw [hn, toNat, BitVec.toNat_sub, hnext, hwrap]
        omega)
      exact ⟨0, hcell, Or.inr ⟨hlast, rfl, by rw [hf, kNumFaces, show c.face + 1 = 6 by omega]⟩⟩

end S2CellId

/-- `STtoUV` of the quadratic projection. -/
def stToUV (s : ℚ) : ℚ :=
  if s ≥ 1 / 2 then 1 / 3 * (4 * s * s - 1) else 1 / 3 * (1 - 4 * (1 - s) * (1 - s))

def faceUVtoXYZ (face : ℕ) (u v : ℚ) : ℚ × ℚ × ℚ :=
  match face with
  | 0 => (1, u, v)
  | 1 => (-u, 1, v)
  | 2 => (-u, -v, 1)
  | 3 => (-1, -v, -u)
  | 4 => (v, -1, -u)
  | _ => (v, u, -1)

/-- `R2Rect::GetVertex`, from the lower left in counterclockwise order. -/
def R2Rect.getVertex (r : R2Rect ℚ) (k : ℕ) : ℚ × ℚ :=
  let j := (k >>> 1) &&& 1
  (if j ^^^ (k &&& 1) = 0 then r.u.1 else r.u.2, if j = 0 then r.v.1 else r.v.2)

namespace S2Cell

def getVertexRaw (cell : S2Cell ℚ) (k : ℕ) : ℚ × ℚ × ℚ :=
  faceUVtoXYZ cell.face (cell.uv.getVertex k).1 (cell.uv.getVertex k).2

def IsVertex (P : ℚ × ℚ × ℚ) (cell : S2Cell ℚ) : Prop := ∃ k < 4, cell.getVertexRaw k = P

def SharesEdge (a b : S2Cell ℚ) : Prop :=
  ∃ P Q, P ≠ Q ∧ IsVertex P a ∧ IsVertex Q a ∧ IsVertex P b ∧ IsVertex Q b

end S2Cell

/-! ### The grid of a level -/

theorem stToUV_lt {s t : ℚ} (hs : 0 ≤ s) (hst : s < t) (ht : t ≤ 1) : stToUV s < stToUV t := by
  simp only [stToUV]
  split_ifs <;> nlinarith

theorem stToUV_zero : stToUV 0 = -1 := by norm_num [stToUV]

theorem stToUV_one : stToUV 1 = 1 := by norm_num [stToUV]

/-- The lines between the cells whose squares have the side `2 ^ h`. -/
def gridLine (h k : ℕ) : ℚ := stToUV (ijToSTMin (k * 2 ^ h))

variable {l h : ℕ}

theorem ijToSTMin_mul_two_pow (hsum : l + h = 30) (k : ℕ) : ijToSTMin (k * 2 ^ h) = k / 2 ^ l := by
  have hpow : (2 : ℚ) ^ 30 = 2 ^ l * 2 ^ h := by rw [← hsum, pow_add]
  rw [ijToSTMin, hpow]
  push_cast
  field_simp

theorem gridLine_injective (hsum : l + h = 30) {x y : ℕ} (hx : x ≤ 2 ^ l) (hy : y ≤ 2 ^ l)
    (hxy : gridLine h x = gridLine h y) : x = y := by
  have hlt : ∀ {x y : ℕ}, y ≤ 2 ^ l → x < y → gridLine h x < gridLine h y := by
    intro x y hy hxy
    have hpos : (0 : ℚ) < 2 ^ l := by positivity
    rw [gridLine, gridLine, ijToSTMin_mul_two_pow hsum, ijToSTMin_mul_two_pow hsum]
    apply stToUV_lt (by positivity)
    · exact div_lt_div_of_pos_right (by exact_mod_cast hxy) hpos
    · rw [div_le_one hpos]
      exact_mod_cast hy
  rcases lt_trichotomy x y with h' | h' | h'
  · exact absurd hxy (hlt hy h').ne
  · exact h'
  · exact absurd hxy (hlt hx h').ne'

theorem gridLine_zero (h : ℕ) : gridLine h 0 = -1 := by
  simp [gridLine, ijToSTMin, stToUV_zero]

theorem gridLine_last (hsum : l + h = 30) : gridLine h (2 ^ l) = 1 := by
  rw [gridLine, ijToSTMin_mul_two_pow hsum]
  push_cast
  rw [div_self (by positivity), stToUV_one]

/-! ### Points of the cube -/

theorem faceUVtoXYZ_injective {face : ℕ} {u v u' v' : ℚ}
    (h : faceUVtoXYZ face u v = faceUVtoXYZ face u' v') : u = u' ∧ v = v' := by
  simp only [faceUVtoXYZ] at h
  split at h <;> simp_all

/-- The right side of an even face is the left side of the next one. -/
theorem faceUVtoXYZ_even {face : ℕ} (hf : face < kNumFaces) (he : face % 2 = 0) (v : ℚ) :
    faceUVtoXYZ face 1 v = faceUVtoXYZ ((face + 1) % kNumFaces) (-1) v := by
  rw [kNumFaces] at *
  obtain rfl | rfl | rfl : face = 0 ∨ face = 2 ∨ face = 4 := by omega
  all_goals simp [faceUVtoXYZ]

/-- The top of an odd face is the bottom of the next one. -/
theorem faceUVtoXYZ_odd {face : ℕ} (hf : face < kNumFaces) (ho : face % 2 = 1) (u : ℚ) :
    faceUVtoXYZ face u 1 = faceUVtoXYZ ((face + 1) % kNumFaces) u (-1) := by
  rw [kNumFaces] at *
  obtain rfl | rfl | rfl : face = 1 ∨ face = 3 ∨ face = 5 := by omega
  all_goals simp [faceUVtoXYZ]

/-! ### Edges in common -/

namespace S2Cell

variable {c d : S2CellId} {p : ℕ}

/-- A point of the grid at the corner of a square. -/
def AtCorner (x y : ℕ) (square : ℕ × ℕ) : Prop :=
  (x = square.1 ∨ x = square.1 + 1) ∧ (y = square.2 ∨ y = square.2 + 1)

/-- The vertices of a cell are the grid points at the corners of its square. -/
theorem isVertex_of_atCorner (hc : CurveCell c l h p) (hv : c.isValid = true) {x y : ℕ}
    (hxy : AtCorner x y (hilbert.coords (faceOrientation c.face) l p)) :
    IsVertex (faceUVtoXYZ c.face (gridLine h x) (gridLine h y)) (ofId stToUV c) := by
  obtain ⟨hi, hj⟩ := c.toFaceIJOrientation_lt
  have hface : c.toFaceIJOrientation.face = c.face := by rw [toFaceIJOrientation_eq]
  have huv := ijLevelToBoundUV_eq stToUV hc hv hi hj
  rw [← hc.coords_div] at hxy
  obtain ⟨hx, hy⟩ := hxy
  generalize c.toFaceIJOrientation.i / 2 ^ h = i at *
  generalize c.toFaceIJOrientation.j / 2 ^ h = j at *
  have hside : ∀ k, (k + 1) * 2 ^ h = k * 2 ^ h + 2 ^ h := fun k => by ring
  simp only [IsVertex, getVertexRaw, ofId, hface, huv]
  rcases hx with rfl | rfl <;> rcases hy with rfl | rfl
  · exact ⟨0, by omega, by simp [R2Rect.getVertex, gridLine]⟩
  · exact ⟨3, by omega, by simp [R2Rect.getVertex, gridLine, hside]⟩
  · exact ⟨1, by omega, by simp [R2Rect.getVertex, gridLine, hside]⟩
  · exact ⟨2, by omega, by simp [R2Rect.getVertex, gridLine, hside]⟩

/-- Two grid points at corners of both cells are an edge of both. -/
theorem sharesEdge_of_atCorner (hc : CurveCell c l h p) (hv : c.isValid = true)
    (x y x' y' : ℕ) (hne : x ≠ x' ∨ y ≠ y')
    (hp : AtCorner x y (hilbert.coords (faceOrientation c.face) l p))
    (hp' : AtCorner x' y' (hilbert.coords (faceOrientation c.face) l p))
    (hq : IsVertex (faceUVtoXYZ c.face (gridLine h x) (gridLine h y)) (ofId stToUV d))
    (hq' : IsVertex (faceUVtoXYZ c.face (gridLine h x') (gridLine h y')) (ofId stToUV d)) :
    SharesEdge (ofId stToUV c) (ofId stToUV d) := by
  refine ⟨_, _, ?_, isVertex_of_atCorner hc hv hp, isVertex_of_atCorner hc hv hp', hq, hq'⟩
  intro heq
  obtain ⟨hu, hv'⟩ := faceUVtoXYZ_injective heq
  obtain ⟨hi, hj⟩ := hilbert.coords_lt (faceOrientation c.face) l p
  simp only [AtCorner] at hp hp'
  have hx := gridLine_injective hc.sum (by omega) (by omega) hu
  have hy := gridLine_injective hc.sum (by omega) (by omega) hv'
  exact hne.elim (fun hne => hne hx) (fun hne => hne hy)

/-- Squares that share a side share two corners. -/
theorem exists_atCorner {a b : ℕ × ℕ} (h : Adjacent a b) : ∃ x y x' y', (x ≠ x' ∨ y ≠ y') ∧
    AtCorner x y a ∧ AtCorner x' y' a ∧ AtCorner x y b ∧ AtCorner x' y' b := by
  simp only [AtCorner]
  rcases h with ⟨hi, hj⟩ | ⟨hj, hi⟩
  · refine ⟨a.1, max a.2 b.2, a.1 + 1, max a.2 b.2, ?_⟩
    omega
  · refine ⟨max a.1 b.1, a.2, max a.1 b.1, a.2 + 1, ?_⟩
    omega

/-- On a face the next cell lies beside the cell. -/
theorem sharesEdge_on_face (hc : CurveCell c l h p) (hv : c.isValid = true)
    (hd : CurveCell d l h (p + 1)) (hw : d.isValid = true) (hface : d.face = c.face)
    (hin : p + 1 < 4 ^ l) : SharesEdge (ofId stToUV c) (ofId stToUV d) := by
  have hadj := hilbertLinked.adjacent (faceOrientation c.face) (n := l) (p := p) (by
    rw [Nat.mod_eq_of_lt (by omega)]
    exact hin)
  obtain ⟨x, y, x', y', hne, ha, ha', hb, hb'⟩ := exists_atCorner hadj
  rw [← hface] at hb hb'
  refine sharesEdge_of_atCorner hc hv x y x' y' hne ha ha' ?_ ?_
  · rw [← hface]
    exact isVertex_of_atCorner hd hw hb
  · rw [← hface]
    exact isVertex_of_atCorner hd hw hb'

/-- The curve of a face starts at the lower left and ends at the lower right of an even face,
at the upper left of an odd one. -/
theorem coords_first (face l : ℕ) : hilbert.coords (faceOrientation face) l 0 = (0, 0) := by
  rw [hilbert.coords_corner hilbertLinked.start_eq hilbertLinked.start_turn _
    fun k hk => digit_eq_zero (Nat.zero_mod _) hk]
  have hstart : ∀ o : Fin 4, o.val < 2 → hilbertLinked.start o = 0 := by decide
  rw [hstart _ (Nat.mod_lt _ (by omega))]
  simp [corner, quadI, quadJ]

theorem coords_last {face : ℕ} (hp : p + 1 = 4 ^ l) :
    hilbert.coords (faceOrientation face) l p =
      if face % 2 = 0 then (2 ^ l - 1, 0) else (0, 2 ^ l - 1) := by
  rw [hilbert.coords_corner hilbertLinked.stop_eq hilbertLinked.stop_turn _
    fun k hk => digit_eq_three (by rw [Nat.mod_eq_of_lt (by omega), hp]) hk]
  have hstop : ∀ o : Fin 4, o.val < 2 →
      hilbertLinked.stop o = if o.val = 0 then 2 else 1 := by decide
  rw [hstop _ (Nat.mod_lt _ (by omega)), faceOrientation]
  by_cases hface : face % 2 = 0 <;> simp [hface, corner, quadI, quadJ]

/-- The last cell of a face lies beside the first one of the next face. -/
theorem sharesEdge_across (hc : CurveCell c l h p) (hv : c.isValid = true)
    (hd : CurveCell d l h 0) (hw : d.isValid = true)
    (hface : d.face = (c.face + 1) % kNumFaces) (hlast : p + 1 = 4 ^ l) :
    SharesEdge (ofId stToUV c) (ofId stToUV d) := by
  have hf := face_lt_of_isValid hv
  have hcoords := @coords_last l p c.face hlast
  have hpos := Nat.two_pow_pos l
  have hcorner : ∀ x y, x ≤ 1 → y ≤ 1 →
      IsVertex (faceUVtoXYZ d.face (gridLine h x) (gridLine h y)) (ofId stToUV d) := by
    intro x y hx hy
    apply isVertex_of_atCorner hd hw
    rw [coords_first]
    simp only [AtCorner]
    omega
  rw [hface] at hcorner
  have hside := gridLine_last hc.sum
  by_cases he : c.face % 2 = 0
  · -- the right side of the square
    rw [if_pos he] at hcoords
    refine sharesEdge_of_atCorner hc hv (2 ^ l) 0 (2 ^ l) 1 ?_ ?_ ?_ ?_ ?_
    · exact Or.inr (by omega)
    · rw [hcoords]
      exact ⟨by omega, Or.inl rfl⟩
    · rw [hcoords]
      exact ⟨by omega, Or.inr rfl⟩
    · rw [hside, faceUVtoXYZ_even hf he, ← gridLine_zero h]
      exact hcorner 0 0 (by omega) (by omega)
    · rw [hside, faceUVtoXYZ_even hf he, ← gridLine_zero h]
      exact hcorner 0 1 (by omega) le_rfl
  · -- the top of the square
    have ho : c.face % 2 = 1 := by omega
    rw [if_neg he] at hcoords
    refine sharesEdge_of_atCorner hc hv 0 (2 ^ l) 1 (2 ^ l) ?_ ?_ ?_ ?_ ?_
    · exact Or.inl (by omega)
    · rw [hcoords]
      exact ⟨Or.inl rfl, by omega⟩
    · rw [hcoords]
      exact ⟨Or.inr rfl, by omega⟩
    · rw [hside, faceUVtoXYZ_odd hf ho, ← gridLine_zero h]
      exact hcorner 0 0 (by omega) (by omega)
    · rw [hside, faceUVtoXYZ_odd hf ho, ← gridLine_zero h]
      exact hcorner 1 0 le_rfl (by omega)

/-- The cells of a level form a closed curve over the whole sphere: each one shares an edge with
the next one. -/
theorem sharesEdge_nextWrap (hv : c.isValid = true) :
    c.nextWrap.isValid = true ∧ c.nextWrap.level = c.level ∧
      SharesEdge (ofId stToUV c) (ofId stToUV c.nextWrap) := by
  obtain ⟨l, h, p, hc⟩ := exists_curveCell hv
  have hf := face_lt_of_isValid hv
  obtain ⟨p', hd, hcase⟩ := hc.nextWrap hv
  have hw : c.nextWrap.isValid = true := by
    apply hd.isValid
    rcases hcase with ⟨-, -, hface⟩ | ⟨-, -, hface⟩
    · rw [hface]
      exact hf
    · rw [hface]
      exact Nat.mod_lt _ (by decide)
  refine ⟨hw, by rw [hc.level_eq hv, hd.level_eq hw], ?_⟩
  rcases hcase with ⟨hin, rfl, hface⟩ | ⟨hlast, rfl, hface⟩
  · exact sharesEdge_on_face hc hv hd hw hface hin
  · exact sharesEdge_across hc hv hd hw hface hlast

theorem sharesEdge_nextWrap_last : (⟨0xb000000000000000⟩ : S2CellId).nextWrap.isValid = true ∧
    (⟨0xb000000000000000⟩ : S2CellId).nextWrap.level = (⟨0xb000000000000000⟩ : S2CellId).level ∧
      SharesEdge (ofId stToUV ⟨0xb000000000000000⟩)
        (ofId stToUV (⟨0xb000000000000000⟩ : S2CellId).nextWrap) :=
  sharesEdge_nextWrap (by decide)

end S2Cell

end S2Geography
