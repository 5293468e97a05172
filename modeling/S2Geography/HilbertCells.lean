import S2Geography.HilbertIds
import S2Geography.CellChildren

/-!
# Cells as squares of the Hilbert curve

An id of any level is a position of the curve: the digits of the cell, then the digits of
its middle, a two and zeros. The leaves of a cell are an aligned square of coordinates, its
quarters lie in the quadrants that its orientation lists, and the middle of the square comes
out of the leaf that `ToFaceIJOrientation` returns.
-/
namespace S2Geography

open QuadrantCurves QuadrantCurve

namespace S2CellId

def getSizeIJ (level : ℤ) : ℕ := 1 <<< ((kMaxLevel : ℤ) - level).toNat

/-- The digits of a cell: `l` digits that make up the position `p`, above the `h` digits
that its leaves add. -/
structure CurveCell (c : S2CellId) (l h p : ℕ) : Prop where
  sum : l + h = 30
  height : c.cell.height = 2 * h
  pos_lt : p < 4 ^ l
  toNat_eq : c.toNat = c.face * 2 ^ 61 + (2 * p + 1) * 4 ^ h

variable {c d : S2CellId} {l h p n : ℕ}

theorem exists_curveCell (hc : c.isValid = true) : ∃ l h p, CurveCell c l h p := by
  obtain ⟨hne, heven, hle, -⟩ := isValid_iff.mp hc
  obtain ⟨h, hh⟩ : ∃ h, c.cell.height = 2 * h := ⟨c.cell.height / 2, by omega⟩
  have hsum : 30 - h + h = 30 := by omega
  generalize 30 - h = l at hsum
  have hpos : 0 < 4 ^ l := Nat.pow_pos (by omega)
  have hnat : c.toNat = (2 * c.cell.index + 1) * 4 ^ h := by
    rw [toNat_eq hne, DyadicCells.DyadicCell.center, DyadicCells.DyadicCell.size, hh,
      Nat.pow_mul]
  have hsplit : 2 ^ 61 = 4 ^ h * (2 * 4 ^ l) := by
    rw [show 2 ^ 61 = 2 * 4 ^ 30 by norm_num, ← hsum, Nat.pow_add]
    ring
  have hface : c.face = c.cell.index / 4 ^ l := by
    rw [face_eq, hnat, hsplit, Nat.mul_comm, Nat.mul_div_mul_left _ _ (Nat.pow_pos (by omega)),
      ← Nat.div_div_eq_div_mul]
    congr 1
    omega
  have hindex := Nat.div_add_mod c.cell.index (4 ^ l)
  refine ⟨l, h, c.cell.index % 4 ^ l, hsum, hh, Nat.mod_lt _ hpos, ?_⟩
  rw [hnat, hface, hsplit]
  calc (2 * c.cell.index + 1) * 4 ^ h
      = (2 * (4 ^ l * (c.cell.index / 4 ^ l) + c.cell.index % 4 ^ l) + 1) * 4 ^ h := by rw [hindex]
    _ = _ := by ring

namespace CurveCell

theorem pow_eq (hc : CurveCell c l h p) : 4 ^ l * 4 ^ h = 4 ^ 30 := by
  rw [← Nat.pow_add, hc.sum]

theorem isLeaf_iff (hc : CurveCell c l h p) (hv : c.isValid = true) :
    c.isLeaf = true ↔ h = 0 := by
  rw [S2CellId.isLeaf_iff (ne_none_of_isValid hv), hc.height]
  omega

theorem exists_succ (hc : CurveCell c l h p) (hv : c.isValid = true) (hl : c.isLeaf = false) :
    ∃ n, h = n + 1 := by
  apply Nat.exists_eq_succ_of_ne_zero
  intro hzero
  rw [(hc.isLeaf_iff hv).mpr hzero] at hl
  exact Bool.noConfusion hl

/-- The digits that an id shows end in those of its middle. -/
theorem curvePos_eq (hc : CurveCell c l h p) : c.curvePos = p * 4 ^ h + 4 ^ h / 2 := by
  have hpow := hc.pow_eq
  have hpos : 0 < 4 ^ h := Nat.pow_pos (by omega)
  have hle : (p + 1) * 4 ^ h ≤ 4 ^ 30 := hpow ▸ Nat.mul_le_mul_right _ hc.pos_lt
  have hnat : c.toNat = c.face * 2 ^ 61 + (2 * (p * 4 ^ h) + 4 ^ h) := by
    rw [hc.toNat_eq]
    ring
  rw [Nat.add_mul, Nat.one_mul] at hle
  rw [curvePos]
  generalize p * 4 ^ h = x at *
  generalize 4 ^ h = s at *
  omega

theorem curvePos_div (hc : CurveCell c l h p) : c.curvePos / 4 ^ h = p := by
  rw [hc.curvePos_eq]
  exact mul_add_div_eq (Nat.div_lt_self (Nat.pow_pos (by omega)) (by omega))

theorem level_eq (hc : CurveCell c l h p) (hv : c.isValid = true) : c.level = l := by
  have hlevel := (level_spec hv).2.2
  have hheight := hc.height
  have hsum := hc.sum
  omega

theorem getSizeIJ_eq (hc : CurveCell c l h p) (hv : c.isValid = true) :
    getSizeIJ c.level = 2 ^ h := by
  have hsum := hc.sum
  rw [getSizeIJ, hc.level_eq hv, Nat.one_shiftLeft, kMaxLevel]
  congr 1
  omega

theorem isValid (hc : CurveCell c l h p) (hf : c.face < kNumFaces) : c.isValid = true := by
  have hpow := hc.pow_eq
  have hsum := hc.sum
  have hpos : 0 < 4 ^ h := Nat.pow_pos (by omega)
  have hle : (p + 1) * 4 ^ h ≤ 4 ^ 30 := hpow ▸ Nat.mul_le_mul_right _ hc.pos_lt
  have hnat : c.toNat = c.face * 2 ^ 61 + (2 * (p * 4 ^ h) + 4 ^ h) := by
    rw [hc.toNat_eq]
    ring
  rw [Nat.add_mul, Nat.one_mul] at hle
  rw [kNumFaces] at hf
  have hne : c ≠ none := by
    intro hnone
    rw [hnone, show none.toNat = 0 from rfl] at hnat
    omega
  exact isValid_iff.mpr ⟨hne, by rw [hc.height]; omega, by rw [hc.height]; omega, by omega⟩

/-- Coordinates without the bits below a cell are those of the cell on a curve of its own
level. -/
theorem coords_div (hc : CurveCell c l h p) :
    (c.toFaceIJOrientation.i / 2 ^ h, c.toFaceIJOrientation.j / 2 ^ h) =
      hilbert.coords (faceOrientation c.face) l p := by
  rw [toFaceIJOrientation_eq]
  simp only [← hc.sum, coords_add, hc.curvePos_div]
  rw [mul_add_div_eq (hilbert.coords_lt _ h _).1, mul_add_div_eq (hilbert.coords_lt _ h _).2]

theorem pos_eq (hc : CurveCell c l h p) : p = hilbert.position (faceOrientation c.face) l
    (c.toFaceIJOrientation.i / 2 ^ h) (c.toFaceIJOrientation.j / 2 ^ h) := by
  have hcoords := hilbert.position_coords (faceOrientation c.face) l p
  rw [← hc.coords_div, Nat.mod_eq_of_lt hc.pos_lt] at hcoords
  exact hcoords.symm

/-- The range of a cell holds the leaves whose first digits are those of the cell. -/
theorem contains_leaf_iff (hc : CurveCell c l h p) (hv : c.isValid = true) {face q : ℕ}
    (hq : q < 4 ^ 30) (hd : d.toNat = face * 2 ^ 61 + 2 * q + 1) :
    c.contains d = true ↔ face = c.face ∧ q / 4 ^ h = p := by
  have hpow := hc.pow_eq
  have hpos : 0 < 4 ^ h := Nat.pow_pos (by omega)
  have hle : (p + 1) * 4 ^ h ≤ 4 ^ 30 := hpow ▸ Nat.mul_le_mul_right _ hc.pos_lt
  have hne := ne_none_of_isValid hv
  have hsize : c.cell.size = 4 ^ h := by
    rw [DyadicCells.DyadicCell.size, hc.height, Nat.pow_mul]
  have hnat : c.cell.center = c.face * 2 ^ 61 + (2 * (p * 4 ^ h) + 4 ^ h) := by
    rw [← S2CellId.toNat_eq hne, hc.toNat_eq]
    ring
  rw [contains_eq_true, le_def, le_def, rangeMin_toNat hne, rangeMax_toNat hne,
    DyadicCells.DyadicCell.lo_eq, DyadicCells.DyadicCell.hi_eq, hsize, hnat, hd,
    Nat.div_eq_iff hpos]
  rw [Nat.add_mul, Nat.one_mul] at hle
  generalize p * 4 ^ h = x at *
  generalize 4 ^ h = s at *
  constructor
  · intro hmem
    have hface : face = c.face := by omega
    exact ⟨hface, by omega⟩
  · intro hmem
    obtain ⟨hface, hmem⟩ := hmem
    rw [hface]
    omega

end CurveCell

/-- A cell holds the leaves of an aligned square of its face. -/
theorem contains_fromFaceIJ_iff (hv : c.isValid = true) {face i j : ℕ} (hf : face < kNumFaces)
    (hi : i < 2 ^ 30) (hj : j < 2 ^ 30) :
    c.contains (fromFaceIJ face i j) = true ↔ face = c.face ∧
      i / getSizeIJ c.level = c.toFaceIJOrientation.i / getSizeIJ c.level ∧
      j / getSizeIJ c.level = c.toFaceIJOrientation.j / getSizeIJ c.level := by
  obtain ⟨l, h, p, hc⟩ := exists_curveCell hv
  rw [hc.contains_leaf_iff hv (hilbert.position_lt _ _ _ _) (fromFaceIJ_toNat hf hi hj),
    hc.getSizeIJ_eq hv]
  apply and_congr_right
  intro hface
  -- dropping digits of the position drops bits of the coordinates
  have hdrop : hilbert.position (faceOrientation face) 30 i j / 4 ^ h =
      hilbert.position (faceOrientation face) l (i / 2 ^ h) (j / 2 ^ h) := by
    rw [← hc.sum, position_add, mul_add_div_eq (hilbert.position_lt _ _ _ _)]
  rw [hdrop, hface]
  constructor
  · intro heq
    have hcoords := hilbert.coords_position (faceOrientation c.face) l (i / 2 ^ h) (j / 2 ^ h)
    have hlt : ∀ x < 2 ^ 30, x / 2 ^ h < 2 ^ l := by
      intro x hx
      rw [Nat.div_lt_iff_lt_mul (Nat.two_pow_pos h), ← Nat.pow_add, hc.sum]
      exact hx
    rw [heq, ← hc.coords_div, Nat.mod_eq_of_lt (hlt i hi), Nat.mod_eq_of_lt (hlt j hj),
      Prod.mk.injEq] at hcoords
    exact ⟨hcoords.1.symm, hcoords.2.symm⟩
  · intro hij
    rw [hij.1, hij.2]
    exact hc.pos_eq.symm

/-! ### The digits of the middle -/

theorem hilbert_turn_two (o : Fin 4) : hilbert.turn o 2 = o := by
  revert o
  decide

/-- A zero swaps the axes, and another one swaps them back. -/
theorem orient_zeros (o : Fin 4) {n q : ℕ} (hq : ∀ k < n, digit q k = 0) :
    hilbert.orient o n q = if n % 2 = 1 then o ^^^ 1 else o := by
  induction n generalizing o with
  | zero => rfl
  | succ n ih =>
    have hturn : hilbert.turn o 0 = o ^^^ 1 := by
      revert o
      decide
    have htwice : o ^^^ 1 ^^^ 1 = o := by
      revert o
      decide
    rw [orient, hq n n.lt_succ_self, hturn, ih _ fun k hk => hq k (Nat.lt_succ_of_lt hk), htwice]
    by_cases hn : n % 2 = 1
    · rw [if_pos hn, if_neg (by omega)]
    · rw [if_neg hn, if_pos (by omega)]

/-- The digits of the middle of a square that is halved `n + 1` times. -/
theorem digit_middle (p n : ℕ) :
    digit (p * 4 ^ (n + 1) + 4 ^ (n + 1) / 2) n = 2 ∧
      ∀ k < n, digit (p * 4 ^ (n + 1) + 4 ^ (n + 1) / 2) k = 0 := by
  have hpos : 0 < 4 ^ n := Nat.pow_pos (by omega)
  have hmid : p * 4 ^ (n + 1) + 4 ^ (n + 1) / 2 = (4 * p + 2) * 4 ^ n := by
    rw [Nat.pow_succ, show 4 ^ n * 4 / 2 = 2 * 4 ^ n by omega]
    ring
  constructor
  · apply Fin.ext
    rw [hmid, digit_val, Nat.mul_div_cancel _ hpos]
    change (4 * p + 2) % 4 = 2
    omega
  · intro k hk
    exact digit_eq_zero (by rw [hmid, Nat.mul_mod_left]) hk

theorem orient_middle (o : Fin 4) (p n : ℕ) :
    hilbert.orient o (n + 1) (p * 4 ^ (n + 1) + 4 ^ (n + 1) / 2) =
      if n % 2 = 1 then o ^^^ 1 else o := by
  obtain ⟨htop, hzero⟩ := digit_middle p n
  rw [orient, htop, hilbert_turn_two, orient_zeros o hzero]

/-- The leaf found for the middle is one of the two on the diagonal around it. -/
theorem coords_middle (o : Fin 4) (p n : ℕ) :
    hilbert.coords o (n + 1) (p * 4 ^ (n + 1) + 4 ^ (n + 1) / 2) =
      if o.val < 2 then (2 ^ n, 2 ^ n) else (2 ^ n - 1, 2 ^ n - 1) := by
  obtain ⟨htop, hzero⟩ := digit_middle p n
  rw [coords, htop, hilbert_turn_two,
    hilbert.coords_corner hilbertLinked.start_eq hilbertLinked.start_turn o hzero, corner]
  have htwo : quadI (hilbert.toIJ o 2) = (if o.val < 2 then 1 else 0) ∧
      quadJ (hilbert.toIJ o 2) = if o.val < 2 then 1 else 0 := by
    revert o
    decide
  have hstart : quadI (hilbertLinked.start o) = (if o.val < 2 then 0 else 1) ∧
      quadJ (hilbertLinked.start o) = if o.val < 2 then 0 else 1 := by
    revert o
    decide
  rw [htwo.1, htwo.2, hstart.1, hstart.2]
  by_cases ho : o.val < 2
  · simp only [if_pos ho, Nat.one_mul, Nat.zero_mul, Nat.add_zero]
  · simp only [if_neg ho, Nat.one_mul, Nat.zero_mul, Nat.zero_add]

theorem lsb_and_swaps (h : ℕ) (hh : h ≤ 30) :
    (1#64 <<< (2 * h) &&& 0x1111111111111110#64 != 0) = decide (h % 2 = 0 ∧ h ≠ 0) := by
  have hcheck : ∀ k : Fin 31, (1#64 <<< (2 * k.val) &&& 0x1111111111111110#64 != 0) =
      decide (k.val % 2 = 0 ∧ k.val ≠ 0) := by decide
  exact hcheck ⟨h, by omega⟩

/-- The correction by the lowest bit undoes the swaps of the zeros: what is returned is the
orientation inside the cell. -/
theorem CurveCell.orientation_eq (hc : CurveCell c l h p) (hv : c.isValid = true) :
    c.toFaceIJOrientation.orientation =
      (hilbert.orient (faceOrientation c.face) l p).val := by
  have hsum := hc.sum
  rw [toFaceIJOrientation_eq, lsb_eq (ne_none_of_isValid hv), hc.height, ← hsum, orient_add,
    hc.curvePos_div, hc.curvePos_eq]
  simp only [lsb_and_swaps h (by omega), decide_eq_true_eq]
  generalize hilbert.orient (faceOrientation c.face) l p = o
  have hswap : (o ^^^ 1).val ^^^ kSwapMask = o.val := by
    revert o
    decide
  cases h with
  | zero => simp [orient]
  | succ n =>
    rw [orient_middle]
    by_cases hn : n % 2 = 1
    · rw [if_pos hn, if_pos (by omega), hswap]
    · rw [if_neg hn, if_neg (by omega)]

/-! ### Quarters -/

/-- A word with the digits of a cell is that cell. -/
theorem curveCell_of_toNat {face : ℕ} (hsum : l + h = 30) (hp : p < 4 ^ l)
    (hc : c.toNat = face * 2 ^ 61 + (2 * p + 1) * 4 ^ h) :
    c.face = face ∧ CurveCell c l h p := by
  have hpow : 4 ^ l * 4 ^ h = 4 ^ 30 := by rw [← Nat.pow_add, hsum]
  have hle : (p + 1) * 4 ^ h ≤ 4 ^ 30 := hpow ▸ Nat.mul_le_mul_right _ hp
  have hpos : 0 < 4 ^ h := Nat.pow_pos (by omega)
  have hface : c.face = face := by
    have hexp : (2 * p + 1) * 4 ^ h = 2 * (p * 4 ^ h) + 4 ^ h := by ring
    rw [Nat.add_mul, Nat.one_mul] at hle
    rw [face_eq, hc, hexp]
    generalize p * 4 ^ h = x at *
    generalize 4 ^ h = s at *
    omega
  have hcell := (cell_eq_of_toNat (c := c) (d := ⟨face * 4 ^ l + p, 2 * h⟩) (by
    rw [hc, DyadicCells.DyadicCell.center, DyadicCells.DyadicCell.size, Nat.pow_mul,
      show 2 ^ 61 = 2 * 4 ^ 30 by norm_num, ← hpow]
    ring)).2
  exact ⟨hface, hsum, by rw [hcell], hp, by rw [hface, hc]⟩

theorem CurveCell.child (hc : CurveCell c l (h + 1) p) (hv : c.isValid = true) {k : ℕ}
    (hk : k < 4) : (c.child k).face = c.face ∧ CurveCell (c.child k) (l + 1) h (p * 4 + k) := by
  have hne := ne_none_of_isValid hv
  have hsum := hc.sum
  obtain ⟨hne', hcell⟩ := child_cell hne (by rw [hc.height]; omega) hk
  have hpos := hc.pos_lt
  apply curveCell_of_toNat (by omega)
  · rw [Nat.pow_succ]
    omega
  · -- the number of a quarter, from that of the cell
    have hnat : c.toNat = 4 * ((2 * c.cell.index + 1) * 4 ^ h) := by
      rw [S2CellId.toNat_eq hne, DyadicCells.DyadicCell.center, DyadicCells.DyadicCell.size,
        hc.height, Nat.pow_mul, Nat.pow_succ]
      ring
    have hquarter : (c.child k).toNat = (8 * c.cell.index + 2 * k + 1) * 4 ^ h := by
      rw [S2CellId.toNat_eq hne', hcell, DyadicCells.DyadicCell.center,
        DyadicCells.DyadicCell.size, DyadicCells.DyadicCell.child, hc.height,
        show 2 * (h + 1) - 2 = 2 * h by omega, Nat.pow_mul]
      ring
    have hsplit : c.face * 2 ^ 61 + 4 * ((2 * p + 1) * 4 ^ h) =
        4 * ((2 * c.cell.index + 1) * 4 ^ h) := by
      rw [← hnat, hc.toNat_eq, Nat.pow_succ]
      ring
    rw [hquarter]
    linarith

/-- The quarters of a cell lie in the quadrants that its orientation lists, and their
orientations come from the table. -/
theorem child_toFaceIJOrientation (hv : c.isValid = true) (hl : c.isLeaf = false) (k : Fin 4) :
    ∃ o : Fin 4, c.toFaceIJOrientation.orientation = o.val ∧
      (c.child k).toFaceIJOrientation.face = c.toFaceIJOrientation.face ∧
      (c.child k).toFaceIJOrientation.orientation = (o ^^^ kPosToOrientation k).val ∧
      (c.child k).toFaceIJOrientation.i / getSizeIJ (c.child k).level =
        c.toFaceIJOrientation.i / getSizeIJ c.level * 2 + (kPosToIJ o k).val / 2 ∧
      (c.child k).toFaceIJOrientation.j / getSizeIJ (c.child k).level =
        c.toFaceIJOrientation.j / getSizeIJ c.level * 2 + (kPosToIJ o k).val % 2 := by
  obtain ⟨l, h, p, hc⟩ := exists_curveCell hv
  obtain ⟨n, rfl⟩ := hc.exists_succ hv hl
  obtain ⟨hface, hd⟩ := hc.child hv k.isLt
  have hdv := (child_spec hv hl k.isLt).1
  have hcoords := hc.coords_div
  have hdcoords := hd.coords_div
  rw [hface, coords_succ, ← hcoords, Prod.mk.injEq] at hdcoords
  rw [hc.getSizeIJ_eq hv, hd.getSizeIJ_eq hdv, hc.orientation_eq hv, hd.orientation_eq hdv, hface,
    orient_succ]
  refine ⟨_, rfl, ?_, rfl, hdcoords⟩
  rw [toFaceIJOrientation_eq, toFaceIJOrientation_eq, hface]

/-! ### Centers -/


theorem and_one_ne_zero (x : BitVec 32) : (x &&& 1#32 != 0) = x.getLsbD 0 := by
  have hand : (x &&& 1#32).toNat = x.toNat % 2 :=
    (BitVec.toNat_and x 1).trans (Nat.and_one_is_mod x.toNat)
  rw [Bool.eq_iff_iff, bne_iff_ne, ne_eq, ← BitVec.toNat_inj, hand, BitVec.getLsbD,
    Nat.testBit_zero, decide_eq_true_eq]
  change ¬x.toNat % 2 = 0 ↔ x.toNat % 2 = 1
  omega

/-- The test of `GetCenterSiTi` compares the low bit of a coordinate with a bit of the id. -/
theorem centerTest (c : S2CellId) (i : ℕ) :
    ((BitVec.ofNat 32 i ^^^ (c.id.setWidth 32).sshiftRight 2) &&& 1#32 != 0) =
      ((decide (i % 2 = 1)) ^^ decide (c.toNat / 4 % 2 = 1)) := by
  rw [and_one_ne_zero, BitVec.getLsbD_xor, BitVec.getLsbD_sshiftRight]
  simp only [BitVec.getLsbD_ofNat, BitVec.getLsbD_setWidth, Nat.testBit_zero]
  simp [BitVec.getLsbD, Nat.testBit_eq_decide_div_mod_eq, toNat]
  rfl

theorem CurveCell.coords_mod (hc : CurveCell c l h p) :
    (c.toFaceIJOrientation.i % 2 ^ h, c.toFaceIJOrientation.j % 2 ^ h) =
      hilbert.coords (hilbert.orient (faceOrientation c.face) l p) h (p * 4 ^ h + 4 ^ h / 2) := by
  rw [toFaceIJOrientation_eq]
  simp only [← hc.sum, coords_add, hc.curvePos_div]
  rw [mul_add_mod_eq (hilbert.coords_lt _ h _).1, mul_add_mod_eq (hilbert.coords_lt _ h _).2,
    hc.curvePos_eq]

theorem CurveCell.centerBit (hc : CurveCell c l (n + 1) p) : c.toNat / 4 % 2 = 1 ↔ n = 0 := by
  have hsplit : c.toNat = 4 * (c.face * 2 ^ 59 + 2 * (p * 4 ^ n) + 4 ^ n) := by
    rw [hc.toNat_eq, Nat.pow_succ]
    ring
  rw [hsplit, Nat.mul_div_cancel_left _ (by omega)]
  cases n with
  | zero => omega
  | succ n =>
    rw [Nat.pow_succ]
    omega

theorem two_pow_odd_iff (n : ℕ) : 2 ^ n % 2 = 1 ↔ n = 0 := by
  cases n with
  | zero => simp
  | succ n => simp [Nat.pow_succ]

/-- The low bit of a coordinate of the leaf above or below the middle. -/
theorem mod_two_of_middle {i : ℕ} :
    (i % 2 ^ (n + 1) = 2 ^ n → (i % 2 = 1 ↔ n = 0)) ∧
      (i % 2 ^ (n + 1) = 2 ^ n - 1 → (i % 2 = 1 ↔ n ≠ 0)) := by
  have hlow : i % 2 ^ (n + 1) % 2 = i % 2 := Nat.mod_mod_of_dvd i (Dvd.intro_left (2 ^ n) rfl)
  have hodd := two_pow_odd_iff n
  have hpos := Nat.two_pow_pos n
  constructor
  · intro hi
    rw [← hlow, hi, hodd]
  · intro hi
    rw [← hlow, hi]
    omega

/-- The middle of a cell, in units of half a leaf. -/
theorem getCenterSiTi_eq (hv : c.isValid = true) : c.getCenterSiTi =
    (c.face, 2 * (c.toFaceIJOrientation.i / getSizeIJ c.level * getSizeIJ c.level)
        + getSizeIJ c.level,
      2 * (c.toFaceIJOrientation.j / getSizeIJ c.level * getSizeIJ c.level)
        + getSizeIJ c.level) := by
  obtain ⟨l, h, p, hc⟩ := exists_curveCell hv
  have hface : c.toFaceIJOrientation.face = c.face := by rw [toFaceIJOrientation_eq]
  have hmod := hc.coords_mod
  rw [hc.getSizeIJ_eq hv, getCenterSiTi]
  simp only [hface, centerTest]
  generalize c.toFaceIJOrientation.i = i at *
  generalize c.toFaceIJOrientation.j = j at *
  have hi := Nat.div_add_mod' i (2 ^ h)
  have hj := Nat.div_add_mod' j (2 ^ h)
  cases h with
  | zero => simp [(hc.isLeaf_iff hv).mpr rfl]
  | succ n =>
    have hleaf : c.isLeaf = false := by
      rw [Bool.eq_false_iff]
      exact fun hl => absurd ((hc.isLeaf_iff hv).mp hl) n.succ_ne_zero
    have hbit := hc.centerBit
    have hpow := Nat.pow_succ 2 n
    have hpos := Nat.two_pow_pos n
    rw [coords_middle] at hmod
    rw [if_neg (by simp [hleaf])]
    by_cases ho : (hilbert.orient (faceOrientation c.face) l p).val < 2
    · -- the leaf is the one above the middle, and its low bit is that of the id
      rw [if_pos ho, Prod.mk.injEq] at hmod
      have htest := mod_two_of_middle.1 hmod.1
      have hsame : (decide (i % 2 = 1) ^^ decide (c.toNat / 4 % 2 = 1)) = false := by
        simp only [htest, hbit, Bool.xor_self]
      rw [hsame, if_neg (by simp)]
      ext <;> simp only <;> omega
    · -- the leaf is the one below the middle
      rw [if_neg ho, Prod.mk.injEq] at hmod
      have htest := mod_two_of_middle.2 hmod.1
      have hother : (decide (i % 2 = 1) ^^ decide (c.toNat / 4 % 2 = 1)) = true := by
        simp only [htest, hbit]
        by_cases hn : n = 0 <;> simp [hn]
      rw [if_pos hother]
      ext <;> simp only <;> omega

/-- A leaf is in a cell if its middle is less than half the size of the cell away from the
middle of the cell. -/
theorem contains_iff_near_center (hv : c.isValid = true) {face i j : ℕ} (hf : face < kNumFaces)
    (hi : i < 2 ^ 30) (hj : j < 2 ^ 30) :
    c.contains (fromFaceIJ face i j) = true ↔ face = c.getCenterSiTi.1 ∧
      |(2 * i + 1 : ℤ) - c.getCenterSiTi.2.1| < getSizeIJ c.level ∧
      |(2 * j + 1 : ℤ) - c.getCenterSiTi.2.2| < getSizeIJ c.level := by
  rw [contains_fromFaceIJ_iff hv hf hi hj, getCenterSiTi_eq hv]
  obtain ⟨l, h, p, hc⟩ := exists_curveCell hv
  have hsize := hc.getSizeIJ_eq hv
  have hpos := Nat.two_pow_pos h
  simp only [hsize]
  have hnear : ∀ a b : ℕ, a / 2 ^ h = b / 2 ^ h ↔
      |(2 * a + 1 : ℤ) - ((2 * (b / 2 ^ h * 2 ^ h) + 2 ^ h : ℕ) : ℤ)| < ((2 ^ h : ℕ) : ℤ) := by
    intro a b
    rw [Nat.div_eq_iff hpos, abs_lt]
    generalize b / 2 ^ h * 2 ^ h = lo
    generalize 2 ^ h = size at *
    omega
  rw [hnear i, hnear j]

/-- A cell of level 2 on the third face. -/
theorem contains_iff_near_center_level : (⟨0x4500000000000000⟩ : S2CellId).contains
      (fromFaceIJ 2 5 7) = true ↔ 2 = (⟨0x4500000000000000⟩ : S2CellId).getCenterSiTi.1 ∧
        |(2 * (5 : ℕ) + 1 : ℤ) - (⟨0x4500000000000000⟩ : S2CellId).getCenterSiTi.2.1| <
          getSizeIJ (⟨0x4500000000000000⟩ : S2CellId).level ∧
        |(2 * (7 : ℕ) + 1 : ℤ) - (⟨0x4500000000000000⟩ : S2CellId).getCenterSiTi.2.2| <
          getSizeIJ (⟨0x4500000000000000⟩ : S2CellId).level :=
  contains_iff_near_center (by decide) (by decide) (by decide) (by decide)

end S2CellId

end S2Geography
