import S2Geography.HilbertCurve
import Mathlib.Data.Set.Function
import Mathlib.Tactic.IntervalCases

/-!
# Leaf coordinates

The two loops over the big tables walk the Hilbert curve of the face: a leaf id is the
position of its coordinates, and the way back reads the coordinates off the position. Both
loops run over 32 bits of each coordinate. The two digits above the 30 in use are zero, and
the curve starts at the same corner in the same orientation after these.
-/
namespace S2Geography

open QuadrantCurves QuadrantCurve

namespace S2CellId

/-- The orientation of the curve of a face. -/
def faceOrientation (face : ℕ) : Fin 4 := ⟨face % 2, by omega⟩

theorem and_mask (x : ℕ) : x &&& ((1 <<< kLookupBits) - 1) = x % 16 :=
  Nat.and_two_pow_sub_one_eq_mod x 4

theorem and_orientation (x : ℕ) (o : Fin 4) :
    ((x <<< 2) + o.val) &&& (kSwapMask ||| kInvertMask) = o.val := by
  have h := Nat.and_two_pow_sub_one_eq_mod ((x <<< 2) + o.val) 2
  have ho := o.isLt
  rw [Nat.shiftLeft_eq] at *
  exact h.trans (by omega)

theorem add_shiftRight (x : ℕ) (o : Fin 4) : ((x <<< 2) + o.val) >>> 2 = x := by
  have ho := o.isLt
  rw [Nat.shiftLeft_eq, Nat.shiftRight_eq_div_pow]
  omega

/-! ### From coordinates to ids -/

/-- A block of four bits of the coordinates. -/
theorem getPosBits_eq (i j k : ℕ) (n : BitVec 64) (o : Fin 4) :
    getPosBits i j k (n, o) =
      (n ||| BitVec.ofNat 64 (hilbert.position o 4 (i / 2 ^ (4 * k)) (j / 2 ^ (4 * k)))
        <<< (8 * k),
      (hilbert.orient o 4 (hilbert.position o 4 (i / 2 ^ (4 * k)) (j / 2 ^ (4 * k)))).val) := by
  have hkey : o.val + (((i >>> (k * kLookupBits)) &&& ((1 <<< kLookupBits) - 1))
      <<< (kLookupBits + 2)) + (((j >>> (k * kLookupBits)) &&& ((1 <<< kLookupBits) - 1)) <<< 2) =
      (ijValue (i / 2 ^ (4 * k) % 16) (j / 2 ^ (4 * k) % 16) <<< 2) + o.val := by
    rw [and_mask, and_mask]
    simp only [ijValue, kLookupBits, Nat.shiftLeft_eq, Nat.shiftRight_eq_div_pow, Nat.mul_comm k]
    omega
  have hlook := lookup_pos o (i / 2 ^ (4 * k)) (j / 2 ^ (4 * k))
  rw [tableAt] at hlook
  simp only [getPosBits]
  rw [hkey, hlook, and_orientation, add_shiftRight]
  simp only [kLookupBits, show k * 2 * 4 = 8 * k by omega]

/-- A block below the bits already set. -/
theorem toNat_or_shiftLeft {n : BitVec 64} {x s e : ℕ} (he : e ≤ 64) (hn : 2 ^ e ∣ n.toNat)
    (hx : x * 2 ^ s < 2 ^ e) : (n ||| BitVec.ofNat 64 x <<< s).toNat = n.toNat + x * 2 ^ s := by
  have hlt : x * 2 ^ s < 2 ^ 64 := hx.trans_le (Nat.pow_le_pow_right (by omega) he)
  have hx64 : x < 2 ^ 64 := (Nat.le_mul_of_pos_right x (Nat.two_pow_pos s)).trans_lt hlt
  obtain ⟨m, hm⟩ := hn
  rw [BitVec.toNat_or, BitVec.toNat_shiftLeft, BitVec.toNat_ofNat, Nat.mod_eq_of_lt hx64,
    Nat.shiftLeft_eq, Nat.mod_eq_of_lt hlt, hm, Nat.mul_comm, ← Nat.shiftLeft_eq,
    ← Nat.shiftLeft_add_eq_or_of_lt hx]

/-- The loop from the block `m - 1` on fills in the position below the bits already set. -/
theorem foldl_getPosBits (i j m : ℕ) (hm : m ≤ 8) (n : BitVec 64) (o : Fin 4)
    (hn : 2 ^ (8 * m) ∣ n.toNat) :
    ((List.range m).reverse.foldl (fun s k => getPosBits i j k s) (n, o.val)).1.toNat =
      n.toNat + hilbert.position o (4 * m) i j := by
  induction m generalizing n o with
  | zero => simp [position]
  | succ m ih =>
    rw [List.range_succ, List.reverse_append, List.reverse_singleton, List.singleton_append,
      List.foldl_cons, getPosBits_eq]
    generalize hd : hilbert.position o 4 (i / 2 ^ (4 * m)) (j / 2 ^ (4 * m)) = d
    have hd4 : d < 2 ^ 8 := hd ▸ hilbert.position_lt o 4 _ _
    have hblock : d * 2 ^ (8 * m) < 2 ^ (8 * (m + 1)) := by
      rw [show 8 * (m + 1) = 8 + 8 * m by ring, Nat.pow_add]
      exact Nat.mul_lt_mul_of_pos_right hd4 (Nat.two_pow_pos _)
    have hn' := toNat_or_shiftLeft (by omega) hn hblock
    have hpow : 4 ^ (4 * m) = 2 ^ (8 * m) := by
      rw [show 8 * m = 2 * (4 * m) by ring, Nat.pow_mul 2 2]
    rw [ih (by omega), hn', show 4 * (m + 1) = 4 + 4 * m by ring, position_add, hd, hpow,
      Nat.add_assoc]
    · rw [hn']
      apply Nat.dvd_add _ (Nat.dvd_mul_left _ _)
      exact (Nat.pow_dvd_pow 2 (by omega)).trans hn

/-- Two zero digits leave the orientation of a face alone. -/
theorem position_thirty_two {face i j : ℕ} (hi : i < 2 ^ 30) (hj : j < 2 ^ 30) :
    hilbert.position (faceOrientation face) 32 i j =
      hilbert.position (faceOrientation face) 30 i j := by
  have hzero : ∀ o : Fin 4, o.val < 2 →
      hilbert.position o 2 0 0 = 0 ∧ hilbert.orient o 2 0 = o := by decide
  obtain ⟨hpos, horient⟩ := hzero (faceOrientation face) (Nat.mod_lt _ (by omega))
  rw [show 32 = 2 + 30 from rfl, position_add, Nat.div_eq_of_lt hi, Nat.div_eq_of_lt hj, hpos,
    horient]
  omega

theorem fromFaceIJ_toNat {face i j : ℕ} (hf : face < kNumFaces) (hi : i < 2 ^ 30)
    (hj : j < 2 ^ 30) : (fromFaceIJ face i j).toNat =
      face * 2 ^ 61 + 2 * hilbert.position (faceOrientation face) 30 i j + 1 := by
  have hlt := hilbert.position_lt (faceOrientation face) 30 i j
  have hfull := @position_thirty_two face i j hi hj
  rw [show 32 = 4 + 28 from rfl, position_add] at hfull
  have hface : (BitVec.ofNat 64 face <<< (kPosBits - 1)).toNat = face * 2 ^ 60 := by
    rw [kNumFaces] at hf
    rw [BitVec.toNat_shiftLeft, BitVec.toNat_ofNat, Nat.shiftLeft_eq, kPosBits, kMaxLevel]
    omega
  -- the first block sets the digits of the two bits of each coordinate above the other 28
  generalize hd : hilbert.position (faceOrientation face) 4 (i / 2 ^ 28) (j / 2 ^ 28) = d at *
  generalize hr : hilbert.position (hilbert.orient (faceOrientation face) 4 d) 28 i j = r at *
  have hfirst := toNat_or_shiftLeft (n := BitVec.ofNat 64 face <<< (kPosBits - 1)) (x := d)
    (s := 56) (e := 60) (by omega) (Dvd.intro_left _ hface.symm) (by omega)
  have hrun := foldl_getPosBits i j 7 (by omega) (BitVec.ofNat 64 face <<< (kPosBits - 1) |||
    BitVec.ofNat 64 d <<< 56) (hilbert.orient (faceOrientation face) 4 d) (by
      rw [hfirst, hface]
      omega)
  rw [hfirst, hface, hr] at hrun
  have hstart : face &&& kSwapMask = (faceOrientation face).val := Nat.and_one_is_mod face
  rw [fromFaceIJ, hstart, show [7, 6, 5, 4, 3, 2, 1, 0] = 7 :: (List.range 7).reverse from rfl,
    List.foldl_cons, getPosBits_eq]
  rw [kNumFaces] at hf
  rw [toNat, hd, BitVec.toNat_add, BitVec.toNat_mul, hrun]
  simp only [show (2 : BitVec 64).toNat = 2 from rfl, show (1 : BitVec 64).toNat = 1 from rfl]
  omega

/-! ### From ids to coordinates -/

/-- The sixty bits of a position that an id shows between its face and its last bit. -/
def curvePos (c : S2CellId) : ℕ := c.toNat / 2 % 4 ^ 30

theorem ijValue_shiftRight {i j : ℕ} (hj : j < 16) : ijValue i j >>> kLookupBits = i := by
  simp only [ijValue, kLookupBits, Nat.shiftLeft_eq, Nat.shiftRight_eq_div_pow]
  omega

theorem ijValue_mod {i j : ℕ} (hj : j < 16) : ijValue i j % 16 = j := by
  simp only [ijValue, kLookupBits, Nat.shiftLeft_eq]
  omega

/-- A block of eight bits of the position, of four bits for the first one. -/
theorem getIJBits_eq (c : S2CellId) {k : ℕ} (hk : k < 8) (i j : ℕ) (o : Fin 4) :
    c.getIJBits k (i, j, o.val) =
      (i + (hilbert.coords o 4 (c.curvePos / 4 ^ (4 * k))).1 * 2 ^ (4 * k),
        j + (hilbert.coords o 4 (c.curvePos / 4 ^ (4 * k))).2 * 2 ^ (4 * k),
        (hilbert.orient o 4 (c.curvePos / 4 ^ (4 * k))).val) := by
  have hkey : o.val + ((((c.id >>> (k * 2 * kLookupBits + 1)).setWidth 32).toNat &&&
      ((1 <<< (2 * if k = 7 then kMaxLevel - 7 * kLookupBits else kLookupBits)) - 1)) <<< 2) =
      ((c.curvePos / 4 ^ (4 * k) % 256) <<< 2) + o.val := by
    rw [Nat.one_shiftLeft, Nat.and_two_pow_sub_one_eq_mod, BitVec.toNat_setWidth,
      BitVec.toNat_ushiftRight, Nat.shiftRight_eq_div_pow, Nat.add_comm]
    congr 2
    simp only [curvePos, toNat, kLookupBits, kMaxLevel]
    interval_cases k <;> simp <;> omega
  have hlook := lookup_ij o (c.curvePos / 4 ^ (4 * k))
  obtain ⟨-, hj⟩ := hilbert.coords_lt o 4 (c.curvePos / 4 ^ (4 * k))
  rw [tableAt] at hlook
  simp only [getIJBits]
  rw [hkey, hlook, and_orientation, add_shiftRight, Nat.add_comm kLookupBits, Nat.shiftRight_add,
    add_shiftRight, ijValue_shiftRight hj, and_mask, ijValue_mod hj]
  simp only [kLookupBits, Nat.shiftLeft_eq, Nat.mul_comm k]

/-- The loop from the block `m - 1` on adds the lower bits of the coordinates. -/
theorem foldl_getIJBits (c : S2CellId) (m : ℕ) (hm : m ≤ 8) (i j : ℕ) (o : Fin 4) :
    (List.range m).reverse.foldl (fun s k => c.getIJBits k s) (i, j, o.val) =
      (i + (hilbert.coords o (4 * m) c.curvePos).1, j + (hilbert.coords o (4 * m) c.curvePos).2,
        (hilbert.orient o (4 * m) c.curvePos).val) := by
  induction m generalizing i j o with
  | zero => simp [coords, orient]
  | succ m ih =>
    rw [List.range_succ, List.reverse_append, List.reverse_singleton, List.singleton_append,
      List.foldl_cons, getIJBits_eq c (by omega), ih (by omega),
      show 4 * (m + 1) = 4 + 4 * m by ring, coords_add, orient_add, Nat.add_assoc, Nat.add_assoc]

theorem curvePos_lt (c : S2CellId) : c.curvePos < 4 ^ 30 := Nat.mod_lt _ (by positivity)

theorem face_eq (c : S2CellId) : c.face = c.toNat / 2 ^ 61 := by
  rw [face, BitVec.toNat_ushiftRight, Nat.shiftRight_eq_div_pow]
  rfl

/-- The way back over the tables walks the curve of the face digit by digit. -/
theorem toFaceIJOrientation_eq (c : S2CellId) : c.toFaceIJOrientation =
    ⟨c.face, (hilbert.coords (faceOrientation c.face) 30 c.curvePos).1,
      (hilbert.coords (faceOrientation c.face) 30 c.curvePos).2,
      if c.lsb &&& 0x1111111111111110#64 != 0
        then (hilbert.orient (faceOrientation c.face) 30 c.curvePos).val ^^^ kSwapMask
        else (hilbert.orient (faceOrientation c.face) 30 c.curvePos).val⟩ := by
  have hzero : ∀ o : Fin 4, o.val < 2 →
      hilbert.coords o 2 0 = (0, 0) ∧ hilbert.orient o 2 0 = o := by decide
  obtain ⟨hcoords, horient⟩ := hzero (faceOrientation c.face) (Nat.mod_lt _ (by omega))
  have hrun := foldl_getIJBits c 8 le_rfl 0 0 (faceOrientation c.face)
  rw [show 4 * 8 = 2 + 30 from rfl, coords_add, orient_add, Nat.div_eq_of_lt c.curvePos_lt, hcoords,
    horient] at hrun
  have hstart : c.face &&& kSwapMask = (faceOrientation c.face).val := Nat.and_one_is_mod _
  rw [toFaceIJOrientation, hstart, show [7, 6, 5, 4, 3, 2, 1, 0] = (List.range 8).reverse from rfl,
    hrun]
  simp

theorem toNat_leaf {c : S2CellId} (hl : c.isLeaf = true) :
    c.toNat = c.face * 2 ^ 61 + 2 * c.curvePos + 1 := by
  have hodd := (isLeaf_iff_toNat c).mp hl
  rw [face_eq, curvePos]
  omega

theorem face_lt_of_isValid {c : S2CellId} (hc : c.isValid = true) : c.face < kNumFaces := by
  simp only [isValid, Bool.and_eq_true, decide_eq_true_eq] at hc
  exact hc.1

/-- An odd number on one of the faces is a leaf. -/
theorem isValid_of_odd {c : S2CellId} (hodd : c.toNat % 2 = 1) (hlt : c.toNat < 6 * 2 ^ 61) :
    c.isValid = true ∧ c.isLeaf = true := by
  have hl := (isLeaf_iff_toNat c).mpr hodd
  have hne : c ≠ none := by
    intro h
    rw [h] at hodd
    exact absurd hodd (by decide)
  have hheight := (isLeaf_iff hne).mp hl
  have hhi : c.cell.hi = c.toNat := by
    rw [toNat_eq hne, DyadicCells.DyadicCell.hi_eq, DyadicCells.DyadicCell.size, hheight]
    rfl
  exact ⟨isValid_iff_validCell.mpr ⟨hne, by rw [hheight], by rw [hheight]; omega, by omega⟩, hl⟩

/-- The coordinates of a leaf are found again from its id. -/
theorem toFaceIJOrientation_fromFaceIJ {face i j : ℕ} (hf : face < kNumFaces) (hi : i < 2 ^ 30)
    (hj : j < 2 ^ 30) :
    (fromFaceIJ face i j).isValid = true ∧ (fromFaceIJ face i j).isLeaf = true ∧
      (fromFaceIJ face i j).face = face ∧
      (fromFaceIJ face i j).toFaceIJOrientation.i = i ∧
      (fromFaceIJ face i j).toFaceIJOrientation.j = j := by
  have hnat := fromFaceIJ_toNat hf hi hj
  have hlt := hilbert.position_lt (faceOrientation face) 30 i j
  rw [kNumFaces] at hf
  have hface : (fromFaceIJ face i j).face = face := by
    rw [face_eq]
    omega
  have hpos : (fromFaceIJ face i j).curvePos =
      hilbert.position (faceOrientation face) 30 i j := by
    rw [curvePos]
    omega
  obtain ⟨hvalid, hleaf⟩ := isValid_of_odd (c := fromFaceIJ face i j) (by omega) (by omega)
  rw [toFaceIJOrientation_eq, hface, hpos, coords_position, Nat.mod_eq_of_lt hi,
    Nat.mod_eq_of_lt hj]
  exact ⟨hvalid, hleaf, rfl, rfl, rfl⟩

theorem toFaceIJOrientation_lt (c : S2CellId) :
    c.toFaceIJOrientation.i < 2 ^ 30 ∧ c.toFaceIJOrientation.j < 2 ^ 30 := by
  rw [toFaceIJOrientation_eq]
  exact hilbert.coords_lt _ 30 _

/-- A leaf id is found again from its coordinates. -/
theorem fromFaceIJ_toFaceIJOrientation {c : S2CellId} (hc : c.isValid = true)
    (hl : c.isLeaf = true) : fromFaceIJ c.face c.toFaceIJOrientation.i c.toFaceIJOrientation.j
      = c := by
  obtain ⟨hi, hj⟩ := c.toFaceIJOrientation_lt
  apply toNat_injective
  rw [fromFaceIJ_toNat (face_lt_of_isValid hc) hi hj, toFaceIJOrientation_eq, position_coords,
    Nat.mod_eq_of_lt c.curvePos_lt, ← toNat_leaf hl]

/-- The loops over the tables agree with the curve that goes digit by digit, both ways. -/
theorem tables_walk_curve :
    (∀ face i j : ℕ, face < kNumFaces → i < 2 ^ 30 → j < 2 ^ 30 →
      (fromFaceIJ face i j).toNat =
        face * 2 ^ 61 + 2 * hilbert.position (faceOrientation face) 30 i j + 1) ∧
    ∀ c : S2CellId, c.toFaceIJOrientation.face = c.face ∧
      (c.toFaceIJOrientation.i, c.toFaceIJOrientation.j) =
        hilbert.coords (faceOrientation c.face) 30 c.curvePos := by
  constructor
  · intro face i j hf hi hj
    exact fromFaceIJ_toNat hf hi hj
  · intro c
    rw [toFaceIJOrientation_eq]
    exact ⟨rfl, rfl⟩

/-- Faces with two coordinates of 30 bits. -/
def LeafCoords : Set (ℕ × ℕ × ℕ) := {p | p.1 < kNumFaces ∧ p.2.1 < 2 ^ 30 ∧ p.2.2 < 2 ^ 30}

def leafOf (p : ℕ × ℕ × ℕ) : S2CellId := fromFaceIJ p.1 p.2.1 p.2.2

def coordsOf (c : S2CellId) : ℕ × ℕ × ℕ :=
  (c.toFaceIJOrientation.face, c.toFaceIJOrientation.i, c.toFaceIJOrientation.j)

/-- Every leaf has its own coordinates, and the two functions are inverse to each other. -/
theorem leafOf_bijOn :
    Set.BijOn leafOf LeafCoords {c | c.isValid = true ∧ c.isLeaf = true} ∧
      Set.InvOn coordsOf leafOf LeafCoords {c | c.isValid = true ∧ c.isLeaf = true} := by
  have hface : ∀ c : S2CellId, c.toFaceIJOrientation.face = c.face := by
    intro c
    rw [toFaceIJOrientation_eq]
  have hmaps : Set.MapsTo leafOf LeafCoords {c | c.isValid = true ∧ c.isLeaf = true} := by
    intro p hp
    obtain ⟨hf, hi, hj⟩ := hp
    obtain ⟨hvalid, hleaf, -⟩ := toFaceIJOrientation_fromFaceIJ hf hi hj
    exact ⟨hvalid, hleaf⟩
  have hback : Set.MapsTo coordsOf {c | c.isValid = true ∧ c.isLeaf = true} LeafCoords := by
    intro c hc
    obtain ⟨hi, hj⟩ := c.toFaceIJOrientation_lt
    have hf := face_lt_of_isValid hc.1
    rw [← hface c] at hf
    exact ⟨hf, hi, hj⟩
  have hinv : Set.InvOn coordsOf leafOf LeafCoords {c | c.isValid = true ∧ c.isLeaf = true} := by
    constructor
    · intro p hp
      obtain ⟨hf, hi, hj⟩ := hp
      obtain ⟨-, -, hfaceEq, hiEq, hjEq⟩ := toFaceIJOrientation_fromFaceIJ hf hi hj
      rw [coordsOf, leafOf, hface, hfaceEq, hiEq, hjEq]
    · intro c hc
      obtain ⟨hvalid, hleaf⟩ := hc
      rw [leafOf, coordsOf, hface]
      exact fromFaceIJ_toFaceIJOrientation hvalid hleaf
  exact ⟨hinv.bijOn hmaps hback, hinv⟩

end S2CellId

end S2Geography
