import S2Geography.CellLevels
import S2Geography.QuadrantCurves
import Mathlib.Data.Fin.VecNotation

/-!
# The Hilbert curve of cell ids

`FromFaceIJ`, `ToFaceIJOrientation` and `GetCenterSiTi` of `s2cell_id.cc`. Four bits of both
coordinates are translated at once by two tables, which `InitLookupCell` fills from the
tables of a single bit. What the big tables hold are blocks of four digits of the curve.
-/
namespace S2Geography

open QuadrantCurves QuadrantCurve

def kSwapMask : ℕ := 1
def kInvertMask : ℕ := 2

/-- `kIJtoPos[orientation][ij]`. -/
def kIJtoPos : Fin 4 → Fin 4 → Fin 4 :=
  ![![0, 1, 3, 2], ![0, 3, 1, 2], ![2, 3, 1, 0], ![2, 1, 3, 0]]

/-- `kPosToIJ[orientation][pos]`. -/
def kPosToIJ : Fin 4 → Fin 4 → Fin 4 :=
  ![![0, 1, 3, 2], ![0, 2, 3, 1], ![3, 2, 0, 1], ![3, 1, 0, 2]]

def kPosToOrientation : Fin 4 → Fin 4 := ![1, 0, 0, 3]

/-- The curve of a face: the tables for one bit of each coordinate. -/
def hilbert : QuadrantCurve (Fin 4) where
  toIJ := kPosToIJ
  toPos := kIJtoPos
  turn orientation pos := orientation ^^^ kPosToOrientation pos
  toIJ_toPos := by decide
  toPos_toIJ := by decide

/-- The curve enters a square at a corner and leaves it at a neighbouring one. -/
def hilbertLinked : hilbert.Linked where
  start := ![0, 0, 3, 3]
  stop := ![2, 1, 1, 2]
  start_eq := by decide
  start_turn := by decide
  stop_eq := by decide
  stop_turn := by decide
  linkI := by decide
  linkJ := by decide
  link := by decide

/-- The positions of a square in the order of the curve. -/
def positions : List (Fin 4) := [0, 1, 2, 3]

/-- The orientation that is kept as a number. -/
def orientationOf (bits : ℕ) : Fin 4 := Fin.ofNat 4 bits

theorem orientationOf_val (o : Fin 4) : orientationOf o.val = o := by
  revert o
  decide

/-! ### The tables -/

def kLookupBits : ℕ := 4

/-- `lookup_pos` and `lookup_ij`. -/
structure LookupTables where
  pos : Array ℕ
  ij : Array ℕ

/-- `InitLookupCell` with `kLookupBits - level` levels left. -/
def initLookupCell : ℕ → ℕ → ℕ → Fin 4 → ℕ → Fin 4 → LookupTables → LookupTables
  | 0, i, j, origOrientation, pos, orientation, t =>
    let ij := (i <<< kLookupBits) + j
    ⟨t.pos.setIfInBounds ((ij <<< 2) + origOrientation) ((pos <<< 2) + orientation),
      t.ij.setIfInBounds ((pos <<< 2) + origOrientation) ((ij <<< 2) + orientation)⟩
  | left + 1, i, j, origOrientation, pos, orientation, t =>
    positions.foldl (fun t k =>
      let r := (kPosToIJ orientation k).val
      initLookupCell left ((i <<< 1) + (r >>> 1)) ((j <<< 1) + (r &&& 1)) origOrientation
        ((pos <<< 2) + k) (orientation ^^^ kPosToOrientation k) t) t

/-- `MaybeInit`. -/
def lookup : LookupTables :=
  let size := 1 <<< (2 * kLookupBits + 2)
  let t := ⟨Array.replicate size 0, Array.replicate size 0⟩
  let t := initLookupCell kLookupBits 0 0 0 0 0 t
  let t := initLookupCell kLookupBits 0 0 1 0 1 t
  let t := initLookupCell kLookupBits 0 0 2 0 2 t
  initLookupCell kLookupBits 0 0 3 0 3 t

namespace S2CellId

/-- `GET_BITS` of `FromFaceIJ`. -/
def getPosBits (i j k : ℕ) (s : BitVec 64 × ℕ) : BitVec 64 × ℕ :=
  let mask := (1 <<< kLookupBits) - 1
  let bits := s.2 + (((i >>> (k * kLookupBits)) &&& mask) <<< (kLookupBits + 2))
    + (((j >>> (k * kLookupBits)) &&& mask) <<< 2)
  let bits := lookup.pos.getD bits 0
  (s.1 ||| BitVec.ofNat 64 (bits >>> 2) <<< (k * 2 * kLookupBits),
    bits &&& (kSwapMask ||| kInvertMask))

def fromFaceIJ (face i j : ℕ) : S2CellId :=
  let start := (BitVec.ofNat 64 face <<< (kPosBits - 1), face &&& kSwapMask)
  let s := [7, 6, 5, 4, 3, 2, 1, 0].foldl (fun s k => getPosBits i j k s) start
  ⟨s.1 * 2 + 1⟩

structure FaceIJOrientation where
  face : ℕ
  i : ℕ
  j : ℕ
  orientation : ℕ
  deriving DecidableEq, Repr

/-- `GET_BITS` of `ToFaceIJOrientation`, on `i`, `j` and the bits. -/
def getIJBits (c : S2CellId) (k : ℕ) (s : ℕ × ℕ × ℕ) : ℕ × ℕ × ℕ :=
  let nbits := if k = 7 then kMaxLevel - 7 * kLookupBits else kLookupBits
  let bits := s.2.2 +
    ((((c.id >>> (k * 2 * kLookupBits + 1)).setWidth 32).toNat &&& ((1 <<< (2 * nbits)) - 1)) <<< 2)
  let bits := lookup.ij.getD bits 0
  (s.1 + ((bits >>> (kLookupBits + 2)) <<< (k * kLookupBits)),
    s.2.1 + (((bits >>> 2) &&& ((1 <<< kLookupBits) - 1)) <<< (k * kLookupBits)),
    bits &&& (kSwapMask ||| kInvertMask))

def toFaceIJOrientation (c : S2CellId) : FaceIJOrientation :=
  let s := [7, 6, 5, 4, 3, 2, 1, 0].foldl (fun s k => getIJBits c k s)
    (0, 0, c.face &&& kSwapMask)
  ⟨c.face, s.1, s.2.1,
    if c.lsb &&& 0x1111111111111110#64 != 0 then s.2.2 ^^^ kSwapMask else s.2.2⟩

/-- `GetCenterSiTi`. -/
def getCenterSiTi (c : S2CellId) : ℕ × ℕ × ℕ :=
  let f := c.toFaceIJOrientation
  let delta := if c.isLeaf then 1
    else if (BitVec.ofNat 32 f.i ^^^ (c.id.setWidth 32).sshiftRight 2) &&& 1#32 != 0 then 2
    else 0
  (f.face, 2 * f.i + delta, 2 * f.j + delta)

end S2CellId

/-! ### What the tables hold -/

/-- The entry of a table under a value and an orientation. -/
def tableAt (a : Array ℕ) (key : ℕ) (o : Fin 4) : ℕ := a.getD ((key <<< 2) + o) 0

def ijValue (i j : ℕ) : ℕ := (i <<< kLookupBits) + j

theorem key_injective {x y : ℕ} {o o' : Fin 4} (h : (x <<< 2) + o.val = (y <<< 2) + o'.val) :
    x = y ∧ o = o' := by
  have ho := o.isLt
  have ho' := o'.isLt
  simp only [Nat.shiftLeft_eq] at h
  exact ⟨by omega, Fin.ext (by omega)⟩

theorem ijValue_injective {i j i' j' : ℕ} (hj : j < 16) (hj' : j' < 16)
    (h : ijValue i j = ijValue i' j') : i = i' ∧ j = j' := by
  simp only [ijValue, kLookupBits, Nat.shiftLeft_eq] at h
  omega

theorem key_lt {x : ℕ} (o : Fin 4) (hx : x < 256) : (x <<< 2) + o.val < 1024 := by
  have ho := o.isLt
  simp only [Nat.shiftLeft_eq]
  omega

theorem ijValue_lt {i j : ℕ} (hi : i < 16) (hj : j < 16) : ijValue i j < 256 := by
  simp only [ijValue, kLookupBits, Nat.shiftLeft_eq]
  omega

theorem tableAt_set {a : Array ℕ} {x y v : ℕ} {o o' : Fin 4} (ha : a.size = 1024)
    (hx : x < 256) :
    tableAt (a.setIfInBounds ((x <<< 2) + o) v) y o' =
      if x = y ∧ o = o' then v else tableAt a y o' := by
  have hk := key_lt o hx
  simp only [tableAt, Array.getD_eq_getD_getElem?, Array.getElem?_setIfInBounds]
  by_cases h : x = y ∧ o = o'
  · obtain ⟨rfl, rfl⟩ := h
    simp [ha, hk]
  · rw [if_neg h, if_neg fun heq => h (key_injective heq)]

/-- Tables of the right size, with entries for the positions `S` in a square of each
orientation. -/
structure Entered (t : LookupTables) (S : Fin 4 → ℕ → Prop) : Prop where
  posSize : t.pos.size = 1024
  ijSize : t.ij.size = 1024
  ij : ∀ o p, p < 256 → S o p → tableAt t.ij p o =
    (ijValue (hilbert.coords o 4 p).1 (hilbert.coords o 4 p).2 <<< 2) + hilbert.orient o 4 p
  pos : ∀ o p, p < 256 → S o p →
    tableAt t.pos (ijValue (hilbert.coords o 4 p).1 (hilbert.coords o 4 p).2) o =
      (p <<< 2) + hilbert.orient o 4 p

theorem Entered.mono {t : LookupTables} {S S' : Fin 4 → ℕ → Prop} (h : Entered t S)
    (hS : ∀ o p, S' o p → S o p) : Entered t S' :=
  ⟨h.posSize, h.ijSize, fun o p hp hs => h.ij o p hp (hS o p hs),
    fun o p hp hs => h.pos o p hp (hS o p hs)⟩

/-- A write to both tables enters its position and keeps the other ones: a key of either
table belongs to one position only. -/
theorem Entered.write {t : LookupTables} {S : Fin 4 → ℕ → Prop} (h : Entered t S) (o : Fin 4)
    {p : ℕ} (hp : p < 256) :
    Entered (initLookupCell 0 (hilbert.coords o 4 p).1 (hilbert.coords o 4 p).2 o p
      (hilbert.orient o 4 p) t) fun o' p' => (o' = o ∧ p' = p) ∨ S o' p' := by
  obtain ⟨hi, hj⟩ := hilbert.coords_lt o 4 p
  refine ⟨by simp [initLookupCell, h.posSize], by simp [initLookupCell, h.ijSize], ?_, ?_⟩
  · intro o' p' hp' hs
    rw [initLookupCell, tableAt_set h.ijSize hp]
    split_ifs with heq
    · obtain ⟨rfl, rfl⟩ := heq
      rfl
    · exact h.ij o' p' hp' (hs.resolve_left fun hs => heq ⟨hs.2.symm, hs.1.symm⟩)
  · intro o' p' hp' hs
    obtain ⟨-, hj'⟩ := hilbert.coords_lt o' 4 p'
    have hlt := ijValue_lt hi hj
    rw [initLookupCell, ← ijValue, tableAt_set h.posSize hlt]
    split_ifs with heq
    · obtain ⟨hij, rfl⟩ := heq
      -- equal squares have equal positions
      obtain ⟨h1, h2⟩ := ijValue_injective hj hj' hij
      have hpos := hilbert.position_coords o 4 p'
      rw [← h1, ← h2, position_coords, Nat.mod_eq_of_lt (b := 4 ^ 4) hp,
        Nat.mod_eq_of_lt (b := 4 ^ 4) hp'] at hpos
      rw [hpos]
    · refine h.pos o' p' hp' (hs.resolve_left fun hs => heq ?_)
      rw [hs.1, hs.2]
      exact ⟨rfl, rfl⟩

/-- The recursion enters all positions of its square. -/
theorem Entered.initLookupCell {o : Fin 4} (left : ℕ) {t : LookupTables} {S : Fin 4 → ℕ → Prop}
    (h : Entered t S) (m pos : ℕ) (hm : m + left = 4) (hpos : pos < 4 ^ m) :
    Entered (S2Geography.initLookupCell left (hilbert.coords o m pos).1
      (hilbert.coords o m pos).2 o pos (hilbert.orient o m pos) t)
      fun o' p => (o' = o ∧ p / 4 ^ left = pos) ∨ S o' p := by
  induction left generalizing t S m pos with
  | zero =>
    obtain rfl : m = 4 := by omega
    simpa using h.write o hpos
  | succ left ih =>
    -- a turn of the loop is the call for one quadrant
    have hstep : ∀ (t : LookupTables) (S : Fin 4 → ℕ → Prop) (k : Fin 4), Entered t S →
        Entered (S2Geography.initLookupCell left
          (((hilbert.coords o m pos).1 <<< 1) + ((kPosToIJ (hilbert.orient o m pos) k).val >>> 1))
          (((hilbert.coords o m pos).2 <<< 1) + ((kPosToIJ (hilbert.orient o m pos) k).val &&& 1))
          o ((pos <<< 2) + k) (hilbert.orient o m pos ^^^ kPosToOrientation k) t)
          fun o' p => (o' = o ∧ p / 4 ^ left = (pos <<< 2) + k) ∨ S o' p := by
      intro t S k ht
      have hk := k.isLt
      have hsub : pos * 4 + k.val < 4 ^ (m + 1) := by
        rw [Nat.pow_succ]
        omega
      have hrun := ih ht (m + 1) (pos * 4 + k) (by omega) hsub
      rw [coords_succ, orient_succ] at hrun
      simp only [Nat.shiftLeft_eq, Nat.shiftRight_eq_div_pow, Nat.and_one_is_mod]
      exact hrun
    simp only [S2Geography.initLookupCell, positions, List.foldl_cons, List.foldl_nil]
    refine (hstep _ _ 3 (hstep _ _ 2 (hstep _ _ 1 (hstep _ _ 0 h)))).mono ?_
    intro o' p hs
    rcases hs with ⟨ho, hp⟩ | hs
    · have hsplit : p / 4 ^ left / 4 = pos := by
        rw [Nat.div_div_eq_div_mul, ← Nat.pow_succ, hp]
      simp only [ho, true_and, Nat.shiftLeft_eq, Fin.isValue, Fin.val_zero, Fin.val_one,
        Fin.val_two, show (3 : Fin 4).val = 3 from rfl, ← or_assoc]
      left
      omega
    · simp [hs]

theorem entered_empty {n : ℕ} (hn : n = 1024) :
    Entered ⟨Array.replicate n 0, Array.replicate n 0⟩ fun _ _ => False :=
  ⟨by simp [hn], by simp [hn], fun _ _ _ => False.elim, fun _ _ _ => False.elim⟩

theorem Entered.initLookup {t : LookupTables} {S : Fin 4 → ℕ → Prop} (h : Entered t S)
    (o : Fin 4) : Entered (S2Geography.initLookupCell kLookupBits 0 0 o 0 o t)
      fun o' p => o' = o ∨ S o' p := by
  have hrun := h.initLookupCell (o := o) kLookupBits 0 0 rfl (by omega)
  rw [coords, orient] at hrun
  refine ⟨hrun.posSize, hrun.ijSize, ?_, ?_⟩
  · intro o' p hp hs
    apply hrun.ij o' p hp
    rw [Nat.div_eq_of_lt (b := 4 ^ kLookupBits) hp]
    simpa using hs
  · intro o' p hp hs
    apply hrun.pos o' p hp
    rw [Nat.div_eq_of_lt (b := 4 ^ kLookupBits) hp]
    simpa using hs

/-- The tables hold blocks of four digits of the curve. -/
theorem entered_lookup : Entered lookup fun _ _ => True := by
  have hempty := entered_empty (n := 1 <<< (2 * kLookupBits + 2)) rfl
  have hrun := (((hempty.initLookup 0).initLookup 1).initLookup 2).initLookup 3
  apply hrun.mono
  intro o p hp
  revert o
  decide

theorem lookup_ij (o : Fin 4) (p : ℕ) : tableAt lookup.ij (p % 256) o =
    (ijValue (hilbert.coords o 4 p).1 (hilbert.coords o 4 p).2 <<< 2) + hilbert.orient o 4 p := by
  have h := entered_lookup.ij o (p % 256) (Nat.mod_lt _ (by omega)) trivial
  rw [← hilbert.coords_mod, ← hilbert.orient_mod]
  exact h

theorem lookup_pos (o : Fin 4) (i j : ℕ) : tableAt lookup.pos (ijValue (i % 16) (j % 16)) o =
    (hilbert.position o 4 i j <<< 2) + hilbert.orient o 4 (hilbert.position o 4 i j) := by
  have h := entered_lookup.pos o _ (hilbert.position_lt o 4 i j) trivial
  rw [coords_position] at h
  exact h

end S2Geography
