import S2Geography.CellHierarchy
import S2Geography.CheckedRun
import S2Geography.GeographyOperator
import Mathlib.Data.List.Sort

/-!
# Cell unions

`S2CellUnion` of `s2cell_union.cc` and the operators of `s2-cell-union.cpp` that R
calls. A union is a vector of ids that its constructor normalises. Iterators into a
vector are the ids from their position on.
-/
namespace S2Geography

/-- The four cells, which must be distinct, have a common parent. -/
def areSiblings (a b c d : S2CellId) : Bool :=
  if a.id ^^^ b.id ^^^ c.id != d.id then false
  else
    let mask := d.lsb <<< 1
    let mask := ~~~(mask + mask <<< 1)
    let idMasked := d.id &&& mask
    a.id &&& mask == idMasked && b.id &&& mask == idMasked && c.id &&& mask == idMasked &&
      !d.isFace

structure S2CellUnion where
  cellIds : List S2CellId
  deriving DecidableEq, Repr

namespace S2CellUnion

/-- The last loop of a turn of `Normalize` and the write after it. The output so far is
a stack with its last id first; it never overtakes the ids still to be read. -/
def collapse : List S2CellId → S2CellId → List S2CellId
  | c :: b :: a :: out, id =>
    if areSiblings a b c id then collapse out id.parent else id :: c :: b :: a :: out
  | out, id => id :: out

/-- One turn of the loop of `Normalize`. -/
def normalizeStep (out : List S2CellId) (id : S2CellId) : List S2CellId :=
  if (out.head?.any fun last => last.contains id) then out
  else collapse (out.dropWhile id.contains) id

def normalizeIds (ids : List S2CellId) : List S2CellId :=
  ((ids.mergeSort fun a b => a ≤ b).foldl normalizeStep []).reverse

def normalize (u : S2CellUnion) : S2CellUnion := ⟨normalizeIds u.cellIds⟩

/-- The constructor from a vector of ids. -/
def ofCellIds (cellIds : List S2CellId) : S2CellUnion := normalize ⟨cellIds⟩

def entirelyPrecedes (a b : S2CellId) : Bool := decide (a.rangeMax < b.rangeMin)

/-- `std::lower_bound` with `EntirelyPrecedes`. -/
def lowerBound (cells : List S2CellId) (id : S2CellId) : List S2CellId :=
  cells.dropWhile fun cell => entirelyPrecedes cell id

def containsId (u : S2CellUnion) (id : S2CellId) : Bool :=
  match lowerBound u.cellIds id with
  | [] => false
  | i :: _ => i.contains id

def intersectsId (u : S2CellUnion) (id : S2CellId) : Bool :=
  match lowerBound u.cellIds id with
  | [] => false
  | i :: _ => i.intersects id

/-- The loop of `Contains(const S2CellUnion&)`, from the iterator `i` on. -/
def containsFrom : List S2CellId → List S2CellId → Bool
  | _, [] => true
  | [], _ :: _ => false
  | i :: rest, id :: ids =>
    match (if entirelyPrecedes i id then lowerBound rest id else i :: rest) with
    | [] => false
    | j :: rest => if j.contains id then containsFrom (j :: rest) ids else false

def contains (x y : S2CellUnion) : Bool :=
  if y.cellIds.isEmpty then true
  else if x.cellIds.isEmpty then false
  else containsFrom x.cellIds y.cellIds

theorem length_lowerBound_le (cells : List S2CellId) (id : S2CellId) :
    (lowerBound cells id).length ≤ cells.length :=
  (List.dropWhile_sublist _).length_le

/-- The loop of `Intersects(const S2CellUnion&)`. -/
def intersectsFrom : List S2CellId → List S2CellId → Bool
  | i :: is, j :: js =>
    if entirelyPrecedes i j then intersectsFrom (lowerBound is j) (j :: js)
    else if entirelyPrecedes j i then intersectsFrom (i :: is) (lowerBound js i)
    else true
  | _, _ => false
termination_by is js => is.length + js.length
decreasing_by
  · have h := length_lowerBound_le is j
    simp only [List.length_cons]
    omega
  · have h := length_lowerBound_le js i
    simp only [List.length_cons]
    omega

def intersects (x y : S2CellUnion) : Bool := intersectsFrom x.cellIds y.cellIds

def union (x y : S2CellUnion) : S2CellUnion := ofCellIds (x.cellIds ++ y.cellIds)

def getIntersection : List S2CellId → List S2CellId → List S2CellId
  | i :: is, j :: js =>
    let imin := i.rangeMin
    let jmin := j.rangeMin
    if imin > jmin then
      if i ≤ j.rangeMax then i :: getIntersection is (j :: js)
      else getIntersection (i :: is) (lowerBound js i)
    else if jmin > imin then
      if j ≤ i.rangeMax then j :: getIntersection (i :: is) js
      else getIntersection (lowerBound is j) (j :: js)
    else if i < j then i :: getIntersection is (j :: js)
    else j :: getIntersection (i :: is) js
  | _, _ => []
termination_by is js => is.length + js.length
decreasing_by
  · simp
  · have h := length_lowerBound_le js i
    simp only [List.length_cons]
    omega
  · simp
  · have h := length_lowerBound_le is j
    simp only [List.length_cons]
    omega
  · simp
  · simp

def intersection (x y : S2CellUnion) : S2CellUnion := ⟨getIntersection x.cellIds y.cellIds⟩

/-- `GetDifferenceInternal`, as what it appends, if its recursion gets by with `depth`
nested calls. -/
def getDifferenceInternal (y : S2CellUnion) : ℕ → S2CellId → Option (List S2CellId)
  | 0, _ => none
  | depth + 1, cell =>
    if !y.intersectsId cell then some [cell]
    else if !y.containsId cell then do
      let child := cell.childBegin
      let out0 ← getDifferenceInternal y depth child
      let child := child.next
      let out1 ← getDifferenceInternal y depth child
      let child := child.next
      let out2 ← getDifferenceInternal y depth child
      let child := child.next
      let out3 ← getDifferenceInternal y depth child
      some (out0 ++ out1 ++ out2 ++ out3)
    else some []

def difference (depth : ℕ) (x y : S2CellUnion) : Option S2CellUnion := do
  let outs ← x.cellIds.mapM (getDifferenceInternal y depth)
  some ⟨outs.flatten⟩

end S2CellUnion

/-! ### The operators called from R -/

open S2CellUnion

/-- An element of a list of cell unions: `NULL` or a vector of ids. -/
abbrev CellUnionItem := Option (List S2CellId)

def cellUnionFromCellIdVector (cellIds : List S2CellId) : S2CellUnion := ofCellIds cellIds

def cellIdVectorFromCellUnion (cellUnion : S2CellUnion) : List S2CellId := cellUnion.cellIds

/-- `UnaryS2CellUnionOperator::processVector`. -/
def processUnaryVector {α : Type} (processCell : S2CellUnion → ℕ → Except Fault α) (na : α)
    (cellUnionVector : List CellUnionItem) : Except Fault (List α) :=
  cellUnionVector.zipIdx.mapM fun row =>
    match row with
    | (none, _) => .ok na
    | (some cellIds, i) => processCell (cellUnionFromCellIdVector cellIds) i

theorem processUnaryVector_eq {α : Type} {processCell : S2CellUnion → ℕ → Except Fault α} {na : α}
    {v : List CellUnionItem} (value : S2CellUnion → ℕ → α)
    (h : ∀ (i : ℕ) (cellIds : List S2CellId), v[i]? = some (some cellIds) →
      processCell (cellUnionFromCellIdVector cellIds) i =
        .ok (value (cellUnionFromCellIdVector cellIds) i)) :
    processUnaryVector processCell na v = .ok (v.mapIdx fun i item =>
      item.elim na fun cellIds => value (cellUnionFromCellIdVector cellIds) i) := by
  have hrow : ∀ row ∈ v.zipIdx, (match row with
      | (none, _) => .ok na
      | (some cellIds, i) => processCell (cellUnionFromCellIdVector cellIds) i) =
        (pure (row.1.elim na fun cellIds =>
          value (cellUnionFromCellIdVector cellIds) row.2) : Except Fault α) := by
    rintro ⟨item, i⟩ hrow
    rw [List.mk_mem_zipIdx_iff_getElem?] at hrow
    cases item with
    | none => rfl
    | some cellIds => exact h i cellIds hrow
  rw [processUnaryVector, CheckedRun.mapM_eq_pure v.zipIdx hrow, List.mapIdx_eq_zipIdx_map]
  rfl

/-- A row of a binary operator. -/
def processPair {α : Type} (processCell : S2CellUnion → S2CellUnion → α) (na : α) :
    CellUnionItem → CellUnionItem → α
  | some item1, some item2 =>
    processCell (cellUnionFromCellIdVector item1) (cellUnionFromCellIdVector item2)
  | _, _ => na

/-- `BinaryS2CellUnionOperator::processVector`. -/
def processBinaryVector {α : Type} (processCell : S2CellUnion → S2CellUnion → α) (na : α)
    (cellUnionVector1 cellUnionVector2 : List CellUnionItem) : Except Fault (List α) :=
  if cellUnionVector1.length = cellUnionVector2.length then
    .ok (List.zipWith (processPair processCell na) cellUnionVector1 cellUnionVector2)
  else
    match cellUnionVector1, cellUnionVector2 with
    | [item1], _ => .ok (cellUnionVector2.map fun item2 => processPair processCell na item1 item2)
    | _, [item2] => .ok (cellUnionVector1.map fun item1 => processPair processCell na item1 item2)
    | _, _ => .error (.stop ("Can't recycle vectors of size " ++
        toString cellUnionVector1.length ++ " and " ++ toString cellUnionVector2.length ++
        " to a common length."))

def cppS2CellUnionNormalize (cellUnionVector : List CellUnionItem) :
    Except Fault (List CellUnionItem) :=
  processUnaryVector (fun cellUnion _ => .ok (some (cellIdVectorFromCellUnion cellUnion.normalize)))
    none cellUnionVector

def cppS2CellUnionContains (cellUnionVector1 cellUnionVector2 : List CellUnionItem) :
    Except Fault (List (Option Bool)) :=
  processBinaryVector (fun x y => some (x.contains y)) none cellUnionVector1 cellUnionVector2

/-- `R_IsNA` on the bits of a double. -/
def rIsNA (id : S2CellId) : Bool :=
  (id.id >>> 52 &&& 0x7FF#64) == 0x7FF#64 && (id.id &&& 0xFFFFFFFFFFFFF#64) != 0 &&
    (id.id &&& 0xFFFFFFFF#64) == 1954

def cppS2CellUnionContainsCell (cellUnionVector : List CellUnionItem)
    (cellIdVector : List S2CellId) : Except Fault (List (Option Bool)) :=
  processUnaryVector (fun cellUnion i =>
    match cellIdVector[i % cellIdVector.length]? with
    | none => .error .outOfBounds
    | some cellId => .ok (if rIsNA cellId then none else some (cellUnion.containsId cellId)))
    none cellUnionVector

def cppS2CellUnionIntersects (cellUnionVector1 cellUnionVector2 : List CellUnionItem) :
    Except Fault (List (Option Bool)) :=
  processBinaryVector (fun x y => some (x.intersects y)) none cellUnionVector1 cellUnionVector2

def cppS2CellUnionIntersection (cellUnionVector1 cellUnionVector2 : List CellUnionItem) :
    Except Fault (List CellUnionItem) :=
  processBinaryVector (fun x y => some (cellIdVectorFromCellUnion (x.intersection y))) none
    cellUnionVector1 cellUnionVector2

def cppS2CellUnionUnion (cellUnionVector1 cellUnionVector2 : List CellUnionItem) :
    Except Fault (List CellUnionItem) :=
  processBinaryVector (fun x y => some (cellIdVectorFromCellUnion (x.union y))) none
    cellUnionVector1 cellUnionVector2

/-- What the call returns if no recursion nests more than `depth` calls. -/
def cppS2CellUnionDifference (depth : ℕ) (cellUnionVector1 cellUnionVector2 : List CellUnionItem) :
    Option (Except Fault (List CellUnionItem)) :=
  match processBinaryVector (fun x y =>
      (x.difference depth y).map fun out => some (cellIdVectorFromCellUnion out)) (some none)
      cellUnionVector1 cellUnionVector2 with
  | .error fault => some (.error fault)
  | .ok rows => (rows.mapM id).map .ok

end S2Geography
