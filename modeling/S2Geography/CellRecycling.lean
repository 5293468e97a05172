import S2Geography.CellOrder
import S2Geography.Recycling

/-!
# Recycling in the operators on cells

The binary operators on cells and on cell unions recycle their arguments themselves, in three
loops each: for equal lengths, and for one argument or the other of length one. Written out
over checked reads, they return what the operation returns row by row on the vectors that
`recycle_common` makes of the arguments, and fail where `recycle_common` does.
-/
namespace S2Geography

open Recycling S2CellUnion

variable {α β γ δ : Type}

/-! ### Loops -/

def readAt (xs : List β) (i : ℕ) : Except Fault β :=
  match xs[i]? with
  | some x => .ok x
  | none => .error .outOfBounds

/-- The loop over the rows of the output, which reads both sides. -/
def forRows (n : ℕ) (read1 read2 : ℕ → Except Fault β) (row : β → β → ℕ → γ) :
    Except Fault (List γ) :=
  (List.range n).mapM fun i => do
    let x ← read1 i
    let y ← read2 i
    return row x y i

def recyclingError (size1 size2 : ℕ) : Fault :=
  .stop ("Can't recycle vectors of size " ++ toString size1 ++ " and " ++ toString size2 ++
    " to a common length.")

/-- `BinaryS2CellOperator::processVector`. -/
def BinaryS2CellOperator.processVector (processCell : S2CellId → S2CellId → ℕ → α)
    (cellIdVector1 cellIdVector2 : List S2CellId) : Except Fault (List α) :=
  if cellIdVector1.length = cellIdVector2.length then
    forRows cellIdVector1.length (readAt cellIdVector1) (readAt cellIdVector2) processCell
  else if cellIdVector1.length = 1 then
    forRows cellIdVector2.length (fun _ => readAt cellIdVector1 0) (readAt cellIdVector2)
      processCell
  else if cellIdVector2.length = 1 then
    forRows cellIdVector1.length (readAt cellIdVector1) (fun _ => readAt cellIdVector2 0)
      processCell
  else .error (recyclingError cellIdVector1.length cellIdVector2.length)

/-- A row in which neither side is read ahead. -/
def unionRow (processCell : S2CellUnion → S2CellUnion → ℕ → α) (na : α)
    (item1 item2 : CellUnionItem) (i : ℕ) : α :=
  match item1, item2 with
  | some cellIds1, some cellIds2 =>
    processCell (cellUnionFromCellIdVector cellIds1) (cellUnionFromCellIdVector cellIds2) i
  | _, _ => na

/-- The loop over one side, where the other is NULL or the same union in every row. -/
def forItems (cellUnionVector : List CellUnionItem) (single : CellUnionItem)
    (processCell : S2CellUnion → S2CellUnion → ℕ → α) (na : α) : Except Fault (List α) :=
  match single with
  | none => .ok (List.replicate cellUnionVector.length na)
  | some cellIds =>
    let cellUnion := cellUnionFromCellIdVector cellIds
    (List.range cellUnionVector.length).mapM fun i => do
      match ← readAt cellUnionVector i with
      | none => return na
      | some cellIds => return processCell cellUnion (cellUnionFromCellIdVector cellIds) i

/-- `BinaryS2CellUnionOperator::processVector`. -/
def BinaryS2CellUnionOperator.processVector (processCell : S2CellUnion → S2CellUnion → ℕ → α)
    (na : α) (cellUnionVector1 cellUnionVector2 : List CellUnionItem) : Except Fault (List α) :=
  if cellUnionVector1.length = cellUnionVector2.length then
    forRows cellUnionVector1.length (readAt cellUnionVector1) (readAt cellUnionVector2)
      (unionRow processCell na)
  else if cellUnionVector1.length = 1 then do
    let item1 ← readAt cellUnionVector1 0
    forItems cellUnionVector2 item1 processCell na
  else if cellUnionVector2.length = 1 then do
    let item2 ← readAt cellUnionVector2 0
    forItems cellUnionVector1 item2 (fun cellUnion2 cellUnion1 => processCell cellUnion1 cellUnion2)
      na
  else .error (recyclingError cellUnionVector1.length cellUnionVector2.length)

/-! ### Operators on cells -/

/-- What the operators use of `S2Cell`. -/
structure S2CellGeometry (δ : Type) where
  mayIntersect : S2CellId → S2CellId → Bool
  /-- `GetDistance(...).radians()`. -/
  getDistance : S2CellId → S2CellId → δ
  /-- `GetMaxDistance(...).radians()`. -/
  getMaxDistance : S2CellId → S2CellId → δ

/-- An element of a logical, an integer or a numeric vector. -/
inductive CellValue (δ : Type) where
  | logical (value : Bool)
  | integer (value : ℤ)
  | real (value : δ)

/-- The operators made with `BinaryS2CellOperator`. -/
inductive BinaryCellOp where
  | eq
  | neq
  | lt
  | lte
  | gte
  | gt
  | contains
  | mayIntersect
  | distance
  | maxDistance
  | commonAncestorLevel

/-- Missing unless both cells are valid. -/
def ifBothValid (value : S2CellId → S2CellId → α) (cellId1 cellId2 : S2CellId) : Option α :=
  if cellId1.isValid && cellId2.isValid then some (value cellId1 cellId2) else none

def BinaryCellOp.processCell (cells : S2CellGeometry δ) :
    BinaryCellOp → S2CellId → S2CellId → Option (CellValue δ)
  | eq, a, b => (compareCells (fun x y => x == y) a b).map .logical
  | neq, a, b => (compareCells (fun x y => x != y) a b).map .logical
  | lt, a, b => (compareCells BitVec.ult a b).map .logical
  | lte, a, b => (compareCells BitVec.ule a b).map .logical
  | gte, a, b => (compareCells (fun x y => y.ule x) a b).map .logical
  | gt, a, b => (compareCells (fun x y => y.ult x) a b).map .logical
  | contains, a, b => ifBothValid (fun a b => .logical (a.contains b)) a b
  | mayIntersect, a, b => ifBothValid (fun a b => .logical (cells.mayIntersect a b)) a b
  | distance, a, b => ifBothValid (fun a b => .real (cells.getDistance a b)) a b
  | maxDistance, a, b => ifBothValid (fun a b => .real (cells.getMaxDistance a b)) a b
  | commonAncestorLevel, a, b => ifBothValid (fun a b => .integer (a.getCommonAncestorLevel b)) a b

theorem compareCells_missing (holds : BitVec 64 → BitVec 64 → Bool) {a b : S2CellId}
    (h : rIsNA a = true ∨ rIsNA b = true) : compareCells holds a b = none := by
  rw [← Bool.or_eq_true] at h
  rw [compareCells, h]
  rfl

theorem ifBothValid_missing (value : S2CellId → S2CellId → α) {a b : S2CellId}
    (h : rIsNA a = true ∨ rIsNA b = true) : ifBothValid value a b = none := by
  have hinvalid : ∀ c : S2CellId, rIsNA c = true → c.isValid = false := by
    intro c hna
    by_contra hvalid
    rw [rIsNA_of_isValid (eq_true_of_ne_false hvalid)] at hna
    cases hna
  unfold ifBothValid
  rcases h with h | h
  · rw [hinvalid a h]
    rfl
  · rw [hinvalid b h, Bool.and_false]
    rfl

/-- Every operator returns a missing value where a cell is missing. -/
theorem BinaryCellOp.processCell_missing (cells : S2CellGeometry δ) (op : BinaryCellOp)
    {a b : S2CellId} (h : rIsNA a = true ∨ rIsNA b = true) : op.processCell cells a b = none := by
  cases op with
  | eq | neq | lt | lte | gte | gt =>
    exact congrArg (Option.map _) (compareCells_missing _ h)
  | contains | mayIntersect | distance | maxDistance | commonAncestorLevel =>
    rw [processCell]
    exact ifBothValid_missing _ h

/-! ### Rows -/

/-- The operation on vectors of the same length, element by element. -/
def elementwise (row : β → β → ℕ → γ) (xs ys : List β) : List γ :=
  (xs.zip ys).mapIdx fun i pair => row pair.1 pair.2 i

/-- `recycle_common` of two vectors. -/
def recycleCommon (na : β) (xs ys : List β) : Except Fault (List β × List β) := do
  let n ← finalLength [xs.length, ys.length]
  return (repLen na xs n, repLen na ys n)

/-- A call returns the elementwise operation on the recycled arguments, and fails exactly if
these cannot be recycled. -/
def AgreesWithRecycling (na : β) (row : β → β → ℕ → γ) (xs ys : List β)
    (call : Except Fault (List γ)) : Prop :=
  match recycleCommon na xs ys with
  | .ok (xs, ys) => call = .ok (elementwise row xs ys)
  | .error _ => ∃ fault, call = .error fault

theorem forRows_readAt (row : β → β → ℕ → γ) {xs ys : List β} {n : ℕ} (hxs : xs.length = n)
    (hys : ys.length = n) :
    forRows n (readAt xs) (readAt ys) row = .ok (elementwise row xs ys) := by
  have hlength : (elementwise row xs ys).length = n := by
    rw [elementwise, List.length_mapIdx, List.length_zip, hxs, hys, Nat.min_self]
  rw [forRows, ← hlength]
  refine CheckedRun.mapM_range_eq (elementwise row xs ys) fun i x hx => ?_
  have hi : i < n := hlength ▸ (List.getElem?_eq_some_iff.mp hx).1
  have hx' : xs[i]? = some xs[i] := List.getElem?_eq_getElem (hxs ▸ hi)
  have hy' : ys[i]? = some ys[i] := List.getElem?_eq_getElem (hys ▸ hi)
  have hpair : (xs.zip ys)[i]? = some (xs[i], ys[i]) := List.getElem?_zip_eq_some.mpr ⟨hx', hy'⟩
  rw [elementwise, List.getElem?_mapIdx, hpair] at hx
  cases hx
  rw [readAt, readAt, hx', hy']
  rfl

theorem forRows_congr {read1 read1' read2 read2' : ℕ → Except Fault β} {n : ℕ}
    (row : β → β → ℕ → γ) (h1 : ∀ i, i < n → read1 i = read1' i)
    (h2 : ∀ i, i < n → read2 i = read2' i) :
    forRows n read1 read2 row = forRows n read1' read2' row := by
  unfold forRows
  refine CheckedRun.mapM_congr fun i hi => ?_
  rw [h1 i (List.mem_range.mp hi), h2 i (List.mem_range.mp hi)]

/-- A vector of length one is read at its only element. -/
theorem readAt_repLen_singleton (na x : β) {n i : ℕ} (hi : i < n) :
    readAt (repLen na [x] n) i = readAt [x] 0 := by
  rw [repLen_singleton, readAt, List.getElem?_replicate, if_pos hi]
  rfl

/-- The lengths that cannot be recycled. -/
theorem finalLength_pair_error {m k : ℕ} (h : m ≠ k) (hm : m ≠ 1) (hk : k ≠ 1) :
    ∃ fault, finalLength [m, k] = .error fault := by
  cases hlength : finalLength [m, k] with
  | error fault => exact ⟨fault, rfl⟩
  | ok n =>
    have hn := (finalLength_pair_iff m k n).mp hlength
    omega

/-- The two loops for an argument of length one are those over the recycled argument. -/
theorem agreesWithRecycling (na : β) (row : β → β → ℕ → γ) (xs ys : List β)
    {call : Except Fault (List γ)}
    (hequal : xs.length = ys.length → call = forRows xs.length (readAt xs) (readAt ys) row)
    (hleft : xs.length ≠ ys.length → xs.length = 1 →
      call = forRows ys.length (fun _ => readAt xs 0) (readAt ys) row)
    (hright : xs.length ≠ ys.length → xs.length ≠ 1 → ys.length = 1 →
      call = forRows xs.length (readAt xs) (fun _ => readAt ys 0) row)
    (herror : xs.length ≠ ys.length → xs.length ≠ 1 → ys.length ≠ 1 →
      ∃ fault, call = .error fault) : AgreesWithRecycling na row xs ys call := by
  unfold AgreesWithRecycling recycleCommon
  by_cases hlength : xs.length = ys.length
  · rw [(finalLength_pair_iff xs.length ys.length ys.length).mpr (Or.inl ⟨hlength, rfl⟩)]
    change call = .ok (elementwise row (repLen na xs ys.length) (repLen na ys ys.length))
    rw [repLen_self, ← hlength, repLen_self, hequal hlength, forRows_readAt row rfl hlength.symm]
  by_cases hone : xs.length = 1
  · obtain ⟨x, rfl⟩ := List.length_eq_one_iff.mp hone
    rw [(finalLength_pair_iff [x].length ys.length ys.length).mpr (Or.inr (Or.inr ⟨rfl, rfl⟩))]
    change call = .ok (elementwise row (repLen na [x] ys.length) (repLen na ys ys.length))
    rw [repLen_self, hleft hlength rfl,
      ← forRows_readAt row (length_repLen na [x] ys.length) rfl]
    exact forRows_congr row (fun i hi => (readAt_repLen_singleton na x hi).symm) fun _ _ => rfl
  by_cases hone' : ys.length = 1
  · obtain ⟨y, rfl⟩ := List.length_eq_one_iff.mp hone'
    rw [(finalLength_pair_iff xs.length [y].length xs.length).mpr (Or.inr (Or.inl ⟨rfl, rfl⟩))]
    change call = .ok (elementwise row (repLen na xs xs.length) (repLen na [y] xs.length))
    rw [repLen_self, hright hlength hone rfl,
      ← forRows_readAt row rfl (length_repLen na [y] xs.length)]
    exact forRows_congr row (fun _ _ => rfl) fun i hi => (readAt_repLen_singleton na y hi).symm
  · obtain ⟨fault, hfault⟩ := finalLength_pair_error hlength hone hone'
    rw [hfault]
    exact herror hlength hone hone'

/-! ### The operators -/

theorem BinaryS2CellOperator.agreesWithRecycling (processCell : S2CellId → S2CellId → ℕ → α)
    (cellIdVector1 cellIdVector2 : List S2CellId) :
    AgreesWithRecycling naReal processCell cellIdVector1 cellIdVector2
      (processVector processCell cellIdVector1 cellIdVector2) := by
  unfold processVector
  refine S2Geography.agreesWithRecycling naReal processCell cellIdVector1 cellIdVector2
    (fun h => if_pos h) (fun h hone => ?_) (fun h hne hone => ?_) (fun h hne hne' => ?_)
  · rw [if_neg h, if_pos hone]
  · rw [if_neg h, if_neg hne, if_pos hone]
  · exact ⟨_, by rw [if_neg h, if_neg hne, if_neg hne']⟩

/-- Reading the single item ahead makes no difference. -/
theorem forItems_eq (processCell : S2CellUnion → S2CellUnion → ℕ → α) (na : α)
    (cellUnionVector : List CellUnionItem) (single : CellUnionItem) :
    forItems cellUnionVector single processCell na =
      forRows cellUnionVector.length (fun _ => .ok single) (readAt cellUnionVector)
        (unionRow processCell na) := by
  cases single with
  | none =>
    have hrow : ∀ i x, (List.replicate cellUnionVector.length na)[i]? = some x →
        (do let item ← readAt cellUnionVector i
            return unionRow processCell na none item i) = Except.ok x := by
      intro i x hx
      obtain ⟨hi, rfl⟩ := List.getElem?_eq_some_iff.mp hx
      rw [List.length_replicate] at hi
      rw [readAt, List.getElem?_eq_getElem hi, List.getElem_replicate]
      rfl
    have hrun := CheckedRun.mapM_range_eq _ hrow
    rw [List.length_replicate] at hrun
    exact hrun.symm
  | some cellIds =>
    refine CheckedRun.mapM_congr fun i _ => ?_
    cases readAt cellUnionVector i with
    | error fault => rfl
    | ok item => cases item <;> rfl

theorem forRows_swap (processCell : S2CellUnion → S2CellUnion → ℕ → α) (na : α)
    (cellUnionVector : List CellUnionItem) (single : CellUnionItem) :
    forRows cellUnionVector.length (fun _ => .ok single) (readAt cellUnionVector)
        (unionRow (fun cellUnion2 cellUnion1 => processCell cellUnion1 cellUnion2) na) =
      forRows cellUnionVector.length (readAt cellUnionVector) (fun _ => .ok single)
        (unionRow processCell na) := by
  refine CheckedRun.mapM_congr fun i _ => ?_
  cases readAt cellUnionVector i with
  | error fault => rfl
  | ok item => cases single <;> cases item <;> rfl

theorem BinaryS2CellUnionOperator.agreesWithRecycling
    (processCell : S2CellUnion → S2CellUnion → ℕ → α) (na : α)
    (cellUnionVector1 cellUnionVector2 : List CellUnionItem) :
    AgreesWithRecycling none (unionRow processCell na) cellUnionVector1 cellUnionVector2
      (processVector processCell na cellUnionVector1 cellUnionVector2) := by
  unfold processVector
  refine S2Geography.agreesWithRecycling none _ cellUnionVector1 cellUnionVector2
    (fun h => if_pos h) (fun h hone => ?_) (fun h hne hone => ?_) (fun h hne hne' => ?_)
  · obtain ⟨item1, rfl⟩ := List.length_eq_one_iff.mp hone
    rw [if_neg h, if_pos hone]
    exact forItems_eq processCell na cellUnionVector2 item1
  · obtain ⟨item2, rfl⟩ := List.length_eq_one_iff.mp hone
    rw [if_neg h, if_neg hne, if_pos hone]
    exact (forItems_eq _ na cellUnionVector1 item2).trans
      (forRows_swap processCell na cellUnionVector1 item2)
  · exact ⟨_, by rw [if_neg h, if_neg hne, if_neg hne']⟩

theorem unionRow_missing (processCell : S2CellUnion → S2CellUnion → ℕ → α) (na : α)
    {item1 item2 : CellUnionItem} (h : item1 = none ∨ item2 = none) (i : ℕ) :
    unionRow processCell na item1 item2 i = na := by
  rcases h with rfl | rfl
  · rfl
  · cases item1 <;> rfl

/-- The loops of both operators return the elementwise operation on the recycled arguments, in
which a row is missing if either side is, and fail exactly where `recycle_common` does. -/
theorem operators_recycle :
    (∀ {δ : Type} (cells : S2CellGeometry δ) (op : BinaryCellOp)
      (cellIdVector1 cellIdVector2 : List S2CellId),
      AgreesWithRecycling naReal (fun a b _ => op.processCell cells a b) cellIdVector1
        cellIdVector2 (BinaryS2CellOperator.processVector
          (fun a b _ => op.processCell cells a b) cellIdVector1 cellIdVector2) ∧
      ∀ a b, rIsNA a = true ∨ rIsNA b = true → op.processCell cells a b = none) ∧
    (∀ {α : Type} (processCell : S2CellId → S2CellId → ℕ → α)
      (cellIdVector1 cellIdVector2 : List S2CellId),
      AgreesWithRecycling naReal processCell cellIdVector1 cellIdVector2
        (BinaryS2CellOperator.processVector processCell cellIdVector1 cellIdVector2)) ∧
    (∀ {α : Type} (processCell : S2CellUnion → S2CellUnion → ℕ → α) (na : α)
      (cellUnionVector1 cellUnionVector2 : List CellUnionItem),
      AgreesWithRecycling none (unionRow processCell na) cellUnionVector1 cellUnionVector2
        (BinaryS2CellUnionOperator.processVector processCell na cellUnionVector1
          cellUnionVector2) ∧
      ∀ item1 item2 i, item1 = none ∨ item2 = none →
        unionRow processCell na item1 item2 i = na) := by
  refine ⟨fun cells op v1 v2 => ⟨?_, fun a b h => op.processCell_missing cells h⟩,
    BinaryS2CellOperator.agreesWithRecycling, fun processCell na v1 v2 => ⟨?_, ?_⟩⟩
  · exact BinaryS2CellOperator.agreesWithRecycling _ v1 v2
  · exact BinaryS2CellUnionOperator.agreesWithRecycling processCell na v1 v2
  · exact fun item1 item2 i h => unionRow_missing processCell na h i

/-! ### The loops used so far -/

theorem unionRow_eq (processCell : S2CellUnion → S2CellUnion → α) (na : α)
    (item1 item2 : CellUnionItem) (i : ℕ) :
    unionRow (fun x y _ => processCell x y) na item1 item2 i =
      processPair processCell na item1 item2 := by
  cases item1 <;> cases item2 <;> rfl

theorem processPair_swap (processCell : S2CellUnion → S2CellUnion → α) (na : α)
    (item1 item2 : CellUnionItem) :
    processPair (fun y x => processCell x y) na item2 item1 =
      processPair processCell na item1 item2 := by
  cases item1 <;> cases item2 <;> rfl

theorem forItems_processPair (processCell : S2CellUnion → S2CellUnion → α) (na : α)
    (cellUnionVector : List CellUnionItem) (single : CellUnionItem) :
    forItems cellUnionVector single (fun x y _ => processCell x y) na =
      .ok (cellUnionVector.map fun item => processPair processCell na single item) := by
  have hrow : ∀ i x,
      (cellUnionVector.map fun item => processPair processCell na single item)[i]? = some x →
        (do let item ← readAt cellUnionVector i
            return unionRow (fun x y _ => processCell x y) na single item i) = Except.ok x := by
    intro i x hx
    rw [List.getElem?_map, Option.map_eq_some_iff] at hx
    obtain ⟨item, hitem, rfl⟩ := hx
    rw [readAt, hitem, ← unionRow_eq processCell na single item i]
    rfl
  have hrun := CheckedRun.mapM_range_eq _ hrow
  rw [List.length_map] at hrun
  exact (forItems_eq _ na cellUnionVector single).trans hrun

/-- Without the index of the row, the loop is the one that the union operators are built on. -/
theorem BinaryS2CellUnionOperator.processVector_eq (processCell : S2CellUnion → S2CellUnion → α)
    (na : α) (cellUnionVector1 cellUnionVector2 : List CellUnionItem) :
    processVector (fun x y _ => processCell x y) na cellUnionVector1 cellUnionVector2 =
      processBinaryVector processCell na cellUnionVector1 cellUnionVector2 := by
  unfold processVector processBinaryVector
  by_cases hlength : cellUnionVector1.length = cellUnionVector2.length
  · rw [if_pos hlength, if_pos hlength, forRows_readAt _ rfl hlength.symm]
    congr 1
    refine List.ext_getElem? fun i => ?_
    simp only [elementwise, List.getElem?_mapIdx, unionRow_eq, List.getElem?_zipWith]
    rw [List.zip, List.getElem?_zipWith]
    cases cellUnionVector1[i]? <;> cases cellUnionVector2[i]? <;> rfl
  rw [if_neg hlength, if_neg hlength]
  by_cases hone : cellUnionVector1.length = 1
  · obtain ⟨item1, rfl⟩ := List.length_eq_one_iff.mp hone
    rw [if_pos hone]
    exact forItems_processPair processCell na cellUnionVector2 item1
  rw [if_neg hone]
  by_cases hone' : cellUnionVector2.length = 1
  · obtain ⟨item2, rfl⟩ := List.length_eq_one_iff.mp hone'
    rw [if_pos hone']
    have hitems := forItems_processPair (fun y x => processCell x y) na cellUnionVector1 item2
    simp only [processPair_swap] at hitems
    refine hitems.trans ?_
    match cellUnionVector1, hone with
    | [], _ => rfl
    | _ :: _ :: _, _ => rfl
  rw [if_neg hone']
  match cellUnionVector1, hone, cellUnionVector2, hone', hlength with
  | [], _, _ :: _ :: _, _, _ => rfl
  | _ :: _ :: _, _, [], _, _ => rfl
  | _ :: _ :: _, _, _ :: _ :: _, _, _ => rfl

end S2Geography
