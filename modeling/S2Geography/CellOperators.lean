import S2Geography.CellLevels
import S2Geography.Recycling

/-!
# Operators on cell vectors

The operators of `s2-cell.cpp` that call methods of `S2CellId` with preconditions. A
debugging build checks these; the usual build computes on. The operators are written over
the methods, so that both builds can be compared.
-/
namespace S2Geography

open Recycling

/-- How a call on a vector of cells can go wrong. -/
inductive CellFault where
  | fault (fault : Fault)
  /-- An `S2_DCHECK` of a debugging build. -/
  | failedCheck
  deriving DecidableEq, Repr

/-- The methods of `S2CellId` that have preconditions. -/
structure CellMethods where
  level : S2CellId → Except CellFault ℤ
  parent : S2CellId → ℤ → Except CellFault S2CellId
  child : S2CellId → ℤ → Except CellFault S2CellId
  contains : S2CellId → S2CellId → Except CellFault Bool
  getCommonAncestorLevel : S2CellId → S2CellId → Except CellFault ℤ

namespace CellMethods

/-- The methods without their checks. -/
def release : CellMethods where
  level c := .ok c.level
  parent c level := .ok (c.parentAt level)
  child c position := .ok (c.child position.toNat)
  contains c other := .ok (c.contains other)
  getCommonAncestorLevel c other := .ok (c.getCommonAncestorLevel other)

def check {α : Type} (holds : Bool) (result : Except CellFault α) : Except CellFault α :=
  if holds then result else .error .failedCheck

/-- The methods with their preconditions. `GetCommonAncestorLevel` relies on the lowest set
bits of both ids. -/
def debug : CellMethods where
  level c := check (c != S2CellId.none) (release.level c)
  parent c level := check (c.isValid && 0 ≤ level && level ≤ c.level) (release.parent c level)
  child c position := check (c.isValid && !c.isLeaf) (release.child c position)
  contains c other := check (c.isValid && other.isValid) (release.contains c other)
  getCommonAncestorLevel c other :=
    check (c != S2CellId.none && other != S2CellId.none) (release.getCommonAncestorLevel c other)

end CellMethods

/-- The bits of `NA_REAL`. -/
def naReal : S2CellId := ⟨0x7FF00000000007A2⟩

def naInteger : ℤ := -2 ^ 31

/-! ### Operators -/

/-- `UnaryS2CellOperator::processVector`. -/
def processCellVector {α : Type} (processCell : S2CellId → ℕ → Except CellFault α)
    (cellIdVector : List S2CellId) : Except CellFault (List α) :=
  cellIdVector.zipIdx.mapM fun row => processCell row.1 row.2

/-- `BinaryS2CellOperator::processVector`. -/
def processCellVectors {α : Type} (processCell : S2CellId → S2CellId → Except CellFault α)
    (cellIdVector1 cellIdVector2 : List S2CellId) : Except CellFault (List α) :=
  if cellIdVector1.length = cellIdVector2.length then
    (cellIdVector1.zip cellIdVector2).mapM fun row => processCell row.1 row.2
  else
    match cellIdVector1, cellIdVector2 with
    | [cell1], _ => cellIdVector2.mapM fun cell2 => processCell cell1 cell2
    | _, [cell2] => cellIdVector1.mapM fun cell1 => processCell cell1 cell2
    | _, _ => .error (.fault (.stop ("Can't recycle vectors of size " ++
        toString cellIdVector1.length ++ " and " ++ toString cellIdVector2.length ++
        " to a common length.")))

/-- A parameter, read by the index of the cell. -/
def readParameter (parameter : List ℤ) (i : ℕ) : Except CellFault ℤ :=
  match parameter[i]? with
  | some value => .ok value
  | none => .error (.fault .outOfBounds)

/-- `processCell` with the parameter of the row. -/
def withParameter {α : Type} (process : S2CellId → ℤ → Except CellFault α) (parameter : List ℤ)
    (cellId : S2CellId) (i : ℕ) : Except CellFault α := do
  let value ← readParameter parameter i
  process cellId value

theorem withParameter_of_some {α : Type} {process : S2CellId → ℤ → Except CellFault α}
    {parameter : List ℤ} {cellId : S2CellId} {i : ℕ} {value : ℤ}
    (h : parameter[i]? = some value) :
    withParameter process parameter cellId i = process cellId value := by
  simp only [withParameter, readParameter, h]
  rfl

theorem withParameter_of_none {α : Type} {process : S2CellId → ℤ → Except CellFault α}
    {parameter : List ℤ} {cellId : S2CellId} {i : ℕ} (h : parameter[i]? = none) :
    withParameter process parameter cellId i = .error (.fault .outOfBounds) := by
  simp only [withParameter, readParameter, h]
  rfl

variable (methods : CellMethods)

/-- A negative level relates to the current level. The sum is in range for valid ids. -/
def relativeLevel (cellId : S2CellId) (leveli : ℤ) : Except CellFault ℤ :=
  if leveli < 0 then do
    let level ← methods.level cellId
    return level + leveli
  else return leveli

/-- `processCell` of `cpp_s2_cell_parent` at a level. -/
def parentCell (cellId : S2CellId) (leveli : ℤ) : Except CellFault S2CellId := do
  let leveli ← relativeLevel methods cellId leveli
  if cellId.isValid && decide (leveli ≥ 0) then
    let level ← methods.level cellId
    if leveli ≤ level then methods.parent cellId leveli else return naReal
  else return naReal

def cppS2CellParent (cellIdVector : List S2CellId) (level : List ℤ) :
    Except CellFault (List S2CellId) :=
  processCellVector (withParameter (parentCell methods) level) cellIdVector

/-- `processCell` of `cpp_s2_cell_child` at a position. -/
def childCell (cellId : S2CellId) (ki : ℤ) : Except CellFault S2CellId :=
  if cellId.isValid && decide (ki ≥ 0) && decide (ki ≤ 3) then methods.child cellId ki
  else return naReal

def cppS2CellChild (cellIdVector : List S2CellId) (k : List ℤ) :
    Except CellFault (List S2CellId) :=
  processCellVector (withParameter (childCell methods) k) cellIdVector

def cppS2CellContains (cellIdVector1 cellIdVector2 : List S2CellId) :
    Except CellFault (List (Option Bool)) :=
  processCellVectors (fun cellId1 cellId2 =>
    if cellId1.isValid && cellId2.isValid then some <$> methods.contains cellId1 cellId2
    else return none) cellIdVector1 cellIdVector2

def cppS2CellCommonAncestorLevel (cellIdVector1 cellIdVector2 : List S2CellId) :
    Except CellFault (List (Option ℤ)) :=
  processCellVectors (fun cellId1 cellId2 =>
    if cellId1.isValid && cellId2.isValid then
      some <$> methods.getCommonAncestorLevel cellId1 cellId2
    else return none) cellIdVector1 cellIdVector2

/-- The loop of `cpp_s2_cell_common_ancestor_level_agg`. -/
def commonAncestorLoop : S2CellId → List S2CellId → Except CellFault ℤ
  | cellIdCommon, [] => methods.level cellIdCommon
  | cellIdCommon, cellId :: rest => do
    let commonLevel ← methods.getCommonAncestorLevel cellIdCommon cellId
    if commonLevel = -1 then return -1
    commonAncestorLoop (← methods.parent cellIdCommon commonLevel) rest

def cppS2CellCommonAncestorLevelAgg : List S2CellId → Except CellFault (Option ℤ)
  | [] => return none
  | cellId :: rest => some <$> commonAncestorLoop methods cellId rest

/-! ### The functions of R -/

/-- `recycle_common` of a vector of cells and one of integers. -/
def recycleCells (x : List S2CellId) (k : List ℤ) :
    Except CellFault (List S2CellId × List ℤ) :=
  match finalLength [x.length, k.length] with
  | .ok n => .ok (repLen naReal x n, repLen naInteger k n)
  | .error fault => .error (.fault fault)

theorem repLen_singleton {α : Type} (na x : α) (n : ℕ) : repLen na [x] n = List.replicate n x := by
  rw [repLen, List.eq_replicate_iff]
  refine ⟨by simp, ?_⟩
  intro y hy
  obtain ⟨i, -, rfl⟩ := List.mem_map.mp hy
  simp [Nat.mod_one]

/-- One cell is recycled to the length of the parameter. -/
theorem recycleCells_singleton (c : S2CellId) (k : List ℤ) :
    recycleCells [c] k = .ok (List.replicate k.length c, k) := by
  have hlength : finalLength [[c].length, k.length] = .ok k.length :=
    (finalLength_pair_iff _ _ _).mpr (Or.inr (Or.inr ⟨rfl, rfl⟩))
  rw [recycleCells, hlength]
  simp only [repLen_singleton, repLen_self]

def s2CellParent (x : List S2CellId) (level : List ℤ) : Except CellFault (List S2CellId) := do
  let recycled ← recycleCells x level
  cppS2CellParent methods recycled.1 recycled.2

def s2CellChild (x : List S2CellId) (k : List ℤ) : Except CellFault (List S2CellId) := do
  let recycled ← recycleCells x k
  cppS2CellChild methods recycled.1 recycled.2

end S2Geography
