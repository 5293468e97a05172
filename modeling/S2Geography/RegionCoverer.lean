import S2Geography.BufferCells
import S2Geography.CellUnionDenormalize
import Mathlib.Logic.Relation

/-!
# Coverings of regions

`S2RegionCoverer` of `s2region_coverer.cc`. A search keeps a queue of cells that meet the
region, refines the largest ones first and stops at the number of cells asked for. The queue
may pop any of several entries of one priority, so the search is a relation between states,
and with it the functions that call it or each other.
-/
namespace S2Geography

open S2CellUnion BufferCells

/-- The methods of `S2Region` that the coverer calls. A cell is passed by its id, from which
its constructor takes everything. -/
structure S2Region where
  contains : S2CellId → Bool
  mayIntersect : S2CellId → Bool
  getCellUnionBound : List S2CellId

namespace BufferCells.CovererOptions

def setMaxLevel (o : CovererOptions) (maxLevel : ℤ) : CovererOptions :=
  { o with maxLevel := max 0 (min S2CellId.kMaxLevel maxLevel) }

def trueMaxLevel (o : CovererOptions) : ℤ :=
  if o.levelMod = 1 then o.maxLevel
  else o.maxLevel - Int.tmod (o.maxLevel - o.minLevel) o.levelMod

/-- `max_cells()` cast to `size_t`. -/
def maxCellsSize (o : CovererOptions) : ℕ := (BitVec.ofInt 64 o.maxCells).toNat

end BufferCells.CovererOptions

namespace S2RegionCoverer

/-- A new candidate, which has no children yet. -/
structure Candidate where
  cell : S2CellId
  isTerminal : Bool
  deriving DecidableEq, Repr

/-- A candidate in the queue, with the children it was expanded into. -/
structure QueueEntry where
  priority : ℤ
  cell : S2CellId
  children : List Candidate
  deriving DecidableEq, Repr

structure CovererState where
  result : List S2CellId := []
  pq : List QueueEntry := []
  deriving DecidableEq, Repr

section Search

variable (o : CovererOptions) (interior : Bool) (region : S2Region)

def maxChildrenShift : ℕ := (2 * o.levelMod).toNat

def newCandidate (cell : S2CellId) : Option Candidate :=
  if !region.mayIntersect cell then none
  else if cell.level ≥ o.minLevel then
    if interior then
      if region.contains cell then some ⟨cell, true⟩
      else if cell.level + o.levelMod > o.maxLevel then none
      else some ⟨cell, false⟩
    else some ⟨cell, decide (cell.level + o.levelMod > o.maxLevel) || region.contains cell⟩
  else some ⟨cell, false⟩

/-- The children that `ExpandChildren` appends. It returns how many of them are terminal. -/
def expandChildren : ℕ → S2CellId → List Candidate
  | 0, _ => []
  | numLevels + 1, cell => (List.range 4).flatMap fun i =>
    if numLevels > 0 then
      if region.mayIntersect (cell.child i) then expandChildren numLevels (cell.child i) else []
    else (newCandidate o interior region (cell.child i)).toList

def priorityOf (cell : S2CellId) (numChildren numTerminals : ℕ) : ℤ :=
  -((((cell.level <<< maxChildrenShift o) + numChildren) <<< maxChildrenShift o) + numTerminals)

def addCandidate (s : CovererState) (candidate : Candidate) : CovererState :=
  if candidate.isTerminal then { s with result := s.result ++ [candidate.cell] }
  else
    let numLevels := if candidate.cell.level < o.minLevel then 1 else o.levelMod
    let children := expandChildren o interior region numLevels.toNat candidate.cell
    let numTerminals := children.countP Candidate.isTerminal
    if children.length = 0 then s
    else if !interior && numTerminals == 1 <<< maxChildrenShift o &&
        decide (candidate.cell.level ≥ o.minLevel) then
      { s with result := s.result ++ [candidate.cell] }
    else
      { s with pq :=
        ⟨priorityOf o candidate.cell children.length numTerminals, candidate.cell, children⟩ ::
          s.pq }

/-- The loop over the children of a popped candidate. -/
def addChildren (s : CovererState) (children : List Candidate) : CovererState :=
  children.foldl (fun s child =>
    if interior && decide (s.result.length ≥ o.maxCellsSize) then s
    else addCandidate o interior region s child) s

/-- What the main loop does with a candidate it has popped. -/
def processEntry (s : CovererState) (e : QueueEntry) : CovererState :=
  if interior || decide (e.cell.level < o.minLevel) || e.children.length == 1 ||
      decide (s.result.length + s.pq.length + e.children.length ≤ o.maxCellsSize) then
    addChildren o interior region s e.children
  else { s with result := s.result ++ [e.cell] }

/-- The condition of the main loop. -/
def Continues (s : CovererState) : Prop :=
  s.pq ≠ [] ∧ (interior = true → s.result.length < o.maxCellsSize)

/-- One turn of the main loop, with any entry of the highest priority on top. -/
inductive Step : CovererState → CovererState → Prop
  | pop {s : CovererState} {before after : List QueueEntry} {e : QueueEntry}
      (continues : Continues o interior s) (top : s.pq = before ++ e :: after)
      (highest : ∀ e' ∈ s.pq, e'.priority ≤ e.priority) :
      Step s (processEntry o interior region { s with pq := before ++ after } e)

/-- `AddCandidate(NewCandidate(S2Cell(cell_id)))`. -/
def addCell (s : CovererState) (cell : S2CellId) : CovererState :=
  match newCandidate o interior region cell with
  | none => s
  | some candidate => addCandidate o interior region s candidate

/-- The loop of `GetInitialCandidates`. -/
def initialState (cells : List S2CellId) : CovererState :=
  cells.foldl (addCell o interior region) {}

end Search

section Levels

variable (o : CovererOptions)

def adjustLevel (level : ℤ) : ℤ :=
  if o.levelMod > 1 ∧ level > o.minLevel then
    level - Int.tmod (level - o.minLevel) o.levelMod
  else level

/-- The id, or its ancestor if the level is another one. -/
def atLevel (id : S2CellId) (newLevel : ℤ) : S2CellId :=
  if newLevel ≠ id.level then id.parentAt newLevel else id

/-- One turn of the loop of `AdjustCellLevels`, with the cells so far as a stack. -/
def adjustStep (out : List S2CellId) (id : S2CellId) : List S2CellId :=
  let id := atLevel id (adjustLevel o id.level)
  if out.head?.any fun last => last.contains id then out
  else id :: out.dropWhile id.contains

def adjustCellLevels (cells : List S2CellId) : List S2CellId :=
  if o.levelMod = 1 then cells else (cells.foldl (adjustStep o) []).reverse

/-- The options of the coverer that `GetInitialCandidates` makes. -/
def initialOptions : CovererOptions :=
  (CovererOptions.setMaxCells {} (min 4 o.maxCells)).setMaxLevel o.maxLevel

/-- The last part of `GetCoveringInternal`. -/
def finish (turns : ℕ) (result : List S2CellId) : Option (List S2CellId) :=
  if o.minLevel > 0 ∨ o.levelMod > 1 then
    denormalize turns o.minLevel o.levelMod (normalizeIds result)
  else some (normalizeIds result)

/-- The loop of `IsCanonical`, with `same_parent_count` and `prev_id`. -/
def isCanonicalFrom (tooManyCells : Bool) : ℕ → S2CellId → List S2CellId → Bool
  | _, _, [] => true
  | sameParentCount, prevId, id :: covering =>
    if !id.isValid then false
    else if id.level < o.minLevel ∨ id.level > o.trueMaxLevel then false
    else if o.levelMod > 1 ∧ Int.tmod (id.level - o.minLevel) o.levelMod ≠ 0 then false
    else if prevId ≠ S2CellId.none then
      if prevId.rangeMax ≥ id.rangeMin then false
      else if tooManyCells && decide (id.getCommonAncestorLevel prevId ≥ o.minLevel) then false
      else
        let plevel := id.level - o.levelMod
        if plevel < o.minLevel ∨ id.level ≠ prevId.level ∨
            id.parentAt plevel ≠ prevId.parentAt plevel then
          isCanonicalFrom tooManyCells 1 id covering
        else if sameParentCount + 1 = 1 <<< (2 * o.levelMod).toNat then false
        else isCanonicalFrom tooManyCells (sameParentCount + 1) id covering
    else isCanonicalFrom tooManyCells sameParentCount id covering

def isCanonical (covering : List S2CellId) : Bool :=
  isCanonicalFrom o (decide (covering.length > o.maxCellsSize)) 1 S2CellId.none covering

end Levels

section Canonicalize

variable (o : CovererOptions)

/-- `lower_bound`, of a sorted vector. -/
def idsFrom (covering : List S2CellId) (id : S2CellId) : List S2CellId :=
  covering.dropWhile fun c => decide (c < id)

def containsAllChildren (turns : ℕ) (covering : List S2CellId) (id : S2CellId) : Option Bool :=
  let level := id.level + o.levelMod
  (S2CellId.idsUntil (id.childEndAt level) turns (id.childBeginAt level)).map
    fun children => children.isPrefixOf (idsFrom covering id.rangeMin)

/-- Everything from the lower bound of the first leaf up to the upper bound of the last one
becomes the ancestor. -/
def replaceCellsWithAncestor (covering : List S2CellId) (id : S2CellId) : List S2CellId :=
  (covering.takeWhile fun c => decide (c < id.rangeMin)) ++
    id :: covering.dropWhile fun c => decide (c ≤ id.rangeMax)

/-- The level at which two neighbours would be merged. -/
def mergeLevel (pair : S2CellId × S2CellId) : ℤ :=
  adjustLevel o (pair.1.getCommonAncestorLevel pair.2)

/-- The search for the deepest ancestor of two neighbours: its level, and the first of the two
with the lowest index among those of this level. -/
def bestMerge (covering : List S2CellId) : ℤ × Option S2CellId :=
  (covering.zip covering.tail).foldl
    (fun best pair => if mergeLevel o pair > best.1 then (mergeLevel o pair, some pair.1) else best)
    (-1, none)

/-- The loop over the parents whose children are all present. -/
def mergeParents (turns : ℕ) : ℕ → List S2CellId → S2CellId → ℤ → Option (List S2CellId)
  | 0, _, _, _ => none
  | steps + 1, covering, id, level =>
    if level > o.minLevel then do
      let id := id.parentAt (level - o.levelMod)
      if ← containsAllChildren o turns covering id then
        mergeParents turns steps (replaceCellsWithAncestor covering id) id (level - o.levelMod)
      else some covering
    else some covering

/-- The loop that merges two neighbours until the number of cells is acceptable. The element
of index -1 does not exist. -/
def mergeCells (turns : ℕ) : ℕ → List S2CellId → Option (List S2CellId)
  | 0, _ => none
  | steps + 1, covering =>
    if covering.length > o.maxCellsSize then
      let best := bestMerge o covering
      if best.1 < o.minLevel then some covering
      else do
        let cell ← best.2
        let id := cell.parentAt best.1
        let covering ← mergeParents o turns turns (replaceCellsWithAncestor covering id) id best.1
        mergeCells turns steps covering
    else some covering

/-- The first part of `CanonicalizeCovering`, before it looks at the number of cells. -/
def withLevels (turns : ℕ) (covering : List S2CellId) : Option (List S2CellId) :=
  finish o turns
    (if o.maxLevel < S2CellId.kMaxLevel ∨ o.levelMod > 1 then
      covering.map fun id => atLevel id (adjustLevel o (min id.level o.maxLevel))
    else covering)

end Canonicalize

/-- `S2CellUnion` as a region. What its bounding cap covers is a parameter. -/
def unionRegion (unionBound : S2CellUnion → List S2CellId) (u : S2CellUnion) : S2Region :=
  ⟨u.containsId, u.intersectsId, unionBound u⟩

inductive Call where
  | getCoveringInternal (o : CovererOptions) (interior : Bool) (region : S2Region)
  | canonicalizeCovering (o : CovererOptions) (covering : List S2CellId)

/-- The excess of cells, and the product that is compared with 10000. -/
def excess (o : CovererOptions) (covering : List S2CellId) : ℤ := covering.length - o.maxCells

/-- What a call returns. -/
inductive Returns (unionBound : S2CellUnion → List S2CellId) : Call → List S2CellId → Prop
  | covering {o : CovererOptions} {interior : Bool} {region : S2Region}
      {cells out : List S2CellId} {s : CovererState} {turns : ℕ}
      (fast : Returns unionBound
        (.canonicalizeCovering (initialOptions o) region.getCellUnionBound) cells)
      (run : Relation.ReflTransGen (Step o interior region)
        (initialState o interior region (adjustCellLevels o cells)) s)
      (stopped : ¬ Continues o interior s) (finished : finish o turns s.result = some out) :
      Returns unionBound (.getCoveringInternal o interior region) out
  | kept {o : CovererOptions} {ids covering : List S2CellId} {turns : ℕ}
      (levels : withLevels o turns ids = some covering)
      (few : excess o covering ≤ 0 ∨ isCanonical o covering = true) :
      Returns unionBound (.canonicalizeCovering o ids) covering
  | recomputed {o : CovererOptions} {ids covering out : List S2CellId} {turns : ℕ}
      (levels : withLevels o turns ids = some covering)
      (many : ¬ (excess o covering ≤ 0 ∨ isCanonical o covering = true))
      (large : excess o covering * covering.length > 10000)
      (again : Returns unionBound
        (.getCoveringInternal o false (unionRegion unionBound (ofCellIds covering))) out) :
      Returns unionBound (.canonicalizeCovering o ids) out
  | merged {o : CovererOptions} {ids covering out : List S2CellId} {turns steps : ℕ}
      (levels : withLevels o turns ids = some covering)
      (many : ¬ (excess o covering ≤ 0 ∨ isCanonical o covering = true))
      (small : ¬ excess o covering * covering.length > 10000)
      (merge : mergeCells o turns steps covering = some out) :
      Returns unionBound (.canonicalizeCovering o ids) out

end S2RegionCoverer

end S2Geography
