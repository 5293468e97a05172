import S2Geography.Geography
import S2Geography.GeographyOperator
import Mathlib.Algebra.GroupWithZero.Nat
import Mathlib.Tactic.Common

/-!
# The union of many geographies

`S2UnionAggregator` collects points and polylines in one index and everything else in a
list of nodes with two indexes each. `Finalize` merges the nodes in passes, from the back
of the list, until one is left, and unites that one with the points and polylines.
-/
namespace S2Geography.UnionAggregator

variable {Pg : Type}

/-- `GlobalOptions::OutputAction`. -/
inductive OutputAction
  | outputActionInclude
  | outputActionIgnore
  | outputActionError
  deriving DecidableEq, Repr

/-- The actions of `GlobalOptions` for the three output layers. -/
structure LayerActions where
  pointLayerAction : OutputAction
  polylineLayerAction : OutputAction
  polygonLayerAction : OutputAction
  deriving DecidableEq, Repr

/-- What a boolean operation puts out. -/
structure Layers (Pg : Type) where
  points : List S2Point
  polylines : List (List S2Point)
  polygon : Pg

/-- A union by `S2BooleanOperation` of two indexes, each given by the geographies that were
added to it: the layers, or the error text of `Build`. -/
structure UnionOps (Pg : Type) where
  build : List (Geography Pg) → List (Geography Pg) → Except String (Layers Pg)
  polygonIsEmpty : Pg → Bool

/-- The three checks of `s2_geography_from_layers`: whether a layer takes part. -/
def layerUsed (hasLayer : Bool) (action : OutputAction) (what : String) : Except Fault Bool :=
  if hasLayer && decide (action = .outputActionError) then
    .error (.stop ("Output contained unexpected " ++ what))
  else if hasLayer && decide (action = .outputActionIgnore) then .ok false
  else .ok hasLayer

/-- The end of `s2_geography_from_layers`: the kind of geography for the layers that take
part, or the kind of an empty one. -/
def layersGeography (actions : LayerActions) (layers : Layers Pg)
    (hasPolygon hasPolylines hasPoints : Bool) : Geography Pg :=
  let includePolygon := decide (actions.polygonLayerAction = .outputActionInclude)
  let includePolylines := decide (actions.polylineLayerAction = .outputActionInclude)
  let includePoints := decide (actions.pointLayerAction = .outputActionInclude)
  let nonEmptyDimensions := hasPolygon.toNat + hasPolylines.toNat + hasPoints.toNat
  let includedDimensions := includePolygon.toNat + includePolylines.toNat + includePoints.toNat
  if nonEmptyDimensions > 1 then
    .collection
      ((if hasPoints then [.point layers.points] else []) ++
        (if hasPolylines then [.polyline layers.polylines] else []) ++
        (if hasPolygon then [.polygon layers.polygon] else []))
  else if hasPolygon || (decide (includedDimensions = 1) && includePolygon) then
    .polygon layers.polygon
  else if hasPolylines || (decide (includedDimensions = 1) && includePolylines) then
    .polyline layers.polylines
  else if hasPoints || (decide (includedDimensions = 1) && includePoints) then
    .point layers.points
  else .collection []

def s2GeographyFromLayers (ops : UnionOps Pg) (actions : LayerActions) (layers : Layers Pg) :
    Except Fault (Geography Pg) := do
  let hasPolygon ← layerUsed (!ops.polygonIsEmpty layers.polygon) actions.polygonLayerAction
    "polygon"
  let hasPolylines ← layerUsed (!layers.polylines.isEmpty) actions.polylineLayerAction "polylines"
  let hasPoints ← layerUsed (!layers.points.isEmpty) actions.pointLayerAction "points"
  return layersGeography actions layers hasPolygon hasPolylines hasPoints

/-- `s2_boolean_operation` with `OpType::UNION`. -/
def s2BooleanUnion (ops : UnionOps Pg) (actions : LayerActions)
    (index1 index2 : List (Geography Pg)) : Except Fault (Geography Pg) :=
  match ops.build index1 index2 with
  | .error text => .error (.stop text)
  | .ok layers => s2GeographyFromLayers ops actions layers

/-- `ShapeIndexGeography::num_shapes`. -/
def indexNumShapes (index : List (Geography Pg)) : ℕ := (index.map Geography.numShapes).sum

/-- A node without the `data` that keeps its geographies alive. -/
structure Node (Pg : Type) where
  index1 : List (Geography Pg) := []
  index2 : List (Geography Pg) := []

structure S2UnionAggregator (Pg : Type) where
  root : Node Pg := {}
  other : List (Node Pg) := []

def add (agg : S2UnionAggregator Pg) (geog : Geography Pg) : S2UnionAggregator Pg :=
  if geog.dimension = 0 ∨ geog.dimension = 1 then
    { agg with root := { agg.root with index1 := agg.root.index1 ++ [geog] } }
  else
    match agg.other.getLast? with
    | none => { agg with other := [{ index1 := [geog] }] }
    | some last =>
      if indexNumShapes last.index1 = 0 then
        { agg with other := agg.other.dropLast ++ [{ last with index1 := last.index1 ++ [geog] }] }
      else if indexNumShapes last.index2 = 0 then
        { agg with other := agg.other.dropLast ++ [{ last with index2 := last.index2 ++ [geog] }] }
      else { agg with other := agg.other ++ [{ index1 := [geog] }] }

/-- `Node::Merge`. -/
def Node.merge (ops : UnionOps Pg) (actions : LayerActions) (node : Node Pg) :
    Except Fault (Geography Pg) :=
  s2BooleanUnion ops actions node.index1 node.index2

/-- The body of the pairing loop, for `other_[i + 1]` and `other_[i]`. -/
def mergeLastTwo (ops : UnionOps Pg) (actions : LayerActions) (i : ℕ) (other : List (Node Pg)) :
    Except Fault (List (Node Pg)) :=
  match other[i + 1]?, other[i]? with
  | some node, some prev => do
    let merged ← node.merge ops actions
    let mergedPrev ← prev.merge ops actions
    return other.take i ++ other.drop (i + 2) ++ [⟨[merged], [mergedPrev]⟩]
  | _, _ => .error .outOfBounds

/-- The pairing loop from `i` on, downwards in steps of two while `i >= 1`. -/
def pairingLoop (ops : UnionOps Pg) (actions : LayerActions) :
    ℕ → List (Node Pg) → Except Fault (List (Node Pg))
  | 0, other => .ok other
  | 1, other => mergeLastTwo ops actions 0 other
  | i + 2, other => do
    let other ← mergeLastTwo ops actions (i + 1) other
    pairingLoop ops actions i other

/-- The loop over `j`, with the number of passes that are left. -/
def passes (ops : UnionOps Pg) (actions : LayerActions) :
    ℕ → List (Node Pg) → Except Fault (List (Node Pg))
  | 0, other => .ok other
  | j + 1, other =>
    if other.length ≤ 1 then .ok other
    else do
      let other ← pairingLoop ops actions (other.length - 1) other
      passes ops actions j other

def finalize (ops : UnionOps Pg) (actions : LayerActions) (agg : S2UnionAggregator Pg) :
    Except Fault (Geography Pg) := do
  let other ← passes ops actions 100 agg.other
  match other with
  | [] => agg.root.merge ops actions
  | node :: _ => do
    let merged ← node.merge ops actions
    { agg.root with index2 := agg.root.index2 ++ [merged] }.merge ops actions

/-- `Add` for every geography, then `Finalize`. -/
def s2UnionAgg (ops : UnionOps Pg) (actions : LayerActions) (geogs : List (Geography Pg)) :
    Except Fault (Geography Pg) :=
  finalize ops actions (geogs.foldl add {})

end S2Geography.UnionAggregator
