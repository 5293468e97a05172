import S2Geography.CheckedRun
import S2Geography.Measures
import S2Geography.ShapeChains

/-!
# Boundaries

`s2_boundary` reads shapes, chains and edges by number. The boundary of polygons has a closed
polyline for every chain that has edges, and these are its edges; the boundary of lines has
the two ends of every polyline that has edges. A polygon beside anything else is an error.
-/
namespace S2Geography

open Exporter Geography

namespace Accessors

end Accessors

/-! ### Chains of edges -/

/-- The first and the last vertex of connected edges. -/
def chainEnds (edges : List Edge) : List S2Point :=
  (edges.head?.map Prod.fst).toList ++ (edges.getLast?.map Prod.snd).toList

theorem getLast?_polylineEdges (vertex next : S2Point) (vertices : List S2Point) :
    (polylineEdges (vertex :: next :: vertices)).getLast?.map Prod.snd =
      (vertex :: next :: vertices).getLast? := by
  induction vertices generalizing vertex next with
  | nil => rfl
  | cons after vertices ih =>
    have hrest := ih next after
    change ((vertex, next) :: (next, after) :: (after :: vertices).zip vertices).getLast?.map _ = _
    rw [List.getLast?_cons_cons, List.getLast?_cons_cons]
    exact hrest

/-- The first and the last vertex of a polyline that has edges. -/
def polylineEnds (vertices : List S2Point) : List S2Point :=
  if vertices.length < 2 then [] else vertices.head?.toList ++ vertices.getLast?.toList

theorem chainEnds_polylineEdges (vertices : List S2Point) :
    chainEnds (polylineEdges vertices) = polylineEnds vertices := by
  cases vertices with
  | nil => rfl
  | cons vertex vertices =>
    cases vertices with
    | nil => rfl
    | cons next vertices =>
      rw [chainEnds, getLast?_polylineEdges]
      rfl

namespace Accessors

variable {shape : ChainShape} {chain : Chain}

/-- What a shape adds to the boundary of lines. -/
def shapeEnds (shape : ChainShape) : List S2Point :=
  if shape.dimension < 1 then []
  else shape.chains.flatMap fun chain => chainEnds (shape.chainEdges chain)

/-- The polylines of a geography, in order. -/
def treeLines (geog : Geography (List StoredLoop)) : List (List S2Point) :=
  geog.leaves.flatMap fun
    | .polyline polylines => polylines
    | _ => []

/-- The ends that a polyline's only chain adds. -/
theorem shapeEnds_polylineChainShape (vertices : List S2Point) :
    shapeEnds (polylineChainShape vertices) = polylineEnds vertices := by
  change (List.replicate (min 1 (vertices.length - 1)) (polylineChain vertices)).flatMap
    (fun chain => chainEnds ((polylineShape vertices).chainEdges chain)) = polylineEnds vertices
  by_cases hnone : vertices.length - 1 = 0
  · rw [hnone, polylineEnds, if_pos (by omega)]
    rfl
  · rw [Nat.min_eq_left (Nat.one_le_iff_ne_zero.mpr hnone)]
    refine (List.flatMap_singleton ..).trans ?_
    rw [chainEdges_polylineChain, chainEnds_polylineEdges]

mutual

/-- Without polygons, what the shapes add are the ends of the polylines. -/
theorem flatMap_shapeEnds : (geog : Geography (List StoredLoop)) →
    2 ∉ geog.shapeDimensions →
    geog.chainShapes.flatMap shapeEnds = (treeLines geog).flatMap polylineEnds
  | .point points, _ => rfl
  | .polyline polylines, _ => by
    simp [chainShapes, treeLines, leaves, List.flatMap_map, shapeEnds_polylineChainShape]
  | .polygon loops, h => absurd (List.mem_singleton.mpr rfl) h
  | .collection features, h => flatMap_shapeEnds_all features h

theorem flatMap_shapeEnds_all : (features : List (Geography (List StoredLoop))) →
    2 ∉ shapeDimensionsAll features →
    (chainShapesAll features).flatMap shapeEnds =
      (treeLines (.collection features)).flatMap polylineEnds
  | [], _ => rfl
  | feature :: features, h => by
    have hfeature : 2 ∉ feature.shapeDimensions := fun htwo => h (List.mem_append_left _ htwo)
    have hfeatures : 2 ∉ shapeDimensionsAll features := fun htwo =>
      h (List.mem_append_right _ htwo)
    have htree : treeLines (.collection (feature :: features)) =
        treeLines feature ++ treeLines (.collection features) := List.flatMap_append
    rw [chainShapesAll, List.flatMap_append, flatMap_shapeEnds feature hfeature,
      flatMap_shapeEnds_all features hfeatures, htree, List.flatMap_append]

end

section Length

variable {δ : Type} [AddCommGroup δ] [LE δ] (measures : ExactMeasures δ)

end Length

end Accessors

end S2Geography
