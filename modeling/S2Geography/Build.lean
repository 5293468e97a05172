import S2Geography.Shapes

/-!
# Rebuilding

`s2_rebuild` sends the edges of a geography's shapes through the layers of an `S2Builder`,
one layer for each dimension, and makes a geography of what the layers return. The layers
are parameters; edges from a point to the same point never reach those of polylines and
polygons.
-/
namespace S2Geography

open Exporter

namespace Double

/-- The bits, with one pattern for both zeros. -/
def key (a : Double) : BitVec 64 := if a.bits <<< 1 = 0 then 0 else a.bits

/-- `a == b`. -/
def eq (a b : Double) : Bool := !a.isNaN && !b.isNaN && a.key == b.key

/-- `-a`. -/
def neg (a : Double) : Double := ⟨a.bits ^^^ 0x8000000000000000⟩

end Double

namespace S2Point

/-- `p == q`. -/
def eq (p q : S2Point) : Bool := p.x.eq q.x && p.y.eq q.y && p.z.eq q.z

/-- `-p`. -/
def neg (p : S2Point) : S2Point := ⟨p.x.neg, p.y.neg, p.z.neg⟩

end S2Point

namespace Accessors

/-- `GlobalOptions::OutputAction`. -/
inductive OutputAction
  | actionInclude
  | actionIgnore
  | actionError
  deriving DecidableEq, Repr

/-- The layers of the builder, from the edges they receive to what they return. -/
structure S2Layers where
  /-- `S2PointVectorLayer`. -/
  points : List Edge → List S2Point
  /-- `S2PolylineVectorLayer`. -/
  polylines : List Edge → List (List S2Point)
  /-- `S2PolygonLayer`, or the error of `S2Builder::Build`. -/
  polygon : List Edge → Except String (List StoredLoop)

/-- The edges of the shapes of a dimension. -/
def shapeEdges (dimension : ℕ) (geog : Geography (List StoredLoop)) : List Edge :=
  (geog.shapes.filter fun shape => shape.dimension = dimension).flatMap (·.edges)

/-- `AddEdge` under `DegenerateEdges::DISCARD`. -/
def discardDegenerate (edges : List Edge) : List Edge := edges.filter fun e => !e.1.eq e.2

/-- Whether a layer's output goes into the result, or what is wrong with it. -/
def takeOutput (action : OutputAction) (nonEmpty : Bool) (message : String) : Except Fault Bool :=
  if nonEmpty && action = .actionError then .error (.stop message)
  else if nonEmpty && action = .actionIgnore then .ok false
  else .ok nonEmpty

/-- `s2_geography_from_layers`. -/
def s2GeographyFromLayers (points : List S2Point) (polylines : List (List S2Point))
    (polygon : List StoredLoop)
    (pointLayerAction polylineLayerAction polygonLayerAction : OutputAction) :
    Except Fault (Geography (List StoredLoop)) := do
  let hasPolygon ← takeOutput polygonLayerAction (!polygon.isEmpty)
    "Output contained unexpected polygon"
  let hasPolylines ← takeOutput polylineLayerAction (!polylines.isEmpty)
    "Output contained unexpected polylines"
  let hasPoints ← takeOutput pointLayerAction (!points.isEmpty)
    "Output contained unexpected points"
  let includePolygon := decide (polygonLayerAction = .actionInclude)
  let includePolylines := decide (polylineLayerAction = .actionInclude)
  let includePoints := decide (pointLayerAction = .actionInclude)
  let nonEmptyDimensions := hasPolygon.toNat + hasPolylines.toNat + hasPoints.toNat
  let includedDimensions := includePolygon.toNat + includePolylines.toNat + includePoints.toNat
  if 1 < nonEmptyDimensions then
    return .collection ((if hasPoints then [.point points] else []) ++
      (if hasPolylines then [.polyline polylines] else []) ++
      (if hasPolygon then [.polygon polygon] else []))
  else if hasPolygon || (includedDimensions = 1 && includePolygon) then return .polygon polygon
  else if hasPolylines || (includedDimensions = 1 && includePolylines) then
    return .polyline polylines
  else if hasPoints || (includedDimensions = 1 && includePoints) then return .point points
  else return .collection []

variable (layers : S2Layers)

/-- `s2_rebuild` with the options that the layers stand for. -/
def s2Rebuild (geog : Geography (List StoredLoop))
    (pointLayerAction polylineLayerAction polygonLayerAction : OutputAction) :
    Except Fault (Geography (List StoredLoop)) :=
  let points := layers.points (shapeEdges 0 geog)
  let polylines := layers.polylines (discardDegenerate (shapeEdges 1 geog))
  match layers.polygon (discardDegenerate (shapeEdges 2 geog)) with
  | .error text => .error (.stop text)
  | .ok polygon => s2GeographyFromLayers points polylines polygon pointLayerAction
      polylineLayerAction polygonLayerAction

/-- `s2_build_polyline`; the result of a failed cast is dereferenced by every caller. -/
def s2BuildPolyline (geog : Geography (List StoredLoop)) :
    Except Fault (List (List S2Point)) := do
  let out ← s2Rebuild layers geog .actionError .actionInclude .actionError
  if s2IsEmpty out then return []
  match out with
  | .polyline polylines => return polylines
  | _ => .error .nullDereference

/-- `s2_build_polygon`. -/
def s2BuildPolygon (geog : Geography (List StoredLoop)) : Except Fault (List StoredLoop) := do
  let out ← s2Rebuild layers geog .actionError .actionError .actionInclude
  if s2IsEmpty out then return []
  match out with
  | .polygon loops => return loops
  | _ => .error .nullDereference

/-- What the layers return when they receive nothing. -/
structure S2Layers.Vacuous : Prop where
  points : layers.points [] = []
  polylines : layers.polylines [] = []
  polygon : layers.polygon [] = .ok []

variable {layers} {geog : Geography (List StoredLoop)}

theorem s2BuildPolyline_eq (hlayers : layers.Vacuous) (h0 : shapeEdges 0 geog = [])
    (h2 : shapeEdges 2 geog = []) :
    ∃ polylines, s2BuildPolyline layers geog = .ok polylines ∧
      (polylines = layers.polylines (discardDegenerate (shapeEdges 1 geog)) ∨
        polylines = [] ∧ ∀ vertices ∈
          layers.polylines (discardDegenerate (shapeEdges 1 geog)), vertices.length < 2) := by
  have hrebuild : s2Rebuild layers geog .actionError .actionInclude .actionError =
      .ok (.polyline (layers.polylines (discardDegenerate (shapeEdges 1 geog)))) := by
    simp only [s2Rebuild, h0, h2, discardDegenerate, List.filter_nil, hlayers.points,
      hlayers.polygon]
    cases layers.polylines ((shapeEdges 1 geog).filter fun e => !e.1.eq e.2) <;> rfl
  rw [s2BuildPolyline, hrebuild]
  by_cases hempty : s2IsEmpty
      (.polyline (layers.polylines (discardDegenerate (shapeEdges 1 geog)))) = true
  · refine ⟨[], by simp [bind, Except.bind, hempty, pure, Except.pure], Or.inr ⟨rfl, ?_⟩⟩
    intro vertices hvertices
    rw [s2IsEmpty, List.all_eq_true] at hempty
    exact (isEmpty_polylineShape vertices).mp (hempty _ (List.mem_map_of_mem hvertices))
  · exact ⟨_, by simp [bind, Except.bind, hempty, pure, Except.pure], Or.inl rfl⟩

theorem s2BuildPolygon_eq (hlayers : layers.Vacuous) (h0 : shapeEdges 0 geog = [])
    (h1 : shapeEdges 1 geog = []) :
    s2BuildPolygon layers geog =
      match layers.polygon (discardDegenerate (shapeEdges 2 geog)) with
      | .error text => .error (.stop text)
      | .ok loops => .ok loops := by
  simp only [s2BuildPolygon, s2Rebuild, h0, h1, discardDegenerate, List.filter_nil, hlayers.points,
    hlayers.polylines]
  cases hpolygon : layers.polygon ((shapeEdges 2 geog).filter fun e => !e.1.eq e.2) with
  | error text => rfl
  | ok loops =>
    have hout : s2GeographyFromLayers [] [] loops .actionError .actionError .actionInclude =
        .ok (.polygon loops) := by
      cases loops <;> rfl
    simp only [hout, bind, Except.bind]
    by_cases hempty : loops = []
    · subst hempty
      rfl
    · have hfalse : s2IsEmpty (.polygon loops) = false := by
        simpa [s2IsEmpty, Geography.shapes, ← Bool.not_eq_true, isEmpty_polygonShape] using hempty
      simp [hfalse, pure, Except.pure]

end Accessors

end S2Geography
