import S2Geography.Exporter
import S2Geography.Predicates

/-!
# Shapes of a geography

`Shape(i)` of a geography presents points, a polyline or a polygon as edges and chains.
A polyline with one vertex has no edge and no chain; the full polygon is a chain without
edges.
-/
namespace S2Geography

open Exporter

/-- `d < 0`. -/
def Double.isNegative (d : Double) : Bool := !d.isNaN && d.bits.msb && d.bits <<< 1 != 0

/-- `S2Shape::Edge`. -/
abbrev Edge := S2Point × S2Point

/-- What the accessors use of an `S2Shape`. -/
structure Shape extends ShapeCounts where
  /-- `edge(0)` to `edge(num_edges() - 1)`. -/
  edges : List Edge
  length_edges : edges.length = numEdges

/-- `S2PointVectorShape`: every point is a degenerate edge, and a chain of its own. -/
def pointShape (points : List S2Point) : Shape where
  dimension := 0
  numEdges := points.length
  numChains := points.length
  edges := points.map fun point => (point, point)
  length_edges := List.length_map _

def polylineEdges (vertices : List S2Point) : List Edge := vertices.zip vertices.tail

theorem length_polylineEdges (vertices : List S2Point) :
    (polylineEdges vertices).length = vertices.length - 1 := by
  rw [polylineEdges, List.length_zip, List.length_tail]
  omega

/-- `S2Polyline::Shape`. -/
def polylineShape (vertices : List S2Point) : Shape where
  dimension := 1
  numEdges := vertices.length - 1
  numChains := min 1 (vertices.length - 1)
  edges := polylineEdges vertices
  length_edges := length_polylineEdges vertices

/-- `oriented_vertex`: the vertices of a hole come in reverse. -/
def orientedVertices (loop : StoredLoop) : List S2Point :=
  if loop.2 % 2 = 1 then loop.1.reverse else loop.1

/-- From every vertex to the next, and from the last to the first. -/
def loopEdges (vertices : List S2Point) : List Edge :=
  vertices.zip (vertices.tail ++ vertices.head?.toList)

theorem length_loopEdges (vertices : List S2Point) :
    (loopEdges vertices).length = vertices.length := by
  cases vertices <;> simp [loopEdges]

/-- Going round a loop is going along its vertices and back to the first. -/
theorem loopEdges_eq (vertex : S2Point) (vertices : List S2Point) :
    loopEdges (vertex :: vertices) = polylineEdges (vertex :: (vertices ++ [vertex])) := by
  change (vertex :: vertices).zip (vertices ++ [vertex]) =
    ((vertex :: vertices) ++ [vertex]).zip (vertices ++ [vertex])
  rw [← List.append_nil (vertices ++ [vertex]), List.zip_append (by simp)]
  simp

theorem length_orientedVertices (loop : StoredLoop) :
    (orientedVertices loop).length = loop.1.length := by
  unfold orientedVertices
  split <;> simp

/-- `S2Polygon::is_full`: the loop with one vertex, if that is in the southern hemisphere. -/
def isFull : List StoredLoop → Bool
  | [([vertex], _)] => vertex.z.isNegative
  | _ => false

/-- `S2Polygon::num_vertices`. -/
def numVertices (loops : List StoredLoop) : ℕ := (loops.map fun loop => loop.1.length).sum

def polygonNumEdges (loops : List StoredLoop) : ℕ :=
  if numVertices loops ≠ 1 then numVertices loops else if isFull loops then 0 else 1

def polygonEdges (loops : List StoredLoop) : List Edge :=
  if isFull loops then [] else loops.flatMap fun loop => loopEdges (orientedVertices loop)

theorem numVertices_of_isFull {loops : List StoredLoop} (h : isFull loops = true) :
    numVertices loops = 1 := by
  unfold isFull at h
  split at h
  · rfl
  · exact absurd h Bool.false_ne_true

theorem polygonNumEdges_of_not_isFull {loops : List StoredLoop} (h : isFull loops = false) :
    polygonNumEdges loops = numVertices loops := by
  unfold polygonNumEdges
  by_cases h1 : numVertices loops = 1
  · simp [h1, h]
  · simp [h1]

theorem length_polygonEdges (loops : List StoredLoop) :
    (polygonEdges loops).length = polygonNumEdges loops := by
  unfold polygonEdges
  by_cases h : isFull loops = true
  · simp [h, polygonNumEdges, numVertices_of_isFull h]
  · have h' : isFull loops = false := by simpa using h
    rw [if_neg h, polygonNumEdges_of_not_isFull h', List.length_flatMap, numVertices]
    simp [length_loopEdges, length_orientedVertices]

/-- `S2Polygon::Shape`. -/
def polygonShape (loops : List StoredLoop) : Shape where
  dimension := 2
  numEdges := polygonNumEdges loops
  numChains := loops.length
  edges := polygonEdges loops
  length_edges := length_polygonEdges loops

theorem ShapeCounts.isEmpty_iff (shape : ShapeCounts) :
    shape.isEmpty = true ↔ shape.numEdges = 0 ∧ (shape.dimension < 2 ∨ shape.numChains = 0) := by
  simp [ShapeCounts.isEmpty]

theorem isEmpty_pointShape (points : List S2Point) :
    (pointShape points).isEmpty = true ↔ points = [] := by
  rw [ShapeCounts.isEmpty_iff]
  simp [pointShape]

theorem isEmpty_polylineShape (vertices : List S2Point) :
    (polylineShape vertices).isEmpty = true ↔ vertices.length < 2 := by
  rw [ShapeCounts.isEmpty_iff]
  change vertices.length - 1 = 0 ∧ (1 < 2 ∨ min 1 (vertices.length - 1) = 0) ↔ _
  omega

/-- The full polygon is not empty as a shape: it has a chain. -/
theorem isEmpty_polygonShape (loops : List StoredLoop) :
    (polygonShape loops).isEmpty = true ↔ loops = [] := by
  rw [ShapeCounts.isEmpty_iff]
  constructor
  · rintro ⟨-, hdimension | hchains⟩
    · exact absurd hdimension (Nat.lt_irrefl 2)
    · exact List.length_eq_zero_iff.mp hchains
  · rintro rfl
    exact ⟨rfl, Or.inr rfl⟩

namespace Geography

mutual

/-- `Shape(0)` to `Shape(num_shapes() - 1)`. -/
def shapes : Geography (List StoredLoop) → List Shape
  | point points => [pointShape points]
  | polyline polylines => polylines.map polylineShape
  | polygon loops => [polygonShape loops]
  | collection features => shapesAll features

def shapesAll : List (Geography (List StoredLoop)) → List Shape
  | [] => []
  | feature :: features => shapes feature ++ shapesAll features

end

mutual

theorem shapes_dimension : (geog : Geography (List StoredLoop)) →
    geog.shapes.map (·.dimension) = geog.shapeDimensions
  | point _ => rfl
  | polyline _ => List.map_map
  | polygon _ => rfl
  | collection features => shapesAll_dimension features

theorem shapesAll_dimension : (features : List (Geography (List StoredLoop))) →
    (shapesAll features).map (·.dimension) = shapeDimensionsAll features
  | [] => rfl
  | feature :: features => by
    rw [shapesAll, List.map_append, shapes_dimension feature, shapesAll_dimension features]
    rfl

end

mutual

/-- The points, polylines and polygons of a tree, in order. -/
def leaves {Pg : Type} : Geography Pg → List (Geography Pg)
  | point points => [point points]
  | polyline polylines => [polyline polylines]
  | polygon p => [polygon p]
  | collection features => leavesAll features

def leavesAll {Pg : Type} : List (Geography Pg) → List (Geography Pg)
  | [] => []
  | feature :: features => leaves feature ++ leavesAll features

end

mutual

theorem shapes_eq_flatMap : (geog : Geography (List StoredLoop)) →
    geog.shapes = geog.leaves.flatMap shapes
  | point _ | polyline _ | polygon _ => (List.flatMap_singleton ..).symm
  | collection features => shapesAll_eq_flatMap features

theorem shapesAll_eq_flatMap : (features : List (Geography (List StoredLoop))) →
    shapesAll features = (leavesAll features).flatMap shapes
  | [] => rfl
  | feature :: features => by
    rw [shapesAll, leavesAll, List.flatMap_append, ← shapes_eq_flatMap feature,
      ← shapesAll_eq_flatMap features]

end

mutual

/-- `Shape(id)`. -/
def shape : Geography (List StoredLoop) → ℕ → Except Fault Shape
  | point points, _ => .ok (pointShape points)
  | polyline polylines, id =>
    match polylines[id]? with
    | some vertices => .ok (polylineShape vertices)
    | none => .error .outOfBounds
  | polygon loops, _ => .ok (polygonShape loops)
  | collection features, id => shapeAll features 0 id

/-- The loop of `GeographyCollection::Shape`, with the shapes of the features before. -/
def shapeAll : List (Geography (List StoredLoop)) → ℕ → ℕ → Except Fault Shape
  | [], _, _ => .error (.stop "shape id out of bounds")
  | feature :: features, sumShapes, id =>
    if id < sumShapes + feature.numShapes then shape feature (id - sumShapes)
    else shapeAll features (sumShapes + feature.numShapes) id

end

theorem length_shapes (geog : Geography (List StoredLoop)) :
    geog.shapes.length = geog.numShapes := by
  rw [numShapes, ← shapes_dimension, List.length_map]

mutual

/-- `Shape(id)` finds the shapes by number, in nested collections too. -/
theorem shape_of_getElem? : (geog : Geography (List StoredLoop)) → (id : ℕ) → {s : Shape} →
    geog.shapes[id]? = some s → geog.shape id = .ok s
  | point points, id, s, h => by
    cases id with
    | zero => simpa [shapes, shape] using h
    | succ id => simp [shapes] at h
  | polyline polylines, id, s, h => by
    rw [shapes, List.getElem?_map, Option.map_eq_some_iff] at h
    obtain ⟨vertices, hvertices, rfl⟩ := h
    rw [shape, hvertices]
  | polygon loops, id, s, h => by
    cases id with
    | zero => simpa [shapes, shape] using h
    | succ id => simp [shapes] at h
  | collection features, id, s, h => by
    rw [shape]
    exact shapeAll_of_getElem? features 0 id (Nat.zero_le id) h

theorem shapeAll_of_getElem? : (features : List (Geography (List StoredLoop))) →
    (sumShapes id : ℕ) → sumShapes ≤ id → {s : Shape} →
    (shapesAll features)[id - sumShapes]? = some s → shapeAll features sumShapes id = .ok s
  | [], sumShapes, id, _, s, h => by simp [shapesAll] at h
  | feature :: features, sumShapes, id, hle, s, h => by
    rw [shapesAll, List.getElem?_append, length_shapes] at h
    rw [shapeAll]
    by_cases hlt : id < sumShapes + feature.numShapes
    · rw [if_pos (by omega)] at h
      rw [if_pos hlt]
      exact shape_of_getElem? feature (id - sumShapes) h
    · rw [if_neg (by omega), Nat.sub_sub] at h
      rw [if_neg hlt]
      exact shapeAll_of_getElem? features (sumShapes + feature.numShapes) id (by omega) h

end

end Geography

namespace Accessors

/-- `s2_dimension`: the largest dimension of a shape, -1 without shapes. -/
def s2Dimension (geog : Geography (List StoredLoop)) : ℤ :=
  if geog.dimension ≠ -1 then geog.dimension
  else geog.shapes.foldl (fun dimension shape =>
    if (shape.dimension : ℤ) > dimension then shape.dimension else dimension) geog.dimension

/-- What a shape adds to the number of points. -/
def shapeNumPoints (shape : Shape) : ℕ :=
  match shape.dimension with
  | 0 | 2 => shape.numEdges
  | 1 => shape.numEdges + shape.numChains
  | _ => 0

/-- `s2_num_points`. -/
def s2NumPoints (geog : Geography (List StoredLoop)) : ℕ := (geog.shapes.map shapeNumPoints).sum

/-- `s2_is_empty`. -/
def s2IsEmpty (geog : Geography (List StoredLoop)) : Bool :=
  geog.shapes.all fun shape => shape.isEmpty

end Accessors

end S2Geography
