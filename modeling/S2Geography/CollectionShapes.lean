import S2Geography.IndexedGeographies

/-!
# Shapes of a collection

A `GeographyCollection` counts the shapes of its features when it is made, and later finds
`Shape(id)` by subtracting these counts from the id, feature by feature. The ids it answers
are the positions in the list of all shapes; an index of shapes numbers them in this order.
-/
namespace S2Geography

open Exporter

namespace GeographyCollection

/-- `num_shapes_` and `total_shapes_`. -/
structure ShapeCounters where
  numShapes : List ℕ
  totalShapes : ℕ

mutual

/-- `num_shapes()`. -/
def numShapes : Geography (List StoredLoop) → ℕ
  | .point _ => 1
  | .polyline polylines => polylines.length
  | .polygon _ => 1
  | .collection features => (countShapes features ⟨[], 0⟩).totalShapes

/-- The loop of the constructor. -/
def countShapes : List (Geography (List StoredLoop)) → ShapeCounters → ShapeCounters
  | [], counters => counters
  | feature :: features, counters =>
    countShapes features
      ⟨counters.numShapes ++ [numShapes feature], counters.totalShapes + numShapes feature⟩

end

mutual

/-- `Shape(id)`. -/
def shape : Geography (List StoredLoop) → ℤ → Except Fault Shape
  | .point points, _ => .ok (pointShape points)
  | .polyline polylines, id =>
    if id < 0 then .error .outOfBounds
    else
      match polylines[id.toNat]? with
      | some vertices => .ok (polylineShape vertices)
      | none => .error .outOfBounds
  | .polygon loops, _ => .ok (polygonShape loops)
  | .collection features, id =>
    findShape features (countShapes features ⟨[], 0⟩).numShapes 0 id

/-- The loop of `GeographyCollection::Shape`, over the features and their counts. -/
def findShape : List (Geography (List StoredLoop)) → List ℕ → ℤ → ℤ → Except Fault Shape
  | [], _, _, _ => .error (.stop "shape id out of bounds")
  | _ :: _, [], _, _ => .error .outOfBounds
  | feature :: features, count :: counts, sumShapes, id =>
    let sumShapes := sumShapes + count
    if id < sumShapes then shape feature (id - sumShapes + count)
    else findShape features counts sumShapes id

end

/-- `Shape(0)` to `Shape(num_shapes() - 1)`. -/
def allShapes (geog : Geography (List StoredLoop)) : Except Fault (List Shape) :=
  (List.range (numShapes geog)).mapM fun id : ℕ => shape geog id

end GeographyCollection

/-- `ShapeIndexGeography`: its index holds the shapes in the order of their ids. -/
structure ShapeIndexGeography where
  shapeIndex : List Shape

namespace ShapeIndexGeography

/-- `MutableS2ShapeIndex::Add`, which returns the id of the new shape. -/
def addShape (index : ShapeIndexGeography) (shape : Shape) : ShapeIndexGeography × ℤ :=
  (⟨index.shapeIndex ++ [shape]⟩, index.shapeIndex.length)

/-- `ShapeIndexGeography::Add`. -/
def add (index : ShapeIndexGeography) (geog : Geography (List StoredLoop)) :
    Except Fault (ShapeIndexGeography × ℤ) :=
  (List.range (GeographyCollection.numShapes geog)).foldlM (fun state (i : ℕ) => do
    let shape ← GeographyCollection.shape geog i
    return state.1.addShape shape) (index, -1)

end ShapeIndexGeography

namespace GeographyCollection

/-! ### Counts -/

theorem countShapes_eq (features : List (Geography (List StoredLoop)))
    (counters : ShapeCounters) :
    countShapes features counters = ⟨counters.numShapes ++ features.map numShapes,
      counters.totalShapes + (features.map numShapes).sum⟩ := by
  induction features generalizing counters with
  | nil => simp [countShapes]
  | cons feature features ih =>
    rw [countShapes, ih]
    simp [Nat.add_assoc]

theorem numShapes_collection (features : List (Geography (List StoredLoop))) :
    numShapes (.collection features) = (features.map numShapes).sum := by
  rw [numShapes, countShapes_eq]
  exact Nat.zero_add _

mutual

theorem length_shapes : (geog : Geography (List StoredLoop)) →
    geog.shapes.length = numShapes geog
  | .point _ => rfl
  | .polyline _ => List.length_map _
  | .polygon _ => rfl
  | .collection features => by
    rw [numShapes_collection, Geography.shapes]
    exact length_shapesAll features

theorem length_shapesAll : (features : List (Geography (List StoredLoop))) →
    (Geography.shapesAll features).length = (features.map numShapes).sum
  | [] => rfl
  | feature :: features => by
    rw [Geography.shapesAll, List.length_append, length_shapes feature,
      length_shapesAll features, List.map_cons, List.sum_cons]

end

/-! ### Ids -/

mutual

/-- `Shape(id)` returns the shape at the position. -/
theorem shape_of_getElem? : (geog : Geography (List StoredLoop)) → (id : ℕ) → {s : Shape} →
    geog.shapes[id]? = some s → shape geog id = .ok s
  | .point points, id, s, h => by
    cases id with
    | zero => simpa [Geography.shapes, shape] using h
    | succ id => simp [Geography.shapes] at h
  | .polyline polylines, id, s, h => by
    rw [Geography.shapes, List.getElem?_map, Option.map_eq_some_iff] at h
    obtain ⟨vertices, hvertices, rfl⟩ := h
    rw [shape, Int.toNat_natCast, hvertices]
    exact if_neg (Int.natCast_nonneg id).not_gt
  | .polygon loops, id, s, h => by
    cases id with
    | zero => simpa [Geography.shapes, shape] using h
    | succ id => simp [Geography.shapes] at h
  | .collection features, id, s, h => by
    rw [shape, countShapes_eq]
    have hfind := findShape_of_getElem? features 0 id h
    rwa [Nat.zero_add] at hfind

/-- The features before hold `sumShapes` shapes. -/
theorem findShape_of_getElem? : (features : List (Geography (List StoredLoop))) →
    (sumShapes id : ℕ) → {s : Shape} → (Geography.shapesAll features)[id]? = some s →
    findShape features (features.map numShapes) sumShapes (sumShapes + id : ℕ) = .ok s
  | [], sumShapes, id, s, h => by simp [Geography.shapesAll] at h
  | feature :: features, sumShapes, id, s, h => by
    rw [Geography.shapesAll, List.getElem?_append, length_shapes] at h
    rw [List.map_cons, findShape]
    by_cases hlt : id < numShapes feature
    · rw [if_pos hlt] at h
      have hid : ((sumShapes + id : ℕ) : ℤ) - (sumShapes + numShapes feature) +
          numShapes feature = (id : ℕ) := by omega
      rw [if_pos (by omega), hid]
      exact shape_of_getElem? feature id h
    · rw [if_neg hlt] at h
      have hrest := findShape_of_getElem? features (sumShapes + numShapes feature)
        (id - numShapes feature) h
      have hid : sumShapes + numShapes feature + (id - numShapes feature) = sumShapes + id := by
        omega
      rw [hid, Nat.cast_add sumShapes (numShapes feature)] at hrest
      rw [if_neg (by omega)]
      exact hrest

end

theorem allShapes_eq (geog : Geography (List StoredLoop)) : allShapes geog = .ok geog.shapes := by
  rw [allShapes, ← length_shapes]
  exact CheckedRun.mapM_range_eq geog.shapes fun id _ h => shape_of_getElem? geog id h

theorem mapM_allShapes (features : List (Geography (List StoredLoop))) :
    features.mapM allShapes = .ok (features.map Geography.shapes) := by
  induction features with
  | nil => rfl
  | cons feature features ih =>
    rw [List.mapM_cons, allShapes_eq, ih]
    rfl

theorem shapesAll_eq_flatten (features : List (Geography (List StoredLoop))) :
    Geography.shapesAll features = (features.map Geography.shapes).flatten := by
  induction features with
  | nil => rfl
  | cons feature features ih => rw [Geography.shapesAll, ih, List.map_cons, List.flatten_cons]

/-! ### The index -/

/-- Every shape gets the number of shapes before it; the last of these numbers is returned. -/
theorem foldl_addShape (shapes : List Shape) (index : ShapeIndexGeography) (id : ℤ) :
    shapes.foldl (fun state shape => state.1.addShape shape) (index, id) =
      (⟨index.shapeIndex ++ shapes⟩,
        if shapes = [] then id else index.shapeIndex.length + shapes.length - 1) := by
  induction shapes generalizing index id with
  | nil => simp
  | cons shape shapes ih =>
    rw [List.foldl_cons, ShapeIndexGeography.addShape, ih]
    have hlength : (index.shapeIndex.length : ℤ) + (shape :: shapes).length - 1 =
        (index.shapeIndex ++ [shape]).length + shapes.length - 1 := by
      rw [List.length_append, List.length_cons, List.length_singleton]
      omega
    by_cases hnil : shapes = []
    · simp [hnil]
    · rw [if_neg hnil, if_neg (List.cons_ne_nil shape shapes), hlength, List.append_assoc]
      rfl

theorem add_eq (index : ShapeIndexGeography) (geog : Geography (List StoredLoop)) :
    index.add geog = .ok (⟨index.shapeIndex ++ geog.shapes⟩,
      if geog.shapes = [] then -1 else index.shapeIndex.length + geog.shapes.length - 1) := by
  rw [ShapeIndexGeography.add, ← length_shapes, ← foldl_addShape geog.shapes index (-1)]
  exact GeographyIndex.foldlM_range_eq (fun state shape => state.1.addShape shape) geog.shapes
    (fun i _ h => shape_of_getElem? geog i h) (index, -1)

/-- A collection has the shapes of its features, in order and under consecutive ids, and an
index takes them over in this order. -/
theorem collection_shapes :
    (∀ features, numShapes (.collection features) = (features.map numShapes).sum) ∧
    (∀ features, allShapes (.collection features) = List.flatten <$> features.mapM allShapes) ∧
    (∀ geog, ∃ shapes, allShapes geog = .ok shapes ∧ shapes.length = numShapes geog) ∧
    (∀ geog (id : ℤ), 0 ≤ id → id < numShapes geog → ∃ s, shape geog id = .ok s) ∧
    (∀ geog shapes index, allShapes geog = .ok shapes →
      ShapeIndexGeography.add index geog = .ok (⟨index.shapeIndex ++ shapes⟩,
        if shapes = [] then -1 else index.shapeIndex.length + shapes.length - 1)) := by
  refine ⟨numShapes_collection, ?_, ?_, ?_, ?_⟩
  · intro features
    rw [allShapes_eq, mapM_allShapes, Geography.shapes, shapesAll_eq_flatten]
    rfl
  · intro geog
    exact ⟨geog.shapes, allShapes_eq geog, length_shapes geog⟩
  · intro geog id hnonneg hlt
    obtain ⟨i, rfl⟩ := Int.eq_ofNat_of_zero_le hnonneg
    have hi : i < geog.shapes.length := by
      rw [length_shapes]
      exact Int.ofNat_lt.mp hlt
    exact ⟨geog.shapes[i], shape_of_getElem? geog i (List.getElem?_eq_getElem hi)⟩
  · intro geog shapes index h
    rw [allShapes_eq, Except.ok.injEq] at h
    rw [add_eq, h]

end GeographyCollection

end S2Geography
