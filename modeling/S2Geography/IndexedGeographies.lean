import S2Geography.GeographyIndex
import S2Geography.SerializeRoundTrip
import S2Geography.Shapes

/-!
# Queries on an index of geographies

The shape ids of an index run through the geographies in the order in which they were
added, a block for each of them. `values_` keeps to these blocks, so a query returns the
values of the geographies whose shapes are listed, whatever their numbers of shapes.
-/
namespace S2Geography.GeographyIndex

open Exporter

variable {Sh V : Type} [Zero V]

/-- `GeographyIndex::Add`: the loop over the shapes of a geography. -/
def addGeography (index : GeographyIndex Shape V) (geog : Geography (List StoredLoop))
    (value : V) : Except Fault (GeographyIndex Shape V) :=
  (List.range geog.numShapes).foldlM (fun index i => do
    let shape ← geog.shape i
    return index.addShape value shape) index

/-- A run of `Add` calls. -/
def addGeographies (index : GeographyIndex Shape V)
    (features : List (Geography (List StoredLoop) × V)) :
    Except Fault (GeographyIndex Shape V) :=
  features.foldlM (fun index feature => index.addGeography feature.1 feature.2) index

/-- A loop that reads a list by number is a fold over the list. -/
theorem foldlM_range_eq {α β : Type} {read : ℕ → Except Fault α} (step : β → α → β)
    (xs : List α) (h : ∀ i x, xs[i]? = some x → read i = .ok x) (b : β) :
    (List.range xs.length).foldlM (fun b i => do
      let x ← read i
      return step b x) b = .ok (xs.foldl step b) := by
  induction xs generalizing read b with
  | nil => rfl
  | cons x xs ih =>
    rw [List.length_cons, List.range_succ_eq_map, List.foldlM_cons, h 0 x rfl]
    change List.foldlM _ (step b x) (List.map Nat.succ (List.range xs.length)) = _
    rw [List.foldlM_map]
    exact ih (fun i y hy => h (i + 1) y hy) (step b x)

theorem addGeography_eq (index : GeographyIndex Shape V) (geog : Geography (List StoredLoop))
    (value : V) : index.addGeography geog value = .ok (index.add geog.shapes value) := by
  rw [addGeography, ← Geography.length_shapes]
  exact foldlM_range_eq (addShape value) geog.shapes
    (fun i _ h => Geography.shape_of_getElem? geog i h) index

/-- Adding geographies never fails, and adds the shapes of each with its value. -/
theorem addGeographies_eq (index : GeographyIndex Shape V)
    (features : List (Geography (List StoredLoop) × V)) :
    index.addGeographies features =
      .ok (index.addAll (features.map fun feature => (feature.1.shapes, feature.2))) := by
  induction features generalizing index with
  | nil => rfl
  | cons feature features ih =>
    rw [addGeographies, List.foldlM_cons, addGeography_eq]
    exact ih (index.add feature.1.shapes feature.2)

/-! ### Shape ids -/

/-- The number of shapes added before the next feature. -/
def numAdded (features : List (List Sh × V)) : ℕ :=
  (features.map fun feature => feature.1.length).sum

omit [Zero V] in
theorem numAdded_cons (feature : List Sh × V) (features : List (List Sh × V)) :
    numAdded (feature :: features) = feature.1.length + numAdded features := by
  simp [numAdded]

/-- The id is that of a shape of a feature added with the value. -/
def AddedFor (features : List (List Sh × V)) (shapeId : ℕ) (shape : Sh) (v : V) : Prop :=
  ∃ before shapes after, features = before ++ (shapes, v) :: after ∧
    ∃ i, shapes[i]? = some shape ∧ shapeId = numAdded before + i

omit [Zero V] in
/-- The ids of the first feature come first, and those of the others after them. -/
theorem addedFor_cons_iff (first : List Sh × V) (features : List (List Sh × V)) (shapeId : ℕ)
    (shape : Sh) (v : V) :
    AddedFor (first :: features) shapeId shape v ↔
      v = first.2 ∧ first.1[shapeId]? = some shape ∨
      first.1.length ≤ shapeId ∧ AddedFor features (shapeId - first.1.length) shape v := by
  constructor
  · rintro ⟨before, shapes, after, heq, i, hi, rfl⟩
    cases before with
    | nil =>
      obtain ⟨rfl, rfl⟩ := List.cons.inj heq
      exact Or.inl ⟨rfl, by simpa [numAdded] using hi⟩
    | cons feature before =>
      obtain ⟨rfl, rfl⟩ := List.cons.inj heq
      rw [numAdded_cons]
      exact Or.inr ⟨by omega, before, shapes, after, rfl, i, hi, by omega⟩
  · rintro (⟨rfl, hi⟩ | ⟨hle, before, shapes, after, rfl, i, hi, hid⟩)
    · exact ⟨[], first.1, features, rfl, shapeId, hi, by simp [numAdded]⟩
    · refine ⟨first :: before, shapes, after, rfl, i, hi, ?_⟩
      rw [numAdded_cons]
      omega

omit [Zero V] in
/-- The shapes of the features in order, each with the value of its feature. -/
theorem getElem?_flatMap_iff (features : List (List Sh × V)) (shapeId : ℕ) (shape : Sh) (v : V) :
    (features.flatMap fun feature => feature.1.map fun shape => (shape, feature.2))[shapeId]? =
      some (shape, v) ↔ AddedFor features shapeId shape v := by
  induction features generalizing shapeId with
  | nil =>
    refine ⟨fun h => by simp at h, ?_⟩
    rintro ⟨before, shapes, after, heq, -⟩
    simp at heq
  | cons first features ih =>
    rw [List.flatMap_cons, List.getElem?_append, List.length_map, addedFor_cons_iff, ← ih]
    by_cases hlt : shapeId < first.1.length
    · have hlater : ¬first.1.length ≤ shapeId := not_le_of_gt hlt
      rw [if_pos hlt, List.getElem?_map, or_iff_left (fun h => hlater h.1),
        Option.map_eq_some_iff]
      constructor
      · rintro ⟨shape', hshape, heq⟩
        cases heq
        exact ⟨rfl, hshape⟩
      · rintro ⟨rfl, hshape⟩
        exact ⟨shape, hshape, rfl⟩
    · have hnone : first.1[shapeId]? = none := List.getElem?_eq_none (not_lt.mp hlt)
      rw [if_neg hlt, hnone]
      simp [not_lt.mp hlt]

/-- The shape with an id, and the value of the id, are those that were added. -/
theorem getElem?_addAll_iff (features : List (List Sh × V)) (shapeId : ℕ) (shape : Sh) (v : V) :
    (empty.addAll features).shapes[shapeId]? = some shape ∧
      (empty.addAll features).value shapeId = some v ↔ AddedFor features shapeId shape v := by
  rw [value, ← getElem?_flatMap_iff, ← List.nil_append (List.flatMap _ features)]
  have hzip := addAll_zip (empty : GeographyIndex Sh V) features
  rw [show (empty : GeographyIndex Sh V).shapes.zip (empty : GeographyIndex Sh V).values = []
    from rfl] at hzip
  rw [← hzip, List.getElem?_zip_eq_some]

/-! ### Queries -/

/-- The cells built for a list of shapes only list ids of these shapes. -/
def ListsShapes (cells : List Sh → CellMap) : Prop :=
  ∀ shapes, ∀ e ∈ (cells shapes).entries, ∀ shapeId ∈ e.shapeIds, shapeId < shapes.length

/-- A cell lists a value if it lists the id of a shape that was added for the value. -/
theorem lists_addAll_iff (features : List (List Sh × V)) (e : IndexCell) (v : V) :
    (empty.addAll features).Lists e v ↔
      ∃ shapeId ∈ e.shapeIds, ∃ shape, (empty.addAll features).shapes[shapeId]? = some shape ∧
        AddedFor features shapeId shape v := by
  refine exists_congr fun shapeId => and_congr_right fun _ => ?_
  constructor
  · intro hv
    have hlt := (List.getElem?_eq_some_iff.mp hv).1
    rw [(empty.addAll features).aligned] at hlt
    have hshape := List.getElem?_eq_getElem hlt
    exact ⟨_, hshape, (getElem?_addAll_iff features shapeId _ v).mp ⟨hshape, hv⟩⟩
  · rintro ⟨shape, -, hadded⟩
    exact ((getElem?_addAll_iff features shapeId shape v).mpr hadded).2

/-- A query adds the values for which a shape was added that is listed in an index cell
meeting a cell of the covering, and no others. -/
theorem query_geographies [DecidableEq V] {cells : List Shape → CellMap}
    (hcells : ListsShapes cells) (features : List (Geography (List StoredLoop) × V))
    {covering : List S2CellId} (hcovering : ∀ c ∈ covering, c.isValid = true)
    (indices : Finset V) :
    ∃ index out, (empty : GeographyIndex Shape V).addGeographies features = .ok index ∧
      index.query (cells index.shapes) covering indices = .ok out ∧
      ∀ v, v ∈ out ↔ v ∈ indices ∨ ∃ c ∈ covering, ∃ e ∈ (cells index.shapes).entries,
        c.intersects e.id = true ∧ ∃ shapeId ∈ e.shapeIds, ∃ shape,
          index.shapes[shapeId]? = some shape ∧
          AddedFor (features.map fun feature => (feature.1.shapes, feature.2)) shapeId shape v := by
  obtain ⟨out, hout, hmem⟩ := query_spec
    (fun e he shapeId hs => hcells (empty.addAll (features.map fun feature =>
      (feature.1.shapes, feature.2))).shapes e he shapeId hs)
    (fun c hc => S2CellId.ne_none_of_isValid (hcovering c hc)) indices
  refine ⟨_, out, addGeographies_eq empty features, hout, fun v => ?_⟩
  rw [hmem v]
  simp only [lists_addAll_iff]

/-- Shapes at the centre of a face share the cell of the face. -/
def faceCells (shapes : List Shape) : CellMap :=
  if (shapes.all fun shape => shape.edges.isEmpty) then .empty
  else ⟨[⟨⟨0x1000000000000000#64⟩, (List.range shapes.length).filter fun shapeId =>
    shapes[shapeId]?.any fun shape => !shape.edges.isEmpty⟩], by simp; decide, by simp⟩

theorem listsShapes_faceCells : ListsShapes faceCells := by
  intro shapes e he shapeId hs
  unfold faceCells at he
  split at he
  · exact absurd he List.not_mem_nil
  · obtain rfl := List.mem_singleton.mp he
    exact List.mem_range.mp (List.mem_filter.mp hs).1

/-- Features with several, one and no shapes, and a value used twice. -/
def mixedFeatures : List (Geography (List StoredLoop) × ℤ) :=
  [(.collection [.point [axisX], .collection [.point []], .polyline []], 4), (.polyline [], 7),
    (.point [axisX], -1), (.point [], 5), (.point [axisX], 4)]

/-- A cell inside a face, and another face. -/
def twoCells : List S2CellId := [⟨0x0400000000000000#64⟩, ⟨0x3000000000000000#64⟩]

theorem query_geographies_mixed :
    ∃ index out, (empty : GeographyIndex Shape ℤ).addGeographies mixedFeatures = .ok index ∧
      index.query (faceCells index.shapes) twoCells ∅ = .ok out ∧
      ∀ v, v ∈ out ↔ v ∈ (∅ : Finset ℤ) ∨ ∃ c ∈ twoCells, ∃ e ∈ (faceCells index.shapes).entries,
        c.intersects e.id = true ∧ ∃ shapeId ∈ e.shapeIds, ∃ shape,
          index.shapes[shapeId]? = some shape ∧
          AddedFor (mixedFeatures.map fun feature => (feature.1.shapes, feature.2)) shapeId shape
            v :=
  query_geographies listsShapes_faceCells mixedFeatures (by decide) ∅

end S2Geography.GeographyIndex
