import S2Geography.CellIterator
import S2Geography.GeographyOperator
import Mathlib.Data.Finset.Basic

/-!
# The index of a vector of geographies

`GeographyIndex` adds the shapes of every feature to one shape index and remembers,
per shape id, the value its feature was added with. Its iterator collects the values
of the shapes listed in the index cells that meet a covering.
-/
namespace S2Geography

variable {Sh V : Type}

/-- The shapes in the order of their ids, and `values_`. The matrix operators add features
with their positions in a vector. -/
structure GeographyIndex (Sh : Type) (V : Type := ℕ) where
  shapes : List Sh
  values : List V
  aligned : values.length = shapes.length

namespace GeographyIndex

def empty : GeographyIndex Sh V := ⟨[], [], rfl⟩

section

variable [Zero V]

/-- `std::vector::resize`, which cuts off or fills up with zeros. -/
def resize (values : List V) (n : ℕ) : List V :=
  values.take n ++ List.replicate (n - values.length) 0

theorem length_resize (values : List V) (n : ℕ) : (resize values n).length = n := by
  simp only [resize, List.length_append, List.length_take, List.length_replicate]
  omega

/-- One turn of the loop in `Add`. A new shape gets the number of shapes as its id. -/
def addShape (value : V) (index : GeographyIndex Sh V) (shape : Sh) : GeographyIndex Sh V :=
  let newShapeId := index.shapes.length
  ⟨index.shapes ++ [shape], (resize index.values (newShapeId + 1)).set newShapeId value,
    by simp [length_resize, newShapeId]⟩

/-- `GeographyIndex::Add`, for a feature with the given shapes. -/
def add (index : GeographyIndex Sh V) (shapes : List Sh) (value : V) : GeographyIndex Sh V :=
  shapes.foldl (addShape value) index

theorem addShape_shapes (value : V) (index : GeographyIndex Sh V) (shape : Sh) :
    (index.addShape value shape).shapes = index.shapes ++ [shape] := rfl

theorem addShape_values (value : V) (index : GeographyIndex Sh V) (shape : Sh) :
    (index.addShape value shape).values = index.values ++ [value] := by
  have hlen := index.aligned
  have hres : resize index.values (index.shapes.length + 1) = index.values ++ [0] := by
    rw [resize, ← hlen, List.take_of_length_le (by omega)]
    simp
  simp only [addShape, hres]
  rw [← hlen, List.set_append_right _ _ le_rfl]
  simp

theorem add_shapes (index : GeographyIndex Sh V) (shapes : List Sh) (value : V) :
    (index.add shapes value).shapes = index.shapes ++ shapes := by
  induction shapes generalizing index with
  | nil => simp [add]
  | cons shape shapes ih =>
    have h := ih (index.addShape value shape)
    rw [addShape_shapes, List.append_assoc] at h
    exact h

theorem add_values (index : GeographyIndex Sh V) (shapes : List Sh) (value : V) :
    (index.add shapes value).values = index.values ++ List.replicate shapes.length value := by
  induction shapes generalizing index with
  | nil => simp [add]
  | cons shape shapes ih =>
    have h := ih (index.addShape value shape)
    rw [addShape_values, List.append_assoc] at h
    rw [List.length_cons, List.replicate_succ]
    exact h

/-- A run of `Add` calls, one for each pair of a feature's shapes and a value. -/
def addAll (index : GeographyIndex Sh V) (features : List (List Sh × V)) : GeographyIndex Sh V :=
  features.foldl (fun index feature => index.add feature.1 feature.2) index

/-- The shape ids of a feature are consecutive, and all carry its value: the shapes and
values of the index, side by side, are those of the features. -/
theorem addAll_zip (index : GeographyIndex Sh V) (features : List (List Sh × V)) :
    (index.addAll features).shapes.zip (index.addAll features).values =
      index.shapes.zip index.values ++
        features.flatMap fun feature => feature.1.map fun shape => (shape, feature.2) := by
  induction features generalizing index with
  | nil => simp [addAll]
  | cons feature features ih =>
    have h := ih (index.add feature.1 feature.2)
    have hzip : feature.1.zip (List.replicate feature.1.length feature.2) =
        feature.1.map fun shape => (shape, feature.2) :=
      List.ext_getElem (by simp) (by simp)
    rw [add_shapes, add_values, List.zip_append index.aligned.symm, hzip, List.append_assoc] at h
    exact h

end

def value (index : GeographyIndex Sh V) (shapeId : ℕ) : Option V := index.values[shapeId]?

/-- A fold of insertions that never fails inserts what its steps insert. -/
theorem foldlM_insert {β : Type} {step : Finset V → β → Except Fault (Finset V)}
    {adds : β → V → Prop} (xs : List β)
    (h : ∀ x ∈ xs, ∀ indices, ∃ out, step indices x = .ok out ∧
      ∀ v, v ∈ out ↔ v ∈ indices ∨ adds x v) (indices : Finset V) :
    ∃ out, xs.foldlM step indices = .ok out ∧
      ∀ v, v ∈ out ↔ v ∈ indices ∨ ∃ x ∈ xs, adds x v := by
  induction xs generalizing indices with
  | nil => exact ⟨indices, rfl, by simp⟩
  | cons x xs ih =>
    obtain ⟨mid, hmid, hx⟩ := h x (by simp) indices
    obtain ⟨out, hout, hxs⟩ := ih (fun y hy => h y (by simp [hy])) mid
    refine ⟨out, ?_, fun v => ?_⟩
    · rw [List.foldlM_cons, hmid]
      exact hout
    · rw [hxs v, hx v]
      simp [or_assoc]

variable [DecidableEq V]

/-- Inserts the value of one clipped shape. -/
def insertShape (index : GeographyIndex Sh V) (indices : Finset V) (shapeId : ℕ) :
    Except Fault (Finset V) :=
  match index.value shapeId with
  | some value => .ok (insert value indices)
  | none => .error .outOfBounds

/-- The loop over the clipped shapes of an index cell. -/
def insertCell (index : GeographyIndex Sh V) (indices : Finset V) (cell : IndexCell) :
    Except Fault (Finset V) :=
  cell.shapeIds.foldlM index.insertShape indices

/-- The `while` loop over the index cells inside `cellId`, from the iterator's position. -/
def insertChildren (index : GeographyIndex Sh V) (cellId : S2CellId) :
    List IndexCell → Finset V → Except Fault (Finset V)
  | [], indices => .ok indices
  | cell :: rest, indices =>
    if cellId.contains cell.id then do
      let indices ← index.insertCell indices cell
      insertChildren index cellId rest indices
    else .ok indices

/-- `Iterator::Query` for one cell. `Locate` positions the iterator anew, so nothing of
an earlier query is left. -/
def queryCell (index : GeographyIndex Sh V) (cells : CellMap) (indices : Finset V)
    (cellId : S2CellId) : Except Fault (Finset V) :=
  match CellIterator.locate cells cellId with
  | (.indexed, it) =>
    match it.rest with
    | [] => .error .outOfBounds
    | cell :: _ => index.insertCell indices cell
  | (.subdivided, it) => index.insertChildren cellId it.rest indices
  | (.disjoint, _) => .ok indices

/-- `Iterator::Query` for a covering. -/
def query (index : GeographyIndex Sh V) (cells : CellMap) (covering : List S2CellId)
    (indices : Finset V) : Except Fault (Finset V) :=
  covering.foldlM (index.queryCell cells) indices

/-- The cell lists a shape that was added with the value. -/
def Lists (index : GeographyIndex Sh V) (cell : IndexCell) (v : V) : Prop :=
  ∃ shapeId ∈ cell.shapeIds, index.value shapeId = some v

/-- The cells list only ids of shapes of the index. -/
def Indexes (index : GeographyIndex Sh V) (cells : CellMap) : Prop :=
  ∀ cell ∈ cells.entries, ∀ shapeId ∈ cell.shapeIds, shapeId < index.shapes.length

variable {index : GeographyIndex Sh V} {cells : CellMap}

theorem insertCell_spec {cell : IndexCell}
    (h : ∀ shapeId ∈ cell.shapeIds, shapeId < index.shapes.length) (indices : Finset V) :
    ∃ out, index.insertCell indices cell = .ok out ∧
      ∀ v, v ∈ out ↔ v ∈ indices ∨ index.Lists cell v := by
  refine @foldlM_insert V _ index.insertShape (fun shapeId v => index.value shapeId = some v)
    cell.shapeIds ?_ indices
  intro shapeId hs indices
  have hlt : shapeId < index.values.length := index.aligned ▸ h shapeId hs
  have hval : index.value shapeId = some index.values[shapeId] := List.getElem?_eq_getElem hlt
  refine ⟨insert index.values[shapeId] indices, by simp [insertShape, hval], fun v => ?_⟩
  rw [Finset.mem_insert, hval, Option.some.injEq, or_comm, eq_comm]

/-- The cells inside `cellId` stand together at the front, so the loop meets them all. -/
theorem insertChildren_spec {cellId : S2CellId} (rest : List IndexCell)
    (hord : rest.Pairwise (fun a b => a.id < b.id)) (hmin : ∀ e ∈ rest, cellId.rangeMin ≤ e.id)
    (h : ∀ e ∈ rest, ∀ shapeId ∈ e.shapeIds, shapeId < index.shapes.length)
    (indices : Finset V) :
    ∃ out, index.insertChildren cellId rest indices = .ok out ∧
      ∀ v, v ∈ out ↔ v ∈ indices ∨
        ∃ e ∈ rest, cellId.contains e.id = true ∧ index.Lists e v := by
  induction rest generalizing indices with
  | nil => exact ⟨indices, rfl, by simp⟩
  | cons e rest ih =>
    obtain ⟨hlt, hord⟩ := List.pairwise_cons.mp hord
    by_cases hc : cellId.contains e.id = true
    · obtain ⟨mid, hmid, he⟩ := insertCell_spec (h e (by simp)) indices
      obtain ⟨out, hout, hrest⟩ := ih hord (fun x hx => hmin x (by simp [hx]))
        (fun x hx => h x (by simp [hx])) mid
      refine ⟨out, ?_, fun v => ?_⟩
      · rw [insertChildren, if_pos hc, hmid]
        exact hout
      · rw [hrest v, he v]
        simp [hc, or_assoc]
    · refine ⟨indices, by simp [insertChildren, hc], fun v => ?_⟩
      -- a cell past the range of `cellId` is followed by such cells only
      have hpast : ∀ x ∈ e :: rest, ¬ cellId.contains x.id = true := by
        intro x hx hcx
        refine hc (S2CellId.contains_eq_true.mpr ⟨hmin e (by simp), ?_⟩)
        have hmax := (S2CellId.contains_eq_true.mp hcx).2
        rcases List.mem_cons.mp hx with rfl | hx
        · exact hmax
        · exact (hlt x hx).le.trans hmax
      constructor
      · exact Or.inl
      · rintro (hv | ⟨x, hx, hcx, -⟩)
        · exact hv
        · exact absurd hcx (hpast x hx)

/-- A query with one cell adds the values listed by the index cells that meet it,
whether those cells are larger than, equal to or smaller than it. -/
theorem queryCell_spec (hcells : index.Indexes cells) {cellId : S2CellId}
    (hid : cellId ≠ S2CellId.none) (indices : Finset V) :
    ∃ out, index.queryCell cells indices cellId = .ok out ∧
      ∀ v, v ∈ out ↔ v ∈ indices ∨
        ∃ e ∈ cells.entries, cellId.intersects e.id = true ∧ index.Lists e v := by
  rcases CellIterator.locate_cases cells hid with
    ⟨e, it, rest, hloc, hrest, he, hce⟩ | ⟨e, rest, hloc, hrest, hce⟩ | ⟨it, hloc, hnone⟩
  · -- the target lies in one index cell, and meets no other
    obtain ⟨out, hout, hmem⟩ := insertCell_spec (hcells e he) indices
    have hmeets := fun f (hf : f ∈ cells.entries) => cells.intersects_iff_eq hid he hf hce
    refine ⟨out, by simp [queryCell, hloc, hrest, hout], fun v => ?_⟩
    rw [hmem v]
    refine or_congr_right ⟨fun hv => ⟨e, he, (hmeets e he).mpr rfl, hv⟩, ?_⟩
    rintro ⟨f, hf, hint, hv⟩
    exact (hmeets f hf).mp hint ▸ hv
  · -- index cells inside the target start at the position reached
    have hmem := CellIterator.mem_seek cells cellId.rangeMin
    have hord := cells.id_ordered
    rw [CellIterator.seek_split cells cellId.rangeMin] at hord
    have hsub : ∀ x ∈ (CellIterator.seek cells cellId.rangeMin).rest, x ∈ cells.entries :=
      fun x hx => (hmem x).mpr (Or.inr hx)
    obtain ⟨out, hout, hv⟩ := @insertChildren_spec Sh V _ index cellId
      (CellIterator.seek cells cellId.rangeMin).rest (List.pairwise_append.mp hord).2.1
      (CellIterator.seek_rest cells cellId.rangeMin) (fun x hx => hcells x (hsub x hx)) indices
    have hmeets := fun f (hf : f ∈ cells.entries) =>
      cells.intersects_iff_contains hid (hsub e (by simp [hrest])) hf hce
    refine ⟨out, by simp [queryCell, hloc, hout], fun v => ?_⟩
    rw [hv v]
    refine or_congr_right ⟨?_, ?_⟩
    · rintro ⟨x, hx, hcx, hl⟩
      exact ⟨x, hsub x hx, (hmeets x (hsub x hx)).mpr hcx, hl⟩
    · rintro ⟨f, hf, hint, hl⟩
      have hcf := (hmeets f hf).mp hint
      refine ⟨f, ?_, hcf, hl⟩
      rcases (hmem f).mp hf with hb | hr
      · exact absurd (S2CellId.contains_eq_true.mp hcf).1
          (not_le_of_gt (CellIterator.seek_before cells cellId.rangeMin f hb))
      · exact hr
  · refine ⟨indices, by simp [queryCell, hloc], fun v => ?_⟩
    constructor
    · exact Or.inl
    · rintro (hv | ⟨e, he, hint, -⟩)
      · exact hv
      · exact absurd hint (by simp [hnone e he])

/-- A query with a covering adds the values listed by the index cells that meet a cell
of the covering, and reads no value out of bounds. -/
theorem query_spec (hcells : index.Indexes cells) {covering : List S2CellId}
    (hcov : ∀ c ∈ covering, c ≠ S2CellId.none) (indices : Finset V) :
    ∃ out, index.query cells covering indices = .ok out ∧
      ∀ v, v ∈ out ↔ v ∈ indices ∨ ∃ c ∈ covering, ∃ e ∈ cells.entries,
        c.intersects e.id = true ∧ index.Lists e v :=
  @foldlM_insert V _ (index.queryCell cells)
    (fun c v => ∃ e ∈ cells.entries, c.intersects e.id = true ∧ index.Lists e v)
    covering (fun c hc => queryCell_spec hcells (hcov c hc)) indices

end GeographyIndex

end S2Geography
