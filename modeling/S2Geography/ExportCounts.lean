import S2Geography.SerializeRoundTrip
import S2Geography.Shapes
import Mathlib.Algebra.BigOperators.Group.List.Basic

/-!
# Counting what the exporter writes

The accessors count edges and chains, the exporter writes vertices. With an exporter that
writes one coordinate a vertex, the coordinates, rings and errors written add up over the
points, polylines and polygons of a geography.
-/
namespace S2Geography

/-- Numbers of coordinates, rings and errors. -/
@[ext]
structure Tally where
  coords : ℕ
  rings : ℕ
  errors : ℕ
  deriving DecidableEq, Repr

namespace Tally

instance : Zero Tally := ⟨⟨0, 0, 0⟩⟩

instance : Add Tally := ⟨fun a b => ⟨a.coords + b.coords, a.rings + b.rings, a.errors + b.errors⟩⟩

@[simp] theorem coords_zero : (0 : Tally).coords = 0 := rfl

@[simp] theorem rings_zero : (0 : Tally).rings = 0 := rfl

@[simp] theorem errors_zero : (0 : Tally).errors = 0 := rfl

@[simp] theorem coords_add (a b : Tally) : (a + b).coords = a.coords + b.coords := rfl

@[simp] theorem rings_add (a b : Tally) : (a + b).rings = a.rings + b.rings := rfl

@[simp] theorem errors_add (a b : Tally) : (a + b).errors = a.errors + b.errors := rfl

instance : AddCommMonoid Tally where
  add_assoc a b c := by ext <;> simp [Nat.add_assoc]
  zero_add a := by ext <;> simp
  add_zero a := by ext <;> simp
  add_comm a b := by ext <;> simp [Nat.add_comm]
  nsmul := nsmulRec

end Tally

def WkEvent.tally : WkEvent → Tally
  | .coord _ _ => ⟨1, 0, 0⟩
  | .ringStart _ _ => ⟨0, 1, 0⟩
  | .error _ => ⟨0, 0, 1⟩
  | _ => 0

/-- The coordinates, rings and errors among events. -/
def tally (es : List WkEvent) : Tally := (es.map WkEvent.tally).sum

theorem tally_append (es es' : List WkEvent) : tally (es ++ es') = tally es + tally es' := by
  rw [tally, List.map_append, List.sum_append]
  rfl

theorem exists_error_of_errors_ne_zero {es : List WkEvent} (h : (tally es).errors ≠ 0) :
    ∃ message, .error message ∈ es := by
  induction es with
  | nil => exact absurd rfl h
  | cons e es ih =>
    by_cases hes : (tally es).errors = 0
    · have he : e.tally.errors ≠ 0 := by
        intro he
        have hsum : (tally (e :: es)).errors = e.tally.errors + (tally es).errors := rfl
        omega
      cases e with
      | error message => exact ⟨message, List.mem_cons_self⟩
      | geometryStart geom | ringStart geom size | coord geom coord | ringEnd geom size
      | geometryEnd geom => exact absurd rfl he
    · obtain ⟨message, hmem⟩ := ih hes
      exact ⟨message, List.mem_cons_of_mem e hmem⟩

namespace Exporter

variable {σ : Type} {exporter : EdgeExporter σ}

/-- The emitter never fails, and writes this much from any state. -/
def Writes (emit : Emit σ) (t : Tally) : Prop :=
  ∀ s, ∃ es s', emit s = .ok (es, s') ∧ tally es = t

theorem Writes.of_eq {emit : Emit σ} {t t' : Tally} (h : Writes emit t) (ht : t = t') :
    Writes emit t' := ht ▸ h

theorem writes_nothing : Writes (.nothing : Emit σ) 0 := fun s => ⟨[], s, rfl, rfl⟩

theorem writes_event (e : WkEvent) : Writes (.event e : Emit σ) e.tally :=
  fun s => ⟨[e], s, rfl, by simp [tally]⟩

theorem Writes.append {first second : Emit σ} {t t' : Tally} (h : Writes first t)
    (h' : Writes second t') : Writes (first.append second) (t + t') := by
  intro s
  obtain ⟨es, s1, hrun, ht⟩ := h s
  obtain ⟨es', s2, hrun', ht'⟩ := h' s1
  exact ⟨es ++ es', s2, Emit.append_ok hrun hrun', by rw [tally_append, ht, ht']⟩

theorem writes_all {α : Type} {f : α → Emit σ} {g : α → Tally} (as : List α)
    (h : ∀ a ∈ as, Writes (f a) (g a)) : Writes (.all (as.map f)) (as.map g).sum := by
  induction as with
  | nil => exact writes_nothing
  | cons a as ih =>
    rw [List.map_cons, List.map_cons, List.sum_cons]
    exact (h a List.mem_cons_self).append (ih fun b hb => h b (List.mem_cons_of_mem _ hb))

/-- The start and the end of a geometry count for nothing. -/
theorem Writes.geometry {content : Emit σ} {t : Tally} (h : Writes content t) (geom : WkMeta) :
    Writes (Exporter.geometry geom content) t := by
  have hsum :
      WkEvent.tally (.geometryStart geom) + (t + WkEvent.tally (.geometryEnd geom)) = t := by
    simp [WkEvent.tally]
  exact ((writes_event (.geometryStart geom)).append
    (h.append (writes_event (.geometryEnd geom)))).of_eq hsum

theorem Writes.afterReset {series : Emit σ} {t : Tally} (h : Writes series t) :
    Writes (Exporter.afterReset exporter series) t := fun s => h (exporter.reset s)

/-- An exporter that writes one coordinate for every vertex it is given. -/
structure WritesEach (exporter : EdgeExporter σ) : Prop where
  coordPoint : ∀ geom point, Writes (exporter.coordPoint geom point) ⟨1, 0, 0⟩
  coordInSeries : ∀ geom point, Writes (exporter.coordInSeries geom point) ⟨1, 0, 0⟩
  lastCoordInSeries : ∀ geom point, Writes (exporter.lastCoordInSeries geom point) ⟨1, 0, 0⟩
  lastCoordInLoop : ∀ geom point, Writes (exporter.lastCoordInLoop geom point) ⟨1, 0, 0⟩

/-- `SimpleExporter` writes projected points. The last two doubles of its buffer, which
belong to no coordinate, are never set. -/
def simpleExporter (project : S2Point → R2Point) (unset unset' : Double) : EdgeExporter Unit :=
  let coordPoint (geom : WkMeta) (point : S2Point) : Emit Unit :=
    .event (.coord geom ⟨(project point).x, (project point).y, unset, unset'⟩)
  { hasZ := false
    coordPoint
    reset := id
    coordInSeries := coordPoint
    lastCoordInSeries := coordPoint
    lastCoordInLoop := coordPoint }

theorem writesEach_s2Exporter (unset : Double) : WritesEach (s2Exporter unset) :=
  ⟨fun _ _ => writes_event _, fun _ _ => writes_event _, fun _ _ => writes_event _,
    fun _ _ => writes_event _⟩

theorem writesEach_simpleExporter (project : S2Point → R2Point) (unset unset' : Double) :
    WritesEach (simpleExporter project unset unset') :=
  ⟨fun _ _ => writes_event _, fun _ _ => writes_event _, fun _ _ => writes_event _,
    fun _ _ => writes_event _⟩

/-- As many coordinates as there are vertices in the lists. -/
def coordsTally (n : ℕ) : Tally := ⟨n, 0, 0⟩

theorem sum_coordsTally {α : Type} (f : α → ℕ) (as : List α) :
    (as.map fun a => coordsTally (f a)).sum = coordsTally (as.map f).sum := by
  induction as with
  | nil => rfl
  | cons a as ih =>
    rw [List.map_cons, List.map_cons, List.sum_cons, List.sum_cons, ih]
    rfl

theorem sum_coordsTally_one {α : Type} (as : List α) :
    (as.map fun _ => coordsTally 1).sum = coordsTally as.length := by
  rw [sum_coordsTally]
  simp

/-- One coordinate for each vertex of a loop and one that closes it. -/
def loopTally (vertices : List S2Point) : Tally :=
  if vertices = [] then ⟨0, 0, 1⟩ else ⟨vertices.length + 1, 1, 0⟩

/-- What is written for points, polylines or a polygon. -/
def leafTally : Geography (List StoredLoop) → Tally
  | .point points => coordsTally points.length
  | .polyline polylines => coordsTally (polylines.map List.length).sum
  | .polygon loops => (loops.map fun loop => loopTally loop.1).sum
  | .collection _ => 0

theorem writes_handlePoints (h : WritesEach exporter) (points : List S2Point) :
    Writes (handlePoints exporter points) (coordsTally points.length) := by
  have hpoint : ∀ point, Writes (handlePoint exporter point) (coordsTally 1) :=
    fun point => (h.coordPoint _ point).geometry _
  match points with
  | [] => exact writes_nothing.geometry _
  | [point] => exact hpoint point
  | point :: point' :: points =>
    exact ((writes_all (point :: point' :: points) fun p _ => hpoint p).geometry _).of_eq
      (sum_coordsTally_one _)

theorem writes_handleSeries (h : WritesEach exporter) (geom : WkMeta) (points : List S2Point) :
    Writes (handleSeries exporter geom points) (coordsTally points.length) := by
  induction points with
  | nil => exact writes_nothing
  | cons point points ih =>
    cases points with
    | nil => exact h.lastCoordInSeries geom point
    | cons point' points =>
      have hseries := (h.coordInSeries geom point).append ih
      have hsum : (⟨1, 0, 0⟩ : Tally) + coordsTally (point' :: points).length =
          coordsTally (point :: point' :: points).length := by
        ext <;> simp [coordsTally, Nat.add_comm]
      rwa [hsum] at hseries

theorem writes_handlePolylines (h : WritesEach exporter) (polylines : List (List S2Point)) :
    Writes (handlePolylines exporter polylines)
      (coordsTally (polylines.map List.length).sum) := by
  have hpolyline : ∀ polyline : List S2Point,
      Writes (handlePolyline exporter polyline) (coordsTally polyline.length) :=
    fun polyline => (writes_handleSeries h _ polyline).afterReset.geometry _
  match polylines with
  | [] => exact writes_nothing.geometry _
  | [polyline] => exact (hpolyline polyline).of_eq (by simp)
  | polyline :: polyline' :: polylines =>
    exact ((writes_all (polyline :: polyline' :: polylines) fun p _ =>
      hpolyline p).geometry _).of_eq (sum_coordsTally _ _)

theorem writes_handleLoop (h : WritesEach exporter) (geom : WkMeta) (vertices : List S2Point) :
    Writes (handleLoop exporter geom vertices) (loopTally vertices) := by
  cases vertices with
  | nil => exact writes_event _
  | cons vertex vertices =>
    have hcoords := writes_all (vertex :: vertices) fun p _ => h.coordInSeries geom p
    have hseries : Writes (afterReset exporter ((Emit.all ((vertex :: vertices).map
        (exporter.coordInSeries geom))).append (exporter.lastCoordInLoop geom vertex))) _ :=
      (hcoords.append (h.lastCoordInLoop geom vertex)).afterReset
    let size := some ((vertex :: vertices).length + 1)
    refine ((writes_event (.ringStart geom size)).append
      (hseries.append (writes_event (.ringEnd geom size)))).of_eq ?_
    have hvertices : ((vertex :: vertices).map fun _ => (⟨1, 0, 0⟩ : Tally)).sum =
        coordsTally (vertex :: vertices).length := sum_coordsTally_one (vertex :: vertices)
    rw [hvertices]
    ext <;> simp [WkEvent.tally, loopTally, coordsTally]

/-- A part writes its rings. -/
theorem writes_handlePart (h : WritesEach exporter) (shell : StoredLoop × List StoredLoop) :
    Writes (handlePart exporter shell) ((partRings shell).map loopTally).sum := by
  rw [partRings, List.map_cons, List.sum_cons, List.map_map]
  exact ((writes_handleLoop h _ shell.1.1).append
    (writes_all shell.2 fun hole _ => writes_handleLoop h _ hole.1.reverse)).geometry _

theorem writes_handleShells (h : WritesEach exporter)
    (shells : List (StoredLoop × List StoredLoop)) :
    Writes (handleShells exporter shells) ((shells.flatMap partRings).map loopTally).sum := by
  have hsum : ((shells.flatMap partRings).map loopTally).sum =
      (shells.map fun shell => ((partRings shell).map loopTally).sum).sum := by
    rw [List.map_flatMap, List.flatMap_def, List.sum_flatten, List.map_map]
    rfl
  rw [hsum]
  match shells with
  | [] => exact writes_nothing.geometry _
  | [shell] => exact (writes_handlePart h shell).of_eq (by simp)
  | shell :: shell' :: shells =>
    exact (writes_all (shell :: shell' :: shells) fun part _ => writes_handlePart h part).geometry _

theorem loopTally_orientedLoop (loop : StoredLoop) :
    loopTally (orientedLoop loop) = loopTally loop.1 := by
  unfold orientedLoop loopTally
  split <;> simp

/-- Every loop of a polygon is written once, so the sum is over its loops. -/
theorem writes_handlePolygon (h : WritesEach exporter) {loops : List StoredLoop}
    (hloops : PreorderForest.Forest.ValidDepths 0 loops) :
    Writes (handlePolygon exporter loops) (leafTally (.polygon loops)) := by
  have hperm := ((handedLoops_perm hloops).map loopTally).sum_eq
  have hleaf : leafTally (.polygon loops) = ((handedLoops loops).map loopTally).sum := by
    rw [hperm, leafTally, List.map_map]
    exact congrArg List.sum (List.map_congr_left fun loop _ => (loopTally_orientedLoop loop).symm)
  rw [hleaf]
  exact writes_handleShells h (outerShells loops)

/-- The loops of every polygon of the tree are in preorder. -/
def Preordered (geog : Geography (List StoredLoop)) : Prop :=
  ∀ loops, .polygon loops ∈ geog.leaves → PreorderForest.Forest.ValidDepths 0 loops

mutual

/-- What is written for a tree is the sum over its points, polylines and polygons. -/
theorem writes_handleGeog (h : WritesEach exporter) : (geog : Geography (List StoredLoop)) →
    Preordered geog → Writes (handleGeog exporter geog) (geog.leaves.map leafTally).sum
  | .point points, _ => (writes_handlePoints h points).of_eq (add_zero _).symm
  | .polyline polylines, _ => (writes_handlePolylines h polylines).of_eq (add_zero _).symm
  | .polygon loops, hgeog =>
    (writes_handlePolygon h (hgeog loops List.mem_cons_self)).of_eq (add_zero _).symm
  | .collection features, hgeog => (writes_handleFeatures h features hgeog).geometry _

theorem writes_handleFeatures (h : WritesEach exporter) :
    (features : List (Geography (List StoredLoop))) →
    (∀ loops, .polygon loops ∈ Geography.leavesAll features →
      PreorderForest.Forest.ValidDepths 0 loops) →
    Writes (handleFeatures exporter features) ((Geography.leavesAll features).map leafTally).sum
  | [], _ => writes_nothing
  | feature :: features, hfeatures => by
    rw [Geography.leavesAll, List.map_append, List.sum_append]
    exact (writes_handleGeog h feature fun loops hloops =>
      hfeatures loops (List.mem_append_left _ hloops)).append
      (writes_handleFeatures h features fun loops hloops =>
        hfeatures loops (List.mem_append_right _ hloops))

end

/-! ### The accessors -/

open Accessors

/-- The polylines with one vertex, which have no edges. -/
def singleVertices : Geography (List StoredLoop) → ℕ
  | .polyline polylines => polylines.countP fun vertices => vertices.length = 1
  | _ => 0

/-- The shapes count what is written, less the closing coordinates and `singles` more
vertices, and are all empty if nothing but these is written. -/
structure Counted (shapes : List Shape) (singles : ℕ) (t : Tally) : Prop where
  points : (shapes.map shapeNumPoints).sum + singles + t.rings = t.coords
  singles_le : singles ≤ t.coords
  empty : (∀ shape ∈ shapes, shape.isEmpty = true) ↔ t.coords = singles ∧ t.errors = 0

theorem counted_nil : Counted [] 0 0 := ⟨rfl, le_refl 0, by simp⟩

theorem Counted.append {shapes shapes' : List Shape} {n n' : ℕ} {t t' : Tally}
    (h : Counted shapes n t) (h' : Counted shapes' n' t') :
    Counted (shapes ++ shapes') (n + n') (t + t') := by
  obtain ⟨hpoints, hle, hempty⟩ := h
  obtain ⟨hpoints', hle', hempty'⟩ := h'
  refine ⟨?_, Nat.add_le_add hle hle', ?_⟩
  · rw [List.map_append, List.sum_append, Tally.rings_add, Tally.coords_add]
    omega
  · rw [List.forall_mem_append, hempty, hempty', Tally.coords_add, Tally.errors_add]
    omega

theorem counted_points (points : List S2Point) :
    Counted [pointShape points] 0 (coordsTally points.length) := by
  refine ⟨by simp [shapeNumPoints, pointShape, coordsTally], Nat.zero_le _, ?_⟩
  rw [List.forall_mem_singleton, isEmpty_pointShape]
  simp [coordsTally]

theorem counted_polyline (vertices : List S2Point) :
    Counted [polylineShape vertices] (if vertices.length = 1 then 1 else 0)
      (coordsTally vertices.length) := by
  have hpoints : shapeNumPoints (polylineShape vertices) =
      vertices.length - 1 + min 1 (vertices.length - 1) := rfl
  refine ⟨?_, ?_, ?_⟩
  · rw [List.map_singleton, List.sum_singleton, hpoints]
    change _ + 0 = vertices.length
    split <;> omega
  · change _ ≤ vertices.length
    split <;> omega
  · rw [List.forall_mem_singleton, isEmpty_polylineShape]
    change _ ↔ vertices.length = _ ∧ 0 = 0
    split <;> omega

theorem counted_polylines (polylines : List (List S2Point)) :
    Counted (polylines.map polylineShape) (singleVertices (.polyline polylines))
      (coordsTally (polylines.map List.length).sum) := by
  induction polylines with
  | nil => exact counted_nil
  | cons vertices polylines ih =>
    have h := (counted_polyline vertices).append ih
    have hsingles : (if vertices.length = 1 then 1 else 0) + singleVertices (.polyline polylines) =
        singleVertices (.polyline (vertices :: polylines)) := by
      simp [singleVertices, List.countP_cons, Nat.add_comm]
    rwa [hsingles] at h

/-- The closing coordinate of every ring is what its loop has no vertex for. -/
theorem sum_loopTally (loops : List StoredLoop) :
    numVertices loops + (loops.map fun loop => loopTally loop.1).sum.rings =
      (loops.map fun loop => loopTally loop.1).sum.coords := by
  induction loops with
  | nil => rfl
  | cons loop loops ih =>
    have hloop : loop.1.length + (loopTally loop.1).rings = (loopTally loop.1).coords := by
      unfold loopTally
      split
      · next h => simp [h]
      · rfl
    simp only [numVertices, List.map_cons, List.sum_cons, Tally.rings_add, Tally.coords_add] at ih ⊢
    omega

theorem counted_polygon {loops : List StoredLoop} (hfull : isFull loops = false) :
    Counted [polygonShape loops] 0 (leafTally (.polygon loops)) := by
  have hpoints : shapeNumPoints (polygonShape loops) = numVertices loops :=
    polygonNumEdges_of_not_isFull hfull
  refine ⟨?_, Nat.zero_le _, ?_⟩
  · rw [List.map_singleton, List.sum_singleton, hpoints]
    exact sum_loopTally loops
  · rw [List.forall_mem_singleton, isEmpty_polygonShape]
    constructor
    · rintro rfl
      exact ⟨rfl, rfl⟩
    · intro h
      cases loops with
      | nil => rfl
      | cons loop loops =>
        -- a first loop writes coordinates, or an error
        simp only [leafTally, List.map_cons, List.sum_cons, Tally.coords_add,
          Tally.errors_add] at h
        unfold loopTally at h
        split at h <;> simp at h

/-- No polygon of the tree is the full polygon. -/
def WithoutFull (geog : Geography (List StoredLoop)) : Prop :=
  ∀ loops, .polygon loops ∈ geog.leaves → isFull loops = false

mutual

theorem counted : (geog : Geography (List StoredLoop)) → WithoutFull geog →
    Counted geog.shapes (geog.leaves.map singleVertices).sum (geog.leaves.map leafTally).sum
  | .point points, _ => counted_points points
  | .polyline polylines, _ => counted_polylines polylines
  | .polygon loops, h => by
    have hpolygon := counted_polygon (h loops List.mem_cons_self)
    simpa [Geography.leaves, Geography.shapes, singleVertices] using hpolygon
  | .collection features, h => countedAll features h

theorem countedAll : (features : List (Geography (List StoredLoop))) →
    (∀ loops, .polygon loops ∈ Geography.leavesAll features → isFull loops = false) →
    Counted (Geography.shapesAll features)
      ((Geography.leavesAll features).map singleVertices).sum
      ((Geography.leavesAll features).map leafTally).sum
  | [], _ => counted_nil
  | feature :: features, h => by
    rw [Geography.shapesAll, Geography.leavesAll, List.map_append, List.map_append,
      List.sum_append, List.sum_append]
    exact (counted feature fun loops hloops => h loops (List.mem_append_left _ hloops)).append
      (countedAll features fun loops hloops => h loops (List.mem_append_right _ hloops))

end

theorem sum_singleVertices_eq_zero_iff (geogs : List (Geography (List StoredLoop))) :
    (geogs.map singleVertices).sum = 0 ↔ ∀ polylines, .polyline polylines ∈ geogs →
      ∀ vertices ∈ polylines, vertices.length ≠ 1 := by
  rw [List.sum_eq_zero_iff, List.forall_mem_map]
  constructor
  · intro h polylines hmem vertices hvertices
    have hcount := h _ hmem
    rw [singleVertices, List.countP_eq_zero] at hcount
    simpa using hcount vertices hvertices
  · intro h geog hmem
    cases geog with
    | polyline polylines =>
      rw [singleVertices, List.countP_eq_zero]
      simpa using h polylines hmem
    | point points => rfl
    | polygon loops => rfl
    | collection features => rfl

theorem errors_sum (ts : List Tally) : ts.sum.errors = (ts.map Tally.errors).sum := by
  induction ts with
  | nil => rfl
  | cons t ts ih => rw [List.sum_cons, Tally.errors_add, ih, List.map_cons, List.sum_cons]

/-- An error is written for a loop without vertices, and for nothing else. -/
theorem errors_sum_leafTally_eq_zero_iff (geogs : List (Geography (List StoredLoop))) :
    (geogs.map leafTally).sum.errors = 0 ↔ ∀ loops, .polygon loops ∈ geogs →
      ∀ loop ∈ loops, loop.1 ≠ [] := by
  have hloops : ∀ loops, (leafTally (.polygon loops)).errors = 0 ↔
      ∀ loop ∈ loops, loop.1 ≠ [] := by
    intro loops
    rw [leafTally, errors_sum, List.sum_eq_zero_iff, List.map_map, List.forall_mem_map]
    refine forall₂_congr fun loop _ => ?_
    change (loopTally loop.1).errors = 0 ↔ _
    unfold loopTally
    split <;> simp [*]
  rw [errors_sum, List.sum_eq_zero_iff, List.map_map, List.forall_mem_map]
  constructor
  · exact fun h loops hmem => (hloops loops).mp (h _ hmem)
  · intro h geog hmem
    cases geog with
    | polygon loops => exact (hloops loops).mpr (h loops hmem)
    | point points => rfl
    | polyline polylines => rfl
    | collection features => rfl

/-- `s2_num_points` is the number of coordinates the exporter writes less one for every ring,
and `s2_is_empty` says whether it writes none, if it finishes without an error. -/
def CountsExported (exporter : EdgeExporter σ) (geog : Geography (List StoredLoop)) (s : σ) :
    Prop :=
  ∀ es s', handleGeog exporter geog s = .ok (es, s') → (tally es).errors = 0 →
    s2NumPoints geog = (tally es).coords - (tally es).rings ∧
      (Accessors.s2IsEmpty geog = true ↔ (tally es).coords = 0)

/-- Without a full polygon the accessors agree with the exporter on a geography exactly when
no polyline has just one vertex, or some loop without vertices stops the export. -/
theorem countsExported_iff (h : WritesEach exporter) {geog : Geography (List StoredLoop)}
    (hpreordered : Preordered geog) (hfull : WithoutFull geog) (s : σ) :
    CountsExported exporter geog s ↔
      (∀ polylines, .polyline polylines ∈ geog.leaves →
        ∀ vertices ∈ polylines, vertices.length ≠ 1) ∨
      ∃ loops, .polygon loops ∈ geog.leaves ∧ ∃ loop ∈ loops, loop.1 = [] := by
  obtain ⟨es, s', hrun, htally⟩ := writes_handleGeog h geog hpreordered s
  obtain ⟨hpoints, hle, hempty⟩ := counted geog hfull
  have herrors := errors_sum_leafTally_eq_zero_iff geog.leaves
  rw [← htally] at hpoints hle hempty herrors
  rw [← sum_singleVertices_eq_zero_iff]
  have hfail : (∃ loops, .polygon loops ∈ geog.leaves ∧ ∃ loop ∈ loops, loop.1 = []) ↔
      ¬(tally es).errors = 0 := by
    rw [herrors]
    push Not
    rfl
  have hnum : s2NumPoints geog = (geog.shapes.map shapeNumPoints).sum := rfl
  have hisEmpty : Accessors.s2IsEmpty geog = true ↔ ∀ shape ∈ geog.shapes, shape.isEmpty = true :=
    List.all_eq_true
  rw [hfail]
  constructor
  · intro hcounts
    by_cases he : (tally es).errors = 0
    · have hagree := (hcounts es s' hrun he).1
      rw [hnum] at hagree
      omega
    · exact Or.inr he
  · intro hcond es' s'' hrun' he
    obtain ⟨rfl, rfl⟩ := Prod.mk.injEq .. ▸ Except.ok.inj (hrun.symm.trans hrun')
    have hsingles := hcond.resolve_right (not_not.mpr he)
    rw [hnum, hisEmpty, hempty]
    omega

theorem countsExported_axes :
    CountsExported (s2Exporter .zero)
      (.collection [.polyline [[axisX, axisY]], .polygon [([axisX, axisY, axisZ], 0)]]) () := by
  refine (countsExported_iff (writesEach_s2Exporter .zero) ?_ ?_ ()).mpr (Or.inl ?_)
  · intro loops hloops
    have heq : loops = [([axisX, axisY, axisZ], 0)] := by
      simpa [Geography.leaves, Geography.leavesAll] using hloops
    subst heq
    simp [PreorderForest.Forest.ValidDepths]
  · intro loops hloops
    have heq : loops = [([axisX, axisY, axisZ], 0)] := by
      simpa [Geography.leaves, Geography.leavesAll] using hloops
    subst heq
    rfl
  · intro polylines hpolylines
    have heq : polylines = [[axisX, axisY]] := by
      simpa [Geography.leaves, Geography.leavesAll] using hpolylines
    subst heq
    simp

/-- A line with one vertex next to one with two. -/
def singleVertexGeog : Geography (List StoredLoop) :=
  .collection [.polyline [[axisX, axisY]], .polyline [[axisZ]]]

/-- Two points are counted, and three coordinates are written. -/
theorem not_countsExported_singleVertexGeog :
    Preordered singleVertexGeog ∧ WithoutFull singleVertexGeog ∧
      s2NumPoints singleVertexGeog = 2 ∧
      ¬CountsExported (s2Exporter .zero) singleVertexGeog () := by
  have hnone : ∀ loops, .polygon loops ∉ singleVertexGeog.leaves := by
    simp [singleVertexGeog, Geography.leaves, Geography.leavesAll]
  have hpreordered : Preordered singleVertexGeog := fun loops hloops => absurd hloops (hnone loops)
  refine ⟨hpreordered, fun loops hloops => absurd hloops (hnone loops), rfl, fun h => ?_⟩
  obtain ⟨es, s', hrun, htally⟩ := writes_handleGeog (writesEach_s2Exporter .zero)
    singleVertexGeog hpreordered ()
  have hpoints := (h es s' hrun (by rw [htally]; rfl)).1
  rw [htally] at hpoints
  exact absurd hpoints (by decide)

end Exporter

end S2Geography
