import S2Geography.Exporter
import S2Geography.PreorderForest

/-!
# The geometry an exported geography becomes

With the plain exporter, the events of a geography are those of a geometry: a point, a
linestring or a polygon where there is one part, a multi-geometry where there are more,
an empty simple geometry where there is none, and a collection for a collection.
-/
namespace S2Geography.Exporter

open PreorderForest

/-! ### The geometry -/

section Geometry

variable (unset : Double)

def exportedHeader (size : ℕ) : WkHeader := ⟨some size, true, false⟩

def exportedCoord (point : S2Point) : WkCoord := ⟨point.x, point.y, point.z, unset⟩

def exportedPoint (point : S2Point) : WkPath := ⟨exportedHeader 1, [exportedCoord unset point]⟩

def exportedPoints : List S2Point → WkGeometry
  | [] => .point ⟨exportedHeader 0, []⟩
  | [point] => .point (exportedPoint unset point)
  | points => .multipoint (exportedHeader points.length) (points.map (exportedPoint unset))

def exportedPolyline (polyline : List S2Point) : WkPath :=
  ⟨exportedHeader polyline.length, polyline.map (exportedCoord unset)⟩

def exportedPolylines : List (List S2Point) → WkGeometry
  | [] => .linestring ⟨exportedHeader 0, []⟩
  | [polyline] => .linestring (exportedPolyline unset polyline)
  | polylines =>
    .multilinestring (exportedHeader polylines.length) (polylines.map (exportedPolyline unset))

/-- The vertices, and the first of them again. -/
def closedRing (vertices : List S2Point) : List S2Point := vertices ++ vertices.head?.toList

def exportedRing (vertices : List S2Point) : WkRing :=
  ⟨some (vertices.length + 1), (closedRing vertices).map (exportedCoord unset)⟩

/-- The vertices of the rings of a part: those of the shell, and those of the holes in
reverse. -/
def partRings (shell : StoredLoop × List StoredLoop) : List (List S2Point) :=
  shell.1.1 :: shell.2.map fun hole => hole.1.reverse

def exportedPart (shell : StoredLoop × List StoredLoop) : WkPolygon :=
  ⟨exportedHeader (1 + shell.2.length), (partRings shell).map (exportedRing unset)⟩

def exportedShells : List (StoredLoop × List StoredLoop) → WkGeometry
  | [] => .polygon ⟨exportedHeader 0, []⟩
  | [shell] => .polygon (exportedPart unset shell)
  | shells => .multipolygon (exportedHeader shells.length) (shells.map (exportedPart unset))

mutual

def exported : Geography (List StoredLoop) → WkGeometry
  | .point points => exportedPoints unset points
  | .polyline polylines => exportedPolylines unset polylines
  | .polygon loops => exportedShells unset (outerShells loops)
  | .collection features =>
    .geometrycollection (exportedHeader features.length) (exportedAll features)

def exportedAll : List (Geography (List StoredLoop)) → List WkGeometry
  | [] => []
  | feature :: features => exported feature :: exportedAll features

end

end Geometry

/-! ### Its events -/

variable {unset : Double}

/-- What is emitted with the plain exporter, which has no state. -/
def Emits (emit : Emit Unit) (es : List WkEvent) : Prop := emit () = .ok (es, ())

theorem emits_nothing : Emits .nothing [] := rfl

theorem emits_event (e : WkEvent) : Emits (.event e) [e] := rfl

theorem Emits.append {first second : Emit Unit} {es es' : List WkEvent} (h : Emits first es)
    (h' : Emits second es') : Emits (first.append second) (es ++ es') := Emit.append_ok h h'

theorem emits_all {α : Type} {f : α → Emit Unit} {g : α → List WkEvent} (as : List α)
    (h : ∀ a ∈ as, Emits (f a) (g a)) : Emits (.all (as.map f)) (as.flatMap g) := by
  induction as with
  | nil => exact emits_nothing
  | cons a as ih => exact (h a (by simp)).append (ih fun b hb => h b (by simp [hb]))

theorem emits_geometry {header : WkHeader} {geometryType : WkGeometryType} {emit : Emit Unit}
    {content : WkMeta → List WkEvent}
    (h : Emits emit (content { header with geometryType })) :
    Emits (geometry { header with geometryType } emit)
      (geometryEvents header geometryType content) :=
  (emits_event _).append (h.append (emits_event _))

theorem emits_handlePoint (point : S2Point) :
    Emits (handlePoint (s2Exporter unset) point) ((exportedPoint unset point).events .point) :=
  emits_geometry rfl

/-- A multi-geometry over parts that are emitted one by one. -/
theorem emits_multi {α β : Type} {header : WkHeader} {geometryType : WkGeometryType}
    {emit : α → Emit Unit} {part : α → β} {events : β → List WkEvent} (as : List α)
    (h : ∀ a ∈ as, Emits (emit a) (events (part a))) :
    Emits (geometry { header with geometryType } (.all (as.map emit)))
      (geometryEvents header geometryType fun _ => (as.map part).flatMap events) := by
  refine emits_geometry ?_
  rw [List.flatMap_map]
  exact emits_all as h

theorem emits_handlePoints (points : List S2Point) :
    Emits (handlePoints (s2Exporter unset) points) (exportedPoints unset points).events := by
  match points with
  | [] => rfl
  | [point] => exact emits_handlePoint point
  | point :: point' :: points =>
    exact emits_multi (point :: point' :: points) fun p _ => emits_handlePoint p

theorem emits_handleSeries (geom : WkMeta) (points : List S2Point) :
    Emits (handleSeries (s2Exporter unset) geom points)
      ((points.map (exportedCoord unset)).map (.coord geom)) := by
  induction points with
  | nil => rfl
  | cons point points ih =>
    cases points with
    | nil => rfl
    | cons point' points => exact (emits_event _).append ih

theorem emits_handlePolyline (polyline : List S2Point) :
    Emits (handlePolyline (s2Exporter unset) polyline)
      ((exportedPolyline unset polyline).events .linestring) :=
  emits_geometry (emits_handleSeries _ polyline)

theorem emits_handlePolylines (polylines : List (List S2Point)) :
    Emits (handlePolylines (s2Exporter unset) polylines)
      (exportedPolylines unset polylines).events := by
  match polylines with
  | [] => rfl
  | [polyline] => exact emits_handlePolyline polyline
  | polyline :: polyline' :: polylines =>
    exact emits_multi (polyline :: polyline' :: polylines) fun p _ => emits_handlePolyline p

theorem emits_handleLoop (geom : WkMeta) {vertices : List S2Point} (h : vertices ≠ []) :
    Emits (handleLoop (s2Exporter unset) geom vertices)
      ((exportedRing unset vertices).events geom) := by
  cases vertices with
  | nil => exact absurd rfl h
  | cons vertex vertices =>
    have hcoords := emits_all (vertex :: vertices)
      fun p _ => emits_event (.coord geom (exportedCoord unset p))
    have hseries := hcoords.append (emits_event (.coord geom (exportedCoord unset vertex)))
    have hring := (emits_event (.ringStart geom (some ((vertex :: vertices).length + 1)))).append
      (hseries.append (emits_event (.ringEnd geom (some ((vertex :: vertices).length + 1)))))
    have hevents : (exportedRing unset (vertex :: vertices)).events geom =
        [.ringStart geom (some ((vertex :: vertices).length + 1))] ++
          (((vertex :: vertices).flatMap fun p => [.coord geom (exportedCoord unset p)]) ++
            [.coord geom (exportedCoord unset vertex)] ++
              [.ringEnd geom (some ((vertex :: vertices).length + 1))]) := by
      simp [exportedRing, WkRing.events, closedRing, ← List.map_eq_flatMap]
    rw [hevents]
    exact hring

theorem mem_of_mem_holes {shell loop : StoredLoop} {rest : List StoredLoop}
    (h : loop ∈ holes shell rest) : loop ∈ rest :=
  (List.takeWhile_prefix _).subset (List.mem_filter.mp h).1

/-- Shells and their holes are loops of the polygon. -/
theorem mem_of_mem_outerShells {loops : List StoredLoop} {shell : StoredLoop × List StoredLoop}
    (h : shell ∈ outerShells loops) : ∀ loop ∈ shell.1 :: shell.2, loop ∈ loops := by
  induction loops with
  | nil => simp [outerShells] at h
  | cons loop rest ih =>
    unfold outerShells at h
    split at h
    · rcases List.mem_cons.mp h with rfl | h
      · intro other hother
        rcases List.mem_cons.mp hother with rfl | hother
        · exact List.mem_cons_self
        · exact List.mem_cons_of_mem _ (mem_of_mem_holes hother)
      · exact fun other hother => List.mem_cons_of_mem _ (ih h other hother)
    · exact fun other hother => List.mem_cons_of_mem _ (ih h other hother)

theorem emits_handlePart {shell : StoredLoop × List StoredLoop}
    (h : ∀ loop ∈ shell.1 :: shell.2, loop.1 ≠ []) :
    Emits (handlePart (s2Exporter unset) shell) (exportedPart unset shell).events := by
  obtain ⟨loop, holes⟩ := shell
  refine emits_geometry ?_
  let geom := (s2Exporter unset).geom .polygon (1 + holes.length)
  change Emits _ ((exportedRing unset loop.1).events geom ++
    ((holes.map fun hole => hole.1.reverse).map (exportedRing unset)).flatMap (·.events geom))
  refine (emits_handleLoop _ (h loop List.mem_cons_self)).append ?_
  rw [List.map_map, List.flatMap_map]
  refine emits_all holes fun hole hhole => emits_handleLoop _ ?_
  have hne := h hole (List.mem_cons_of_mem _ hhole)
  simpa using hne

theorem emits_handleShells {shells : List (StoredLoop × List StoredLoop)}
    (h : ∀ shell ∈ shells, ∀ loop ∈ shell.1 :: shell.2, loop.1 ≠ []) :
    Emits (handleShells (s2Exporter unset) shells) (exportedShells unset shells).events := by
  match shells with
  | [] => rfl
  | [shell] => exact emits_handlePart (h shell List.mem_cons_self)
  | shell :: shell' :: shells =>
    exact emits_multi (shell :: shell' :: shells) fun part hpart => emits_handlePart (h part hpart)

mutual

/-- What can be stored: points without missing ordinates, polylines with vertices, and loops
with vertices, in preorder by the depth test of `FindLoopNestingError`. -/
def Storable : Geography (List StoredLoop) → Prop
  | .point points => ∀ point ∈ points, point.hasNaN = false
  | .polyline polylines => ∀ polyline ∈ polylines, polyline ≠ []
  | .polygon loops =>
    (∀ loop ∈ loops, loop.1 ≠ []) ∧ Forest.ValidDepths 0 loops
  | .collection features => StorableAll features

def StorableAll : List (Geography (List StoredLoop)) → Prop
  | [] => True
  | feature :: features => Storable feature ∧ StorableAll features

end

mutual

theorem emits_handleGeog (unset : Double) :
    (geog : Geography (List StoredLoop)) → Storable geog →
    Emits (handleGeog (s2Exporter unset) geog) (exported unset geog).events
  | .point points, _ => emits_handlePoints points
  | .polyline polylines, _ => emits_handlePolylines polylines
  | .polygon _, h => emits_handleShells fun _ hshell loop hloop =>
    h.1 loop (mem_of_mem_outerShells hshell loop hloop)
  | .collection features, h => by
    change Emits (geometry _ _) (geometryEvents (exportedHeader features.length)
      .geometrycollection fun _ => WkGeometry.eventsAll (exportedAll unset features))
    exact emits_geometry (emits_handleFeatures unset features h)

theorem emits_handleFeatures (unset : Double) :
    (features : List (Geography (List StoredLoop))) → StorableAll features →
    Emits (handleFeatures (s2Exporter unset) features)
      (WkGeometry.eventsAll (exportedAll unset features))
  | [], _ => emits_nothing
  | feature :: features, h =>
    (emits_handleGeog unset feature h.1).append (emits_handleFeatures unset features h.2)

end

/-- The events of a vector are those of its geometries. -/
theorem emitVector_eq (unset : Double) {geogs : List (Option (Geography (List StoredLoop)))}
    (h : ∀ geog, some geog ∈ geogs → Storable geog) :
    emitVector (s2Exporter unset) geogs () =
      .ok (geogs.map (Option.map fun geog => (exported unset geog).events)) := by
  induction geogs with
  | nil => rfl
  | cons item geogs ih =>
    have hrest := ih fun geog hgeog => h geog (List.mem_cons_of_mem _ hgeog)
    cases item with
    | none =>
      rw [emitVector, hrest]
      rfl
    | some geog =>
      have hgeog : handleGeog (s2Exporter unset) geog () = _ :=
        emits_handleGeog unset geog (h geog List.mem_cons_self)
      rw [emitVector, hgeog]
      change (emitVector (s2Exporter unset) geogs () >>= _) = _
      rw [hrest]
      rfl

end S2Geography.Exporter
