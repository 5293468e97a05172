import S2Geography.WkEvents

/-!
# The exporter

`handle_geography` hands a vector of geographies to a wk handler. How coordinates are
written is up to an edge exporter, which may keep the edges of a series until its end.
The exporter never looks at a handler's answers, except to stop; so its events are
computed here as lists, which are then fed to the handler.
-/
namespace S2Geography.Exporter

variable {σ : Type}

/-- Something that emits events, or fails, and may change the state of an edge exporter. -/
abbrev Emit (σ : Type) := σ → Except Fault (List WkEvent × σ)

def Emit.nothing : Emit σ := fun s => .ok ([], s)

/-- The events of one after those of another. What comes after an error is not run, so it
cannot fail. -/
def Emit.append (first second : Emit σ) : Emit σ := fun s => do
  let (es, s) ← first s
  match second s with
  | .ok (es', s) => return (es ++ es', s)
  | .error fault => if es.any WkEvent.isError then return (es, s) else .error fault

theorem Emit.append_ok {first second : Emit σ} {s s' s'' : σ} {es es' : List WkEvent}
    (h : first s = .ok (es, s')) (h' : second s' = .ok (es', s'')) :
    first.append second s = .ok (es ++ es', s'') := by
  simp only [Emit.append, h, h', bind, Except.bind]
  rfl

theorem Emit.append_error {first second : Emit σ} {s s' : σ} {es : List WkEvent} {fault : Fault}
    (h : first s = .ok (es, s')) (h' : second s' = .error fault) :
    first.append second s = if es.any WkEvent.isError then .ok (es, s') else .error fault := by
  simp only [Emit.append, h, h', bind, Except.bind]
  rfl

theorem Emit.append_error_left {first second : Emit σ} {s : σ} {fault : Fault}
    (h : first s = .error fault) : first.append second s = .error fault := by
  rw [Emit.append, h]
  rfl

def Emit.all : List (Emit σ) → Emit σ
  | [] => .nothing
  | first :: rest => first.append (.all rest)

def Emit.event (e : WkEvent) : Emit σ := fun s => .ok ([e], s)

/-- The edge exporter classes. -/
structure EdgeExporter (σ : Type) where
  /-- Whether `set_meta_flags` says that there is a Z coordinate. -/
  hasZ : Bool
  coordPoint : WkMeta → S2Point → Emit σ
  reset : σ → σ
  coordInSeries : WkMeta → S2Point → Emit σ
  lastCoordInSeries : WkMeta → S2Point → Emit σ
  lastCoordInLoop : WkMeta → S2Point → Emit σ

/-- `S2Exporter` writes the coordinates of the points. The last double of its buffer, which
belongs to no coordinate, is never set. -/
def s2Exporter (unset : Double) : EdgeExporter Unit :=
  let coordPoint (geom : WkMeta) (point : S2Point) : Emit Unit :=
    .event (.coord geom ⟨point.x, point.y, point.z, unset⟩)
  { hasZ := true
    coordPoint
    reset := id
    coordInSeries := coordPoint
    lastCoordInSeries := coordPoint
    lastCoordInLoop := coordPoint }

/-- A loop of a polygon: its vertices and its depth. -/
abbrev StoredLoop := List S2Point × ℕ

variable (exporter : EdgeExporter σ)

def EdgeExporter.geom (geometryType : WkGeometryType) (size : ℕ) : WkMeta :=
  { geometryType, size := some size, hasZ := exporter.hasZ, hasM := false }

/-- A geometry's content between its start and its end. -/
def geometry (geom : WkMeta) (content : Emit σ) : Emit σ :=
  (Emit.event (.geometryStart geom)).append (content.append (.event (.geometryEnd geom)))

theorem geometry_ok {geom : WkMeta} {content : Emit σ} {s s' : σ} {es : List WkEvent}
    (h : content s = .ok (es, s')) : geometry geom content s =
      .ok (.geometryStart geom :: (es ++ [.geometryEnd geom]), s') := by
  have hstart : Emit.event (.geometryStart geom) s = .ok ([.geometryStart geom], s) := rfl
  have hend : Emit.event (.geometryEnd geom) s' = .ok ([.geometryEnd geom], s') := rfl
  exact Emit.append_ok hstart (Emit.append_ok h hend)

theorem geometry_error {geom : WkMeta} {content : Emit σ} {s : σ} {fault : Fault}
    (h : content s = .error fault) : geometry geom content s = .error fault := by
  have hstart : Emit.event (.geometryStart geom) s = .ok ([.geometryStart geom], s) := rfl
  exact Emit.append_error hstart (Emit.append_error_left h)

/-- `reset`, then the calls of a series. -/
def afterReset (series : Emit σ) : Emit σ := fun s => series (exporter.reset s)

def handlePoint (point : S2Point) : Emit σ :=
  let geom := exporter.geom .point 1
  geometry geom (exporter.coordPoint geom point)

/-- `handle_points`. -/
def handlePoints : List S2Point → Emit σ
  | [] => geometry (exporter.geom .point 0) .nothing
  | [point] => handlePoint exporter point
  | points =>
    geometry (exporter.geom .multipoint points.length) (.all (points.map (handlePoint exporter)))

/-- The vertices of a polyline, of which the last is announced as such. -/
def handleSeries (geom : WkMeta) : List S2Point → Emit σ
  | [] => .nothing
  | [point] => exporter.lastCoordInSeries geom point
  | point :: points => (exporter.coordInSeries geom point).append (handleSeries geom points)

def handlePolyline (polyline : List S2Point) : Emit σ :=
  let geom := exporter.geom .linestring polyline.length
  geometry geom (afterReset exporter (handleSeries exporter geom polyline))

/-- `handle_polylines`. -/
def handlePolylines : List (List S2Point) → Emit σ
  | [] => geometry (exporter.geom .linestring 0) .nothing
  | [polyline] => handlePolyline exporter polyline
  | polylines =>
    geometry (exporter.geom .multilinestring polylines.length)
      (.all (polylines.map (handlePolyline exporter)))

/-- A ring over the vertices of a loop in the order given, the first of which closes it. -/
def handleLoop (geom : WkMeta) : List S2Point → Emit σ
  | [] => .event (.error "Unexpected S2Loop with 0 vertices")
  | vertex :: vertices =>
    let size := some ((vertex :: vertices).length + 1)
    let series := (Emit.all ((vertex :: vertices).map (exporter.coordInSeries geom))).append
      (exporter.lastCoordInLoop geom vertex)
    (Emit.event (.ringStart geom size)).append
      ((afterReset exporter series).append (.event (.ringEnd geom size)))

/-- `handle_loop_shell`; `loop->vertex(num_vertices)` is the first vertex. -/
def handleLoopShell (geom : WkMeta) (loop : StoredLoop) : Emit σ :=
  handleLoop exporter geom loop.1

/-- `handle_loop_hole`: from the last vertex back to the first, and the last again. -/
def handleLoopHole (geom : WkMeta) (loop : StoredLoop) : Emit σ :=
  handleLoop exporter geom loop.1.reverse

/-- The loops that `handle_shell` exports as holes of a shell, from those stored after it:
one level below, up to `GetLastDescendant`. -/
def holes (shell : StoredLoop) (rest : List StoredLoop) : List StoredLoop :=
  (rest.takeWhile fun loop => shell.2 < loop.2).filter fun loop => loop.2 = shell.2 + 1

/-- The loops of even depth in the order stored, each with its holes. -/
def outerShells : List StoredLoop → List (StoredLoop × List StoredLoop)
  | [] => []
  | loop :: rest =>
    if loop.2 % 2 = 0 then (loop, holes loop rest) :: outerShells rest else outerShells rest

/-- `handle_shell`. -/
def handleShell (geom : WkMeta) (shell : StoredLoop × List StoredLoop) : Emit σ :=
  (handleLoopShell exporter geom shell.1).append
    (.all (shell.2.map (handleLoopHole exporter geom)))

def handlePart (shell : StoredLoop × List StoredLoop) : Emit σ :=
  let geom := exporter.geom .polygon (1 + shell.2.length)
  geometry geom (handleShell exporter geom shell)

/-- `handle_polygon`, from the outer shells of its loops. -/
def handleShells : List (StoredLoop × List StoredLoop) → Emit σ
  | [] => geometry (exporter.geom .polygon 0) .nothing
  | [shell] => handlePart exporter shell
  | shells =>
    geometry (exporter.geom .multipolygon shells.length) (.all (shells.map (handlePart exporter)))

def handlePolygon (loops : List StoredLoop) : Emit σ := handleShells exporter (outerShells loops)

mutual

/-- The choice by class in `handle_geography_templ` and `handle_collection`. -/
def handleGeog : Geography (List StoredLoop) → Emit σ
  | .point points => handlePoints exporter points
  | .polyline polylines => handlePolylines exporter polylines
  | .polygon loops => handlePolygon exporter loops
  | .collection features =>
    geometry (exporter.geom .geometrycollection features.length) (handleFeatures features)

def handleFeatures : List (Geography (List StoredLoop)) → Emit σ
  | [] => .nothing
  | feature :: features => (handleGeog feature).append (handleFeatures features)

end

/-- The events of each feature of a vector, NULL for a missing one. -/
def emitVector : List (Option (Geography (List StoredLoop))) → σ →
    Except Fault (List (Option (List WkEvent)))
  | [], _ => .ok []
  | none :: geogs, s => do
    let rest ← emitVector geogs s
    return none :: rest
  | some geog :: geogs, s => do
    let (es, s) ← handleGeog exporter geog s
    let rest ← emitVector geogs s
    return some es :: rest

/-- `handle_geography_templ`. -/
def handleGeography {τ ρ : Type} (geogs : List (Option (Geography (List StoredLoop)))) (s : σ)
    (handler : WkHandler τ ρ) (data : τ) : Except Fault ρ := do
  let items ← emitVector exporter geogs s
  handler.handleVector id (some geogs.length) items data

end S2Geography.Exporter
