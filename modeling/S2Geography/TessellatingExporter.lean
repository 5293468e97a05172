import S2Geography.ExportCounts
import S2Geography.Tessellation
import Mathlib.Data.BitVec

/-!
# What the exporters make of lines and rings

`TessellatingExporter` keeps the vertices of a series back, and writes the tessellated
edges between them at its end. What any of the exporters writes for a line or for a ring
depends on the vertices only, not on what it wrote before; so rings are closed, and visit
the vertices of their loops, unless an edge is halved for ever.
-/
namespace S2Geography

open ListVisits

/-- The members of a `TessellatingExporter` that change. -/
structure TessellatingState where
  isFirstPoint : Bool
  firstInLoop : S2Point
  mostRecent : S2Point
  pointsOut : List R2Point

def TessellatingState.reset (s : TessellatingState) : TessellatingState :=
  { s with pointsOut := [], isFirstPoint := true }

namespace Exporter

variable {proj : S2Projection} (t : S2EdgeTessellator proj) (unset unset' : Double)

/-! ### The exporter -/

/-- `coord_in_series`, which writes nothing yet. -/
def keepPoint (point : S2Point) (s : TessellatingState) : Except Fault TessellatingState :=
  if s.isFirstPoint then
    .ok { s with isFirstPoint := false, mostRecent := point, firstInLoop := point }
  else do
    let pointsOut ← t.appendProjected s.mostRecent point s.pointsOut
    return { s with pointsOut, mostRecent := point }

def keepPoints (vertices : List S2Point) (s : TessellatingState) :
    Except Fault TessellatingState :=
  vertices.foldlM (fun s vertex => keepPoint t vertex s) s

/-- `points_out_.size() - 1`, which is unsigned. -/
def sizeMinusOne (pointsOut : List R2Point) : ℕ :=
  if pointsOut.isEmpty then 2 ^ 64 - 1 else pointsOut.length - 1

/-- The entries of a vector that a loop up to `count` reads. -/
def readEntries (pointsOut : List R2Point) (count : ℕ) : Except Fault (List R2Point) :=
  if count ≤ pointsOut.length then .ok (pointsOut.take count) else .error .outOfBounds

def planarCoord (point : R2Point) : WkCoord := ⟨point.x, point.y, unset, unset'⟩

/-- `TessellatingExporter`. As in `SimpleExporter`, two doubles of the buffer are never set. -/
def tessellatingExporter : EdgeExporter TessellatingState where
  hasZ := false
  coordPoint geom point := .event (.coord geom (planarCoord unset unset' (proj.project point)))
  reset := .reset
  coordInSeries _ point s := do
    let s ← keepPoint t point s
    return ([], s)
  lastCoordInSeries geom point s := do
    let s ← keepPoint t point s
    return ((s.pointsOut.map (planarCoord unset unset')).map (.coord geom), s)
  lastCoordInLoop geom point s := do
    let s ← keepPoint t point s
    let points ← readEntries s.pointsOut (sizeMinusOne s.pointsOut)
    let closing := if s.isFirstPoint then [] else [proj.project point]
    return (((points ++ closing).map (planarCoord unset unset')).map (.coord geom), s)

/-! ### Lines and rings -/

/-- The calls for a ring, between its start and its end. -/
def ringSeries {σ : Type} (exporter : EdgeExporter σ) (geom : WkMeta) (vertex : S2Point)
    (vertices : List S2Point) : Emit σ :=
  (Emit.all ((vertex :: vertices).map (exporter.coordInSeries geom))).append
    (exporter.lastCoordInLoop geom vertex)

/-- The events, without the state of the exporter after them. -/
def Emit.written {σ : Type} (emit : Emit σ) (s : σ) : Except Fault (List WkEvent) :=
  (emit s).map Prod.fst

section Written

variable {σ : Type} {emit : Emit σ} {s : σ}

theorem Emit.written_of_ok {es : List WkEvent} {s' : σ} (h : emit s = .ok (es, s')) :
    emit.written s = .ok es := by
  rw [written, h]
  rfl

theorem Emit.exists_of_written {es : List WkEvent} (h : emit.written s = .ok es) :
    ∃ s', emit s = .ok (es, s') := by
  rw [written] at h
  cases hrun : emit s with
  | error fault =>
    rw [hrun] at h
    cases h
  | ok result =>
    rw [hrun] at h
    exact ⟨result.2, congrArg Except.ok (Prod.ext (Except.ok.inj h) rfl)⟩

theorem Emit.written_error {fault : Fault} :
    emit.written s = .error fault ↔ emit s = .error fault := by
  rw [written]
  cases emit s with
  | error fault' => exact ⟨fun h => congrArg _ (Except.error.inj h), fun h => congrArg _ (Except.error.inj h)⟩
  | ok result => exact iff_of_false (fun h => by cases h) (fun h => by cases h)

/-- What comes before and after cannot fail. -/
theorem Emit.written_between {first : WkEvent} (hstart : first.isError = false) (last : WkEvent)
    (content : Emit σ) (s : σ) :
    ((Emit.event first).append (content.append (.event last))).written s =
      (content.written s).map fun es => first :: (es ++ [last]) := by
  have hfirst : Emit.event first s = .ok ([first], s) := rfl
  cases hrun : content.written s with
  | error fault =>
    have hcontent : content.append (.event last) s = .error fault :=
      append_error_left (written_error.mp hrun)
    refine written_error.mpr ((append_error hfirst hcontent).trans (if_neg ?_))
    simp [hstart]
  | ok es =>
    obtain ⟨s', hcontent⟩ := exists_of_written hrun
    have hlast : Emit.event last s' = .ok ([last], s') := rfl
    exact written_of_ok (append_ok hfirst (append_ok hcontent hlast))

end Written

/-- From any state the coordinates written for a line and for a ring are functions of the
vertices, or it fails with one and the same fault; and a point has one coordinate. -/
structure Renders {σ : Type} (exporter : EdgeExporter σ)
    (line ring : List S2Point → Except Fault (List WkCoord)) : Prop where
  point : ∀ geom point s, ∃ coord s',
    exporter.coordPoint geom point s = .ok ([.coord geom coord], s')
  line : ∀ geom vertices s, (afterReset exporter (handleSeries exporter geom vertices)).written s =
    (line vertices).map (List.map (.coord geom))
  ring : ∀ geom vertex vertices s,
    (afterReset exporter (ringSeries exporter geom vertex vertices)).written s =
      (ring (vertex :: vertices)).map (List.map (.coord geom))

/-- An exporter that writes every vertex at once. -/
structure WritesVertices {σ : Type} (exporter : EdgeExporter σ) (coord : S2Point → WkCoord) :
    Prop where
  coordPoint : ∀ geom point, exporter.coordPoint geom point = .event (.coord geom (coord point))
  coordInSeries : exporter.coordInSeries = exporter.coordPoint
  lastCoordInSeries : exporter.lastCoordInSeries = exporter.coordPoint
  lastCoordInLoop : exporter.lastCoordInLoop = exporter.coordPoint

section WritesVertices

variable {σ : Type} {exporter : EdgeExporter σ} {coord : S2Point → WkCoord}

theorem WritesVertices.event_ok (h : WritesVertices exporter coord) (geom : WkMeta)
    (vertex : S2Point) (s : σ) :
    exporter.coordPoint geom vertex s = .ok ([.coord geom (coord vertex)], s) := by
  rw [h.coordPoint]
  rfl

theorem WritesVertices.all_ok (h : WritesVertices exporter coord) (geom : WkMeta)
    (vertices : List S2Point) (s : σ) :
    Emit.all (vertices.map (exporter.coordPoint geom)) s =
      .ok ((vertices.map coord).map (.coord geom), s) := by
  induction vertices with
  | nil => rfl
  | cons vertex vertices ih => exact Emit.append_ok (h.event_ok geom vertex s) ih

theorem WritesVertices.handleSeries_ok (h : WritesVertices exporter coord) (geom : WkMeta)
    (vertices : List S2Point) (s : σ) :
    handleSeries exporter geom vertices s =
      .ok ((vertices.map coord).map (.coord geom), s) := by
  induction vertices with
  | nil => rfl
  | cons vertex vertices ih =>
    cases vertices with
    | nil =>
      rw [handleSeries, h.lastCoordInSeries]
      exact h.event_ok geom vertex s
    | cons vertex' vertices =>
      have hfirst : exporter.coordInSeries geom vertex s = _ :=
        h.coordInSeries ▸ h.event_ok geom vertex s
      exact Emit.append_ok hfirst ih

theorem WritesVertices.renders (h : WritesVertices exporter coord) :
    Renders exporter (fun vertices => .ok (vertices.map coord))
      fun vertices => .ok ((closedRing vertices).map coord) where
  point geom point s := ⟨coord point, s, h.event_ok geom point s⟩
  line geom vertices s := Emit.written_of_ok (h.handleSeries_ok geom vertices (exporter.reset s))
  ring geom vertex vertices s := by
    have hlast : exporter.lastCoordInLoop geom vertex (exporter.reset s) = _ :=
      h.lastCoordInLoop ▸ h.event_ok geom vertex (exporter.reset s)
    have hseries : ringSeries exporter geom vertex vertices (exporter.reset s) = _ :=
      Emit.append_ok (h.coordInSeries ▸ h.all_ok geom (vertex :: vertices) _) hlast
    refine (Emit.written_of_ok hseries).trans (congrArg Except.ok ?_)
    simp [closedRing]

end WritesVertices

theorem writesVertices_s2Exporter : WritesVertices (s2Exporter unset) (exportedCoord unset) :=
  ⟨fun _ _ => rfl, rfl, rfl, rfl⟩

theorem writesVertices_simpleExporter (project : S2Point → R2Point) :
    WritesVertices (simpleExporter project unset unset')
      fun point => planarCoord unset unset' (project point) :=
  ⟨fun _ _ => rfl, rfl, rfl, rfl⟩

/-- A vertex after the first appends an edge to it. -/
theorem keepPoints_of_not_first (firstInLoop mostRecent : S2Point) (pointsOut : List R2Point)
    (vertices : List S2Point) :
    keepPoints t vertices ⟨false, firstInLoop, mostRecent, pointsOut⟩ =
      (t.appendChain mostRecent vertices pointsOut).map fun pointsOut =>
        ⟨false, firstInLoop, vertices.getLastD mostRecent, pointsOut⟩ := by
  induction vertices generalizing mostRecent pointsOut with
  | nil => rfl
  | cons vertex vertices ih =>
    rw [keepPoints, List.foldlM_cons, S2EdgeTessellator.appendChain]
    change ((t.appendProjected mostRecent vertex pointsOut >>= _) >>= _) = _
    cases t.appendProjected mostRecent vertex pointsOut with
    | error fault => rfl
    | ok pointsOut' =>
      rw [List.getLastD_cons]
      exact ih vertex pointsOut'

/-- What is kept of a series, whatever was exported before it. -/
theorem keepPoints_reset (vertex : S2Point) (vertices : List S2Point) (s : TessellatingState) :
    keepPoints t (vertex :: vertices) s.reset =
      (t.appendChain vertex vertices []).map fun pointsOut =>
        ⟨false, vertex, vertices.getLastD vertex, pointsOut⟩ :=
  keepPoints_of_not_first t vertex vertex [] vertices

theorem coordInSeries_eq (geom : WkMeta) (vertex : S2Point) (s : TessellatingState) :
    (tessellatingExporter t unset unset').coordInSeries geom vertex s =
      (keepPoint t vertex s).map fun s => ([], s) := by
  change (keepPoint t vertex s >>= _) = _
  cases keepPoint t vertex s <;> rfl

theorem all_coordInSeries_eq (geom : WkMeta) (vertices : List S2Point) (s : TessellatingState) :
    Emit.all (vertices.map ((tessellatingExporter t unset unset').coordInSeries geom)) s =
      (keepPoints t vertices s).map fun s => ([], s) := by
  induction vertices generalizing s with
  | nil => rfl
  | cons vertex vertices ih =>
    rw [List.map_cons, Emit.all, keepPoints, List.foldlM_cons]
    have hfirst := coordInSeries_eq t unset unset' geom vertex s
    cases hkeep : keepPoint t vertex s with
    | error fault => exact Emit.append_error_left (by rw [hfirst, hkeep]; rfl)
    | ok s' =>
      rw [hkeep] at hfirst
      have hrest := ih s'
      change _ = Except.map _ (keepPoints t vertices s')
      cases hkeeps : keepPoints t vertices s' with
      | error fault =>
        rw [hkeeps] at hrest
        exact Emit.append_error hfirst hrest
      | ok s'' =>
        rw [hkeeps] at hrest
        exact Emit.append_ok hfirst hrest

theorem handleSeries_eq (geom : WkMeta) (vertex : S2Point) (vertices : List S2Point)
    (s : TessellatingState) :
    handleSeries (tessellatingExporter t unset unset') geom (vertex :: vertices) s =
      (keepPoints t (vertex :: vertices) s).map fun s =>
        ((s.pointsOut.map (planarCoord unset unset')).map (.coord geom), s) := by
  induction vertices generalizing vertex s with
  | nil =>
    rw [keepPoints, List.foldlM_cons, handleSeries]
    change (keepPoint t vertex s >>= _) = _
    cases keepPoint t vertex s <;> rfl
  | cons vertex' vertices ih =>
    rw [keepPoints, List.foldlM_cons]
    have hfirst := coordInSeries_eq t unset unset' geom vertex s
    cases hkeep : keepPoint t vertex s with
    | error fault => exact Emit.append_error_left (by rw [hfirst, hkeep]; rfl)
    | ok s' =>
      rw [hkeep] at hfirst
      have hrest := ih vertex' s'
      change _ = Except.map _ (keepPoints t (vertex' :: vertices) s')
      cases hkeeps : keepPoints t (vertex' :: vertices) s' with
      | error fault =>
        rw [hkeeps] at hrest
        exact Emit.append_error hfirst hrest
      | ok s'' =>
        rw [hkeeps] at hrest
        exact Emit.append_ok hfirst hrest

theorem readEntries_sizeMinusOne {pointsOut : List R2Point} (h : pointsOut ≠ []) :
    readEntries pointsOut (sizeMinusOne pointsOut) = .ok pointsOut.dropLast := by
  have hsize : sizeMinusOne pointsOut = pointsOut.length - 1 := by
    rw [sizeMinusOne, List.isEmpty_eq_false_iff.mpr h]
    rfl
  rw [readEntries, hsize, if_pos (Nat.sub_le _ _), List.dropLast_eq_take]

/-- The size of the buffer does not underflow if an edge has been kept. -/
theorem lastCoordInLoop_ok (geom : WkMeta) (vertex : S2Point) {s s' : TessellatingState}
    (hkept : keepPoint t vertex s = .ok s') (hfirst : s'.isFirstPoint = false)
    (hpoints : s'.pointsOut ≠ []) :
    (tessellatingExporter t unset unset').lastCoordInLoop geom vertex s =
      .ok (((s'.pointsOut.dropLast ++ [proj.project vertex]).map
        (planarCoord unset unset')).map (.coord geom), s') := by
  change (keepPoint t vertex s >>= _) = _
  rw [hkept]
  change (readEntries _ _ >>= _) = _
  rw [readEntries_sizeMinusOne hpoints]
  simp only [hfirst]
  rfl

/-- The points written for a line. -/
def drawnLine : List S2Point → Except Fault (List R2Point)
  | [] => .ok []
  | vertex :: vertices => t.appendChain vertex vertices []

/-- The points written for a ring: the last of the edge that closes the ring is left out, and
the first vertex is projected again. -/
def drawnRing : List S2Point → Except Fault (List R2Point)
  | [] => .ok []
  | vertex :: vertices =>
    (t.appendChain vertex (vertices ++ [vertex]) []).map fun points =>
      points.dropLast ++ [proj.project vertex]

theorem ringSeries_of_ok (geom : WkMeta) (vertex : S2Point) (vertices : List S2Point)
    {points : List R2Point} (h : t.appendChain vertex (vertices ++ [vertex]) [] = .ok points)
    (hne : points ≠ []) (s : TessellatingState) :
    (ringSeries (tessellatingExporter t unset unset') geom vertex vertices).written s.reset =
      .ok (((points.dropLast ++ [proj.project vertex]).map (planarCoord unset unset')).map
        (.coord geom)) := by
  have hkept := keepPoints_reset t vertex (vertices ++ [vertex]) s
  rw [h, ← List.cons_append, keepPoints, List.foldlM_append] at hkept
  have hseries := all_coordInSeries_eq t unset unset' geom (vertex :: vertices) s.reset
  cases hkeep : keepPoints t (vertex :: vertices) s.reset with
  | error fault =>
    rw [keepPoints] at hkeep
    rw [hkeep] at hkept
    cases hkept
  | ok s' =>
    rw [hkeep] at hseries
    rw [keepPoints] at hkeep
    rw [hkeep] at hkept
    have hlast : keepPoint t vertex s' = .ok ⟨false, vertex, _, points⟩ :=
      (bind_pure _).symm.trans hkept
    exact Emit.written_of_ok
      (Emit.append_ok hseries (lastCoordInLoop_ok t unset unset' geom vertex hlast rfl hne))

theorem ringSeries_of_error (geom : WkMeta) (vertex : S2Point) (vertices : List S2Point)
    {fault : Fault} (h : t.appendChain vertex (vertices ++ [vertex]) [] = .error fault)
    (s : TessellatingState) :
    (ringSeries (tessellatingExporter t unset unset') geom vertex vertices).written s.reset =
      .error fault := by
  have hkept := keepPoints_reset t vertex (vertices ++ [vertex]) s
  rw [h, ← List.cons_append, keepPoints, List.foldlM_append] at hkept
  have hseries := all_coordInSeries_eq t unset unset' geom (vertex :: vertices) s.reset
  refine Emit.written_error.mpr ?_
  rw [keepPoints] at hseries
  cases hkeep : List.foldlM (fun s vertex => keepPoint t vertex s) s.reset (vertex :: vertices) with
  | error fault' =>
    rw [hkeep] at hkept hseries
    obtain rfl := Except.error.inj hkept
    exact Emit.append_error_left hseries
  | ok s' =>
    rw [hkeep] at hkept hseries
    have hkeep : keepPoint t vertex s' = .error fault := (bind_pure _).symm.trans hkept
    have hlast : (tessellatingExporter t unset unset').lastCoordInLoop geom vertex s' =
        .error fault := by
      change (keepPoint t vertex s' >>= _) = _
      rw [hkeep]
      rfl
    exact Emit.append_error hseries hlast

theorem renders_tessellatingExporter :
    Renders (tessellatingExporter t unset unset')
      (fun vertices => (drawnLine t vertices).map (List.map (planarCoord unset unset')))
      (fun vertices => (drawnRing t vertices).map (List.map (planarCoord unset unset'))) where
  point geom point s := ⟨planarCoord unset unset' (proj.project point), s, rfl⟩
  line geom vertices s := by
    cases vertices with
    | nil => rfl
    | cons vertex vertices =>
      rw [Emit.written, afterReset, handleSeries_eq]
      change Except.map _ (Except.map _ (keepPoints t (vertex :: vertices) s.reset)) = _
      rw [keepPoints_reset, drawnLine]
      cases t.appendChain vertex vertices [] <;> rfl
  ring geom vertex vertices s := by
    change (ringSeries _ geom vertex vertices).written s.reset = _
    rw [drawnRing]
    cases hchain : t.appendChain vertex (vertices ++ [vertex]) [] with
    | error fault => exact ringSeries_of_error t unset unset' geom vertex vertices hchain s
    | ok points =>
      have hne : points ≠ [] := t.appendChain_ne_nil (List.concat_ne_nil vertex vertices) hchain
      exact ringSeries_of_ok t unset unset' geom vertex vertices hchain hne s

/-! ### Closed rings -/

/-- Coordinates that begin and end the same, and visit the vertices in order. -/
structure IsClosedRing (represents : S2Point → WkCoord → Prop) (vertices : List S2Point)
    (coords : List WkCoord) : Prop where
  ne_nil : coords ≠ []
  closed : coords.head? = coords.getLast?
  visits : List.SublistForall₂ represents vertices coords

theorem head?_eq_getLast?_of_closed {α : Type} (a : α) (as : List α) :
    (a :: (as ++ [a])).head? = (a :: (as ++ [a])).getLast? := by
  rw [← List.cons_append, List.getLast?_concat]
  rfl

section Renders

variable {σ : Type} {exporter : EdgeExporter σ}
  {line ring : List S2Point → Except Fault (List WkCoord)}

theorem Renders.written_handleLoop (h : Renders exporter line ring) (geom : WkMeta)
    {vertices : List S2Point} (hne : vertices ≠ []) (s : σ) :
    (handleLoop exporter geom vertices).written s = (ring vertices).map fun coords =>
      (⟨some (vertices.length + 1), coords⟩ : WkRing).events geom := by
  obtain ⟨vertex, vertices, rfl⟩ := List.exists_cons_of_ne_nil hne
  have hseries := h.ring geom vertex vertices s
  refine (Emit.written_between rfl _ _ s).trans ?_
  rw [ringSeries] at hseries
  rw [hseries]
  cases ring (vertex :: vertices) <;> rfl

end Renders

/-- A coordinate that a vertex may be written as, with the coordinates beyond the plane. -/
def DrawnAs (proj : S2Projection) (unset unset' : Double) (vertex : S2Point) (c : WkCoord) :
    Prop :=
  ∃ point, proj.Draws vertex point ∧ c = planarCoord unset unset' point

/-- The halving of the edges between consecutive vertices ends before the stack is full. -/
def edgesEnd : List S2Point → Bool
  | [] => true
  | vertex :: vertices => t.chainEnds (proj.project vertex) vertex vertices

/-- A ring whose edges can be halved to the end is drawn closed, through its vertices. -/
theorem exists_drawnRing {vertices : List S2Point} (hne : vertices ≠ [])
    (h : edgesEnd t (closedRing vertices) = true) : ∃ points,
      drawnRing t vertices = .ok points ∧
      IsClosedRing (DrawnAs proj unset unset') vertices
        (points.map (planarCoord unset unset')) := by
  obtain ⟨vertex, vertices, rfl⟩ := List.exists_cons_of_ne_nil hne
  obtain ⟨added, hadded, hvisits, -⟩ :=
    t.exists_appendChain_nil (List.concat_ne_nil vertex vertices) h
  have hne : added ≠ [] := by
    intro hnil
    have hle := hvisits.length_le
    simp [hnil] at hle
  have hring : drawnRing t (vertex :: vertices) =
      .ok (proj.project vertex :: (added.dropLast ++ [proj.project vertex])) := by
    rw [drawnRing, hadded, Except.map, List.dropLast_cons_of_ne_nil hne, List.cons_append]
  -- the last vertex that the edges visit is the first again, which is written once more
  have hpoints : List.SublistForall₂ proj.Draws (vertex :: vertices)
      (proj.project vertex :: (added.dropLast ++ [proj.project vertex])) := by
    have hdropLast := hvisits.dropLast
    rw [List.dropLast_concat] at hdropLast
    exact .cons (proj.movedByWraps_refl _) (sublistForall₂_append_right hdropLast _)
  refine ⟨_, hring, List.cons_ne_nil _ _, ?_, sublistForall₂_map ?_ hpoints⟩
  · rw [List.head?_map, List.getLast?_map, head?_eq_getLast?_of_closed]
  · exact fun vertex point hdraws => ⟨point, hdraws, rfl⟩

/-- Whole numbers in 64 bits, which are added without rounding. -/
def wholeArithmetic : WrapArithmetic Double where
  zero := .zero
  half := .zero
  add a b := ⟨a.bits + b.bits⟩
  sub a b := ⟨a.bits - b.bits⟩
  -- only half a wrap is asked for
  mul _ b := ⟨b.bits / 2⟩
  fabs a := ⟨a.bits.abs⟩
  remainder a b := ⟨a.bits - (a.bits.toInt.bdiv b.bits.toNat : BitVec 64) * b.bits⟩
  gt a b := b.bits.slt a.bits

example : wholeArithmetic.Exact Double.bits where
  add _ _ := rfl
  sub _ _ := rfl
  remainder a wrap := ⟨a.bits.toInt.bdiv wrap.bits.toNat, rfl⟩

/-- A plane that is 360 wide. -/
def wrappingProjection : S2Projection :=
  { flatProjection with arithmetic := wholeArithmetic, wrapDistance := ⟨⟨360⟩, .zero⟩ }

def wrappingTessellator : S2EdgeTessellator wrappingProjection where
  midpoint a _ := a
  withinTolerance _ _ _ _ := true
  stackDepth := 45

/-- A ring across the end of the plane. -/
example : drawnRing wrappingTessellator [⟨⟨170⟩, .zero, .zero⟩, ⟨⟨-170⟩, .zero, .zero⟩] =
    .ok [⟨⟨170⟩, .zero⟩, ⟨⟨190⟩, .zero⟩, ⟨⟨170⟩, .zero⟩] := by decide

end Exporter

end S2Geography
