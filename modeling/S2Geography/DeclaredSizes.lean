import S2Geography.TessellatingExporter

/-!
# Sizes declared by the exporter

Every start event declares how many children follow before its end. The exporter takes the
sizes from the geography, so they hold if an edge exporter writes what the geography has.
A tessellating exporter does not where it splits an edge, or leaves out a lone vertex.
-/
namespace S2Geography

open ListVisits

/-! ### Checking sizes -/

/-- A geometry or ring that has not ended yet. -/
structure OpenParent where
  declared : Option ℕ
  children : ℕ
  deriving DecidableEq, Repr

/-- More children for the innermost open parent. -/
def addChildren (n : ℕ) : List OpenParent → List OpenParent
  | [] => []
  | parent :: stack => { parent with children := parent.children + n } :: stack

/-- All ends come when the declared number of children has been seen. An error ends the
export, so what comes after it does not count. -/
def sizesTrue : List OpenParent → List WkEvent → Bool
  | _, [] => true
  | stack, e :: es =>
    match e with
    | .geometryStart geom => sizesTrue (⟨geom.size, 0⟩ :: addChildren 1 stack) es
    | .ringStart _ size => sizesTrue (⟨size, 0⟩ :: addChildren 1 stack) es
    | .coord _ _ => sizesTrue (addChildren 1 stack) es
    | .ringEnd _ _ | .geometryEnd _ =>
      match stack with
      | [] => false
      | parent :: stack => parent.declared = some parent.children && sizesTrue stack es
    | .error _ => true

theorem addChildren_zero (stack : List OpenParent) : addChildren 0 stack = stack := by
  cases stack <;> rfl

theorem addChildren_addChildren (m n : ℕ) (stack : List OpenParent) :
    addChildren n (addChildren m stack) = addChildren (m + n) stack := by
  cases stack with
  | nil => rfl
  | cons parent stack => simp only [addChildren, Nat.add_assoc]

theorem sizesTrue_coords (geom : WkMeta) (coords : List WkCoord) (stack : List OpenParent)
    (rest : List WkEvent) : sizesTrue stack (coords.map (.coord geom) ++ rest) =
      sizesTrue (addChildren coords.length stack) rest := by
  induction coords generalizing stack with
  | nil => rw [List.length_nil, addChildren_zero]; rfl
  | cons coord coords ih =>
    rw [List.map_cons, List.cons_append, sizesTrue, ih, addChildren_addChildren,
      List.length_cons, Nat.add_comm]

namespace Exporter

variable {σ : Type} {exporter : EdgeExporter σ}

/-! ### Lines and rings of a geography -/

/-- What an edge exporter gets as one series of vertices. -/
inductive Series where
  | line (vertices : List S2Point)
  | ring (vertices : List S2Point)
  deriving DecidableEq, Repr

/-- The series of points, polylines or a polygon, in the order exported. -/
def leafSeries : Geography (List StoredLoop) → List Series
  | .polyline polylines => polylines.map .line
  | .polygon loops => (handedLoops loops).map .ring
  | _ => []

def geogSeries (geog : Geography (List StoredLoop)) : List Series :=
  geog.leaves.flatMap leafSeries

/-- The series up to the first loop without vertices, where the export ends with an error. -/
def exportedSeries (series : List Series) : List Series := series.takeWhile (· ≠ .ring [])

/-- Something holds of the series exported, and, unless they end with an error, it goes on. -/
def allThen (fits : Series → Bool) : List Series → Bool → Bool
  | [], next => next
  | series :: rest, next => series = .ring [] || fits series && allThen fits rest next

theorem allThen_append (fits : Series → Bool) (series series' : List Series) (next : Bool) :
    allThen fits (series ++ series') next = allThen fits series (allThen fits series' next) := by
  induction series with
  | nil => rfl
  | cons first series ih => rw [List.cons_append, allThen, allThen, ih]

/-- An empty loop ends the export, and without one it goes on. -/
theorem allThen_of_mem {fits : Series → Bool} {series : List Series} (h : .ring [] ∈ series)
    (next next' : Bool) : allThen fits series next = allThen fits series next' := by
  induction series with
  | nil => exact absurd h List.not_mem_nil
  | cons first series ih =>
    rw [allThen, allThen]
    rcases List.mem_cons.mp h with hfirst | hrest
    · simp [← hfirst]
    · rw [ih hrest]

theorem allThen_false_of_not_mem (fits : Series → Bool) {series : List Series}
    (h : .ring [] ∉ series) : allThen fits series false = false := by
  induction series with
  | nil => rfl
  | cons first series ih =>
    rw [List.mem_cons, not_or] at h
    rw [allThen, ih h.2, Bool.and_false, Bool.or_false]
    exact decide_eq_false (Ne.symm h.1)

theorem allThen_true_iff (fits : Series → Bool) (series : List Series) :
    allThen fits series true = true ↔ ∀ one ∈ exportedSeries series, fits one = true := by
  induction series with
  | nil => exact iff_of_true rfl (List.forall_mem_nil _)
  | cons first series ih =>
    rw [allThen, exportedSeries, List.takeWhile_cons]
    by_cases hfirst : first = .ring []
    · simp [hfirst]
    · simp [hfirst, ih, exportedSeries]

/-! ### Children written -/

/-- From any state, `n` children are written over the series, with an error exactly for a loop
without vertices, and the sizes declared within them are true as far as the series fit; or it
fails, where a series does not fit. -/
def WritesChildren (fits : Series → Bool) (emit : Emit σ) (n : ℕ) (series : List Series) : Prop :=
  ∀ s, (∃ es s', emit s = .ok (es, s') ∧
      (es.any WkEvent.isError = true ↔ .ring [] ∈ series) ∧
      ∀ stack rest, sizesTrue stack (es ++ rest) =
        allThen fits series (sizesTrue (addChildren n stack) rest)) ∨
    ∃ fault, emit s = .error fault ∧ ∀ next, allThen fits series next = false

section WritesChildren

variable {fits : Series → Bool}

theorem writesChildren_nothing : WritesChildren fits (.nothing : Emit σ) 0 [] := fun s =>
  .inl ⟨[], s, rfl, iff_of_false Bool.false_ne_true List.not_mem_nil,
    fun stack rest => by rw [addChildren_zero]; rfl⟩

theorem WritesChildren.append {first second : Emit σ} {n n' : ℕ} {series series' : List Series}
    (h : WritesChildren fits first n series) (h' : WritesChildren fits second n' series') :
    WritesChildren fits (first.append second) (n + n') (series ++ series') := by
  intro s
  rcases h s with ⟨es, s1, hrun, herror, hsizes⟩ | ⟨fault, hrun, hfits⟩
  · rcases h' s1 with ⟨es', s2, hrun', herror', hsizes'⟩ | ⟨fault, hrun', hfits'⟩
    · left
      refine ⟨es ++ es', s2, Emit.append_ok hrun hrun', ?_, fun stack rest => ?_⟩
      · rw [List.any_append, Bool.or_eq_true, herror, herror', List.mem_append]
      · rw [List.append_assoc, hsizes, hsizes', allThen_append, addChildren_addChildren]
    · have happend := Emit.append_error hrun hrun'
      by_cases hends : es.any WkEvent.isError = true
      · -- what fails is not run
        rw [if_pos hends] at happend
        left
        refine ⟨es, s1, happend, iff_of_true hends ?_, fun stack rest => ?_⟩
        · exact List.mem_append_left series' (herror.mp hends)
        · rw [hsizes, allThen_append]
          exact allThen_of_mem (herror.mp hends) _ _
      · rw [if_neg hends] at happend
        right
        refine ⟨fault, happend, fun next => ?_⟩
        rw [allThen_append, hfits', allThen_false_of_not_mem fits (mt herror.mpr hends)]
  · right
    exact ⟨fault, Emit.append_error_left hrun, fun next => by rw [allThen_append, hfits]⟩

theorem writesChildren_all {α : Type} {f : α → Emit σ} {g : α → List Series} (as : List α)
    (h : ∀ a ∈ as, WritesChildren fits (f a) 1 (g a)) :
    WritesChildren fits (.all (as.map f)) as.length (as.flatMap g) := by
  induction as with
  | nil => exact writesChildren_nothing
  | cons a as ih =>
    rw [List.map_cons, List.length_cons, List.flatMap_cons, Nat.add_comm]
    exact (h a List.mem_cons_self).append (ih fun b hb => h b (List.mem_cons_of_mem _ hb))

/-- A geometry is one child, whose size is that of its content. -/
theorem WritesChildren.geometry {content : Emit σ} {n : ℕ} {series : List Series} {geom : WkMeta}
    (h : WritesChildren fits content n series) (hsize : geom.size = some n) :
    WritesChildren fits (Exporter.geometry geom content) 1 series := by
  intro s
  rcases h s with ⟨es, s', hrun, herror, hsizes⟩ | ⟨fault, hrun, hfits⟩
  · left
    refine ⟨_, s', geometry_ok hrun, ?_, fun stack rest => ?_⟩
    · simp [WkEvent.isError, ← herror]
    · rw [List.cons_append, List.append_assoc, sizesTrue, hsizes]
      simp [addChildren, sizesTrue, hsize]
  · exact .inr ⟨fault, geometry_error hrun, hfits⟩

end WritesChildren

def hasLength (n : ℕ) : Except Fault (List WkCoord) → Bool
  | .ok coords => coords.length = n
  | .error _ => false

/-- A line has as many coordinates as vertices, a ring one more. -/
def seriesFits (line ring : List S2Point → Except Fault (List WkCoord)) : Series → Bool
  | .line vertices => hasLength vertices.length (line vertices)
  | .ring vertices => hasLength (vertices.length + 1) (ring vertices)

namespace Renders

variable {line ring : List S2Point → Except Fault (List WkCoord)}

theorem writesChildren_handlePolyline (h : Renders exporter line ring) (vertices : List S2Point) :
    WritesChildren (seriesFits line ring) (handlePolyline exporter vertices) 1
      [.line vertices] := by
  intro s
  let geom := exporter.geom .linestring vertices.length
  have hwritten := h.line geom vertices s
  cases hcoords : line vertices with
  | error fault =>
    rw [hcoords] at hwritten
    right
    refine ⟨fault, geometry_error (Emit.written_error.mp hwritten), fun next => ?_⟩
    simp [allThen, seriesFits, hcoords, hasLength]
  | ok coords =>
    rw [hcoords] at hwritten
    obtain ⟨s', hline⟩ := Emit.exists_of_written hwritten
    left
    refine ⟨_, s', geometry_ok hline, by simp [WkEvent.isError], fun stack rest => ?_⟩
    rw [List.cons_append, List.append_assoc, sizesTrue, sizesTrue_coords]
    simp [addChildren, sizesTrue, allThen, seriesFits, hcoords, hasLength, EdgeExporter.geom,
      eq_comm]

/-- A loop without vertices is an error, which ends the export. -/
theorem writesChildren_handleLoop (h : Renders exporter line ring) (geom : WkMeta)
    (vertices : List S2Point) :
    WritesChildren (seriesFits line ring) (handleLoop exporter geom vertices) 1
      [.ring vertices] := by
  intro s
  by_cases hne : vertices = []
  · subst hne
    exact .inl ⟨_, s, rfl, by simp [WkEvent.isError], fun stack rest => rfl⟩
  · have hwritten := h.written_handleLoop geom hne s
    cases hcoords : ring vertices with
    | error fault =>
      rw [hcoords] at hwritten
      right
      refine ⟨fault, Emit.written_error.mp hwritten, fun next => ?_⟩
      simp [allThen, seriesFits, hcoords, hasLength, hne]
    | ok coords =>
      rw [hcoords] at hwritten
      obtain ⟨s', hloop⟩ := Emit.exists_of_written hwritten
      left
      refine ⟨_, s', hloop, by simp [WkRing.events, WkEvent.isError, hne], fun stack rest => ?_⟩
      change sizesTrue stack (.ringStart geom _ :: ((coords.map (.coord geom) ++ _) ++ rest)) = _
      rw [List.append_assoc, sizesTrue, sizesTrue_coords]
      simp [addChildren, sizesTrue, allThen, seriesFits, hcoords, hasLength, hne, eq_comm]

theorem writesChildren_handlePoint (h : Renders exporter line ring) (point : S2Point) :
    WritesChildren (seriesFits line ring) (handlePoint exporter point) 1 [] := by
  have hcoord : WritesChildren (seriesFits line ring)
      (exporter.coordPoint (exporter.geom .point 1) point) 1 [] := by
    intro s
    obtain ⟨coord, s', hrun⟩ := h.point (exporter.geom .point 1) point s
    exact .inl ⟨_, s', hrun, by simp [WkEvent.isError], fun stack rest => rfl⟩
  exact hcoord.geometry rfl

theorem writesChildren_handlePoints (h : Renders exporter line ring) (points : List S2Point) :
    WritesChildren (seriesFits line ring) (handlePoints exporter points) 1 [] := by
  match points with
  | [] => exact writesChildren_nothing.geometry rfl
  | [point] => exact h.writesChildren_handlePoint point
  | point :: point' :: points =>
    have hall := writesChildren_all (point :: point' :: points)
      fun p _ => h.writesChildren_handlePoint p
    rw [List.flatMap_eq_nil_iff.mpr fun _ _ => rfl] at hall
    exact hall.geometry rfl

theorem writesChildren_handlePolylines (h : Renders exporter line ring)
    (polylines : List (List S2Point)) :
    WritesChildren (seriesFits line ring) (handlePolylines exporter polylines) 1
      (polylines.map .line) := by
  match polylines with
  | [] => exact writesChildren_nothing.geometry rfl
  | [polyline] => exact h.writesChildren_handlePolyline polyline
  | polyline :: polyline' :: polylines =>
    have hall := writesChildren_all (polyline :: polyline' :: polylines)
      fun p _ => h.writesChildren_handlePolyline p
    rw [← List.map_eq_flatMap] at hall
    exact hall.geometry rfl

theorem writesChildren_handlePart (h : Renders exporter line ring)
    (shell : StoredLoop × List StoredLoop) :
    WritesChildren (seriesFits line ring) (handlePart exporter shell) 1
      ((partRings shell).map .ring) := by
  let geom := exporter.geom .polygon (1 + shell.2.length)
  have hholes := writesChildren_all shell.2
    fun hole _ => h.writesChildren_handleLoop geom hole.1.reverse
  have hrings := (h.writesChildren_handleLoop geom shell.1.1).append hholes
  rw [← List.map_eq_flatMap] at hrings
  rw [partRings, List.map_cons, List.map_map]
  exact hrings.geometry rfl

theorem writesChildren_handleShells (h : Renders exporter line ring)
    (shells : List (StoredLoop × List StoredLoop)) :
    WritesChildren (seriesFits line ring) (handleShells exporter shells) 1
      ((shells.flatMap partRings).map .ring) := by
  rw [List.map_flatMap]
  match shells with
  | [] => exact writesChildren_nothing.geometry rfl
  | [shell] =>
    rw [List.flatMap_singleton]
    exact h.writesChildren_handlePart shell
  | shell :: shell' :: shells =>
    exact (writesChildren_all (shell :: shell' :: shells)
      fun part _ => h.writesChildren_handlePart part).geometry rfl

mutual

/-- Every geography is one child. -/
theorem writesChildren_handleGeog (h : Renders exporter line ring) :
    (geog : Geography (List StoredLoop)) →
    WritesChildren (seriesFits line ring) (handleGeog exporter geog) 1 (geogSeries geog)
  | .point points => h.writesChildren_handlePoints points
  | .polyline polylines => by
    rw [geogSeries, Geography.leaves, List.flatMap_singleton]
    exact h.writesChildren_handlePolylines polylines
  | .polygon loops => by
    rw [geogSeries, Geography.leaves, List.flatMap_singleton]
    exact h.writesChildren_handleShells (outerShells loops)
  | .collection features => (writesChildren_handleFeatures h features).geometry rfl

theorem writesChildren_handleFeatures (h : Renders exporter line ring) :
    (features : List (Geography (List StoredLoop))) →
    WritesChildren (seriesFits line ring) (handleFeatures exporter features) features.length
      ((Geography.leavesAll features).flatMap leafSeries)
  | [] => writesChildren_nothing
  | feature :: features => by
    rw [Geography.leavesAll, List.flatMap_append, List.length_cons, Nat.add_comm]
    exact (writesChildren_handleGeog h feature).append (writesChildren_handleFeatures h features)

end

end Renders

/-! ### True sizes -/

/-- The export of a geography declares true sizes. -/
def DeclaresTrueSizes (exporter : EdgeExporter σ) (s : σ) (geog : Geography (List StoredLoop)) :
    Prop :=
  ∃ es s', handleGeog exporter geog s = .ok (es, s') ∧ sizesTrue [] es = true

theorem Renders.declaresTrueSizes_iff {line ring : List S2Point → Except Fault (List WkCoord)}
    (h : Renders exporter line ring) (s : σ) (geog : Geography (List StoredLoop)) :
    DeclaresTrueSizes exporter s geog ↔
      ∀ series ∈ exportedSeries (geogSeries geog), seriesFits line ring series = true := by
  rw [← allThen_true_iff]
  rcases h.writesChildren_handleGeog geog s with ⟨es, s', hrun, -, hsizes⟩ | ⟨fault, hrun, hfits⟩
  · have htop := hsizes [] []
    rw [List.append_nil, addChildren, sizesTrue] at htop
    rw [← htop]
    constructor
    · intro ⟨es', s'', hrun', htrue⟩
      rwa [(Prod.mk.inj (Except.ok.inj (hrun'.symm.trans hrun))).1] at htrue
    · exact fun htrue => ⟨es, s', hrun, htrue⟩
  · rw [hfits]
    refine iff_of_false (fun hdeclares => ?_) Bool.false_ne_true
    obtain ⟨es, s', hrun', -⟩ := hdeclares
    cases hrun.symm.trans hrun'

theorem WritesVertices.declaresTrueSizes {coord : S2Point → WkCoord}
    (h : WritesVertices exporter coord) (s : σ) (geog : Geography (List StoredLoop)) :
    DeclaresTrueSizes exporter s geog := by
  refine (h.renders.declaresTrueSizes_iff s geog).mpr fun series hseries => ?_
  cases series with
  | line vertices => simp [seriesFits, hasLength]
  | ring vertices =>
    have hne : vertices ≠ [] := by
      simpa using List.mem_takeWhile_imp hseries
    obtain ⟨vertex, vertices, rfl⟩ := List.exists_cons_of_ne_nil hne
    simp [seriesFits, hasLength, closedRing]

section Tessellating

variable {proj : S2Projection} (t : S2EdgeTessellator proj) (unset unset' : Double)

/-- No edge between consecutive vertices is split. -/
def wholeLine : List S2Point → Bool
  | [] => true
  | vertex :: vertices => t.whole (proj.project vertex) vertex vertices

/-- A line that does not have just one vertex, or a ring, of which no edge is split. -/
def Unsplit : Series → Prop
  | .line vertices => vertices.length ≠ 1 ∧ wholeLine t vertices = true
  | .ring vertices => wholeLine t (closedRing vertices) = true

/-- What is made of a chain, with as many points, has one more than vertices were appended if
and only if no edge is split. -/
theorem hasLength_appendChain_iff (vertex : S2Point) {vertices : List S2Point}
    (hne : vertices ≠ []) {keep : List R2Point → List WkCoord}
    (hkeep : ∀ point points, (keep (point :: points)).length = points.length + 1) :
    hasLength (vertices.length + 1) ((t.appendChain vertex vertices []).map keep) = true ↔
      t.whole (proj.project vertex) vertex vertices = true := by
  by_cases hends : t.chainEnds (proj.project vertex) vertex vertices = true
  · obtain ⟨added, hadded, -, hlength⟩ := t.exists_appendChain_nil hne hends
    rw [hadded, ← hlength]
    simp [Except.map, hasLength, hkeep]
  · rw [t.appendChain_nil_overflows hends]
    exact iff_of_false Bool.false_ne_true fun hwhole => hends (t.chainEnds_of_whole hwhole)

theorem seriesFits_iff_unsplit {series : Series} (hne : series ≠ .ring []) :
    seriesFits (fun vertices => (drawnLine t vertices).map (List.map (planarCoord unset unset')))
        (fun vertices => (drawnRing t vertices).map (List.map (planarCoord unset unset')))
        series = true ↔ Unsplit t series := by
  match series with
  | .line [] => exact iff_of_true rfl ⟨Nat.zero_ne_one, rfl⟩
  | .line [vertex] => exact iff_of_false Bool.false_ne_true fun h => h.1 rfl
  | .line (vertex :: vertex' :: vertices) =>
    refine (hasLength_appendChain_iff t vertex (List.cons_ne_nil vertex' vertices)
      fun point points => List.length_map _).trans ?_
    simp [Unsplit, wholeLine]
  | .ring [] => exact absurd rfl hne
  | .ring (vertex :: vertices) =>
    have hdrawn : (drawnRing t (vertex :: vertices)).map (List.map (planarCoord unset unset')) =
        (t.appendChain vertex (vertices ++ [vertex]) []).map fun points =>
          (points.dropLast ++ [proj.project vertex]).map (planarCoord unset unset') := by
      rw [drawnRing]
      cases t.appendChain vertex (vertices ++ [vertex]) [] <;> rfl
    have hlength : (vertex :: vertices).length = (vertices ++ [vertex]).length := by simp
    rw [seriesFits, hdrawn, hlength]
    exact hasLength_appendChain_iff t vertex (List.concat_ne_nil vertex vertices)
      fun point points => by simp

/-- A tessellating exporter declares true sizes exactly if no line exported has just one
vertex, and no edge exported is split. The other exporters always do. -/
theorem exporters_declareTrueSizes_iff (s : TessellatingState)
    (geog : Geography (List StoredLoop)) :
    DeclaresTrueSizes (s2Exporter unset) () geog ∧
      DeclaresTrueSizes (simpleExporter proj.project unset unset') () geog ∧
      (DeclaresTrueSizes (tessellatingExporter t unset unset') s geog ↔
        ∀ series ∈ exportedSeries (geogSeries geog), Unsplit t series) := by
  refine ⟨(writesVertices_s2Exporter unset).declaresTrueSizes () geog,
    (writesVertices_simpleExporter unset unset' proj.project).declaresTrueSizes () geog, ?_⟩
  rw [(renders_tessellatingExporter t unset unset').declaresTrueSizes_iff s geog]
  refine forall₂_congr fun series hseries => seriesFits_iff_unsplit t unset unset' ?_
  simpa using List.mem_takeWhile_imp hseries

end Tessellating

/-- A tessellator that halves the edge between two axes, and no other. -/
def halvingTessellator : S2EdgeTessellator flatProjection where
  midpoint _ _ := ⟨⟨0x3fe6a09e667f3bcd⟩, ⟨0x3fe6a09e667f3bcd⟩, .zero⟩
  withinTolerance _ a _ b := a ≠ axisX || b ≠ axisY
  stackDepth := 45

/-- A line with one vertex is declared with it, but written without; and a line whose edge is
split once is declared with two vertices, but written with three. -/
theorem not_declaresTrueSizes_axes :
    ¬DeclaresTrueSizes (tessellatingExporter flatTessellator .zero .zero)
        ⟨true, axisX, axisX, []⟩ (.polyline [[axisX]]) ∧
      ¬DeclaresTrueSizes (tessellatingExporter halvingTessellator .zero .zero)
        ⟨true, axisX, axisX, []⟩ (.polyline [[axisX, axisY]]) := by
  constructor
  · intro h
    have hfits := ((renders_tessellatingExporter _ _ _).declaresTrueSizes_iff _ _).mp h
      (.line [axisX]) (by decide)
    exact absurd hfits (by decide)
  · intro h
    have hfits := ((renders_tessellatingExporter _ _ _).declaresTrueSizes_iff _ _).mp h
      (.line [axisX, axisY]) (by decide)
    exact absurd hfits (by decide)

end Exporter

end S2Geography
