import S2Geography.SimpleTranslation
import S2Geography.TessellatedLines

/-!
# Vertices of imported rings

At the end of a ring `PolygonConstructor` removes the last point, which closes a ring as
readers deliver them. It does so by position; so exactly the rings that are closed keep
all their vertices, if the halving of their edges ends.
-/
namespace S2Geography

open Constructor CheckedRun Exporter ListVisits

/-- A projection with its tessellators. -/
structure ImportTessellator where
  proj : S2Projection
  tessellator : Double → S2EdgeTessellator proj

/-- Options with or without a projection and with or without a finite tolerance. -/
def importOptions (oriented check : Bool) (planar : Option ImportTessellator)
    (tessellateTolerance : Option Double) : Options where
  oriented
  check
  projection := planar.map fun planar => importProjection planar.proj planar.tessellator
  tessellateTolerance

/-- A coordinate that cannot be projected without tessellation, for which the import stops. -/
def StopsAtNaN (options : Options) (pts : List S2Point) : Prop :=
  options.tessellateTolerance = none ∧ checkPoints options pts ≠ .ok ()

/-- The last of at least two vertices is the first. -/
def ClosedVertices (options : Options) (pts : List S2Point) : Prop :=
  ∃ first between last, pts = first :: (between ++ [last]) ∧
    unprojectPoint options first = unprojectPoint options last

/-- Edges that are to be tessellated can be halved to the end. -/
def importEdgesEnd : Option ImportTessellator → Option Double → List S2Point → Bool
  | some planar, some tolerance, pts => planarEdgesEnd (planar.tessellator tolerance) pts
  | _, _, _ => true

section FinishPoints

variable {oriented check : Bool} {planar : Option ImportTessellator}
  {tessellateTolerance : Option Double}

theorem finishPoints_of_stopsAtNaN {options : Options} {pts : List S2Point}
    (h : StopsAtNaN options pts) : ∃ text, finishPoints options pts = .error (.stop text) := by
  obtain ⟨hinf, hcheck⟩ := h
  rw [finishPoints_eq hinf]
  rw [checkPoints] at hcheck ⊢
  split at hcheck
  · next hnan =>
    rw [if_pos hnan]
    exact ⟨_, rfl⟩
  · exact absurd rfl hcheck

/-- Points that are not tessellated are projected one by one. -/
theorem finishPoints_of_not_tessellated {options : Options} {pts : List S2Point}
    (hplain : options.projection = none ∨ options.tessellateTolerance = none)
    (h : ¬StopsAtNaN options pts) :
    finishPoints options pts = .ok (pts.map (unprojectPoint options)) := by
  rcases hplain with hproj | hinf
  · have hid : unprojectPoint options = id := by
      funext pt
      simp [unprojectPoint, hproj]
    rw [finishPoints, hproj, hid, List.map_id]
  · have hcheck : checkPoints options pts = .ok () := by
      by_contra hcheck
      exact h ⟨hinf, hcheck⟩
    rw [finishPoints_eq hinf, hcheck]
    rfl

/-- The points made of a vertex and others visit them all, and begin and end with them. -/
theorem exists_finishPoints {first : S2Point} {rest : List S2Point} (hne : rest ≠ [])
    (h : ¬StopsAtNaN (importOptions oriented check planar tessellateTolerance) (first :: rest))
    (hends : importEdgesEnd planar tessellateTolerance (first :: rest) = true) :
    let options := importOptions oriented check planar tessellateTolerance
    ∃ added, finishPoints options (first :: rest) = .ok (unprojectPoint options first :: added) ∧
      Visits (fun pt point => point = unprojectPoint options pt) rest added := by
  match planar, tessellateTolerance with
  | none, _ =>
    intro options
    exact ⟨_, finishPoints_of_not_tessellated (.inl rfl) h, Visits.map _ rest⟩
  | some _, none =>
    intro options
    exact ⟨_, finishPoints_of_not_tessellated (.inr rfl) h, Visits.map _ rest⟩
  | some planar, some tolerance =>
    intro options
    exact exists_tessellate_nil planar.tessellator tolerance first hne hends

/-- Two vertices or more become points that begin and end with them. -/
theorem exists_finishPoints_concat {first last : S2Point} {between : List S2Point}
    (h : ¬StopsAtNaN (importOptions oriented check planar tessellateTolerance)
      (first :: (between ++ [last])))
    (hends : importEdgesEnd planar tessellateTolerance (first :: (between ++ [last])) = true) :
    let options := importOptions oriented check planar tessellateTolerance
    ∃ inner, finishPoints options (first :: (between ++ [last])) =
        .ok (unprojectPoint options first :: (inner ++ [unprojectPoint options last])) ∧
      ∀ pt ∈ first :: (between ++ [last]), unprojectPoint options pt ∈
        unprojectPoint options first :: (inner ++ [unprojectPoint options last]) := by
  intro options
  obtain ⟨added, hadded, hvisits⟩ :=
    exists_finishPoints (List.concat_ne_nil last between) h hends
  obtain ⟨inner, _, rfl, rfl⟩ := hvisits.exists_concat
  refine ⟨inner, hadded, fun pt hpt => ?_⟩
  rcases List.mem_cons.mp hpt with rfl | hpt
  · exact List.mem_cons_self
  · obtain ⟨_, hmem, rfl⟩ := hvisits.exists_mem hpt
    exact List.mem_cons_of_mem _ hmem

theorem finishPoints_overflows {pts : List S2Point}
    (h : ¬importEdgesEnd planar tessellateTolerance pts = true) :
    finishPoints (importOptions oriented check planar tessellateTolerance) pts =
      .error .stackOverflow := by
  match planar, tessellateTolerance, pts with
  | none, _, _ => exact absurd rfl h
  | some _, none, _ => exact absurd rfl h
  | some _, some _, [] => exact absurd rfl h
  | some planar, some tolerance, pt :: pts =>
    exact tessellate_overflows planar.tessellator tolerance pt pts [] h

/-- A lone vertex is kept or, if there are only to be edges, not. -/
theorem finishPoints_singleton (pt : S2Point)
    (h : ¬StopsAtNaN (importOptions oriented check planar tessellateTolerance) [pt]) :
    let options := importOptions oriented check planar tessellateTolerance
    finishPoints options [pt] = .ok [] ∨
      finishPoints options [pt] = .ok [unprojectPoint options pt] := by
  match planar, tessellateTolerance with
  | none, _ => exact .inr (finishPoints_of_not_tessellated (.inl rfl) h)
  | some _, none => exact .inr (finishPoints_of_not_tessellated (.inr rfl) h)
  | some _, some _ => exact .inl rfl

end FinishPoints

/-! ### Rings -/

section Rings

variable {L Pg : Type}

/-- The loop of these vertices, normalized unless the rings are oriented. -/
def loopOf (lib : S2Lib L Pg) (options : Options) (vertices : List S2Point) : L :=
  if options.oriented then lib.initLoop vertices else lib.normalize (lib.initLoop vertices)

/-- The vertices that the coordinates of a ring become. -/
def WkRing.delivered (ring : WkRing) (header : WkHeader) : List S2Point :=
  ring.coords.map (inputPoint · header.coordSize)

theorem feed_ring_eq (lib : S2Lib L Pg) (options : Options) (ring : WkRing) (header : WkHeader)
    (c : PolygonConstructor L) :
    feed (PolygonConstructor.handle lib options) (ring.calls header) c =
      PolygonConstructor.handle lib options .ringEnd
        { c with inputPoints := ring.delivered header } := by
  rw [WkRing.calls, feed_cons]
  change feed _ _ { c with inputPoints := [] } = _
  rw [feed_append, PolygonConstructor.feed_coords]
  exact feed_singleton _ _ _

/-- A ring ends with an error that is reported, or has no coordinates, or becomes a loop with all
of its vertices. If the loop is without one of the points made of them, that is the last point,
and the first again. -/
def KeepsRing (options : Options) (header : WkHeader) (ring : WkRing) : Prop :=
  ∀ (L Pg : Type) (lib : S2Lib L Pg) (c : PolygonConstructor L),
    (∃ text, feed (PolygonConstructor.handle lib options) (ring.calls header) c =
      .error (.stop text)) ∨
    ∃ c', feed (PolygonConstructor.handle lib options) (ring.calls header) c = .ok c' ∧
      (ring.coords = [] ∧ c'.loops = c.loops ∨
        ∃ points vertices,
          finishPoints options (ring.delivered header) = .ok points ∧
          c'.loops = c.loops ++ [loopOf lib options vertices] ∧
          (∀ pt ∈ ring.delivered header, unprojectPoint options pt ∈ vertices) ∧
          (points = vertices ∨
            ∃ vertex rest, vertices = vertex :: rest ∧ points = vertices ++ [vertex]))

theorem ringEnd_of_error (lib : S2Lib L Pg) {options : Options} {c : PolygonConstructor L}
    {fault : Fault} (h : finishPoints options c.inputPoints = .error fault) :
    PolygonConstructor.handle lib options .ringEnd c = .error fault := by
  rw [PolygonConstructor.handle, h]
  rfl

/-- Where its points can be computed, a ring has none, or becomes a loop without the last one,
unless that does not pass the check. -/
theorem ringEnd_of_ok (lib : S2Lib L Pg) {options : Options} {c : PolygonConstructor L}
    {points : List S2Point} (h : finishPoints options c.inputPoints = .ok points) :
    (∃ text, checkLoop lib options c.loops.length (loopOf lib options points.dropLast) =
        .error (.stop text) ∧
      PolygonConstructor.handle lib options .ringEnd c = .error (.stop text)) ∨
    ∃ c', PolygonConstructor.handle lib options .ringEnd c = .ok c' ∧
      (points = [] ∧ c'.loops = c.loops ∨
        points ≠ [] ∧ c'.loops = c.loops ++ [loopOf lib options points.dropLast]) := by
  rw [PolygonConstructor.handle, h]
  change (∃ text, _ ∧ (if points.isEmpty then _ else _) = _) ∨
    ∃ c', (if points.isEmpty then _ else _) = _ ∧ _
  by_cases hempty : points.isEmpty
  · right
    rw [if_pos hempty]
    exact ⟨_, rfl, .inl ⟨List.isEmpty_iff.mp hempty, rfl⟩⟩
  · have hne : points ≠ [] := fun hnil => hempty (List.isEmpty_iff.mpr hnil)
    rw [if_neg hempty]
    change (∃ text, checkLoop lib options c.loops.length (loopOf lib options points.dropLast) = _ ∧
      (checkLoop lib options c.loops.length (loopOf lib options points.dropLast) >>= _) = _) ∨
      ∃ c', (checkLoop lib options c.loops.length (loopOf lib options points.dropLast) >>= _) = _ ∧
        _
    rw [checkLoop]
    split
    · exact .inl ⟨_, rfl, rfl⟩
    · exact .inr ⟨_, rfl, .inr ⟨hne, rfl⟩⟩

/-- Loops that are just their vertices. -/
def verticesLib : S2Lib (List S2Point) Unit where
  initLoop := id
  normalize := id
  loopError _ := none
  initOriented _ := ()
  initNested _ := ()
  polygonError _ := none

theorem loopOf_verticesLib (options : Options) (vertices : List S2Point) :
    loopOf verticesLib options vertices = vertices := by
  unfold loopOf
  split <;> rfl

theorem checkLoop_verticesLib (options : Options) (count : ℕ) (loop : List S2Point) :
    checkLoop verticesLib options count loop = .ok () := by
  unfold checkLoop
  cases options.check <;> rfl

theorem exists_ringEnd_verticesLib {options : Options} {pts points : List S2Point}
    (h : finishPoints options pts = .ok points) : ∃ c',
    PolygonConstructor.handle verticesLib options .ringEnd ⟨pts, [], []⟩ = .ok c' ∧
      (points = [] ∧ c'.loops = [] ∨ points ≠ [] ∧ c'.loops = [points.dropLast]) := by
  have hrun := ringEnd_of_ok verticesLib (c := ⟨pts, [], []⟩) h
  rw [checkLoop_verticesLib, loopOf_verticesLib] at hrun
  exact hrun.resolve_left fun ⟨_, hcheck, _⟩ => nomatch hcheck

end Rings

section KeepsRing

variable {oriented check : Bool} {planar : Option ImportTessellator}
  {tessellateTolerance : Option Double} {header : WkHeader} {ring : WkRing}

/-- A closed ring loses the last point only. -/
theorem keepsRing_of_closed
    (h : ¬StopsAtNaN (importOptions oriented check planar tessellateTolerance)
      (ring.delivered header))
    (hclosed : ClosedVertices (importOptions oriented check planar tessellateTolerance)
      (ring.delivered header))
    (hends : importEdgesEnd planar tessellateTolerance (ring.delivered header) = true) :
    KeepsRing (importOptions oriented check planar tessellateTolerance) header ring := by
  obtain ⟨first, between, last, hpts, hlast⟩ := hclosed
  rw [hpts] at h hends
  obtain ⟨inner, hinner, hmem⟩ := exists_finishPoints_concat h hends
  rw [← hpts, ← hlast, ← List.cons_append] at hinner hmem
  intro L Pg lib c
  rw [feed_ring_eq]
  have hrun := ringEnd_of_ok lib (c := { c with inputPoints := ring.delivered header }) hinner
  rw [List.dropLast_concat] at hrun
  rcases hrun with ⟨text, -, hstop⟩ | ⟨c', hrun, hnil | ⟨-, hloops⟩⟩
  · exact .inl ⟨text, hstop⟩
  · exact absurd hnil.1 (List.concat_ne_nil _ _)
  · right
    refine ⟨c', hrun, .inr ⟨_, _, hinner, hloops, fun pt hpt => ?_, .inr ⟨_, _, rfl, rfl⟩⟩⟩
    rcases List.mem_append.mp (hmem pt hpt) with hpt | hpt
    · exact hpt
    · rw [List.mem_singleton.mp hpt]
      exact List.mem_cons_self

theorem keepsRing_of_stopsAtNaN {options : Options}
    (h : StopsAtNaN options (ring.delivered header)) : KeepsRing options header ring := by
  intro L Pg lib c
  rw [feed_ring_eq]
  obtain ⟨text, hstop⟩ := finishPoints_of_stopsAtNaN h
  exact .inl ⟨text, ringEnd_of_error lib hstop⟩

theorem keepsRing_of_coords_nil {options : Options} (h : ring.coords = []) :
    KeepsRing options header ring := by
  intro L Pg lib c
  have hnil : ring.delivered header = [] := List.map_eq_nil_iff.mpr h
  rw [feed_ring_eq, hnil]
  rcases ringEnd_of_ok lib (c := { c with inputPoints := [] }) finishPoints_nil with
    ⟨text, -, hstop⟩ | ⟨c', hrun, hloops⟩
  · exact .inl ⟨text, hstop⟩
  · exact .inr ⟨c', hrun, .inl ⟨h, (hloops.resolve_right fun hne => hne.1 rfl).2⟩⟩

/-- A kept ring does not overflow the stack. -/
theorem KeepsRing.ends
    (h : KeepsRing (importOptions oriented check planar tessellateTolerance) header ring) :
    importEdgesEnd planar tessellateTolerance (ring.delivered header) = true := by
  by_contra hends
  have hpoints : finishPoints (importOptions oriented check planar tessellateTolerance)
      (ring.delivered header) = .error .stackOverflow := finishPoints_overflows hends
  have hoverflows := ringEnd_of_error verticesLib (c := ⟨ring.delivered header, [], []⟩) hpoints
  have hkept := h (List S2Point) Unit verticesLib ⟨[], [], []⟩
  rw [feed_ring_eq, hoverflows] at hkept
  rcases hkept with ⟨text, hstop⟩ | ⟨c', hrun, -⟩
  · cases hstop
  · cases hrun

/-- What a kept ring means where loops are just their vertices. -/
theorem KeepsRing.of_verticesLib {options : Options} {points : List S2Point}
    (h : KeepsRing options header ring) (hne : ring.coords ≠ [])
    (hpoints : finishPoints options (ring.delivered header) = .ok points) :
    (∀ pt ∈ ring.delivered header, unprojectPoint options pt ∈ points.dropLast) ∧
      ∃ vertex rest, points = vertex :: (rest ++ [vertex]) := by
  obtain ⟨c', hrun, hloops⟩ := exists_ringEnd_verticesLib hpoints
  have hkept := h (List S2Point) Unit verticesLib ⟨[], [], []⟩
  rw [feed_ring_eq, hrun] at hkept
  obtain ⟨c'', hc, hkept⟩ := hkept.resolve_left fun ⟨_, hstop⟩ => nomatch hstop
  obtain rfl := Except.ok.inj hc
  obtain ⟨points', vertices, hpoints', hloops', hmem, hlast⟩ :=
    hkept.resolve_left fun hnil => hne hnil.1
  obtain rfl := Except.ok.inj (hpoints.symm.trans hpoints')
  rw [loopOf_verticesLib, List.nil_append] at hloops'
  rw [hloops'] at hloops
  obtain ⟨hpne, hloop⟩ := hloops.resolve_left fun hnil => List.cons_ne_nil _ _ hnil.2
  obtain rfl := List.singleton_inj.mp hloop
  refine ⟨hmem, ?_⟩
  rcases hlast with hlast | ⟨vertex, rest, hvertices, hlast⟩
  · have hlength := congrArg List.length hlast
    have hpos := List.length_pos_of_ne_nil hpne
    rw [List.length_dropLast] at hlength
    omega
  · exact ⟨vertex, rest, by rw [hlast, hvertices, List.cons_append]⟩

theorem KeepsRing.closed
    (hkeeps : KeepsRing (importOptions oriented check planar tessellateTolerance) header ring)
    (hne : ring.coords ≠ [])
    (h : ¬StopsAtNaN (importOptions oriented check planar tessellateTolerance)
      (ring.delivered header)) :
    ClosedVertices (importOptions oriented check planar tessellateTolerance)
      (ring.delivered header) := by
  obtain ⟨first, rest, hpts⟩ := List.exists_cons_of_ne_nil
    (fun hnil => hne (List.map_eq_nil_iff.mp hnil) : ring.delivered header ≠ [])
  rw [hpts] at h
  rcases List.eq_nil_or_concat rest with rfl | ⟨between, last, rfl⟩
  · -- a lone vertex is removed
    rcases finishPoints_singleton first h with hpoints | hpoints
    · obtain ⟨-, vertex, rest, hclosed⟩ := hkeeps.of_verticesLib hne (hpts ▸ hpoints)
      cases hclosed
    · obtain ⟨hmem, -⟩ := hkeeps.of_verticesLib hne (hpts ▸ hpoints)
      exact absurd (hmem first (hpts ▸ List.mem_cons_self)) List.not_mem_nil
  · rw [List.concat_eq_append] at hpts h
    have hends := hkeeps.ends
    rw [hpts] at hends
    obtain ⟨inner, hinner, -⟩ := exists_finishPoints_concat h hends
    obtain ⟨-, vertex, rest, hclosed⟩ := hkeeps.of_verticesLib hne (hpts ▸ hinner)
    obtain ⟨hfirst, hrest⟩ := List.cons.inj hclosed
    have hlast := List.singleton_inj.mp (List.append_inj_right' hrest rfl)
    exact ⟨first, between, last, hpts, hfirst.trans hlast.symm⟩

/-- A ring keeps its vertices exactly if it has none, or stops the import because a vertex
cannot be projected, or is closed and the halving of its edges ends. -/
theorem keepsRing_iff (oriented check : Bool) (planar : Option ImportTessellator)
    (tessellateTolerance : Option Double) (header : WkHeader) (ring : WkRing) :
    let options := importOptions oriented check planar tessellateTolerance
    KeepsRing options header ring ↔ ring.coords = [] ∨
      StopsAtNaN options (ring.delivered header) ∨
      ClosedVertices options (ring.delivered header) ∧
        importEdgesEnd planar tessellateTolerance (ring.delivered header) = true := by
  intro options
  constructor
  · intro hkeeps
    by_cases hne : ring.coords = []
    · exact .inl hne
    · by_cases hstops : StopsAtNaN options (ring.delivered header)
      · exact .inr (.inl hstops)
      · exact .inr (.inr ⟨hkeeps.closed hne hstops, hkeeps.ends⟩)
  · rintro (hnil | hstops | ⟨hclosed, hends⟩)
    · exact keepsRing_of_coords_nil hnil
    · exact keepsRing_of_stopsAtNaN hstops
    · by_cases hstops : StopsAtNaN options (ring.delivered header)
      · exact keepsRing_of_stopsAtNaN hstops
      · exact keepsRing_of_closed hstops hclosed hends

end KeepsRing

/-- An open ring of three vertices, with coordinates on the sphere. -/
def openRing : WkRing :=
  ⟨some 3, [axisX, axisY, axisZ].map (exportedCoord .zero)⟩

/-- It becomes a loop without the third. -/
theorem not_keepsRing_openRing :
    ¬KeepsRing (importOptions false false none none) ⟨some 1, true, false⟩ openRing := by
  intro h
  have hpoints : finishPoints (importOptions false false none none)
      (openRing.delivered ⟨some 1, true, false⟩) = .ok [axisX, axisY, axisZ] := rfl
  obtain ⟨hmem, -⟩ := h.of_verticesLib (List.cons_ne_nil _ _) hpoints
  exact absurd (hmem axisZ (by decide)) (by decide)

end S2Geography
