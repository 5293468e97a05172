import S2Geography.ExportedGeometry
import S2Geography.ImporterTranslation
import Mathlib.Data.List.Perm.Basic

/-!
# Serialization round trip

Importing what was exported, without projection, with oriented loops and without checks,
gives back every tree. Polygons are rebuilt from their loops, each handed over once.
-/
namespace S2Geography.Exporter

open Constructor BuilderHandler PreorderForest CheckedRun

variable {L Pg : Type}

/-- The options of `s2_geography_unserialize`. -/
def unserializeOptions : Options :=
  { oriented := true, check := false, projection := none, tessellateTolerance := none }

/-! ### The loops handed over -/

/-- The loops in the order of the exported rings. -/
def handedLoops (loops : List StoredLoop) : List (List S2Point) :=
  (outerShells loops).flatMap partRings

/-- Shells as they are stored, holes the other way round. -/
def orientedLoop (loop : StoredLoop) : List S2Point :=
  if loop.2 % 2 = 0 then loop.1 else loop.1.reverse

theorem handedLoops_shell (vertices : List S2Point) {depth : ℕ} (heven : depth % 2 = 0)
    (children : Forest (List S2Point)) {rest : List StoredLoop} (hrest : Forest.Stops depth rest) :
    handedLoops ((vertices, depth) :: (children.preorder (depth + 1) ++ rest)) =
      vertices :: (children.roots.map List.reverse ++
        handedLoops (children.preorder (depth + 1) ++ rest)) := by
  have hholes : holes (vertices, depth) (children.preorder (depth + 1) ++ rest) =
      children.roots.map (·, depth + 1) := by
    rw [holes, Forest.takeWhile_preorder_append children hrest]
    exact children.filter_preorder (depth + 1)
  rw [handedLoops, outerShells, if_pos heven, List.flatMap_cons, partRings, hholes, List.map_map]
  rfl

theorem handedLoops_hole (vertices : List S2Point) {depth : ℕ} (hodd : depth % 2 = 1)
    (rest : List StoredLoop) :
    handedLoops ((vertices, depth) :: rest) = handedLoops rest := by
  have hne : ¬depth % 2 = 0 := by omega
  rw [handedLoops, outerShells, if_neg hne]
  rfl

/-- A forest's loops, whatever follows: all of them once, but without the roots where these
are holes, which belong to a shell before them. -/
theorem handedLoops_preorder_append (forest : Forest (List S2Point)) :
    ∀ (depth : ℕ) (rest : List StoredLoop), Forest.Stops depth rest →
      (depth % 2 = 0 → (handedLoops (forest.preorder depth ++ rest)).Perm
        ((forest.preorder depth).map orientedLoop ++ handedLoops rest)) ∧
      (depth % 2 = 1 →
        (forest.roots.map List.reverse ++ handedLoops (forest.preorder depth ++ rest)).Perm
          ((forest.preorder depth).map orientedLoop ++ handedLoops rest)) := by
  induction forest with
  | nil => exact fun depth rest _ => ⟨fun _ => .refl _, fun _ => .refl _⟩
  | cons vertices children siblings ihc ihs =>
    intro depth rest hrest
    have hnext := hrest.preorder_append siblings
    have hnext' : Forest.Stops (depth + 1) (siblings.preorder depth ++ rest) :=
      fun x hx => (hnext x hx).trans (Nat.le_succ depth)
    obtain ⟨hceven, hcodd⟩ := ihc (depth + 1) _ hnext'
    obtain ⟨hseven, hsodd⟩ := ihs depth rest hrest
    simp only [Forest.preorder, Forest.roots, List.cons_append, List.append_assoc, List.map_cons,
      List.map_append]
    constructor
    · intro heven
      rw [handedLoops_shell vertices heven children hnext, orientedLoop, if_pos heven]
      refine List.Perm.cons vertices ((hcodd (by omega)).trans ?_)
      exact (hseven heven).append_left _
    · intro hodd
      have hne : ¬depth % 2 = 0 := by omega
      rw [handedLoops_hole vertices hodd, orientedLoop, if_neg hne]
      refine List.Perm.cons vertices.reverse ?_
      refine ((hceven (by omega)).append_left _).trans ?_
      refine (List.perm_append_comm_assoc _ _ _).trans ?_
      exact (hsodd hodd).append_left _

theorem handedLoops_perm {loops : List StoredLoop} (hloops : Forest.ValidDepths 0 loops) :
    (handedLoops loops).Perm (loops.map orientedLoop) := by
  obtain ⟨forest, rfl⟩ := Forest.exists_preorder hloops
  have h := (handedLoops_preorder_append forest 0 [] (by simp [Forest.Stops])).1 rfl
  simpa [handedLoops, outerShells] using h

/-! ### The translation of an exported geography -/

/-- Points with a missing ordinate are not read back. -/
theorem translatePoints_exported_filter (unset : Double) (points : List S2Point) :
    translatePoints unserializeOptions (points.map (exportedPoint unset)) =
      points.filter fun point => !point.hasNaN := by
  induction points with
  | nil => rfl
  | cons point points ih =>
    have hpoint : coordEmpty (exportedCoord unset point) 3 = point.hasNaN := by
      simp [coordEmpty, exportedCoord, S2Point.hasNaN, Bool.or_assoc]
    unfold translatePoints at ih ⊢
    rw [List.map_cons, List.flatMap_cons, ih]
    change (List.filter (fun coord => !coordEmpty coord 3) [exportedCoord unset point]).map _ ++
      points.filter (fun point => !point.hasNaN) = _
    simp only [List.filter_cons, hpoint]
    cases point.hasNaN <;> rfl

theorem translatePoints_exported (unset : Double) {points : List S2Point}
    (h : ∀ point ∈ points, point.hasNaN = false) :
    translatePoints unserializeOptions (points.map (exportedPoint unset)) = points := by
  rw [translatePoints_exported_filter, List.filter_eq_self]
  intro point hpoint
  rw [h point hpoint]
  rfl

theorem inputPoints_exportedPolyline (unset : Double) (polyline : List S2Point) :
    (exportedPolyline unset polyline).inputPoints = polyline :=
  (List.map_map ..).trans (List.map_id polyline)

theorem translatePolylines_exported (unset : Double) {polylines : List (List S2Point)}
    (h : ∀ polyline ∈ polylines, polyline ≠ []) :
    translatePolylines unserializeOptions (polylines.map (exportedPolyline unset)) =
      polylines := by
  have hinput : (polylines.map (exportedPolyline unset)).map (·.inputPoints) = polylines := by
    rw [List.map_map]
    exact (List.map_congr_left fun polyline _ =>
      inputPoints_exportedPolyline unset polyline).trans (List.map_id polylines)
  have hfilter : polylines.filter (!·.isEmpty) = polylines := by
    rw [List.filter_eq_self]
    intro polyline hpolyline
    simpa using h polyline hpolyline
  rw [translatePolylines, hinput, hfilter]
  exact (List.map_congr_left fun polyline _ => List.map_id polyline).trans (List.map_id polylines)

theorem inputRings_exportedPart (unset : Double) (shell : StoredLoop × List StoredLoop) :
    (exportedPart unset shell).inputRings = (partRings shell).map closedRing := by
  change ((partRings shell).map (exportedRing unset)).map _ = _
  rw [List.map_map]
  refine List.map_congr_left fun vertices _ => ?_
  exact (List.map_map ..).trans (List.map_id (closedRing vertices))

/-- The vertices of a loop are those of its closed ring but the last. -/
theorem makeLoop_closedRing (lib : S2Lib L Pg) {vertices : List S2Point} (h : vertices ≠ []) :
    makeLoop lib unserializeOptions
        ((closedRing vertices).map (unprojectPoint unserializeOptions)) =
      lib.initLoop vertices := by
  cases vertices with
  | nil => exact absurd rfl h
  | cons vertex vertices =>
    have hid : (closedRing (vertex :: vertices)).map (unprojectPoint unserializeOptions) =
        closedRing (vertex :: vertices) := List.map_id _
    have hdrop : (closedRing (vertex :: vertices)).dropLast = vertex :: vertices :=
      List.dropLast_concat
    rw [hid, makeLoop, hdrop]
    rfl

theorem translateRings_closedRing (lib : S2Lib L Pg) {rings : List (List S2Point)}
    (h : ∀ vertices ∈ rings, vertices ≠ []) :
    translateRings lib unserializeOptions (rings.map closedRing) = rings.map lib.initLoop := by
  have hfilter : (rings.map closedRing).filter (!·.isEmpty) = rings.map closedRing := by
    rw [List.filter_eq_self]
    intro ring hring
    obtain ⟨vertices, hvertices, rfl⟩ := List.mem_map.mp hring
    simpa [closedRing] using fun hnil => absurd hnil (h vertices hvertices)
  rw [translateRings, hfilter, List.map_map]
  exact List.map_congr_left fun vertices hvertices => makeLoop_closedRing lib (h vertices hvertices)

theorem translatePolygons_exported (lib : S2Lib L Pg) (unset : Double)
    {shells : List (StoredLoop × List StoredLoop)}
    (h : ∀ shell ∈ shells, ∀ loop ∈ shell.1 :: shell.2, loop.1 ≠ []) :
    translatePolygons lib unserializeOptions (shells.map (exportedPart unset)) =
      lib.initOriented ((shells.flatMap partRings).map lib.initLoop) := by
  have hrings : (shells.map (exportedPart unset)).flatMap (·.inputRings) =
      (shells.flatMap partRings).map closedRing := by
    rw [List.flatMap_map, List.map_flatMap]
    exact List.flatMap_congr fun shell _ => inputRings_exportedPart unset shell
  have hne : ∀ vertices ∈ shells.flatMap partRings, vertices ≠ [] := by
    intro vertices hvertices
    obtain ⟨shell, hshell, hmem⟩ := List.mem_flatMap.mp hvertices
    rcases List.mem_cons.mp hmem with rfl | hmem
    · exact h shell hshell shell.1 List.mem_cons_self
    · obtain ⟨hole, hhole, rfl⟩ := List.mem_map.mp hmem
      simpa using h shell hshell hole (List.mem_cons_of_mem _ hhole)
  rw [translatePolygons, hrings, translateRings_closedRing lib hne]
  rfl

/-! ### The round trip -/

/-- The polygon rebuilt from stored loops. -/
def rebuilt (lib : S2Lib L Pg) (loops : List StoredLoop) : Pg :=
  lib.initOriented ((handedLoops loops).map lib.initLoop)

theorem translate_exportedPoints (lib : S2Lib L Pg) (unset : Double) {points : List S2Point}
    (h : ∀ point ∈ points, point.hasNaN = false) :
    (exportedPoints unset points).translate lib unserializeOptions = .point points := by
  have htranslate := translatePoints_exported unset h
  match points with
  | [] => rfl
  | [point] => exact congrArg Geography.point htranslate
  | point :: point' :: points => exact congrArg Geography.point htranslate

theorem translate_exportedPolylines (lib : S2Lib L Pg) (unset : Double)
    {polylines : List (List S2Point)} (h : ∀ polyline ∈ polylines, polyline ≠ []) :
    (exportedPolylines unset polylines).translate lib unserializeOptions =
      .polyline polylines := by
  have htranslate := translatePolylines_exported unset h
  match polylines with
  | [] => rfl
  | [polyline] => exact congrArg Geography.polyline htranslate
  | polyline :: polyline' :: polylines => exact congrArg Geography.polyline htranslate

theorem translate_exportedShells (lib : S2Lib L Pg) (unset : Double)
    {shells : List (StoredLoop × List StoredLoop)}
    (h : ∀ shell ∈ shells, ∀ loop ∈ shell.1 :: shell.2, loop.1 ≠ []) :
    (exportedShells unset shells).translate lib unserializeOptions =
      .polygon (lib.initOriented ((shells.flatMap partRings).map lib.initLoop)) := by
  have htranslate := translatePolygons_exported lib unset h
  match shells with
  | [] => rfl
  | [shell] => exact congrArg Geography.polygon htranslate
  | shell :: shell' :: shells => exact congrArg Geography.polygon htranslate

mutual

theorem translate_exported (lib : S2Lib L Pg) (unset : Double) :
    (geog : Geography (List StoredLoop)) → Storable geog →
    (exported unset geog).translate lib unserializeOptions = geog.mapPolygons (rebuilt lib)
  | .point _, h => translate_exportedPoints lib unset h
  | .polyline _, h => translate_exportedPolylines lib unset h
  | .polygon _, h => translate_exportedShells lib unset fun _ hshell loop hloop =>
    h.1 loop (mem_of_mem_outerShells hshell loop hloop)
  | .collection features, h =>
    congrArg Geography.collection (translateAll_exported lib unset features h)

theorem translateAll_exported (lib : S2Lib L Pg) (unset : Double) :
    (features : List (Geography (List StoredLoop))) → StorableAll features →
    WkGeometry.translateAll lib unserializeOptions (exportedAll unset features) =
      Geography.mapPolygonsAll (rebuilt lib) features
  | [], _ => rfl
  | feature :: features, h => congrArg₂ List.cons (translate_exported lib unset feature h.1)
    (translateAll_exported lib unset features h.2)

end

/-! ### No exception -/

theorem checkPolylines_unserialize (paths : List WkPath) :
    checkPolylines unserializeOptions paths = .ok () := by
  induction paths with
  | nil => rfl
  | cons path paths ih => exact ih

theorem checkRings_unserialize (lib : S2Lib L Pg) (count : ℕ) (rings : List (List S2Point)) :
    checkRings lib unserializeOptions count rings = .ok () := by
  induction rings generalizing count with
  | nil => rfl
  | cons ring rings ih =>
    have hring : checkRing lib unserializeOptions count ring = .ok () := by
      cases ring <;> rfl
    rw [checkRings, hring]
    exact ih _

theorem checkPolygons_unserialize (lib : S2Lib L Pg) (polygons : List WkPolygon) :
    checkPolygons lib unserializeOptions polygons = .ok () := by
  rw [checkPolygons, checkRings_unserialize]
  rfl

mutual

theorem check_unserialize (lib : S2Lib L Pg) :
    (geometry : WkGeometry) → geometry.check lib unserializeOptions = .ok ()
  | .point _ | .multipoint _ _ => rfl
  | .linestring _ | .multilinestring _ _ => checkPolylines_unserialize _
  | .polygon _ | .multipolygon _ _ => checkPolygons_unserialize lib _
  | .geometrycollection _ members => checkAll_unserialize lib members

theorem checkAll_unserialize (lib : S2Lib L Pg) :
    (members : List WkGeometry) →
    WkGeometry.checkAll lib unserializeOptions members = .ok ()
  | [] => rfl
  | member :: members => by
    rw [WkGeometry.checkAll, check_unserialize lib member]
    exact checkAll_unserialize lib members

end

theorem checkFeatures_unserialize (lib : S2Lib L Pg) (features : List (Option WkGeometry)) :
    checkFeatures lib unserializeOptions features = .ok () := by
  induction features with
  | nil => rfl
  | cons item features ih =>
    have hitem : checkFeature lib unserializeOptions item = .ok () := by
      cases item with
      | none => rfl
      | some geometry => exact check_unserialize lib geometry
    rw [checkFeatures, hitem]
    exact ih

/-- A vector whose features are exported as geometries is read back as what these translate
to. -/
theorem handleGeography_exported (lib : S2Lib L Pg) (unset : Double)
    {geogs : List (Option (Geography (List StoredLoop)))}
    (hemit : emitVector (s2Exporter unset) geogs () =
      .ok (geogs.map (Option.map fun geog => (exported unset geog).events))) :
    handleGeography (s2Exporter unset) geogs () (handler lib unserializeOptions) new =
      .ok (geogs.map (Option.map fun geog =>
        (exported unset geog).translate lib unserializeOptions)) := by
  have hends : Ends (checkFeatures lib unserializeOptions
      (geogs.map (Option.map (exported unset)))) _ _ :=
    handleVector_ends rfl (some geogs.length) (geogs.map (Option.map (exported unset)))
  obtain ⟨result, hresult, htranslate⟩ := hends.of_check (checkFeatures_unserialize lib _)
  have hvector : (handler lib unserializeOptions).handleVector id (some geogs.length)
      (geogs.map (Option.map fun geog => (exported unset geog).events)) new = .ok result := by
    rw [WkHandler.handleVector_map, ← hresult, WkHandler.handleVector_map]
    rfl
  have hrun : handleGeography (s2Exporter unset) geogs () (handler lib unserializeOptions) new =
      .ok result := by
    rw [handleGeography, hemit]
    exact hvector
  rw [hrun, htranslate, List.map_map]
  refine congrArg Except.ok (List.map_congr_left fun item _ => ?_)
  cases item with
  | none => rfl
  | some geog => rfl

/-- Storing a vector of geographies and reading it back: the same missing values, the same
trees, points and polylines, and every polygon built by `InitOriented` from each of its
loops once, shells as they were stored and holes in reverse. -/
theorem unserialize_serialize (lib : S2Lib L Pg) (unset : Double)
    (geogs : List (Option (Geography (List StoredLoop))))
    (hgeogs : ∀ geog, some geog ∈ geogs → Storable geog) :
    handleGeography (s2Exporter unset) geogs () (handler lib unserializeOptions) new =
        .ok (geogs.map (Option.map (Geography.mapPolygons fun loops =>
          lib.initOriented ((handedLoops loops).map lib.initLoop)))) ∧
      ∀ loops, Forest.ValidDepths 0 loops →
        (handedLoops loops).Perm (loops.map orientedLoop) := by
  refine ⟨?_, fun loops => handedLoops_perm⟩
  rw [handleGeography_exported lib unset (emitVector_eq unset hgeogs)]
  refine congrArg Except.ok (List.map_congr_left fun item hitem => ?_)
  cases item with
  | none => rfl
  | some geog => exact congrArg some (translate_exported lib unset geog (hgeogs geog hitem))

def axisX : S2Point := ⟨⟨0x3ff0000000000000⟩, .zero, .zero⟩

def axisY : S2Point := ⟨.zero, ⟨0x3ff0000000000000⟩, .zero⟩

def axisZ : S2Point := ⟨.zero, .zero, ⟨0x3ff0000000000000⟩⟩

/-- A missing value, and a collection with an island in the hole of a polygon. -/
def islandGeogs : List (Option (Geography (List StoredLoop))) :=
  [none, some (.collection [.point [axisX, axisY], .collection [.polyline [[axisX, axisY]]],
    .polygon [([axisX, axisY, axisZ], 0), ([axisY, axisZ, axisX], 1),
      ([axisZ, axisX, axisY], 2)]])]

theorem unserialize_serialize_islandGeogs :
    handleGeography (s2Exporter .zero) islandGeogs () (handler vertexLib unserializeOptions) new =
      .ok [none, some (.collection [.point [axisX, axisY],
        .collection [.polyline [[axisX, axisY]]],
        .polygon [[axisX, axisY, axisZ], [axisX, axisZ, axisY], [axisZ, axisX, axisY]]])] := by
  refine (unserialize_serialize vertexLib .zero islandGeogs ?_).1
  intro geog hgeog
  simp only [islandGeogs, List.mem_cons, List.not_mem_nil, reduceCtorEq, Option.some.injEq,
    or_false, false_or] at hgeog
  subst hgeog
  have hpoints : ∀ point ∈ [axisX, axisY], point.hasNaN = false := by decide
  exact ⟨hpoints, ⟨by simp [Storable], trivial⟩, ⟨by simp, by simp [Forest.ValidDepths]⟩, trivial⟩

end S2Geography.Exporter
