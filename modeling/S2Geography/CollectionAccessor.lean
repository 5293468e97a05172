import S2Geography.Build
import S2Geography.ExportCounts

/-!
# Collections and multi-geometries

`s2_is_collection` counts points, chains of polylines and loops of depth 0. The exporter
writes a multi-geometry for more than one point, polyline or loop of even depth.
-/
namespace S2Geography

open Exporter

namespace Accessors

/-- `s2_is_collection` of a polygon. -/
def isCollectionPolygon (loops : List StoredLoop) : Bool :=
  decide (1 < loops.countP fun loop => loop.2 = 0)

/-- `s2_is_collection`. -/
def s2IsCollection (layers : S2Layers) (geog : Geography (List StoredLoop)) :
    Except Fault Bool :=
  if s2Dimension geog = -1 then .ok false
  else if s2Dimension geog = 0 then .ok (decide (1 < s2NumPoints geog))
  else if s2Dimension geog = 1 then .ok (decide (1 < (geog.shapes.map (·.numChains)).sum))
  else
    match geog with
    | .polygon loops => .ok (isCollectionPolygon loops)
    | geog => do
      let built ← s2BuildPolygon layers geog
      return isCollectionPolygon built

variable (layers : S2Layers)

theorem s2IsCollection_point (points : List S2Point) :
    s2IsCollection layers (.point points) = .ok (decide (1 < points.length)) := by
  have hpoints : s2NumPoints (.point points) = points.length := Nat.add_zero _
  have hdimension : s2Dimension (.point points) = 0 := rfl
  simp [s2IsCollection, hdimension, hpoints]

/-- Where every polyline has an edge, the chains are the polylines. -/
theorem s2IsCollection_polyline {polylines : List (List S2Point)}
    (h : ∀ vertices ∈ polylines, 2 ≤ vertices.length) :
    s2IsCollection layers (.polyline polylines) = .ok (decide (1 < polylines.length)) := by
  have hdimension : s2Dimension (.polyline polylines) = 1 := rfl
  have hchains : ((polylines.map polylineShape).map (·.numChains)).sum = polylines.length := by
    have hone : (polylines.map polylineShape).map (·.numChains) = polylines.map fun _ => 1 := by
      rw [List.map_map]
      refine List.map_congr_left fun vertices hvertices => ?_
      have hlength := h vertices hvertices
      change min 1 (vertices.length - 1) = 1
      omega
    rw [hone]
    simp
  simp only [s2IsCollection, hdimension]
  rw [Geography.shapes, hchains]
  rfl

theorem s2IsCollection_polygon (loops : List StoredLoop) :
    s2IsCollection layers (.polygon loops) = .ok (isCollectionPolygon loops) := rfl

end Accessors

namespace Exporter

variable {σ : Type} {exporter : EdgeExporter σ}

def isMulti : WkGeometryType → Bool
  | .multipoint | .multilinestring | .multipolygon => true
  | _ => false

/-- Whether the events start a multi-geometry. -/
def writesMulti : List WkEvent → Bool
  | .geometryStart geom :: _ => isMulti geom.geometryType
  | _ => false

theorem writesMulti_geometry {geom : WkMeta} {content : Emit σ} {s s' : σ} {es : List WkEvent}
    (h : geometry geom content s = .ok (es, s')) :
    writesMulti es = isMulti geom.geometryType := by
  cases hcontent : content s with
  | error fault => cases (geometry_error hcontent).symm.trans h
  | ok out =>
    obtain rfl := (Prod.mk.inj (Except.ok.inj ((geometry_ok hcontent).symm.trans h))).1
    rfl

theorem writesMulti_handlePoints {points : List S2Point} {s s' : σ} {es : List WkEvent}
    (h : handlePoints exporter points s = .ok (es, s')) :
    writesMulti es = decide (1 < points.length) := by
  match points with
  | [] => exact writesMulti_geometry h
  | [point] => exact writesMulti_geometry h
  | point :: point' :: points =>
    rw [writesMulti_geometry h]
    simp [EdgeExporter.geom, isMulti]

theorem writesMulti_handlePolylines {polylines : List (List S2Point)} {s s' : σ}
    {es : List WkEvent} (h : handlePolylines exporter polylines s = .ok (es, s')) :
    writesMulti es = decide (1 < polylines.length) := by
  match polylines with
  | [] => exact writesMulti_geometry h
  | [polyline] => exact writesMulti_geometry h
  | polyline :: polyline' :: polylines =>
    rw [writesMulti_geometry h]
    simp [EdgeExporter.geom, isMulti]

theorem length_outerShells (loops : List StoredLoop) :
    (outerShells loops).length = loops.countP fun loop => loop.2 % 2 = 0 := by
  induction loops with
  | nil => rfl
  | cons loop loops ih =>
    unfold outerShells
    by_cases heven : loop.2 % 2 = 0
    · rw [if_pos heven, List.length_cons, ih, List.countP_cons_of_pos (by simpa using heven)]
    · rw [if_neg heven, ih, List.countP_cons_of_neg (by simpa using heven)]

theorem writesMulti_handlePolygon {loops : List StoredLoop} {s s' : σ} {es : List WkEvent}
    (h : handlePolygon exporter loops s = .ok (es, s')) :
    writesMulti es = decide (1 < loops.countP fun loop => loop.2 % 2 = 0) := by
  rw [← length_outerShells]
  unfold handlePolygon at h
  match hshells : outerShells loops with
  | [] =>
    rw [hshells] at h
    exact writesMulti_geometry h
  | [shell] =>
    rw [hshells] at h
    exact writesMulti_geometry h
  | shell :: shell' :: shells =>
    rw [hshells] at h
    rw [writesMulti_geometry h]
    simp [EdgeExporter.geom, isMulti]

/-! ### Reading back -/

open BuilderHandler Constructor PreorderForest

variable {L : Type} {lib : S2Lib L (List StoredLoop)} {options : Options}

theorem exists_of_bind_ok {α β : Type} {first : Except Fault α} {next : α → Except Fault β} {b : β}
    (h : first >>= next = .ok b) : ∃ a, first = .ok a ∧ next a = .ok b := by
  cases first with
  | error fault => cases h
  | ok a => exact ⟨a, rfl, h⟩

theorem feed_ok {es : List WkEvent} {data data' : BuilderHandler L (List StoredLoop)}
    {result : WkResult}
    (h : (handler lib options).feed es data = .ok (result, data')) (message : String) :
    .error message ∉ es := by
  induction es generalizing data with
  | nil => exact List.not_mem_nil
  | cons e es ih =>
    obtain ⟨⟨result1, data1⟩, hstep, hrest⟩ := exists_of_bind_ok h
    have hcontinue : result1 = .continue ∧ e ≠ .error message := by
      cases e with
      | error text => cases hstep
      | geometryStart geom | ringStart geom size | coord geom coord | ringEnd geom size
      | geometryEnd geom =>
        obtain ⟨builder, -, hout⟩ := exists_of_bind_ok hstep
        cases hout
        exact ⟨rfl, by simp⟩
    obtain ⟨rfl, hne⟩ := hcontinue
    rw [List.mem_cons, not_or]
    exact ⟨hne.symm, ih hrest⟩

/-- A geography whose export meets an error is not read back. -/
theorem notMem_error_of_handleGeography {unset : Double} {geog : Geography (List StoredLoop)}
    {out : List (Option (Geography (List StoredLoop)))} {es : List WkEvent}
    (hrun : handleGeog (s2Exporter unset) geog () = .ok (es, ()))
    (h : handleGeography (s2Exporter unset) [some geog] () (handler lib options) new = .ok out)
    (message : String) : .error message ∉ es := by
  have hemit : emitVector (s2Exporter unset) [some geog] () = .ok [some es] := by
    rw [emitVector, hrun]
    rfl
  rw [handleGeography, hemit] at h
  change (handler lib options).handleVector id (some 1) [some es] new = .ok out at h
  obtain ⟨⟨result, data⟩, hstart, h⟩ := exists_of_bind_ok h
  cases hstart
  obtain ⟨data, hfeatures, -⟩ := exists_of_bind_ok h
  obtain ⟨⟨result, data1⟩, hfeature, -⟩ := exists_of_bind_ok hfeatures
  obtain ⟨⟨result, data2⟩, hfeat, h⟩ := exists_of_bind_ok hfeature
  obtain ⟨builder, -, hbuilder⟩ := exists_of_bind_ok hfeat
  cases hbuilder
  obtain ⟨⟨result, data3⟩, hfeed, -⟩ := exists_of_bind_ok h
  exact feed_ok hfeed message

/-! ### Agreement -/

open Accessors

/-- The accessor says whether the exporter writes a multi-geometry, and says the same of
what is read back after an export. -/
structure CollectionAgrees (layers : S2Layers) (lib : S2Lib L (List StoredLoop)) (unset : Double)
    (geog : Geography (List StoredLoop)) : Prop where
  exported : ∀ {σ : Type} (exporter : EdgeExporter σ) (s s' : σ) (es : List WkEvent),
    handleGeog exporter geog s = .ok (es, s') → s2IsCollection layers geog = .ok (writesMulti es)
  imported : ∀ out, handleGeography (s2Exporter unset) [some geog] ()
      (handler lib unserializeOptions) new = .ok out →
    ∃ geog', out = [some geog'] ∧ s2IsCollection layers geog' = s2IsCollection layers geog

/-- `InitOriented` nests the loops of a polygon as they were, whatever order they come in. -/
def RestoresDepths (lib : S2Lib L (List StoredLoop)) (loops : List StoredLoop) : Prop :=
  ∀ vertices : List (List S2Point), vertices.Perm (loops.map orientedLoop) →
    ((lib.initOriented (vertices.map lib.initLoop)).map Prod.snd).Perm (loops.map Prod.snd)

/-- Points, polylines with an edge each, and a polygon with its loops in preorder. -/
def Simple : Geography (List StoredLoop) → Prop
  | .point _ => True
  | .polyline polylines => ∀ vertices ∈ polylines, 2 ≤ vertices.length
  | .polygon loops => Forest.ValidDepths 0 loops
  | .collection _ => False

/-- Points stay several when those with a missing ordinate are left out, and a polygon with
several shells has several that lie in no other loop. -/
def AgreesWhen : Geography (List StoredLoop) → Prop
  | .point points =>
    1 < points.length → 1 < (points.filter fun point => !point.hasNaN).length
  | .polygon loops =>
    1 < (loops.countP fun loop => loop.2 % 2 = 0) → 1 < loops.countP fun loop => loop.2 = 0
  | _ => True

theorem isCollectionPolygon_congr {loops loops' : List StoredLoop}
    (h : (loops'.map Prod.snd).Perm (loops.map Prod.snd)) :
    isCollectionPolygon loops' = isCollectionPolygon loops := by
  have hcount := h.countP_eq fun depth => decide (depth = 0)
  rw [List.countP_map, List.countP_map] at hcount
  exact congrArg (fun n => decide (1 < n)) hcount

theorem countP_depth_le (loops : List StoredLoop) :
    (loops.countP fun loop => loop.2 = 0) ≤ loops.countP fun loop => loop.2 % 2 = 0 := by
  apply List.countP_mono_left
  intro loop _ h
  have hzero : loop.2 = 0 := by simpa using h
  simp [hzero]

theorem emits_handleGeog_point (unset : Double) (points : List S2Point) :
    Emits (handleGeog (s2Exporter unset) (.point points)) (exported unset (.point points)).events :=
  emits_handlePoints points

theorem imported_single (lib : S2Lib L (List StoredLoop)) {geog : Geography (List StoredLoop)}
    {unset : Double}
    (hemits : Emits (handleGeog (s2Exporter unset) geog) (exported unset geog).events) :
    handleGeography (s2Exporter unset) [some geog] () (handler lib unserializeOptions) new =
      .ok [some ((exported unset geog).translate lib unserializeOptions)] := by
  refine handleGeography_exported lib unset ?_
  have hgeog : handleGeog (s2Exporter unset) geog () = _ := hemits
  rw [emitVector, hgeog]
  rfl

theorem collectionAgrees_point_iff (layers : S2Layers) (unset : Double) (points : List S2Point) :
    CollectionAgrees layers lib unset (.point points) ↔ AgreesWhen (.point points) := by
  have htranslate : (exported unset (.point points)).translate lib unserializeOptions =
      .point (points.filter fun point => !point.hasNaN) := by
    have h := translatePoints_exported_filter unset points
    match points with
    | [] => rfl
    | [point] => exact congrArg Geography.point h
    | point :: point' :: points => exact congrArg Geography.point h
  have hrun := imported_single lib (emits_handleGeog_point unset points)
  rw [htranslate] at hrun
  have hle : (points.filter fun point => !point.hasNaN).length ≤ points.length :=
    List.length_filter_le _ _
  constructor
  · intro h hlt
    obtain ⟨geog', hout, heq⟩ := h.imported _ hrun
    cases hout
    rw [s2IsCollection_point, s2IsCollection_point, Except.ok.injEq, decide_eq_decide] at heq
    exact heq.mpr hlt
  · intro h
    refine ⟨fun exporter s s' es hes => ?_, fun out hout => ?_⟩
    · rw [s2IsCollection_point, writesMulti_handlePoints hes]
    · rw [hrun, Except.ok.injEq] at hout
      refine ⟨_, hout.symm, ?_⟩
      rw [s2IsCollection_point, s2IsCollection_point, Except.ok.injEq, decide_eq_decide]
      exact ⟨fun hlt => hlt.trans_le hle, h⟩

theorem collectionAgrees_polyline (layers : S2Layers) (unset : Double)
    {polylines : List (List S2Point)} (h : Simple (.polyline polylines)) :
    CollectionAgrees layers lib unset (.polyline polylines) := by
  refine ⟨fun exporter s s' es hes => ?_, fun out hout => ?_⟩
  · rw [s2IsCollection_polyline layers h, writesMulti_handlePolylines hes]
  · have hne : ∀ polyline ∈ polylines, polyline ≠ [] := by
      intro polyline hpolyline hnil
      have hlength := h polyline hpolyline
      rw [hnil] at hlength
      exact absurd hlength (by decide)
    have hrun := imported_single lib (emits_handleGeog unset (.polyline polylines) hne)
    rw [hrun, Except.ok.injEq] at hout
    exact ⟨_, hout.symm, congrArg _ (translate_exportedPolylines lib unset hne)⟩

theorem collectionAgrees_polygon_iff (layers : S2Layers) (unset : Double)
    {loops : List StoredLoop} (hloops : Forest.ValidDepths 0 loops)
    (hlib : RestoresDepths lib loops) :
    CollectionAgrees layers lib unset (.polygon loops) ↔ AgreesWhen (.polygon loops) := by
  have hle := countP_depth_le loops
  obtain ⟨es, ⟨⟩, hrun, htally⟩ :=
    writes_handlePolygon (writesEach_s2Exporter unset) hloops ()
  constructor
  · intro h hlt
    have hexported := h.exported (s2Exporter unset) () () es hrun
    rw [s2IsCollection_polygon, writesMulti_handlePolygon hrun, Except.ok.injEq,
      isCollectionPolygon, decide_eq_decide] at hexported
    exact hexported.mpr hlt
  · intro h
    refine ⟨fun exporter s s' es' hes => ?_, fun out hout => ?_⟩
    · rw [s2IsCollection_polygon, writesMulti_handlePolygon hes, Except.ok.injEq,
        isCollectionPolygon, decide_eq_decide]
      exact ⟨fun hlt => hlt.trans_le hle, h⟩
    · -- a loop without vertices would have stopped the export
      have hne : ∀ loop ∈ loops, loop.1 ≠ [] := by
        have hzero : (tally es).errors = 0 := by
          by_contra herrors
          obtain ⟨message, hmem⟩ := exists_error_of_errors_ne_zero herrors
          have hgeog : handleGeog (s2Exporter unset) (.polygon loops) () = .ok (es, ()) := hrun
          exact notMem_error_of_handleGeography hgeog hout message hmem
        rw [htally, ← add_zero (leafTally (.polygon loops))] at hzero
        exact (errors_sum_leafTally_eq_zero_iff [.polygon loops]).mp hzero loops
          List.mem_cons_self
      have hstored := (unserialize_serialize lib unset [some (.polygon loops)] (by
        intro geog hgeog
        cases List.mem_singleton.mp hgeog
        exact ⟨hne, hloops⟩)).1
      rw [hstored, Except.ok.injEq] at hout
      refine ⟨_, hout.symm, ?_⟩
      rw [s2IsCollection_polygon]
      refine congrArg Except.ok (isCollectionPolygon_congr ?_)
      exact hlib (handedLoops loops) (handedLoops_perm hloops)

/-- The accessor agrees with the exporter, and with itself after an export and an import,
except on polygons with several shells of which at most one lies in no other loop, and on
points of which at most one can be read back. -/
theorem collectionAgrees_iff (layers : S2Layers) (lib : S2Lib L (List StoredLoop))
    (unset : Double) {geog : Geography (List StoredLoop)} (hgeog : Simple geog)
    (hlib : ∀ loops, geog = .polygon loops → RestoresDepths lib loops) :
    CollectionAgrees layers lib unset geog ↔ AgreesWhen geog := by
  cases geog with
  | point points => exact collectionAgrees_point_iff layers unset points
  | polyline polylines =>
    exact ⟨fun _ => trivial, fun _ => collectionAgrees_polyline layers unset hgeog⟩
  | polygon loops => exact collectionAgrees_polygon_iff layers unset hgeog (hlib loops rfl)
  | collection features => exact absurd hgeog id

/-- Loops that are their vertices, and polygons of loops that are not nested. -/
def shellsLib : S2Lib (List S2Point) (List StoredLoop) where
  initLoop := id
  normalize := id
  loopError := fun _ => none
  initOriented := fun loops => loops.map fun loop => (loop, 0)
  initNested := fun loops => loops.map fun loop => (loop, 0)
  polygonError := fun _ => none

def noLayers : S2Layers := ⟨fun _ => [], fun _ => [], fun _ => .ok []⟩

/-- Two shells next to each other. -/
def twoShells : List StoredLoop :=
  [([axisX, axisY, axisZ], 0), ([axisX.neg, axisZ.neg, axisY.neg], 0)]

theorem collectionAgrees_twoShells :
    CollectionAgrees noLayers shellsLib .zero (.polygon twoShells) := by
  refine (collectionAgrees_iff noLayers shellsLib .zero (by simp [Simple, twoShells,
    Forest.ValidDepths]) fun loops hloops => ?_).mpr fun _ => by decide
  cases hloops
  intro vertices hvertices
  have hlength := hvertices.length_eq
  have hrestored : (shellsLib.initOriented (vertices.map shellsLib.initLoop)).map Prod.snd =
      List.replicate vertices.length 0 := by
    simp [shellsLib, Function.comp_def]
  rw [hrestored, hlength]
  rfl

/-- The point with these ordinates. -/
def ordinates (x y z : BitVec 64) : S2Point := ⟨⟨x⟩, ⟨y⟩, ⟨z⟩⟩

/-- The octant, a hole in it with ordinates of 1/3 and 2/3, and an island in that with
ordinates of 6/11 and 7/11. -/
def island : List StoredLoop :=
  let third : BitVec 64 := 0x3fd5555555555555
  let twoThirds : BitVec 64 := 0x3fe5555555555555
  let six : BitVec 64 := 0x3fe1745d1745d174
  let seven : BitVec 64 := 0x3fe45d1745d1745d
  [([axisX, axisY, axisZ], 0),
    ([ordinates twoThirds third twoThirds, ordinates twoThirds twoThirds third,
      ordinates third twoThirds twoThirds], 1),
    ([ordinates seven six six, ordinates six seven six, ordinates six six seven], 2)]

/-- The island is exported as a second polygon, and not counted as one. -/
theorem not_collectionAgrees_island :
    Simple (.polygon island) ∧
      s2IsCollection noLayers (.polygon island) = .ok false ∧
      (∃ es, handleGeog (s2Exporter .zero) (.polygon island) () = .ok (es, ()) ∧
        writesMulti es = true) ∧
      ¬CollectionAgrees noLayers shellsLib .zero (.polygon island) := by
  have hrun : ∃ es, handleGeog (s2Exporter .zero) (.polygon island) () = .ok (es, ()) ∧
      writesMulti es = true := ⟨_, rfl, rfl⟩
  refine ⟨by simp [Simple, island, Forest.ValidDepths], rfl, hrun, fun h => ?_⟩
  obtain ⟨es, hes, hmulti⟩ := hrun
  have hexported := h.exported (s2Exporter .zero) () () es hes
  rw [hmulti, s2IsCollection_polygon] at hexported
  exact absurd hexported (by decide)

end Exporter

end S2Geography
