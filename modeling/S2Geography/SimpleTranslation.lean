import S2Geography.Translation

/-!
# The simple constructors build the translation

Each simple constructor, run over the calls of its geometries, fails as their check does
or holds their translation at the end, with no input point pending.
-/
namespace S2Geography

open Constructor CheckedRun

variable {L Pg : Type} {lib : S2Lib L Pg} {options : Options}

/-! ### Points at infinite tolerance -/

theorem unprojectPoints_eq (projection : Projection) (pts : List S2Point) :
    unprojectPoints projection pts =
      if pts.any (fun pt => pt.x.isNaN || pt.y.isNaN) then
        .error (.stop "Can't unproject point with nan to S2Point")
      else .ok (pts.map fun pt => projection.unproject ⟨pt.x, pt.y⟩) := by
  induction pts with
  | nil => rfl
  | cons pt pts ih =>
    unfold unprojectPoints
    by_cases hpt : pt.x.isNaN || pt.y.isNaN
    · simp [hpt]
    · rw [if_neg hpt, ih]
      simp only [List.any_cons, hpt, Bool.false_or, List.map_cons]
      split <;> rfl

theorem finishPoints_eq (hinf : options.tessellateTolerance = none) (pts : List S2Point) :
    finishPoints options pts =
      (checkPoints options pts).map fun _ => pts.map (unprojectPoint options) := by
  unfold finishPoints checkPoints
  cases hproj : options.projection with
  | none =>
    have hid : unprojectPoint options = id := by
      funext pt
      simp [unprojectPoint, hproj]
    simp [hid, Except.map]
  | some projection =>
    have hmap : unprojectPoint options = fun pt => projection.unproject ⟨pt.x, pt.y⟩ := by
      funext pt
      simp [unprojectPoint, hproj]
    simp only [hinf, unprojectPoints_eq, hmap, Option.isSome_some, Bool.true_and]
    split <;> rfl

theorem finishPoints_nil : finishPoints options [] = .ok [] := by
  unfold finishPoints
  cases options.projection with
  | none => rfl
  | some projection => cases options.tessellateTolerance <;> rfl

/-! ### The simple constructors -/

/-- The content of a geometry between its start and its end. -/
theorem feed_geometryCalls {σ : Type} (step : HandlerEvent → σ → Except Fault σ)
    (header : WkHeader) (geometryType : WkGeometryType) (content : List HandlerEvent) (s : σ) :
    feed step (geometryCalls header geometryType content) s =
      step (.geomStart geometryType (declaredSize header.size)) s >>= fun s =>
        feed step content s >>= step .geomEnd := by
  unfold geometryCalls
  rw [feed_cons]
  congr 1
  funext s
  rw [feed_append]
  congr 1
  funext s
  exact feed_singleton step .geomEnd s

namespace Constructor

theorem PointConstructor.handle_geomStart {geometryType : WkGeometryType}
    (h : geometryType = .point ∨ geometryType = .multipoint) (size : ℤ) (c : PointConstructor) :
    handle options (.geomStart geometryType size) c = .ok c := by
  rcases h with rfl | rfl <;> simp [handle]

theorem PointConstructor.feed_coords (header : WkHeader) (coords : List WkCoord)
    (c : PointConstructor) :
    feed (handle options) (coordCalls header coords) c =
      .ok ⟨c.points ++ (coords.filter fun coord =>
        !coordEmpty coord header.coordSize).map (pointOf options)⟩ := by
  induction coords generalizing c with
  | nil => simp [coordCalls]
  | cons coord coords ih =>
    change handle options (.coords coord header.coordSize) c >>=
      feed _ (coordCalls header coords) = _
    simp only [handle]
    by_cases hempty : coordEmpty coord header.coordSize
    · rw [if_pos hempty]
      change feed _ (coordCalls header coords) c = _
      rw [ih]
      simp [hempty]
    · rw [if_neg hempty]
      change feed _ (coordCalls header coords) _ = _
      rw [ih]
      simp [hempty]

theorem PointConstructor.feed_point (path : WkPath) (c : PointConstructor) :
    feed (handle options) (path.calls .point) c =
      .ok ⟨c.points ++ translatePoints options [path]⟩ := by
  unfold WkPath.calls
  rw [feed_geometryCalls, handle_geomStart (.inl rfl)]
  change feed _ _ c >>= _ = _
  rw [feed_coords]
  simp [translatePoints, bind, Except.bind, handle]

theorem PointConstructor.feed_points (points : List WkPath) (c : PointConstructor) :
    feed (handle options) (points.flatMap (·.calls .point)) c =
      .ok ⟨c.points ++ translatePoints options points⟩ := by
  induction points generalizing c with
  | nil => simp [translatePoints]
  | cons path points ih =>
    rw [List.flatMap_cons, feed_append, feed_point]
    change feed _ _ _ = _
    rw [ih]
    simp [translatePoints]

theorem PointConstructor.feed_multipoint (header : WkHeader) (points : List WkPath)
    (c : PointConstructor) :
    feed (handle options)
        (geometryCalls header .multipoint (points.flatMap (·.calls .point))) c =
      .ok ⟨c.points ++ translatePoints options points⟩ := by
  rw [feed_geometryCalls, handle_geomStart (.inr rfl)]
  change feed _ _ c >>= _ = _
  rw [feed_points]
  rfl

/-- The polylines stored, and no input point pending. -/
structure PolylineConstructor.Holds (polylines : List (List S2Point))
    (c : PolylineConstructor) : Prop where
  inputPoints : c.inputPoints = []
  polylines : c.polylines = polylines

theorem PolylineConstructor.handle_geomStart {geometryType : WkGeometryType}
    (h : geometryType = .linestring ∨ geometryType = .multilinestring) (size : ℤ)
    (c : PolylineConstructor) : handle options (.geomStart geometryType size) c = .ok c := by
  rcases h with rfl | rfl <;> simp [handle]

theorem PolylineConstructor.feed_coords (header : WkHeader) (coords : List WkCoord)
    (c : PolylineConstructor) :
    feed (handle options) (coordCalls header coords) c =
      .ok { c with
        inputPoints := c.inputPoints ++ coords.map (inputPoint · header.coordSize) } := by
  induction coords generalizing c with
  | nil => simp [coordCalls]
  | cons coord coords ih =>
    change feed _ (coordCalls header coords) _ = _
    rw [ih]
    simp

theorem PolylineConstructor.geomEnd_ends (hinf : options.tessellateTolerance = none)
    (pts : List S2Point) (c : PolylineConstructor) (hpts : c.inputPoints = pts) :
    Ends (checkPoints options pts)
      (Holds (c.polylines ++ if pts.isEmpty then [] else [pts.map (unprojectPoint options)]))
      (c.handle options .geomEnd) := by
  simp only [handle, hpts, finishPoints_eq hinf]
  cases checkPoints options pts with
  | error fault => rfl
  | ok u =>
    refine ⟨_, rfl, rfl, ?_⟩
    cases pts with
    | nil => simp
    | cons pt pts => simp

theorem PolylineConstructor.feed_linestring (hinf : options.tessellateTolerance = none)
    (path : WkPath) {polylines : List (List S2Point)} {c : PolylineConstructor}
    (hc : Holds polylines c) :
    Ends (checkPoints options path.inputPoints)
      (Holds (polylines ++ translatePolylines options [path]))
      (feed (handle options) (path.calls .linestring) c) := by
  unfold WkPath.calls
  rw [feed_geometryCalls, handle_geomStart (.inl rfl)]
  change Ends _ _ (feed _ _ c >>= _)
  rw [feed_coords]
  have hend := geomEnd_ends hinf path.inputPoints
    { c with inputPoints := c.inputPoints ++ path.coords.map (inputPoint · path.header.coordSize) }
    (by simp [hc.inputPoints, WkPath.inputPoints])
  refine hend.mono fun s hs => ?_
  simp only [hc.polylines] at hs
  refine ⟨hs.inputPoints, hs.polylines.trans ?_⟩
  cases hempty : path.inputPoints <;> simp [translatePolylines, hempty]

theorem translatePolylines_cons (options : Options) (path : WkPath) (paths : List WkPath) :
    translatePolylines options (path :: paths) =
      translatePolylines options [path] ++ translatePolylines options paths := by
  cases hempty : path.inputPoints <;> simp [translatePolylines, hempty]

theorem PolylineConstructor.feed_linestrings (hinf : options.tessellateTolerance = none)
    (paths : List WkPath) {polylines : List (List S2Point)} {c : PolylineConstructor}
    (hc : Holds polylines c) :
    Ends (checkPolylines options paths) (Holds (polylines ++ translatePolylines options paths))
      (feed (handle options) (paths.flatMap (·.calls .linestring)) c) := by
  induction paths generalizing polylines c with
  | nil => exact ends_ok (by simpa [translatePolylines] using hc)
  | cons path paths ih =>
    rw [List.flatMap_cons, feed_append]
    refine (feed_linestring hinf path hc).bind fun s hs => ?_
    rw [translatePolylines_cons, ← List.append_assoc]
    exact ih hs

theorem PolylineConstructor.feed_multilinestring (hinf : options.tessellateTolerance = none)
    (header : WkHeader) (paths : List WkPath) {polylines : List (List S2Point)}
    {c : PolylineConstructor} (hc : Holds polylines c) :
    Ends (checkPolylines options paths) (Holds (polylines ++ translatePolylines options paths))
      (feed (handle options)
        (geometryCalls header .multilinestring (paths.flatMap (·.calls .linestring))) c) := by
  rw [feed_geometryCalls, handle_geomStart (.inr rfl)]
  refine (feed_linestrings hinf paths hc).then fun s hs => ?_
  simp only [handle, hs.inputPoints, finishPoints_nil]
  exact ends_ok ⟨rfl, hs.polylines⟩

/-- The stored loops, and no input point pending. -/
structure PolygonConstructor.Holds (loops : List L) (c : PolygonConstructor L) : Prop where
  inputPoints : c.inputPoints = []
  loops : c.loops = loops

theorem PolygonConstructor.feed_coords (header : WkHeader) (coords : List WkCoord)
    (c : PolygonConstructor L) :
    feed (handle lib options) (coordCalls header coords) c =
      .ok { c with
        inputPoints := c.inputPoints ++ coords.map (inputPoint · header.coordSize) } := by
  induction coords generalizing c with
  | nil => simp [coordCalls]
  | cons coord coords ih =>
    change feed _ (coordCalls header coords) _ = _
    rw [ih]
    simp

theorem PolygonConstructor.ringEnd_ends (hinf : options.tessellateTolerance = none)
    (ring : List S2Point) (c : PolygonConstructor L) (hring : c.inputPoints = ring) :
    Ends (checkRing lib options c.loops.length ring)
      (Holds (c.loops ++ translateRings lib options [ring]))
      (c.handle lib options .ringEnd) := by
  simp only [handle, hring, finishPoints_eq hinf, checkRing]
  cases checkPoints options ring with
  | error fault => rfl
  | ok u =>
    cases ring with
    | nil => exact ⟨_, rfl, rfl, by simp [translateRings]⟩
    | cons pt pts =>
      change Ends (checkLoop lib options c.loops.length _) _ (checkLoop lib options _ _ >>= _)
      cases checkLoop lib options c.loops.length
          (makeLoop lib options ((pt :: pts).map (unprojectPoint options))) with
      | error fault => rfl
      | ok u => exact ⟨_, rfl, rfl, by simp [translateRings]⟩

theorem PolygonConstructor.feed_ring (hinf : options.tessellateTolerance = none)
    (header : WkHeader) (ring : WkRing) {loops : List L} {c : PolygonConstructor L}
    (hc : Holds loops c) :
    Ends (checkRing lib options loops.length (ring.coords.map (inputPoint · header.coordSize)))
      (Holds (loops ++ translateRings lib options
        [ring.coords.map (inputPoint · header.coordSize)]))
      (feed (handle lib options) (ring.calls header) c) := by
  unfold WkRing.calls
  rw [feed_cons]
  change Ends _ _ (feed _ _ _)
  rw [feed_append, feed_coords]
  change Ends _ _ (feed _ _ _)
  rw [feed_singleton, ← hc.loops]
  exact ringEnd_ends hinf (ring.coords.map (inputPoint · header.coordSize))
    { c with inputPoints := [] ++ ring.coords.map (inputPoint · header.coordSize) } rfl

theorem translateRings_append (lib : S2Lib L Pg) (options : Options)
    (rings rings' : List (List S2Point)) :
    translateRings lib options (rings ++ rings') =
      translateRings lib options rings ++ translateRings lib options rings' := by
  simp [translateRings]

theorem PolygonConstructor.feed_rings (hinf : options.tessellateTolerance = none)
    (header : WkHeader) (rings : List WkRing) {loops : List L} {c : PolygonConstructor L}
    (hc : Holds loops c) :
    Ends (checkRings lib options loops.length
        (rings.map fun ring => ring.coords.map (inputPoint · header.coordSize)))
      (Holds (loops ++ translateRings lib options
        (rings.map fun ring => ring.coords.map (inputPoint · header.coordSize))))
      (feed (handle lib options) (rings.flatMap (·.calls header)) c) := by
  induction rings generalizing loops c with
  | nil => exact ends_ok (by simpa [translateRings] using hc)
  | cons ring rings ih =>
    rw [List.flatMap_cons, feed_append]
    refine (feed_ring hinf header ring hc).bind fun s hs => ?_
    have hrest := ih hs
    rw [List.append_assoc, ← translateRings_append] at hrest
    have hlength : (loops ++ translateRings lib options
          [ring.coords.map (inputPoint · header.coordSize)]).length =
        if (ring.coords.map (inputPoint · header.coordSize)).isEmpty then loops.length
        else loops.length + 1 := by
      cases ring.coords <;> simp [translateRings]
    rw [hlength] at hrest
    exact hrest

theorem checkRings_append (lib : S2Lib L Pg) (options : Options) (count : ℕ)
    (rings rings' : List (List S2Point)) :
    checkRings lib options count (rings ++ rings') =
      checkRings lib options count rings >>= fun _ =>
        checkRings lib options (count + (translateRings lib options rings).length) rings' := by
  induction rings generalizing count with
  | nil => simp [checkRings, translateRings, bind, Except.bind]
  | cons ring rings ih =>
    rw [List.cons_append, checkRings, checkRings, bind_assoc]
    congr 1
    funext u
    rw [ih]
    congr 1
    funext u
    congr 1
    cases ring with
    | nil => simp [translateRings]
    | cons pt pts =>
      simp [translateRings]
      omega

theorem PolygonConstructor.feed_polygon (hinf : options.tessellateTolerance = none)
    (polygon : WkPolygon) {loops : List L} {c : PolygonConstructor L} (hc : Holds loops c) :
    Ends (checkRings lib options loops.length polygon.inputRings)
      (Holds (loops ++ translateRings lib options polygon.inputRings))
      (feed (handle lib options) polygon.calls c) := by
  unfold WkPolygon.calls
  rw [feed_geometryCalls]
  change Ends _ _ (feed _ _ c >>= _)
  exact (feed_rings hinf polygon.header polygon.rings hc).then fun s hs => ends_ok hs

theorem PolygonConstructor.feed_polygons (hinf : options.tessellateTolerance = none)
    (polygons : List WkPolygon) {loops : List L} {c : PolygonConstructor L}
    (hc : Holds loops c) :
    Ends (checkRings lib options loops.length (polygons.flatMap (·.inputRings)))
      (Holds (loops ++ translateRings lib options (polygons.flatMap (·.inputRings))))
      (feed (handle lib options) (polygons.flatMap (·.calls)) c) := by
  induction polygons generalizing loops c with
  | nil => exact ends_ok (by simpa [translateRings] using hc)
  | cons polygon polygons ih =>
    rw [List.flatMap_cons, List.flatMap_cons, feed_append, checkRings_append]
    refine (feed_polygon hinf polygon hc).bind fun s hs => ?_
    have hrest := ih hs
    rw [List.length_append, List.append_assoc, ← translateRings_append] at hrest
    exact hrest

theorem PolygonConstructor.feed_multipolygon (hinf : options.tessellateTolerance = none)
    (header : WkHeader) (polygons : List WkPolygon) {loops : List L} {c : PolygonConstructor L}
    (hc : Holds loops c) :
    Ends (checkRings lib options loops.length (polygons.flatMap (·.inputRings)))
      (Holds (loops ++ translateRings lib options (polygons.flatMap (·.inputRings))))
      (feed (handle lib options)
        (geometryCalls header .multipolygon (polygons.flatMap (·.calls))) c) := by
  rw [feed_geometryCalls]
  exact (feed_polygons hinf polygons hc).then fun s hs => ends_ok hs

end Constructor

end S2Geography
