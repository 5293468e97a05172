import S2Geography.SimpleTranslation

/-!
# The collection constructor builds the translation

A collection constructor that is not inside a member treats a whole geometry as a run of
one of its parts, and is afterwards as before but for one more member. So nothing of a
geometry is left in any constructor once the geometry has ended.
-/
namespace S2Geography

open Constructor CheckedRun

variable {L Pg : Type} {lib : S2Lib L Pg} {options : Options}

namespace Constructor

namespace CollectionConstructor

/-- A call passed on to the active constructor. -/
def pass (lib : S2Lib L Pg) (options : Options) (e : HandlerEvent)
    (c : CollectionConstructor L Pg) : Except Fault (CollectionConstructor L Pg) :=
  forward lib options e (c.collectionConstructor.map (handle lib options e)) c

def setLevel (level : ℤ) (c : CollectionConstructor L Pg) : CollectionConstructor L Pg :=
  { c with level }

@[simp] theorem setLevel_level (c : CollectionConstructor L Pg) : c.setLevel c.level = c := by
  cases c
  rfl

@[simp] theorem setLevel_setLevel (level level' : ℤ) (c : CollectionConstructor L Pg) :
    (c.setLevel level').setLevel level = c.setLevel level := rfl

theorem forward_setLevel (e : HandlerEvent)
    (nested : Option (Except Fault (CollectionConstructor L Pg)))
    (level : ℤ) (c : CollectionConstructor L Pg) :
    forward lib options e nested (c.setLevel level) =
      (forward lib options e nested c).map (setLevel level) := by
  unfold forward setLevel
  cases c.activeConstructor with
  | none => rfl
  | some active =>
    cases active with
    | point => cases c.pointConstructor.handle options e <;> simp <;> rfl
    | polyline => cases c.polylineConstructor.handle options e <;> simp <;> rfl
    | polygon => cases c.polygonConstructor.handle lib options e <;> simp <;> rfl
    | collection =>
      cases nested with
      | none => rfl
      | some result => cases result <;> rfl

theorem pass_setLevel (e : HandlerEvent) (level : ℤ) (c : CollectionConstructor L Pg) :
    pass lib options e (c.setLevel level) = (pass lib options e c).map (setLevel level) :=
  forward_setLevel e _ level c

/-- Passing a call on changes nothing but the active constructor's state. -/
theorem forward_frame {e : HandlerEvent}
    {nested : Option (Except Fault (CollectionConstructor L Pg))}
    {c c' : CollectionConstructor L Pg} (h : forward lib options e nested c = .ok c') :
    c'.activeConstructor = c.activeConstructor ∧ c'.level = c.level := by
  unfold forward at h
  split at h
  · cases h
  · cases hp : c.pointConstructor.handle options e <;> rw [hp] at h <;> cases h
    exact ⟨rfl, rfl⟩
  · cases hp : c.polylineConstructor.handle options e <;> rw [hp] at h <;> cases h
    exact ⟨rfl, rfl⟩
  · cases hp : c.polygonConstructor.handle lib options e <;> rw [hp] at h <;> cases h
    exact ⟨rfl, rfl⟩
  · cases nested with
    | none => cases h
    | some result =>
      cases result <;> cases h
      exact ⟨rfl, rfl⟩

theorem pass_level (e : HandlerEvent) (c : CollectionConstructor L Pg) :
    pass lib options e c = (pass lib options e c).map (setLevel c.level) := by
  cases h : pass lib options e c with
  | error fault => rfl
  | ok c' =>
    rw [← (forward_frame h).2]
    simp [Except.map]

/-- The nesting of geometries after a call, none where one ends that had not started. -/
def depthStep : ℕ → HandlerEvent → Option ℕ
  | depth, .geomStart _ _ => some (depth + 1)
  | 0, .geomEnd => none
  | depth + 1, .geomEnd => some depth
  | depth, _ => some depth

def depthAfter : ℕ → List HandlerEvent → Option ℕ
  | depth, [] => some depth
  | depth, e :: es => (depthStep depth e).bind (depthAfter · es)

theorem depthAfter_append (depth : ℕ) (es es' : List HandlerEvent) :
    depthAfter depth (es ++ es') = (depthAfter depth es).bind (depthAfter · es') := by
  induction es generalizing depth with
  | nil => rfl
  | cons e es ih =>
    simp only [List.cons_append, depthAfter, ih]
    cases depthStep depth e <;> rfl

/-- Inside a member, the constructor counts the level and passes the call on. -/
theorem handle_eq_pass {depth depth' : ℕ} {e : HandlerEvent}
    (hdepth : depthStep depth e = some depth') {c : CollectionConstructor L Pg}
    (hc : c.activeConstructor.isSome) (hlevel : c.level = 2 + depth) :
    handle lib options e c = (pass lib options e c).map (setLevel (2 + depth')) := by
  rw [handle_eq]
  cases e with
  | geomStart geometryType size =>
    obtain rfl : depth + 1 = depth' := Option.some.inj hdepth
    have hne : ¬(c.level + 1 = 1 ∧ geometryType = .geometrycollection) := by omega
    have hlevel' : c.level + 1 = 2 + ((depth + 1 : ℕ) : ℤ) := by omega
    simp only [handleStep, geomStart, if_neg hne, hc, if_true]
    rw [hlevel']
    exact forward_setLevel _ _ _ c
  | geomEnd =>
    cases depth with
    | zero => cases hdepth
    | succ depth =>
      obtain rfl : depth = depth' := Option.some.inj hdepth
      have hle : 1 ≤ c.level - 1 := by omega
      have hlevel' : c.level - 1 = 2 + (depth : ℤ) := by omega
      have hne : ¬((2 : ℤ) + depth = 1) := by omega
      simp only [handleStep, geomEnd, if_pos hle]
      rw [hlevel']
      change (forward lib options .geomEnd _ (c.setLevel _) >>= _) = _
      rw [forward_setLevel, pass]
      cases forward lib options .geomEnd
          (c.collectionConstructor.map (handle lib options .geomEnd)) c with
      | error fault => rfl
      | ok c' => simp [Except.map, bind, Except.bind, hne, pure, Except.pure, setLevel]
  | ringStart size | coords coord coordSize | ringEnd =>
    obtain rfl : depth = depth' := Option.some.inj hdepth
    rw [← hlevel]
    exact pass_level _ c

theorem feed_eq_pass {depth depth' : ℕ} {es : List HandlerEvent}
    (hdepth : depthAfter depth es = some depth') {c : CollectionConstructor L Pg}
    (hc : c.activeConstructor.isSome) (hlevel : c.level = 2 + depth) :
    feed (handle lib options) es c =
      (feed (pass lib options) es c).map (setLevel (2 + depth')) := by
  induction es generalizing depth c with
  | nil =>
    obtain rfl : depth = depth' := Option.some.inj hdepth
    simp [Except.map, ← hlevel]
  | cons e es ih =>
    obtain ⟨depth1, hstep, hrest⟩ := Option.bind_eq_some_iff.mp hdepth
    rw [feed_cons, feed_cons, handle_eq_pass hstep hc hlevel]
    cases h : pass lib options e c with
    | error fault => rfl
    | ok c1 =>
      have hput : feed (pass lib options) es (c1.setLevel (2 + depth1)) =
          (feed (pass lib options) es c1).map (setLevel (2 + depth1)) :=
        feed_map (setLevel (2 + depth1)) (fun e c => pass_setLevel e _ c) es c1
      change feed _ es (c1.setLevel (2 + depth1)) = (feed _ es c1).map _
      rw [ih hrest (by rw [setLevel, (forward_frame h).1]; exact hc) rfl, hput]
      cases feed (pass lib options) es c1 <;> rfl

/-- Calls that close every geometry they start, and no other. -/
def Balanced (es : List HandlerEvent) : Prop := ∀ depth, depthAfter depth es = some depth

theorem Balanced.append {es es' : List HandlerEvent} (h : Balanced es) (h' : Balanced es') :
    Balanced (es ++ es') := by
  intro depth
  rw [depthAfter_append, h depth]
  exact h' depth

theorem Balanced.flatMap {α : Type} {f : α → List HandlerEvent} (h : ∀ a, Balanced (f a))
    (as : List α) : Balanced (as.flatMap f) := by
  induction as with
  | nil => exact fun depth => rfl
  | cons a as ih => exact (h a).append ih

theorem Balanced.geometryCalls {content : List HandlerEvent} (h : Balanced content)
    (header : WkHeader) (geometryType : WkGeometryType) :
    Balanced (geometryCalls header geometryType content) := by
  intro depth
  change depthAfter (depth + 1) (content ++ [.geomEnd]) = some depth
  rw [depthAfter_append, h (depth + 1)]
  rfl

theorem balanced_coordCalls (header : WkHeader) (coords : List WkCoord) :
    Balanced (coordCalls header coords) := by
  intro depth
  induction coords with
  | nil => rfl
  | cons coord coords ih => exact ih

theorem balanced_pathCalls (geometryType : WkGeometryType) (path : WkPath) :
    Balanced (path.calls geometryType) :=
  (balanced_coordCalls path.header path.coords).geometryCalls path.header geometryType

theorem balanced_ringCalls (header : WkHeader) (ring : WkRing) : Balanced (ring.calls header) := by
  intro depth
  exact (balanced_coordCalls header ring.coords).append (fun depth => rfl) depth

theorem balanced_polygonCalls (polygon : WkPolygon) : Balanced polygon.calls :=
  (Balanced.flatMap (balanced_ringCalls polygon.header) polygon.rings).geometryCalls _ _

mutual

theorem balanced_calls : (geometry : WkGeometry) → Balanced geometry.calls
  | .point path => balanced_pathCalls _ path
  | .linestring path => balanced_pathCalls _ path
  | .polygon rings => balanced_polygonCalls rings
  | .multipoint _ points => (Balanced.flatMap (balanced_pathCalls _) points).geometryCalls _ _
  | .multilinestring _ linestrings =>
    (Balanced.flatMap (balanced_pathCalls _) linestrings).geometryCalls _ _
  | .multipolygon _ polygons => (Balanced.flatMap balanced_polygonCalls polygons).geometryCalls _ _
  | .geometrycollection _ members => (balanced_callsAll members).geometryCalls _ _

theorem balanced_callsAll : (members : List WkGeometry) → Balanced (WkGeometry.callsAll members)
  | [] => fun _ => rfl
  | member :: members => (balanced_calls member).append (balanced_callsAll members)

end

/-- Nothing is pending: no point, polyline, loop or member, and no input point, in this
constructor, its parts and its nested constructors. -/
inductive Drained : CollectionConstructor L Pg → Prop where
  | intro (c : CollectionConstructor L Pg)
      (points : c.pointConstructor.points = [])
      (polylines : c.polylineConstructor.Holds [])
      (loops : c.polygonConstructor.Holds [])
      (features : c.features = [])
      (nested : ∀ n, c.collectionConstructor = some n → Drained n) : Drained c

/-- Between two members, with nothing pending but the members themselves. -/
structure Ready (c : CollectionConstructor L Pg) : Prop where
  active : c.activeConstructor = none
  level : c.level = 1
  points : c.pointConstructor.points = []
  polylines : c.polylineConstructor.Holds []
  loops : c.polygonConstructor.Holds []
  nested : ∀ n, c.collectionConstructor = some n → Drained n

/-- The constructor with the part made active that a geometry type needs. -/
def activate : WkGeometryType → CollectionConstructor L Pg → Option (CollectionConstructor L Pg)
  | .point, c | .multipoint, c => some { c with activeConstructor := some .point }
  | .linestring, c | .multilinestring, c => some { c with activeConstructor := some .polyline }
  | .polygon, c | .multipolygon, c => some { c with activeConstructor := some .polygon }
  | .geometrycollection, c =>
    some { c with collectionConstructor := some new, activeConstructor := some .collection }
  | .geometry, _ => none

theorem geomStart_eq_pass {c c' : CollectionConstructor L Pg} (hc : c.Ready)
    {geometryType : WkGeometryType} (h : activate geometryType c = some c') (size : ℤ) :
    handle lib options (.geomStart geometryType size) c =
      (pass lib options (.geomStart geometryType size) c').map (setLevel 2) := by
  have hlevel : c.level + 1 = 2 := by rw [hc.level]; rfl
  rw [handle_eq, ← pass_setLevel]
  cases geometryType <;> cases h <;>
    simp [handleStep, geomStart, hlevel, hc.active, pass, setLevel, handle_new]

theorem activate_isSome {c c' : CollectionConstructor L Pg} {geometryType : WkGeometryType}
    (h : activate geometryType c = some c') : c'.activeConstructor.isSome := by
  cases geometryType <;> cases h <;> rfl

/-- A geometry is a run of the part it activates, whose result becomes a member. -/
theorem feed_eq_finishActive {c c' : CollectionConstructor L Pg} (hc : c.Ready)
    {header : WkHeader} {geometryType : WkGeometryType} {content : List HandlerEvent}
    (h : activate geometryType c = some c') (hcontent : Balanced content) :
    feed (handle lib options) (geometryCalls header geometryType content) c =
      feed (pass lib options) (geometryCalls header geometryType content) c' >>=
        fun c => finishActive lib options (c.setLevel 1) := by
  rw [feed_geometryCalls, feed_geometryCalls, geomStart_eq_pass hc h]
  cases h1 : pass lib options (.geomStart geometryType (declaredSize header.size)) c' with
  | error fault => rfl
  | ok c1 =>
    have hactive : (c1.setLevel 2).activeConstructor.isSome := by
      rw [setLevel, (forward_frame h1).1]
      exact activate_isSome h
    change (feed _ content (c1.setLevel 2) >>= _) = (feed _ content c1 >>= _) >>= _
    rw [feed_eq_pass (hcontent 0) hactive rfl,
      feed_map (setLevel 2) (fun e c => pass_setLevel e 2 c) content c1]
    cases feed (pass lib options) content c1 with
    | error fault => rfl
    | ok c2 =>
      change handle lib options .geomEnd (c2.setLevel 2) = pass lib options .geomEnd c2 >>= _
      have hlevel : (c2.setLevel 2).level - 1 = 1 := rfl
      rw [handle_eq, handleStep, geomEnd]
      simp only [hlevel, le_refl, if_true]
      change (pass lib options .geomEnd (c2.setLevel 1) >>= _) = _
      rw [pass_setLevel]
      cases pass lib options .geomEnd c2 with
      | error fault => rfl
      | ok c3 => rfl

/-- The same for a part with its own machine, which `put` puts in place. -/
theorem feed_eq_of_put {σ : Type} {step : HandlerEvent → σ → Except Fault σ}
    {put : σ → CollectionConstructor L Pg}
    (hput : ∀ e p, pass lib options e (put p) = (step e p).map put)
    {c : CollectionConstructor L Pg} (hc : c.Ready) {header : WkHeader}
    {geometryType : WkGeometryType} {content : List HandlerEvent} {p : σ}
    (h : activate geometryType c = some (put p)) (hcontent : Balanced content) :
    feed (handle lib options) (geometryCalls header geometryType content) c =
      feed step (geometryCalls header geometryType content) p >>=
        fun p => finishActive lib options ((put p).setLevel 1) := by
  rw [feed_eq_finishActive hc h hcontent, feed_map put hput, map_bind]

variable {c : CollectionConstructor L Pg} {check : Except Fault Unit} {header : WkHeader}
  {content : List HandlerEvent}

/-- The constructor with one more member, and otherwise between two members as before. -/
def Adds (c : CollectionConstructor L Pg) (features : List (Geography Pg))
    (c' : CollectionConstructor L Pg) : Prop :=
  c'.Ready ∧ c'.features = c.features ++ features

theorem adds_point (hc : c.Ready) {geometryType : WkGeometryType}
    (htype : geometryType = .point ∨ geometryType = .multipoint) (hcontent : Balanced content)
    {points : List S2Point}
    (h : Ends check (fun p => p.points = points) (feed (PointConstructor.handle options)
      (geometryCalls header geometryType content) c.pointConstructor)) :
    Ends check (Adds c [.point points])
      (feed (handle lib options) (geometryCalls header geometryType content) c) := by
  let put (p : PointConstructor) : CollectionConstructor L Pg :=
    { c with pointConstructor := p, activeConstructor := some .point }
  have hactivate : activate geometryType c = some (put c.pointConstructor) := by
    rcases htype with rfl | rfl <;> rfl
  have hput : ∀ e p, pass lib options e (put p) = (PointConstructor.handle options e p).map put :=
    fun e p => bind_ok _ put
  rw [feed_eq_of_put hput hc hactivate hcontent]
  refine h.then fun p hp => ends_ok ⟨⟨rfl, rfl, rfl, hc.polylines, hc.loops, hc.nested⟩, ?_⟩
  change c.features ++ [.point p.points] = _
  rw [hp]

theorem adds_polyline (hc : c.Ready) {geometryType : WkGeometryType}
    (htype : geometryType = .linestring ∨ geometryType = .multilinestring)
    (hcontent : Balanced content) {polylines : List (List S2Point)}
    (h : Ends check (PolylineConstructor.Holds polylines)
      (feed (PolylineConstructor.handle options) (geometryCalls header geometryType content)
        c.polylineConstructor)) :
    Ends check (Adds c [.polyline polylines])
      (feed (handle lib options) (geometryCalls header geometryType content) c) := by
  let put (p : PolylineConstructor) : CollectionConstructor L Pg :=
    { c with polylineConstructor := p, activeConstructor := some .polyline }
  have hactivate : activate geometryType c = some (put c.polylineConstructor) := by
    rcases htype with rfl | rfl <;> rfl
  have hput : ∀ e p,
      pass lib options e (put p) = (PolylineConstructor.handle options e p).map put :=
    fun e p => bind_ok _ put
  rw [feed_eq_of_put hput hc hactivate hcontent]
  refine h.then fun p hp =>
    ends_ok ⟨⟨rfl, rfl, hc.points, ⟨hp.inputPoints, rfl⟩, hc.loops, hc.nested⟩, ?_⟩
  change c.features ++ [.polyline p.polylines] = _
  rw [hp.polylines]

theorem adds_polygon (hc : c.Ready) {geometryType : WkGeometryType}
    (htype : geometryType = .polygon ∨ geometryType = .multipolygon)
    (hcontent : Balanced content) {loops : List L}
    (h : Ends check (PolygonConstructor.Holds loops)
      (feed (PolygonConstructor.handle lib options) (geometryCalls header geometryType content)
        c.polygonConstructor)) :
    Ends (check >>= fun _ => checkPolygon lib options (makePolygon lib options loops))
      (Adds c [.polygon (makePolygon lib options loops)])
      (feed (handle lib options) (geometryCalls header geometryType content) c) := by
  let put (p : PolygonConstructor L) : CollectionConstructor L Pg :=
    { c with polygonConstructor := p, activeConstructor := some .polygon }
  have hactivate : activate geometryType c = some (put c.polygonConstructor) := by
    rcases htype with rfl | rfl <;> rfl
  have hput : ∀ e p,
      pass lib options e (put p) = (PolygonConstructor.handle lib options e p).map put :=
    fun e p => bind_ok _ put
  rw [feed_eq_of_put hput hc hactivate hcontent]
  refine h.bind fun p hp => ?_
  change Ends _ _ (p.finish lib options >>= _)
  rw [PolygonConstructor.finish, hp.loops]
  cases checkPolygon lib options (makePolygon lib options loops) with
  | error fault => rfl
  | ok u =>
    exact ends_ok ⟨⟨rfl, rfl, hc.points, hc.polylines, ⟨hp.inputPoints, rfl⟩, hc.nested⟩, rfl⟩

theorem opened_ready : (opened : CollectionConstructor L Pg).Ready :=
  ⟨rfl, rfl, rfl, ⟨rfl, rfl⟩, ⟨rfl, rfl⟩, fun _ h => nomatch h⟩

/-- The end of the collection itself, not of a member. -/
theorem handle_geomEnd_of_ready (hc : c.Ready) :
    handle lib options .geomEnd c = .ok (c.setLevel 0) := by
  have hlevel : c.level - 1 = 0 := by rw [hc.level]; rfl
  rw [handle_eq]
  simp only [handleStep, geomEnd, hlevel]
  rfl

theorem adds_collection (hc : c.Ready) (hcontent : Balanced content)
    {members : List (Geography Pg)}
    (h : Ends check (Adds opened members) (feed (handle lib options) content opened)) :
    Ends check (Adds c [.collection members])
      (feed (handle lib options) (geometryCalls header .geometrycollection content) c) := by
  let put (n : CollectionConstructor L Pg) : CollectionConstructor L Pg :=
    { c with collectionConstructor := some n, activeConstructor := some .collection }
  have hput : ∀ e n, pass lib options e (put n) = (handle lib options e n).map put :=
    fun e n => bind_ok _ put
  have hactivate : activate .geometrycollection c = some (put new) := rfl
  rw [feed_eq_of_put hput hc hactivate hcontent, feed_geometryCalls, handle_new]
  change Ends _ _ ((feed (handle lib options) content opened >>= _) >>= _)
  rw [bind_assoc]
  refine h.then fun n hn => ?_
  rw [handle_geomEnd_of_ready hn.1]
  refine ends_ok ⟨⟨rfl, rfl, hc.points, hc.polylines, hc.loops, ?_⟩, ?_⟩
  · intro n' hn'
    cases hn'
    exact .intro _ hn.1.points hn.1.polylines hn.1.loops rfl hn.1.nested
  · change c.features ++ [.collection n.features] = _
    rw [hn.2]
    rfl

end CollectionConstructor

open CollectionConstructor

mutual

/-- A constructor between two members takes in a geometry: it fails as the check does, or
has the translation as one more member. -/
theorem feed_calls (hinf : options.tessellateTolerance = none) :
    (geometry : WkGeometry) → {c : CollectionConstructor L Pg} → c.Ready →
    Ends (geometry.check lib options) (Adds c [geometry.translate lib options])
      (feed (handle lib options) geometry.calls c)
  | .point path, c, hc => by
    refine adds_point hc (.inl rfl) (balanced_coordCalls _ _) ?_
    exact ⟨_, PointConstructor.feed_point path c.pointConstructor, by simp [hc.points]⟩
  | .multipoint header points, c, hc => by
    refine adds_point hc (.inr rfl) (Balanced.flatMap (balanced_pathCalls _) points) ?_
    exact ⟨_, PointConstructor.feed_multipoint header points _, by simp [hc.points]⟩
  | .linestring path, c, hc => by
    refine adds_polyline hc (.inl rfl) (balanced_coordCalls _ _) ?_
    have hcalls : [path].flatMap (·.calls .linestring) = path.calls .linestring :=
      List.append_nil _
    change Ends _ _ (feed _ (path.calls .linestring) _)
    rw [← hcalls]
    exact PolylineConstructor.feed_linestrings hinf [path] hc.polylines
  | .multilinestring header linestrings, c, hc =>
    adds_polyline hc (.inr rfl) (Balanced.flatMap (balanced_pathCalls _) linestrings)
      (PolylineConstructor.feed_multilinestring hinf header linestrings hc.polylines)
  | .polygon rings, c, hc => by
    refine adds_polygon hc (.inl rfl) (Balanced.flatMap (balanced_ringCalls _) rings.rings) ?_
    have hcalls : [rings].flatMap (·.calls) = rings.calls := List.append_nil _
    change Ends _ _ (feed _ rings.calls _)
    rw [← hcalls]
    exact PolygonConstructor.feed_polygons hinf [rings] hc.loops
  | .multipolygon header polygons, c, hc =>
    adds_polygon hc (.inr rfl) (Balanced.flatMap balanced_polygonCalls polygons)
      (PolygonConstructor.feed_multipolygon hinf header polygons hc.loops)
  | .geometrycollection header members, c, hc =>
    adds_collection hc (balanced_callsAll members) (feed_callsAll hinf members opened_ready)

theorem feed_callsAll (hinf : options.tessellateTolerance = none) :
    (members : List WkGeometry) → {c : CollectionConstructor L Pg} → c.Ready →
    Ends (WkGeometry.checkAll lib options members)
      (Adds c (WkGeometry.translateAll lib options members))
      (feed (handle lib options) (WkGeometry.callsAll members) c)
  | [], c, hc => ends_ok ⟨hc, by simp [WkGeometry.translateAll]⟩
  | member :: members, c, hc => by
    rw [WkGeometry.callsAll, WkGeometry.checkAll, WkGeometry.translateAll, feed_append]
    refine (feed_calls hinf member hc).bind fun c1 h1 => ?_
    refine (feed_callsAll hinf members h1.1).mono fun c2 h2 => ⟨h2.1, ?_⟩
    rw [h2.2, h1.2, List.append_assoc]
    rfl

end

/-! ### Features -/

theorem featStart_ready (lib : S2Lib L Pg) (options : Options) {c : CollectionConstructor L Pg}
    (hc : c.Drained) :
    ∃ c', featStart lib options c = .ok c' ∧ c'.Ready ∧ c'.features = [] := by
  obtain ⟨_, points, polylines, loops, -, nested⟩ := hc
  refine ⟨{ c with activeConstructor := none, level := 1, features := [] }, ?_, ?_, rfl⟩
  · rw [featStart, handle_eq]
    rfl
  · exact ⟨rfl, rfl, points, polylines, loops, nested⟩

theorem CollectionConstructor.Ready.drained {c : CollectionConstructor L Pg} (hc : c.Ready)
    (hfeatures : c.features = []) : c.Drained :=
  .intro c hc.points hc.polylines hc.loops hfeatures hc.nested

/-- The one geometry of a feature is taken out again at the end. -/
theorem finishFeature_of_ready (lib : S2Lib L Pg) (options : Options)
    {c : CollectionConstructor L Pg} (hc : c.Ready) {feature : Geography Pg}
    (hfeatures : c.features = [feature]) :
    ∃ c', finishFeature lib options c = .ok (feature, c') ∧ c'.Drained := by
  refine ⟨{ c.setLevel 0 with features := [] }, ?_, ?_⟩
  · rw [finishFeature, handle_geomEnd_of_ready hc]
    simp [bind, Except.bind, setLevel, hfeatures, pure, Except.pure]
  · exact .intro _ hc.points hc.polylines hc.loops rfl hc.nested

end Constructor

end S2Geography
