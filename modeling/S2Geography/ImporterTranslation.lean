import S2Geography.CollectionTranslation

/-!
# The importer translates feature by feature

The importer's callbacks turn the events of a geometry into its constructor calls. A run
over a vector of features therefore collects their translations, whatever size was
declared, and every feature starts with nothing pending from those before it.
-/
namespace S2Geography

open Constructor CollectionConstructor CheckedRun

variable {L Pg : Type} {lib : S2Lib L Pg} {options : Options}

/-- The events up to the end of `es`, and then those of `es'` if all continue. -/
theorem WkHandler.feed_append {σ ρ : Type} (handler : WkHandler σ ρ) (es es' : List WkEvent)
    (s : σ) :
    handler.feed (es ++ es') s = handler.feed es s >>= fun p =>
      if p.1 ≠ .continue then .ok p else handler.feed es' p.2 := by
  induction es generalizing s with
  | nil => rfl
  | cons e es ih =>
    simp only [List.cons_append, WkHandler.feed]
    cases handler.event e s with
    | error fault => rfl
    | ok p =>
      obtain ⟨result, s1⟩ := p
      cases result with
      | «continue» => exact ih s1
      | abort => rfl
      | abortFeature => rfl

namespace BuilderHandler

/-! ### From events to calls -/

/-- Events that cause the calls, whatever doubles a coordinate has before. -/
def Causes (lib : S2Lib L Pg) (options : Options) (coordSize : ℕ) (events : List WkEvent)
    (calls : List HandlerEvent) (coordSize' : ℕ) : Prop :=
  ∀ data : BuilderHandler L Pg, data.coordSize = coordSize →
    (handler lib options).feed events data =
      (CheckedRun.feed (handle lib options) calls data.builder).map fun builder =>
        (.continue, { data with builder, coordSize := coordSize' })

theorem causes_nil (coordSize : ℕ) : Causes lib options coordSize [] [] coordSize := by
  intro data hdata
  subst hdata
  rfl

theorem Causes.append {n n' n'' : ℕ} {events events' : List WkEvent}
    {calls calls' : List HandlerEvent} (h : Causes lib options n events calls n')
    (h' : Causes lib options n' events' calls' n'') :
    Causes lib options n (events ++ events') (calls ++ calls') n'' := by
  intro data hdata
  rw [WkHandler.feed_append, h data hdata, CheckedRun.feed_append]
  cases CheckedRun.feed (handle lib options) calls data.builder with
  | error fault => rfl
  | ok builder => exact h' { data with builder, coordSize := n' } rfl

/-- A callback that makes one call. -/
theorem causes_call {e : WkEvent} {call : HandlerEvent} {n n' : ℕ}
    (h : ∀ data : BuilderHandler L Pg, data.coordSize = n →
      event lib options e data = { data with coordSize := n' }.call lib options call) :
    Causes lib options n [e] [call] n' := by
  intro data hdata
  change event lib options e data >>= _ = _
  rw [h data hdata, feed_singleton, BuilderHandler.call]
  cases handle lib options call data.builder <;> rfl

theorem causes_geometryStart (geom : WkMeta) (n : ℕ) :
    Causes lib options n [.geometryStart geom]
      [.geomStart geom.geometryType (declaredSize geom.size)] geom.coordSize :=
  causes_call fun _ _ => rfl

theorem causes_geometryEnd (geom : WkMeta) (n : ℕ) :
    Causes lib options n [.geometryEnd geom] [.geomEnd] n :=
  causes_call fun data hdata => by subst hdata; rfl

theorem causes_ringStart (geom : WkMeta) (size : Option ℕ) (n : ℕ) :
    Causes lib options n [.ringStart geom size] [.ringStart (declaredSize size)] n :=
  causes_call fun data hdata => by subst hdata; rfl

theorem causes_ringEnd (geom : WkMeta) (size : Option ℕ) (n : ℕ) :
    Causes lib options n [.ringEnd geom size] [.ringEnd] n :=
  causes_call fun data hdata => by subst hdata; rfl

theorem causes_coord (geom : WkMeta) (coord : WkCoord) (n : ℕ) :
    Causes lib options n [.coord geom coord] [.coords coord n] n :=
  causes_call fun data hdata => by subst hdata; rfl

theorem Causes.flatMap {α : Type} {n : ℕ} {events : α → List WkEvent}
    {calls : α → List HandlerEvent} (h : ∀ a, Causes lib options n (events a) (calls a) n)
    (as : List α) : Causes lib options n (as.flatMap events) (as.flatMap calls) n := by
  induction as with
  | nil => exact causes_nil n
  | cons a as ih => exact (h a).append ih

theorem causes_coords (header : WkHeader) (geom : WkMeta) (hgeom : geom.toWkHeader = header)
    (coords : List WkCoord) :
    Causes lib options geom.coordSize (coords.map (.coord geom)) (coordCalls header coords)
      geom.coordSize := by
  subst hgeom
  induction coords with
  | nil => exact causes_nil _
  | cons coord coords ih => exact (causes_coord geom coord geom.coordSize).append ih

theorem causes_ring (header : WkHeader) (geom : WkMeta) (hgeom : geom.toWkHeader = header)
    (ring : WkRing) :
    Causes lib options geom.coordSize (ring.events geom) (ring.calls header) geom.coordSize :=
  (causes_ringStart geom ring.size geom.coordSize).append
    ((causes_coords header geom hgeom ring.coords).append
      (causes_ringEnd geom ring.size geom.coordSize))

/-- Events that cause the calls, and may start geometries with other coordinates. -/
def CausesFrom (lib : S2Lib L Pg) (options : Options) (events : List WkEvent)
    (calls : List HandlerEvent) : Prop :=
  ∀ n, ∃ n', Causes lib options n events calls n'

theorem CausesFrom.append {events events' : List WkEvent} {calls calls' : List HandlerEvent}
    (h : CausesFrom lib options events calls) (h' : CausesFrom lib options events' calls') :
    CausesFrom lib options (events ++ events') (calls ++ calls') := by
  intro n
  obtain ⟨n', hn⟩ := h n
  obtain ⟨n'', hn'⟩ := h' n'
  exact ⟨n'', hn.append hn'⟩

theorem CausesFrom.flatMap {α : Type} {events : α → List WkEvent} {calls : α → List HandlerEvent}
    (h : ∀ a, CausesFrom lib options (events a) (calls a)) (as : List α) :
    CausesFrom lib options (as.flatMap events) (as.flatMap calls) := by
  induction as with
  | nil => exact fun n => ⟨n, causes_nil n⟩
  | cons a as ih => exact (h a).append ih

theorem causesFrom_geometry {header : WkHeader} {geometryType : WkGeometryType}
    {content : WkMeta → List WkEvent} {calls : List HandlerEvent}
    (h : ∀ geom, geom.toWkHeader = header →
      ∃ n', Causes lib options geom.coordSize (content geom) calls n') :
    CausesFrom lib options (geometryEvents header geometryType content)
      (geometryCalls header geometryType calls) := by
  intro n
  obtain ⟨n', hn⟩ := h { header with geometryType } rfl
  exact ⟨n', (causes_geometryStart _ n).append (hn.append (causes_geometryEnd _ n'))⟩

theorem causesFrom_path (geometryType : WkGeometryType) (path : WkPath) :
    CausesFrom lib options (path.events geometryType) (path.calls geometryType) :=
  causesFrom_geometry fun geom hgeom => ⟨_, causes_coords path.header geom hgeom path.coords⟩

theorem causesFrom_polygon (polygon : WkPolygon) :
    CausesFrom lib options polygon.events polygon.calls :=
  causesFrom_geometry fun geom hgeom =>
    ⟨_, Causes.flatMap (causes_ring polygon.header geom hgeom) polygon.rings⟩

mutual

theorem causesFrom_events (lib : S2Lib L Pg) (options : Options) :
    (geometry : WkGeometry) → CausesFrom lib options geometry.events geometry.calls
  | .point path => causesFrom_path _ path
  | .linestring path => causesFrom_path _ path
  | .polygon rings => causesFrom_polygon rings
  | .multipoint _ points =>
    causesFrom_geometry fun _ _ => CausesFrom.flatMap (causesFrom_path _) points _
  | .multilinestring _ linestrings =>
    causesFrom_geometry fun _ _ => CausesFrom.flatMap (causesFrom_path _) linestrings _
  | .multipolygon _ polygons =>
    causesFrom_geometry fun _ _ => CausesFrom.flatMap causesFrom_polygon polygons _
  | .geometrycollection _ members =>
    causesFrom_geometry fun _ _ => causesFrom_eventsAll lib options members _

theorem causesFrom_eventsAll (lib : S2Lib L Pg) (options : Options) :
    (members : List WkGeometry) →
    CausesFrom lib options (WkGeometry.eventsAll members) (WkGeometry.callsAll members)
  | [] => fun n => ⟨n, causes_nil n⟩
  | member :: members =>
    (causesFrom_events lib options member).append (causesFrom_eventsAll lib options members)

end

/-! ### One feature after the other -/

/-- The results so far, and nothing pending in the builder. -/
structure Collected (results : List (Option (Geography Pg))) (data : BuilderHandler L Pg) :
    Prop where
  drained : Drained data.builder
  featId : data.featId = results.length
  result : (data.result.getD []).take results.length = results

theorem resultAppend_result {results : List (Option (Geography Pg))} {data : BuilderHandler L Pg}
    (hid : data.featId = results.length)
    (hresult : (data.result.getD []).take results.length = results)
    (value : Option (Geography Pg)) :
    ((data.resultAppend value).result.getD []).take (results.length + 1) = results ++ [value] := by
  let current := data.result.getD []
  let grown := if current.length ≤ data.featId then
    current ++ List.replicate (current.length + 1) none else current
  have hsplit : current = results ++ current.drop results.length := by
    conv_lhs => rw [← List.take_append_drop results.length current, hresult]
  have hgrown : ∃ old rest, grown = results ++ old :: rest := by
    by_cases hlength : current.length ≤ data.featId
    · have hdrop : current.drop results.length = [] := List.drop_eq_nil_of_le (by omega)
      rw [hdrop, List.append_nil] at hsplit
      refine ⟨none, List.replicate current.length none, ?_⟩
      simp only [grown, if_pos hlength, List.replicate_succ]
      rw [← hsplit]
    · cases hdrop : current.drop results.length with
      | nil =>
        have hle := List.drop_eq_nil_iff.mp hdrop
        omega
      | cons old rest =>
        refine ⟨old, rest, ?_⟩
        simp only [grown, if_neg hlength]
        rw [← hdrop]
        exact hsplit
  obtain ⟨old, rest, hgrown⟩ := hgrown
  change (grown.set data.featId value).take (results.length + 1) = _
  rw [hgrown, hid, List.set_append_right _ _ (le_refl _), Nat.sub_self, List.set_cons_zero,
    List.take_length_add_append]
  rfl

theorem Collected.resultAppend {results : List (Option (Geography Pg))}
    {data : BuilderHandler L Pg} (h : Collected results data) (value : Option (Geography Pg)) :
    Collected (results ++ [value]) (data.resultAppend value) where
  drained := h.drained
  featId := by
    rw [List.length_append, BuilderHandler.resultAppend, h.featId]
    rfl
  result := by
    rw [List.length_append]
    exact resultAppend_result h.featId h.result value

theorem featureStart_of_collected (lib : S2Lib L Pg) (options : Options)
    {results : List (Option (Geography Pg))} {data : BuilderHandler L Pg}
    (h : Collected results data) :
    ∃ data', featureStart lib options data = .ok (.continue, data') ∧ Collected results data' ∧
      data'.builder.Ready ∧ data'.builder.features = [] := by
  obtain ⟨c, hstart, hready, hfeatures⟩ :=
    featStart_ready lib options h.drained
  refine ⟨{ data with builder := c }, ?_, ?_, hready, hfeatures⟩
  · rw [featureStart, hstart]
    rfl
  · exact ⟨hready.drained hfeatures, h.featId, h.result⟩

theorem readFeature_none (lib : S2Lib L Pg) (options : Options)
    {results : List (Option (Geography Pg))} {data : BuilderHandler L Pg}
    (h : Collected results data) :
    ∃ data', (handler lib options).readFeature WkGeometry.events none data =
        .ok (.abortFeature, data') ∧ Collected (results ++ [none]) data' := by
  obtain ⟨started, hstart, hcollected, -, -⟩ := featureStart_of_collected lib options h
  refine ⟨started.resultAppend none, ?_, hcollected.resultAppend none⟩
  change (featureStart lib options data >>= _) = _
  rw [hstart]
  rfl

theorem readFeature_some (hinf : options.tessellateTolerance = none) (geometry : WkGeometry)
    {results : List (Option (Geography Pg))} {data : BuilderHandler L Pg}
    (h : Collected results data) :
    Ends (geometry.check lib options)
      (fun p => p.1 ≠ .abort ∧
        Collected (results ++ [some (geometry.translate lib options)]) p.2)
      ((handler lib options).readFeature WkGeometry.events (some geometry) data) := by
  obtain ⟨started, hstart, hcollected, hready, hfeatures⟩ := featureStart_of_collected lib options h
  obtain ⟨n, hcauses⟩ := causesFrom_events lib options geometry started.coordSize
  have hread : (handler lib options).readFeature WkGeometry.events (some geometry) data =
      CheckedRun.feed (handle lib options) geometry.calls started.builder >>= fun builder =>
        featureEnd lib options { started with builder, coordSize := n } := by
    change (featureStart lib options data >>= _) = _
    rw [hstart]
    change ((handler lib options).feed geometry.events started >>= _) = _
    rw [hcauses started rfl, map_bind]
    rfl
  rw [hread]
  refine (feed_calls hinf geometry hready).then fun c hc => ?_
  have hmember : c.features = [geometry.translate lib options] := by rw [hc.2, hfeatures]; rfl
  obtain ⟨c', hfinish, hdrained⟩ := finishFeature_of_ready lib options hc.1 hmember
  rw [featureEnd, hfinish]
  have hfinished : Collected results { started with builder := c', coordSize := n } :=
    ⟨hdrained, hcollected.featId, hcollected.result⟩
  exact ends_ok ⟨by simp, hfinished.resultAppend _⟩

/-- One feature: its result is collected, and nothing of it stays. -/
theorem readFeature_ends (hinf : options.tessellateTolerance = none) (item : Option WkGeometry)
    {results : List (Option (Geography Pg))} {data : BuilderHandler L Pg}
    (h : Collected results data) :
    Ends (checkFeature lib options item)
      (fun p => p.1 ≠ .abort ∧
        Collected (results ++ [item.map (WkGeometry.translate lib options)]) p.2)
      ((handler lib options).readFeature WkGeometry.events item data) := by
  cases item with
  | none =>
    obtain ⟨data', hread, hdata'⟩ := readFeature_none lib options h
    rw [hread]
    exact ends_ok ⟨by simp, hdata'⟩
  | some geometry => exact readFeature_some hinf geometry h

theorem readFeatures_ends (hinf : options.tessellateTolerance = none)
    (features : List (Option WkGeometry)) {results : List (Option (Geography Pg))}
    {data : BuilderHandler L Pg} (h : Collected results data) :
    Ends (checkFeatures lib options features)
      (Collected (results ++ features.map (Option.map (WkGeometry.translate lib options))))
      ((handler lib options).readFeatures WkGeometry.events features data) := by
  induction features generalizing results data with
  | nil => exact ends_ok (by simpa using h)
  | cons item features ih =>
    rw [WkHandler.readFeatures, checkFeatures]
    refine (readFeature_ends hinf item h).bind fun p hp => ?_
    obtain ⟨hcontinue, hcollected⟩ := hp
    have hrest := ih hcollected
    rw [List.append_assoc] at hrest
    simp only [if_neg hcontinue]
    exact hrest

theorem new_drained : (CollectionConstructor.new : CollectionConstructor L Pg).Drained :=
  .intro _ rfl ⟨rfl, rfl⟩ ⟨rfl, rfl⟩ rfl fun _ h => nomatch h

/-- A new handler's list of missing features, of the declared size. -/
def allocated (size : Option ℕ) : BuilderHandler L Pg :=
  { new with result := some (List.replicate (size.getD 1024) none) }

theorem allocated_collected (size : Option ℕ) :
    Collected [] (allocated size : BuilderHandler L Pg) :=
  ⟨new_drained, rfl, rfl⟩

/-- The importer over a whole vector: it fails as the check of the features does, or
returns their translations. -/
theorem handleVector_ends (hinf : options.tessellateTolerance = none) (size : Option ℕ)
    (features : List (Option WkGeometry)) :
    Ends (checkFeatures lib options features)
      (fun result => result = features.map (Option.map (WkGeometry.translate lib options)))
      ((handler lib options).handleVector WkGeometry.events size features new) := by
  change Ends _ _ ((handler lib options).readFeatures WkGeometry.events features (allocated size)
    >>= _)
  refine (readFeatures_ends hinf features (allocated_collected size)).then fun data hdata => ?_
  refine ends_ok ?_
  rw [resultFinalize, hdata.featId]
  exact hdata.result

/-- Loops that are their vertices and polygons that are their loops, all of them valid. -/
def vertexLib : S2Lib (List S2Point) (List (List S2Point)) :=
  ⟨id, id, fun _ => none, id, id, fun _ => none⟩

end BuilderHandler

end S2Geography
