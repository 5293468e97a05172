import S2Geography.GeographyOperator
import S2Geography.Geography

/-!
# wk events

A reader tells a handler about a vector of features through events: the start and end of
each geometry and ring, and the coordinates between them. Part, ring and coordinate
numbers, which no handler of this package reads, are left out of the events.
-/
namespace S2Geography

/-- `wk_geometry_type`, numbered as `util::GeometryType`. -/
inductive WkGeometryType where
  | geometry
  | point
  | linestring
  | polygon
  | multipoint
  | multilinestring
  | multipolygon
  | geometrycollection
  deriving DecidableEq, Repr

/-- What `wk_meta_t` says besides the type. A missing size is `WK_SIZE_UNKNOWN`. -/
structure WkHeader where
  size : Option ℕ
  hasZ : Bool
  hasM : Bool
  deriving DecidableEq, Repr

structure WkMeta extends WkHeader where
  geometryType : WkGeometryType
  deriving DecidableEq, Repr

/-- The buffer of four doubles that holds a coordinate, whatever its dimensions. -/
structure WkCoord where
  c0 : Double
  c1 : Double
  c2 : Double
  c3 : Double
  deriving DecidableEq, Repr

inductive WkEvent where
  | geometryStart (geom : WkMeta)
  | ringStart (geom : WkMeta) (size : Option ℕ)
  | coord (geom : WkMeta) (coord : WkCoord)
  | ringEnd (geom : WkMeta) (size : Option ℕ)
  | geometryEnd (geom : WkMeta)
  | error (message : String)
  deriving DecidableEq, Repr

def WkEvent.isError : WkEvent → Bool
  | .error _ => true
  | _ => false

/-- `WK_CONTINUE`, `WK_ABORT` and `WK_ABORT_FEATURE`. -/
inductive WkResult where
  | continue
  | abort
  | abortFeature
  deriving DecidableEq, Repr

/-- The callbacks of a `wk_handler_t` over its data. An R error is a fault. -/
structure WkHandler (σ ρ : Type) where
  vectorStart : Option ℕ → σ → Except Fault (WkResult × σ)
  featureStart : σ → Except Fault (WkResult × σ)
  nullFeature : σ → Except Fault (WkResult × σ)
  event : WkEvent → σ → Except Fault (WkResult × σ)
  featureEnd : σ → Except Fault (WkResult × σ)
  vectorEnd : σ → Except Fault ρ

namespace WkHandler

variable {σ ρ F : Type}

/-- Events up to the first that does not continue, as `HANDLE_OR_RETURN`. -/
def feed (handler : WkHandler σ ρ) : List WkEvent → σ → Except Fault (WkResult × σ)
  | [], s => .ok (.continue, s)
  | e :: es, s => do
    let (result, s) ← handler.event e s
    if result ≠ .continue then return (result, s)
    feed handler es s

/-- One feature, from a reader that delivers it as the events `emit` gives. What is not to
be continued ends the feature early. -/
def readFeature (handler : WkHandler σ ρ) (emit : F → List WkEvent) (item : Option F) (s : σ) :
    Except Fault (WkResult × σ) := do
  let (result, s) ← handler.featureStart s
  if result ≠ .continue then return (result, s)
  let (result, s) ←
    match item with
    | none => handler.nullFeature s
    | some feature => handler.feed (emit feature) s
  if result ≠ .continue then return (result, s)
  handler.featureEnd s

/-- The loop of `handle_geography_templ`: `WK_ABORT_FEATURE` goes on with the next feature,
`WK_ABORT` breaks. -/
def readFeatures (handler : WkHandler σ ρ) (emit : F → List WkEvent) :
    List (Option F) → σ → Except Fault σ
  | [], s => .ok s
  | item :: features, s => do
    let (result, s) ← handler.readFeature emit item s
    if result = .abort then return s
    readFeatures handler emit features s

/-- `handle_geography_templ`: a vector of features of the declared size. -/
def handleVector (handler : WkHandler σ ρ) (emit : F → List WkEvent) (size : Option ℕ)
    (features : List (Option F)) (s : σ) : Except Fault ρ := do
  let (result, s) ← handler.vectorStart size s
  let s ← if result = .continue then handler.readFeatures emit features s else .ok s
  handler.vectorEnd s

/-- It does not matter where the events of the features are computed. -/
theorem readFeatures_map {G : Type} (handler : WkHandler σ ρ) (emit : F → List WkEvent)
    (f : G → F) (items : List (Option G)) (s : σ) :
    handler.readFeatures emit (items.map (Option.map f)) s =
      handler.readFeatures (fun item => emit (f item)) items s := by
  induction items generalizing s with
  | nil => rfl
  | cons item items ih =>
    have hfeature : handler.readFeature emit (item.map f) s =
        handler.readFeature (fun item => emit (f item)) item s := by
      cases item <;> rfl
    simp only [List.map_cons, readFeatures, hfeature, ih]

theorem handleVector_map {G : Type} (handler : WkHandler σ ρ) (emit : F → List WkEvent)
    (f : G → F) (size : Option ℕ) (items : List (Option G)) (s : σ) :
    handler.handleVector emit size (items.map (Option.map f)) s =
      handler.handleVector (fun item => emit (f item)) size items s := by
  simp only [handleVector, readFeatures_map]

end WkHandler

/-- A geometry whose coordinates follow its start: POINT or LINESTRING. -/
structure WkPath where
  header : WkHeader
  coords : List WkCoord

structure WkRing where
  size : Option ℕ
  coords : List WkCoord

structure WkPolygon where
  header : WkHeader
  rings : List WkRing

/-- A geometry as a reader meets it. Declared sizes need not be true. -/
inductive WkGeometry where
  | point (path : WkPath)
  | linestring (path : WkPath)
  | polygon (rings : WkPolygon)
  | multipoint (header : WkHeader) (points : List WkPath)
  | multilinestring (header : WkHeader) (linestrings : List WkPath)
  | multipolygon (header : WkHeader) (polygons : List WkPolygon)
  | geometrycollection (header : WkHeader) (members : List WkGeometry)

/-- The events of a geometry around those of its content. -/
def geometryEvents (header : WkHeader) (geometryType : WkGeometryType)
    (content : WkMeta → List WkEvent) : List WkEvent :=
  let geom : WkMeta := { header with geometryType }
  .geometryStart geom :: (content geom ++ [.geometryEnd geom])

def WkPath.events (path : WkPath) (geometryType : WkGeometryType) : List WkEvent :=
  geometryEvents path.header geometryType fun geom => path.coords.map (.coord geom)

def WkRing.events (ring : WkRing) (geom : WkMeta) : List WkEvent :=
  .ringStart geom ring.size :: (ring.coords.map (.coord geom) ++ [.ringEnd geom ring.size])

def WkPolygon.events (polygon : WkPolygon) : List WkEvent :=
  geometryEvents polygon.header .polygon fun geom => polygon.rings.flatMap (·.events geom)

namespace WkGeometry

mutual

/-- The events a reader delivers for a geometry. -/
def events : WkGeometry → List WkEvent
  | point path => path.events .point
  | linestring path => path.events .linestring
  | polygon rings => rings.events
  | multipoint header points =>
    geometryEvents header .multipoint fun _ => points.flatMap (·.events .point)
  | multilinestring header linestrings =>
    geometryEvents header .multilinestring fun _ => linestrings.flatMap (·.events .linestring)
  | multipolygon header polygons =>
    geometryEvents header .multipolygon fun _ => polygons.flatMap (·.events)
  | geometrycollection header members =>
    geometryEvents header .geometrycollection fun _ => eventsAll members

def eventsAll : List WkGeometry → List WkEvent
  | [] => []
  | member :: members => events member ++ eventsAll members

end

end WkGeometry

end S2Geography
