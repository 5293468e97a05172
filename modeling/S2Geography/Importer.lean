import S2Geography.Constructor

/-!
# The importer

`s2_geography_writer()`: a wk handler that passes the events of a feature on to a
`FeatureConstructor` and collects the finished geographies in a list, in which a missing
feature is NULL.
-/
namespace S2Geography

open Constructor

variable {L Pg : Type}

/-- The doubles of a coordinate, by the flags of the geometry. -/
def WkHeader.coordSize (header : WkHeader) : ℕ :=
  if header.hasZ && header.hasM then 4
  else if header.hasZ then 3
  else if header.hasM then 3
  else 2

/-- A size that is not known is passed on as -1. -/
def declaredSize : Option ℕ → ℤ
  | none => -1
  | some size => size

/-- `builder_handler_t`; the result is `R_NilValue` before it is allocated. -/
structure BuilderHandler (L Pg : Type) where
  builder : CollectionConstructor L Pg
  result : Option (List (Option (Geography Pg)))
  featId : ℕ
  coordSize : ℕ

namespace BuilderHandler

/-- `c_s2_geography_writer_new`. -/
def new : BuilderHandler L Pg := ⟨.new, none, 0, 2⟩

/-- `builder_result_append`: a full list is first copied to one of twice the size plus one. -/
def resultAppend (value : Option (Geography Pg)) (data : BuilderHandler L Pg) :
    BuilderHandler L Pg :=
  let result := data.result.getD []
  let result :=
    if result.length ≤ data.featId then
      result ++ List.replicate (result.length + 1) none
    else result
  { data with result := some (result.set data.featId value), featId := data.featId + 1 }

/-- `builder_result_finalize`. -/
def resultFinalize (data : BuilderHandler L Pg) : List (Option (Geography Pg)) :=
  (data.result.getD []).take data.featId

def vectorStart (size : Option ℕ) (data : BuilderHandler L Pg) :
    Except Fault (WkResult × BuilderHandler L Pg) :=
  match data.result with
  | some _ => .error (.stop "Destination vector was already allocated")
  | none =>
    let result := List.replicate (size.getD 1024) none
    .ok (.continue, { data with result := some result, featId := 0 })

def featureStart (lib : S2Lib L Pg) (options : Options) (data : BuilderHandler L Pg) :
    Except Fault (WkResult × BuilderHandler L Pg) := do
  let builder ← featStart lib options data.builder
  return (.continue, { data with builder })

def nullFeature (data : BuilderHandler L Pg) :
    Except Fault (WkResult × BuilderHandler L Pg) :=
  .ok (.abortFeature, data.resultAppend none)

def featureEnd (lib : S2Lib L Pg) (options : Options) (data : BuilderHandler L Pg) :
    Except Fault (WkResult × BuilderHandler L Pg) := do
  let (feat, builder) ← finishFeature lib options data.builder
  return (.continue, { data with builder }.resultAppend (some feat))

/-- A call on the builder. -/
def call (lib : S2Lib L Pg) (options : Options) (e : HandlerEvent) (data : BuilderHandler L Pg) :
    Except Fault (WkResult × BuilderHandler L Pg) := do
  let builder ← data.builder.handle lib options e
  return (.continue, { data with builder })

/-- `builder_geometry_start`, `builder_ring_start`, `builder_coord`, `builder_ring_end`,
`builder_geometry_end` and `builder_error`. -/
def event (lib : S2Lib L Pg) (options : Options) :
    WkEvent → BuilderHandler L Pg → Except Fault (WkResult × BuilderHandler L Pg)
  | .geometryStart geom, data =>
    { data with coordSize := geom.coordSize }.call lib options
      (.geomStart geom.geometryType (declaredSize geom.size))
  | .ringStart _ size, data => data.call lib options (.ringStart (declaredSize size))
  | .coord _ coord, data => data.call lib options (.coords coord data.coordSize)
  | .ringEnd _ _, data => data.call lib options .ringEnd
  | .geometryEnd _, data => data.call lib options .geomEnd
  | .error message, _ => .error (.stop message)

/-- The callbacks of the handler that `c_s2_geography_writer_new` makes. -/
def handler (lib : S2Lib L Pg) (options : Options) :
    WkHandler (BuilderHandler L Pg) (List (Option (Geography Pg))) where
  vectorStart := vectorStart
  featureStart := featureStart lib options
  nullFeature := nullFeature
  event := event lib options
  featureEnd := featureEnd lib options
  vectorEnd := fun data => .ok data.resultFinalize

end BuilderHandler

end S2Geography
