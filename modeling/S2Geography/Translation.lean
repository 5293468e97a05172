import S2Geography.CheckedRun
import S2Geography.Importer

/-!
# The translation of a geometry

What geography a geometry stands for, and which exceptions the constructors may raise on
it, both by recursion on the geometry. The constructors' runs over the calls a geometry
causes are compared with these.
-/
namespace S2Geography

open Constructor CheckedRun

variable {L Pg : Type}

/-! ### The calls a geometry causes -/

def geometryCalls (header : WkHeader) (geometryType : WkGeometryType)
    (content : List HandlerEvent) : List HandlerEvent :=
  .geomStart geometryType (declaredSize header.size) :: (content ++ [.geomEnd])

def coordCalls (header : WkHeader) (coords : List WkCoord) : List HandlerEvent :=
  coords.map (.coords · header.coordSize)

def WkPath.calls (path : WkPath) (geometryType : WkGeometryType) : List HandlerEvent :=
  geometryCalls path.header geometryType (coordCalls path.header path.coords)

def WkRing.calls (ring : WkRing) (header : WkHeader) : List HandlerEvent :=
  .ringStart (declaredSize ring.size) :: (coordCalls header ring.coords ++ [.ringEnd])

def WkPolygon.calls (polygon : WkPolygon) : List HandlerEvent :=
  geometryCalls polygon.header .polygon (polygon.rings.flatMap (·.calls polygon.header))

namespace WkGeometry

mutual

/-- The constructor calls for a geometry, see `resolve_events`. -/
def calls : WkGeometry → List HandlerEvent
  | point path => path.calls .point
  | linestring path => path.calls .linestring
  | polygon rings => rings.calls
  | multipoint header points =>
    geometryCalls header .multipoint (points.flatMap (·.calls .point))
  | multilinestring header linestrings =>
    geometryCalls header .multilinestring (linestrings.flatMap (·.calls .linestring))
  | multipolygon header polygons =>
    geometryCalls header .multipolygon (polygons.flatMap (·.calls))
  | geometrycollection header members =>
    geometryCalls header .geometrycollection (callsAll members)

def callsAll : List WkGeometry → List HandlerEvent
  | [] => []
  | member :: members => calls member ++ callsAll members

end

end WkGeometry

/-! ### The geography a geometry stands for -/

def WkPath.inputPoints (path : WkPath) : List S2Point :=
  path.coords.map (inputPoint · path.header.coordSize)

def WkPolygon.inputRings (polygon : WkPolygon) : List (List S2Point) :=
  polygon.rings.map fun ring => ring.coords.map (inputPoint · polygon.header.coordSize)

def unprojectPoint (options : Options) (pt : S2Point) : S2Point :=
  match options.projection with
  | none => pt
  | some projection => projection.unproject ⟨pt.x, pt.y⟩

/-- The points without a missing ordinate. -/
def translatePoints (options : Options) (points : List WkPath) : List S2Point :=
  points.flatMap fun path =>
    (path.coords.filter fun coord => !coordEmpty coord path.header.coordSize).map (pointOf options)

/-- The linestrings that have vertices. -/
def translatePolylines (options : Options) (linestrings : List WkPath) : List (List S2Point) :=
  ((linestrings.map (·.inputPoints)).filter (!·.isEmpty)).map (·.map (unprojectPoint options))

/-- The loops of the rings that are not empty. -/
def translateRings (lib : S2Lib L Pg) (options : Options) (rings : List (List S2Point)) : List L :=
  (rings.filter (!·.isEmpty)).map fun ring =>
    makeLoop lib options (ring.map (unprojectPoint options))

def translatePolygons (lib : S2Lib L Pg) (options : Options) (polygons : List WkPolygon) : Pg :=
  makePolygon lib options (translateRings lib options (polygons.flatMap (·.inputRings)))

namespace WkGeometry

mutual

/-- The geography with the structure of the geometry. -/
def translate (lib : S2Lib L Pg) (options : Options) : WkGeometry → Geography Pg
  | point path => .point (translatePoints options [path])
  | multipoint _ points => .point (translatePoints options points)
  | linestring path => .polyline (translatePolylines options [path])
  | multilinestring _ linestrings => .polyline (translatePolylines options linestrings)
  | polygon rings => .polygon (translatePolygons lib options [rings])
  | multipolygon _ polygons => .polygon (translatePolygons lib options polygons)
  | geometrycollection _ members => .collection (translateAll lib options members)

def translateAll (lib : S2Lib L Pg) (options : Options) : List WkGeometry → List (Geography Pg)
  | [] => []
  | member :: members => translate lib options member :: translateAll lib options members

end

end WkGeometry

/-! ### The exceptions a geometry may cause -/

/-- Points that are to be unprojected must be numbers. -/
def checkPoints (options : Options) (pts : List S2Point) : Except Fault Unit :=
  if options.projection.isSome && pts.any (fun pt => pt.x.isNaN || pt.y.isNaN) then
    .error (.stop "Can't unproject point with nan to S2Point")
  else .ok ()

def checkPolylines (options : Options) : List WkPath → Except Fault Unit
  | [] => .ok ()
  | path :: paths => do
    checkPoints options path.inputPoints
    checkPolylines options paths

/-- A ring after `count` stored loops. -/
def checkRing (lib : S2Lib L Pg) (options : Options) (count : ℕ) (ring : List S2Point) :
    Except Fault Unit := do
  checkPoints options ring
  if ring.isEmpty then .ok ()
  else checkLoop lib options count (makeLoop lib options (ring.map (unprojectPoint options)))

def checkRings (lib : S2Lib L Pg) (options : Options) : ℕ → List (List S2Point) → Except Fault Unit
  | _, [] => .ok ()
  | count, ring :: rings => do
    checkRing lib options count ring
    checkRings lib options (if ring.isEmpty then count else count + 1) rings

def checkPolygons (lib : S2Lib L Pg) (options : Options) (polygons : List WkPolygon) :
    Except Fault Unit := do
  checkRings lib options 0 (polygons.flatMap (·.inputRings))
  checkPolygon lib options (translatePolygons lib options polygons)

namespace WkGeometry

mutual

def check (lib : S2Lib L Pg) (options : Options) : WkGeometry → Except Fault Unit
  | point _ | multipoint _ _ => .ok ()
  | linestring path => checkPolylines options [path]
  | multilinestring _ linestrings => checkPolylines options linestrings
  | polygon rings => checkPolygons lib options [rings]
  | multipolygon _ polygons => checkPolygons lib options polygons
  | geometrycollection _ members => checkAll lib options members

def checkAll (lib : S2Lib L Pg) (options : Options) : List WkGeometry → Except Fault Unit
  | [] => .ok ()
  | member :: members => do
    check lib options member
    checkAll lib options members

end

end WkGeometry

/-- A missing feature causes none. -/
def checkFeature (lib : S2Lib L Pg) (options : Options) : Option WkGeometry → Except Fault Unit
  | none => .ok ()
  | some geometry => geometry.check lib options

def checkFeatures (lib : S2Lib L Pg) (options : Options) :
    List (Option WkGeometry) → Except Fault Unit
  | [] => .ok ()
  | item :: features => do
    checkFeature lib options item
    checkFeatures lib options features

end S2Geography
