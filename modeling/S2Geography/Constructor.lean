import S2Geography.WkEvents

/-!
# Constructors

A constructor receives the starts and ends of geometries and rings and the coordinates
between them, and builds a geography. `CollectionConstructor` forwards everything inside
a member to one of three simple constructors, or to a nested collection constructor that
it creates when a collection starts; a level counter tells it when a member ends.
-/
namespace S2Geography.Constructor

variable {L Pg : Type}

/-- `S2::Projection`, with the edges of a tessellator for it at a given tolerance. -/
structure Projection where
  unproject : R2Point → S2Point
  appendUnprojected : Double → R2Point → R2Point → List S2Point → Except Fault (List S2Point)

/-- `Constructor::Options`; no tolerance stands for `S1Angle::Infinity()`. -/
structure Options where
  oriented : Bool
  check : Bool
  projection : Option Projection
  tessellateTolerance : Option Double

/-- What the constructors use of `S2Loop` and `S2Polygon`. -/
structure S2Lib (L Pg : Type) where
  initLoop : List S2Point → L
  normalize : L → L
  /-- `FindValidationError`, nothing where `IsValid`. -/
  loopError : L → Option String
  initOriented : List L → Pg
  initNested : List L → Pg
  polygonError : Pg → Option String

/-- The calls on a constructor; the importer passes coordinates one at a time. -/
inductive HandlerEvent where
  | geomStart (geometryType : WkGeometryType) (size : ℤ)
  | ringStart (size : ℤ)
  | coords (coord : WkCoord) (coordSize : ℕ)
  | ringEnd
  | geomEnd
  deriving DecidableEq, Repr

/-- `Constructor::coords`: the point it appends to `input_points_`. -/
def inputPoint (coord : WkCoord) (coordSize : ℕ) : S2Point :=
  if coordSize = 3 then ⟨coord.c0, coord.c1, coord.c2⟩ else ⟨coord.c0, coord.c1, .zero⟩

def unprojectPoints (projection : Projection) : List S2Point → Except Fault (List S2Point)
  | [] => .ok []
  | pt :: pts =>
    if pt.x.isNaN || pt.y.isNaN then
      .error (.stop "Can't unproject point with nan to S2Point")
    else do
      let points ← unprojectPoints projection pts
      return projection.unproject ⟨pt.x, pt.y⟩ :: points

/-- The tessellated edges between consecutive input points. -/
def tessellate (projection : Projection) (tolerance : Double) :
    List S2Point → List S2Point → Except Fault (List S2Point)
  | pt0 :: pt1 :: pts, points => do
    let points ←
      projection.appendUnprojected tolerance ⟨pt0.x, pt0.y⟩ ⟨pt1.x, pt1.y⟩ points
    tessellate projection tolerance (pt1 :: pts) points
  | _, points => .ok points

/-- `finish_points`: what `points_` holds afterwards; `input_points_` is cleared. -/
def finishPoints (options : Options) (inputPoints : List S2Point) :
    Except Fault (List S2Point) :=
  match options.projection with
  | none => .ok inputPoints
  | some projection =>
    match options.tessellateTolerance with
    | some tolerance => tessellate projection tolerance inputPoints []
    | none => unprojectPoints projection inputPoints

/-! ### The simple constructors -/

structure PointConstructor where
  points : List S2Point

/-- `coord_empty`. -/
def coordEmpty (coord : WkCoord) (coordSize : ℕ) : Bool :=
  ([coord.c0, coord.c1, coord.c2, coord.c3].take coordSize).any Double.isNaN

def pointOf (options : Options) (coord : WkCoord) : S2Point :=
  match options.projection with
  | none => ⟨coord.c0, coord.c1, coord.c2⟩
  | some projection => projection.unproject ⟨coord.c0, coord.c1⟩

def PointConstructor.handle (options : Options) :
    HandlerEvent → PointConstructor → Except Fault PointConstructor
  | .geomStart geometryType size, c =>
    if size ≠ 0 ∧ geometryType ≠ .point ∧ geometryType ≠ .multipoint ∧
        geometryType ≠ .geometrycollection then
      .error (.stop "PointConstructor input must be empty, point, multipoint, or collection")
    else .ok c
  | .coords coord coordSize, c =>
    if coordEmpty coord coordSize then .ok c
    else .ok { c with points := c.points ++ [pointOf options coord] }
  | _, c => .ok c

def PointConstructor.finish (c : PointConstructor) : Geography Pg × PointConstructor :=
  (.point c.points, { c with points := [] })

structure PolylineConstructor where
  inputPoints : List S2Point
  points : List S2Point
  polylines : List (List S2Point)

def PolylineConstructor.handle (options : Options) :
    HandlerEvent → PolylineConstructor → Except Fault PolylineConstructor
  | .geomStart geometryType size, c =>
    if size ≠ 0 ∧ geometryType ≠ .linestring ∧ geometryType ≠ .multilinestring ∧
        geometryType ≠ .geometrycollection then
      .error (.stop ("PolylineConstructor input must be empty, linestring, " ++
        "multilinestring, or collection"))
    else .ok c
  | .coords coord coordSize, c =>
    .ok { c with inputPoints := c.inputPoints ++ [inputPoint coord coordSize] }
  | .geomEnd, c => do
    let points ← finishPoints options c.inputPoints
    let polylines := if points.isEmpty then c.polylines else c.polylines ++ [points]
    return ⟨[], points, polylines⟩
  | _, c => .ok c

def PolylineConstructor.finish (c : PolylineConstructor) : Geography Pg × PolylineConstructor :=
  (.polyline c.polylines, { c with polylines := [] })

structure PolygonConstructor (L : Type) where
  inputPoints : List S2Point
  points : List S2Point
  loops : List L

/-- The loop `ring_end` makes of a ring's points, of which the last closes the ring. -/
def makeLoop (lib : S2Lib L Pg) (options : Options) (points : List S2Point) : L :=
  let loop := lib.initLoop points.dropLast
  if options.oriented then loop else lib.normalize loop

/-- The check of `ring_end` on the loop it is about to store after `count` others. -/
def checkLoop (lib : S2Lib L Pg) (options : Options) (count : ℕ) (loop : L) :
    Except Fault Unit :=
  match options.check, lib.loopError loop with
  | true, some text => .error (.stop ("Loop " ++ toString count ++ " is not valid: " ++ text))
  | _, _ => .ok ()

def PolygonConstructor.handle (lib : S2Lib L Pg) (options : Options) :
    HandlerEvent → PolygonConstructor L → Except Fault (PolygonConstructor L)
  | .ringStart _, c => .ok { c with inputPoints := [] }
  | .coords coord coordSize, c =>
    .ok { c with inputPoints := c.inputPoints ++ [inputPoint coord coordSize] }
  | .ringEnd, c => do
    let points ← finishPoints options c.inputPoints
    if points.isEmpty then return { c with inputPoints := [], points }
    let loop := makeLoop lib options points
    checkLoop lib options c.loops.length loop
    return ⟨[], [], c.loops ++ [loop]⟩
  | _, c => .ok c

def makePolygon (lib : S2Lib L Pg) (options : Options) (loops : List L) : Pg :=
  if options.oriented then lib.initOriented loops else lib.initNested loops

def checkPolygon (lib : S2Lib L Pg) (options : Options) (polygon : Pg) : Except Fault Unit :=
  match options.check, lib.polygonError polygon with
  | true, some text => .error (.stop text)
  | _, _ => .ok ()

def PolygonConstructor.finish (lib : S2Lib L Pg) (options : Options)
    (c : PolygonConstructor L) : Except Fault (Geography Pg × PolygonConstructor L) := do
  let polygon := makePolygon lib options c.loops
  checkPolygon lib options polygon
  return (.polygon polygon, { c with loops := [] })

/-! ### Collections -/

/-- What `active_constructor_` may point to. -/
inductive Active where
  | point
  | polyline
  | polygon
  | collection
  deriving DecidableEq, Repr

structure CollectionConstructor (L Pg : Type) where
  pointConstructor : PointConstructor
  polylineConstructor : PolylineConstructor
  polygonConstructor : PolygonConstructor L
  collectionConstructor : Option (CollectionConstructor L Pg)
  activeConstructor : Option Active
  level : ℤ
  features : List (Geography Pg)

namespace CollectionConstructor

/-- A new constructor. The source leaves `active_constructor_` unset; the first call, the
start of a collection, sets it. -/
def new : CollectionConstructor L Pg where
  pointConstructor := ⟨[]⟩
  polylineConstructor := ⟨[], [], []⟩
  polygonConstructor := ⟨[], [], []⟩
  collectionConstructor := none
  activeConstructor := none
  level := 0
  features := []

/-- A call passed on to the active constructor, given what it does to the nested one. -/
def forward (lib : S2Lib L Pg) (options : Options) (e : HandlerEvent)
    (nested : Option (Except Fault (CollectionConstructor L Pg)))
    (c : CollectionConstructor L Pg) : Except Fault (CollectionConstructor L Pg) :=
  match c.activeConstructor with
  | none => .error .nullDereference
  | some .point => do
    let pointConstructor ← c.pointConstructor.handle options e
    return { c with pointConstructor }
  | some .polyline => do
    let polylineConstructor ← c.polylineConstructor.handle options e
    return { c with polylineConstructor }
  | some .polygon => do
    let polygonConstructor ← c.polygonConstructor.handle lib options e
    return { c with polygonConstructor }
  | some .collection =>
    match nested with
    | none => .error .nullDereference
    | some result => do
      let collectionConstructor ← result
      return { c with collectionConstructor }

/-- A new constructor after the start of its collection. -/
def opened : CollectionConstructor L Pg := { new with level := 1 }

/-- `geom_start`. -/
def geomStart (lib : S2Lib L Pg) (options : Options) (geometryType : WkGeometryType) (size : ℤ)
    (nested : Option (Except Fault (CollectionConstructor L Pg)))
    (c : CollectionConstructor L Pg) : Except Fault (CollectionConstructor L Pg) :=
  let c := { c with level := c.level + 1 }
  let start := forward lib options (.geomStart geometryType size)
  if c.level = 1 ∧ geometryType = .geometrycollection then .ok { c with activeConstructor := none }
  else if c.activeConstructor.isSome then start nested c
  else
    match geometryType with
    | .point | .multipoint => start nested { c with activeConstructor := some .point }
    | .linestring | .multilinestring => start nested { c with activeConstructor := some .polyline }
    | .polygon | .multipolygon => start nested { c with activeConstructor := some .polygon }
    | .geometrycollection =>
      -- the start of a collection makes `opened` of a new constructor, see `handle_new`
      start (some (.ok opened))
        { c with collectionConstructor := some new, activeConstructor := some .collection }
    | .geometry => .error (.stop "CollectionConstructor: unsupported geometry type")

/-- The active constructor's geography becomes a member. -/
def finishActive (lib : S2Lib L Pg) (options : Options) (c : CollectionConstructor L Pg) :
    Except Fault (CollectionConstructor L Pg) :=
  match c.activeConstructor, c.collectionConstructor with
  | some .point, _ =>
    let (feature, pointConstructor) := c.pointConstructor.finish
    .ok { c with pointConstructor, features := c.features ++ [feature], activeConstructor := none }
  | some .polyline, _ =>
    let (feature, polylineConstructor) := c.polylineConstructor.finish
    .ok { c with
      polylineConstructor, features := c.features ++ [feature], activeConstructor := none }
  | some .polygon, _ => do
    let (feature, polygonConstructor) ← c.polygonConstructor.finish lib options
    return { c with
      polygonConstructor, features := c.features ++ [feature], activeConstructor := none }
  | some .collection, some nested =>
    .ok { c with
      collectionConstructor := some { nested with features := [] }
      features := c.features ++ [.collection nested.features]
      activeConstructor := none }
  | _, _ => .error .nullDereference

/-- `geom_end`. -/
def geomEnd (lib : S2Lib L Pg) (options : Options)
    (nested : Option (Except Fault (CollectionConstructor L Pg)))
    (c : CollectionConstructor L Pg) : Except Fault (CollectionConstructor L Pg) := do
  let c := { c with level := c.level - 1 }
  let c ← if 1 ≤ c.level then forward lib options .geomEnd nested c else .ok c
  if c.level = 1 then finishActive lib options c else return c

def handleStep (lib : S2Lib L Pg) (options : Options) (e : HandlerEvent)
    (nested : Option (Except Fault (CollectionConstructor L Pg)))
    (c : CollectionConstructor L Pg) : Except Fault (CollectionConstructor L Pg) :=
  match e with
  | .geomStart geometryType size => geomStart lib options geometryType size nested c
  | .geomEnd => geomEnd lib options nested c
  | _ => forward lib options e nested c

/-- One call on a collection constructor. -/
def handle (lib : S2Lib L Pg) (options : Options) (e : HandlerEvent) :
    CollectionConstructor L Pg → Except Fault (CollectionConstructor L Pg)
  | ⟨point, polyline, polygon, some nested, active, level, features⟩ =>
    handleStep lib options e (some (handle lib options e nested))
      ⟨point, polyline, polygon, some nested, active, level, features⟩
  | ⟨point, polyline, polygon, none, active, level, features⟩ =>
    handleStep lib options e none ⟨point, polyline, polygon, none, active, level, features⟩

theorem handle_eq (lib : S2Lib L Pg) (options : Options) (e : HandlerEvent)
    (c : CollectionConstructor L Pg) :
    handle lib options e c =
      handleStep lib options e (c.collectionConstructor.map (handle lib options e)) c := by
  rcases c with ⟨_, _, _, nested, _, _, _⟩
  cases nested with
  | none => rfl
  | some nested => rfl

theorem handle_new (lib : S2Lib L Pg) (options : Options) (size : ℤ) :
    handle lib options (.geomStart .geometrycollection size) new = .ok opened := rfl

end CollectionConstructor

/-! ### Features -/

/-- `FeatureConstructor::feat_start`. -/
def featStart (lib : S2Lib L Pg) (options : Options) (c : CollectionConstructor L Pg) :
    Except Fault (CollectionConstructor L Pg) :=
  { c with activeConstructor := none, level := 0, features := [] }.handle lib options
    (.geomStart .geometrycollection 1)

/-- `FeatureConstructor::finish_feature`. -/
def finishFeature (lib : S2Lib L Pg) (options : Options) (c : CollectionConstructor L Pg) :
    Except Fault (Geography Pg × CollectionConstructor L Pg) := do
  let c ← c.handle lib options .geomEnd
  match c.features.getLast? with
  | none => return (.collection [], c)
  | some feature => return (feature, { c with features := c.features.dropLast })

end S2Geography.Constructor
