import S2Geography.PreparedDwithin

/-!
# Pairwise predicates

The predicates of `predicates.cc` and the operators that apply them row by row. The
boolean operations of S2 on two shape indexes are parameters.
-/
namespace S2Geography

/-- `S2BooleanOperation::PolygonModel`, and likewise `PolylineModel`. -/
inductive BoundaryModel
  | modelOpen
  | modelSemiOpen
  | modelClosed
  deriving DecidableEq, Repr

/-- `S2BooleanOperation::Options`; `rest` is what no predicate sets. -/
structure BooleanOptions (R : Type) where
  polygonModel : BoundaryModel
  polylineModel : BoundaryModel
  rest : R
  deriving DecidableEq, Repr

namespace BooleanOptions

variable {R : Type}

def setPolygonModel (o : BooleanOptions R) (model : BoundaryModel) : BooleanOptions R :=
  { o with polygonModel := model }

def setPolylineModel (o : BooleanOptions R) (model : BoundaryModel) : BooleanOptions R :=
  { o with polylineModel := model }

end BooleanOptions

/-- What a shape of a geography tells about itself. -/
structure ShapeCounts where
  dimension : ℕ
  numEdges : ℕ
  numChains : ℕ
  deriving DecidableEq, Repr

/-- `S2Shape::is_empty`. -/
def ShapeCounts.isEmpty (shape : ShapeCounts) : Bool :=
  decide (shape.numEdges = 0) &&
    (decide (shape.dimension < 2) || decide (shape.numChains = 0))

/-- The S2 calls of the predicates. A geography stands for its lazily built index. -/
structure S2Predicates (G Sh R δ : Type) extends PreparedDwithin.S2Distance G δ where
  /-- `Shape(0)` to `Shape(num_shapes() - 1)`. -/
  shapes : G → List Sh
  counts : Sh → ShapeCounts
  /-- `S2BooleanOperation::Intersects`. -/
  intersects : BooleanOptions R → G → G → Bool
  /-- `S2BooleanOperation::Contains`. -/
  contains : BooleanOptions R → G → G → Bool
  /-- `S2BooleanOperation::Equals`. -/
  equals : BooleanOptions R → G → G → Bool

variable {G Sh R δ : Type}

def s2IsEmpty (lib : S2Predicates G Sh R δ) (geog : G) : Bool :=
  (lib.shapes geog).all fun shape => (lib.counts shape).isEmpty

def s2Intersects (lib : S2Predicates G Sh R δ) (options : BooleanOptions R)
    (geog1 geog2 : G) : Bool :=
  lib.intersects options geog1 geog2

def s2Equals (lib : S2Predicates G Sh R δ) (options : BooleanOptions R)
    (geog1 geog2 : G) : Bool :=
  lib.equals options geog1 geog2

def s2Contains (lib : S2Predicates G Sh R δ) (options : BooleanOptions R)
    (geog1 geog2 : G) : Bool :=
  if s2IsEmpty lib geog2 then false else lib.contains options geog1 geog2

/-- `touches` has no function of its own: its operators set up closed and open options. -/
def s2Touches (lib : S2Predicates G Sh R δ) (options : BooleanOptions R)
    (geog1 geog2 : G) : Bool :=
  let closedOptions := (options.setPolygonModel .modelClosed).setPolylineModel .modelClosed
  let openOptions := (options.setPolygonModel .modelOpen).setPolylineModel .modelOpen
  s2Intersects lib closedOptions geog1 geog2 && !s2Intersects lib openOptions geog1 geog2

/-- A `BinaryPredicateOperator`. -/
def binaryPredicateOperator (predicate : G → G → Bool) (geog1 geog2 : List (Option G)) :
    Except Fault (List (Option Bool)) :=
  GeographyOperator.processVector2
    (fun feature1 feature2 _ (_ : Unit) => (.ok (some (predicate feature1 feature2)), ()))
    none geog1 geog2 ()

def cppS2Intersects (lib : S2Predicates G Sh R δ) (options : BooleanOptions R) :=
  binaryPredicateOperator (s2Intersects lib options)

def cppS2Equals (lib : S2Predicates G Sh R δ) (options : BooleanOptions R) :=
  binaryPredicateOperator (s2Equals lib options)

def cppS2Contains (lib : S2Predicates G Sh R δ) (options : BooleanOptions R) :=
  binaryPredicateOperator (s2Contains lib options)

def cppS2Touches (lib : S2Predicates G Sh R δ) (options : BooleanOptions R) :=
  binaryPredicateOperator (s2Touches lib options)

/-- In R, `s2_within(x, y)` is `s2_contains(y, x)`. -/
def s2Within (lib : S2Predicates G Sh R δ) (options : BooleanOptions R)
    (geog1 geog2 : List (Option G)) : Except Fault (List (Option Bool)) :=
  cppS2Contains lib options geog2 geog1

/-- In R, `s2_disjoint(x, y)` is `!s2_intersects(x, y)`. -/
def s2Disjoint (lib : S2Predicates G Sh R δ) (options : BooleanOptions R)
    (geog1 geog2 : List (Option G)) : Except Fault (List (Option Bool)) :=
  (cppS2Intersects lib options geog1 geog2).map (List.map (Option.map not))

/-- `cpp_s2_dwithin` on two features that are different objects. -/
def dwithin (lib : S2Predicates G Sh R δ) (distance : δ) (geog1 geog2 : G) :
    Except Fault (List (Option Bool)) :=
  PreparedDwithin.cppS2Dwithin lib.toS2Distance
    (fun second : Bool => if second then geog2 else geog1) [some false] [some true] [distance]

/-- A pairwise operator answers TRUE for two features. -/
def PairwiseTrue (op : List (Option G) → List (Option G) → Except Fault (List (Option Bool)))
    (geog1 geog2 : G) : Prop :=
  op [some geog1] [some geog2] = .ok [some true]

theorem pairwiseTrue_iff {predicate : G → G → Bool} {geog1 geog2 : G} :
    PairwiseTrue (binaryPredicateOperator predicate) geog1 geog2 ↔
      predicate geog1 geog2 = true := by
  have h : binaryPredicateOperator predicate [some geog1] [some geog2] =
      .ok [some (predicate geog1 geog2)] := rfl
  simp [PairwiseTrue, h]

theorem pairwiseTrue_disjoint_iff {lib : S2Predicates G Sh R δ} {options : BooleanOptions R}
    {geog1 geog2 : G} : PairwiseTrue (s2Disjoint lib options) geog1 geog2 ↔
      s2Intersects lib options geog1 geog2 = false := by
  have h : s2Disjoint lib options [some geog1] [some geog2] =
      .ok [some (!s2Intersects lib options geog1 geog2)] := rfl
  simp [PairwiseTrue, h]

theorem dwithin_eq (lib : S2Predicates G Sh R δ) (distance : δ) (geog1 geog2 : G) :
    dwithin lib distance geog1 geog2 =
      .ok [some (lib.isDistanceLessOrEqual geog2 geog1 distance)] := rfl

end S2Geography
