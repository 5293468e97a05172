import Mathlib.Data.Int.Notation
import Mathlib.Data.List.Basic
import Mathlib.Data.Set.Basic
import Mathlib.Tactic.Common

/-!
# Geographies

The four kinds of geography and what they tell about their shapes. Coordinates are
doubles, kept as bit patterns: nothing here computes with them, and equality of points
is equality of bits. The type of a polygon is a parameter.
-/
namespace S2Geography

/-- A `double`. -/
structure Double where
  bits : BitVec 64
  deriving DecidableEq, Repr

namespace Double

def zero : Double := ⟨0⟩

/-- `std::isnan`: all exponent bits are set, and some bit of the fraction. -/
def isNaN (d : Double) : Bool := (0x7ff0000000000000#64).ult (d.bits &&& 0x7fffffffffffffff#64)

end Double

structure R2Point where
  x : Double
  y : Double
  deriving DecidableEq, Repr

structure S2Point where
  x : Double
  y : Double
  z : Double
  deriving DecidableEq, Repr

def S2Point.hasNaN (p : S2Point) : Bool := p.x.isNaN || p.y.isNaN || p.z.isNaN

/-- The classes derived from `Geography`; a polyline is the list of its vertices. -/
inductive Geography (Pg : Type) where
  | point (points : List S2Point)
  | polyline (polylines : List (List S2Point))
  | polygon (polygon : Pg)
  | collection (features : List (Geography Pg))

namespace Geography

variable {Pg Qg : Type}

mutual

/-- The dimensions of `Shape(0)` to `Shape(num_shapes() - 1)`. -/
def shapeDimensions : Geography Pg → List ℕ
  | point _ => [0]
  | polyline polylines => polylines.map fun _ => 1
  | polygon _ => [2]
  | collection features => shapeDimensionsAll features

def shapeDimensionsAll : List (Geography Pg) → List ℕ
  | [] => []
  | feature :: features => shapeDimensions feature ++ shapeDimensionsAll features

end

def numShapes (geog : Geography Pg) : ℕ := geog.shapeDimensions.length

/-- `dimension()`; a collection has one if all its shapes share it. -/
def dimension (geog : Geography Pg) : ℤ :=
  match geog with
  | point _ => 0
  | polyline _ => 1
  | polygon _ => 2
  | collection _ =>
    match geog.shapeDimensions with
    | [] => -1
    | dim :: dims => if dims.all (· = dim) then dim else -1

mutual

/-- The same tree with other polygons. -/
def mapPolygons (f : Pg → Qg) : Geography Pg → Geography Qg
  | point points => point points
  | polyline polylines => polyline polylines
  | polygon p => polygon (f p)
  | collection features => collection (mapPolygonsAll f features)

def mapPolygonsAll (f : Pg → Qg) : List (Geography Pg) → List (Geography Qg)
  | [] => []
  | feature :: features => mapPolygons f feature :: mapPolygonsAll f features

end

/-- The points that lists of points, lists of polylines and polygons stand for. -/
structure Regions (Pg P : Type) where
  points : List S2Point → Set P
  polylines : List (List S2Point) → Set P
  polygon : Pg → Set P

mutual

/-- The points of a geography, from those of its parts. -/
def region {P : Type} (regions : Regions Pg P) : Geography Pg → Set P
  | point points => regions.points points
  | polyline polylines => regions.polylines polylines
  | polygon p => regions.polygon p
  | collection features => regionAll regions features

def regionAll {P : Type} (regions : Regions Pg P) : List (Geography Pg) → Set P
  | [] => ∅
  | feature :: features => region regions feature ∪ regionAll regions features

end

theorem mem_regionAll {P : Type} {regions : Regions Pg P} {features : List (Geography Pg)}
    {p : P} : p ∈ regionAll regions features ↔ ∃ g ∈ features, p ∈ g.region regions := by
  induction features with
  | nil => simp [regionAll]
  | cons feature features ih => simp [regionAll, ih]

end Geography

end S2Geography
