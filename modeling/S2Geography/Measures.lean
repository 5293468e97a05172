import Mathlib.Algebra.Order.BigOperators.Group.List
import Mathlib.Algebra.Order.Group.Int
import S2Geography.CollectionAccessor
import S2Geography.SerializeRoundTrip

/-!
# Area, length and perimeter

The measures of a geography in exact arithmetic. The area is computed feature by feature, but
the length and the perimeter are those of all edges, if the largest dimension of any shape is
the right one. So the lines beside a polygon count as a part of its perimeter and not of the
length, and that is all that can go wrong.
-/
namespace S2Geography

open Exporter Accessors Geography

/-! ### The dimension of a geography -/

namespace Geography

mutual

theorem shapeDimensions_le {Pg : Type} : (geog : Geography Pg) →
    ∀ dim ∈ geog.shapeDimensions, dim ≤ 2
  | point _, _, h => by
    rw [List.mem_singleton.mp h]
    exact Nat.zero_le 2
  | polyline _, _, h => by
    obtain ⟨-, -, rfl⟩ := List.mem_map.mp h
    exact Nat.le_succ 1
  | polygon _, _, h => (List.mem_singleton.mp h).le
  | collection features, dim, h => shapeDimensionsAll_le features dim h

theorem shapeDimensionsAll_le {Pg : Type} : (features : List (Geography Pg)) →
    ∀ dim ∈ shapeDimensionsAll features, dim ≤ 2
  | [], _, h => absurd h List.not_mem_nil
  | feature :: features, dim, h => by
    rcases List.mem_append.mp h with h | h
    · exact shapeDimensions_le feature dim h
    · exact shapeDimensionsAll_le features dim h

end

mutual

theorem shapeDimensions_eq_flatMap {Pg : Type} : (geog : Geography Pg) →
    geog.shapeDimensions = geog.leaves.flatMap shapeDimensions
  | point _ | polyline _ | polygon _ => (List.flatMap_singleton ..).symm
  | collection features => shapeDimensionsAll_eq_flatMap features

theorem shapeDimensionsAll_eq_flatMap {Pg : Type} : (features : List (Geography Pg)) →
    shapeDimensionsAll features = (leavesAll features).flatMap shapeDimensions
  | [] => rfl
  | feature :: features => by
    rw [shapeDimensionsAll, leavesAll, List.flatMap_append, ← shapeDimensions_eq_flatMap feature,
      ← shapeDimensionsAll_eq_flatMap features]

end

mutual

theorem collection_notMem_leaves {Pg : Type} {members : List (Geography Pg)} :
    (geog : Geography Pg) → collection members ∉ geog.leaves
  | point _ | polyline _ | polygon _ => fun h => nomatch List.mem_singleton.mp h
  | collection features => collection_notMem_leavesAll features

theorem collection_notMem_leavesAll {Pg : Type} {members : List (Geography Pg)} :
    (features : List (Geography Pg)) → collection members ∉ leavesAll features
  | [] => List.not_mem_nil
  | feature :: features => fun h => by
    rcases List.mem_append.mp h with h | h
    · exact collection_notMem_leaves feature h
    · exact collection_notMem_leavesAll features h

end

/-- The shapes of dimension 2 are those of polygons. -/
theorem two_mem_shapeDimensions_iff {Pg : Type} (geog : Geography Pg) :
    2 ∈ geog.shapeDimensions ↔ ∃ p, polygon p ∈ geog.leaves := by
  rw [shapeDimensions_eq_flatMap]
  constructor
  · intro h
    obtain ⟨leaf, hleaf, htwo⟩ := List.mem_flatMap.mp h
    cases leaf with
    | point points => exact absurd (List.mem_singleton.mp htwo) (by decide)
    | polyline polylines =>
      obtain ⟨-, -, h⟩ := List.mem_map.mp htwo
      exact absurd h (by decide)
    | polygon p => exact ⟨p, hleaf⟩
    | collection members => exact absurd hleaf (collection_notMem_leaves geog)
  · rintro ⟨p, hp⟩
    exact List.mem_flatMap.mpr ⟨polygon p, hp, List.mem_singleton.mpr rfl⟩

/-- Without shapes of dimension 1, every multilinestring is empty. -/
theorem polylines_eq_nil {Pg : Type} {geog : Geography Pg} (h : 1 ∉ geog.shapeDimensions)
    {polylines : List (List S2Point)} (hleaf : polyline polylines ∈ geog.leaves) :
    polylines = [] := by
  rw [shapeDimensions_eq_flatMap] at h
  cases polylines with
  | nil => rfl
  | cons vertices polylines =>
    exact absurd (List.mem_flatMap.mpr ⟨_, hleaf, List.mem_cons_self⟩) h

/-- A geography that has a dimension shares it with its shapes. -/
theorem eq_dimension_of_mem {Pg : Type} {geog : Geography Pg} (h : geog.dimension ≠ -1)
    {dim : ℕ} (hdim : dim ∈ geog.shapeDimensions) : (dim : ℤ) = geog.dimension := by
  cases geog with
  | point points => exact congrArg Nat.cast (List.mem_singleton.mp hdim)
  | polyline polylines =>
    obtain ⟨-, -, rfl⟩ := List.mem_map.mp hdim
    rfl
  | polygon p => exact congrArg Nat.cast (List.mem_singleton.mp hdim)
  | collection features =>
    cases hdims : (collection features).shapeDimensions with
    | nil =>
      rw [hdims] at hdim
      exact absurd hdim List.not_mem_nil
    | cons first dims =>
      simp only [dimension, hdims] at h ⊢
      rw [hdims] at hdim
      by_cases hall : dims.all (fun d => decide (d = first)) = true
      · rw [if_pos hall]
        rcases List.mem_cons.mp hdim with rfl | hmem
        · rfl
        · exact congrArg Nat.cast (of_decide_eq_true (List.all_eq_true.mp hall dim hmem))
      · exact absurd (if_neg hall) h

end Geography

namespace Accessors

/-- The loop of `s2_dimension` finds the maximum. -/
theorem foldl_dimension (shapes : List Shape) (start : ℤ) :
    shapes.foldl (fun dimension shape =>
      if (shape.dimension : ℤ) > dimension then (shape.dimension : ℤ) else dimension) start =
      (shapes.map fun shape => (shape.dimension : ℤ)).foldl max start := by
  rw [List.foldl_map]
  congr 1
  funext dimension shape
  split <;> omega

theorem foldl_max_eq {ns : List ℤ} {start top : ℤ} (hstart : start ≤ top)
    (hle : ∀ n ∈ ns, n ≤ top) (h : start = top ∨ top ∈ ns) : ns.foldl max start = top := by
  induction ns generalizing start with
  | nil => exact h.resolve_right List.not_mem_nil
  | cons n ns ih =>
    have hn := hle n List.mem_cons_self
    refine ih (max_le hstart hn) (fun m hm => hle m (List.mem_cons_of_mem n hm)) ?_
    rcases h with rfl | h
    · exact Or.inl (max_eq_left hn)
    · rcases List.mem_cons.mp h with rfl | h
      · exact Or.inl (max_eq_right hstart)
      · exact Or.inr h

theorem s2Dimension_eq {geog : Geography (List StoredLoop)} {dim : ℕ}
    (hdim : dim ∈ geog.shapeDimensions) (hle : ∀ other ∈ geog.shapeDimensions, other ≤ dim) :
    s2Dimension geog = dim := by
  unfold s2Dimension
  by_cases h : geog.dimension ≠ -1
  · rw [if_pos h, eq_dimension_of_mem h hdim]
  · rw [if_neg h, foldl_dimension]
    refine foldl_max_eq ?_ ?_ (Or.inr ?_)
    · rw [not_not.mp h]
      omega
    · intro n hn
      obtain ⟨shape, hshape, rfl⟩ := List.mem_map.mp hn
      exact Nat.cast_le.mpr (hle _ (shapes_dimension geog ▸ List.mem_map_of_mem hshape))
    · rw [← shapes_dimension] at hdim
      obtain ⟨shape, hshape, rfl⟩ := List.mem_map.mp hdim
      exact List.mem_map_of_mem hshape

/-- Without shapes, only a multilinestring has a dimension. -/
theorem s2Dimension_of_nil {geog : Geography (List StoredLoop)} (h : geog.shapeDimensions = []) :
    s2Dimension geog = -1 ∨ s2Dimension geog = 1 := by
  cases geog with
  | point points => exact absurd h (List.cons_ne_nil _ _)
  | polyline polylines => exact Or.inr rfl
  | polygon loops => exact absurd h (List.cons_ne_nil _ _)
  | collection features =>
    have hshapes : (collection features).shapes = [] := by
      rw [← shapes_dimension] at h
      exact List.map_eq_nil_iff.mp h
    have hdimension : (collection features).dimension = -1 := by
      simp only [Geography.dimension, h]
    left
    rw [s2Dimension, if_neg (not_not.mpr hdimension), hshapes]
    exact hdimension

/-- With shapes, the dimension is the largest of theirs. -/
theorem exists_s2Dimension {geog : Geography (List StoredLoop)} (h : geog.shapeDimensions ≠ []) :
    ∃ dim ∈ geog.shapeDimensions, (∀ other ∈ geog.shapeDimensions, other ≤ dim) ∧
      s2Dimension geog = dim := by
  obtain ⟨dim, hdim, hle⟩ := geog.shapeDimensions.toFinset.exists_max_image id
    (List.toFinset_nonempty_iff _ |>.mpr h)
  have hdim' := List.mem_toFinset.mp hdim
  have hle' : ∀ other ∈ geog.shapeDimensions, other ≤ dim := fun other hother =>
    hle other (List.mem_toFinset.mpr hother)
  exact ⟨dim, hdim', hle', s2Dimension_eq hdim' hle'⟩

theorem s2Dimension_eq_two_iff (geog : Geography (List StoredLoop)) :
    s2Dimension geog = 2 ↔ 2 ∈ geog.shapeDimensions := by
  refine ⟨fun h => ?_, fun h => s2Dimension_eq h (shapeDimensions_le geog)⟩
  by_cases hnil : geog.shapeDimensions = []
  · rcases s2Dimension_of_nil hnil with hnone | hone <;> omega
  · obtain ⟨dim, hdim, -, heq⟩ := exists_s2Dimension hnil
    have htwo : dim = 2 := by omega
    exact htwo ▸ hdim

/-- A shape of dimension 1 decides, if there is no polygon. -/
theorem s2Dimension_eq_one {geog : Geography (List StoredLoop)} (hone : 1 ∈ geog.shapeDimensions)
    (htwo : 2 ∉ geog.shapeDimensions) : s2Dimension geog = 1 := by
  have hle : ∀ dim ∈ geog.shapeDimensions, dim ≤ 1 := fun dim hdim => by
    have hle := shapeDimensions_le geog dim hdim
    have hne : dim ≠ 2 := fun h => htwo (h ▸ hdim)
    omega
  exact s2Dimension_eq hone hle

end Accessors

/-! ### Sums over a tree -/

namespace Geography

variable {δ : Type} [AddCommMonoid δ]

theorem leaves_subset_of_mem {features : List (Geography (List StoredLoop))}
    {feature : Geography (List StoredLoop)} (h : feature ∈ features) :
    feature.leaves ⊆ (collection features).leaves := by
  induction features with
  | nil => exact absurd h List.not_mem_nil
  | cons first features ih =>
    rcases List.mem_cons.mp h with rfl | h
    · exact List.subset_append_left _ _
    · exact fun leaf hleaf => List.mem_append_right _ (ih h hleaf)

/-- The sum over the points, polylines and polygons of a tree. -/
def treeSum (part : Geography (List StoredLoop) → δ) (geog : Geography (List StoredLoop)) : δ :=
  (geog.leaves.map part).sum

theorem treeSum_collection (part : Geography (List StoredLoop) → δ)
    (features : List (Geography (List StoredLoop))) :
    treeSum part (.collection features) = (features.map (treeSum part)).sum := by
  induction features with
  | nil => rfl
  | cons feature features ih =>
    rw [List.map_cons, List.sum_cons, ← ih]
    exact (congrArg List.sum (List.map_append ..)).trans List.sum_append

theorem treeSum_eq_zero {part : Geography (List StoredLoop) → δ}
    {geog : Geography (List StoredLoop)} (h : ∀ leaf ∈ geog.leaves, part leaf = 0) :
    treeSum part geog = 0 := by
  rw [treeSum, List.map_congr_left h, List.map_const', List.sum_replicate, smul_zero]

/-- What only polygons have sums to zero without polygons. -/
theorem treeSum_polygons_eq_zero {part : Geography (List StoredLoop) → δ}
    {geog : Geography (List StoredLoop)} (h : 2 ∉ geog.shapeDimensions)
    (hpart : ∀ leaf, (∀ loops, leaf ≠ .polygon loops) → part leaf = 0) :
    treeSum part geog = 0 := by
  refine treeSum_eq_zero fun leaf hleaf => hpart leaf ?_
  rintro loops rfl
  exact h ((two_mem_shapeDimensions_iff geog).mpr ⟨loops, hleaf⟩)

theorem foldl_add {α : Type} (f : α → δ) (xs : List α) (start : δ) :
    xs.foldl (fun sum x => sum + f x) start = start + (xs.map f).sum := by
  induction xs generalizing start with
  | nil => exact (add_zero start).symm
  | cons x xs ih => rw [List.foldl_cons, ih, List.map_cons, List.sum_cons, add_assoc]

end Geography

/-! ### The measures -/

/-- The measures of edges and of polygons. -/
structure ExactMeasures (δ : Type) [Zero δ] [LE δ] where
  /-- `S1ChordAngle(e.v0, e.v1).radians()`. -/
  radians : Edge → δ
  radians_nonneg : ∀ e, 0 ≤ radians e
  radians_self : ∀ v, radians (v, v) = 0
  /-- `S2Polygon::GetArea`. -/
  area : List StoredLoop → δ

namespace Accessors

section Measures

variable {δ : Type} [AddCommGroup δ] [LE δ] (measures : ExactMeasures δ)

mutual

/-- `s2_area`. -/
def s2Area (layers : S2Layers) (geog : Geography (List StoredLoop)) : Except Fault δ :=
  if s2Dimension geog ≠ 2 then .ok 0
  else
    match geog with
    | .polygon loops => .ok (measures.area loops)
    | .collection features => sumAreas layers features 0
    | geog => (s2BuildPolygon layers geog).map measures.area

/-- The loop over the features of a collection. -/
def sumAreas (layers : S2Layers) (features : List (Geography (List StoredLoop))) (area : δ) :
    Except Fault δ :=
  match features with
  | [] => .ok area
  | feature :: features => do
    let featureArea ← s2Area layers feature
    sumAreas layers features (area + featureArea)

end

/-- The loops of `s2_length` and `s2_perimeter` over all edges of all shapes. -/
def sumEdges (geog : Geography (List StoredLoop)) : δ :=
  geog.shapes.foldl (fun length shape =>
    shape.edges.foldl (fun length e => length + measures.radians e) length) 0

/-- `s2_length`. -/
def s2Length (geog : Geography (List StoredLoop)) : δ :=
  if s2Dimension geog = 1 then sumEdges measures geog else 0

/-- `s2_perimeter`. -/
def s2Perimeter (geog : Geography (List StoredLoop)) : δ :=
  if s2Dimension geog = 2 then sumEdges measures geog else 0

/-- The length of the edges of the polylines. -/
def polylineLength : Geography (List StoredLoop) → δ
  | .polyline polylines =>
    (polylines.map fun vertices => ((polylineEdges vertices).map measures.radians).sum).sum
  | _ => 0

/-- The length of the edges of a polygon. -/
def polygonPerimeter : Geography (List StoredLoop) → δ
  | .polygon loops => ((polygonEdges loops).map measures.radians).sum
  | _ => 0

/-- The area of a polygon. -/
def polygonArea : Geography (List StoredLoop) → δ
  | .polygon loops => measures.area loops
  | _ => 0

/-- Every measure is that of the parts of its own dimension. -/
def MeasuresParts (layers : S2Layers) (geog : Geography (List StoredLoop)) : Prop :=
  s2Length measures geog = treeSum (polylineLength measures) geog ∧
    s2Perimeter measures geog = treeSum (polygonPerimeter measures) geog ∧
    s2Area measures layers geog = .ok (treeSum (polygonArea measures) geog)

/-- Every measure of a collection is the sum over its members. -/
def AddsMembers (layers : S2Layers) : Geography (List StoredLoop) → Prop
  | .collection features =>
    s2Length measures (.collection features) = (features.map (s2Length measures)).sum ∧
      s2Perimeter measures (.collection features) = (features.map (s2Perimeter measures)).sum ∧
      s2Area measures layers (.collection features) =
        (features.mapM (s2Area measures layers)).map List.sum
  | _ => True

/-- The length of all edges of a shape. -/
def shapeLength (shape : Shape) : δ := (shape.edges.map measures.radians).sum

theorem sumEdges_eq (geog : Geography (List StoredLoop)) :
    sumEdges measures geog = (geog.shapes.map (shapeLength measures)).sum := by
  simp only [sumEdges, foldl_add]
  rw [zero_add]
  rfl

theorem shapeLength_pointShape (points : List S2Point) :
    shapeLength measures (pointShape points) = 0 := by
  have hzero : ∀ point ∈ points, measures.radians (point, point) = 0 := fun point _ =>
    measures.radians_self point
  change (List.map measures.radians (List.map _ points)).sum = 0
  rw [List.map_map]
  refine (congrArg List.sum (List.map_congr_left hzero)).trans ?_
  rw [List.map_const', List.sum_replicate, smul_zero]

mutual

/-- Points add nothing to the length of all edges. -/
theorem sum_shapeLength : (geog : Geography (List StoredLoop)) →
    (geog.shapes.map (shapeLength measures)).sum =
      treeSum (polylineLength measures) geog + treeSum (polygonPerimeter measures) geog
  | .point points => by
    have h := shapeLength_pointShape measures points
    simpa [treeSum, leaves, polylineLength, polygonPerimeter, shapes] using h
  | .polyline polylines => by
    simp [treeSum, leaves, polylineLength, polygonPerimeter, shapes, Function.comp_def,
      shapeLength, polylineShape]
  | .polygon loops => by
    simp [treeSum, leaves, polylineLength, polygonPerimeter, shapes, shapeLength, polygonShape]
  | .collection features => by
    rw [treeSum_collection, treeSum_collection]
    exact sum_shapeLengthAll features

theorem sum_shapeLengthAll : (features : List (Geography (List StoredLoop))) →
    ((shapesAll features).map (shapeLength measures)).sum =
      (features.map (treeSum (polylineLength measures))).sum +
        (features.map (treeSum (polygonPerimeter measures))).sum
  | [] => (add_zero 0).symm
  | feature :: features => by
    rw [shapesAll, List.map_append, List.sum_append, sum_shapeLength feature,
      sum_shapeLengthAll features, List.map_cons, List.map_cons, List.sum_cons, List.sum_cons]
    exact add_add_add_comm ..

end

theorem sumEdges_eq_add (geog : Geography (List StoredLoop)) :
    sumEdges measures geog =
      treeSum (polylineLength measures) geog + treeSum (polygonPerimeter measures) geog :=
  (sumEdges_eq measures geog).trans (sum_shapeLength measures geog)

theorem treeSum_polylineLength_eq_zero {geog : Geography (List StoredLoop)}
    (h : 1 ∉ geog.shapeDimensions) : treeSum (polylineLength measures) geog = 0 := by
  refine treeSum_eq_zero fun leaf hleaf => ?_
  cases leaf with
  | polyline polylines =>
    rw [polylines_eq_nil h hleaf]
    rfl
  | point _ | polygon _ | collection _ => rfl

theorem polygonPerimeter_eq_zero (leaf : Geography (List StoredLoop))
    (h : ∀ loops, leaf ≠ .polygon loops) : polygonPerimeter measures leaf = 0 := by
  cases leaf with
  | polygon loops => exact absurd rfl (h loops)
  | point _ | polyline _ | collection _ => rfl

theorem polygonArea_eq_zero (leaf : Geography (List StoredLoop))
    (h : ∀ loops, leaf ≠ .polygon loops) : polygonArea measures leaf = 0 := by
  cases leaf with
  | polygon loops => exact absurd rfl (h loops)
  | point _ | polyline _ | collection _ => rfl

theorem s2Area_of_notMem (layers : S2Layers) {geog : Geography (List StoredLoop)}
    (h : 2 ∉ geog.shapeDimensions) :
    s2Area measures layers geog = .ok (treeSum (polygonArea measures) geog) := by
  rw [treeSum_polygons_eq_zero h (polygonArea_eq_zero measures)]
  unfold s2Area
  exact if_pos (mt (s2Dimension_eq_two_iff geog).mp h)

mutual

/-- The area of a geography is that of its polygons, whatever else there is. -/
theorem s2Area_eq (layers : S2Layers) : (geog : Geography (List StoredLoop)) →
    s2Area measures layers geog = .ok (treeSum (polygonArea measures) geog)
  | .point points => s2Area_of_notMem measures layers (by simp [shapeDimensions])
  | .polyline polylines => s2Area_of_notMem measures layers (by simp [shapeDimensions])
  | .polygon loops => by
    have hdimension : ¬s2Dimension (.polygon loops) ≠ 2 := not_not.mpr rfl
    rw [s2Area, if_neg hdimension]
    exact congrArg Except.ok (List.sum_singleton).symm
  | .collection features => by
    by_cases h : 2 ∈ (Geography.collection features).shapeDimensions
    · rw [s2Area, if_neg (not_not.mpr ((s2Dimension_eq_two_iff _).mpr h)), treeSum_collection]
      exact (sumAreas_eq layers features 0).trans (by rw [zero_add])
    · exact s2Area_of_notMem measures layers h

theorem sumAreas_eq (layers : S2Layers) : (features : List (Geography (List StoredLoop))) →
    (area : δ) → sumAreas measures layers features area =
      .ok (area + (features.map (treeSum (polygonArea measures))).sum)
  | [], area => congrArg Except.ok (add_zero area).symm
  | feature :: features, area => by
    rw [sumAreas, s2Area_eq layers feature]
    refine (sumAreas_eq layers features _).trans ?_
    rw [List.map_cons, List.sum_cons, add_assoc]

end

theorem s2Length_eq {geog : Geography (List StoredLoop)}
    (h : 2 ∉ geog.shapeDimensions ∨ treeSum (polylineLength measures) geog = 0) :
    s2Length measures geog = treeSum (polylineLength measures) geog := by
  unfold s2Length
  by_cases hdimension : s2Dimension geog = 1
  · have htwo : 2 ∉ geog.shapeDimensions := fun h => by
      rw [(s2Dimension_eq_two_iff geog).mpr h] at hdimension
      omega
    rw [if_pos hdimension, sumEdges_eq_add,
      treeSum_polygons_eq_zero htwo (polygonPerimeter_eq_zero measures), add_zero]
  · rw [if_neg hdimension]
    rcases h with htwo | hzero
    · have hone : 1 ∉ geog.shapeDimensions := fun hone => hdimension (s2Dimension_eq_one hone htwo)
      exact (treeSum_polylineLength_eq_zero measures hone).symm
    · exact hzero.symm

theorem s2Perimeter_eq {geog : Geography (List StoredLoop)}
    (h : 2 ∉ geog.shapeDimensions ∨ treeSum (polylineLength measures) geog = 0) :
    s2Perimeter measures geog = treeSum (polygonPerimeter measures) geog := by
  unfold s2Perimeter
  by_cases htwo : 2 ∈ geog.shapeDimensions
  · rw [if_pos ((s2Dimension_eq_two_iff geog).mpr htwo), sumEdges_eq_add,
      h.resolve_left (not_not.mpr htwo), zero_add]
  · rw [if_neg (mt (s2Dimension_eq_two_iff geog).mp htwo),
      treeSum_polygons_eq_zero htwo (polygonPerimeter_eq_zero measures)]

theorem measuresParts_iff (layers : S2Layers) (geog : Geography (List StoredLoop)) :
    MeasuresParts measures layers geog ↔
      2 ∉ geog.shapeDimensions ∨ treeSum (polylineLength measures) geog = 0 := by
  constructor
  · rintro ⟨hlength, -, -⟩
    by_cases htwo : 2 ∈ geog.shapeDimensions
    · rw [s2Length, (s2Dimension_eq_two_iff geog).mpr htwo, if_neg (by decide)] at hlength
      exact Or.inr hlength.symm
    · exact Or.inl htwo
  · intro h
    exact ⟨s2Length_eq measures h, s2Perimeter_eq measures h, s2Area_eq measures layers geog⟩

theorem addsMembers_of_measuresParts (layers : S2Layers)
    {features : List (Geography (List StoredLoop))}
    (h : MeasuresParts measures layers (.collection features))
    (hfeatures : ∀ feature ∈ features, MeasuresParts measures layers feature) :
    AddsMembers measures layers (.collection features) := by
  obtain ⟨hlength, hperimeter, harea⟩ := h
  rw [treeSum_collection] at hlength hperimeter harea
  refine ⟨hlength.trans ?_, hperimeter.trans ?_, harea.trans ?_⟩
  · exact congrArg List.sum
      (List.map_congr_left fun feature hfeature => (hfeatures feature hfeature).1.symm)
  · exact congrArg List.sum
      (List.map_congr_left fun feature hfeature => (hfeatures feature hfeature).2.1.symm)
  · rw [funext (s2Area_eq measures layers)]
    exact (congrArg (Except.map List.sum) List.mapM_pure).symm

end Measures

section Law

variable {δ : Type} [AddCommGroup δ] [PartialOrder δ] [IsOrderedAddMonoid δ]
  (measures : ExactMeasures δ) {geog : Geography (List StoredLoop)}

/-- No polyline has an edge of positive length. -/
def LinesVanish (geog : Geography (List StoredLoop)) : Prop :=
  ∀ polylines, .polyline polylines ∈ geog.leaves →
    ∀ vertices ∈ polylines, ∀ e ∈ polylineEdges vertices, measures.radians e = 0

theorem sum_eq_zero_iff {α : Type} {f : α → δ} {xs : List α} (hf : ∀ x ∈ xs, 0 ≤ f x) :
    (xs.map f).sum = 0 ↔ ∀ x ∈ xs, f x = 0 := by
  constructor
  · intro h x hx
    refine List.all_zero_of_le_zero_le_of_sum_eq_zero ?_ h (List.mem_map_of_mem hx)
    exact List.forall_mem_map.mpr hf
  · intro h
    rw [List.map_congr_left h, List.map_const', List.sum_replicate, smul_zero]

theorem edges_nonneg (edges : List Edge) : 0 ≤ (edges.map measures.radians).sum :=
  List.sum_nonneg (List.forall_mem_map.mpr fun e _ => measures.radians_nonneg e)

theorem polylineLength_nonneg (leaf : Geography (List StoredLoop)) :
    0 ≤ polylineLength measures leaf := by
  cases leaf with
  | polyline polylines =>
    exact List.sum_nonneg (List.forall_mem_map.mpr fun vertices _ => edges_nonneg measures _)
  | point _ | polygon _ | collection _ => exact le_refl 0

theorem linesVanish_iff : LinesVanish measures geog ↔
    treeSum (polylineLength measures) geog = 0 := by
  rw [treeSum, sum_eq_zero_iff fun leaf _ => polylineLength_nonneg measures leaf]
  have hleaf : ∀ polylines : List (List S2Point),
      polylineLength measures (.polyline polylines) = 0 ↔
        ∀ vertices ∈ polylines, ∀ e ∈ polylineEdges vertices, measures.radians e = 0 := by
    intro polylines
    refine (sum_eq_zero_iff fun vertices _ => edges_nonneg measures _).trans ?_
    exact forall₂_congr fun vertices _ => sum_eq_zero_iff fun e _ => measures.radians_nonneg e
  constructor
  · intro h leaf hmem
    cases leaf with
    | polyline polylines => exact (hleaf polylines).mpr (h polylines hmem)
    | point _ | polygon _ | collection _ => rfl
  · intro h polylines hmem
    exact (hleaf polylines).mp (h _ hmem)

/-- The measures are those of the parts, and add up over members, except where a polygon and a
line that is longer than nothing are in one tree. -/
theorem measures_additive_iff (layers : S2Layers) (geog : Geography (List StoredLoop)) :
    MeasuresParts measures layers geog ∧ AddsMembers measures layers geog ↔
      (∀ loops, .polygon loops ∉ geog.leaves) ∨ LinesVanish measures geog := by
  have hparts : ∀ tree, MeasuresParts measures layers tree ↔
      (∀ loops, .polygon loops ∉ tree.leaves) ∨ LinesVanish measures tree := by
    intro tree
    rw [measuresParts_iff, two_mem_shapeDimensions_iff, not_exists, linesVanish_iff]
  refine ⟨fun h => (hparts geog).mp h.1, fun h => ⟨(hparts geog).mpr h, ?_⟩⟩
  cases geog with
  | point _ | polyline _ | polygon _ => trivial
  | collection features =>
    refine addsMembers_of_measuresParts measures layers ((hparts _).mpr h) ?_
    intro feature hfeature
    have hsubset := leaves_subset_of_mem hfeature
    refine (hparts feature).mpr (h.imp ?_ ?_)
    · exact fun hnone loops hloops => hnone loops (hsubset hloops)
    · exact fun hlines polylines hpolylines => hlines polylines (hsubset hpolylines)

end Law

/-- Every edge between two vertices has length 1. -/
def unitMeasures : ExactMeasures ℤ where
  radians e := if e.1 = e.2 then 0 else 1
  radians_nonneg e := by split <;> decide
  radians_self v := if_pos rfl
  area loops := loops.length

/-- A line and a triangle. -/
def lineAndTriangle : Geography (List StoredLoop) :=
  .collection [.polyline [[axisX, axisY]], .polygon [([axisX, axisY, axisZ], 0)]]

theorem measures_additive_triangle :
    MeasuresParts unitMeasures noLayers (.polygon [([axisX, axisY, axisZ], 0)]) :=
  ((measures_additive_iff unitMeasures noLayers (.polygon [([axisX, axisY, axisZ], 0)])).mpr
    (Or.inr fun _ h => nomatch List.mem_singleton.mp h)).1

/-- The line counts as a part of the perimeter. -/
theorem not_measures_additive :
    s2Length unitMeasures lineAndTriangle = 0 ∧
      treeSum (polylineLength unitMeasures) lineAndTriangle = 1 ∧
      s2Perimeter unitMeasures lineAndTriangle = 4 ∧
      treeSum (polygonPerimeter unitMeasures) lineAndTriangle = 3 ∧
      ¬∀ geog, MeasuresParts unitMeasures noLayers geog ∧
        AddsMembers unitMeasures noLayers geog := by
  refine ⟨by decide, by decide, by decide, by decide, fun h => ?_⟩
  exact absurd (h lineAndTriangle).1.1 (by decide)

end Accessors

end S2Geography
