import Mathlib.Order.Filter.Basic
import S2Geography.BoxLoop
import S2Geography.GeographyOperator
import S2Geography.Predicates

/-!
# Intersection with a box

`s2_intersects_box` intersects with the left of the loop of a box. For a box of less than half a
turn that is the box. For a box of more it is all that is not in the gap: the box, and all that
is north or south of the box and of the gap. And the box from -180 to 180 is all but the strip
between these two, since `M_PI` is less than half a turn.
-/
namespace S2Geography

open SegmentCrossing SphereCoordinates

/-! ### The operator -/

variable {G R : Type}

/-- `S2BooleanOperation::Intersects` of a geography and a loop. -/
abbrev LoopIntersects (G R : Type) := G → Loop → BooleanOptions R → Bool

/-- `s2_intersects_box`. With straight sides the tolerance makes no difference. -/
def s2IntersectsBox (intersects : LoopIntersects G R) (geog1 : G) (rect : S2LatLngRect)
    (options : BooleanOptions R) (_tolerance : ℚ) : Bool :=
  intersects geog1 (boxLoop rect) options

/-- `S1ChordAngle(westEquator, eastEquator).degrees()`. The points at -180 and 180 are not the
same. -/
def equatorDegrees (west east : ℚ) : ℚ :=
  if |east - west| = 360 then antimeridianDegrees else |remainder (east - west) 360|

/-- `processFeature` of `cpp_s2_intersects_box`. -/
def cppS2IntersectsBox (intersects : LoopIntersects G R) (options : BooleanOptions R)
    (feature : G) (lng1 lat1 lng2 lat2 : ℚ) (detail : ℤ) : Except Fault Bool :=
  let xmin := lng1
  let ymin := lat1
  let xmax := lng2
  let ymax := lat2
  if detail < 1 then
    .error (.stop "Can't create polygon from bounding box with detail < 1")
  else
    let widthDegrees := equatorDegrees xmin xmax
    let deltaDegrees := widthDegrees / detail
    let heightDegrees := ymax - ymin
    if widthDegrees = 0 ∨ heightDegrees = 0 then .ok false
    else
      let rect := S2LatLngRect.make (ymin, xmin) (ymax, xmax)
      .ok (s2IntersectsBox intersects feature rect options deltaDegrees)

/-! ### What the result should be -/

/-- The points of a region in a model of polygons. A semi-open polygon has a point of its boundary
if the points next to it in a fixed direction are inside. -/
def regionPoints (refDir : SpherePoint → Filter SpherePoint) (region : Region) :
    BoundaryModel → Set SpherePoint
  | .modelOpen => region.inside
  | .modelSemiOpen => region.inside ∪ {p ∈ region.boundary | region.inside ∈ refDir p}
  | .modelClosed => region.inside ∪ region.boundary

/-- What the geographies are made of, and the direction that decides about semi-open
boundaries. -/
structure PointModel (G R : Type) where
  points : BooleanOptions R → G → Set SpherePoint
  refDir : SpherePoint → Filter SpherePoint

/-- The geography meets the region under the options. -/
def PointModel.Meets (model : PointModel G R) (options : BooleanOptions R) (geog : G)
    (region : Region) : Prop :=
  (model.points options geog ∩ regionPoints model.refDir region options.polygonModel).Nonempty

namespace BoxBounds

variable (bounds : BoxBounds)

/-- Whatever the model of polygons, the points of the rectangle are among those that the gap
leaves. -/
theorem regionPoints_subset (h0 : 0 < bounds.width) (h360 : bounds.width < 360)
    (refDir : SpherePoint → Filter SpherePoint) (boundaryModel : BoundaryModel) :
    regionPoints refDir (.of bounds.rectangle) boundaryModel ⊆
      regionPoints refDir (.outside bounds.gap) boundaryModel := by
  have hinside : interior bounds.rectangle ⊆ bounds.gapᶜ :=
    fun p hp => bounds.not_mem_gap h0 h360 hp
  have hboundary : ∀ p ∈ bounds.rectangle \ interior bounds.rectangle,
      p ∈ bounds.gapᶜ ∨ p ∈ bounds.gap \ interior bounds.gap := by
    intro p hp
    by_cases hgap : p ∈ bounds.gap
    · exact Or.inr ⟨hgap, bounds.not_mem_interior_gap h0 h360 hp.1⟩
    · exact Or.inl hgap
  cases boundaryModel with
  | modelOpen => exact hinside
  | modelSemiOpen =>
    rintro p (hp | ⟨hp, hnext⟩)
    · exact Or.inl (hinside hp)
    · exact (hboundary p hp).imp_right fun hp => ⟨hp, Filter.mem_of_superset hnext hinside⟩
  | modelClosed =>
    rintro p (hp | hp)
    · exact Or.inl (hinside hp)
    · exact hboundary p hp

theorem meets_outside (h0 : 0 < bounds.width) (h360 : bounds.width < 360)
    (model : PointModel G R) (options : BooleanOptions R) (geog : G)
    (h : model.Meets options geog (.of bounds.rectangle)) :
    model.Meets options geog (.outside bounds.gap) := by
  obtain ⟨p, hp, hregion⟩ := h
  exact ⟨p, hp, bounds.regionPoints_subset h0 h360 model.refDir _ hregion⟩

/-! ### The operator on a box -/

/-- The width is computed without a direction, and is only zero if the longitudes are the same. -/
theorem equatorDegrees_ne_zero : equatorDegrees bounds.lng1 bounds.lng2 ≠ 0 := by
  rw [equatorDegrees]
  split
  · norm_num [antimeridianDegrees]
  · next hturn =>
    intro hzero
    obtain ⟨hlow, hhigh⟩ := bounds.lng1_mem
    obtain ⟨hlow', hhigh'⟩ := bounds.lng2_mem
    rw [abs_eq_zero, remainder, sub_eq_zero] at hzero
    generalize roundHalfEven ((bounds.lng2 - bounds.lng1) / 360) = n at hzero
    have hmin : (-2 : ℚ) < n := by linarith
    have hmax : (n : ℚ) < 2 := by linarith
    have hmin' : -2 < n := by exact_mod_cast hmin
    have hmax' : n < 2 := by exact_mod_cast hmax
    have hcases : n = -1 ∨ n = 0 ∨ n = 1 := by omega
    rcases hcases with rfl | rfl | rfl
    · exact hturn (by rw [hzero]; norm_num)
    · rw [Int.cast_zero, zero_mul] at hzero
      exact bounds.lng_ne (sub_eq_zero.mp hzero).symm
    · exact hturn (by rw [hzero]; norm_num)

theorem width_cases : (bounds.width = 0 ∨ bounds.width = 360) ∨
    0 < bounds.width ∧ bounds.width < 360 := by
  obtain ⟨hlow, hhigh⟩ := bounds.lng1_mem
  obtain ⟨hlow', hhigh'⟩ := bounds.lng2_mem
  have hnonneg : 0 ≤ bounds.width := by
    unfold width
    split_ifs <;> linarith
  have hle : bounds.width ≤ 360 := by
    unfold width
    split_ifs <;> linarith
  rcases hnonneg.eq_or_lt with h0 | h0
  · exact Or.inl (Or.inl h0.symm)
  · rcases hle.eq_or_lt with h360 | h360
    · exact Or.inl (Or.inr h360)
    · exact Or.inr ⟨h0, h360⟩

/-- The result is right: the loop goes round the rectangle; or it goes round the gap, and the
geography meets the rectangle or nothing outside of the gap; or the rectangle goes from one side of
the antimeridian to the other, and for the geography the strip, or all outside of it, is the same
as the rectangle. -/
def ResultHolds (model : PointModel G R) (options : BooleanOptions R) (geog : G) : Prop :=
  bounds.Eastward ∨
    (180 ≤ bounds.width ∧ bounds.width < 360) ∧
      (model.Meets options geog (.of bounds.rectangle) ∨
        ¬model.Meets options geog (.outside bounds.gap)) ∨
    bounds.width = 0 ∧ (model.Meets options geog (.of bounds.strip) ↔
      model.Meets options geog (.of bounds.rectangle)) ∨
    bounds.width = 360 ∧ (model.Meets options geog (.outside bounds.strip) ↔
      model.Meets options geog (.of bounds.rectangle))

theorem run_eq (intersects : LoopIntersects G R) (options : BooleanOptions R) (geog : G)
    {detail : ℤ} (hdetail : 1 ≤ detail) :
    cppS2IntersectsBox intersects options geog bounds.lng1 bounds.lat1 bounds.lng2 bounds.lat2
      detail = .ok (intersects geog (boxLoop bounds.rect) options) := by
  have hheight : bounds.lat2 - bounds.lat1 ≠ 0 := (sub_pos.mpr bounds.lat_lt).ne'
  have hdegrees := bounds.equatorDegrees_ne_zero
  rw [cppS2IntersectsBox, if_neg (by omega)]
  simp only [hdegrees, hheight, or_self, if_false]
  rfl

end BoxBounds

/-- The loop of a box is intersected if the region on its left is met. -/
def DecidesLoops (intersects : LoopIntersects G R) (model : PointModel G R) : Prop :=
  ∀ geog options (bounds : BoxBounds),
    (intersects geog (boxLoop bounds.rect) options = true ↔
      model.Meets options geog (boxLoop bounds.rect).region)

/-- The operator says whether the geography meets the rectangle if and only if its loop goes round
the rectangle, or the difference does not show. -/
theorem s2_intersects_box_iff (intersects : LoopIntersects G R) (model : PointModel G R)
    (hintersects : DecidesLoops intersects model) (options : BooleanOptions R) (geog : G)
    (bounds : BoxBounds) (detail : ℤ) (hdetail : 1 ≤ detail) :
    (cppS2IntersectsBox intersects options geog bounds.lng1 bounds.lat1 bounds.lng2 bounds.lat2
        detail = .ok true ↔ model.Meets options geog (.of bounds.rectangle)) ↔
      bounds.ResultHolds model options geog := by
  have hrun : cppS2IntersectsBox intersects options geog bounds.lng1 bounds.lat1 bounds.lng2
      bounds.lat2 detail = .ok true ↔ model.Meets options geog (boxLoop bounds.rect).region := by
    rw [bounds.run_eq intersects options geog hdetail, ← hintersects geog options bounds]
    exact ⟨Except.ok.inj, congrArg Except.ok⟩
  rw [hrun]
  rcases bounds.width_cases with (hzero | hturn) | ⟨h0, h360⟩
  · have hnot : ¬bounds.Eastward := by
      rw [BoxBounds.Eastward, hzero]
      norm_num
    rw [bounds.region_of_width_zero hzero]
    simp [BoxBounds.ResultHolds, hzero, hnot]
  · have hnot : ¬bounds.Eastward := by
      rw [BoxBounds.Eastward, hturn]
      norm_num
    rw [bounds.region_of_width_turn hturn]
    simp [BoxBounds.ResultHolds, hturn, hnot]
  · by_cases heastward : bounds.Eastward
    · rw [bounds.region_of_eastward heastward h0 h360]
      exact ⟨fun _ => Or.inl heastward, fun _ => Iff.rfl⟩
    · have h180 : 180 ≤ bounds.width := by
        by_contra hlt
        exact heastward (Or.inl ⟨h0, not_le.mp hlt⟩)
      rw [bounds.region_of_not_eastward h180 h360 heastward]
      have hsubset := bounds.meets_outside h0 h360 model options geog
      simp only [BoxBounds.ResultHolds, heastward, h180, h360, h0.ne', h360.ne, false_and,
        false_or, or_false, and_self, true_and]
      tauto

/-! ### Points and boxes -/

/-- Geographies that are lists of points; boundaries of semi-open polygons do not matter. -/
def pointLists : PointModel (List SpherePoint) Unit where
  points := fun _ geog => {p | p ∈ geog}
  refDir := pure

open Classical in
/-- The exact intersection with the region on the left. -/
noncomputable def exactIntersects (model : PointModel G R) : LoopIntersects G R :=
  fun geog loop options => decide (model.Meets options geog loop.region)

theorem exactIntersects_iff (model : PointModel G R) (geog : G) (loop : Loop)
    (options : BooleanOptions R) : exactIntersects model geog loop options = true ↔
      model.Meets options geog loop.region := by
  simp [exactIntersects]

theorem decidesLoops_exactIntersects (model : PointModel G R) :
    DecidesLoops (exactIntersects model) model :=
  fun geog options bounds => exactIntersects_iff model geog (boxLoop bounds.rect) options

def semiOpen : BooleanOptions Unit := ⟨.modelSemiOpen, .modelClosed, ()⟩

/-- A point in the north. -/
def northernPoint : SpherePoint := Quotient.mk setoid ⟨(0, 45), by norm_num⟩

theorem names_northernPoint : Names (0, 45) northernPoint := ⟨_, rfl⟩

/-- A box of twenty degrees across the antimeridian. -/
def narrowBounds : BoxBounds where
  lng1 := 170
  lat1 := -10
  lng2 := -170
  lat2 := 10
  lng1_mem := by norm_num
  lng2_mem := by norm_num
  south_le := by norm_num
  lat_lt := by norm_num
  le_north := by norm_num
  lng_ne := by norm_num

/-- The box that goes the other way round. -/
def wideBounds : BoxBounds where
  lng1 := -170
  lat1 := -10
  lng2 := 170
  lat2 := 10
  lng1_mem := by norm_num
  lng2_mem := by norm_num
  south_le := by norm_num
  lat_lt := by norm_num
  le_north := by norm_num
  lng_ne := by norm_num

theorem eastward_narrowBounds : narrowBounds.Eastward := by
  have hwidth : narrowBounds.width = 20 := by norm_num [BoxBounds.width, narrowBounds]
  left
  rw [hwidth]
  norm_num

theorem s2_intersects_box_iff_narrow :
    cppS2IntersectsBox (exactIntersects pointLists) semiOpen [northernPoint] 170 (-10) (-170) 10
      1000 = .ok true ↔
    pointLists.Meets semiOpen [northernPoint] (.of narrowBounds.rectangle) :=
  (s2_intersects_box_iff (exactIntersects pointLists) pointLists
    (decidesLoops_exactIntersects pointLists) semiOpen [northernPoint] narrowBounds 1000
    (by norm_num)).mpr (Or.inl eastward_narrowBounds)

/-- The point is north of the box, and of the gap, which the box leaves and the loop goes round. -/
theorem not_s2_intersects_box_wide :
    DecidesLoops (exactIntersects pointLists) pointLists ∧
    cppS2IntersectsBox (exactIntersects pointLists) semiOpen [northernPoint] (-170) (-10) 170 10
      1000 = .ok true ∧
    ¬pointLists.Meets semiOpen [northernPoint] (.of wideBounds.rectangle) := by
  have hwidth : wideBounds.width = 340 := by norm_num [BoxBounds.width, wideBounds]
  have hnorth : ∀ a b : ℚ, northernPoint ∉ spread (box a b (-10) 10) :=
    fun a b => ProperBox.not_mem_of_lat names_northernPoint (by norm_num)
  refine ⟨decidesLoops_exactIntersects pointLists, ?_, ?_⟩
  · have hnot : ¬wideBounds.Eastward := by
      rw [BoxBounds.Eastward, hwidth]
      norm_num
    have hregion := wideBounds.region_of_not_eastward (by rw [hwidth]; norm_num)
      (by rw [hwidth]; norm_num) hnot
    have hmeets : pointLists.Meets semiOpen [northernPoint] (boxLoop wideBounds.rect).region := by
      rw [hregion]
      exact ⟨northernPoint, List.mem_singleton_self _, Or.inl (hnorth _ _)⟩
    have hrun := wideBounds.run_eq (exactIntersects pointLists) semiOpen [northernPoint]
      (by norm_num : (1 : ℤ) ≤ 1000)
    exact hrun.trans (congrArg Except.ok ((exactIntersects_iff _ _ _ _).mpr hmeets))
  · rintro ⟨p, hp, hregion⟩
    have hpoint : p = northernPoint := List.mem_singleton.mp hp
    subst hpoint
    rcases hregion with hinside | ⟨hboundary, -⟩
    · exact hnorth _ _ (interior_subset _ hinside)
    · exact hnorth _ _ hboundary.1

end S2Geography
