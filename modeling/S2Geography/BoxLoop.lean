import S2Geography.LeftRegions
import S2Geography.Tessellation

/-!
# The loop of a box

The sides of a longitude-latitude box as a loop. Along the sides in the south and north the loop
goes the short way round, whatever the box is. So the loop of a box of more than half a turn goes
clockwise round the gap that the box leaves. Coordinates are exact here, in degrees, and
tessellated sides are straight.
-/
namespace S2Geography

open SegmentCrossing SphereCoordinates

/-! ### Numbers -/

/-- To the nearest integer, and halves to the even one. -/
def roundHalfEven (q : ℚ) : ℤ :=
  if q - ⌊q⌋ < 1 / 2 then ⌊q⌋
  else if 1 / 2 < q - ⌊q⌋ then ⌊q⌋ + 1
  else if ⌊q⌋ % 2 = 0 then ⌊q⌋ else ⌊q⌋ + 1

/-- `remainder` of the C library. -/
def remainder (x y : ℚ) : ℚ := x - roundHalfEven (x / y) * y

/-- Exact numbers. -/
def exactArithmetic : WrapArithmetic ℚ where
  zero := 0
  half := 1 / 2
  add := (· + ·)
  sub := (· - ·)
  mul := (· * ·)
  fabs := abs
  remainder := remainder
  gt a b := decide (b < a)

theorem exact_exactArithmetic : exactArithmetic.Exact fun x : ℚ => x where
  add _ _ := rfl
  sub _ _ := rfl
  remainder x y := ⟨roundHalfEven (x / y), rfl⟩

theorem roundHalfEven_eq {q : ℚ} {n : ℤ} (hlow : (n : ℚ) - 1 / 2 < q) (hhigh : q < n + 1 / 2) :
    roundHalfEven q = n := by
  by_cases hle : (n : ℚ) ≤ q
  · have hfloor : ⌊q⌋ = n := Int.floor_eq_iff.mpr ⟨hle, by linarith⟩
    rw [roundHalfEven, hfloor, if_pos (by linarith)]
  · have hfloor : ⌊q⌋ = n - 1 := by
      rw [Int.floor_eq_iff]
      push_cast
      exact ⟨by linarith, by linarith⟩
    rw [roundHalfEven, hfloor]
    push_cast
    rw [if_neg (by linarith), if_pos (by linarith)]
    omega

/-- Near a multiple of a turn, the remainder is what is left of that. -/
theorem remainder_eq {x : ℚ} {n : ℤ} (hlow : n * 360 - 180 < x) (hhigh : x < n * 360 + 180) :
    remainder x 360 = x - n * 360 := by
  rw [remainder, roundHalfEven_eq]
  · rw [lt_div_iff₀ (by norm_num)]
    linarith
  · rw [div_lt_iff₀ (by norm_num)]
    linarith

/-! ### Wrapping -/

/-- `WrapDestination` of a projection that is as wide as a turn. -/
def wrapDestination (a b : ℚ × ℚ) : ℚ × ℚ :=
  (exactArithmetic.wrapCoordinate 360 a.1 b.1, exactArithmetic.wrapCoordinate 0 a.2 b.2)

theorem wrapDestination_snd (a b : ℚ × ℚ) : (wrapDestination a b).2 = b.2 := by
  simp [wrapDestination, WrapArithmetic.wrapCoordinate, exactArithmetic]

/-- A wrapped point is the same point of the sphere. -/
theorem same_wrapDestination (a b : ℚ × ℚ) : Same (wrapDestination a b) b := by
  obtain ⟨n, hn⟩ := exact_exactArithmetic.exists_wraps 360 a.1 b.1
  have hturned : b = turned n (wrapDestination a b) := by
    apply Prod.ext
    · simp [turned, wrapDestination, hn]
    · exact (wrapDestination_snd a b).symm
  exact ⟨wrapDestination_snd a b, Or.inr ⟨n, hturned⟩⟩

theorem wrapCoordinate_of_near {a b : ℚ} (hlow : -180 ≤ b - a) (hhigh : b - a ≤ 180) :
    exactArithmetic.wrapCoordinate 360 a b = b := by
  have habs : |b - a| ≤ 180 := abs_le.mpr ⟨hlow, hhigh⟩
  have hnot : ¬(1 / 2 : ℚ) * 360 < |b - a| := by
    rw [not_lt]
    linarith
  simp only [WrapArithmetic.wrapCoordinate, exactArithmetic, decide_eq_false hnot, Bool.and_false]
  exact if_neg Bool.false_ne_true

theorem wrapCoordinate_of_far {a b : ℚ} (hfar : 180 < |b - a|) :
    exactArithmetic.wrapCoordinate 360 a b = a + remainder (b - a) 360 := by
  have hwide : (1 / 2 : ℚ) * 360 < |b - a| := by linarith
  have hturn : (0 : ℚ) < 360 := by norm_num
  simp only [WrapArithmetic.wrapCoordinate, exactArithmetic, decide_eq_true hwide,
    decide_eq_true hturn]
  exact if_pos rfl

/-- What is far to the east moves a turn to the west, -/
theorem wrapCoordinate_of_east {a b : ℚ} (hlow : 180 < b - a) (hhigh : b - a < 360) :
    exactArithmetic.wrapCoordinate 360 a b = b - 360 := by
  rw [wrapCoordinate_of_far (hlow.trans_le (le_abs_self _)), remainder_eq (n := 1)]
  · push_cast
    ring
  · push_cast
    linarith
  · push_cast
    linarith

/-- and what is far to the west moves a turn to the east. -/
theorem wrapCoordinate_of_west {a b : ℚ} (hlow : -360 < b - a) (hhigh : b - a < -180) :
    exactArithmetic.wrapCoordinate 360 a b = b + 360 := by
  have hfar : 180 < |b - a| := by
    rw [abs_of_neg (by linarith)]
    linarith
  rw [wrapCoordinate_of_far hfar, remainder_eq (n := -1)]
  · push_cast
    ring
  · push_cast
    linarith
  · push_cast
    linarith

/-! ### The loop -/

structure S1Interval where
  lo : ℚ
  hi : ℚ
  deriving DecidableEq, Repr

/-- The constructor `S1Interval(lo, hi)`: -180 becomes 180, unless the other end is 180. -/
def S1Interval.make (lo hi : ℚ) : S1Interval where
  lo := if lo = -180 ∧ hi ≠ 180 then 180 else lo
  hi := if hi = -180 ∧ lo ≠ 180 then 180 else hi

structure S2LatLngRect where
  latLo : ℚ
  latHi : ℚ
  lng : S1Interval
  deriving DecidableEq, Repr

/-- The constructor `S2LatLngRect(lo, hi)` on latitudes and longitudes. -/
def S2LatLngRect.make (lo hi : ℚ × ℚ) : S2LatLngRect := ⟨lo.1, hi.1, .make lo.2 hi.2⟩

/-- `AppendUnprojected`, whose vertices follow a straight piece. -/
def appendUnprojected (a b : ℚ × ℚ) (vertices : List Piece) : List Piece :=
  vertices ++ [(a, wrapDestination a b)]

/-- The vertices in `s2_intersects_box`. -/
def boxVertices (rect : S2LatLngRect) : List Piece :=
  let vertices := appendUnprojected (rect.lng.lo, rect.latLo) (rect.lng.hi, rect.latLo) []
  let vertices := appendUnprojected (rect.lng.hi, rect.latLo) (rect.lng.hi, rect.latHi) vertices
  let vertices := appendUnprojected (rect.lng.hi, rect.latHi) (rect.lng.lo, rect.latHi) vertices
  appendUnprojected (rect.lng.lo, rect.latHi) (rect.lng.lo, rect.latLo) vertices

/-- About how far the points at -180 and at 180 degrees are apart, since `M_PI` is less than half
a turn. -/
def antimeridianDegrees : ℚ := 14 / 10 ^ 15

/-- The rectangle between the points that the corners are unprojected to. It only matters to one
from -180 to 180, or back, that these are not the same meridian. -/
def S2LatLngRect.unprojected (rect : S2LatLngRect) : S2LatLngRect :=
  if rect.lng = ⟨-180, 180⟩ then
    { rect with lng := ⟨-180 + antimeridianDegrees / 2, 180 - antimeridianDegrees / 2⟩ }
  else if rect.lng = ⟨180, -180⟩ then
    { rect with lng := ⟨180 - antimeridianDegrees / 2, -180 + antimeridianDegrees / 2⟩ }
  else rect

/-- `S2LaxLoopShape(vertices)`, after `pop_back`: the last vertex was the first again. -/
def boxLoop (rect : S2LatLngRect) : Loop where
  pieces := boxVertices rect.unprojected
  connected := by
    simp [boxVertices, appendUnprojected, same_wrapDestination]
  closed := by
    simp [boxVertices, appendUnprojected, same_wrapDestination]

/-! ### Boxes -/

/-- A box as the operator gets it. -/
structure BoxBounds where
  lng1 : ℚ
  lat1 : ℚ
  lng2 : ℚ
  lat2 : ℚ
  lng1_mem : lng1 ∈ Set.Icc (-180) 180
  lng2_mem : lng2 ∈ Set.Icc (-180) 180
  south_le : -90 ≤ lat1
  lat_lt : lat1 < lat2
  le_north : lat2 ≤ 90
  lng_ne : lng1 ≠ lng2

namespace BoxBounds

variable (bounds : BoxBounds)

/-- How far it is eastward from `lng1` to `lng2`. -/
def width : ℚ :=
  if bounds.lng1 < bounds.lng2 then bounds.lng2 - bounds.lng1
  else bounds.lng2 - bounds.lng1 + 360

/-- The rectangle that runs eastward from `lng1` to `lng2`. -/
def rectangle : Set SpherePoint :=
  spread (box bounds.lng1 (bounds.lng1 + bounds.width) bounds.lat1 bounds.lat2)

/-- The rectangle that runs on from `lng2` to `lng1`. -/
def gap : Set SpherePoint :=
  spread (box (bounds.lng1 + bounds.width) (bounds.lng1 + 360) bounds.lat1 bounds.lat2)

def rect : S2LatLngRect := .make (bounds.lat1, bounds.lng1) (bounds.lat2, bounds.lng2)

/-- The short way from `lng1` to `lng2` is eastward. Half a turn counts as eastward if it neither
begins at the antimeridian nor crosses it. -/
def Eastward : Prop :=
  0 < bounds.width ∧ bounds.width < 180 ∨
    bounds.width = 180 ∧ -180 < bounds.lng1 ∧ bounds.lng1 ≤ 0

/-- The strip across the antimeridian between the points at 180 and at -180. -/
def strip : Set SpherePoint :=
  spread (box (180 - antimeridianDegrees / 2) (180 + antimeridianDegrees / 2) bounds.lat1
    bounds.lat2)

/-! ### The sides of the loop -/

theorem rect_lng_mem (h0 : 0 < bounds.width) (h360 : bounds.width < 360) :
    bounds.rect.lng.lo ∈ Set.Ioc (-180) 180 ∧ bounds.rect.lng.hi ∈ Set.Ioc (-180) 180 := by
  obtain ⟨hlow, hhigh⟩ := bounds.lng1_mem
  obtain ⟨hlow', hhigh'⟩ := bounds.lng2_mem
  simp only [rect, S2LatLngRect.make, S1Interval.make, Set.mem_Ioc]
  unfold width at h0 h360
  split_ifs at h0 h360 ⊢ <;> grind

theorem boxLoop_pieces (h0 : 0 < bounds.width) (h360 : bounds.width < 360) :
    (boxLoop bounds.rect).pieces = boxVertices bounds.rect := by
  obtain ⟨hlo, hhi⟩ := bounds.rect_lng_mem h0 h360
  have hwest : bounds.rect.lng ≠ ⟨-180, 180⟩ := by
    intro hlng
    rw [hlng] at hlo
    exact lt_irrefl _ hlo.1
  have heast : bounds.rect.lng ≠ ⟨180, -180⟩ := by
    intro hlng
    rw [hlng] at hhi
    exact lt_irrefl _ hhi.1
  change boxVertices bounds.rect.unprojected = _
  rw [S2LatLngRect.unprojected, if_neg hwest, if_neg heast]

/-- The ends of the interval are the longitudes, perhaps a turn away. -/
theorem exists_turns : ∃ i j : ℤ, bounds.rect.lng.lo = bounds.lng1 + i * 360 ∧
    bounds.rect.lng.hi = bounds.rect.lng.lo + bounds.width + j * 360 := by
  have hlo : ∃ i : ℤ, bounds.rect.lng.lo = bounds.lng1 + i * 360 := by
    simp only [rect, S2LatLngRect.make, S1Interval.make]
    split_ifs with h
    · exact ⟨1, by norm_num [h.1]⟩
    · exact ⟨0, by simp⟩
  have hhi : ∃ i : ℤ, bounds.rect.lng.hi = bounds.lng2 + i * 360 := by
    simp only [rect, S2LatLngRect.make, S1Interval.make]
    split_ifs with h
    · exact ⟨1, by norm_num [h.1]⟩
    · exact ⟨0, by simp⟩
  have hwidth : ∃ i : ℤ, bounds.width = bounds.lng2 - bounds.lng1 + i * 360 := by
    unfold width
    split_ifs
    · exact ⟨0, by simp⟩
    · exact ⟨1, by simp⟩
  obtain ⟨i, hlo⟩ := hlo
  obtain ⟨i', hhi⟩ := hhi
  obtain ⟨j, hwidth⟩ := hwidth
  refine ⟨i, i' - i - j, hlo, ?_⟩
  rw [hlo, hhi, hwidth]
  push_cast
  ring

/-- Half a turn is an interval that ascends only from longitudes after -180 and up to 0. -/
theorem eastward_iff (h : bounds.width = 180) :
    bounds.rect.lng.hi = bounds.rect.lng.lo + 180 ↔ -180 < bounds.lng1 ∧ bounds.lng1 ≤ 0 := by
  obtain ⟨hlow, hhigh⟩ := bounds.lng1_mem
  obtain ⟨hlow', hhigh'⟩ := bounds.lng2_mem
  simp only [rect, S2LatLngRect.make, S1Interval.make]
  unfold width at h
  split_ifs at h ⊢ <;> grind

/-- The pieces, by where the wrapped corners are. -/
theorem boxVertices_eq {rect : S2LatLngRect} {x : ℚ} {k : ℤ} (hhi : rect.lng.hi = x + k * 360)
    (hacross : exactArithmetic.wrapCoordinate 360 rect.lng.lo rect.lng.hi = x)
    (hback : exactArithmetic.wrapCoordinate 360 rect.lng.hi rect.lng.lo =
      rect.lng.lo + k * 360) :
    boxVertices rect = boxPieces rect.lng.lo x k rect.latLo rect.latHi := by
  have hpiece : ∀ a b : ℚ × ℚ, wrapDestination a b =
      (exactArithmetic.wrapCoordinate 360 a.1 b.1, b.2) :=
    fun a b => Prod.ext rfl (wrapDestination_snd a b)
  have hstay : ∀ y : ℚ, exactArithmetic.wrapCoordinate 360 y y = y :=
    fun y => wrapCoordinate_of_near (by norm_num) (by norm_num)
  simp only [boxVertices, appendUnprojected, boxPieces, hpiece, hacross, hback, hstay,
    List.nil_append, List.cons_append]
  simp only [turned, hhi]

/-- From the western end it is the width to the eastern end, or a turn less. -/
theorem hi_eq_or (h0 : 0 < bounds.width) (h360 : bounds.width < 360) :
    ∃ i : ℤ, bounds.rect.lng.lo = bounds.lng1 + i * 360 ∧
      (bounds.rect.lng.hi = bounds.rect.lng.lo + bounds.width ∨
        bounds.rect.lng.hi = bounds.rect.lng.lo + bounds.width - 360) := by
  obtain ⟨⟨hlo, hlo'⟩, hhi, hhi'⟩ := bounds.rect_lng_mem h0 h360
  obtain ⟨i, j, hi, hj⟩ := bounds.exists_turns
  refine ⟨i, hi, ?_⟩
  have hlow : (-2 : ℚ) < j := by linarith
  have hhigh : (j : ℚ) < 1 := by linarith
  have hlow' : -2 < j := by exact_mod_cast hlow
  have hhigh' : j < 1 := by exact_mod_cast hhigh
  have hcases : j = 0 ∨ j = -1 := by omega
  rcases hcases with rfl | rfl
  · left
    rw [hj, Int.cast_zero, zero_mul, add_zero]
  · right
    rw [hj]
    push_cast
    ring

/-- The loop goes the short way from `lng1`: eastward round the rectangle, -/
theorem counterclockwise_of_eastward (h : bounds.Eastward) : ∃ i : ℤ,
    Counterclockwise (boxLoop bounds.rect) (bounds.lng1 + i * 360)
      (bounds.lng1 + bounds.width + i * 360) bounds.lat1 bounds.lat2 := by
  have h0 : 0 < bounds.width := by
    rcases h with h | h <;> linarith [h.1]
  have h180 : bounds.width ≤ 180 := by
    rcases h with h | h
    · exact h.2.le
    · exact h.1.le
  obtain ⟨i, hlo, hhi⟩ := bounds.hi_eq_or h0 (by linarith)
  have hend : bounds.lng1 + bounds.width + i * 360 = bounds.rect.lng.lo + bounds.width := by
    rw [hlo]
    ring
  refine ⟨i, ?_⟩
  rw [← hlo, hend]
  rcases hhi with hhi | hhi
  · apply counterclockwise_of_pieces (k := 0)
    rw [bounds.boxLoop_pieces h0 (by linarith)]
    apply boxVertices_eq
    · rw [hhi, Int.cast_zero, zero_mul, add_zero]
    · rw [wrapCoordinate_of_near (by linarith) (by linarith), hhi]
    · rw [wrapCoordinate_of_near (by linarith) (by linarith), Int.cast_zero, zero_mul, add_zero]
  · have hlt : bounds.width < 180 := by
      rcases h with h | h
      · exact h.2
      · linarith [(bounds.eastward_iff h.1).mpr h.2]
    apply counterclockwise_of_pieces (k := -1)
    rw [bounds.boxLoop_pieces h0 (by linarith)]
    apply boxVertices_eq
    · rw [hhi]
      push_cast
      ring
    · rw [wrapCoordinate_of_west (by linarith) (by linarith), hhi, sub_add_cancel]
    · rw [wrapCoordinate_of_east (by linarith) (by linarith)]
      push_cast
      ring

/-- or westward round the gap. -/
theorem clockwise_of_not_eastward (h180 : 180 ≤ bounds.width) (h360 : bounds.width < 360)
    (h : ¬bounds.Eastward) : ∃ i : ℤ,
    Clockwise (boxLoop bounds.rect) (bounds.lng1 + bounds.width + i * 360)
      (bounds.lng1 + 360 + i * 360) bounds.lat1 bounds.lat2 := by
  obtain ⟨i, hlo, hhi⟩ := bounds.hi_eq_or (by linarith) h360
  have hend : bounds.lng1 + bounds.width + (i - 1 : ℤ) * 360 =
      bounds.rect.lng.lo + bounds.width - 360 := by
    rw [hlo]
    push_cast
    ring
  have hend' : bounds.lng1 + 360 + (i - 1 : ℤ) * 360 = bounds.rect.lng.lo := by
    rw [hlo]
    push_cast
    ring
  refine ⟨i - 1, ?_⟩
  rw [hend, hend']
  rcases hhi with hhi | hhi
  · have hlt : 180 < bounds.width := by
      apply lt_of_le_of_ne h180
      intro heq
      have hhalf : bounds.rect.lng.hi = bounds.rect.lng.lo + 180 := heq ▸ hhi
      exact h (Or.inr ⟨heq.symm, (bounds.eastward_iff heq.symm).mp hhalf⟩)
    apply clockwise_of_pieces (k := 1)
    rw [bounds.boxLoop_pieces (by linarith) h360]
    apply boxVertices_eq
    · rw [hhi]
      push_cast
      ring
    · rw [wrapCoordinate_of_east (by linarith) (by linarith), hhi]
    · rw [wrapCoordinate_of_west (by linarith) (by linarith)]
      push_cast
      ring
  · apply clockwise_of_pieces (k := 0)
    rw [bounds.boxLoop_pieces (by linarith) h360]
    apply boxVertices_eq
    · rw [hhi, Int.cast_zero, zero_mul, add_zero]
    · rw [wrapCoordinate_of_near (by linarith) (by linarith), hhi]
    · rw [wrapCoordinate_of_near (by linarith) (by linarith), Int.cast_zero, zero_mul, add_zero]

/-! ### The region on the left -/

theorem properBox_rectangle (h0 : 0 < bounds.width) (h360 : bounds.width < 360) :
    ProperBox bounds.lng1 (bounds.lng1 + bounds.width) bounds.lat1 bounds.lat2 where
  lng_lt := by linarith
  lt_turn := by linarith
  south_le := bounds.south_le
  lat_lt := bounds.lat_lt
  le_north := bounds.le_north

theorem properBox_gap (h0 : 0 < bounds.width) (h360 : bounds.width < 360) :
    ProperBox (bounds.lng1 + bounds.width) (bounds.lng1 + 360) bounds.lat1 bounds.lat2 where
  lng_lt := by linarith
  lt_turn := by linarith
  south_le := bounds.south_le
  lat_lt := bounds.lat_lt
  le_north := bounds.le_north

theorem region_of_eastward (h : bounds.Eastward) (h0 : 0 < bounds.width)
    (h360 : bounds.width < 360) : (boxLoop bounds.rect).region = .of bounds.rectangle := by
  obtain ⟨i, hloop⟩ := bounds.counterclockwise_of_eastward h
  rw [hloop.region_eq ((bounds.properBox_rectangle h0 h360).turned i), spread_box_turned]
  rfl

theorem region_of_not_eastward (h180 : 180 ≤ bounds.width) (h360 : bounds.width < 360)
    (h : ¬bounds.Eastward) : (boxLoop bounds.rect).region = .outside bounds.gap := by
  obtain ⟨i, hloop⟩ := bounds.clockwise_of_not_eastward h180 h360 h
  rw [hloop.region_eq ((bounds.properBox_gap (by linarith) h360).turned i), spread_box_turned]
  rfl

/-! ### From the antimeridian to itself -/

theorem width_eq_zero_iff : bounds.width = 0 ↔ bounds.lng1 = 180 ∧ bounds.lng2 = -180 := by
  obtain ⟨hlow, hhigh⟩ := bounds.lng1_mem
  obtain ⟨hlow', hhigh'⟩ := bounds.lng2_mem
  have hne := bounds.lng_ne
  unfold width
  split_ifs <;> grind

theorem width_eq_turn_iff : bounds.width = 360 ↔ bounds.lng1 = -180 ∧ bounds.lng2 = 180 := by
  obtain ⟨hlow, hhigh⟩ := bounds.lng1_mem
  obtain ⟨hlow', hhigh'⟩ := bounds.lng2_mem
  have hne := bounds.lng_ne
  unfold width
  split_ifs <;> grind

theorem properBox_strip : ProperBox (180 - antimeridianDegrees / 2)
    (180 + antimeridianDegrees / 2) bounds.lat1 bounds.lat2 where
  lng_lt := by norm_num [antimeridianDegrees]
  lt_turn := by norm_num [antimeridianDegrees]
  south_le := bounds.south_le
  lat_lt := bounds.lat_lt
  le_north := bounds.le_north

/-- The loop goes round the strip: counterclockwise from 180 to -180, -/
theorem region_of_width_zero (h : bounds.width = 0) :
    (boxLoop bounds.rect).region = .of bounds.strip := by
  obtain ⟨hlng1, hlng2⟩ := bounds.width_eq_zero_iff.mp h
  have hrect : bounds.rect = ⟨bounds.lat1, bounds.lat2, ⟨180, -180⟩⟩ := by
    simp only [rect, S2LatLngRect.make, S1Interval.make, hlng1, hlng2]
    norm_num
  have hloop : Counterclockwise (boxLoop bounds.rect) (180 - antimeridianDegrees / 2)
      (180 + antimeridianDegrees / 2) bounds.lat1 bounds.lat2 := by
    apply counterclockwise_of_pieces (k := -1)
    change boxVertices bounds.rect.unprojected = _
    rw [hrect, S2LatLngRect.unprojected, if_neg (by norm_num), if_pos rfl]
    apply boxVertices_eq
    · norm_num [antimeridianDegrees]
    · rw [wrapCoordinate_of_west] <;> norm_num [antimeridianDegrees]
    · rw [wrapCoordinate_of_east] <;> norm_num [antimeridianDegrees]
  exact hloop.region_eq bounds.properBox_strip

/-- and clockwise from -180 to 180. -/
theorem region_of_width_turn (h : bounds.width = 360) :
    (boxLoop bounds.rect).region = .outside bounds.strip := by
  obtain ⟨hlng1, hlng2⟩ := bounds.width_eq_turn_iff.mp h
  have hrect : bounds.rect = ⟨bounds.lat1, bounds.lat2, ⟨-180, 180⟩⟩ := by
    simp only [rect, S2LatLngRect.make, S1Interval.make, hlng1, hlng2]
    norm_num
  have hloop : Clockwise (boxLoop bounds.rect) (180 - antimeridianDegrees / 2 + (-1 : ℤ) * 360)
      (180 + antimeridianDegrees / 2 + (-1 : ℤ) * 360) bounds.lat1 bounds.lat2 := by
    apply clockwise_of_pieces (k := 1)
    change boxVertices bounds.rect.unprojected = _
    rw [hrect, S2LatLngRect.unprojected, if_pos rfl]
    have hwest : (-180 + antimeridianDegrees / 2 : ℚ) =
        180 + antimeridianDegrees / 2 + (-1 : ℤ) * 360 := by
      push_cast
      ring
    rw [← hwest]
    apply boxVertices_eq
    · norm_num [antimeridianDegrees]
    · rw [wrapCoordinate_of_east] <;> norm_num [antimeridianDegrees]
    · rw [wrapCoordinate_of_west] <;> norm_num [antimeridianDegrees]
  rw [hloop.region_eq (bounds.properBox_strip.turned (-1)), spread_box_turned]
  rfl

/-! ### The rectangle and the gap -/

theorem not_mem_gap (h0 : 0 < bounds.width) (h360 : bounds.width < 360) {p : SpherePoint}
    (hp : p ∈ interior bounds.rectangle) : p ∉ bounds.gap := by
  have hbox := bounds.properBox_rectangle h0 h360
  rw [rectangle, hbox.interior_spread] at hp
  obtain ⟨P, hinner, hP⟩ := hp
  have hpole : ¬IsPole (turned 1 P) := hbox.not_isPole hinner.2
  apply (bounds.properBox_gap h0 h360).not_mem_of_lng (hP.turned 1) hpole
  obtain ⟨hwest, heast⟩ := hinner.1
  simp only [turned]
  push_cast
  exact ⟨by linarith, by linarith⟩

theorem not_mem_interior_gap (h0 : 0 < bounds.width) (h360 : bounds.width < 360) {p : SpherePoint}
    (hp : p ∈ bounds.rectangle) : p ∉ interior bounds.gap := by
  have hbox := bounds.properBox_gap h0 h360
  rw [gap, hbox.interior_spread]
  rintro ⟨P, hinner, hP⟩
  exact (bounds.properBox_rectangle h0 h360).not_mem_of_lng hP (hbox.not_isPole hinner.2)
    hinner.1 hp

end BoxBounds

end S2Geography
