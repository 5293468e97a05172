import S2Geography.RingConstruction

/-!
# The two decoders of a coordinate

Points are made from three doubles whatever the size of a coordinate is, vertices of lines
and rings only take a third double if the size is three. On the unit sphere the two agree,
and stay within the coordinate, just where the size is three or the third double is zero.
-/
namespace S2Geography

open Constructor CheckedRun

/-! ### Equality of points -/

namespace Double

def isZero (d : Double) : Bool := d.bits &&& 0x7fffffffffffffff#64 = 0

/-- `operator==`: a NaN equals nothing, and the two zeros are equal. -/
def equals (a b : Double) : Bool := !a.isNaN && !b.isNaN && (a = b || a.isZero && b.isZero)

theorem equals_self {d : Double} (h : d.isNaN = false) : d.equals d = true := by
  simp [equals, h]

theorem isNaN_of_isZero {d : Double} (h : d.isZero = true) : d.isNaN = false := by
  simp only [isZero, decide_eq_true_eq] at h
  simp [isNaN, h]

theorem equals_zero_iff (d : Double) : d.equals .zero = true ↔ d.isZero = true := by
  have hzero : zero.isZero = true := by decide
  constructor
  · intro h
    simp only [equals, Bool.and_eq_true, Bool.or_eq_true, decide_eq_true_eq] at h
    rcases h.2 with rfl | h
    · exact hzero
    · exact h.1
  · intro h
    simp [equals, isNaN_of_isZero h, isNaN_of_isZero hzero, h, hzero]

end Double

def S2Point.equals (p q : S2Point) : Bool :=
  p.x.equals q.x && p.y.equals q.y && p.z.equals q.z

/-! ### Decoding -/

/-- The doubles that belong to a coordinate of a size. -/
def WkCoord.delivered (coord : WkCoord) (coordSize : ℕ) : List Double :=
  [coord.c0, coord.c1, coord.c2, coord.c3].take coordSize

variable {L Pg : Type}

/-- The coordinates that are not empty. -/
def nonemptyCoords (header : WkHeader) (coords : List WkCoord) : List WkCoord :=
  coords.filter fun coord => !coordEmpty coord header.coordSize

/-- Delivered to the constructors of points, lines and polygons in any state, the coordinates
that are not empty become equal points. -/
def DecodesAlike (options : Options) (header : WkHeader) (coords : List WkCoord) : Prop :=
  ∀ (L Pg : Type) (lib : S2Lib L Pg) (p : PointConstructor) (l : PolylineConstructor)
    (r : PolygonConstructor L), ∃ points vertices vertices',
    feed (PointConstructor.handle options) (coordCalls header coords) p =
        .ok ⟨p.points ++ points⟩ ∧
      feed (PolylineConstructor.handle options)
          (coordCalls header (nonemptyCoords header coords)) l =
        .ok { l with inputPoints := l.inputPoints ++ vertices } ∧
      feed (PolygonConstructor.handle lib options)
          (coordCalls header (nonemptyCoords header coords)) r =
        .ok { r with inputPoints := r.inputPoints ++ vertices' } ∧
      List.Forall₂ (fun point vertex => point.equals vertex = true) points vertices ∧
      List.Forall₂ (fun point vertex => point.equals vertex = true) points vertices'

/-- No constructor can tell coordinates apart that differ only beyond their size. -/
def ReadsDelivered (options : Options) (header : WkHeader) (coords : List WkCoord) : Prop :=
  ∀ coords', List.Forall₂ (fun coord coord' : WkCoord =>
      coord.delivered header.coordSize = coord'.delivered header.coordSize) coords coords' →
    ∀ (L Pg : Type) (lib : S2Lib L Pg) (p : PointConstructor) (l : PolylineConstructor)
      (r : PolygonConstructor L),
      feed (PointConstructor.handle options) (coordCalls header coords) p =
          feed (PointConstructor.handle options) (coordCalls header coords') p ∧
        feed (PolylineConstructor.handle options) (coordCalls header coords) l =
          feed (PolylineConstructor.handle options) (coordCalls header coords') l ∧
        feed (PolygonConstructor.handle lib options) (coordCalls header coords) r =
          feed (PolygonConstructor.handle lib options) (coordCalls header coords') r

theorem coordSize_cases (header : WkHeader) :
    header.coordSize = 2 ∨ header.coordSize = 3 ∨ header.coordSize = 4 := by
  unfold WkHeader.coordSize
  cases header.hasZ <;> cases header.hasM <;> simp

theorem coordEmpty_eq (coord : WkCoord) (coordSize : ℕ) :
    coordEmpty coord coordSize = (coord.delivered coordSize).any Double.isNaN := rfl

/-- The condition on one coordinate. -/
def DecodesWithin (header : WkHeader) (coord : WkCoord) : Prop :=
  coordEmpty coord header.coordSize = true ∨ header.coordSize = 3 ∨
    header.coordSize = 4 ∧ coord.c2.isZero = true

theorem decodesAlike_iff {options : Options} {header : WkHeader} {coords : List WkCoord} :
    DecodesAlike options header coords ↔ ∀ coord ∈ nonemptyCoords header coords,
      (pointOf options coord).equals (inputPoint coord header.coordSize) = true := by
  have hforall : List.Forall₂ (fun point vertex => point.equals vertex = true)
      ((nonemptyCoords header coords).map (pointOf options))
      ((nonemptyCoords header coords).map (inputPoint · header.coordSize)) ↔
      ∀ coord ∈ nonemptyCoords header coords,
        (pointOf options coord).equals (inputPoint coord header.coordSize) = true := by
    rw [List.forall₂_map_left_iff, List.forall₂_map_right_iff, List.forall₂_same]
  rw [← hforall]
  constructor
  · intro h
    obtain ⟨points, vertices, -, hpoints, hvertices, -, heq, -⟩ :=
      h (List S2Point) Unit verticesLib ⟨[]⟩ ⟨[], [], []⟩ ⟨[], [], []⟩
    rw [PointConstructor.feed_coords] at hpoints
    rw [PolylineConstructor.feed_coords] at hvertices
    have hpoints := congrArg PointConstructor.points (Except.ok.inj hpoints)
    have hvertices := congrArg PolylineConstructor.inputPoints (Except.ok.inj hvertices)
    simp only [List.nil_append] at hpoints hvertices
    rwa [← hpoints, ← hvertices] at heq
  · intro h L Pg lib p l r
    exact ⟨_, _, _, PointConstructor.feed_coords header coords p,
      PolylineConstructor.feed_coords header _ l, PolygonConstructor.feed_coords header _ r, h, h⟩

theorem inputPoint_congr {header : WkHeader} {coord coord' : WkCoord}
    (h : coord.delivered header.coordSize = coord'.delivered header.coordSize) :
    inputPoint coord header.coordSize = inputPoint coord' header.coordSize := by
  rcases coordSize_cases header with hsize | hsize | hsize <;>
    simp_all [WkCoord.delivered, inputPoint]

/-- The coordinate with another third double. -/
def otherThird (coord : WkCoord) : WkCoord := { coord with c2 := ⟨coord.c2.bits + 1⟩ }

section Unprojected

variable {options : Options} (hproj : options.projection = none)
include hproj

theorem pointOf_eq (coord : WkCoord) : pointOf options coord = ⟨coord.c0, coord.c1, coord.c2⟩ := by
  rw [pointOf, hproj]

theorem pointOf_congr {header : WkHeader} {coord coord' : WkCoord} (hsize : header.coordSize ≠ 2)
    (h : coord.delivered header.coordSize = coord'.delivered header.coordSize) :
    pointOf options coord = pointOf options coord' := by
  rw [pointOf_eq hproj, pointOf_eq hproj]
  rcases coordSize_cases header with hsize' | hsize' | hsize'
  · exact absurd hsize' hsize
  · simp_all [WkCoord.delivered]
  · simp_all [WkCoord.delivered]

/-- On a coordinate of more than two doubles the decoders agree under this condition. -/
theorem equals_inputPoint_iff {header : WkHeader} {coord : WkCoord} (hsize : header.coordSize ≠ 2)
    (hne : coordEmpty coord header.coordSize = false) :
    (pointOf options coord).equals (inputPoint coord header.coordSize) = true ↔
      header.coordSize = 3 ∨ header.coordSize = 4 ∧ coord.c2.isZero = true := by
  rw [pointOf_eq hproj, inputPoint]
  rcases coordSize_cases header with h | h | h
  · exact absurd h hsize
  · simp only [coordEmpty, h, List.take, List.any, Bool.or_eq_false_iff] at hne
    simp [h, S2Point.equals, Double.equals_self, hne]
  · simp only [coordEmpty, h, List.take, List.any, Bool.or_eq_false_iff] at hne
    simp [h, S2Point.equals, Double.equals_self, Double.equals_zero_iff, hne]

/-- What the constructors get from a stream only depends on the coordinates delivered. -/
theorem decoded_congr {header : WkHeader} {coords coords' : List WkCoord}
    (h : List.Forall₂ (fun coord coord' : WkCoord =>
      coord.delivered header.coordSize = coord'.delivered header.coordSize) coords coords')
    (hwithin : ∀ coord ∈ coords, DecodesWithin header coord) :
    (nonemptyCoords header coords).map (pointOf options) =
        (nonemptyCoords header coords').map (pointOf options) ∧
      coords.map (inputPoint · header.coordSize) =
        coords'.map (inputPoint · header.coordSize) := by
  induction h with
  | nil => exact ⟨rfl, rfl⟩
  | @cons coord coord' coords coords' hcoord _ ih =>
    obtain ⟨hpoints, hvertices⟩ := ih fun c hc => hwithin c (List.mem_cons_of_mem _ hc)
    have hempty : coordEmpty coord header.coordSize = coordEmpty coord' header.coordSize := by
      rw [coordEmpty_eq, coordEmpty_eq, hcoord]
    refine ⟨?_, by rw [List.map_cons, List.map_cons, inputPoint_congr hcoord, hvertices]⟩
    unfold nonemptyCoords at hpoints ⊢
    rw [List.filter_cons, List.filter_cons, ← hempty]
    cases hne : coordEmpty coord header.coordSize with
    | true => exact hpoints
    | false =>
      have hsize : header.coordSize ≠ 2 := by
        rcases hwithin coord List.mem_cons_self with h | h | ⟨h, -⟩
        · rw [hne] at h
          cases h
        · omega
        · omega
      simp only [Bool.not_false, if_true, List.map_cons, hpoints, pointOf_congr hproj hsize hcoord]

theorem readsDelivered_of_decodesWithin {header : WkHeader} {coords : List WkCoord}
    (h : ∀ coord ∈ coords, DecodesWithin header coord) : ReadsDelivered options header coords := by
  intro coords' hcoords L Pg lib p l r
  obtain ⟨hpoints, hvertices⟩ := decoded_congr hproj hcoords h
  refine ⟨?_, ?_, ?_⟩
  · rw [PointConstructor.feed_coords, PointConstructor.feed_coords]
    exact congrArg (fun points => Except.ok (PointConstructor.mk (p.points ++ points))) hpoints
  · rw [PolylineConstructor.feed_coords, PolylineConstructor.feed_coords, hvertices]
  · rw [PolygonConstructor.feed_coords, PolygonConstructor.feed_coords, hvertices]

/-- If points do not depend on a third double that is not delivered, none are made. -/
theorem ReadsDelivered.empty {header : WkHeader} {coords : List WkCoord}
    (h : ReadsDelivered options header coords) (hsize : header.coordSize = 2) :
    ∀ coord ∈ coords, coordEmpty coord header.coordSize = true := by
  have hcoords : List.Forall₂ (fun coord coord' : WkCoord =>
      coord.delivered header.coordSize = coord'.delivered header.coordSize) coords
      (coords.map otherThird) := by
    rw [List.forall₂_map_right_iff, List.forall₂_same, hsize]
    exact fun _ _ => rfl
  obtain ⟨hrun, -⟩ := h _ hcoords (List S2Point) Unit verticesLib ⟨[]⟩ ⟨[], [], []⟩ ⟨[], [], []⟩
  rw [PointConstructor.feed_coords, PointConstructor.feed_coords] at hrun
  have hpoints := congrArg PointConstructor.points (Except.ok.inj hrun)
  have hsame : (fun coord => !coordEmpty coord header.coordSize) ∘ otherThird =
      fun coord => !coordEmpty coord header.coordSize := by
    rw [hsize]
    rfl
  simp only [List.nil_append] at hpoints
  rw [List.filter_map, hsame, List.map_map, List.map_inj_left] at hpoints
  intro coord hmem
  by_contra hne
  have hpoint := hpoints coord (List.mem_filter.mpr ⟨hmem, by simpa using hne⟩)
  rw [Function.comp_apply, pointOf_eq hproj, pointOf_eq hproj] at hpoint
  have hbits : coord.c2.bits = coord.c2.bits + 1 :=
    congrArg (fun point => point.z.bits) hpoint
  bv_omega

end Unprojected

/-- On the unit sphere the constructors decode alike, from the doubles delivered, exactly where
every coordinate is empty, or of size three, or of size four with z zero. -/
theorem decode_iff (oriented check : Bool) (tessellateTolerance : Option Double)
    (header : WkHeader) (coords : List WkCoord) :
    let options := importOptions oriented check none tessellateTolerance
    (DecodesAlike options header coords ∧ ReadsDelivered options header coords) ↔
      ∀ coord ∈ coords, DecodesWithin header coord := by
  intro options
  have hproj : options.projection = none := rfl
  constructor
  · rintro ⟨halike, hreads⟩ coord hmem
    cases hempty : coordEmpty coord header.coordSize with
    | true => exact .inl hempty
    | false =>
      have hsize : header.coordSize ≠ 2 := by
        intro hsize
        rw [hreads.empty hproj hsize coord hmem] at hempty
        cases hempty
      have hnonempty : coord ∈ nonemptyCoords header coords :=
        List.mem_filter.mpr ⟨hmem, by rw [hempty]; rfl⟩
      exact .inr ((equals_inputPoint_iff hproj hsize hempty).mp
        (decodesAlike_iff.mp halike coord hnonempty))
  · intro h
    refine ⟨decodesAlike_iff.mpr fun coord hmem => ?_, readsDelivered_of_decodesWithin hproj h⟩
    obtain ⟨hmem, hne⟩ := List.mem_filter.mp hmem
    rw [Bool.not_eq_true'] at hne
    have hwithin := (h coord hmem).resolve_left (by rw [hne]; exact Bool.false_ne_true)
    have hsize : header.coordSize ≠ 2 := by omega
    exact (equals_inputPoint_iff hproj hsize hne).mpr hwithin

/-- A point of two coordinates is made of a third double, and a line loses the z of a
coordinate with z and m. -/
theorem not_decode_axes :
    ¬ReadsDelivered (importOptions false true none none) ⟨some 1, false, false⟩
        [⟨Exporter.axisX.x, .zero, .zero, .zero⟩] ∧
      ¬DecodesAlike (importOptions false true none none) ⟨some 1, true, true⟩
        [⟨.zero, .zero, Exporter.axisZ.z, .zero⟩] := by
  constructor
  · intro h
    have hempty := h.empty rfl rfl _ List.mem_cons_self
    exact absurd hempty (by decide)
  · intro h
    have hequals := decodesAlike_iff.mp h _ List.mem_cons_self
    exact absurd hequals (by decide)

end S2Geography
