import S2Geography.PolygonValidation
import S2Geography.SerializeRoundTrip

/-!
# Validation of collections

When a collection reports an error exactly if one of its members does. Collections of
mixed dimensions always do; those of one dimension do if the edges that rebuilding keeps
have an error where a member has one, and those of different members fit together where
none has.
-/
namespace S2Geography

open Exporter

namespace Geography

theorem mem_shapeDimensionsAll {Pg : Type} {features : List (Geography Pg)} {dim : ℕ} :
    dim ∈ shapeDimensionsAll features ↔ ∃ feature ∈ features, dim ∈ feature.shapeDimensions := by
  induction features with
  | nil => simp [shapeDimensionsAll]
  | cons feature features ih => simp [shapeDimensionsAll, ih]

/-- All shapes have this dimension, if there are any. -/
def Uniform (d : ℕ) (geog : Geography (List StoredLoop)) : Prop :=
  ∀ dim ∈ geog.shapeDimensions, dim = d

variable {d : ℕ} {features : List (Geography (List StoredLoop))}

theorem Uniform.member (h : Uniform d (.collection features)) {feature : Geography _}
    (hfeature : feature ∈ features) : Uniform d feature :=
  fun dim hdim => h dim (mem_shapeDimensionsAll.mpr ⟨feature, hfeature, hdim⟩)

theorem uniform_of_dimension (h : (Geography.collection features).dimension = (d : ℤ)) :
    Uniform d (.collection features) := by
  unfold Geography.dimension at h
  intro dim hdim
  cases hdims : (Geography.collection features).shapeDimensions with
  | nil =>
    rw [hdims] at hdim
    exact absurd hdim List.not_mem_nil
  | cons first dims =>
    simp only [hdims] at h
    rw [hdims] at hdim
    split at h
    · next hall =>
      have hfirst : first = d := by exact_mod_cast h
      rcases List.mem_cons.mp hdim with rfl | hdim
      · exact hfirst
      · have hdim' := List.all_eq_true.mp hall dim hdim
        exact (by simpa using hdim' : dim = first).trans hfirst
    · omega

/-- Without shapes a collection has no dimension. -/
theorem dimension_of_uniform (h : Uniform d (.collection features)) :
    (Geography.collection features).dimension = (d : ℤ) ∨
      (Geography.collection features).dimension = -1 ∧
        (Geography.collection features).shapeDimensions = [] := by
  unfold Geography.dimension
  cases hdims : (Geography.collection features).shapeDimensions with
  | nil => exact Or.inr ⟨rfl, rfl⟩
  | cons first dims =>
    unfold Uniform at h
    rw [hdims] at h
    obtain rfl : first = d := h first List.mem_cons_self
    have hall : dims.all (fun dim => decide (dim = first)) = true := by
      rw [List.all_eq_true]
      intro dim hdim
      simpa using h dim (List.mem_cons_of_mem _ hdim)
    exact Or.inl (if_pos hall)

end Geography

namespace Accessors

open Geography

variable {layers : S2Layers} {lib : S2Validity} {features : List (Geography (List StoredLoop))}
variable {P : Type} {signedCrossing : P → Edge → ℤ}

theorem mem_shapeEdges {d : ℕ} {geog : Geography (List StoredLoop)} {e : Edge} :
    e ∈ shapeEdges d geog ↔ ∃ shape ∈ geog.shapes, shape.dimension = d ∧ e ∈ shape.edges := by
  simp [shapeEdges, List.mem_flatMap, and_assoc]

theorem shapeEdges_of_uniform {d d' : ℕ} {geog : Geography (List StoredLoop)}
    (h : Uniform d geog) (hne : d ≠ d') : shapeEdges d' geog = [] := by
  rw [List.eq_nil_iff_forall_not_mem]
  intro e he
  obtain ⟨shape, hshape, hdim, -⟩ := mem_shapeEdges.mp he
  have hmem : shape.dimension ∈ geog.shapeDimensions := by
    rw [← shapes_dimension]
    exact List.mem_map_of_mem hshape
  exact hne ((h _ hmem).symm.trans hdim)

/-- What rebuilding relies on: the polyline layer's edges, and layers that return nothing if
they receive nothing. -/
structure Builds (layers : S2Layers) : Prop extends layers.Vacuous, PolylineLayer layers

/-- Lines that are rebuilt have an error if an edge has, other than length 0. -/
theorem catchException_s2BuildPolyline (h : Builds layers) (lib : S2Validity)
    {geog : Geography (List StoredLoop)} (hgeog : Uniform 1 geog) :
    ∃ error, catchException (s2BuildPolyline layers geog) (polylinesError lib) = .ok error ∧
      (error ≠ none ↔ ∃ e ∈ shapeEdges 1 geog, e.1.eq e.2 = false ∧ BadEdge lib e) := by
  have hproper := proper_discardDegenerate (shapeEdges 1 geog)
  have hlayer := polylinesError_layer_iff h.toPolylineLayer lib hproper
  obtain ⟨polylines, hbuilt, hpolylines⟩ := s2BuildPolyline_eq h.toVacuous
    (shapeEdges_of_uniform hgeog (by decide)) (shapeEdges_of_uniform hgeog (by decide))
  have heq : polylines = layers.polylines (discardDegenerate (shapeEdges 1 geog)) := by
    rcases hpolylines with heq | ⟨rfl, hshort⟩
    · exact heq
    · refine (List.eq_nil_iff_forall_not_mem.mpr fun out hout => ?_).symm
      have hlong := h.length _ hproper out hout
      have hshort := hshort out hout
      omega
  refine ⟨polylinesError lib polylines, by rw [hbuilt, catchException], ?_⟩
  rw [heq, hlayer]
  constructor
  · rintro ⟨e, he, hbad⟩
    exact ⟨e, (List.mem_filter.mp he).1, hproper e he, hbad⟩
  · rintro ⟨e, he, hsame, hbad⟩
    exact ⟨e, List.mem_filter.mpr ⟨he, by simp [hsame]⟩, hbad⟩

theorem exists_catchException_s2BuildPolygon (h : Builds layers) (lib : S2Validity)
    {geog : Geography (List StoredLoop)} (hgeog : Uniform 2 geog) :
    ∃ error, catchException (s2BuildPolygon layers geog) (polygonError lib) = .ok error := by
  rw [s2BuildPolygon_eq h.toVacuous (shapeEdges_of_uniform hgeog (by decide))
    (shapeEdges_of_uniform hgeog (by decide))]
  cases layers.polygon (discardDegenerate (shapeEdges 2 geog)) with
  | error text => exact ⟨some text, rfl⟩
  | ok loops => exact ⟨polygonError lib loops, rfl⟩

mutual

theorem exists_s2FindValidationError (h : Builds layers) (lib : S2Validity) :
    (geog : Geography (List StoredLoop)) →
    ∃ error, s2FindValidationError layers lib geog = .ok error
  | .point _ => ⟨none, rfl⟩
  | .polyline polylines => ⟨polylinesError lib polylines, rfl⟩
  | .polygon loops => ⟨polygonError lib loops, rfl⟩
  | .collection features => by
    unfold s2FindValidationError
    split
    · exact ⟨none, rfl⟩
    · split
      · next hdim =>
        obtain ⟨error, herror, -⟩ := catchException_s2BuildPolyline h lib
          (uniform_of_dimension hdim)
        exact ⟨error, herror⟩
      · split
        · next hdim =>
          exact exists_catchException_s2BuildPolygon h lib (uniform_of_dimension hdim)
        · exact exists_findValidationErrorAll h lib features

theorem exists_findValidationErrorAll (h : Builds layers) (lib : S2Validity) :
    (features : List (Geography (List StoredLoop))) →
    ∃ error, findValidationErrorAll layers lib features = .ok error
  | [] => ⟨none, rfl⟩
  | feature :: features => by
    obtain ⟨error, herror⟩ := exists_s2FindValidationError h lib feature
    cases error with
    | none =>
      obtain ⟨error', herror'⟩ := exists_findValidationErrorAll h lib features
      exact ⟨error', by rw [findValidationErrorAll, herror, herror']⟩
    | some text => exact ⟨some text, by rw [findValidationErrorAll, herror]⟩

end

theorem reports_iff {geog : Geography (List StoredLoop)} {error : Option String}
    (herror : s2FindValidationError layers lib geog = .ok error) :
    Reports layers lib geog ↔ error ≠ none := by
  rw [Reports, herror, Option.ne_none_iff_exists']
  simp only [Except.ok.injEq]

theorem findValidationErrorAll_iff (h : Builds layers) :
    (∃ text, findValidationErrorAll layers lib features = .ok (some text)) ↔
      ∃ m ∈ features, Reports layers lib m := by
  induction features with
  | nil => simp [findValidationErrorAll]
  | cons feature features ih =>
    obtain ⟨error, herror⟩ := exists_s2FindValidationError h lib feature
    have hfeature := reports_iff herror
    rw [findValidationErrorAll, herror]
    cases error with
    | none =>
      simp only [ne_eq, not_true_eq_false, iff_false] at hfeature
      simp [ih, hfeature]
    | some text =>
      have hreports : Reports layers lib feature := hfeature.mpr (by simp)
      simp [hreports]

/-! ### The kinds of collection -/

/-- A collection of mixed dimensions, or without shapes, asks its members. -/
theorem reports_mixed_iff (h : Builds layers)
    (h0 : (Geography.collection features).dimension ≠ 0)
    (h1 : (Geography.collection features).dimension ≠ 1)
    (h2 : (Geography.collection features).dimension ≠ 2) :
    Reports layers lib (.collection features) ↔ ∃ m ∈ features, Reports layers lib m := by
  rw [← findValidationErrorAll_iff h, Reports, s2FindValidationError, if_neg h0, if_neg h1,
    if_neg h2]

mutual

/-- Points have no errors. -/
theorem not_reports_of_uniform_zero (h : Builds layers) :
    (geog : Geography (List StoredLoop)) → Uniform 0 geog → ¬Reports layers lib geog
  | .point _, _ => fun ⟨_, htext⟩ => nomatch htext
  | .polyline polylines, hgeog => by
    have hnil : polylines = [] := by
      cases polylines with
      | nil => rfl
      | cons vertices polylines => exact absurd (hgeog 1 List.mem_cons_self) (by decide)
    rw [hnil, reports_iff rfl]
    exact not_not.mpr rfl
  | .polygon loops, hgeog => absurd (hgeog 2 List.mem_cons_self) (by decide)
  | .collection features, hgeog => by
    rcases dimension_of_uniform hgeog with hdim | ⟨hdim, -⟩
    · rintro ⟨text, htext⟩
      rw [s2FindValidationError, if_pos (by exact_mod_cast hdim)] at htext
      cases htext
    · rw [reports_mixed_iff h (by omega) (by omega) (by omega)]
      rintro ⟨m, hm, hreports⟩
      exact not_reportsAll_of_uniform_zero h features (fun m hm => hgeog.member hm) m hm hreports

theorem not_reportsAll_of_uniform_zero (h : Builds layers) :
    (features : List (Geography (List StoredLoop))) → (∀ m ∈ features, Uniform 0 m) →
    ∀ m ∈ features, ¬Reports layers lib m
  | [], _, _, hm => absurd hm List.not_mem_nil
  | feature :: features, hfeatures, m, hm => by
    rcases List.mem_cons.mp hm with heq | hm
    · rw [heq]
      exact not_reports_of_uniform_zero h feature (hfeatures feature List.mem_cons_self)
    · exact not_reportsAll_of_uniform_zero h features
        (fun m hm => hfeatures m (List.mem_cons_of_mem _ hm)) m hm

end

end Accessors

end S2Geography
