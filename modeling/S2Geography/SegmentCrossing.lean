import Mathlib.Algebra.Order.Field.Basic
import Mathlib.Analysis.Convex.Segment
import Mathlib.Tactic.LinearCombination
import Mathlib.Tactic.Linarith
import Mathlib.Tactic.Positivity

/-!
# Segments and boxes

Where a segment of the plane leaves or enters an axis-parallel box, over any ordered field:
the crossings of linear functions are found by division, without completeness.
-/
namespace SegmentCrossing

variable {K : Type} [Field K] [LinearOrder K] [IsStrictOrderedRing K] {a b c d x x' : K}
  {P Q R : K × K}

abbrev box (a b c d : K) : Set (K × K) := Set.Icc a b ×ˢ Set.Icc c d

abbrev openBox (a b c d : K) : Set (K × K) := Set.Ioo a b ×ˢ Set.Ioo c d

theorem mem_segment_iff : R ∈ segment K P Q ↔ ∃ t, 0 ≤ t ∧ t ≤ 1 ∧
    R.1 = P.1 + t * (Q.1 - P.1) ∧ R.2 = P.2 + t * (Q.2 - P.2) := by
  rw [segment_eq_image']
  constructor
  · rintro ⟨t, ⟨h0, h1⟩, rfl⟩
    exact ⟨t, h0, h1, rfl, rfl⟩
  · rintro ⟨t, h0, h1, hx, hy⟩
    exact ⟨t, ⟨h0, h1⟩, Prod.ext hx.symm hy.symm⟩

theorem mem_segment_horizontal {y : K} :
    P ∈ segment K (x, y) (x', y) ↔ P.1 ∈ Set.uIcc x x' ∧ P.2 = y := by
  rw [← Prod.image_mk_segment_left, segment_eq_uIcc]
  constructor
  · rintro ⟨z, hz, rfl⟩
    exact ⟨hz, rfl⟩
  · rintro ⟨hx, rfl⟩
    exact ⟨P.1, hx, rfl⟩

theorem mem_segment_vertical {y y' : K} :
    P ∈ segment K (x, y) (x, y') ↔ P.1 = x ∧ P.2 ∈ Set.uIcc y y' := by
  rw [← Prod.image_mk_segment_right, segment_eq_uIcc]
  constructor
  · rintro ⟨z, hz, rfl⟩
    exact ⟨rfl, hz⟩
  · rintro ⟨rfl, hy⟩
    exact ⟨P.2, hy, rfl⟩

omit [IsStrictOrderedRing K] in
theorem mem_openSegment_horizontal {y : K} :
    P ∈ openSegment K (x, y) (x', y) ↔ P.1 ∈ openSegment K x x' ∧ P.2 = y := by
  rw [← Prod.image_mk_openSegment_left]
  constructor
  · rintro ⟨z, hz, rfl⟩
    exact ⟨hz, rfl⟩
  · rintro ⟨hx, rfl⟩
    exact ⟨P.1, hx, rfl⟩

omit [IsStrictOrderedRing K] in
theorem mem_openSegment_vertical {y y' : K} :
    P ∈ openSegment K (x, y) (x, y') ↔ P.1 = x ∧ P.2 ∈ openSegment K y y' := by
  rw [← Prod.image_mk_openSegment_right]
  constructor
  · rintro ⟨z, hz, rfl⟩
    exact ⟨rfl, hz⟩
  · rintro ⟨rfl, hy⟩
    exact ⟨P.2, hy, rfl⟩

theorem half_mem_openSegment (hne : x ≠ x') : (x + x') / 2 ∈ openSegment K x x' := by
  rcases hne.lt_or_gt with hlt | hgt
  · rw [openSegment_eq_Ioo hlt]
    exact ⟨by linarith, by linarith⟩
  · rw [openSegment_symm, openSegment_eq_Ioo hgt]
    exact ⟨by linarith, by linarith⟩

omit [Field K] [IsStrictOrderedRing K] in
/-- The boundary of a box: a side across, or a side along. -/
theorem mem_boundary_iff (hab : a ≤ b) (hcd : c ≤ d) :
    P ∈ box a b c d \ openBox a b c d ↔
      (P.1 ∈ Set.Icc a b ∧ (P.2 = c ∨ P.2 = d)) ∨ (P.1 = a ∨ P.1 = b) ∧ P.2 ∈ Set.Icc c d := by
  constructor
  · rintro ⟨⟨hx, hy⟩, hnot⟩
    by_cases hlat : P.2 = c ∨ P.2 = d
    · exact Or.inl ⟨hx, hlat⟩
    · right
      refine ⟨?_, hy⟩
      by_contra hlng
      obtain ⟨hc, hd⟩ := not_or.mp hlat
      obtain ⟨ha, hb⟩ := not_or.mp hlng
      exact hnot ⟨⟨lt_of_le_of_ne hx.1 (Ne.symm ha), lt_of_le_of_ne hx.2 hb⟩,
        lt_of_le_of_ne hy.1 (Ne.symm hc), lt_of_le_of_ne hy.2 hd⟩
  · have hends : ∀ {x a b : K}, a ≤ b → x = a ∨ x = b → x ∈ Set.Icc a b ∧ x ∉ Set.Ioo a b := by
      rintro x a b hle (rfl | rfl)
      · exact ⟨Set.left_mem_Icc.mpr hle, Set.left_notMem_Ioo⟩
      · exact ⟨Set.right_mem_Icc.mpr hle, Set.right_notMem_Ioo⟩
    rintro (⟨hx, hy⟩ | ⟨hx, hy⟩)
    · exact ⟨⟨hx, (hends hcd hy).1⟩, fun hmem => (hends hcd hy).2 hmem.2⟩
    · exact ⟨⟨(hends hab hx).1, hy⟩, fun hmem => (hends hab hx).2 hmem.1⟩

/-! ### Leaving -/

/-- A coordinate that leaves an interval is at an end of it first. -/
theorem exists_exit (hx : x ∈ Set.Ioo a b) (hx' : x' ∉ Set.Ioo a b) :
    ∃ t, 0 < t ∧ t ≤ 1 ∧ x + t * (x' - x) ∉ Set.Ioo a b ∧
      ∀ s, 0 ≤ s → s ≤ t → x + s * (x' - x) ∈ Set.Icc a b := by
  obtain ⟨hax, hxb⟩ := hx
  by_cases hlow : x' ≤ a
  · have hback : 0 < x - x' := by linarith
    have hend : (x - a) / (x - x') * (x' - x) = a - x := by
      rw [← neg_sub x x', mul_neg, div_mul_cancel₀ _ hback.ne', neg_sub]
    refine ⟨(x - a) / (x - x'), div_pos (by linarith) hback, ?_, ?_, ?_⟩
    · exact (div_le_one hback).mpr (by linarith)
    · rw [hend]
      exact fun hmem => absurd hmem.1 (by linarith)
    · intro s hs hst
      have hstep : (x - a) / (x - x') * (x' - x) ≤ s * (x' - x) :=
        mul_le_mul_of_nonpos_right hst (by linarith)
      have hdown : s * (x' - x) ≤ 0 := mul_nonpos_of_nonneg_of_nonpos hs (by linarith)
      rw [hend] at hstep
      exact ⟨by linarith, by linarith⟩
  · have hhigh : b ≤ x' := by
      by_contra hlt
      exact hx' ⟨lt_of_not_ge hlow, lt_of_not_ge hlt⟩
    have hahead : 0 < x' - x := by linarith
    have hend : (b - x) / (x' - x) * (x' - x) = b - x := div_mul_cancel₀ _ hahead.ne'
    refine ⟨(b - x) / (x' - x), div_pos (by linarith) hahead, ?_, ?_, ?_⟩
    · exact (div_le_one hahead).mpr (by linarith)
    · rw [hend]
      exact fun hmem => absurd hmem.2 (by linarith)
    · intro s hs hst
      have hstep : s * (x' - x) ≤ (b - x) / (x' - x) * (x' - x) :=
        mul_le_mul_of_nonneg_right hst hahead.le
      have hup : 0 ≤ s * (x' - x) := mul_nonneg hs hahead.le
      rw [hend] at hstep
      exact ⟨by linarith, by linarith⟩

/-- A coordinate on its way from an interval, perhaps to an end of it, is in it before it
arrives. -/
theorem mem_Ioo_of_lt_one (hx : x ∈ Set.Ioo a b) (hx' : x' ∈ Set.Icc a b) {s : K} (hs : 0 ≤ s)
    (hs' : s < 1) : x + s * (x' - x) ∈ Set.Ioo a b := by
  have hrest : 0 < 1 - s := sub_pos.mpr hs'
  have hlow : 0 < (1 - s) * (x - a) := mul_pos hrest (sub_pos.mpr hx.1)
  have hlow' : 0 ≤ s * (x' - a) := mul_nonneg hs (sub_nonneg.mpr hx'.1)
  have hhigh : 0 < (1 - s) * (b - x) := mul_pos hrest (sub_pos.mpr hx.2)
  have hhigh' : 0 ≤ s * (b - x') := mul_nonneg hs (sub_nonneg.mpr hx'.2)
  exact ⟨by linarith, by linarith⟩

theorem mem_Ioo_of_le_one (hx : x ∈ Set.Ioo a b) (hx' : x' ∈ Set.Ioo a b) {s : K} (hs : 0 ≤ s)
    (hs' : s ≤ 1) : x + s * (x' - x) ∈ Set.Ioo a b := by
  rcases hs'.lt_or_eq with hlt | rfl
  · exact mem_Ioo_of_lt_one hx (Set.Ioo_subset_Icc_self hx') hs hlt
  · rwa [one_mul, add_sub_cancel]

/-- A segment that leaves an open box crosses its boundary. -/
theorem exists_mem_boundary (hP : P ∈ openBox a b c d) (hQ : Q ∉ openBox a b c d) :
    ∃ R ∈ segment K P Q, R ∈ box a b c d ∧ R ∉ openBox a b c d := by
  have hpoint : ∀ t, 0 ≤ t → t ≤ 1 →
      (P.1 + t * (Q.1 - P.1), P.2 + t * (Q.2 - P.2)) ∈ segment K P Q :=
    fun t h0 h1 => mem_segment_iff.mpr ⟨t, h0, h1, rfl, rfl⟩
  by_cases hx : Q.1 ∈ Set.Ioo a b
  · have hy : Q.2 ∉ Set.Ioo c d := fun hy => hQ ⟨hx, hy⟩
    obtain ⟨t, h0, h1, hout, hin⟩ := exists_exit hP.2 hy
    refine ⟨_, hpoint t h0.le h1, ⟨?_, hin t h0.le le_rfl⟩, fun hmem => hout hmem.2⟩
    exact Set.Ioo_subset_Icc_self (mem_Ioo_of_le_one hP.1 hx h0.le h1)
  · obtain ⟨t, h0, h1, hout, hin⟩ := exists_exit hP.1 hx
    by_cases hy : Q.2 ∈ Set.Ioo c d
    · refine ⟨_, hpoint t h0.le h1, ⟨hin t h0.le le_rfl, ?_⟩, fun hmem => hout hmem.1⟩
      exact Set.Ioo_subset_Icc_self (mem_Ioo_of_le_one hP.2 hy h0.le h1)
    · obtain ⟨u, hu0, hu1, huout, huin⟩ := exists_exit hP.2 hy
      -- both coordinates leave: the earlier of the two is the crossing
      rcases le_total t u with htu | hut
      · exact ⟨_, hpoint t h0.le h1, ⟨hin t h0.le le_rfl, huin t h0.le htu⟩,
          fun hmem => hout hmem.1⟩
      · exact ⟨_, hpoint u hu0.le hu1, ⟨hin u hu0.le hut, huin u hu0.le le_rfl⟩,
          fun hmem => huout hmem.2⟩

theorem exists_lt_one (hR : R ∈ segment K P Q) (hne : R ≠ Q) : ∃ t, 0 ≤ t ∧ t < 1 ∧
    R.1 = P.1 + t * (Q.1 - P.1) ∧ R.2 = P.2 + t * (Q.2 - P.2) := by
  obtain ⟨t, h0, h1, hx, hy⟩ := mem_segment_iff.mp hR
  refine ⟨t, h0, lt_of_le_of_ne h1 ?_, hx, hy⟩
  rintro rfl
  rw [one_mul, add_sub_cancel] at hx hy
  exact hne (Prod.ext hx hy)

/-- A segment from an open box to its boundary is in the open box before it ends. -/
theorem mem_openBox_of_mem_segment (hP : P ∈ openBox a b c d) (hQ : Q ∈ box a b c d)
    (hR : R ∈ segment K P Q) (hne : R ≠ Q) : R ∈ openBox a b c d := by
  obtain ⟨t, h0, hlt, hx, hy⟩ := exists_lt_one hR hne
  exact ⟨hx ▸ mem_Ioo_of_lt_one hP.1 hQ.1 h0 hlt, hy ▸ mem_Ioo_of_lt_one hP.2 hQ.2 h0 hlt⟩

/-! ### Entering -/

/-- A coordinate in an interval, or at an end of it and on its way in. -/
def Inward (a b x v : K) : Prop := x ∈ Set.Ioo a b ∨ x = a ∧ 0 < v ∨ x = b ∧ v < 0

omit [IsStrictOrderedRing K] in
theorem Inward.mem_Icc {v : K} (hab : a ≤ b) (h : Inward a b x v) : x ∈ Set.Icc a b := by
  rcases h with hx | ⟨rfl, -⟩ | ⟨rfl, -⟩
  · exact Set.Ioo_subset_Icc_self hx
  · exact Set.left_mem_Icc.mpr hab
  · exact Set.right_mem_Icc.mpr hab

/-- What comes from an inner point and goes inward is at an inner point. -/
theorem Inward.mem_Ioo (h : Inward a b x (x - x')) (hx' : x' ∈ Set.Ioo a b) :
    x ∈ Set.Ioo a b := by
  rcases h with hx | ⟨rfl, hv⟩ | ⟨rfl, hv⟩
  · exact hx
  · exact absurd hx'.1 (by linarith)
  · exact absurd hx'.2 (by linarith)

theorem Inward.exists_forall {v : K} (hab : a < b) (h : Inward a b x v) :
    ∃ ε, 0 < ε ∧ ∀ t, 0 < t → t ≤ ε → x + t * v ∈ Set.Ioo a b := by
  rcases h with ⟨hax, hxb⟩ | ⟨rfl, hv⟩ | ⟨rfl, hv⟩
  · have hroom : 0 < min (x - a) (b - x) := lt_min (by linarith) (by linarith)
    have hspeed : 0 < |v| + 1 := by positivity
    refine ⟨min (x - a) (b - x) / (|v| + 1), div_pos hroom hspeed, ?_⟩
    intro t ht htε
    have hle : t * (|v| + 1) ≤ min (x - a) (b - x) := (le_div_iff₀ hspeed).mp htε
    have habs : |t * v| < min (x - a) (b - x) := by
      rw [abs_mul, abs_of_pos ht]
      linarith
    obtain ⟨hlow, hhigh⟩ := abs_lt.mp habs
    have hleft := min_le_left (x - a) (b - x)
    have hright := min_le_right (x - a) (b - x)
    exact ⟨by linarith, by linarith⟩
  · refine ⟨(b - x) / (2 * v), div_pos (by linarith) (by linarith), ?_⟩
    intro t ht htε
    have hle : t * (2 * v) ≤ b - x := (le_div_iff₀ (by linarith)).mp htε
    have hpos : 0 < t * v := mul_pos ht hv
    exact ⟨by linarith, by linarith⟩
  · refine ⟨(x - a) / (2 * -v), div_pos (by linarith) (by linarith), ?_⟩
    intro t ht htε
    have hle : t * (2 * -v) ≤ x - a := (le_div_iff₀ (by linarith)).mp htε
    have hneg : t * v < 0 := mul_neg_of_pos_of_neg ht hv
    exact ⟨by linarith, by linarith⟩

/-- A segment that goes inward from a point of the boundary enters the open box at once. -/
theorem exists_mem_openBox (hab : a < b) (hcd : c < d) (hx : Inward a b P.1 (Q.1 - P.1))
    (hy : Inward c d P.2 (Q.2 - P.2)) : ∃ R ∈ segment K P Q, R ∈ openBox a b c d := by
  obtain ⟨ε, hε, hin⟩ := hx.exists_forall hab
  obtain ⟨η, hη, hin'⟩ := hy.exists_forall hcd
  have ht : 0 < min 1 (min ε η) := lt_min one_pos (lt_min hε hη)
  have hε' : min 1 (min ε η) ≤ ε := (min_le_right _ _).trans (min_le_left _ _)
  have hη' : min 1 (min ε η) ≤ η := (min_le_right _ _).trans (min_le_right _ _)
  refine ⟨(_, _), mem_segment_iff.mpr ⟨_, ht.le, min_le_left _ _, rfl, rfl⟩, ?_⟩
  exact ⟨hin _ ht hε', hin' _ ht hη'⟩

/-- A segment does not return to where it came from. -/
theorem not_mem_segment_of_ne (hR : R ∈ segment K P Q) (hne : R ≠ P) : P ∉ segment K R Q := by
  intro hP
  obtain ⟨t, ht0, ht1, hx, hy⟩ := mem_segment_iff.mp hR
  obtain ⟨u, hu0, hu1, hx', hy'⟩ := mem_segment_iff.mp hP
  have hstill : ∀ p q r : K, r = p + t * (q - p) → p = r + u * (q - r) → t ≠ 0 → r = p := by
    intro p q r hr hp hne
    have hforward : 0 < t + u * (1 - t) :=
      add_pos_of_pos_of_nonneg (lt_of_le_of_ne ht0 (Ne.symm hne))
        (mul_nonneg hu0 (sub_nonneg.mpr ht1))
    have hzero : (t + u * (1 - t)) * (q - p) = 0 := by
      rw [hr] at hp
      linear_combination -hp
    have hsame : q - p = 0 := (mul_eq_zero.mp hzero).resolve_left hforward.ne'
    rw [hr, hsame, mul_zero, add_zero]
  by_cases ht : t = 0
  · rw [ht, zero_mul, add_zero] at hx hy
    exact hne (Prod.ext hx hy)
  · exact hne (Prod.ext (hstill _ _ _ hx hx' ht) (hstill _ _ _ hy hy' ht))

end SegmentCrossing
