import Mathlib.Algebra.Order.Archimedean.Basic
import Mathlib.Data.Rat.Floor
import S2Geography.SegmentCrossing

/-!
# Longitudes and latitudes

Points of the sphere by their longitude and latitude in degrees. Longitudes that are whole turns
apart are the same, and a pole has every longitude. A point then has coordinates in every
window of a turn, and a box that is narrower than a turn has each of its inner points once.
-/
namespace SphereCoordinates

open SegmentCrossing

variable {P Q R : ℚ × ℚ} {a b s n : ℚ}

/-- Whole turns to the east. -/
def turned (k : ℤ) (P : ℚ × ℚ) : ℚ × ℚ := (P.1 + k * 360, P.2)

def IsPole (P : ℚ × ℚ) : Prop := P.2 = -90 ∨ P.2 = 90

/-- Coordinates of one point. -/
def Same (P Q : ℚ × ℚ) : Prop := P.2 = Q.2 ∧ (IsPole P ∨ ∃ k, Q = turned k P)

theorem turned_zero (P : ℚ × ℚ) : turned 0 P = P := by
  apply Prod.ext
  · simp [turned]
  · rfl

theorem turned_turned (j k : ℤ) (P : ℚ × ℚ) : turned j (turned k P) = turned (k + j) P := by
  apply Prod.ext
  · simp only [turned]
    push_cast
    ring
  · rfl

theorem turned_neg_turned (k : ℤ) (P : ℚ × ℚ) : turned (-k) (turned k P) = P := by
  rw [turned_turned, add_neg_cancel, turned_zero]

theorem turned_turned_neg (k : ℤ) (P : ℚ × ℚ) : turned k (turned (-k) P) = P := by
  rw [turned_turned, neg_add_cancel, turned_zero]

theorem same_turned (k : ℤ) (P : ℚ × ℚ) : Same P (turned k P) := ⟨rfl, Or.inr ⟨k, rfl⟩⟩

theorem Same.refl (P : ℚ × ℚ) : Same P P := ⟨rfl, Or.inr ⟨0, (turned_zero P).symm⟩⟩

theorem Same.symm (h : Same P Q) : Same Q P := by
  obtain ⟨hlat, hlng⟩ := h
  refine ⟨hlat.symm, ?_⟩
  rcases hlng with hpole | ⟨k, rfl⟩
  · left
    rwa [IsPole, ← hlat]
  · exact Or.inr ⟨-k, (turned_neg_turned k P).symm⟩

theorem Same.trans (h : Same P Q) (h' : Same Q R) : Same P R := by
  obtain ⟨hlat, hlng⟩ := h
  obtain ⟨hlat', hlng'⟩ := h'
  refine ⟨hlat.trans hlat', ?_⟩
  rcases hlng with hpole | ⟨k, rfl⟩
  · exact Or.inl hpole
  · rcases hlng' with hpole | ⟨j, rfl⟩
    · exact Or.inl hpole
    · exact Or.inr ⟨k + j, turned_turned j k P⟩

/-- Coordinates with a latitude from pole to pole. -/
abbrev Strip := {P : ℚ × ℚ // P.2 ∈ Set.Icc (-90) 90}

instance setoid : Setoid Strip where
  r P Q := Same P Q
  iseqv := ⟨fun P => Same.refl P, Same.symm, Same.trans⟩

/-- A point of the sphere. -/
def SpherePoint := Quotient setoid

/-- The coordinates are those of the point. -/
def Names (P : ℚ × ℚ) (p : SpherePoint) : Prop :=
  ∃ h : P.2 ∈ Set.Icc (-90) 90, (Quotient.mk setoid ⟨P, h⟩ : SpherePoint) = p

theorem Names.same {p : SpherePoint} (hP : Names P p) (hQ : Names Q p) : Same P Q := by
  obtain ⟨_, hp⟩ := hP
  obtain ⟨_, hq⟩ := hQ
  exact Quotient.exact (hp.trans hq.symm)

theorem Names.of_same {p : SpherePoint} (hP : Names P p) (h : Same P Q) : Names Q p := by
  obtain ⟨hlat, hp⟩ := hP
  refine ⟨h.1 ▸ hlat, ?_⟩
  rw [← hp]
  exact Quotient.sound h.symm

protected theorem Names.turned {p : SpherePoint} (hP : Names P p) (k : ℤ) : Names (turned k P) p :=
  hP.of_same (same_turned k P)

theorem exists_point (h : P.2 ∈ Set.Icc (-90) 90) : ∃ p, Names P p := ⟨_, h, rfl⟩

/-- A point has coordinates in every window of a turn. -/
theorem exists_names (p : SpherePoint) (x : ℚ) : ∃ P, Names P p ∧ P.1 ∈ Set.Ico x (x + 360) := by
  obtain ⟨⟨P, hP⟩, hp⟩ := Quotient.exists_rep p
  obtain ⟨k, hk, -⟩ := existsUnique_add_zsmul_mem_Ico (by norm_num : (0 : ℚ) < 360) P.1 x
  refine ⟨turned k P, Names.turned ⟨hP, hp⟩ k, ?_⟩
  simpa [turned, zsmul_eq_mul] using hk

/-- Two longitudes of a point that is not a pole are whole turns apart. -/
theorem Names.exists_turned {p : SpherePoint} (hP : Names P p) (hQ : Names Q p)
    (hpole : ¬IsPole P) : ∃ k, Q = turned k P :=
  (hP.same hQ).2.resolve_left hpole

theorem turns_eq_zero {k : ℤ} (hlow : -360 < (k : ℚ) * 360) (hhigh : (k : ℚ) * 360 < 360) :
    k = 0 := by
  have hlow' : (-1 : ℚ) < k := by linarith
  have hhigh' : (k : ℚ) < 1 := by linarith
  have hlow'' : -1 < k := by exact_mod_cast hlow'
  have hhigh'' : k < 1 := by exact_mod_cast hhigh'
  omega

/-! ### Boxes -/

/-- The points that have coordinates in a set. -/
def spread (A : Set (ℚ × ℚ)) : Set SpherePoint := {p | ∃ P ∈ A, Names P p}

theorem turned_mem_box (k : ℤ) :
    turned k P ∈ box (a + k * 360) (b + k * 360) s n ↔ P ∈ box a b s n := by
  simp only [turned, Set.mem_prod, Set.mem_Icc, add_le_add_iff_right]

theorem turned_mem_openBox (k : ℤ) :
    turned k P ∈ openBox (a + k * 360) (b + k * 360) s n ↔ P ∈ openBox a b s n := by
  simp only [turned, Set.mem_prod, Set.mem_Ioo, add_lt_add_iff_right]

/-- Whole turns away, a box has the same points. -/
theorem spread_box_turned (k : ℤ) :
    spread (box (a + k * 360) (b + k * 360) s n) = spread (box a b s n) := by
  ext p
  constructor
  · rintro ⟨P, hbox, hP⟩
    rw [← turned_turned_neg k P, turned_mem_box] at hbox
    exact ⟨_, hbox, hP.turned (-k)⟩
  · rintro ⟨P, hbox, hP⟩
    exact ⟨_, (turned_mem_box k).mpr hbox, hP.turned k⟩

/-- A box between the poles, narrower than a turn. -/
structure ProperBox (a b s n : ℚ) : Prop where
  lng_lt : a < b
  lt_turn : b < a + 360
  south_le : -90 ≤ s
  lat_lt : s < n
  le_north : n ≤ 90

namespace ProperBox

variable {p : SpherePoint} (h : ProperBox a b s n)

include h

theorem lat_mem {y : ℚ} (hy : y ∈ Set.Icc s n) : y ∈ Set.Icc (-90 : ℚ) 90 :=
  ⟨h.south_le.trans hy.1, hy.2.trans h.le_north⟩

theorem not_isPole (hlat : P.2 ∈ Set.Ioo s n) : ¬IsPole P := by
  have hsouth := h.south_le
  have hnorth := h.le_north
  rintro (hpole | hpole)
  · linarith [hlat.1]
  · linarith [hlat.2]

/-- An inner point has one pair of coordinates in the box. -/
theorem eq_of_names (hP : Names P p) (hinner : P ∈ openBox a b s n) (hQ : Names Q p)
    (hbox : Q ∈ box a b s n) : Q = P := by
  obtain ⟨k, rfl⟩ := hP.exists_turned hQ (h.not_isPole hinner.2)
  obtain ⟨hwest, heast⟩ := hinner.1
  obtain ⟨hwest', heast'⟩ := hbox.1
  have hturn := h.lt_turn
  simp only [turned] at hwest' heast'
  have hk : k = 0 := turns_eq_zero (by linarith) (by linarith)
  rw [hk, turned_zero]

/-- Inner points are not on the boundary. -/
theorem not_mem_boundary (hp : p ∈ spread (openBox a b s n)) :
    p ∉ spread (box a b s n \ openBox a b s n) := by
  obtain ⟨P, hinner, hP⟩ := hp
  rintro ⟨Q, ⟨hbox, hnot⟩, hQ⟩
  exact hnot (h.eq_of_names hP hinner hQ hbox ▸ hinner)

theorem diff_spread : spread (box a b s n) \ spread (openBox a b s n) =
    spread (box a b s n \ openBox a b s n) := by
  ext p
  constructor
  · rintro ⟨⟨P, hbox, hP⟩, hnot⟩
    exact ⟨P, ⟨hbox, fun hinner => hnot ⟨P, hinner, hP⟩⟩, hP⟩
  · intro hp
    have hinner : p ∉ spread (openBox a b s n) := fun hinner => h.not_mem_boundary hinner hp
    obtain ⟨P, ⟨hbox, -⟩, hP⟩ := hp
    exact ⟨⟨P, hbox, hP⟩, hinner⟩

protected theorem turned (k : ℤ) : ProperBox (a + k * 360) (b + k * 360) s n where
  lng_lt := by linarith [h.lng_lt]
  lt_turn := by linarith [h.lt_turn]
  south_le := h.south_le
  lat_lt := h.lat_lt
  le_north := h.le_north

omit h in
theorem not_mem_of_lat (hP : Names P p) (hlat : P.2 ∉ Set.Icc s n) :
    p ∉ spread (box a b s n) := by
  rintro ⟨Q, hbox, hQ⟩
  exact hlat ((hP.same hQ).1 ▸ hbox.2)

/-- East of the box, and west of its next copy. -/
theorem not_mem_of_lng (hP : Names P p) (hpole : ¬IsPole P) (hlng : P.1 ∈ Set.Ioo b (a + 360)) :
    p ∉ spread (box a b s n) := by
  rintro ⟨Q, hbox, hQ⟩
  obtain ⟨k, rfl⟩ := hP.exists_turned hQ hpole
  obtain ⟨hwest, heast⟩ := hbox.1
  obtain ⟨hwest', heast'⟩ := hlng
  have hturn := h.lt_turn
  simp only [turned] at hwest heast
  have hk : k = 0 := turns_eq_zero (by linarith) (by linarith)
  rw [hk, Int.cast_zero, zero_mul, add_zero] at heast
  linarith

end ProperBox

/-! ### Interiors -/

/-- The points around which all points are in a set. -/
def interior (A : Set SpherePoint) : Set SpherePoint := {p | ∃ ε, 0 < ε ∧ ∀ P, Names P p →
  ∀ Q q, Names Q q → |Q.1 - P.1| < ε → |Q.2 - P.2| < ε → q ∈ A}

theorem interior_subset (A : Set SpherePoint) : interior A ⊆ A := by
  rintro p ⟨ε, hε, hnear⟩
  obtain ⟨P, hP, -⟩ := exists_names p 0
  have hzero : ∀ x : ℚ, |x - x| < ε := fun x => by rwa [sub_self, abs_zero]
  exact hnear P hP P p hP (hzero _) (hzero _)

namespace ProperBox

variable {p : SpherePoint} (h : ProperBox a b s n)

include h

theorem spread_openBox_subset : spread (openBox a b s n) ⊆ interior (spread (box a b s n)) := by
  rintro p ⟨P, ⟨⟨hwest, heast⟩, hsouth, hnorth⟩, hP⟩
  have hroom : 0 < min (min (P.1 - a) (b - P.1)) (min (P.2 - s) (n - P.2)) := by
    refine lt_min (lt_min ?_ ?_) (lt_min ?_ ?_) <;> linarith
  refine ⟨_, hroom, ?_⟩
  intro P' hP' Q q hQ hlng hlat
  obtain ⟨k, rfl⟩ := hP.exists_turned hP' (h.not_isPole ⟨hsouth, hnorth⟩)
  refine ⟨turned (-k) Q, ⟨?_, ?_⟩, hQ.turned (-k)⟩
  · have h1 := hlng.trans_le ((min_le_left _ _).trans (min_le_left _ _))
    have h2 := hlng.trans_le ((min_le_left _ _).trans (min_le_right _ _))
    simp only [turned] at h1 h2 ⊢
    push_cast
    exact ⟨by linarith [(abs_lt.mp h1).1], by linarith [(abs_lt.mp h2).2]⟩
  · have h1 := hlat.trans_le ((min_le_right _ _).trans (min_le_left _ _))
    have h2 := hlat.trans_le ((min_le_right _ _).trans (min_le_right _ _))
    simp only [turned] at h1 h2 ⊢
    exact ⟨by linarith [(abs_lt.mp h1).1], by linarith [(abs_lt.mp h2).2]⟩

omit h in
theorem not_mem_interior_of_near {A : Set SpherePoint} (hnear : ∀ ε, 0 < ε → ∃ P Q q, Names P p ∧
    Names Q q ∧ |Q.1 - P.1| < ε ∧ |Q.2 - P.2| < ε ∧ q ∉ A) : p ∉ interior A := by
  rintro ⟨ε, hε, hall⟩
  obtain ⟨P, Q, q, hP, hQ, hlng, hlat, hq⟩ := hnear ε hε
  exact hq (hall P hP Q q hQ hlng hlat)

omit h in
theorem exists_small {ε r : ℚ} (hε : 0 < ε) (hr : 0 < r) : ∃ δ, 0 < δ ∧ δ < ε ∧ δ ≤ r :=
  ⟨min (ε / 2) r, lt_min (half_pos hε) hr, (min_le_left _ _).trans_lt (half_lt_self hε),
    min_le_right _ _⟩

/-- Next to a pole there are points of every longitude. -/
theorem not_mem_interior_of_isPole (hP : Names P p) (hpole : IsPole P) :
    p ∉ interior (spread (box a b s n)) := by
  apply not_mem_interior_of_near
  intro ε hε
  have hturn := h.lt_turn
  have hmid : (b + (a + 360)) / 2 ∈ Set.Ioo b (a + 360) := ⟨by linarith, by linarith⟩
  have hpoint : Names ((b + (a + 360)) / 2, P.2) p := hP.of_same ⟨rfl, Or.inl hpole⟩
  obtain ⟨δ, hδ, hδε, hδr⟩ := exists_small hε one_pos
  have houtside : ∀ y : ℚ, y ∈ Set.Ioo (-90) 90 → |y - P.2| < ε → ∃ P' Q q, Names P' p ∧
      Names Q q ∧ |Q.1 - P'.1| < ε ∧ |Q.2 - P'.2| < ε ∧ q ∉ spread (box a b s n) := by
    rintro y ⟨hlow, hhigh⟩ hy
    obtain ⟨q, hq⟩ := @exists_point ((b + (a + 360)) / 2, y) ⟨hlow.le, hhigh.le⟩
    refine ⟨_, _, q, hpoint, hq, ?_, hy, h.not_mem_of_lng hq ?_ hmid⟩
    · rwa [sub_self, abs_zero]
    · exact fun hpole' => hpole'.elim hlow.ne' hhigh.ne
  rcases hpole with hsouth | hnorth
  · apply houtside (P.2 + δ)
    · exact ⟨by linarith, by linarith⟩
    · rwa [add_sub_cancel_left, abs_of_pos hδ]
  · apply houtside (P.2 - δ)
    · exact ⟨by linarith, by linarith⟩
    · rwa [sub_sub_cancel_left, abs_neg, abs_of_pos hδ]

/-- North of the northern side, or south of the southern one. -/
theorem not_mem_interior_of_lat (hP : Names P p) (hpole : ¬IsPole P) (hside : P.2 = s ∨ P.2 = n) :
    p ∉ interior (spread (box a b s n)) := by
  have hsouth := h.south_le
  have hnorth := h.le_north
  have hlat := h.lat_lt
  apply not_mem_interior_of_near
  intro ε hε
  have houtside : ∀ y : ℚ, y ∈ Set.Icc (-90) 90 → y ∉ Set.Icc s n → |y - P.2| < ε →
      ∃ P' Q q, Names P' p ∧ Names Q q ∧ |Q.1 - P'.1| < ε ∧ |Q.2 - P'.2| < ε ∧
        q ∉ spread (box a b s n) := by
    intro y hstrip hnot hy
    obtain ⟨q, hq⟩ := @exists_point (P.1, y) hstrip
    refine ⟨P, _, q, hP, hq, ?_, hy, not_mem_of_lat hq hnot⟩
    rwa [sub_self, abs_zero]
  rcases hside with hs | hn
  · have hroom : 0 < P.2 + 90 := by
      have hne : P.2 ≠ -90 := fun heq => hpole (Or.inl heq)
      rcases lt_or_gt_of_ne hne with hlt | hgt <;> linarith
    obtain ⟨δ, hδ, hδε, hδr⟩ := exists_small hε hroom
    apply houtside (P.2 - δ)
    · exact ⟨by linarith, by linarith⟩
    · exact fun hmem => absurd hmem.1 (by linarith)
    · rwa [sub_sub_cancel_left, abs_neg, abs_of_pos hδ]
  · have hroom : 0 < 90 - P.2 := by
      have hne : P.2 ≠ 90 := fun heq => hpole (Or.inr heq)
      rcases lt_or_gt_of_ne hne with hlt | hgt <;> linarith
    obtain ⟨δ, hδ, hδε, hδr⟩ := exists_small hε hroom
    apply houtside (P.2 + δ)
    · exact ⟨by linarith, by linarith⟩
    · exact fun hmem => absurd hmem.2 (by linarith)
    · rwa [add_sub_cancel_left, abs_of_pos hδ]

/-- East of the eastern side, or west of the western one. -/
theorem not_mem_interior_of_lng (hP : Names P p) (hlat : P.2 ∈ Set.Ioo s n)
    (hside : P.1 = a ∨ P.1 = b) : p ∉ interior (spread (box a b s n)) := by
  have hturn := h.lt_turn
  have hroom : 0 < (a + 360 - b) / 2 := by linarith
  apply not_mem_interior_of_near
  intro ε hε
  obtain ⟨δ, hδ, hδε, hδr⟩ := exists_small hε hroom
  have houtside : ∀ (x : ℚ) (k : ℤ), x + k * 360 ∈ Set.Ioo b (a + 360) → |x - P.1| < ε →
      ∃ P' Q q, Names P' p ∧ Names Q q ∧ |Q.1 - P'.1| < ε ∧ |Q.2 - P'.2| < ε ∧
        q ∉ spread (box a b s n) := by
    intro x k hlng hx
    obtain ⟨q, hq⟩ := @exists_point (x, P.2) (h.lat_mem (Set.Ioo_subset_Icc_self hlat))
    have hnot := h.not_mem_of_lng (hq.turned k) (h.not_isPole hlat) hlng
    refine ⟨P, _, q, hP, hq, hx, ?_, hnot⟩
    rwa [sub_self, abs_zero]
  rcases hside with ha | hb
  · apply houtside (P.1 - δ) 1
    · push_cast
      exact ⟨by linarith, by linarith⟩
    · rwa [sub_sub_cancel_left, abs_neg, abs_of_pos hδ]
  · apply houtside (P.1 + δ) 0
    · push_cast
      exact ⟨by linarith, by linarith⟩
    · rwa [add_sub_cancel_left, abs_of_pos hδ]

/-- The boundary is not in the interior. -/
theorem not_mem_interior (hbox : P ∈ box a b s n) (hnot : P ∉ openBox a b s n)
    (hP : Names P p) : p ∉ interior (spread (box a b s n)) := by
  obtain ⟨hlng, hlat⟩ := hbox
  by_cases hpole : IsPole P
  · exact h.not_mem_interior_of_isPole hP hpole
  · by_cases hinner : P.2 ∈ Set.Ioo s n
    · apply h.not_mem_interior_of_lng hP hinner
      by_contra hside
      obtain ⟨ha, hb⟩ := not_or.mp hside
      exact hnot ⟨⟨lt_of_le_of_ne hlng.1 (Ne.symm ha), lt_of_le_of_ne hlng.2 hb⟩, hinner⟩
    · apply h.not_mem_interior_of_lat hP hpole
      by_contra hside
      obtain ⟨hs, hn⟩ := not_or.mp hside
      exact hinner ⟨lt_of_le_of_ne hlat.1 (Ne.symm hs), lt_of_le_of_ne hlat.2 hn⟩

theorem interior_spread : interior (spread (box a b s n)) = spread (openBox a b s n) := by
  apply Set.Subset.antisymm
  · intro p hp
    obtain ⟨P, hbox, hP⟩ := interior_subset _ hp
    by_contra hnot
    exact h.not_mem_interior hbox (fun hinner => hnot ⟨P, hinner, hP⟩) hP hp
  · exact h.spread_openBox_subset

end ProperBox

end SphereCoordinates
