import Mathlib.Analysis.Convex.Basic
import Mathlib.Logic.Relation
import S2Geography.SphereCoordinates

/-!
# The region on the left of a loop

A loop on the sphere that follows straight pieces of the plane of longitude and latitude. A point
is on its left if a path that avoids the loop leads to where a piece is seen from its left side.
For the loop around a box, eastward along its southern side, that is the inside of the box; for
the loop that begins westward it is everything outside.
-/
namespace SphereCoordinates

open SegmentCrossing

/-- A straight piece, with its direction. -/
abbrev Piece := (ℚ × ℚ) × (ℚ × ℚ)

/-- Each piece begins where the one before it ends, perhaps with other coordinates. -/
structure Loop where
  pieces : List Piece
  connected : pieces.IsChain fun e f => Same e.2 f.1
  closed : ∀ e ∈ pieces.getLast?, ∀ f ∈ pieces.head?, Same e.2 f.1

/-- Positive if the second direction is to the left of the first. -/
def turn (u v : ℚ × ℚ) : ℚ := u.1 * v.2 - u.2 * v.1

namespace Loop

variable (loop : Loop)

/-- The points of a loop. -/
def trace : Set SpherePoint := {p | ∃ e ∈ loop.pieces, p ∈ spread (segment ℚ e.1 e.2)}

/-- None of these are coordinates of a point of the loop. -/
def Misses (A : Set (ℚ × ℚ)) : Prop := ∀ P ∈ A, ∀ p, Names P p → p ∉ loop.trace

/-- A straight line joins the points and avoids the loop. -/
def Connects (p q : SpherePoint) : Prop :=
  ∃ P Q, Names P p ∧ Names Q q ∧ loop.Misses (segment ℚ P Q)

/-- A straight line leads from the point to the left side of a piece. -/
def FacesLeft (q : SpherePoint) : Prop :=
  ∃ Q, Names Q q ∧ ∃ e ∈ loop.pieces, ∃ M ∈ openSegment ℚ e.1 e.2,
    0 < turn (e.2 - e.1) (Q - M) ∧ loop.Misses (segment ℚ Q M \ {M})

/-- The points on the left of a loop. -/
def left : Set SpherePoint :=
  {p | ∃ q, Relation.ReflTransGen loop.Connects p q ∧ loop.FacesLeft q}

end Loop

/-! ### Loops around boxes -/

/-- The sides of a box, in counterclockwise order. -/
def sides (a b s n : ℚ) : List Piece :=
  [((a, s), (b, s)), ((b, s), (b, n)), ((b, n), (a, n)), ((a, n), (a, s))]

/-- A loop of the sides of a box, where each may be written whole turns away. -/
structure Counterclockwise (loop : Loop) (a b s n : ℚ) : Prop where
  side_of_mem : ∀ e ∈ loop.pieces, ∃ f ∈ sides a b s n, ∃ k, e = (turned k f.1, turned k f.2)
  mem_of_side : ∀ f ∈ sides a b s n, ∃ k, (turned k f.1, turned k f.2) ∈ loop.pieces

/-- A loop of the sides of a box, all in the other direction. -/
structure Clockwise (loop : Loop) (a b s n : ℚ) : Prop where
  side_of_mem : ∀ e ∈ loop.pieces, ∃ f ∈ sides a b s n, ∃ k, e = (turned k f.2, turned k f.1)
  mem_of_side : ∀ f ∈ sides a b s n, ∃ k, (turned k f.2, turned k f.1) ∈ loop.pieces

theorem spread_turned (k : ℤ) (P Q : ℚ × ℚ) :
    spread (segment ℚ (turned k P) (turned k Q)) = spread (segment ℚ P Q) := by
  have hsub : ∀ (k : ℤ) (P Q : ℚ × ℚ),
      spread (segment ℚ P Q) ⊆ spread (segment ℚ (turned k P) (turned k Q)) := by
    rintro k P Q p ⟨R, hR, hp⟩
    refine ⟨turned k R, ?_, hp.turned k⟩
    obtain ⟨t, h0, h1, hx, hy⟩ := mem_segment_iff.mp hR
    refine mem_segment_iff.mpr ⟨t, h0, h1, ?_, hy⟩
    simp only [turned, hx]
    ring
  apply Set.Subset.antisymm _ (hsub k P Q)
  have hback := hsub (-k) (turned k P) (turned k Q)
  rwa [turned_neg_turned, turned_neg_turned] at hback

section BoxLoop

variable {loop : Loop} {a b s n : ℚ} {p q : SpherePoint}

theorem mem_sides_iff (h : ProperBox a b s n) :
    (∃ f ∈ sides a b s n, p ∈ spread (segment ℚ f.1 f.2)) ↔
      p ∈ spread (box a b s n \ openBox a b s n) := by
  have hacross : ∀ x x' y, p ∈ spread (segment ℚ (x, y) (x', y)) ↔
      ∃ P, (P.1 ∈ Set.uIcc x x' ∧ P.2 = y) ∧ Names P p := fun x x' y => by
    simp only [spread, mem_segment_horizontal, Set.mem_ofPred_eq]
  have halong : ∀ x y y', p ∈ spread (segment ℚ (x, y) (x, y')) ↔
      ∃ P, (P.1 = x ∧ P.2 ∈ Set.uIcc y y') ∧ Names P p := fun x y y' => by
    simp only [spread, mem_segment_vertical, Set.mem_ofPred_eq]
  simp only [sides, List.mem_cons, List.not_mem_nil, or_false, exists_eq_or_imp, exists_eq_left]
  rw [hacross, hacross, halong, halong, Set.uIcc_comm b, Set.uIcc_comm n,
    Set.uIcc_of_le h.lat_lt.le, Set.uIcc_of_le h.lng_lt.le]
  simp only [spread, mem_boundary_iff h.lng_lt.le h.lat_lt.le, ← exists_or, Set.mem_ofPred_eq]
  apply exists_congr
  intro P
  tauto

/-- A loop around a box runs on its boundary. -/
theorem Counterclockwise.trace_eq (h : ProperBox a b s n) (hloop : Counterclockwise loop a b s n) :
    loop.trace = spread (box a b s n \ openBox a b s n) := by
  ext p
  rw [← mem_sides_iff h]
  constructor
  · rintro ⟨e, he, hp⟩
    obtain ⟨f, hf, k, rfl⟩ := hloop.side_of_mem e he
    exact ⟨f, hf, spread_turned k f.1 f.2 ▸ hp⟩
  · rintro ⟨f, hf, hp⟩
    obtain ⟨k, he⟩ := hloop.mem_of_side f hf
    exact ⟨_, he, (spread_turned k f.1 f.2).symm ▸ hp⟩

theorem Clockwise.trace_eq (h : ProperBox a b s n) (hloop : Clockwise loop a b s n) :
    loop.trace = spread (box a b s n \ openBox a b s n) := by
  ext p
  rw [← mem_sides_iff h]
  constructor
  · rintro ⟨e, he, hp⟩
    obtain ⟨f, hf, k, rfl⟩ := hloop.side_of_mem e he
    rw [spread_turned, segment_symm] at hp
    exact ⟨f, hf, hp⟩
  · rintro ⟨f, hf, hp⟩
    obtain ⟨k, he⟩ := hloop.mem_of_side f hf
    refine ⟨_, he, ?_⟩
    rwa [spread_turned, segment_symm]

/-! ### Sides of the boundary -/

/-- To the left of a side is to the inside. -/
theorem inward_of_left (h : ProperBox a b s n) {f : Piece} (hf : f ∈ sides a b s n)
    {M v : ℚ × ℚ} {k : ℤ} (hM : M ∈ openSegment ℚ (turned k f.1) (turned k f.2))
    (hleft : 0 < turn (f.2 - f.1) v) :
    Inward (a + k * 360) (b + k * 360) M.1 v.1 ∧ Inward s n M.2 v.2 := by
  have hwidth : 0 < b - a := sub_pos.mpr h.lng_lt
  have hheight : 0 < n - s := sub_pos.mpr h.lat_lt
  have hlt : a + k * 360 < b + k * 360 := by linarith
  simp only [sides, List.mem_cons, List.not_mem_nil, or_false] at hf
  rcases hf with rfl | rfl | rfl | rfl <;>
    simp only [turn, Prod.fst_sub, Prod.snd_sub, sub_self, zero_mul, sub_zero, zero_sub] at hleft
  · obtain ⟨hlng, hlat⟩ := mem_openSegment_horizontal.mp hM
    rw [openSegment_eq_Ioo hlt] at hlng
    exact ⟨Or.inl hlng, Or.inr (Or.inl ⟨hlat, (mul_pos_iff_of_pos_left hwidth).mp hleft⟩)⟩
  · obtain ⟨hlng, hlat⟩ := mem_openSegment_vertical.mp hM
    rw [openSegment_eq_Ioo h.lat_lt] at hlat
    have hwest : v.1 < 0 := neg_of_mul_neg_right (neg_pos.mp hleft) hheight.le
    exact ⟨Or.inr (Or.inr ⟨hlng, hwest⟩), Or.inl hlat⟩
  · obtain ⟨hlng, hlat⟩ := mem_openSegment_horizontal.mp hM
    rw [openSegment_symm, openSegment_eq_Ioo hlt] at hlng
    have hdown : v.2 < 0 := by
      rw [← neg_sub b a, neg_mul] at hleft
      exact neg_of_mul_neg_right (neg_pos.mp hleft) hwidth.le
    exact ⟨Or.inl hlng, Or.inr (Or.inr ⟨hlat, hdown⟩)⟩
  · obtain ⟨hlng, hlat⟩ := mem_openSegment_vertical.mp hM
    rw [openSegment_symm, openSegment_eq_Ioo h.lat_lt] at hlat
    have heast : 0 < v.1 := by
      rw [← neg_mul, neg_sub] at hleft
      exact (mul_pos_iff_of_pos_left hheight).mp hleft
    exact ⟨Or.inr (Or.inl ⟨hlng, heast⟩), Or.inl hlat⟩

/-! ### Crossings -/

/-- Coordinates on the boundary of a copy of the box are on the loop. -/
theorem mem_trace_of_boundary (htrace : loop.trace = spread (box a b s n \ openBox a b s n))
    {R : ℚ × ℚ} {k : ℤ} (hR : R ∈ box (a + k * 360) (b + k * 360) s n)
    (hnot : R ∉ openBox (a + k * 360) (b + k * 360) s n) (hp : Names R p) : p ∈ loop.trace := by
  rw [← turned_turned_neg k R, turned_mem_box] at hR
  rw [← turned_turned_neg k R, turned_mem_openBox] at hnot
  rw [htrace]
  exact ⟨turned (-k) R, ⟨hR, hnot⟩, hp.turned (-k)⟩

/-- A line that leaves a copy of the box crosses the loop. -/
theorem exists_mem_trace (h : ProperBox a b s n)
    (htrace : loop.trace = spread (box a b s n \ openBox a b s n)) {P Q : ℚ × ℚ} {k : ℤ}
    (hP : P ∈ openBox (a + k * 360) (b + k * 360) s n)
    (hQ : Q ∉ openBox (a + k * 360) (b + k * 360) s n) :
    ∃ R ∈ segment ℚ P Q, R ∈ box (a + k * 360) (b + k * 360) s n ∧
      ∃ r, Names R r ∧ r ∈ loop.trace := by
  obtain ⟨R, hR, hbox, hnot⟩ := exists_mem_boundary hP hQ
  obtain ⟨r, hr⟩ := exists_point (h.lat_mem hbox.2)
  exact ⟨R, hR, hbox, r, hr, mem_trace_of_boundary htrace hbox hnot hr⟩

theorem mem_spread_openBox_of_turned {P : ℚ × ℚ} {k : ℤ} (hP : Names P p)
    (hinner : P ∈ openBox (a + k * 360) (b + k * 360) s n) : p ∈ spread (openBox a b s n) := by
  rw [← turned_turned_neg k P, turned_mem_openBox] at hinner
  exact ⟨turned (-k) P, hinner, hP.turned (-k)⟩

theorem exists_turned_mem_openBox (h : ProperBox a b s n) {P : ℚ × ℚ} (hP : Names P p)
    (hinner : p ∈ spread (openBox a b s n)) :
    ∃ k : ℤ, P ∈ openBox (a + k * 360) (b + k * 360) s n := by
  obtain ⟨P', hinner', hP'⟩ := hinner
  obtain ⟨k, rfl⟩ := hP'.exists_turned hP (h.not_isPole hinner'.2)
  exact ⟨k, (turned_mem_openBox k).mpr hinner'⟩

/-- A piece has no inner point of a copy of the box. -/
theorem not_mem_openBox_of_piece (h : ProperBox a b s n)
    (htrace : loop.trace = spread (box a b s n \ openBox a b s n)) {e : Piece}
    (he : e ∈ loop.pieces) {M : ℚ × ℚ} (hM : M ∈ openSegment ℚ e.1 e.2) (k : ℤ) :
    M ∉ openBox (a + k * 360) (b + k * 360) s n := by
  intro hinner
  obtain ⟨m, hm⟩ := exists_point (h.lat_mem (Set.Ioo_subset_Icc_self hinner.2))
  have htrace' : m ∈ loop.trace := ⟨e, he, M, openSegment_subset_segment ℚ e.1 e.2 hM, hm⟩
  rw [htrace] at htrace'
  exact h.not_mem_boundary (mem_spread_openBox_of_turned hm hinner) htrace'

theorem Loop.Connects.symm (hpq : loop.Connects p q) : loop.Connects q p := by
  obtain ⟨P, Q, hP, hQ, hmisses⟩ := hpq
  exact ⟨Q, P, hQ, hP, segment_symm ℚ P Q ▸ hmisses⟩

/-- Paths that avoid the loop stay inside. -/
theorem mem_of_connects (h : ProperBox a b s n)
    (htrace : loop.trace = spread (box a b s n \ openBox a b s n)) (hpq : loop.Connects p q)
    (hp : p ∈ spread (openBox a b s n)) : q ∈ spread (openBox a b s n) := by
  obtain ⟨P, Q, hP, hQ, hmisses⟩ := hpq
  obtain ⟨k, hinner⟩ := exists_turned_mem_openBox h hP hp
  by_cases hinner' : Q ∈ openBox (a + k * 360) (b + k * 360) s n
  · exact mem_spread_openBox_of_turned hQ hinner'
  · obtain ⟨R, hR, -, r, hr, hmem⟩ := exists_mem_trace h htrace hinner hinner'
    exact absurd hmem (hmisses R hR r hr)

theorem mem_iff_of_joined (h : ProperBox a b s n)
    (htrace : loop.trace = spread (box a b s n \ openBox a b s n))
    (hpq : Relation.ReflTransGen loop.Connects p q) :
    p ∈ spread (openBox a b s n) ↔ q ∈ spread (openBox a b s n) := by
  induction hpq with
  | refl => exact Iff.rfl
  | tail _ hstep ih =>
    exact ih.trans ⟨mem_of_connects h htrace hstep, mem_of_connects h htrace hstep.symm⟩

theorem not_mem_trace_of_joined (hpq : Relation.ReflTransGen loop.Connects p q)
    (hq : q ∉ loop.trace) : p ∉ loop.trace := by
  cases hpq.cases_head with
  | inl heq => exact heq ▸ hq
  | inr hstep =>
    obtain ⟨r, ⟨P, R, hP, -, hmisses⟩, -⟩ := hstep
    exact hmisses P (left_mem_segment ℚ P R) p hP

/-! ### Inside and outside -/

theorem turned_sub_turned (k : ℤ) (P Q : ℚ × ℚ) : turned k P - turned k Q = P - Q := by
  apply Prod.ext
  · exact add_sub_add_right_eq_sub P.1 Q.1 _
  · rfl

theorem ne_of_turn_pos {u P M : ℚ × ℚ} (hturn : 0 < turn u (P - M)) : P ≠ M := by
  rintro rfl
  rw [sub_self] at hturn
  simp [turn] at hturn

/-- What faces the left side of a counterclockwise loop is inside. -/
theorem Counterclockwise.mem_of_facesLeft (h : ProperBox a b s n)
    (hloop : Counterclockwise loop a b s n) (hq : loop.FacesLeft q) :
    q ∈ spread (openBox a b s n) := by
  obtain ⟨Q, hQ, e, he, M, hM, hturn, hmisses⟩ := hq
  obtain ⟨f, hf, k, rfl⟩ := hloop.side_of_mem e he
  rw [turned_sub_turned] at hturn
  obtain ⟨hlng, hlat⟩ := inward_of_left h hf hM hturn
  have hwidth : a + k * 360 < b + k * 360 := by linarith [h.lng_lt]
  obtain ⟨R, hR, hinner⟩ := exists_mem_openBox hwidth h.lat_lt hlng hlat
  by_contra hnot
  have hout : Q ∉ openBox (a + k * 360) (b + k * 360) s n :=
    fun hQin => hnot (mem_spread_openBox_of_turned hQ hQin)
  obtain ⟨R', hR', -, r, hr, hmem⟩ := exists_mem_trace h (hloop.trace_eq h) hinner hout
  have hRM : R ≠ M := by
    rintro rfl
    exact not_mem_openBox_of_piece h (hloop.trace_eq h) he hM k hinner
  have hRQ : R' ∈ segment ℚ Q M := by
    rw [segment_symm]
    exact (convex_segment M Q).segment_subset hR (right_mem_segment ℚ M Q) hR'
  have hne : R' ≠ M := by
    rintro rfl
    exact not_mem_segment_of_ne hR hRM hR'
  exact hmisses R' ⟨hRQ, hne⟩ r hr hmem

/-- What faces the left side of a clockwise loop is not inside. -/
theorem Clockwise.not_mem_of_facesLeft (h : ProperBox a b s n) (hloop : Clockwise loop a b s n)
    (hq : loop.FacesLeft q) : q ∉ spread (openBox a b s n) := by
  intro hinner
  obtain ⟨Q, hQ, e, he, M, hM, hturn, hmisses⟩ := hq
  obtain ⟨j, hQin⟩ := exists_turned_mem_openBox h hQ hinner
  have hMout := not_mem_openBox_of_piece h (hloop.trace_eq h) he hM
  obtain ⟨R, hR, hbox, r, hr, hmem⟩ := exists_mem_trace h (hloop.trace_eq h) hQin (hMout j)
  -- the line first meets the boundary where it ends
  have hRM : R = M := by
    by_contra hne
    exact hmisses R ⟨hR, hne⟩ r hr hmem
  subst hRM
  obtain ⟨f, hf, k, rfl⟩ := hloop.side_of_mem e he
  have hturn' : 0 < turn (f.2 - f.1) (R - Q) := by
    rw [turned_sub_turned] at hturn
    simp only [turn, Prod.fst_sub, Prod.snd_sub] at hturn ⊢
    linarith
  rw [openSegment_symm] at hM
  obtain ⟨hlng, hlat⟩ := inward_of_left h hf hM hturn'
  have hwidth : a + k * 360 ≤ b + k * 360 := by linarith [h.lng_lt]
  have hsame : k = j := by
    obtain ⟨hwest, heast⟩ := hlng.mem_Icc hwidth
    obtain ⟨hwest', heast'⟩ := hbox.1
    have hturn := h.lt_turn
    have hzero : k - j = 0 := by
      apply turns_eq_zero
      · push_cast
        linarith
      · push_cast
        linarith
    omega
  subst hsame
  exact hMout k ⟨hlng.mem_Ioo hQin.1, hlat.mem_Ioo hQin.2⟩

/-- The inside of a box sees the western side of a counterclockwise loop. -/
theorem Counterclockwise.facesLeft (h : ProperBox a b s n) (hloop : Counterclockwise loop a b s n)
    (hp : p ∈ spread (openBox a b s n)) : loop.FacesLeft p := by
  obtain ⟨P, hinner, hP⟩ := hp
  have hside : ((a, n), (a, s)) ∈ sides a b s n := by simp [sides]
  obtain ⟨k, he⟩ := hloop.mem_of_side _ hside
  have hmid : (n + s) / 2 ∈ Set.Icc s n := by
    have hlat := h.lat_lt
    exact ⟨by linarith, by linarith⟩
  refine ⟨turned k P, hP.turned k, _, he, turned k (a, (n + s) / 2), ?_, ?_, ?_⟩
  · exact mem_openSegment_vertical.mpr ⟨rfl, half_mem_openSegment h.lat_lt.ne'⟩
  · rw [turned_sub_turned, turned_sub_turned]
    have hpos := mul_pos (sub_pos.mpr h.lat_lt) (sub_pos.mpr hinner.1.1)
    simp only [turn, Prod.fst_sub, Prod.snd_sub]
    linarith
  · rintro R ⟨hR, hne⟩ r hr
    have hRin : R ∈ openBox (a + k * 360) (b + k * 360) s n := by
      apply mem_openBox_of_mem_segment ((turned_mem_openBox k).mpr hinner) _ hR hne
      exact (turned_mem_box k).mpr ⟨Set.left_mem_Icc.mpr h.lng_lt.le, hmid⟩
    rw [hloop.trace_eq h]
    exact h.not_mem_boundary (mem_spread_openBox_of_turned hr hRin)

/-- The left of a counterclockwise loop is the inside of the box. -/
theorem Counterclockwise.left_eq (h : ProperBox a b s n)
    (hloop : Counterclockwise loop a b s n) : loop.left = spread (openBox a b s n) := by
  ext p
  constructor
  · rintro ⟨q, hpq, hq⟩
    exact (mem_iff_of_joined h (hloop.trace_eq h) hpq).mpr (hloop.mem_of_facesLeft h hq)
  · intro hp
    exact ⟨p, .refl, hloop.facesLeft h hp⟩

theorem not_mem_trace_of_not_mem (htrace : loop.trace = spread (box a b s n \ openBox a b s n))
    (hp : p ∉ spread (box a b s n)) : p ∉ loop.trace := by
  rw [htrace]
  rintro ⟨P, hP, hp'⟩
  exact hp ⟨P, hP.1, hp'⟩

/-- Points beside the box see its eastern side. -/
theorem Clockwise.facesLeft_of_lng (h : ProperBox a b s n) (hloop : Clockwise loop a b s n)
    {P : ℚ × ℚ} (hP : Names P p) (hpole : ¬IsPole P) (hlng : P.1 ∈ Set.Ioo b (a + 360)) :
    loop.FacesLeft p := by
  have hside : ((b, s), (b, n)) ∈ sides a b s n := by simp [sides]
  obtain ⟨k, he⟩ := hloop.mem_of_side _ hside
  have hbetween : P ∈ openBox b (a + 360) (-90) 90 := by
    obtain ⟨hsouth, hnorth⟩ := hP.1
    obtain ⟨hne, hne'⟩ := not_or.mp hpole
    exact ⟨hlng, lt_of_le_of_ne hsouth (Ne.symm hne), lt_of_le_of_ne hnorth hne'⟩
  have hmid : (b, (n + s) / 2) ∈ box b (a + 360) (-90) 90 := by
    have hmiddle : (n + s) / 2 ∈ Set.Icc s n := by
      have hlt := h.lat_lt
      exact ⟨by linarith, by linarith⟩
    exact ⟨Set.left_mem_Icc.mpr h.lt_turn.le, h.lat_mem hmiddle⟩
  refine ⟨turned k P, hP.turned k, _, he, turned k (b, (n + s) / 2), ?_, ?_, ?_⟩
  · exact mem_openSegment_vertical.mpr ⟨rfl, half_mem_openSegment h.lat_lt.ne'⟩
  · rw [turned_sub_turned, turned_sub_turned]
    have hpos := mul_pos (sub_pos.mpr h.lat_lt) (sub_pos.mpr hlng.1)
    simp only [turn, Prod.fst_sub, Prod.snd_sub]
    linarith
  · rintro R ⟨hR, hne⟩ r hr
    have hRin := mem_openBox_of_mem_segment ((turned_mem_openBox k).mpr hbetween)
      ((turned_mem_box k).mpr hmid) hR hne
    have hpole' : ¬IsPole (turned (-k) R) := fun hpole =>
      hpole.elim hRin.2.1.ne' hRin.2.2.ne
    apply not_mem_trace_of_not_mem (hloop.trace_eq h)
    apply h.not_mem_of_lng (hr.turned (-k)) hpole'
    obtain ⟨hwest, heast⟩ := hRin.1
    simp only [turned]
    push_cast
    exact ⟨by linarith, by linarith⟩

/-- A vertical line from outside meets the northern or southern side where it ends. -/
theorem misses_of_lat (htrace : loop.trace = spread (box a b s n \ openBox a b s n))
    {Q M : ℚ × ℚ} (hbeyond : Q.2 < s ∧ M.2 = s ∨ n < Q.2 ∧ M.2 = n) :
    loop.Misses (segment ℚ Q M \ {M}) := by
  rintro R ⟨hR, hne⟩ r hr
  apply not_mem_trace_of_not_mem htrace
  apply ProperBox.not_mem_of_lat hr
  obtain ⟨t, -, hlt, -, hy⟩ := exists_lt_one hR hne
  have hrest : 0 < 1 - t := sub_pos.mpr hlt
  intro hmem
  rcases hbeyond with ⟨hQ, hM⟩ | ⟨hQ, hM⟩
  · have hgap := mul_pos hrest (sub_pos.mpr hQ)
    rw [hy, hM] at hmem
    linarith [hmem.1]
  · have hgap := mul_pos hrest (sub_pos.mpr hQ)
    rw [hy, hM] at hmem
    linarith [hmem.2]

/-- Points north or south of the box see it from their latitude. -/
theorem Clockwise.facesLeft_of_lat (h : ProperBox a b s n) (hloop : Clockwise loop a b s n)
    {y : ℚ} (hp : Names ((a + b) / 2, y) p) (hlat : y ∉ Set.Icc s n) : loop.FacesLeft p := by
  have hwidth : 0 < b - a := sub_pos.mpr h.lng_lt
  have hmiddle : ∀ k : ℤ, (a + b) / 2 + k * 360 ∈ openSegment ℚ (a + k * 360) (b + k * 360) := by
    intro k
    have hhalf : (a + b) / 2 + k * 360 = (a + k * 360 + (b + k * 360)) / 2 := by ring
    rw [hhalf]
    exact half_mem_openSegment (fun heq => h.lng_lt.ne (add_right_cancel heq))
  by_cases hsouth : y < s
  · have hside : ((a, s), (b, s)) ∈ sides a b s n := by simp [sides]
    obtain ⟨k, he⟩ := hloop.mem_of_side _ hside
    refine ⟨_, hp.turned k, _, he, turned k ((a + b) / 2, s), ?_, ?_, ?_⟩
    · rw [openSegment_symm]
      exact mem_openSegment_horizontal.mpr ⟨hmiddle k, rfl⟩
    · rw [turned_sub_turned, turned_sub_turned]
      have hpos := mul_pos hwidth (sub_pos.mpr hsouth)
      simp only [turn, Prod.fst_sub, Prod.snd_sub]
      linarith
    · exact misses_of_lat (hloop.trace_eq h) (Or.inl ⟨hsouth, rfl⟩)
  · have hnorth : n < y := lt_of_not_ge fun hle => hlat ⟨not_lt.mp hsouth, hle⟩
    have hside : ((b, n), (a, n)) ∈ sides a b s n := by simp [sides]
    obtain ⟨k, he⟩ := hloop.mem_of_side _ hside
    refine ⟨_, hp.turned k, _, he, turned k ((a + b) / 2, n), ?_, ?_, ?_⟩
    · exact mem_openSegment_horizontal.mpr ⟨hmiddle k, rfl⟩
    · rw [turned_sub_turned, turned_sub_turned]
      have hpos := mul_pos hwidth (sub_pos.mpr hnorth)
      simp only [turn, Prod.fst_sub, Prod.snd_sub]
      linarith
    · exact misses_of_lat (hloop.trace_eq h) (Or.inr ⟨hnorth, rfl⟩)

/-- The left of a clockwise loop is the outside of the box. -/
theorem Clockwise.left_eq (h : ProperBox a b s n) (hloop : Clockwise loop a b s n) :
    loop.left = (spread (box a b s n))ᶜ := by
  have htrace := hloop.trace_eq h
  ext p
  constructor
  · rintro ⟨q, hpq, hq⟩ hp
    have hinner : p ∉ spread (openBox a b s n) := fun hp =>
      hloop.not_mem_of_facesLeft h hq ((mem_iff_of_joined h htrace hpq).mp hp)
    have hmem : p ∈ loop.trace := by
      rw [htrace, ← h.diff_spread]
      exact ⟨hp, hinner⟩
    obtain ⟨Q, hQ, e, he, M, hM, hturn, hmisses⟩ := hq
    have hne : Q ≠ M := ne_of_turn_pos hturn
    have hq : q ∉ loop.trace := hmisses Q ⟨left_mem_segment ℚ Q M, hne⟩ q hQ
    exact not_mem_trace_of_joined hpq hq hmem
  · intro hp
    obtain ⟨P, hP, hwest, heast⟩ := exists_names p a
    by_cases hlat : P.2 ∈ Set.Icc s n
    · refine ⟨p, .refl, hloop.facesLeft_of_lng h hP ?_ ⟨?_, heast⟩⟩
      · intro hpole
        exact hp ⟨(a, P.2), ⟨Set.left_mem_Icc.mpr h.lng_lt.le, hlat⟩,
          hP.of_same ⟨rfl, Or.inl hpole⟩⟩
      · by_contra hle
        exact hp ⟨P, ⟨⟨hwest, not_lt.mp hle⟩, hlat⟩, hP⟩
    · have hstrip : P.2 ∈ Set.Icc (-90) 90 := hP.1
      obtain ⟨q, hq⟩ := @exists_point ((a + b) / 2, P.2) hstrip
      refine ⟨q, .single ⟨P, _, hP, hq, ?_⟩, hloop.facesLeft_of_lat h hq hlat⟩
      intro R hR r hr
      apply not_mem_trace_of_not_mem htrace
      apply ProperBox.not_mem_of_lat hr
      obtain ⟨t, -, -, -, hy⟩ := mem_segment_iff.mp hR
      rwa [hy, sub_self, mul_zero, add_zero]

end BoxLoop

/-! ### Regions -/

/-- A region, by its inner points and its boundary. -/
@[ext]
structure Region where
  inside : Set SpherePoint
  boundary : Set SpherePoint

/-- The region of a closed set. -/
def Region.of (A : Set SpherePoint) : Region := ⟨interior A, A \ interior A⟩

/-- The region that a closed set leaves. -/
def Region.outside (A : Set SpherePoint) : Region := ⟨Aᶜ, A \ interior A⟩

/-- The region on the left of a loop. -/
def Loop.region (loop : Loop) : Region := ⟨loop.left, loop.trace⟩

section Regions

variable {loop : Loop} {a b s n : ℚ}

theorem boundary_eq (h : ProperBox a b s n) :
    spread (box a b s n) \ interior (spread (box a b s n)) =
      spread (box a b s n \ openBox a b s n) := by
  rw [h.interior_spread, h.diff_spread]

theorem Counterclockwise.region_eq (h : ProperBox a b s n)
    (hloop : Counterclockwise loop a b s n) : loop.region = .of (spread (box a b s n)) := by
  apply Region.ext
  · exact (hloop.left_eq h).trans h.interior_spread.symm
  · exact (hloop.trace_eq h).trans (boundary_eq h).symm

theorem Clockwise.region_eq (h : ProperBox a b s n) (hloop : Clockwise loop a b s n) :
    loop.region = .outside (spread (box a b s n)) := by
  apply Region.ext
  · exact hloop.left_eq h
  · exact (hloop.trace_eq h).trans (boundary_eq h).symm

/-- The sides of a box from one corner: across, along, back and down. The second and third piece
may be written whole turns away. -/
def boxPieces (x₀ x₁ : ℚ) (k : ℤ) (s n : ℚ) : List Piece :=
  [((x₀, s), (x₁, s)), (turned k (x₁, s), turned k (x₁, n)),
    (turned k (x₁, n), turned k (x₀, n)), ((x₀, n), (x₀, s))]

/-- Across to the east, the pieces go round counterclockwise. -/
theorem counterclockwise_of_pieces {k : ℤ} (hpieces : loop.pieces = boxPieces a b k s n) :
    Counterclockwise loop a b s n := by
  constructor
  · intro e he
    simp only [hpieces, boxPieces, List.mem_cons, List.not_mem_nil, or_false] at he
    rcases he with rfl | rfl | rfl | rfl
    · exact ⟨((a, s), (b, s)), by simp [sides], 0, by simp only [turned_zero]⟩
    · exact ⟨((b, s), (b, n)), by simp [sides], k, rfl⟩
    · exact ⟨((b, n), (a, n)), by simp [sides], k, rfl⟩
    · exact ⟨((a, n), (a, s)), by simp [sides], 0, by simp only [turned_zero]⟩
  · intro f hf
    simp only [sides, List.mem_cons, List.not_mem_nil, or_false] at hf
    rw [hpieces]
    rcases hf with rfl | rfl | rfl | rfl
    · exact ⟨0, by simp [boxPieces, turned_zero]⟩
    · exact ⟨k, by simp [boxPieces]⟩
    · exact ⟨k, by simp [boxPieces]⟩
    · exact ⟨0, by simp [boxPieces, turned_zero]⟩

/-- Across to the west, they go round clockwise. -/
theorem clockwise_of_pieces {k : ℤ} (hpieces : loop.pieces = boxPieces b a k s n) :
    Clockwise loop a b s n := by
  constructor
  · intro e he
    simp only [hpieces, boxPieces, List.mem_cons, List.not_mem_nil, or_false] at he
    rcases he with rfl | rfl | rfl | rfl
    · exact ⟨((a, s), (b, s)), by simp [sides], 0, by simp only [turned_zero]⟩
    · exact ⟨((a, n), (a, s)), by simp [sides], k, rfl⟩
    · exact ⟨((b, n), (a, n)), by simp [sides], k, rfl⟩
    · exact ⟨((b, s), (b, n)), by simp [sides], 0, by simp only [turned_zero]⟩
  · intro f hf
    simp only [sides, List.mem_cons, List.not_mem_nil, or_false] at hf
    rw [hpieces]
    rcases hf with rfl | rfl | rfl | rfl
    · exact ⟨0, by simp [boxPieces, turned_zero]⟩
    · exact ⟨0, by simp [boxPieces, turned_zero]⟩
    · exact ⟨k, by simp [boxPieces]⟩
    · exact ⟨k, by simp [boxPieces]⟩

end Regions

end SphereCoordinates
