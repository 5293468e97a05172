import Mathlib.Data.Set.Basic
import Mathlib.Order.Lattice
import Mathlib.Tactic.Common

/-!
# Points, edges and distances

A space of points with exact distances, in which edges have points of their own, and the
closest points of two edges. Two edges that do not cross are closest at a vertex of one of
them, and this is all that the search for the closest points uses.
-/

/-- Points with distances, and edges between points. -/
structure EdgeGeometry (P δ : Type) [LinearOrder δ] [Zero δ] where
  distance : P → P → δ
  /-- The points of an edge. -/
  segment : P × P → Set P
  center : P × P → P
  /-- The point of an edge that is closest to a point. -/
  project : P → P × P → P
  /-- Positive if the edges cross at inner points, zero if they share a vertex, and otherwise
  negative. -/
  crossingSign : P × P → P × P → ℤ
  intersection : P × P → P × P → P
  distance_nonneg : ∀ p q, 0 ≤ distance p q
  distance_eq_zero_iff : ∀ p q, distance p q = 0 ↔ p = q
  distance_comm : ∀ p q, distance p q = distance q p
  left_mem : ∀ e, e.1 ∈ segment e
  right_mem : ∀ e, e.2 ∈ segment e
  project_mem : ∀ p e, project p e ∈ segment e
  distance_project_le : ∀ p e, ∀ q ∈ segment e, distance p (project p e) ≤ distance p q
  intersection_mem : ∀ e f, 0 < crossingSign e f →
    intersection e f ∈ segment e ∧ intersection e f ∈ segment f
  exists_shared : ∀ e f, crossingSign e f = 0 →
    e.1 = f.1 ∨ e.1 = f.2 ∨ e.2 = f.1 ∨ e.2 = f.2
  exists_vertex_le : ∀ e f, crossingSign e f < 0 → ∀ p ∈ segment e, ∀ q ∈ segment f,
    distance e.1 (project e.1 f) ≤ distance p q ∨ distance e.2 (project e.2 f) ≤ distance p q ∨
      distance f.1 (project f.1 e) ≤ distance p q ∨ distance f.2 (project f.2 e) ≤ distance p q

namespace EdgeGeometry

variable {P δ : Type} [LinearOrder δ] [Zero δ] (geometry : EdgeGeometry P δ)

def pointDistance (p : P) (e : P × P) : δ := geometry.distance p (geometry.project p e)

/-- The distance of the vertices of one edge to the other. -/
def vertexDistance (e f : P × P) : δ :=
  min (min (geometry.pointDistance e.1 f) (geometry.pointDistance e.2 f))
    (min (geometry.pointDistance f.1 e) (geometry.pointDistance f.2 e))

/-- The distance of two edges, as `UpdateEdgePairMinDistance` has it. -/
def edgeDistance (e f : P × P) : δ :=
  if 0 ≤ geometry.crossingSign e f then 0 else geometry.vertexDistance e f

/-- A pair of points replaces another if it is closer. -/
def closer (best other : P × P) : P × P :=
  if geometry.distance other.1 other.2 < geometry.distance best.1 best.2 then other else best

/-- `GetEdgePairClosestPoints`. -/
def closestPoints (e f : P × P) : P × P :=
  if 0 < geometry.crossingSign e f then
    let x := geometry.intersection e f
    (x, x)
  else
    let best := (e.1, geometry.project e.1 f)
    let best := geometry.closer best (e.2, geometry.project e.2 f)
    let best := geometry.closer best (geometry.project f.1 e, f.1)
    geometry.closer best (geometry.project f.2 e, f.2)

variable {geometry} {e f : P × P}

theorem distance_self (p : P) : geometry.distance p p = 0 :=
  (geometry.distance_eq_zero_iff p p).mpr rfl

theorem distance_closer (best other : P × P) :
    geometry.distance (geometry.closer best other).1 (geometry.closer best other).2 =
      min (geometry.distance best.1 best.2) (geometry.distance other.1 other.2) := by
  unfold closer
  split
  · next hlt => exact (min_eq_right hlt.le).symm
  · next hle => exact (min_eq_left (not_lt.mp hle)).symm

theorem closer_mem {S : Set (P × P)} {best other : P × P} (hbest : best ∈ S) (hother : other ∈ S) :
    geometry.closer best other ∈ S := by
  unfold closer
  split
  · exact hother
  · exact hbest

theorem closestPoints_mem (e f : P × P) :
    (geometry.closestPoints e f).1 ∈ geometry.segment e ∧
      (geometry.closestPoints e f).2 ∈ geometry.segment f := by
  unfold closestPoints
  split
  · next hcross => exact geometry.intersection_mem e f hcross
  · have hpairs : geometry.closer (geometry.closer (geometry.closer
        (e.1, geometry.project e.1 f) (e.2, geometry.project e.2 f))
        (geometry.project f.1 e, f.1)) (geometry.project f.2 e, f.2) ∈
          {pair : P × P | pair.1 ∈ geometry.segment e ∧ pair.2 ∈ geometry.segment f} := by
      apply closer_mem
      · apply closer_mem
        · apply closer_mem
          · exact ⟨geometry.left_mem e, geometry.project_mem e.1 f⟩
          · exact ⟨geometry.right_mem e, geometry.project_mem e.2 f⟩
        · exact ⟨geometry.project_mem f.1 e, geometry.left_mem f⟩
      · exact ⟨geometry.project_mem f.2 e, geometry.right_mem f⟩
    exact hpairs

theorem vertexDistance_nonneg (e f : P × P) : 0 ≤ geometry.vertexDistance e f :=
  le_min (le_min (geometry.distance_nonneg _ _) (geometry.distance_nonneg _ _))
    (le_min (geometry.distance_nonneg _ _) (geometry.distance_nonneg _ _))

/-- Edges that share a vertex are at distance zero. -/
theorem vertexDistance_eq_zero (h : geometry.crossingSign e f = 0) :
    geometry.vertexDistance e f = 0 := by
  have hproject : ∀ {p : P} {g : P × P}, p ∈ geometry.segment g →
      geometry.pointDistance p g ≤ 0 := by
    intro p g hp
    exact (geometry.distance_project_le p g p hp).trans_eq (distance_self p)
  apply le_antisymm _ (vertexDistance_nonneg e f)
  rcases geometry.exists_shared e f h with h | h | h | h
  · have hmem : e.1 ∈ geometry.segment f := h ▸ geometry.left_mem f
    exact (min_le_left _ _).trans ((min_le_left _ _).trans (hproject hmem))
  · have hmem : e.1 ∈ geometry.segment f := h ▸ geometry.right_mem f
    exact (min_le_left _ _).trans ((min_le_left _ _).trans (hproject hmem))
  · have hmem : e.2 ∈ geometry.segment f := h ▸ geometry.left_mem f
    exact (min_le_left _ _).trans ((min_le_right _ _).trans (hproject hmem))
  · have hmem : e.2 ∈ geometry.segment f := h ▸ geometry.right_mem f
    exact (min_le_left _ _).trans ((min_le_right _ _).trans (hproject hmem))

theorem edgeDistance_nonneg (e f : P × P) : 0 ≤ geometry.edgeDistance e f := by
  unfold edgeDistance
  split
  · exact le_refl 0
  · exact vertexDistance_nonneg e f

theorem edgeDistance_le {p q : P} (hp : p ∈ geometry.segment e) (hq : q ∈ geometry.segment f) :
    geometry.edgeDistance e f ≤ geometry.distance p q := by
  unfold edgeDistance
  split
  · exact geometry.distance_nonneg p q
  · next hsign =>
    rcases geometry.exists_vertex_le e f (not_le.mp hsign) p hp q hq with h | h | h | h
    · exact (min_le_left _ _).trans ((min_le_left _ _).trans h)
    · exact (min_le_left _ _).trans ((min_le_right _ _).trans h)
    · exact (min_le_right _ _).trans ((min_le_left _ _).trans h)
    · exact (min_le_right _ _).trans ((min_le_right _ _).trans h)

/-- The closest points are at the distance of the edges. -/
theorem distance_closestPoints (e f : P × P) :
    geometry.distance (geometry.closestPoints e f).1 (geometry.closestPoints e f).2 =
      geometry.edgeDistance e f := by
  unfold closestPoints edgeDistance
  by_cases hcross : 0 < geometry.crossingSign e f
  · rw [if_pos hcross, if_pos hcross.le]
    exact distance_self _
  · have hvertices : geometry.distance
        (geometry.closer (geometry.closer (geometry.closer (e.1, geometry.project e.1 f)
          (e.2, geometry.project e.2 f)) (geometry.project f.1 e, f.1))
          (geometry.project f.2 e, f.2)).1
        (geometry.closer (geometry.closer (geometry.closer (e.1, geometry.project e.1 f)
          (e.2, geometry.project e.2 f)) (geometry.project f.1 e, f.1))
          (geometry.project f.2 e, f.2)).2 = geometry.vertexDistance e f := by
      rw [distance_closer, distance_closer, distance_closer, min_assoc,
        geometry.distance_comm (geometry.project f.1 e), geometry.distance_comm
          (geometry.project f.2 e)]
      rfl
    rw [if_neg hcross]
    refine hvertices.trans ?_
    by_cases hsign : 0 ≤ geometry.crossingSign e f
    · rw [if_pos hsign]
      exact vertexDistance_eq_zero (le_antisymm (not_lt.mp hcross) hsign)
    · rw [if_neg hsign]

end EdgeGeometry
