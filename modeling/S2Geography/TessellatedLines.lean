import S2Geography.TessellatingExporter
import S2Geography.Constructor

/-!
# Vertices of tessellated lines

A tessellated line is appended edge by edge, and a vertex is only written as an end of an
edge. So all vertices are there if there is an edge and the halving of each edge ends, and no
vertex if there is just one.
-/
namespace S2Geography

open ListVisits

variable {proj : S2Projection}

/-! ### Export -/

namespace Exporter

section Renders

variable {σ : Type} {exporter : EdgeExporter σ}
  {line ring : List S2Point → Except Fault (List WkCoord)}

end Renders

variable (t : S2EdgeTessellator proj) (unset unset' : Double)

end Exporter

/-! ### Import -/

namespace Constructor

/-- The projection of import options, with a tessellator for every tolerance. -/
def importProjection (proj : S2Projection) (tessellator : Double → S2EdgeTessellator proj) :
    Projection where
  unproject := proj.unproject
  appendUnprojected tolerance := (tessellator tolerance).appendUnprojected

/-- The sphere's point that a vertex delivered in the plane becomes. -/
def UnprojectsTo (proj : S2Projection) (pt point : S2Point) : Prop :=
  point = proj.unproject ⟨pt.x, pt.y⟩

variable (tessellator : Double → S2EdgeTessellator proj) (tolerance : Double)

/-- The halving of the planar edges between consecutive vertices ends before the stack is full. -/
def planarEdgesEnd (t : S2EdgeTessellator proj) : List S2Point → Bool
  | pt0 :: pt1 :: pts =>
    t.unprojectedEndsWithin (t.stackDepth + 1) ⟨pt0.x, pt0.y⟩ (proj.unproject ⟨pt0.x, pt0.y⟩)
      ⟨pt1.x, pt1.y⟩ (proj.unproject ⟨pt1.x, pt1.y⟩) && planarEdgesEnd t (pt1 :: pts)
  | _ => true

theorem exists_tessellate (pt : S2Point) (pts : List S2Point) {points : List S2Point}
    (hne : points ≠ []) (h : planarEdgesEnd (tessellator tolerance) (pt :: pts) = true) :
    ∃ added, tessellate (importProjection proj tessellator) tolerance (pt :: pts) points =
      .ok (points ++ added) ∧ Visits (UnprojectsTo proj) pts added := by
  induction pts generalizing pt points with
  | nil => exact ⟨[], congrArg Except.ok (List.append_nil points).symm, .nil⟩
  | cons pt' pts ih =>
    rw [planarEdgesEnd, Bool.and_eq_true] at h
    obtain ⟨pieces, hpieces⟩ := (tessellator tolerance).exists_unprojectedEdge h.1
    have happend : (tessellator tolerance).appendUnprojected ⟨pt.x, pt.y⟩ ⟨pt'.x, pt'.y⟩ points =
        .ok (points ++ (pieces ++ [proj.unproject ⟨pt'.x, pt'.y⟩])) := by
      rw [S2EdgeTessellator.appendUnprojected, List.isEmpty_eq_false_iff.mpr hne, hpieces]
      rfl
    obtain ⟨added, hadded, hvisits⟩ := ih pt' (List.append_ne_nil_of_left_ne_nil hne
      (pieces ++ [proj.unproject ⟨pt'.x, pt'.y⟩])) h.2
    refine ⟨pieces ++ proj.unproject ⟨pt'.x, pt'.y⟩ :: added, ?_, .cons pieces rfl hvisits⟩
    rw [tessellate]
    change ((tessellator tolerance).appendUnprojected _ _ points >>= _) = _
    rw [happend]
    refine hadded.trans ?_
    simp only [List.append_assoc, List.singleton_append]

theorem tessellate_overflows (pt : S2Point) (pts points : List S2Point)
    (h : ¬planarEdgesEnd (tessellator tolerance) (pt :: pts) = true) :
    tessellate (importProjection proj tessellator) tolerance (pt :: pts) points =
      .error .stackOverflow := by
  induction pts generalizing pt points with
  | nil => exact absurd rfl h
  | cons pt' pts ih =>
    rw [tessellate]
    change ((tessellator tolerance).appendUnprojected _ _ points >>= _) = _
    rw [S2EdgeTessellator.appendUnprojected]
    by_cases hfirst : (tessellator tolerance).unprojectedEndsWithin
        ((tessellator tolerance).stackDepth + 1) ⟨pt.x, pt.y⟩ (proj.unproject ⟨pt.x, pt.y⟩)
        ⟨pt'.x, pt'.y⟩ (proj.unproject ⟨pt'.x, pt'.y⟩) = true
    · rw [planarEdgesEnd, hfirst, Bool.true_and] at h
      obtain ⟨pieces, hpieces⟩ := (tessellator tolerance).exists_unprojectedEdge hfirst
      rw [hpieces]
      exact ih pt' _ h
    · rw [(tessellator tolerance).unprojectedEdge_overflows hfirst]
      rfl

/-- The first edge adds both its ends. -/
theorem exists_tessellate_nil (pt : S2Point) {pts : List S2Point} (hne : pts ≠ [])
    (h : planarEdgesEnd (tessellator tolerance) (pt :: pts) = true) : ∃ added,
    tessellate (importProjection proj tessellator) tolerance (pt :: pts) [] =
      .ok (proj.unproject ⟨pt.x, pt.y⟩ :: added) ∧ Visits (UnprojectsTo proj) pts added := by
  obtain ⟨pt', pts, rfl⟩ := List.exists_cons_of_ne_nil hne
  exact exists_tessellate tessellator tolerance pt (pt' :: pts) (List.cons_ne_nil _ []) h

end Constructor

open Exporter Constructor

end S2Geography
