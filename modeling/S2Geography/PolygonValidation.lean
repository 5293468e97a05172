import Mathlib.Algebra.Order.BigOperators.Group.List
import S2Geography.Validation

/-!
# Validation of rebuilt polygons

Rebuilding makes simple loops of the edges of polygons, without edges of length 0 and
without pairs of an edge and its reverse. Whether the result is valid is a property of the
edges that remain: none of them is bad, no two cross, none remains twice, and together they
have one side inside and the other outside.
-/
namespace S2Geography

open Exporter

namespace S2Point

theorem neg_neg (p : S2Point) : p.neg.neg = p := by
  simp only [neg, Double.neg, BitVec.xor_assoc, BitVec.xor_self, BitVec.xor_zero]

theorem eq_neg_comm {p q : S2Point} (h : p.eq q.neg = true) : q.eq p.neg = true := by
  rw [eq_comm]
  simpa only [neg_neg] using neg_eq h

end S2Point

namespace Accessors

variable {lib : S2Validity}

/-! ### Loops -/

theorem BadEdge.swap {e : Edge} (h : BadEdge lib e) : BadEdge lib e.swap := by
  rcases h with h | h | h
  · exact Or.inr (Or.inl h)
  · exact Or.inl h
  · exact Or.inr (Or.inr (S2Point.eq_neg_comm h))

theorem BadEdge.of_same {e f : Edge} (h : Edge.Same e f) (he : BadEdge lib e) : BadEdge lib f := by
  rcases h with h | h
  · exact he.of_alike h
  · exact (he.of_alike h).swap

/-- How many of the edges are this one. -/
def edgeCount (edges : List Edge) (e : Edge) : ℕ := edges.countP fun f => Edge.Alike e f

/-- How many copies of an edge the polygon layer keeps: `DegenerateEdges::DISCARD`,
`SiblingPairs::DISCARD` and `DuplicateEdges::KEEP`. -/
def remaining (edges : List Edge) (e : Edge) : ℕ :=
  edgeCount (discardDegenerate edges) e - edgeCount (discardDegenerate edges) e.swap

variable {P : Type} (signedCrossing : P → Edge → ℤ)

/-- The crossings on the way from the origin to a place: how often the edges wind round the
one more than round the other. -/
def winding (edges : List Edge) (p : P) : ℤ :=
  ((discardDegenerate edges).map (signedCrossing p)).sum

/-- Every place is inside, or outside, of what the edges bound. -/
def TwoSided (edges : List Edge) : Prop :=
  ∃ k : ℤ, ∀ p, winding signedCrossing edges p = k ∨ winding signedCrossing edges p = k + 1

/-- The loops that the polygon layer makes: simple, of the edges that remain, in either
direction; `InitOriented` finds how they are nested and whether their sides agree. -/
structure RebuiltFrom (lib : S2Validity) (edges : List Edge) (loops : List StoredLoop) :
    Prop where
  length : ∀ loop ∈ loops, 3 ≤ loop.1.length
  countP_same : ∀ e, (polygonEdges loops).countP (fun f => Edge.Same e f) =
    remaining edges e + remaining edges e.swap
  simple : loopsError lib loops = none → NoClash lib.crosses (polygonEdges loops) →
    lib.findSelfIntersection loops = none
  oriented : loopsError lib loops = none → NoClash lib.crosses (polygonEdges loops) →
    (lib.inconsistentLoopOrientations loops = false ↔ TwoSided signedCrossing edges)
  nested : loopsError lib loops = none → NoClash lib.crosses (polygonEdges loops) →
    lib.findLoopNestingError loops = none

variable {signedCrossing} {edges : List Edge} {loops : List StoredLoop}

namespace RebuiltFrom

theorem exists_mem (h : RebuiltFrom signedCrossing lib edges loops) {e : Edge}
    (he : 0 < remaining edges e) : ∃ f ∈ polygonEdges loops, Edge.Same e f := by
  have hpos : 0 < (polygonEdges loops).countP fun f => Edge.Same e f := by
    rw [h.countP_same]
    omega
  obtain ⟨f, hf, hsame⟩ := List.countP_pos_iff.mp hpos
  exact ⟨f, hf, by simpa using hsame⟩

end RebuiltFrom

end Accessors

end S2Geography
