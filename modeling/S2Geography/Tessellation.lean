import S2Geography.Geography
import S2Geography.GeographyOperator
import S2Geography.ListVisits
import Mathlib.Data.Int.Cast.Basic
import Mathlib.Algebra.Ring.Defs

/-!
# Tessellated edges

`S2EdgeTessellator` turns an edge on the sphere into a chain of edges in a projection, or
the other way round, and halves the edge until it is close enough. How close an edge is
depends on floating point, and is a parameter here. Whatever it is, the chain ends with the
end of the edge, in a planar chain perhaps moved by whole wraps of the projection; so a
chain of edges visits the vertices in order.
-/
namespace S2Geography

open ListVisits

/-- What `WrapDestination` does with numbers. -/
structure WrapArithmetic (δ : Type) where
  zero : δ
  half : δ
  add : δ → δ → δ
  sub : δ → δ → δ
  mul : δ → δ → δ
  fabs : δ → δ
  remainder : δ → δ → δ
  gt : δ → δ → Bool

/-- One coordinate of `WrapDestination`: `b`, unless it is more than half a wrap from `a`. -/
def WrapArithmetic.wrapCoordinate {δ : Type} (r : WrapArithmetic δ) (wrap a b : δ) : δ :=
  if r.gt wrap r.zero && r.gt (r.fabs (r.sub b a)) (r.mul r.half wrap) then
    r.add a (r.remainder (r.sub b a) wrap)
  else b

/-- Numbers with values that are added and subtracted without rounding. -/
structure WrapArithmetic.Exact {δ A : Type} [Ring A] (r : WrapArithmetic δ) (value : δ → A) :
    Prop where
  add : ∀ a b, value (r.add a b) = value a + value b
  sub : ∀ a b, value (r.sub a b) = value a - value b
  remainder : ∀ a wrap, ∃ n : ℤ, value (r.remainder a wrap) = value a - n * value wrap

/-- Without rounding, a coordinate is moved by whole wraps. -/
theorem WrapArithmetic.Exact.exists_wraps {δ A : Type} [Ring A] {r : WrapArithmetic δ}
    {value : δ → A} (h : r.Exact value) (wrap a b : δ) :
    ∃ n : ℤ, value (r.wrapCoordinate wrap a b) = value b - n * value wrap := by
  unfold wrapCoordinate
  split
  · obtain ⟨n, hn⟩ := h.remainder (r.sub b a) wrap
    exact ⟨n, by rw [h.add, hn, h.sub, sub_right_comm, add_sub_cancel]⟩
  · exact ⟨0, by rw [Int.cast_zero, zero_mul, sub_zero]⟩

/-- A coordinate is as it was; or the plane has wraps, of which it has been moved by a whole
number, if nothing is rounded. -/
def WrapArithmetic.MovedByWraps {δ : Type} (r : WrapArithmetic δ) (wrap b b' : δ) : Prop :=
  b' = b ∨ r.gt wrap r.zero = true ∧ ∀ (A : Type) [Ring A] (value : δ → A), r.Exact value →
    ∃ n : ℤ, value b' = value b - n * value wrap

theorem WrapArithmetic.movedByWraps_wrapCoordinate {δ : Type} (r : WrapArithmetic δ)
    (wrap a b : δ) : r.MovedByWraps wrap b (r.wrapCoordinate wrap a b) := by
  by_cases hwraps : r.gt wrap r.zero = true
  · exact .inr ⟨hwraps, fun _ _ _ hexact => hexact.exists_wraps wrap a b⟩
  · left
    rw [wrapCoordinate, Bool.eq_false_of_not_eq_true hwraps, Bool.false_and]
    exact if_neg Bool.false_ne_true

theorem WrapArithmetic.MovedByWraps.trans {δ : Type} {r : WrapArithmetic δ} {wrap b b' b'' : δ}
    (h : r.MovedByWraps wrap b b') (h' : r.MovedByWraps wrap b' b'') :
    r.MovedByWraps wrap b b'' := by
  rcases h with rfl | ⟨hwraps, hmoved⟩
  · exact h'
  · right
    refine ⟨hwraps, fun A _ value hexact => ?_⟩
    obtain ⟨n, hn⟩ := hmoved A value hexact
    rcases h' with rfl | ⟨-, hmoved'⟩
    · exact ⟨n, hn⟩
    · obtain ⟨n', hn'⟩ := hmoved' A value hexact
      exact ⟨n + n', by rw [hn', hn, Int.cast_add, add_mul, sub_sub]⟩

/-- `S2::Projection`; `interpolate` is `Interpolate` at one half. -/
structure S2Projection where
  arithmetic : WrapArithmetic Double
  project : S2Point → R2Point
  unproject : R2Point → S2Point
  interpolate : R2Point → R2Point → R2Point
  wrapDistance : R2Point

def S2Projection.wrapDestination (proj : S2Projection) (a b : R2Point) : R2Point where
  x := proj.arithmetic.wrapCoordinate proj.wrapDistance.x a.x b.x
  y := proj.arithmetic.wrapCoordinate proj.wrapDistance.y a.y b.y

/-- A planar point has been moved by whole wraps, in each coordinate. -/
def S2Projection.MovedByWraps (proj : S2Projection) (p q : R2Point) : Prop :=
  proj.arithmetic.MovedByWraps proj.wrapDistance.x p.x q.x ∧
    proj.arithmetic.MovedByWraps proj.wrapDistance.y p.y q.y

theorem S2Projection.movedByWraps_refl (proj : S2Projection) (p : R2Point) :
    proj.MovedByWraps p p :=
  ⟨.inl rfl, .inl rfl⟩

theorem S2Projection.movedByWraps_wrapDestination (proj : S2Projection) (a b : R2Point) :
    proj.MovedByWraps b (proj.wrapDestination a b) :=
  ⟨proj.arithmetic.movedByWraps_wrapCoordinate _ a.x b.x,
    proj.arithmetic.movedByWraps_wrapCoordinate _ a.y b.y⟩

theorem S2Projection.MovedByWraps.trans {proj : S2Projection} {p q q' : R2Point}
    (h : proj.MovedByWraps p q) (h' : proj.MovedByWraps q q') : proj.MovedByWraps p q' :=
  ⟨h.1.trans h'.1, h.2.trans h'.2⟩

/-- A vertex may be written as its projection, or as that moved by whole wraps. -/
def S2Projection.Draws (proj : S2Projection) (vertex : S2Point) : R2Point → Prop :=
  proj.MovedByWraps (proj.project vertex)

/-- A tessellator for a projection. -/
structure S2EdgeTessellator (proj : S2Projection) where
  /-- `(a + b).Normalize()`. -/
  midpoint : S2Point → S2Point → S2Point
  /-- `EstimateMaxError(pa, a, pb, b) <= scaled_tolerance_`. -/
  withinTolerance : R2Point → S2Point → R2Point → S2Point → Bool
  /-- How deep the recursion on an edge may go before the stack overflows. The source has no
  bound of its own, and states that the depth stays below 45. -/
  stackDepth : ℕ

namespace S2EdgeTessellator

variable {proj : S2Projection} (t : S2EdgeTessellator proj)

/-! ### Edges -/

/-- The recursive `AppendProjected`, with a stack for so many calls: what it appends. -/
def projectedEdge : ℕ → R2Point → S2Point → R2Point → S2Point → Except Fault (List R2Point)
  | 0, _, _, _, _ => .error .stackOverflow
  | depth + 1, pa, a, pbIn, b =>
    let pb := proj.wrapDestination pa pbIn
    if t.withinTolerance pa a pb b then .ok [pb]
    else do
      let mid := t.midpoint a b
      let pmid := proj.wrapDestination pa (proj.project mid)
      let first ← projectedEdge depth pa a pmid mid
      let second ← projectedEdge depth pmid mid pb b
      return first ++ second

def appendProjected (a b : S2Point) (vertices : List R2Point) : Except Fault (List R2Point) :=
  let pa := proj.project a
  let pb := proj.project b
  match vertices.getLast? with
  | none => (t.projectedEdge (t.stackDepth + 1) pa a pb b).map (pa :: ·)
  | some back =>
    (t.projectedEdge (t.stackDepth + 1) (proj.wrapDestination back pa) a pb b).map (vertices ++ ·)

/-- The recursive `AppendUnprojected`, with a stack for so many calls: what it appends. -/
def unprojectedEdge : ℕ → R2Point → S2Point → R2Point → S2Point → Except Fault (List S2Point)
  | 0, _, _, _, _ => .error .stackOverflow
  | depth + 1, pa, a, pbIn, b =>
    let pb := proj.wrapDestination pa pbIn
    if t.withinTolerance pa a pb b then .ok [b]
    else do
      let pmid := proj.interpolate pa pb
      let mid := proj.unproject pmid
      let first ← unprojectedEdge depth pa a pmid mid
      let second ← unprojectedEdge depth pmid mid pb b
      return first ++ second

def appendUnprojected (pa pb : R2Point) (vertices : List S2Point) :
    Except Fault (List S2Point) :=
  let a := proj.unproject pa
  let b := proj.unproject pb
  let vertices := if vertices.isEmpty then [a] else vertices
  (t.unprojectedEdge (t.stackDepth + 1) pa a pb b).map (vertices ++ ·)

/-- Halving an edge, and its halves, leaves edges within the tolerance before the depth. -/
def projectedEndsWithin : ℕ → R2Point → S2Point → R2Point → S2Point → Bool
  | 0, _, _, _, _ => false
  | depth + 1, pa, a, pbIn, b =>
    let pb := proj.wrapDestination pa pbIn
    let mid := t.midpoint a b
    let pmid := proj.wrapDestination pa (proj.project mid)
    t.withinTolerance pa a pb b ||
      projectedEndsWithin depth pa a pmid mid && projectedEndsWithin depth pmid mid pb b

/-- The planar end of an edge, which is wrapped again for every half that ends there. -/
def projectedEnd : ℕ → R2Point → S2Point → R2Point → S2Point → R2Point
  | 0, _, _, pbIn, _ => pbIn
  | depth + 1, pa, a, pbIn, b =>
    let pb := proj.wrapDestination pa pbIn
    let mid := t.midpoint a b
    let pmid := proj.wrapDestination pa (proj.project mid)
    if t.withinTolerance pa a pb b then pb else projectedEnd depth pmid mid pb b

/-- The same of a planar edge, halved in the plane. -/
def unprojectedEndsWithin : ℕ → R2Point → S2Point → R2Point → S2Point → Bool
  | 0, _, _, _, _ => false
  | depth + 1, pa, a, pbIn, b =>
    let pb := proj.wrapDestination pa pbIn
    let pmid := proj.interpolate pa pb
    let mid := proj.unproject pmid
    t.withinTolerance pa a pb b ||
      unprojectedEndsWithin depth pa a pmid mid && unprojectedEndsWithin depth pmid mid pb b

theorem movedByWraps_projectedEnd (depth : ℕ) (pa pbIn : R2Point) (a b : S2Point) :
    proj.MovedByWraps pbIn (t.projectedEnd depth pa a pbIn b) := by
  induction depth generalizing pa a pbIn with
  | zero => exact proj.movedByWraps_refl pbIn
  | succ depth ih =>
    have hwrap := proj.movedByWraps_wrapDestination pa pbIn
    rw [projectedEnd]
    split
    · exact hwrap
    · exact hwrap.trans (ih ..)

theorem projectedEnd_of_withinTolerance {pa pbIn : R2Point} {a b : S2Point}
    (h : t.withinTolerance pa a (proj.wrapDestination pa pbIn) b = true) (depth : ℕ) :
    t.projectedEnd (depth + 1) pa a pbIn b = proj.wrapDestination pa pbIn := by
  rw [projectedEnd]
  exact if_pos h

/-- If the halving ends, the last piece ends where the edge does, and there is no other piece
exactly if the edge is within the tolerance. -/
theorem exists_projectedEdge {depth : ℕ} {pa pbIn : R2Point} {a b : S2Point}
    (h : t.projectedEndsWithin depth pa a pbIn b = true) : ∃ pieces,
      t.projectedEdge depth pa a pbIn b = .ok (pieces ++ [t.projectedEnd depth pa a pbIn b]) ∧
      (pieces.length = 0 ↔ t.withinTolerance pa a (proj.wrapDestination pa pbIn) b = true) := by
  induction depth generalizing pa a pbIn b with
  | zero => exact absurd h Bool.false_ne_true
  | succ depth ih =>
    rw [projectedEndsWithin, Bool.or_eq_true, Bool.and_eq_true] at h
    rw [projectedEdge, projectedEnd]
    simp only
    by_cases hwithin : t.withinTolerance pa a (proj.wrapDestination pa pbIn) b = true
    · rw [if_pos hwithin, if_pos hwithin]
      exact ⟨[], rfl, iff_of_true rfl hwithin⟩
    · rw [if_neg hwithin, if_neg hwithin]
      obtain ⟨hfirst, hsecond⟩ := h.resolve_left hwithin
      obtain ⟨pieces, hpieces, -⟩ := ih hfirst
      obtain ⟨pieces', hpieces', -⟩ := ih hsecond
      rw [hpieces, hpieces']
      refine ⟨_, congrArg Except.ok (List.append_assoc ..).symm, iff_of_false ?_ hwithin⟩
      simp

/-- Otherwise the recursion goes on until the stack is full. -/
theorem projectedEdge_overflows {depth : ℕ} {pa pbIn : R2Point} {a b : S2Point}
    (h : ¬t.projectedEndsWithin depth pa a pbIn b = true) :
    t.projectedEdge depth pa a pbIn b = .error .stackOverflow := by
  induction depth generalizing pa a pbIn b with
  | zero => rfl
  | succ depth ih =>
    rw [projectedEndsWithin, Bool.or_eq_true, Bool.and_eq_true, not_or] at h
    rw [projectedEdge]
    simp only
    rw [if_neg h.1]
    by_cases hfirst : t.projectedEndsWithin depth pa a
        (proj.wrapDestination pa (proj.project (t.midpoint a b))) (t.midpoint a b) = true
    · obtain ⟨pieces, hpieces, -⟩ := t.exists_projectedEdge hfirst
      rw [hpieces, ih fun hsecond => h.2 ⟨hfirst, hsecond⟩]
      rfl
    · rw [ih hfirst]
      rfl

theorem exists_unprojectedEdge {depth : ℕ} {pa pbIn : R2Point} {a b : S2Point}
    (h : t.unprojectedEndsWithin depth pa a pbIn b = true) :
    ∃ pieces, t.unprojectedEdge depth pa a pbIn b = .ok (pieces ++ [b]) := by
  induction depth generalizing pa a pbIn b with
  | zero => exact absurd h Bool.false_ne_true
  | succ depth ih =>
    rw [unprojectedEndsWithin, Bool.or_eq_true, Bool.and_eq_true] at h
    rw [unprojectedEdge]
    simp only
    by_cases hwithin : t.withinTolerance pa a (proj.wrapDestination pa pbIn) b = true
    · rw [if_pos hwithin]
      exact ⟨[], rfl⟩
    · rw [if_neg hwithin]
      obtain ⟨hfirst, hsecond⟩ := h.resolve_left hwithin
      obtain ⟨pieces, hpieces⟩ := ih hfirst
      obtain ⟨pieces', hpieces'⟩ := ih hsecond
      rw [hpieces, hpieces']
      exact ⟨_, congrArg Except.ok (List.append_assoc ..).symm⟩

theorem unprojectedEdge_overflows {depth : ℕ} {pa pbIn : R2Point} {a b : S2Point}
    (h : ¬t.unprojectedEndsWithin depth pa a pbIn b = true) :
    t.unprojectedEdge depth pa a pbIn b = .error .stackOverflow := by
  induction depth generalizing pa a pbIn b with
  | zero => rfl
  | succ depth ih =>
    rw [unprojectedEndsWithin, Bool.or_eq_true, Bool.and_eq_true, not_or] at h
    rw [unprojectedEdge]
    simp only
    rw [if_neg h.1]
    by_cases hfirst : t.unprojectedEndsWithin depth pa a
        (proj.interpolate pa (proj.wrapDestination pa pbIn))
        (proj.unproject (proj.interpolate pa (proj.wrapDestination pa pbIn))) = true
    · obtain ⟨pieces, hpieces⟩ := t.exists_unprojectedEdge hfirst
      rw [hpieces, ih fun hsecond => h.2 ⟨hfirst, hsecond⟩]
      rfl
    · rw [ih hfirst]
      rfl

/-! ### Chains of edges -/

/-- The edges from a vertex to each of the next ones. -/
def appendChain : S2Point → List S2Point → List R2Point → Except Fault (List R2Point)
  | _, [], vertices => .ok vertices
  | a, b :: bs, vertices => do
    let vertices ← t.appendProjected a b vertices
    appendChain b bs vertices

/-- The halving of all edges of a chain ends before the stack is full. The first starts at `pa`,
each other one where the last ends. -/
def chainEnds : R2Point → S2Point → List S2Point → Bool
  | _, _, [] => true
  | pa, a, b :: bs =>
    let back := t.projectedEnd (t.stackDepth + 1) pa a (proj.project b) b
    t.projectedEndsWithin (t.stackDepth + 1) pa a (proj.project b) b &&
      chainEnds (proj.wrapDestination back (proj.project b)) b bs

/-- No edge of a chain is split; the first starts at `pa`, each other one where the last ends. -/
def whole : R2Point → S2Point → List S2Point → Bool
  | _, _, [] => true
  | pa, a, b :: bs =>
    let pb := proj.wrapDestination pa (proj.project b)
    t.withinTolerance pa a pb b && whole (proj.wrapDestination pb (proj.project b)) b bs

theorem chainEnds_of_whole {pa : R2Point} {a : S2Point} {bs : List S2Point}
    (h : t.whole pa a bs = true) : t.chainEnds pa a bs = true := by
  induction bs generalizing pa a with
  | nil => rfl
  | cons b bs ih =>
    rw [whole, Bool.and_eq_true] at h
    rw [chainEnds, t.projectedEnd_of_withinTolerance h.1, projectedEndsWithin, Bool.and_eq_true]
    exact ⟨Bool.or_eq_true_iff.mpr (.inl h.1), ih h.2⟩

theorem appendProjected_concat (a b : S2Point) (out : List R2Point) (back : R2Point) :
    t.appendProjected a b (out ++ [back]) =
      (t.projectedEdge (t.stackDepth + 1) (proj.wrapDestination back (proj.project a)) a
        (proj.project b) b).map (out ++ [back] ++ ·) := by
  rw [appendProjected, List.getLast?_concat]

/-- A chain visits its vertices, and has no other points exactly if no edge is split. -/
theorem exists_appendChain (out : List R2Point) {pa : R2Point} {a b : S2Point}
    {bs : List S2Point} (h : t.chainEnds pa a (b :: bs) = true) : ∃ added,
      ((t.projectedEdge (t.stackDepth + 1) pa a (proj.project b) b).map (out ++ ·) >>=
        t.appendChain b bs) = .ok (out ++ added) ∧
      Visits proj.Draws (b :: bs) added ∧
      (added.length = (b :: bs).length ↔ t.whole pa a (b :: bs) = true) := by
  induction bs generalizing out pa a b with
  | nil =>
    rw [chainEnds, chainEnds, Bool.and_true] at h
    obtain ⟨pieces, hpieces, hpiece⟩ := t.exists_projectedEdge h
    have hdraws : proj.Draws b _ := t.movedByWraps_projectedEnd (t.stackDepth + 1) pa
      (proj.project b) a b
    refine ⟨pieces ++ [_], by rw [hpieces]; rfl, .cons pieces hdraws .nil, ?_⟩
    rw [whole, whole, Bool.and_true, ← hpiece, List.length_append]
    exact Nat.succ_inj
  | cons c cs ih =>
    rw [chainEnds, Bool.and_eq_true] at h
    obtain ⟨pieces, hpieces, hpiece⟩ := t.exists_projectedEdge h.1
    have hdraws : proj.Draws b _ := t.movedByWraps_projectedEnd (t.stackDepth + 1) pa
      (proj.project b) a b
    have hend (hwithin : t.withinTolerance pa a (proj.wrapDestination pa (proj.project b)) b = true) :=
      t.projectedEnd_of_withinTolerance hwithin t.stackDepth
    generalize t.projectedEnd (t.stackDepth + 1) pa a (proj.project b) b = q at *
    obtain ⟨added, hadded, hvisits, hlength⟩ := ih (out ++ pieces ++ [q]) h.2
    refine ⟨pieces ++ q :: added, ?_, .cons pieces hdraws hvisits, ?_⟩
    · rw [hpieces]
      change (t.appendProjected b c (out ++ (pieces ++ [q])) >>= t.appendChain c cs) = _
      rw [← List.append_assoc, appendProjected_concat, hadded]
      simp only [List.append_assoc, List.singleton_append]
    · have hle := hvisits.length_le
      rw [whole, Bool.and_eq_true, ← hpiece]
      simp only [List.length_append, List.length_cons] at hle hlength ⊢
      constructor
      · intro hlen
        have hnil : pieces.length = 0 := by omega
        rw [← hend (hpiece.mp hnil)]
        exact ⟨hnil, hlength.mp (by omega)⟩
      · intro ⟨hnil, hwhole⟩
        rw [← hend (hpiece.mp hnil)] at hwhole
        have := hlength.mpr hwhole
        omega

/-- A chain with an edge that is halved for ever overflows the stack. -/
theorem appendChain_overflows (out : List R2Point) {pa : R2Point} {a b : S2Point}
    {bs : List S2Point} (h : ¬t.chainEnds pa a (b :: bs) = true) :
    ((t.projectedEdge (t.stackDepth + 1) pa a (proj.project b) b).map (out ++ ·) >>=
      t.appendChain b bs) = .error .stackOverflow := by
  induction bs generalizing out pa a b with
  | nil =>
    rw [chainEnds, chainEnds, Bool.and_true] at h
    rw [t.projectedEdge_overflows h]
    rfl
  | cons c cs ih =>
    by_cases hfirst : t.projectedEndsWithin (t.stackDepth + 1) pa a (proj.project b) b = true
    · rw [chainEnds, hfirst, Bool.true_and] at h
      obtain ⟨pieces, hpieces, -⟩ := t.exists_projectedEdge hfirst
      rw [hpieces]
      change (t.appendProjected b c (out ++ (pieces ++ [_])) >>= t.appendChain c cs) = _
      rw [← List.append_assoc, appendProjected_concat]
      exact ih _ h
    · rw [t.projectedEdge_overflows hfirst]
      rfl

theorem exists_appendChain_nil {a : S2Point} {bs : List S2Point} (hne : bs ≠ [])
    (h : t.chainEnds (proj.project a) a bs = true) : ∃ added,
    t.appendChain a bs [] = .ok (proj.project a :: added) ∧ Visits proj.Draws bs added ∧
      (added.length = bs.length ↔ t.whole (proj.project a) a bs = true) := by
  obtain ⟨b, bs, rfl⟩ := List.exists_cons_of_ne_nil hne
  exact t.exists_appendChain [proj.project a] h

theorem appendChain_nil_overflows {a : S2Point} {bs : List S2Point}
    (h : ¬t.chainEnds (proj.project a) a bs = true) :
    t.appendChain a bs [] = .error .stackOverflow := by
  cases bs with
  | nil => exact absurd rfl h
  | cons b bs => exact t.appendChain_overflows [proj.project a] h

theorem appendChain_ne_nil {a : S2Point} {bs : List S2Point} {points : List R2Point}
    (hne : bs ≠ []) (h : t.appendChain a bs [] = .ok points) : points ≠ [] := by
  by_cases hends : t.chainEnds (proj.project a) a bs = true
  · obtain ⟨added, hadded, -⟩ := t.exists_appendChain_nil hne hends
    obtain rfl := Except.ok.inj (hadded.symm.trans h)
    exact List.cons_ne_nil _ added
  · rw [t.appendChain_nil_overflows hends] at h
    cases h

end S2EdgeTessellator

/-- The plane seen along the z axis, without wraps. -/
def flatProjection : S2Projection where
  arithmetic := ⟨.zero, .zero, fun a _ => a, fun a _ => a, fun a _ => a, id, fun a _ => a,
    fun _ _ => false⟩
  project point := ⟨point.x, point.y⟩
  unproject point := ⟨point.x, point.y, .zero⟩
  interpolate a _ := a
  wrapDistance := ⟨.zero, .zero⟩

/-- A tessellator that never splits an edge. -/
def flatTessellator : S2EdgeTessellator flatProjection where
  midpoint a _ := a
  withinTolerance _ _ _ _ := true
  stackDepth := 45

end S2Geography
