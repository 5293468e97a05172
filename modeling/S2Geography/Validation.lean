import S2Geography.Build

/-!
# Validation errors

`s2_find_validation_error` looks at every member of a collection of mixed dimensions. A
collection of lines or of polygons is rebuilt first, and the result is validated in its
place: what rebuilding drops is not found, and what it makes of the members together may
be invalid where none of them is.
-/
namespace S2Geography

open Exporter

/-! ### Equality of ordinates and points -/

namespace Double

theorem key_eq_iff (a b : Double) :
    a.key = b.key ↔ a.bits = b.bits ∨ a.bits <<< 1 = 0 ∧ b.bits <<< 1 = 0 := by
  have hzero : ∀ c : Double, c.bits <<< 1 ≠ 0 → c.bits ≠ 0 := by
    intro c hc h
    rw [h] at hc
    exact hc rfl
  unfold key
  by_cases ha : a.bits <<< 1 = 0
  · rw [if_pos ha]
    by_cases hb : b.bits <<< 1 = 0
    · rw [if_pos hb]
      exact ⟨fun _ => Or.inr ⟨ha, hb⟩, fun _ => rfl⟩
    · rw [if_neg hb]
      refine ⟨fun h => absurd h.symm (hzero b hb), fun h => ?_⟩
      rcases h with h | h
      · exact absurd (h ▸ ha) hb
      · exact absurd h.2 hb
  · rw [if_neg ha]
    by_cases hb : b.bits <<< 1 = 0
    · rw [if_pos hb]
      refine ⟨fun h => absurd h (hzero a ha), fun h => ?_⟩
      rcases h with h | h
      · exact absurd (h ▸ hb) ha
      · exact absurd h.1 ha
    · rw [if_neg hb]
      exact ⟨Or.inl, fun h => h.resolve_right fun h => ha h.1⟩

theorem eq_iff (a b : Double) :
    a.eq b = true ↔ a.isNaN = false ∧ b.isNaN = false ∧ a.key = b.key := by
  simp [eq, and_assoc]

theorem eq_comm (a b : Double) : a.eq b = b.eq a := by
  rw [Bool.eq_iff_iff, eq_iff, eq_iff, and_left_comm, @Eq.comm _ a.key]

theorem eq_trans {a b c : Double} (h : a.eq b = true) (h' : b.eq c = true) : a.eq c = true := by
  rw [eq_iff] at h h' ⊢
  exact ⟨h.1, h'.2.1, h.2.2.trans h'.2.2⟩

theorem xor_and (x c m : BitVec 64) (h : c &&& m = 0) : (x ^^^ c) &&& m = x &&& m := by
  apply BitVec.eq_of_getLsbD_eq
  intro i _
  have hi : (c.getLsbD i && m.getLsbD i) = false := by
    rw [← BitVec.getLsbD_and, h]
    exact BitVec.getLsbD_zero
  rw [BitVec.getLsbD_and, BitVec.getLsbD_and, BitVec.getLsbD_xor]
  cases hc : c.getLsbD i <;> cases hm : m.getLsbD i <;> simp_all

theorem isNaN_neg (a : Double) : a.neg.isNaN = a.isNaN := by
  rw [isNaN, isNaN, neg, xor_and a.bits _ _ (by decide)]

theorem shiftLeft_neg (a : Double) : a.neg.bits <<< 1 = a.bits <<< 1 := by
  rw [neg, BitVec.shiftLeft_xor_distrib]
  exact BitVec.xor_zero

theorem neg_eq {a b : Double} (h : a.eq b = true) : a.neg.eq b.neg = true := by
  rw [eq_iff, key_eq_iff] at h ⊢
  rw [isNaN_neg, isNaN_neg, shiftLeft_neg, shiftLeft_neg]
  refine ⟨h.1, h.2.1, h.2.2.imp (fun hbits => ?_) id⟩
  rw [neg, neg, hbits]

end Double

namespace S2Point

theorem eq_comm (p q : S2Point) : p.eq q = q.eq p := by
  rw [eq, eq, p.x.eq_comm, p.y.eq_comm, p.z.eq_comm]

theorem eq_trans {p q r : S2Point} (h : p.eq q = true) (h' : q.eq r = true) : p.eq r = true := by
  simp only [eq, Bool.and_eq_true] at h h' ⊢
  exact ⟨⟨Double.eq_trans h.1.1 h'.1.1, Double.eq_trans h.1.2 h'.1.2⟩, Double.eq_trans h.2 h'.2⟩

theorem neg_eq {p q : S2Point} (h : p.eq q = true) : p.neg.eq q.neg = true := by
  simp only [eq, Bool.and_eq_true] at h ⊢
  exact ⟨⟨Double.neg_eq h.1.1, Double.neg_eq h.1.2⟩, Double.neg_eq h.2⟩

/-- The same point, or one that compares equal. -/
def Alike (p q : S2Point) : Prop := p = q ∨ p.eq q = true

theorem Alike.refl (p : S2Point) : Alike p p := Or.inl rfl

theorem Alike.symm {p q : S2Point} (h : Alike p q) : Alike q p :=
  h.imp Eq.symm fun h => (eq_comm q p).trans h

theorem Alike.trans {p q r : S2Point} (h : Alike p q) (h' : Alike q r) : Alike p r := by
  rcases h with rfl | h
  · exact h'
  · rcases h' with rfl | h'
    · exact Or.inr h
    · exact Or.inr (eq_trans h h')

theorem Alike.neg {p q : S2Point} (h : Alike p q) : Alike p.neg q.neg :=
  h.imp (congrArg S2Point.neg) neg_eq

/-- Alike points compare equal to the same points. -/
theorem Alike.eq_of_eq {p q p' q' : S2Point} (h : Alike p p') (h' : Alike q q')
    (heq : p.eq q = true) : p'.eq q' = true := by
  have hleft : p'.eq q = true := by
    rcases h with rfl | h
    · exact heq
    · exact eq_trans ((eq_comm p' p).trans h) heq
  rcases h' with rfl | h'
  · exact hleft
  · exact eq_trans hleft h'

end S2Point

/-- Edges between alike points. -/
def Edge.Alike (e f : Edge) : Prop := S2Point.Alike e.1 f.1 ∧ S2Point.Alike e.2 f.2

/-- Edges between alike points, in either direction. -/
def Edge.Same (e f : Edge) : Prop := Edge.Alike e f ∨ Edge.Alike e f.swap

namespace Edge

variable {e f g : Edge}

instance : Decidable (Alike e f) :=
  inferInstanceAs (Decidable ((e.1 = f.1 ∨ e.1.eq f.1 = true) ∧ (e.2 = f.2 ∨ e.2.eq f.2 = true)))

instance : Decidable (Same e f) := inferInstanceAs (Decidable (Alike e f ∨ Alike e f.swap))

theorem Alike.refl (e : Edge) : Alike e e := ⟨.refl e.1, .refl e.2⟩

theorem Alike.symm (h : Alike e f) : Alike f e := ⟨h.1.symm, h.2.symm⟩

theorem Alike.trans (h : Alike e f) (h' : Alike f g) : Alike e g :=
  ⟨h.1.trans h'.1, h.2.trans h'.2⟩

theorem Alike.swap (h : Alike e f) : Alike e.swap f.swap := ⟨h.2, h.1⟩

theorem alike_swap_comm : Alike e.swap f ↔ Alike e f.swap := And.comm

theorem Same.refl (e : Edge) : Same e e := Or.inl (.refl e)

theorem Same.symm (h : Same e f) : Same f e :=
  h.imp Alike.symm fun h => alike_swap_comm.mp h.symm

theorem Same.trans (h : Same e f) (h' : Same f g) : Same e g := by
  rcases h with h | h
  · exact h'.imp h.trans h.trans
  · rcases h' with h' | h'
    · exact Or.inr (h.trans h'.swap)
    · exact Or.inl (h.trans (alike_swap_comm.mpr h'))

end Edge

namespace Accessors

/-! ### The accessor -/

/-- No two of the edges cross or have the same ends. -/
def NoClash (crosses : Edge → Edge → Bool) (edges : List Edge) : Prop :=
  edges.Pairwise fun e f => crosses e f = false ∧ ¬Edge.Same e f

/-- What the accessor calls of S2. -/
structure S2Validity where
  /-- `S2::IsUnitLength`. -/
  isUnitLength : S2Point → Bool
  isUnitLength_eq : ∀ p q : S2Point, p.eq q = true → isUnitLength p = isUnitLength q
  /-- `S2::CrossingSign` is positive. -/
  crosses : Edge → Edge → Bool
  crosses_self : ∀ e, crosses e e = false
  crosses_comm : ∀ e f, crosses e f = crosses f e
  crosses_same : ∀ e e' f, Edge.Same e e' → crosses e f = crosses e' f
  /-- `s2shapeutil::FindSelfIntersection`, with the text of the error. -/
  findSelfIntersection : List StoredLoop → Option String
  noClash_of_findSelfIntersection : ∀ loops, (∀ loop ∈ loops, 3 ≤ loop.1.length) →
    (∀ e ∈ polygonEdges loops,
      ¬(isUnitLength e.1 = false ∨ isUnitLength e.2 = false ∨ e.1.eq e.2.neg = true)) →
    findSelfIntersection loops = none → NoClash crosses (polygonEdges loops)
  /-- `error_inconsistent_loop_orientations_`. -/
  inconsistentLoopOrientations : List StoredLoop → Bool
  /-- `S2Polygon::FindLoopNestingError`, with the text of the error. -/
  findLoopNestingError : List StoredLoop → Option String

variable (layers : S2Layers) (lib : S2Validity)

/-- The first pair of identical or antipodal neighbours, of which the first is vertex `i`. -/
def adjacentError (identical antipodal : ℕ → String) : ℕ → List S2Point → Option String
  | i, p :: q :: vertices =>
    if p.eq q then some (identical i)
    else if p.eq q.neg then some (antipodal i)
    else adjacentError identical antipodal (i + 1) (q :: vertices)
  | _, _ => none

/-- The first vertex that is not on the sphere. -/
def unitLengthError (vertices : List S2Point) : Option String :=
  (vertices.findIdx? fun v => !lib.isUnitLength v).map fun i =>
    "Vertex " ++ toString i ++ " is not unit length"

/-- `S2Polyline::FindValidationError`. -/
def polylineError (vertices : List S2Point) : Option String :=
  (unitLengthError lib vertices).or <| adjacentError
    (fun i => "Vertices " ++ toString i ++ " and " ++ toString (i + 1) ++ " are identical")
    (fun i => "Vertices " ++ toString i ++ " and " ++ toString (i + 1) ++ " are antipodal")
    0 vertices

/-- `S2Loop::FindValidationErrorNoIndex`. -/
def loopErrorNoIndex (vertices : List S2Point) : Option String :=
  (unitLengthError lib vertices).or <|
    if vertices.length < 3 then
      if vertices.length = 1 then none
      else some "Non-empty, non-full loops must have at least 3 vertices"
    else adjacentError
      (fun i => "Edge " ++ toString i ++ " is degenerate (duplicate vertex)")
      (fun i => "Vertices " ++ toString i ++ " and " ++ toString ((i + 1) % vertices.length) ++
        " are antipodal")
      0 (vertices ++ vertices.head?.toList)

/-- `S2Loop::is_empty`, `S2Loop::is_full`: loops with one vertex. -/
def loopIsEmpty : List S2Point → Bool
  | [vertex] => !vertex.z.isNegative
  | _ => false

def loopIsFull : List S2Point → Bool
  | [vertex] => vertex.z.isNegative
  | _ => false

/-- What is wrong with loop `i` of a polygon, whatever the other loops are. -/
def loopError (numLoops i : ℕ) (vertices : List S2Point) : Option String :=
  match loopErrorNoIndex lib vertices with
  | some text => some ("Loop " ++ toString i ++ ": " ++ text)
  | none =>
    if loopIsEmpty vertices then some ("Loop " ++ toString i ++ ": empty loops are not allowed")
    else if loopIsFull vertices ∧ 1 < numLoops then
      some ("Loop " ++ toString i ++ ": full loop appears in non-full polygon")
    else none

def loopsError (loops : List StoredLoop) : Option String :=
  loops.zipIdx.findSome? fun loop => loopError lib loops.length loop.2 loop.1.1

/-- `S2Polygon::FindValidationError`. -/
def polygonError (loops : List StoredLoop) : Option String :=
  (loopsError lib loops).or <| (lib.findSelfIntersection loops).or <|
    if lib.inconsistentLoopOrientations loops then some "Inconsistent loop orientations detected"
    else lib.findLoopNestingError loops

/-- `s2_find_validation_error` of lines. -/
def polylinesError (polylines : List (List S2Point)) : Option String :=
  polylines.findSome? (polylineError lib)

/-- The `catch` around rebuilding and validating. -/
def catchException {α : Type} (built : Except Fault α) (error : α → Option String) :
    Except Fault (Option String) :=
  match built with
  | .ok value => .ok (error value)
  | .error (.stop what) => .ok (some what)
  | .error fault => .error fault

mutual

/-- `s2_find_validation_error`: the text of the error found. -/
def s2FindValidationError : Geography (List StoredLoop) → Except Fault (Option String)
  | .point _ => .ok none
  | .polyline polylines => .ok (polylinesError lib polylines)
  | .polygon loops => .ok (polygonError lib loops)
  | .collection features =>
    if (Geography.collection features).dimension = 0 then .ok none
    else if (Geography.collection features).dimension = 1 then
      catchException (s2BuildPolyline layers (.collection features)) (polylinesError lib)
    else if (Geography.collection features).dimension = 2 then
      catchException (s2BuildPolygon layers (.collection features)) (polygonError lib)
    else findValidationErrorAll features

/-- The first error of a member. -/
def findValidationErrorAll : List (Geography (List StoredLoop)) → Except Fault (Option String)
  | [] => .ok none
  | feature :: features =>
    match s2FindValidationError feature with
    | .ok none => findValidationErrorAll features
    | result => result

end

/-- An error is reported. -/
def Reports (geog : Geography (List StoredLoop)) : Prop :=
  ∃ text, s2FindValidationError layers lib geog = .ok (some text)

/-! ### Lines -/

variable {layers lib}

theorem mem_polylineEdges_cons {p q : S2Point} {vertices : List S2Point} {e : Edge} :
    e ∈ polylineEdges (p :: q :: vertices) ↔ e = (p, q) ∨ e ∈ polylineEdges (q :: vertices) := by
  rw [polylineEdges, List.tail_cons, List.zip_cons_cons, List.mem_cons]
  rfl

theorem adjacentError_ne_none_iff (identical antipodal : ℕ → String) (i : ℕ)
    (vertices : List S2Point) :
    adjacentError identical antipodal i vertices ≠ none ↔
      ∃ e ∈ polylineEdges vertices, e.1.eq e.2 = true ∨ e.1.eq e.2.neg = true := by
  induction vertices generalizing i with
  | nil => simp [adjacentError, polylineEdges]
  | cons p vertices ih =>
    cases vertices with
    | nil => simp [adjacentError, polylineEdges]
    | cons q vertices =>
      unfold adjacentError
      simp only [mem_polylineEdges_cons, exists_eq_or_imp]
      by_cases hsame : p.eq q = true
      · simp [hsame]
      · by_cases hanti : p.eq q.neg = true
        · simp [hsame, hanti]
        · rw [if_neg hsame, if_neg hanti, ih (i + 1)]
          simp [hsame, hanti]

theorem unitLengthError_ne_none_iff (vertices : List S2Point) :
    unitLengthError lib vertices ≠ none ↔ ∃ v ∈ vertices, lib.isUnitLength v = false := by
  rw [unitLengthError, Ne, Option.map_eq_none_iff, List.findIdx?_eq_none_iff]
  push Not
  simp

theorem polylineError_ne_none_iff (vertices : List S2Point) :
    polylineError lib vertices ≠ none ↔ (∃ v ∈ vertices, lib.isUnitLength v = false) ∨
      ∃ e ∈ polylineEdges vertices, e.1.eq e.2 = true ∨ e.1.eq e.2.neg = true := by
  rw [polylineError, Ne, Option.or_eq_none_iff, Classical.not_and_iff_not_or_not]
  exact or_congr (unitLengthError_ne_none_iff vertices) (adjacentError_ne_none_iff _ _ 0 vertices)

variable (lib) in
/-- An edge that makes every polyline through it invalid, other than by its length 0. -/
def BadEdge (e : Edge) : Prop :=
  lib.isUnitLength e.1 = false ∨ lib.isUnitLength e.2 = false ∨ e.1.eq e.2.neg = true

theorem isUnitLength_of_alike {p q : S2Point} (h : S2Point.Alike p q) :
    lib.isUnitLength p = lib.isUnitLength q := by
  rcases h with rfl | h
  · rfl
  · exact lib.isUnitLength_eq p q h

theorem BadEdge.of_alike {e f : Edge} (h : Edge.Alike e f) (he : BadEdge lib e) :
    BadEdge lib f := by
  unfold BadEdge at he ⊢
  rw [← isUnitLength_of_alike h.1, ← isUnitLength_of_alike h.2]
  exact he.imp_right fun he => he.imp_right fun heq => h.1.eq_of_eq h.2.neg heq

/-- The ends of the edges are the vertices, if there is an edge. -/
theorem exists_mem_edge {vertices : List S2Point} (h : 2 ≤ vertices.length) {v : S2Point}
    (hv : v ∈ vertices) : ∃ e ∈ polylineEdges vertices, v = e.1 ∨ v = e.2 := by
  induction vertices with
  | nil => exact absurd hv List.not_mem_nil
  | cons p vertices ih =>
    cases vertices with
    | nil => exact absurd h (by simp)
    | cons q vertices =>
      rcases List.mem_cons.mp hv with rfl | hv
      · exact ⟨(v, q), mem_polylineEdges_cons.mpr (Or.inl rfl), Or.inl rfl⟩
      · cases vertices with
        | nil =>
          have hvq : v = q := by simpa using hv
          exact ⟨(p, q), mem_polylineEdges_cons.mpr (Or.inl rfl), Or.inr hvq⟩
        | cons r vertices =>
          obtain ⟨e, he, hve⟩ := ih (by simp) hv
          exact ⟨e, mem_polylineEdges_cons.mpr (Or.inr he), hve⟩

theorem mem_of_mem_polylineEdges {vertices : List S2Point} {e : Edge}
    (h : e ∈ polylineEdges vertices) : e.1 ∈ vertices ∧ e.2 ∈ vertices :=
  have hzip := List.of_mem_zip (show (e.1, e.2) ∈ vertices.zip vertices.tail from h)
  ⟨hzip.1, List.mem_of_mem_tail hzip.2⟩

theorem polylineError_of_badEdge {vertices : List S2Point} {e : Edge}
    (he : e ∈ polylineEdges vertices) (hbad : BadEdge lib e) :
    polylineError lib vertices ≠ none := by
  obtain ⟨h1, h2⟩ := mem_of_mem_polylineEdges he
  rw [polylineError_ne_none_iff]
  rcases hbad with hbad | hbad | hbad
  · exact Or.inl ⟨e.1, h1, hbad⟩
  · exact Or.inl ⟨e.2, h2, hbad⟩
  · exact Or.inr ⟨e, he, Or.inr hbad⟩

/-- No edge has length 0. -/
def Proper (edges : List Edge) : Prop := ∀ e ∈ edges, e.1.eq e.2 = false

theorem proper_discardDegenerate (edges : List Edge) : Proper (discardDegenerate edges) := by
  intro e he
  simpa using (List.mem_filter.mp he).2

/-- Without edges of length 0, an error is an error of an edge. -/
theorem exists_badEdge_of_polylineError {vertices : List S2Point} (hlength : 2 ≤ vertices.length)
    (hproper : Proper (polylineEdges vertices))
    (herror : polylineError lib vertices ≠ none) :
    ∃ e ∈ polylineEdges vertices, BadEdge lib e := by
  rcases (polylineError_ne_none_iff vertices).mp herror with ⟨v, hv, hunit⟩ | ⟨e, he, heq | hanti⟩
  · obtain ⟨e, he, rfl | rfl⟩ := exists_mem_edge hlength hv
    · exact ⟨e, he, Or.inl hunit⟩
    · exact ⟨e, he, Or.inr (Or.inl hunit)⟩
  · rw [hproper e he] at heq
    exact absurd heq Bool.false_ne_true
  · exact ⟨e, he, Or.inr (Or.inr hanti)⟩

theorem polylinesError_ne_none_iff (polylines : List (List S2Point)) :
    polylinesError lib polylines ≠ none ↔
      ∃ vertices ∈ polylines, polylineError lib vertices ≠ none := by
  rw [polylinesError, Ne, List.findSome?_eq_none_iff]
  push Not
  rfl

/-- The polyline layer makes polylines of the edges it receives, and of nothing else; equal
vertices and equal edges may be merged. -/
structure PolylineLayer (layers : S2Layers) : Prop where
  length : ∀ edges, Proper edges → ∀ out ∈ layers.polylines edges, 2 ≤ out.length
  keeps : ∀ edges, Proper edges → ∀ e ∈ edges,
    ∃ f ∈ (layers.polylines edges).flatMap polylineEdges, Edge.Alike e f
  adds : ∀ edges, Proper edges → ∀ f ∈ (layers.polylines edges).flatMap polylineEdges,
    ∃ e ∈ edges, Edge.Alike f e

theorem polylinesError_layer_iff (hlayer : PolylineLayer layers) (lib : S2Validity)
    {edges : List Edge} (hproper : Proper edges) :
    polylinesError lib (layers.polylines edges) ≠ none ↔ ∃ e ∈ edges, BadEdge lib e := by
  rw [polylinesError_ne_none_iff]
  constructor
  · rintro ⟨vertices, hvertices, herror⟩
    have hmem : ∀ f ∈ polylineEdges vertices,
        f ∈ (layers.polylines edges).flatMap polylineEdges :=
      fun f hf => List.mem_flatMap.mpr ⟨vertices, hvertices, hf⟩
    have hproper' : Proper (polylineEdges vertices) := by
      intro f hf
      obtain ⟨e, he, halike⟩ := hlayer.adds edges hproper f (hmem f hf)
      by_contra htrue
      have heq := halike.1.eq_of_eq halike.2 (by simpa using htrue)
      rw [hproper e he] at heq
      exact Bool.false_ne_true heq
    obtain ⟨f, hf, hbad⟩ := exists_badEdge_of_polylineError
      (hlayer.length edges hproper vertices hvertices) hproper' herror
    obtain ⟨e, he, halike⟩ := hlayer.adds edges hproper f (hmem f hf)
    exact ⟨e, he, hbad.of_alike halike⟩
  · rintro ⟨e, he, hbad⟩
    obtain ⟨f, hf, halike⟩ := hlayer.keeps edges hproper e he
    obtain ⟨vertices, hvertices, hmem⟩ := List.mem_flatMap.mp hf
    exact ⟨vertices, hvertices, polylineError_of_badEdge hmem (hbad.of_alike halike)⟩

end Accessors

end S2Geography
