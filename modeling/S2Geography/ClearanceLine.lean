import Mathlib.Algebra.Ring.Int.Defs
import Mathlib.Data.Fintype.Basic
import Mathlib.Data.List.MinMax
import Mathlib.Order.Bounds.Basic
import Mathlib.Order.WithBot
import S2Geography.EdgeGeometry
import S2Geography.GeographyOperator

/-!
# Clearance lines

`s2_distance`, `s2_minimum_clearance_line_between` and `s2_closest_point` over exact searches
for the closest edge. Only the distance looks at the interior of the first geography, and the
second search of the clearance line does not look at the interior of the second one. So the
line is as long as the distance if that is positive. If it is zero, boundaries have to meet.
-/
namespace S2Geography

variable {P δ : Type} [LinearOrder δ] [Zero δ]

/-- A shape of an index: its edges, chain by chain, and what is known of its interior. -/
structure IndexShape (geometry : EdgeGeometry P δ) where
  chains : List (List (P × P))
  /-- Whether the interior has the point; that of points and of polylines has none. -/
  contains : P → Bool
  /-- `GetReferencePoint`. -/
  reference : P × Bool
  reference_eq : reference.2 = contains reference.1
  /-- Without edges, a polygon is empty or full. -/
  contains_eq : chains.flatten = [] → ∀ p q, contains p = contains q
  /-- An edge that enters the interior has its center there, or meets the boundary. -/
  contains_center : ∀ e, ∀ p ∈ geometry.segment e, contains p = true →
    contains (geometry.center e) = true ∨
      ∃ f ∈ chains.flatten, geometry.edgeDistance e f = 0
  /-- From outside, the boundary is no farther than the interior. -/
  exists_boundary : ∀ p q, contains p = false → contains q = true →
    ∃ f ∈ chains.flatten, ∃ r ∈ geometry.segment f,
      geometry.distance p r ≤ geometry.distance p q

/-- `MutableS2ShapeIndex`. -/
abbrev ShapeIndex (geometry : EdgeGeometry P δ) := List (IndexShape geometry)

/-- How a query finds an edge of an index that is closest by a given distance. -/
abbrev EdgeSearch (P δ : Type) := (P × P → WithTop δ) → List (P × P) → Option (P × P)

/-- The search returns an edge at the smallest distance, any of them, or no edge if none is at
a finite distance. -/
structure EdgeSearch.Exact (search : EdgeSearch P δ) : Prop where
  found : ∀ f edges e, search f edges = some e → e ∈ edges ∧ ∀ e' ∈ edges, f e ≤ f e'
  none_iff : ∀ f edges, search f edges = none ↔ ∀ e ∈ edges, f e = ⊤

namespace ShapeIndex

variable {geometry : EdgeGeometry P δ}

def edges (index : ShapeIndex geometry) : List (P × P) :=
  index.flatMap fun shape => shape.chains.flatten

/-- `S2ContainsPointQuery`: some shape has the point in its interior. -/
def inPolygon (index : ShapeIndex geometry) (p : P) : Bool := index.any fun shape =>
  shape.contains p

/-- `S2MinDistanceShapeIndexTarget::VisitContainingShapes`: a shape of the index has the first
vertex of a chain of the target, or the reference point of a full polygon. -/
def visitContainingShapes (target queryIndex : ShapeIndex geometry) : Bool :=
  target.any fun shape =>
    let starts := shape.chains.filterMap fun chain => chain.head?.map Prod.fst
    if starts.isEmpty then shape.reference.2 && inPolygon queryIndex shape.reference.1
    else starts.any (inPolygon queryIndex)

/-- The distance of a target that is an index to an edge: the nested query looks at interiors
first. -/
def targetDistance (search : EdgeSearch P δ) (target : ShapeIndex geometry) (e : P × P) :
    WithTop δ :=
  if inPolygon target (geometry.center e) then ((0 : δ) : WithTop δ)
  else
    match search (fun f => (geometry.edgeDistance e f : WithTop δ)) (edges target) with
    | some f => (geometry.edgeDistance e f : WithTop δ)
    | none => ⊤

/-- `s2_distance`. -/
def s2Distance (search : EdgeSearch P δ) (geog1 geog2 : ShapeIndex geometry) : WithTop δ :=
  if visitContainingShapes geog2 geog1 then ((0 : δ) : WithTop δ)
  else
    match search (targetDistance search geog2) (edges geog1) with
    | some e => targetDistance search geog2 e
    | none => ⊤

/-- `s2_minimum_clearance_line_between`. No line: both points are `S2Point(0, 0, 0)`. Without
interiors, neither result is an interior. -/
def s2MinimumClearanceLineBetween (search : EdgeSearch P δ) (geog1 geog2 : ShapeIndex geometry) :
    Except Fault (Option (P × P)) :=
  match search (targetDistance search geog2) (edges geog1) with
  | none => .ok none
  | some edge1 =>
    match search (fun e => (geometry.edgeDistance edge1 e : WithTop δ)) (edges geog2) with
    | none => .error .outOfBounds
    | some edge2 => .ok (some (geometry.closestPoints edge1 edge2))

/-- `s2_closest_point`. -/
def s2ClosestPoint (search : EdgeSearch P δ) (geog1 geog2 : ShapeIndex geometry) :
    Except Fault (Option P) :=
  (s2MinimumClearanceLineBetween search geog1 geog2).map (Option.map Prod.fst)

end ShapeIndex

/-- The geographies that the operators make. -/
inductive Drawn (P : Type)
  | point (points : List P)
  | polyline (vertices : List P)
  deriving DecidableEq, Repr

def Drawn.vertices : Drawn P → List P
  | point points => points
  | polyline vertices => vertices

namespace ShapeIndex

variable {geometry : EdgeGeometry P δ}

/-- `processFeature` of `cpp_s2_closest_point`. -/
def cppS2ClosestPoint (search : EdgeSearch P δ) (geog1 geog2 : ShapeIndex geometry) :
    Except Fault (Drawn P) := do
  match ← s2ClosestPoint search geog1 geog2 with
  | none => return .point []
  | some pt => return .point [pt]

/-- `processFeature` of `cpp_s2_minimum_clearance_line_between`. -/
def cppS2MinimumClearanceLineBetween [DecidableEq P] (search : EdgeSearch P δ)
    (geog1 geog2 : ShapeIndex geometry) : Except Fault (Drawn P) := do
  match ← s2MinimumClearanceLineBetween search geog1 geog2 with
  | none => return .point []
  | some pts =>
    let vertices := [pts.1, pts.2]
    if pts.1 = pts.2 then return .point vertices else return .polyline vertices

/-! ### What the results should be -/

/-- The points of a geography. -/
def region (index : ShapeIndex geometry) : Set P :=
  {p | inPolygon index p = true ∨ ∃ e ∈ edges index, p ∈ geometry.segment e}

/-- Not `s2_is_empty`: a shape has edges, or is full. -/
def Nonempty (index : ShapeIndex geometry) : Prop :=
  ∃ shape ∈ index, shape.chains.flatten ≠ [] ∨ shape.reference.2 = true

/-- The two points are points of the two geographies, at their distance. -/
def ClearanceHolds [DecidableEq P] (search : EdgeSearch P δ) (x y : ShapeIndex geometry) : Prop :=
  ∃ line p q, cppS2MinimumClearanceLineBetween search x y = .ok line ∧ line.vertices = [p, q] ∧
    p ∈ region x ∧ q ∈ region y ∧ (geometry.distance p q : WithTop δ) = s2Distance search x y

/-- The point is a point of the first geography, and its distance to the second is theirs. -/
def ClosestHolds (search : EdgeSearch P δ) (x y : ShapeIndex geometry) : Prop :=
  ∃ p d, cppS2ClosestPoint search x y = .ok (.point [p]) ∧ p ∈ region x ∧
    IsLeast (geometry.distance p '' region y) d ∧ (d : WithTop δ) = s2Distance search x y

/-- The edge meets an edge of the index. -/
def Meets (e : P × P) (index : ShapeIndex geometry) : Prop :=
  ∃ f ∈ edges index, geometry.edgeDistance e f = 0

/-! ### Distances of edges -/

section Exact

variable {search : EdgeSearch P δ} {x y : ShapeIndex geometry} {e : P × P}

theorem coe_edgeDistance_nonneg (e f : P × P) :
    ((0 : δ) : WithTop δ) ≤ (geometry.edgeDistance e f : WithTop δ) :=
  WithTop.coe_le_coe.mpr (EdgeGeometry.edgeDistance_nonneg e f)

theorem targetDistance_nonneg (search : EdgeSearch P δ) (y : ShapeIndex geometry) (e : P × P) :
    ((0 : δ) : WithTop δ) ≤ targetDistance search y e := by
  unfold targetDistance
  split
  · exact le_refl _
  · split
    · exact coe_edgeDistance_nonneg e _
    · exact le_top

theorem targetDistance_le (hsearch : search.Exact) {f : P × P} (hf : f ∈ edges y) :
    targetDistance search y e ≤ (geometry.edgeDistance e f : WithTop δ) := by
  unfold targetDistance
  split
  · exact coe_edgeDistance_nonneg e f
  · cases hfound : search (fun f => (geometry.edgeDistance e f : WithTop δ)) (edges y) with
    | none =>
      have htop := (hsearch.none_iff _ _).mp hfound f hf
      exact absurd htop WithTop.coe_ne_top
    | some g => exact (hsearch.found _ _ g hfound).2 f hf

/-- An edge is at distance zero if its center is in a polygon, or it meets an edge. -/
theorem targetDistance_eq_zero_iff (hsearch : search.Exact) :
    targetDistance search y e = ((0 : δ) : WithTop δ) ↔
      inPolygon y (geometry.center e) = true ∨ Meets e y := by
  constructor
  · intro h
    by_cases hcenter : inPolygon y (geometry.center e) = true
    · exact Or.inl hcenter
    · right
      rw [targetDistance, if_neg hcenter] at h
      cases hfound : search (fun f => (geometry.edgeDistance e f : WithTop δ)) (edges y) with
      | none =>
        rw [hfound] at h
        exact absurd h WithTop.top_ne_coe
      | some f =>
        rw [hfound] at h
        exact ⟨f, (hsearch.found _ _ f hfound).1, WithTop.coe_injective h⟩
  · rintro (hcenter | ⟨f, hf, hzero⟩)
    · rw [targetDistance, if_pos hcenter]
    · apply le_antisymm _ (targetDistance_nonneg search y e)
      exact (targetDistance_le hsearch hf).trans_eq (congrArg WithTop.some hzero)

theorem s2Distance_eq_zero (hsearch : search.Exact)
    (h : visitContainingShapes y x = true ∨
      ∃ e ∈ edges x, targetDistance search y e = ((0 : δ) : WithTop δ)) :
    s2Distance search x y = ((0 : δ) : WithTop δ) := by
  unfold s2Distance
  split
  · rfl
  · next hvisit =>
    obtain ⟨e, he, hzero⟩ := h.resolve_left hvisit
    cases hfound : search (targetDistance search y) (edges x) with
    | none =>
      have htop := (hsearch.none_iff _ _).mp hfound e he
      rw [hzero] at htop
      exact absurd htop WithTop.coe_ne_top
    | some f =>
      apply le_antisymm _ (targetDistance_nonneg search y f)
      exact ((hsearch.found _ _ f hfound).2 e he).trans_eq hzero

/-! ### The line -/

/-- The line joins the closest points of the two edges that the searches find. -/
theorem clearance_eq [DecidableEq P] {e f : P × P}
    (he : search (targetDistance search y) (edges x) = some e)
    (hf : search (fun f => (geometry.edgeDistance e f : WithTop δ)) (edges y) = some f) :
    (∃ line, cppS2MinimumClearanceLineBetween search x y = .ok line ∧
        line.vertices = [(geometry.closestPoints e f).1, (geometry.closestPoints e f).2]) ∧
      cppS2ClosestPoint search x y = .ok (.point [(geometry.closestPoints e f).1]) := by
  have hline : s2MinimumClearanceLineBetween search x y =
      .ok (some (geometry.closestPoints e f)) := by
    simp only [s2MinimumClearanceLineBetween, he, hf]
  constructor
  · rw [cppS2MinimumClearanceLineBetween, hline]
    by_cases heq : (geometry.closestPoints e f).1 = (geometry.closestPoints e f).2
    · exact ⟨_, if_pos heq, rfl⟩
    · exact ⟨_, if_neg heq, rfl⟩
  · rw [cppS2ClosestPoint, s2ClosestPoint, hline]
    rfl

/-- A line of two points comes from two edges. -/
theorem exists_edges_of_clearanceHolds [DecidableEq P] (hsearch : search.Exact)
    (h : ClearanceHolds search x y) :
    ∃ e ∈ edges x, ∃ f ∈ edges y, search (targetDistance search y) (edges x) = some e ∧
      (geometry.edgeDistance e f : WithTop δ) = s2Distance search x y := by
  obtain ⟨line, p, q, hline, hvertices, -, -, hdistance⟩ := h
  cases he : search (targetDistance search y) (edges x) with
  | none =>
    rw [cppS2MinimumClearanceLineBetween, s2MinimumClearanceLineBetween, he] at hline
    cases hline
    cases hvertices
  | some e =>
    cases hf : search (fun f => (geometry.edgeDistance e f : WithTop δ)) (edges y) with
    | none =>
      simp only [cppS2MinimumClearanceLineBetween, s2MinimumClearanceLineBetween, he, hf] at hline
      cases hline
    | some f =>
      obtain ⟨⟨line', hline', hvertices'⟩, -⟩ := clearance_eq he hf
      cases hline'.symm.trans hline
      have hpoints := hvertices'.symm.trans hvertices
      have hp : (geometry.closestPoints e f).1 = p := (List.cons.inj hpoints).1
      have hq : (geometry.closestPoints e f).2 = q := (List.cons.inj (List.cons.inj hpoints).2).1
      refine ⟨e, (hsearch.found _ _ e he).1, f, (hsearch.found _ _ f hf).1, rfl, ?_⟩
      rw [← hdistance, ← hp, ← hq, EdgeGeometry.distance_closestPoints]

/-! ### When the line is right -/

theorem exists_found (hsearch : search.Exact) (hx : edges x ≠ []) (hy : edges y ≠ []) :
    ∃ e f, search (targetDistance search y) (edges x) = some e ∧
      search (fun f => (geometry.edgeDistance e f : WithTop δ)) (edges y) = some f := by
  obtain ⟨f, hf⟩ := List.exists_mem_of_ne_nil _ hy
  obtain ⟨e, he⟩ := List.exists_mem_of_ne_nil _ hx
  cases hfound : search (targetDistance search y) (edges x) with
  | none =>
    have htop := (hsearch.none_iff _ _).mp hfound e he
    exact absurd (htop ▸ targetDistance_le hsearch hf) (not_le.mpr (WithTop.coe_lt_top _))
  | some e =>
    cases hfound' : search (fun f => (geometry.edgeDistance e f : WithTop δ)) (edges y) with
    | none => exact absurd ((hsearch.none_iff _ _).mp hfound' f hf) WithTop.coe_ne_top
    | some f => exact ⟨e, f, rfl, hfound'⟩

/-- Both results are right if the two edges found are at the distance of the geographies, and
the first point is not closer to an interior. -/
theorem holds_of_found [DecidableEq P] (hsearch : search.Exact) {e f : P × P}
    (he : search (targetDistance search y) (edges x) = some e)
    (hf : search (fun f => (geometry.edgeDistance e f : WithTop δ)) (edges y) = some f)
    (hdistance : (geometry.edgeDistance e f : WithTop δ) = s2Distance search x y)
    (hleast : ∀ p ∈ geometry.segment e, ∀ q ∈ region y,
      geometry.edgeDistance e f ≤ geometry.distance p q) :
    ClearanceHolds search x y ∧ ClosestHolds search x y := by
  obtain ⟨⟨line, hline, hvertices⟩, hclosest⟩ := clearance_eq he hf
  obtain ⟨hp, hq⟩ := @EdgeGeometry.closestPoints_mem P δ _ _ geometry e f
  have hpx : (geometry.closestPoints e f).1 ∈ region x :=
    Or.inr ⟨e, (hsearch.found _ _ e he).1, hp⟩
  have hqy : (geometry.closestPoints e f).2 ∈ region y :=
    Or.inr ⟨f, (hsearch.found _ _ f hf).1, hq⟩
  have hpoints := @EdgeGeometry.distance_closestPoints P δ _ _ geometry e f
  constructor
  · exact ⟨line, _, _, hline, hvertices, hpx, hqy, (congrArg WithTop.some hpoints).trans hdistance⟩
  · refine ⟨_, geometry.edgeDistance e f, hclosest, hpx, ⟨⟨_, hqy, hpoints⟩, ?_⟩, hdistance⟩
    rintro d ⟨q, hq, rfl⟩
    exact hleast _ hp q hq

/-- Edges meet, and every edge of `x` with its center in a polygon of `y` meets an edge; or
nothing meets and no polygon contains anything. -/
def EdgesDecide (x y : ShapeIndex geometry) : Prop :=
  ((∃ e ∈ edges x, Meets e y) ∧
    ∀ e ∈ edges x, inPolygon y (geometry.center e) = true → Meets e y) ∨
  (visitContainingShapes y x = false ∧
    ∀ e ∈ edges x, inPolygon y (geometry.center e) = false ∧ ¬Meets e y)

theorem holds_of_meets [DecidableEq P] (hsearch : search.Exact)
    (hmeets : ∃ e ∈ edges x, Meets e y)
    (hcenters : ∀ e ∈ edges x, inPolygon y (geometry.center e) = true → Meets e y) :
    ClearanceHolds search x y ∧ ClosestHolds search x y := by
  obtain ⟨e₀, he₀, f₀, hf₀, hzero₀⟩ := hmeets
  obtain ⟨e, f, he, hf⟩ :=
    exists_found hsearch (List.ne_nil_of_mem he₀) (List.ne_nil_of_mem hf₀)
  have hzero : targetDistance search y e = ((0 : δ) : WithTop δ) := by
    have hzero₀ := (targetDistance_eq_zero_iff hsearch).mpr (Or.inr ⟨f₀, hf₀, hzero₀⟩)
    apply le_antisymm _ (targetDistance_nonneg search y e)
    exact ((hsearch.found _ _ e he).2 e₀ he₀).trans_eq hzero₀
  have hedge := (hsearch.found _ _ e he).1
  have hmeet : Meets e y := by
    rcases (targetDistance_eq_zero_iff hsearch).mp hzero with hcenter | hmeet
    · exact hcenters e hedge hcenter
    · exact hmeet
  have hdistance : geometry.edgeDistance e f = 0 := by
    obtain ⟨f₁, hf₁, hzero₁⟩ := hmeet
    have hle := WithTop.coe_le_coe.mp ((hsearch.found _ _ f hf).2 f₁ hf₁)
    exact le_antisymm (hle.trans_eq hzero₁) (EdgeGeometry.edgeDistance_nonneg e f)
  apply holds_of_found hsearch he hf
  · rw [hdistance, s2Distance_eq_zero hsearch (Or.inr ⟨e, hedge, hzero⟩)]
  · intro p _ q _
    rw [hdistance]
    exact geometry.distance_nonneg p q

/-- From an edge that meets neither edges nor interiors, interiors are not closer than
edges. -/
theorem edgeDistance_le_of_mem_region {f : P × P}
    (hf : search (fun f => (geometry.edgeDistance e f : WithTop δ)) (edges y) = some f)
    (hsearch : search.Exact) (hcenter : inPolygon y (geometry.center e) = false)
    (hmeets : ¬Meets e y) {p q : P} (hp : p ∈ geometry.segment e) (hq : q ∈ region y) :
    geometry.edgeDistance e f ≤ geometry.distance p q := by
  have hedges : ∀ g ∈ edges y, ∀ r ∈ geometry.segment g,
      geometry.edgeDistance e f ≤ geometry.distance p r := by
    intro g hg r hr
    have hle := WithTop.coe_le_coe.mp ((hsearch.found _ _ f hf).2 g hg)
    exact hle.trans (EdgeGeometry.edgeDistance_le hp hr)
  rcases hq with hq | ⟨g, hg, hq⟩
  · obtain ⟨shape, hshape, hcontains⟩ := List.any_eq_true.mp hq
    have hmem : ∀ g ∈ shape.chains.flatten, g ∈ edges y := fun g hg =>
      List.mem_flatMap.mpr ⟨shape, hshape, hg⟩
    have houtside : shape.contains p = false := by
      by_contra hinside
      rcases shape.contains_center e p hp (Bool.eq_true_of_not_eq_false hinside) with h | h
      · have hany : inPolygon y (geometry.center e) = true :=
          List.any_eq_true.mpr ⟨shape, hshape, h⟩
        exact absurd (hcenter.symm.trans hany) Bool.false_ne_true
      · obtain ⟨g, hg, hzero⟩ := h
        exact hmeets ⟨g, hmem g hg, hzero⟩
    obtain ⟨g, hg, r, hr, hle⟩ := shape.exists_boundary p q houtside hcontains
    exact (hedges g (hmem g hg) r hr).trans hle
  · exact hedges g hg q hq

/-! ### Geographies without edges -/

theorem chains_flatten_eq_nil {shape : IndexShape geometry}
    (h : (shape.chains.filterMap fun chain => chain.head?.map Prod.fst) = []) :
    shape.chains.flatten = [] := by
  apply List.flatten_eq_nil_iff.mpr
  intro chain hchain
  have hnone := List.filterMap_eq_nil_iff.mp h chain hchain
  exact List.head?_eq_none_iff.mp (Option.map_eq_none_iff.mp hnone)

/-- Whatever is not empty is contained in what contains every point. -/
theorem visitContainingShapes_eq_true (hy : Nonempty y) (hx : ∀ p, inPolygon x p = true) :
    visitContainingShapes y x = true := by
  obtain ⟨shape, hshape, hnonempty⟩ := hy
  apply List.any_eq_true.mpr
  refine ⟨shape, hshape, ?_⟩
  cases hstarts : shape.chains.filterMap fun chain => chain.head?.map Prod.fst with
  | nil =>
    have hfull : shape.reference.2 = true :=
      hnonempty.resolve_left fun hne => hne (chains_flatten_eq_nil hstarts)
    simp [hfull, hx]
  | cons start starts => simp [hx]

/-- Without edges, only a full shape is not empty. -/
theorem inPolygon_of_edges_eq_nil (hy : Nonempty y) (hedges : edges y = []) (p : P) :
    inPolygon y p = true := by
  obtain ⟨shape, hshape, hnonempty⟩ := hy
  have hempty : shape.chains.flatten = [] := List.flatMap_eq_nil_iff.mp hedges shape hshape
  have hfull : shape.reference.2 = true := hnonempty.resolve_left fun hne => hne hempty
  apply List.any_eq_true.mpr
  refine ⟨shape, hshape, ?_⟩
  rw [shape.contains_eq hempty p shape.reference.1, ← shape.reference_eq, hfull]

theorem holds_of_apart [DecidableEq P] (hsearch : search.Exact) (hx : Nonempty x)
    (hy : Nonempty y) (hvisit : visitContainingShapes y x = false)
    (hapart : ∀ e ∈ edges x, inPolygon y (geometry.center e) = false ∧ ¬Meets e y) :
    ClearanceHolds search x y ∧ ClosestHolds search x y := by
  have hedgesx : edges x ≠ [] := by
    intro hnil
    have hall := visitContainingShapes_eq_true hy (inPolygon_of_edges_eq_nil hx hnil)
    exact Bool.false_ne_true (hvisit.symm.trans hall)
  have hedgesy : edges y ≠ [] := by
    intro hnil
    obtain ⟨e, he⟩ := List.exists_mem_of_ne_nil _ hedgesx
    have hall := inPolygon_of_edges_eq_nil hy hnil (geometry.center e)
    exact Bool.false_ne_true ((hapart e he).1.symm.trans hall)
  obtain ⟨e, f, he, hf⟩ := exists_found hsearch hedgesx hedgesy
  obtain ⟨hcenter, hmeets⟩ := hapart e (hsearch.found _ _ e he).1
  have htarget : targetDistance search y e = (geometry.edgeDistance e f : WithTop δ) := by
    rw [targetDistance, if_neg (Bool.eq_false_iff.mp hcenter), hf]
  have hdistance : s2Distance search x y = targetDistance search y e := by
    rw [s2Distance, if_neg (Bool.eq_false_iff.mp hvisit), he]
  apply holds_of_found hsearch he hf
  · exact (hdistance.trans htarget).symm
  · intro p hp q hq
    exact edgeDistance_le_of_mem_region hf hsearch hcenter hmeets hp hq

end Exact

end ShapeIndex

/-! ### Exact searches -/

namespace EdgeSearch

/-- The first of the closest edges. -/
def nearest : EdgeSearch P δ := fun f edges => (edges.filter fun e => f e ≠ ⊤).argmin f

/-- One edge is found whenever it is among the closest. -/
def prefer [DecidableEq P] (e₀ : P × P) : EdgeSearch P δ := fun f edges =>
  if e₀ ∈ edges ∧ f e₀ ≠ ⊤ ∧ ∀ e ∈ edges, f e₀ ≤ f e then some e₀ else nearest f edges

omit [Zero δ] in
theorem exact_nearest : (nearest : EdgeSearch P δ).Exact where
  found := by
    intro f edges e hfound
    obtain ⟨hmem, -⟩ := List.mem_filter.mp (List.argmin_mem hfound)
    refine ⟨hmem, ?_⟩
    intro e' he'
    by_cases htop : f e' = ⊤
    · rw [htop]
      exact le_top
    · have hfilter : e' ∈ edges.filter fun e => f e ≠ ⊤ :=
        List.mem_filter.mpr ⟨he', decide_eq_true htop⟩
      exact List.le_of_mem_argmin hfilter hfound
  none_iff := by
    intro f edges
    rw [nearest, List.argmin_eq_none, List.filter_eq_nil_iff]
    simp

omit [Zero δ] in
theorem exact_prefer [DecidableEq P] (e₀ : P × P) : (prefer e₀ : EdgeSearch P δ).Exact where
  found := by
    intro f edges e hfound
    unfold prefer at hfound
    split at hfound
    · next hleast =>
      cases hfound
      exact ⟨hleast.1, hleast.2.2⟩
    · exact exact_nearest.found f edges e hfound
  none_iff := by
    intro f edges
    unfold prefer
    split
    · next hleast =>
      constructor
      · intro hnone
        cases hnone
      · intro htop
        exact absurd (htop e₀ hleast.1) hleast.2.1
    · exact exact_nearest.none_iff f edges

end EdgeSearch

namespace ShapeIndex

variable {geometry : EdgeGeometry P δ}

/-- If edges meet, a search may find any edge that has its center in a polygon. So it has to
meet an edge. -/
theorem meets_of_holds [DecidableEq P] {x y : ShapeIndex geometry}
    (h : ∀ search : EdgeSearch P δ, search.Exact → ClearanceHolds search x y)
    {e : P × P} (he : e ∈ edges x) (hcenter : inPolygon y (geometry.center e) = true) :
    Meets e y := by
  have hexact : (EdgeSearch.prefer e : EdgeSearch P δ).Exact := EdgeSearch.exact_prefer e
  have hzero : targetDistance (EdgeSearch.prefer e) y e = ((0 : δ) : WithTop δ) :=
    (targetDistance_eq_zero_iff hexact).mpr (Or.inl hcenter)
  obtain ⟨e', he', f, hf, hfound, hdistance⟩ :=
    exists_edges_of_clearanceHolds hexact (h _ hexact)
  have hleast : e ∈ edges x ∧ targetDistance (EdgeSearch.prefer e) y e ≠ ⊤ ∧
      ∀ e' ∈ edges x, targetDistance (EdgeSearch.prefer e) y e ≤
        targetDistance (EdgeSearch.prefer e) y e' := by
    rw [hzero]
    exact ⟨he, WithTop.coe_ne_top, fun e' _ => targetDistance_nonneg _ y e'⟩
  have hpreferred : EdgeSearch.prefer e (targetDistance (EdgeSearch.prefer e) y) (edges x) =
      some e := if_pos hleast
  cases hpreferred.symm.trans hfound
  rw [s2Distance_eq_zero hexact (Or.inr ⟨e, he, hzero⟩)] at hdistance
  exact ⟨f, hf, WithTop.coe_injective hdistance⟩

/-- Whichever of the closest edges the searches find, the points lie on the geographies at
their distance if and only if the edges decide that distance. -/
theorem clearance_iff [DecidableEq P] (x y : ShapeIndex geometry) (hx : Nonempty x)
    (hy : Nonempty y) :
    (∀ search : EdgeSearch P δ, search.Exact →
      ClearanceHolds search x y ∧ ClosestHolds search x y) ↔ EdgesDecide x y := by
  constructor
  · intro h
    have hexact : (EdgeSearch.nearest : EdgeSearch P δ).Exact := EdgeSearch.exact_nearest
    by_cases hmeets : ∃ e ∈ edges x, Meets e y
    · left
      exact ⟨hmeets, fun e => meets_of_holds fun search hsearch => (h search hsearch).1⟩
    · right
      obtain ⟨e, he, f, hf, -, hdistance⟩ :=
        exists_edges_of_clearanceHolds hexact (h _ hexact).1
      have hpositive : s2Distance EdgeSearch.nearest x y ≠ ((0 : δ) : WithTop δ) := by
        intro hzero
        exact hmeets ⟨e, he, f, hf, WithTop.coe_injective (hdistance.trans hzero)⟩
      constructor
      · apply Bool.eq_false_iff.mpr
        intro hvisit
        exact hpositive (s2Distance_eq_zero hexact (Or.inl hvisit))
      · intro e he
        have hnot : ¬Meets e y := fun hmeet => hmeets ⟨e, he, hmeet⟩
        refine ⟨Bool.eq_false_iff.mpr fun hcenter => ?_, hnot⟩
        have hzero := (targetDistance_eq_zero_iff hexact).mpr (Or.inl hcenter)
        exact hpositive (s2Distance_eq_zero hexact (Or.inr ⟨e, he, hzero⟩))
  · rintro (⟨hmeets, hcenters⟩ | ⟨hvisit, hapart⟩) search hsearch
    · exact holds_of_meets hsearch hmeets hcenters
    · exact holds_of_apart hsearch hx hy hvisit hapart

end ShapeIndex

/-! ### Points of the axes -/

/-- Four points of the equator, 90 degrees apart, and the poles. -/
inductive AxisPoint
  | front
  | east
  | back
  | west
  | pole
  | nadir
  deriving DecidableEq, Repr

namespace AxisPoint

instance : Fintype AxisPoint where
  elems := {front, east, back, west, pole, nadir}
  complete := by
    intro p
    cases p <;> decide

/-- In degrees. -/
def distance : AxisPoint → AxisPoint → ℤ
  | front, front | east, east | back, back | west, west | pole, pole | nadir, nadir => 0
  | front, back | back, front | east, west | west, east | pole, nadir | nadir, pole => 180
  | _, _ => 90

def project (p : AxisPoint) (e : AxisPoint × AxisPoint) : AxisPoint :=
  if distance p e.2 < distance p e.1 then e.2 else e.1

/-- The end that is the pole, if one is. -/
def center (e : AxisPoint × AxisPoint) : AxisPoint := if e.2 = pole then e.2 else e.1

def crossingSign (e f : AxisPoint × AxisPoint) : ℤ :=
  if e.1 = f.1 ∨ e.1 = f.2 ∨ e.2 = f.1 ∨ e.2 = f.2 then 0 else -1

theorem distance_project_le (p : AxisPoint) (e : AxisPoint × AxisPoint) {q : AxisPoint}
    (hq : q = e.1 ∨ q = e.2) : distance p (project p e) ≤ distance p q := by
  unfold project
  rcases hq with rfl | rfl
  · split
    · next hlt => exact hlt.le
    · exact le_refl _
  · split
    · exact le_refl _
    · next hle => exact not_lt.mp hle

/-- The edges of the equator, and points: of an edge the model has its two vertices. -/
def axisGeometry : EdgeGeometry AxisPoint ℤ where
  distance := distance
  segment := fun e => {p | p = e.1 ∨ p = e.2}
  center := center
  project := project
  crossingSign := crossingSign
  intersection := fun e _ => e.1
  distance_nonneg := by decide
  distance_eq_zero_iff := by decide
  distance_comm := by decide
  left_mem := fun _ => Or.inl rfl
  right_mem := fun _ => Or.inr rfl
  project_mem := by
    intro p e
    unfold project
    split
    · exact Or.inr rfl
    · exact Or.inl rfl
  distance_project_le := fun p e _ hq => distance_project_le p e hq
  intersection_mem := by
    intro e f hcross
    unfold crossingSign at hcross
    split at hcross <;> omega
  exists_shared := by
    intro e f hcross
    unfold crossingSign at hcross
    split at hcross
    · next hshared => exact hshared
    · omega
  exists_vertex_le := by
    intro e f _ p hp q hq
    rcases hp with rfl | rfl
    · exact Or.inl (distance_project_le _ f hq)
    · exact Or.inr (Or.inl (distance_project_le _ f hq))

/-- A point. -/
def pointIndex (p : AxisPoint) : IndexShape axisGeometry where
  chains := [[(p, p)]]
  contains := fun _ => false
  reference := (p, false)
  reference_eq := rfl
  contains_eq := fun _ _ _ => rfl
  contains_center := fun _ _ _ h => absurd h Bool.false_ne_true
  exists_boundary := fun _ _ _ h => absurd h Bool.false_ne_true

/-- The polygon that is bounded by the equator and contains the pole. -/
def hemisphere : IndexShape axisGeometry where
  chains := [[(front, east), (east, back), (back, west), (west, front)]]
  contains := fun p => decide (p = pole)
  reference := (pole, true)
  reference_eq := rfl
  contains_eq := fun h => absurd h (by decide)
  contains_center := by
    intro e p hp hcontains
    have hvertex : e.1 = pole ∨ e.2 = pole := by
      cases of_decide_eq_true hcontains
      exact hp.imp Eq.symm Eq.symm
    clear hp
    obtain ⟨a, b⟩ := e
    revert a b
    decide
  exists_boundary := by
    intro p q houtside hinside
    cases of_decide_eq_true hinside
    have hvertex : ∀ p, decide (p = pole) = false →
        ∃ f ∈ [(front, east), (east, back), (back, west), (west, front)],
          distance p f.1 ≤ distance p pole := by decide
    obtain ⟨f, hf, hle⟩ := hvertex p houtside
    exact ⟨f, List.mem_append_left _ hf, f.1, Or.inl rfl, hle⟩

end AxisPoint

open AxisPoint

namespace ShapeIndex

theorem nonempty_pointIndex (p : AxisPoint) : Nonempty [pointIndex p] :=
  ⟨pointIndex p, List.mem_singleton_self _, Or.inl (List.cons_ne_nil _ _)⟩

theorem nonempty_hemisphere : Nonempty [hemisphere] :=
  ⟨hemisphere, List.mem_singleton_self _, Or.inr rfl⟩

/-- From a point outside, the edges of the hemisphere decide. -/
theorem edgesDecide_nadir_hemisphere : EdgesDecide [pointIndex nadir] [hemisphere] := by
  right
  constructor
  · decide
  · intro e he
    have hedge : e = (nadir, nadir) := List.mem_singleton.mp he
    rw [hedge]
    refine ⟨by decide, fun ⟨f, hf, hzero⟩ => ?_⟩
    have hpositive : ∀ f ∈ [(front, east), (east, back), (back, west), (west, front)],
        axisGeometry.edgeDistance (nadir, nadir) f ≠ 0 := by decide
    exact hpositive f hf hzero

theorem clearance_iff_nadir_hemisphere :
    Nonempty [pointIndex nadir] ∧ Nonempty [hemisphere] ∧
    ((∀ search : EdgeSearch AxisPoint ℤ, search.Exact →
      ClearanceHolds search [pointIndex nadir] [hemisphere] ∧
        ClosestHolds search [pointIndex nadir] [hemisphere]) ↔
      EdgesDecide [pointIndex nadir] [hemisphere]) ∧
    EdgesDecide [pointIndex nadir] [hemisphere] :=
  ⟨nonempty_pointIndex nadir, nonempty_hemisphere,
    clearance_iff _ _ (nonempty_pointIndex nadir) nonempty_hemisphere,
    edgesDecide_nadir_hemisphere⟩

/-- The pole is in the hemisphere, and the line goes to the equator. -/
theorem not_clearance_hemisphere_pole :
    Nonempty [hemisphere] ∧ Nonempty [pointIndex pole] ∧
    (EdgeSearch.nearest : EdgeSearch AxisPoint ℤ).Exact ∧
    s2Distance EdgeSearch.nearest [hemisphere] [pointIndex pole] = ((0 : ℤ) : WithTop ℤ) ∧
    cppS2MinimumClearanceLineBetween EdgeSearch.nearest [hemisphere] [pointIndex pole] =
      .ok (.polyline [front, pole]) ∧
    axisGeometry.distance front pole = 90 ∧
    ¬ClearanceHolds EdgeSearch.nearest [hemisphere] [pointIndex pole] ∧
    ¬ClosestHolds EdgeSearch.nearest [hemisphere] [pointIndex pole] := by
  have hzero : s2Distance EdgeSearch.nearest [hemisphere] [pointIndex pole] =
      ((0 : ℤ) : WithTop ℤ) := rfl
  have hline : cppS2MinimumClearanceLineBetween EdgeSearch.nearest [hemisphere]
      [pointIndex pole] = .ok (.polyline [front, pole]) := rfl
  have hclosest : cppS2ClosestPoint EdgeSearch.nearest [hemisphere] [pointIndex pole] =
      .ok (.point [front]) := rfl
  refine ⟨nonempty_hemisphere, nonempty_pointIndex pole, EdgeSearch.exact_nearest, hzero, hline,
    rfl, ?_, ?_⟩
  · rintro ⟨line, p, q, hline', hvertices, -, -, hdistance⟩
    cases hline.symm.trans hline'
    cases hvertices
    rw [hzero] at hdistance
    exact absurd (WithTop.coe_injective hdistance) (by decide)
  · rintro ⟨p, d, hclosest', -, hleast, hdistance⟩
    cases hclosest.symm.trans hclosest'
    rw [hzero] at hdistance
    cases WithTop.coe_injective hdistance
    obtain ⟨q, hregion, hq⟩ := hleast.1
    have hpole : q = pole := by
      rcases hregion with hinside | ⟨e, he, hmem⟩
      · exact absurd hinside Bool.false_ne_true
      · cases List.mem_singleton.mp he
        exact hmem.elim id id
    subst hpole
    exact absurd hq (by decide)

end ShapeIndex

end S2Geography
