import S2Geography.GeographyOperator
import S2Geography.PreorderForest
import Mathlib.Order.SetNotation

/-!
# The unary union of a polygon

`s2_unary_union` rebuilds every loop of a polygon as a polygon of its own, and then
accumulates: loops at even depth are united with the result so far, loops at odd depth
are removed from it, in the order in which the polygon stores them.
-/
namespace S2Geography.UnaryUnion

open PreorderForest

variable {L Pg P : Type}

/-- The S2 calls of `s2_unary_union`, for fixed builder and layer options. -/
structure PolygonOps (L Pg : Type) where
  /-- The layer's polygon, or the text of the error of `S2Builder::Build`. -/
  build : L → Except String Pg
  /-- `loop->GetArea() > (2 * M_PI)`. -/
  areaExceedsHalf : Pg → Bool
  invert : Pg → Pg
  empty : Pg
  initToUnion : Pg → Pg → Pg
  initToDifference : Pg → Pg → Pg

/-- Rebuilds one loop, and inverts it if it came out as the larger side. -/
def rebuildLoop (ops : PolygonOps L Pg) (loop : L) : Except Fault Pg :=
  match ops.build loop with
  | .error text => .error (.stop text)
  | .ok polygon => .ok (if ops.areaExceedsHalf polygon then ops.invert polygon else polygon)

/-- The first loop of `s2_unary_union`. -/
def rebuildLoops (ops : PolygonOps L Pg) : List (L × ℕ) → Except Fault (List Pg)
  | [] => .ok []
  | loop :: rest =>
    match rebuildLoop ops loop.1 with
    | .error fault => .error fault
    | .ok polygon =>
      match rebuildLoops ops rest with
      | .error fault => .error fault
      | .ok polygons => .ok (polygon :: polygons)

/-- The second loop: `loops[i]` is the rebuilt loop `i`. -/
def accumulate (ops : PolygonOps L Pg) : List (L × ℕ) → List Pg → Pg → Except Fault Pg
  | [], _, accumulated => .ok accumulated
  | _ :: _, [], _ => .error .outOfBounds
  | loop :: rest, polygon :: loops, accumulated =>
    accumulate ops rest loops
      (if loop.2 % 2 = 0 then ops.initToUnion accumulated polygon
        else ops.initToDifference accumulated polygon)

/-- `s2_unary_union` of a polygon given by its loops and their depths. -/
def s2UnaryUnion (ops : PolygonOps L Pg) (loops : List (L × ℕ)) : Except Fault Pg :=
  match rebuildLoops ops loops with
  | .error fault => .error fault
  | .ok polygons => accumulate ops loops polygons ops.empty

/-- The polygon operations are set operations on the points of a polygon. -/
structure SetOperations (ops : PolygonOps L Pg) (region : Pg → Set P) : Prop where
  empty : region ops.empty = ∅
  union : ∀ a b, region (ops.initToUnion a b) = region a ∪ region b
  difference : ∀ a b, region (ops.initToDifference a b) = region a \ region b

/-- Rebuilding the loop as its own polygon gives the region it bounds, which is at most
half of the sphere. -/
def Rebuilds (ops : PolygonOps L Pg) (region : Pg → Set P) (bounded : L → Set P) (loop : L) :
    Prop :=
  ∃ polygon, ops.build loop = .ok polygon ∧ region polygon = bounded loop ∧
    ops.areaExceedsHalf polygon = false

section Accumulate

variable {ops : PolygonOps L Pg} {region : Pg → Set P} {bounded : L → Set P}

theorem Rebuilds.rebuildLoop {loop : L} (h : Rebuilds ops region bounded loop) :
    ∃ polygon, UnaryUnion.rebuildLoop ops loop = .ok polygon ∧ region polygon = bounded loop := by
  obtain ⟨polygon, hbuild, hregion, harea⟩ := h
  exact ⟨polygon, by simp [UnaryUnion.rebuildLoop, hbuild, harea], hregion⟩

theorem rebuildLoops_spec {loops : List (L × ℕ)}
    (h : ∀ x ∈ loops, Rebuilds ops region bounded x.1) :
    ∃ polygons, rebuildLoops ops loops = .ok polygons ∧
      polygons.map region = loops.map fun x => bounded x.1 := by
  induction loops with
  | nil => exact ⟨[], rfl, rfl⟩
  | cons x loops ih =>
    obtain ⟨polygon, hbuild, hregion⟩ := (h x (by simp)).rebuildLoop
    obtain ⟨polygons, hrest, hmap⟩ := ih fun y hy => h y (by simp [hy])
    exact ⟨polygon :: polygons, by simp [rebuildLoops, hbuild, hrest], by simp [hregion, hmap]⟩

/-- Accumulating the polygons is folding their regions by the parity of the depth. -/
theorem accumulate_spec (hops : SetOperations ops region) (loops : List (L × ℕ))
    (polygons : List Pg) (hmap : polygons.map region = loops.map fun x => bounded x.1)
    (accumulated : Pg) :
    ∃ out, accumulate ops loops polygons accumulated = .ok out ∧
      region out = parityFold bounded (region accumulated) loops := by
  induction loops generalizing polygons accumulated with
  | nil => exact ⟨accumulated, rfl, rfl⟩
  | cons x loops ih =>
    cases polygons with
    | nil => simp at hmap
    | cons polygon polygons =>
      rw [List.map_cons, List.map_cons, List.cons.injEq] at hmap
      obtain ⟨out, hout, hregion⟩ := ih polygons hmap.2 (if x.2 % 2 = 0
        then ops.initToUnion accumulated polygon else ops.initToDifference accumulated polygon)
      refine ⟨out, hout, hregion.trans ?_⟩
      rw [parityFold_cons]
      congr 1
      unfold parityStep
      split
      · rw [hops.union, hmap.1]
      · rw [hops.difference, hmap.1]

theorem s2UnaryUnion_spec (hops : SetOperations ops region) {loops : List (L × ℕ)}
    (h : ∀ x ∈ loops, Rebuilds ops region bounded x.1) :
    ∃ out, s2UnaryUnion ops loops = .ok out ∧ region out = parityFold bounded ∅ loops := by
  obtain ⟨polygons, hrebuild, hmap⟩ := rebuildLoops_spec h
  obtain ⟨out, hout, hregion⟩ := accumulate_spec hops loops polygons hmap ops.empty
  exact ⟨out, by simp [s2UnaryUnion, hrebuild, hout], by rw [hregion, hops.empty]⟩

/-- For a family of shells with holes the result is the union of the family exactly when
every point that a hole takes from a polygon stored before it is covered by a polygon
stored after it. -/
theorem s2UnaryUnion_family_iff (hops : SetOperations ops region) (family : List (L × List L))
    (h : ∀ x ∈ shellsWithHoles family, Rebuilds ops region bounded x.1) :
    (∃ out, s2UnaryUnion ops (shellsWithHoles family) = .ok out ∧
        region out = {p | ∃ q ∈ family, Covers bounded q p}) ↔
      ∀ (p : P) (i j : ℕ) (q q' : L × List L), i < j → family[i]? = some q →
        family[j]? = some q' → Covers bounded q p → (∃ hole ∈ q'.2, p ∈ bounded hole) →
        ∃ (k : ℕ) (r : L × List L), j < k ∧ family[k]? = some r ∧ Covers bounded r p := by
  obtain ⟨out, hout, hregion⟩ := s2UnaryUnion_spec hops h
  rw [← parityFold_shellsWithHoles_eq_iff, ← hregion]
  constructor
  · rintro ⟨out', hout', hregion'⟩
    have heq : out = out' := Except.ok.inj (hout.symm.trans hout')
    rw [heq, hregion']
  · exact fun heq => ⟨out, hout, heq⟩

/-- For a valid polygon the result is the polygon's interior: the points in an odd number
of its loops. -/
theorem s2UnaryUnion_laminar (hops : SetOperations ops region) {f : Forest L}
    (hf : f.Laminar bounded) (h : ∀ loop ∈ f.members, Rebuilds ops region bounded loop) :
    ∃ out, s2UnaryUnion ops (f.preorder 0) = .ok out ∧
      region out = {p | Odd (countContaining bounded p f.members)} := by
  obtain ⟨out, hout, hregion⟩ := s2UnaryUnion_spec hops fun x hx =>
    h x.1 (Forest.mem_members_of_mem_preorder hx)
  exact ⟨out, hout, hregion.trans (parityFold_preorder hf)⟩

end Accumulate

section Squares

/-- The square from corner to corner on the diagonal, with the lower sides only. -/
structure Square where
  lo : ℤ
  hi : ℤ
  deriving DecidableEq

def Square.contains (s : Square) (p : ℤ × ℤ) : Bool :=
  decide (s.lo ≤ p.1) && decide (p.1 < s.hi) && (decide (s.lo ≤ p.2) && decide (p.2 < s.hi))

/-- Polygons as the indicator functions of their points. -/
def squareOps : PolygonOps Square (ℤ × ℤ → Bool) where
  build s := .ok s.contains
  areaExceedsHalf _ := false
  invert a p := !a p
  empty _ := false
  initToUnion a b p := a p || b p
  initToDifference a b p := a p && !b p

def indicated (a : ℤ × ℤ → Bool) : Set (ℤ × ℤ) := {p | a p = true}

theorem squareOps_setOperations : SetOperations squareOps indicated where
  empty := by
    ext p
    simp [indicated, squareOps]
  union a b := by
    ext p
    simp [indicated, squareOps]
  difference a b := by
    ext p
    simp [indicated, squareOps]

theorem squareOps_rebuilds (s : Square) :
    Rebuilds squareOps indicated (fun s => indicated s.contains) s :=
  ⟨s.contains, rfl, rfl, rfl⟩

/-- Two polygons stored so that the holes come first. -/
theorem s2UnaryUnion_family_squares :
    ∃ out, s2UnaryUnion squareOps (shellsWithHoles [(⟨0, 10⟩, [⟨2, 8⟩]), (⟨5, 15⟩, [])]) =
        .ok out ∧
      indicated out = {p | ∃ q ∈ [((⟨0, 10⟩ : Square), [(⟨2, 8⟩ : Square)]), (⟨5, 15⟩, [])],
        Covers (fun s => indicated s.contains) q p} :=
  (s2UnaryUnion_family_iff squareOps_setOperations [(⟨0, 10⟩, [⟨2, 8⟩]), (⟨5, 15⟩, [])]
    fun x _ => squareOps_rebuilds x.1).mpr (by
      rintro p i j q q' hij - hj - ⟨hole, hhole, -⟩
      match j with
      | 0 => omega
      | 1 =>
        simp only [List.getElem?_cons_succ, List.getElem?_cons_zero, Option.some.injEq] at hj
        subst hj
        simp at hhole
      | j + 2 => simp at hj)

/-- The same two polygons in the other order: the hole of the second takes away part of
the first, although the first covers it. -/
theorem s2UnaryUnion_family_not_union :
    SetOperations squareOps indicated ∧
      (∀ s, Rebuilds squareOps indicated (fun s => indicated s.contains) s) ∧
      ¬ ∃ out, s2UnaryUnion squareOps (shellsWithHoles [(⟨5, 15⟩, []), (⟨0, 10⟩, [⟨2, 8⟩])]) =
          .ok out ∧
        indicated out = {p | ∃ q ∈ [((⟨5, 15⟩ : Square), []), (⟨0, 10⟩, [(⟨2, 8⟩ : Square)])],
          Covers (fun s => indicated s.contains) q p} := by
  refine ⟨squareOps_setOperations, squareOps_rebuilds, ?_⟩
  rintro ⟨out, hout, hunion⟩
  have hcovered : ((6, 6) : ℤ × ℤ) ∈ indicated out := by
    rw [hunion]
    exact ⟨(⟨5, 15⟩, []), by simp, by simp [Covers, indicated, Square.contains]⟩
  have heq := Except.ok.inj hout
  rw [← heq] at hcovered
  revert hcovered
  simp [indicated, squareOps, Square.contains]

/-- A shell with a hole, an island in the hole, and a second shell. -/
theorem s2UnaryUnion_laminar_squares :
    ∃ out, s2UnaryUnion squareOps
        (Forest.preorder 0 (.cons ⟨0, 10⟩ (.cons ⟨2, 8⟩ (.cons ⟨4, 6⟩ .nil .nil) .nil)
          (.cons ⟨20, 30⟩ .nil .nil))) = .ok out ∧
      indicated out = {p | Odd (countContaining (fun s => indicated s.contains) p
        [(⟨0, 10⟩ : Square), ⟨2, 8⟩, ⟨4, 6⟩, ⟨20, 30⟩])} :=
  s2UnaryUnion_laminar squareOps_setOperations (by
    simp only [Forest.Laminar, Forest.roots, List.mem_singleton, List.not_mem_nil, forall_eq,
      Set.subset_def, Set.disjoint_left, indicated, Square.contains, Set.mem_ofPred_eq,
      Bool.and_eq_true, decide_eq_true_eq, false_imp_iff, implies_true, and_true]
    refine ⟨?_, ?_, ?_⟩ <;> intro p hp <;> omega) fun s _ => squareOps_rebuilds s

end Squares

end S2Geography.UnaryUnion
