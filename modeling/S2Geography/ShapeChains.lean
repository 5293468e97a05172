import Mathlib.Algebra.BigOperators.Group.List.Lemmas
import S2Geography.Shapes

/-!
# Chains

The edges of a shape come in chains, of edges that are connected end to end. A chain of a
polygon returns to where it begins. The ranges of the chains follow one another and cover the
edges; for a polygon that rests on the rule that a loop with one vertex is the full polygon.
-/
namespace S2Geography

open Exporter

/-- `S2Shape::Chain`. -/
structure Chain where
  start : ℕ
  length : ℕ
  deriving DecidableEq, Repr

/-- The edges of a chain. -/
def Shape.chainEdges (shape : Shape) (chain : Chain) : List Edge :=
  (shape.edges.drop chain.start).take chain.length

/-- Every edge begins where the one before it ends. -/
def Connected (edges : List Edge) : Prop := edges.IsChain fun e e' => e.2 = e'.1

/-- The last edge ends where the first begins. -/
def Closed (edges : List Edge) : Prop :=
  edges.getLast?.map Prod.snd = edges.head?.map Prod.fst

/-- What `s2_boundary` uses of an `S2Shape`. -/
structure ChainShape extends Shape where
  /-- `chain(0)` to `chain(num_chains() - 1)`. -/
  chains : List Chain
  length_chains : chains.length = numChains
  range_le : ∀ chain ∈ chains, chain.start + chain.length ≤ numEdges
  connected : ∀ chain ∈ chains, Connected (toShape.chainEdges chain)
  closed : dimension = 2 → ∀ chain ∈ chains, Closed (toShape.chainEdges chain)

theorem connected_take_one (edges : List Edge) : Connected (edges.take 1) := by
  cases edges with
  | nil => exact List.isChain_nil
  | cons e edges => exact List.isChain_singleton e

/-! ### Points and polylines -/

/-- `S2PointVectorShape::chain`. -/
def pointChain (i : ℕ) : Chain := ⟨i, 1⟩

def pointChainShape (points : List S2Point) : ChainShape where
  toShape := pointShape points
  chains := (List.range points.length).map pointChain
  length_chains := by simp [pointShape]
  range_le := by simp [pointChain, pointShape]
  connected := by
    intro chain hchain
    obtain ⟨i, -, rfl⟩ := List.mem_map.mp hchain
    exact connected_take_one _
  closed := fun h => absurd h (by simp [pointShape])

theorem connected_polylineEdges (vertices : List S2Point) : Connected (polylineEdges vertices) := by
  induction vertices with
  | nil => exact List.isChain_nil
  | cons vertex vertices ih =>
    cases vertices with
    | nil => exact List.isChain_nil
    | cons next vertices =>
      cases vertices with
      | nil => exact List.isChain_singleton _
      | cons after vertices => exact List.isChain_cons_cons.mpr ⟨rfl, ih⟩

/-- `S2Polyline::Shape::chain`. -/
def polylineChain (vertices : List S2Point) : Chain := ⟨0, vertices.length - 1⟩

theorem chainEdges_polylineChain (vertices : List S2Point) :
    (polylineShape vertices).chainEdges (polylineChain vertices) = polylineEdges vertices := by
  rw [Shape.chainEdges, polylineChain, List.drop_zero]
  exact List.take_of_length_le (length_polylineEdges vertices).le

def polylineChainShape (vertices : List S2Point) : ChainShape where
  toShape := polylineShape vertices
  chains := List.replicate (min 1 (vertices.length - 1)) (polylineChain vertices)
  length_chains := List.length_replicate
  range_le := by
    intro chain hchain
    rw [List.eq_of_mem_replicate hchain]
    simp [polylineChain, polylineShape]
  connected := by
    intro chain hchain
    rw [List.eq_of_mem_replicate hchain, chainEdges_polylineChain]
    exact connected_polylineEdges vertices
  closed := fun h => absurd h (by simp [polylineShape])

/-! ### Polygons -/

theorem connected_loopEdges (vertices : List S2Point) : Connected (loopEdges vertices) := by
  cases vertices with
  | nil => exact List.isChain_nil
  | cons vertex vertices =>
    rw [loopEdges_eq]
    exact connected_polylineEdges _

theorem closed_loopEdges (vertices : List S2Point) : Closed (loopEdges vertices) := by
  cases vertices with
  | nil => rfl
  | cons vertex vertices =>
    have hends : ∀ (vertex first : S2Point) (vertices : List S2Point),
        ((vertex :: vertices).zip (vertices ++ [first])).getLast?.map Prod.snd = some first := by
      intro vertex first vertices
      induction vertices generalizing vertex with
      | nil => rfl
      | cons next vertices ih =>
        obtain ⟨e, he, hfirst⟩ := Option.map_eq_some_iff.mp (ih next)
        change ((vertex, next) :: (next :: vertices).zip (vertices ++ [first])).getLast?.map
          Prod.snd = some first
        rw [List.getLast?_cons, he]
        exact congrArg some hfirst
    have hhead : (loopEdges (vertex :: vertices)).head?.map Prod.fst = some vertex := by
      cases vertices <;> rfl
    rw [Closed, hhead]
    exact hends vertex vertex vertices

/-- `loop_starts_` is used for polygons with many loops. -/
def hasLoopStarts (loops : List StoredLoop) : Bool := !isFull loops && decide (12 < loops.length)

/-- `loop_starts_[i]`: the number of vertices of the loops before. -/
def loopStart (loops : List StoredLoop) (i : ℕ) : ℕ := numVertices (loops.take i)

/-- `S2Polygon::Shape::chain`. The full loop has one vertex and no edge; without
`loop_starts_` that is said of every loop with one vertex. -/
def polygonChain (loops : List StoredLoop) (i : Fin loops.length) : Chain :=
  if hasLoopStarts loops then
    ⟨loopStart loops i, loopStart loops (i + 1) - loopStart loops i⟩
  else
    let numVertices := loops[i].1.length
    ⟨loopStart loops i, if numVertices = 1 then 0 else numVertices⟩

theorem loopStart_succ (loops : List StoredLoop) (i : Fin loops.length) :
    loopStart loops (i + 1) = loopStart loops i + loops[i].1.length := by
  rw [loopStart, loopStart, numVertices, numVertices, List.take_succ_eq_append_getElem i.isLt]
  simp

theorem loopStart_le (loops : List StoredLoop) (i : ℕ) : loopStart loops i ≤ numVertices loops := by
  refine List.Sublist.sum_le_sum ?_ fun _ _ => Nat.zero_le _
  exact (List.take_sublist i loops).map _

theorem polygonChain_start (loops : List StoredLoop) (i : Fin loops.length) :
    (polygonChain loops i).start = loopStart loops i := by
  unfold polygonChain
  split <;> rfl

/-- A chain is as long as its loop, or empty. -/
theorem polygonChain_length (loops : List StoredLoop) (i : Fin loops.length) :
    (polygonChain loops i).length = loops[i].1.length ∨
      (polygonChain loops i).length = 0 ∧ loops[i].1.length = 1 := by
  unfold polygonChain
  split
  · left
    rw [loopStart_succ]
    exact Nat.add_sub_cancel_left ..
  · by_cases hone : loops[i].1.length = 1
    · exact Or.inr ⟨if_pos hone, hone⟩
    · exact Or.inl (if_neg hone)

/-- The edges of a loop, found among those of the polygon. -/
theorem edges_of_loop {loops : List StoredLoop} (hfull : isFull loops = false)
    (i : Fin loops.length) :
    ((polygonEdges loops).drop (loopStart loops i)).take loops[i].1.length =
      loopEdges (orientedVertices loops[i]) := by
  have hedges : polygonEdges loops =
      (loops.map fun loop => loopEdges (orientedVertices loop)).flatten := by
    rw [polygonEdges, hfull, List.flatMap_def]
    rfl
  have hlengths : ((loops.map fun loop => loopEdges (orientedVertices loop)).map List.length) =
      loops.map fun loop => loop.1.length := by
    simp [length_loopEdges, length_orientedVertices]
  have hslice := List.drop_take_succ_flatten_eq_getElem
    (loops.map fun loop => loopEdges (orientedVertices loop)) i (by simp)
  rw [hlengths, ← hedges, ← List.map_take, ← List.map_take, List.getElem_map] at hslice
  refine Eq.trans ?_ hslice
  rw [List.drop_take]
  congr 1
  exact (Nat.sub_eq_of_eq_add' (loopStart_succ loops i)).symm

theorem polygonEdges_of_isFull {loops : List StoredLoop} (hfull : isFull loops = true) :
    polygonEdges loops = [] := if_pos hfull

/-- The edges of a chain are those of the loop, unless they are left out. -/
theorem chainEdges_polygonChain (loops : List StoredLoop) (i : Fin loops.length) :
    (polygonShape loops).chainEdges (polygonChain loops i) =
      if isFull loops ∨ (polygonChain loops i).length = 0 then []
      else loopEdges (orientedVertices loops[i]) := by
  rw [Shape.chainEdges, polygonChain_start]
  change ((polygonEdges loops).drop (loopStart loops i)).take (polygonChain loops i).length = _
  cases hfull : isFull loops with
  | true => simp [polygonEdges_of_isFull hfull]
  | false =>
    by_cases hzero : (polygonChain loops i).length = 0
    · simp [hzero]
    · rcases polygonChain_length loops i with hlength | ⟨hlength, -⟩
      · have hkeep : ¬(false = true ∨ (polygonChain loops i).length = 0) := by simpa using hzero
        rw [if_neg hkeep, hlength, edges_of_loop hfull i]
      · exact absurd hlength hzero

theorem isFull_cases {loops : List StoredLoop} (hfull : isFull loops = true) :
    ∃ vertex depth, loops = [([vertex], depth)] := by
  unfold isFull at hfull
  split at hfull
  · exact ⟨_, _, rfl⟩
  · exact absurd hfull Bool.false_ne_true

theorem polygonChain_le (loops : List StoredLoop) (i : Fin loops.length) :
    (polygonChain loops i).start + (polygonChain loops i).length ≤ polygonNumEdges loops := by
  rw [polygonChain_start]
  cases hfull : isFull loops with
  | true =>
    obtain ⟨vertex, depth, rfl⟩ := isFull_cases hfull
    have hi : i = ⟨0, Nat.one_pos⟩ := Fin.ext (Nat.lt_one_iff.mp i.isLt)
    subst hi
    simp [polygonChain, hasLoopStarts, hfull, loopStart, numVertices]
  | false =>
    rw [polygonNumEdges_of_not_isFull hfull]
    have hnext := loopStart_le loops (i + 1)
    rw [loopStart_succ] at hnext
    rcases polygonChain_length loops i with hlength | ⟨hlength, -⟩ <;> omega

def polygonChainShape (loops : List StoredLoop) : ChainShape where
  toShape := polygonShape loops
  chains := List.ofFn (polygonChain loops)
  length_chains := List.length_ofFn
  range_le := by
    intro chain hchain
    obtain ⟨i, rfl⟩ := List.mem_ofFn.mp hchain
    exact polygonChain_le loops i
  connected := by
    intro chain hchain
    obtain ⟨i, rfl⟩ := List.mem_ofFn.mp hchain
    rw [chainEdges_polygonChain]
    split
    · exact List.isChain_nil
    · exact connected_loopEdges _
  closed := by
    intro _ chain hchain
    obtain ⟨i, rfl⟩ := List.mem_ofFn.mp hchain
    rw [chainEdges_polygonChain]
    split
    · rfl
    · exact closed_loopEdges _

/-! ### Geographies -/

namespace Geography

mutual

/-- `Shape(0)` to `Shape(num_shapes() - 1)`, with their chains. -/
def chainShapes : Geography (List StoredLoop) → List ChainShape
  | point points => [pointChainShape points]
  | polyline polylines => polylines.map polylineChainShape
  | polygon loops => [polygonChainShape loops]
  | collection features => chainShapesAll features

def chainShapesAll : List (Geography (List StoredLoop)) → List ChainShape
  | [] => []
  | feature :: features => chainShapes feature ++ chainShapesAll features

end

mutual

theorem map_toShape_chainShapes : (geog : Geography (List StoredLoop)) →
    geog.chainShapes.map (·.toShape) = geog.shapes
  | point _ => rfl
  | polyline _ => List.map_map
  | polygon _ => rfl
  | collection features => map_toShape_chainShapesAll features

theorem map_toShape_chainShapesAll : (features : List (Geography (List StoredLoop))) →
    (chainShapesAll features).map (·.toShape) = shapesAll features
  | [] => rfl
  | feature :: features => by
    rw [chainShapesAll, List.map_append, map_toShape_chainShapes feature,
      map_toShape_chainShapesAll features]
    rfl

end

end Geography

namespace Geography

mutual

/-- Every shape is that of points, of a polyline or of a polygon of the tree. -/
theorem cases_of_mem_chainShapes {shape : ChainShape} : (geog : Geography (List StoredLoop)) →
    shape ∈ geog.chainShapes → (∃ points, shape = pointChainShape points) ∨
      (∃ vertices, shape = polylineChainShape vertices) ∨
      ∃ loops, polygon loops ∈ geog.leaves ∧ shape = polygonChainShape loops
  | point points, h => Or.inl ⟨points, List.mem_singleton.mp h⟩
  | polyline polylines, h => by
    obtain ⟨vertices, -, rfl⟩ := List.mem_map.mp h
    exact Or.inr (Or.inl ⟨vertices, rfl⟩)
  | polygon loops, h => Or.inr (Or.inr ⟨loops, List.mem_cons_self, List.mem_singleton.mp h⟩)
  | collection features, h => cases_of_mem_chainShapesAll features h

theorem cases_of_mem_chainShapesAll {shape : ChainShape} :
    (features : List (Geography (List StoredLoop))) →
    shape ∈ chainShapesAll features → (∃ points, shape = pointChainShape points) ∨
      (∃ vertices, shape = polylineChainShape vertices) ∨
      ∃ loops, polygon loops ∈ leavesAll features ∧ shape = polygonChainShape loops
  | [], h => absurd h List.not_mem_nil
  | feature :: features, h => by
    rcases List.mem_append.mp h with h | h
    · exact (cases_of_mem_chainShapes feature h).imp_right (Or.imp_right
        fun ⟨loops, hloops, hshape⟩ => ⟨loops, List.mem_append_left _ hloops, hshape⟩)
    · exact (cases_of_mem_chainShapesAll features h).imp_right (Or.imp_right
        fun ⟨loops, hloops, hshape⟩ => ⟨loops, List.mem_append_right _ hloops, hshape⟩)

end

mutual

theorem exists_of_polygon_mem_leaves {Pg Qg : Type} (f : Pg → Qg) {q : Qg} :
    (geog : Geography Pg) → polygon q ∈ (geog.mapPolygons f).leaves → ∃ p, f p = q
  | point _, h | polyline _, h => nomatch List.mem_singleton.mp h
  | polygon p, h => ⟨p, (polygon.inj (List.mem_singleton.mp h)).symm⟩
  | collection features, h => exists_of_polygon_mem_leavesAll f features h

theorem exists_of_polygon_mem_leavesAll {Pg Qg : Type} (f : Pg → Qg) {q : Qg} :
    (features : List (Geography Pg)) → polygon q ∈ leavesAll (mapPolygonsAll f features) →
      ∃ p, f p = q
  | [], h => absurd h List.not_mem_nil
  | feature :: features, h => by
    rcases List.mem_append.mp h with h | h
    · exact exists_of_polygon_mem_leaves f feature h
    · exact exists_of_polygon_mem_leavesAll f features h

end

end Geography

end S2Geography
