import Mathlib.Data.List.MinMax
import Mathlib.Order.WithBotTop
import S2Geography.MatrixPredicates

/-!
# Closest and farthest features

`s2_closest_feature` asks one query over the shapes of all features of `y`, with the feature of
`x` as its target; the distance matrix asks one query for each pair, over the shapes of `x`,
with the feature of `y` as its target. Over exact queries the feature found is at the smallest
distance of its row, and likewise for the farthest feature.
-/
namespace S2Geography

variable {G Sh δ : Type}

/-- `S1ChordAngle`: an angle, or one of the values `Negative()` and `Infinity()`. They compare
as their radians do, which are -1 and `R_PosInf` for the two. -/
abbrev S1ChordAngle (δ : Type) := WithBot (WithTop δ)

/-- `Result` of an edge query. -/
structure EdgeResult (δ : Type) where
  distance : S1ChordAngle δ
  shapeId : ℤ

def EdgeResult.isEmpty (result : EdgeResult δ) : Bool := decide (result.shapeId < 0)

/-- An edge query over the shapes of one index, to those of another. -/
abbrev EdgeQuery (Sh δ : Type) := (index target : List Sh) → EdgeResult δ

/-- The S2 calls of the distance operators. -/
structure S2Queries (G Sh δ : Type) where
  /-- `Shape(0)` to `Shape(num_shapes() - 1)`, which `Index()` holds. -/
  shapes : G → List Sh
  counts : Sh → ShapeCounts
  /-- `S2ClosestEdgeQuery::FindClosestEdge`. -/
  findClosestEdge : EdgeQuery Sh δ
  /-- `S2FurthestEdgeQuery::FindFurthestEdge`. -/
  findFurthestEdge : EdgeQuery Sh δ

namespace ClosestFeature

/-- `processFeature` of the two operators. -/
def processFeature (findEdge : EdgeQuery Sh δ) (shapes : G → List Sh) (index : GeographyIndex Sh)
    (feature : G) : Except Fault (Option ℕ) :=
  let result := findEdge index.shapes (shapes feature)
  if result.isEmpty then .ok none
  else
    match index.value result.shapeId.toNat with
    | none => .error .outOfBounds
    | some j => .ok (some (j + 1))

/-- An operator of the family: it builds its index over `geog2`, then processes `geog1`. -/
def run (findEdge : EdgeQuery Sh δ) (shapes : G → List Sh) (geog1 geog2 : List (Option G)) :
    Except Fault (List (Option ℕ)) := do
  let index ← IndexedMatrix.buildIndex shapes 0 geog2 .empty
  GeographyOperator.processVector
    (fun feature _ op => (processFeature findEdge shapes index feature, op)) none geog1 ()

end ClosestFeature

/-- `MatrixGeographyOperator::processVector`. -/
def matrixProcessVector {α : Type} (processFeature : G → G → α) (na : α)
    (geog1 geog2 : List (Option G)) : List (List α) :=
  geog1.map fun
    | none => geog2.map fun _ => na
    | some feature1 => geog2.map fun
      | none => na
      | some feature2 => processFeature feature1 feature2

section Operators

variable (lib : S2Queries G Sh δ)

def cppS2ClosestFeature := ClosestFeature.run lib.findClosestEdge lib.shapes

def cppS2FarthestFeature := ClosestFeature.run lib.findFurthestEdge lib.shapes

/-- `s2_distance`. -/
def s2Distance (geog1 geog2 : G) : S1ChordAngle δ :=
  (lib.findClosestEdge (lib.shapes geog1) (lib.shapes geog2)).distance

/-- `s2_max_distance`. -/
def s2MaxDistance (geog1 geog2 : G) : S1ChordAngle δ :=
  (lib.findFurthestEdge (lib.shapes geog1) (lib.shapes geog2)).distance

variable [LinearOrder δ] [Zero δ]

/-- `processFeature` of `cpp_s2_distance` and of `cpp_s2_distance_matrix`. -/
def distanceOrNA (feature1 feature2 : G) : Option (S1ChordAngle δ) :=
  let distance := s2Distance lib feature1 feature2
  if distance = ⊤ then none else some distance

/-- `processFeature` of `cpp_s2_max_distance` and of `cpp_s2_max_distance_matrix`. -/
def maxDistanceOrNA (feature1 feature2 : G) : Option (S1ChordAngle δ) :=
  let distance := s2MaxDistance lib feature1 feature2
  if distance < ((0 : δ) : S1ChordAngle δ) then none else some distance

def cppS2DistanceMatrix := matrixProcessVector (distanceOrNA lib) none

def cppS2MaxDistanceMatrix := matrixProcessVector (maxDistanceOrNA lib) none

end Operators

/-! ### Exact queries -/

/-- The two shapes come before all others, among the shapes that are not empty. -/
structure BestPair (isEmpty : Sh → Bool) (distance : Sh → Sh → δ) (before : δ → δ → Prop)
    (index target : List Sh) (s t : Sh) : Prop where
  left_mem : s ∈ index
  right_mem : t ∈ target
  left_nonempty : isEmpty s = false
  right_nonempty : isEmpty t = false
  before : ∀ s' ∈ index, ∀ t' ∈ target, isEmpty s' = false → isEmpty t' = false →
    before (distance s t) (distance s' t')

/-- The query finds a shape at the best distance, or nothing if there is nothing to compare. -/
structure ExactQuery (findEdge : EdgeQuery Sh δ) (isEmpty : Sh → Bool) (distance : Sh → Sh → δ)
    (before : δ → δ → Prop) (nothing : S1ChordAngle δ) : Prop where
  symmetric : ∀ s t, distance s t = distance t s
  nothing_of_empty : ∀ index target,
    (∀ s ∈ index, isEmpty s = true) ∨ (∀ t ∈ target, isEmpty t = true) →
      findEdge index target = ⟨nothing, -1⟩
  attained : ∀ index target,
    (∃ s ∈ index, isEmpty s = false) → (∃ t ∈ target, isEmpty t = false) →
      ∃ (id : ℕ) (s t : Sh), index[id]? = some s ∧
        BestPair isEmpty distance before index target s t ∧
        findEdge index target = ⟨((distance s t : δ) : S1ChordAngle δ), id⟩

/-- What the documentation says of the two queries, with the smallest and with the largest
distance of two shapes. -/
structure S2Queries.Exact [LinearOrder δ] [Zero δ] (lib : S2Queries G Sh δ)
    (minDistance maxDistance : Sh → Sh → δ) : Prop where
  closest : ExactQuery lib.findClosestEdge (fun s => (lib.counts s).isEmpty) minDistance
    (· ≤ ·) ⊤
  furthest : ExactQuery lib.findFurthestEdge (fun s => (lib.counts s).isEmpty) maxDistance
    (· ≥ ·) ⊥
  nonneg : ∀ s t, 0 ≤ maxDistance s t

namespace ClosestFeature

/-- `s2_is_empty`. -/
def IsEmptyGeog (isEmpty : Sh → Bool) (shapes : G → List Sh) (geog : G) : Prop :=
  ∀ s ∈ shapes geog, isEmpty s = true

theorem exists_of_not_isEmptyGeog {isEmpty : Sh → Bool} {shapes : G → List Sh} {geog : G}
    (h : ¬IsEmptyGeog isEmpty shapes geog) : ∃ s ∈ shapes geog, isEmpty s = false := by
  unfold IsEmptyGeog at h
  push Not at h
  obtain ⟨s, hs, hne⟩ := h
  exact ⟨s, hs, Bool.eq_false_of_not_eq_true hne⟩

variable {findEdge : EdgeQuery Sh δ} {isEmpty : Sh → Bool} {distance : Sh → Sh → δ}
  {before : δ → δ → Prop} {nothing : S1ChordAngle δ} {shapes : G → List Sh}

/-- A shape of the index leads to the feature that it belongs to. -/
theorem exists_owner {y : List G} {id : ℕ} {s : Sh}
    (hs : (IndexedMatrix.indexOf shapes y).shapes[id]? = some s) :
    ∃ j geog, (IndexedMatrix.indexOf shapes y).value id = some j ∧ y[j]? = some geog ∧
      s ∈ shapes geog := by
  obtain ⟨hlt, -⟩ := List.getElem?_eq_some_iff.mp hs
  rw [← (IndexedMatrix.indexOf shapes y).aligned] at hlt
  have hvalue : (IndexedMatrix.indexOf shapes y).value id = some _ := List.getElem?_eq_getElem hlt
  obtain ⟨geog, shape, hgeog, hshape, hfound⟩ := IndexedMatrix.exists_feature hvalue
  cases hs.symm.trans hfound
  exact ⟨_, geog, hvalue, hgeog, hshape⟩

theorem processFeature_empty {index : GeographyIndex Sh} {g : G}
    (h : findEdge index.shapes (shapes g) = ⟨nothing, -1⟩) :
    processFeature findEdge shapes index g = .ok none := by
  unfold processFeature
  rw [h]
  rfl

/-- The search in the index of all of `y` finds the feature of the best pair. -/
theorem processFeature_spec (h : ExactQuery findEdge isEmpty distance before nothing)
    (y : List G) (g : G) :
    (IsEmptyGeog isEmpty shapes g ∨ (∀ geog ∈ y, IsEmptyGeog isEmpty shapes geog)) ∧
        processFeature findEdge shapes (IndexedMatrix.indexOf shapes y) g = .ok none ∨
      ∃ j geog s t, processFeature findEdge shapes (IndexedMatrix.indexOf shapes y) g =
          .ok (some (j + 1)) ∧ y[j]? = some geog ∧ s ∈ shapes geog ∧
        BestPair isEmpty distance before (IndexedMatrix.indexOf shapes y).shapes (shapes g) s t := by
  by_cases hg : IsEmptyGeog isEmpty shapes g
  · exact Or.inl ⟨Or.inl hg, processFeature_empty (h.nothing_of_empty _ _ (Or.inr hg))⟩
  by_cases hy : ∀ geog ∈ y, IsEmptyGeog isEmpty shapes geog
  · have hindex : ∀ s ∈ (IndexedMatrix.indexOf shapes y).shapes, isEmpty s = true := by
      intro s hs
      obtain ⟨id, hid⟩ := List.mem_iff_getElem?.mp hs
      obtain ⟨j, geog, -, hgeog, hmem⟩ := exists_owner hid
      exact hy geog (List.mem_of_getElem? hgeog) s hmem
    exact Or.inl ⟨Or.inr hy, processFeature_empty (h.nothing_of_empty _ _ (Or.inl hindex))⟩
  · right
    have hindex : ∃ s ∈ (IndexedMatrix.indexOf shapes y).shapes, isEmpty s = false := by
      push Not at hy
      obtain ⟨geog, hgeog, hne⟩ := hy
      obtain ⟨s, hs, hnonempty⟩ := exists_of_not_isEmptyGeog hne
      obtain ⟨j, hj⟩ := List.mem_iff_getElem?.mp hgeog
      obtain ⟨id, hid, -⟩ := IndexedMatrix.exists_shapeId hj hs
      exact ⟨s, List.mem_of_getElem? hid, hnonempty⟩
    obtain ⟨id, s, t, hid, hbest, hfind⟩ :=
      h.attained _ _ hindex (exists_of_not_isEmptyGeog hg)
    obtain ⟨j, geog, hvalue, hgeog, hmem⟩ := exists_owner hid
    refine ⟨j, geog, s, t, ?_, hgeog, hmem, hbest⟩
    unfold processFeature
    simp [hfind, EdgeResult.isEmpty, hvalue]

/-- The query for one pair, on which the matrix is built. -/
theorem pair_spec (h : ExactQuery findEdge isEmpty distance before nothing) (g geog : G) :
    (IsEmptyGeog isEmpty shapes g ∨ IsEmptyGeog isEmpty shapes geog) ∧
        (findEdge (shapes g) (shapes geog)).distance = nothing ∨
      ¬(IsEmptyGeog isEmpty shapes g ∨ IsEmptyGeog isEmpty shapes geog) ∧
        ∃ s t, BestPair isEmpty distance before (shapes g) (shapes geog) s t ∧
          (findEdge (shapes g) (shapes geog)).distance =
            ((distance s t : δ) : S1ChordAngle δ) := by
  by_cases hempty : IsEmptyGeog isEmpty shapes g ∨ IsEmptyGeog isEmpty shapes geog
  · exact Or.inl ⟨hempty, congrArg EdgeResult.distance (h.nothing_of_empty _ _ hempty)⟩
  · right
    obtain ⟨hg, hgeog⟩ := not_or.mp hempty
    obtain ⟨id, s, t, -, hbest, hfind⟩ := h.attained (shapes g) (shapes geog)
      (exists_of_not_isEmptyGeog hg) (exists_of_not_isEmptyGeog hgeog)
    exact ⟨hempty, s, t, hbest, congrArg EdgeResult.distance hfind⟩

/-- The entries of a matrix: missing where there is nothing to compare, and otherwise the
distance of the best pair. -/
def EntriesExact (isEmpty : Sh → Bool) (distance : Sh → Sh → δ) (before : δ → δ → Prop)
    (shapes : G → List Sh) (entry : G → G → Option (S1ChordAngle δ)) : Prop :=
  ∀ g geog, (IsEmptyGeog isEmpty shapes g ∨ IsEmptyGeog isEmpty shapes geog) ∧
      entry g geog = none ∨
    ¬(IsEmptyGeog isEmpty shapes g ∨ IsEmptyGeog isEmpty shapes geog) ∧
      ∃ s t, BestPair isEmpty distance before (shapes g) (shapes geog) s t ∧
        entry g geog = some ((distance s t : δ) : S1ChordAngle δ)

/-- Every row holds the index of a feature at the best distance, or is missing if the feature
of `x` is missing or empty, or every feature of `y` is empty. -/
structure FindsBest (before : S1ChordAngle δ → S1ChordAngle δ → Prop)
    (entry : G → G → Option (S1ChordAngle δ)) (emptyGeog : G → Prop) (x : List (Option G))
    (y : List G) (out : List (Option ℕ)) : Prop where
  length_eq : out.length = x.length
  missing_iff : ∀ i : ℕ, out[i]? = some none ↔
    x[i]? = some none ∨
      ∃ g, x[i]? = some (some g) ∧ (emptyGeog g ∨ ∀ geog ∈ y, emptyGeog geog)
  attained : ∀ (i n : ℕ), out[i]? = some (some n) →
    ∃ g j geog d, x[i]? = some (some g) ∧ n = j + 1 ∧ y[j]? = some geog ∧
      entry g geog = some d ∧ ∀ geog' ∈ y, ∀ d', entry g geog' = some d' → before d d'

variable {entry : G → G → Option (S1ChordAngle δ)}
  {angleBefore : S1ChordAngle δ → S1ChordAngle δ → Prop}

/-- The best of the best pairs of a row is the best pair of the index of all. -/
theorem before_of_bestPair (hentry : EntriesExact isEmpty distance before shapes entry)
    (hsymmetric : ∀ s t, distance s t = distance t s)
    (htrans : ∀ a b c, before a b → before b c → before a c)
    (hangle : ∀ a b : δ, before a b → angleBefore (a : S1ChordAngle δ) (b : S1ChordAngle δ))
    {y : List G} {g geog : G} {s t : Sh} (hs : s ∈ shapes geog)
    (hbest : BestPair isEmpty distance before (IndexedMatrix.indexOf shapes y).shapes (shapes g)
      s t) :
    ∃ d, entry g geog = some d ∧
      ∀ geog' ∈ y, ∀ d', entry g geog' = some d' → angleBefore d d' := by
  rcases hentry g geog with ⟨hempty, -⟩ | ⟨-, s', t', hpair, hd⟩
  · rcases hempty with hempty | hempty
    · cases (hempty t hbest.right_mem).symm.trans hbest.right_nonempty
    · cases (hempty s hs).symm.trans hbest.left_nonempty
  refine ⟨_, hd, fun geog' hgeog' d' hd' => ?_⟩
  rcases hentry g geog' with ⟨-, hnone⟩ | ⟨-, s'', t'', hpair', hd''⟩
  · cases hnone.symm.trans hd'
  cases hd''.symm.trans hd'
  obtain ⟨j', hj'⟩ := List.mem_iff_getElem?.mp hgeog'
  obtain ⟨id, hid, -⟩ := IndexedMatrix.exists_shapeId hj' hpair'.right_mem
  have hfirst : before (distance s' t') (distance t s) :=
    hpair.before t hbest.right_mem s hs hbest.right_nonempty hbest.left_nonempty
  have hrest : before (distance s t) (distance t'' s'') :=
    hbest.before t'' (List.mem_of_getElem? hid) s'' hpair'.left_mem hpair'.right_nonempty
      hpair'.left_nonempty
  rw [hsymmetric t s] at hfirst
  rw [hsymmetric t'' s''] at hrest
  exact hangle _ _ (htrans _ _ _ hfirst hrest)

/-- The value of each feature of `x`: missing, or the number of the feature of `y` that has the
best pair. -/
theorem exists_value (h : ExactQuery findEdge isEmpty distance before nothing) (y : List G) :
    ∃ value : G → Option ℕ, ∀ g,
      processFeature findEdge shapes (IndexedMatrix.indexOf shapes y) g = .ok (value g) ∧
      (value g = none ↔
        IsEmptyGeog isEmpty shapes g ∨ ∀ geog ∈ y, IsEmptyGeog isEmpty shapes geog) ∧
      ∀ n, value g = some n → ∃ j geog s t, n = j + 1 ∧ y[j]? = some geog ∧ s ∈ shapes geog ∧
        BestPair isEmpty distance before (IndexedMatrix.indexOf shapes y).shapes (shapes g) s t := by
  have hvalue : ∀ g, ∃ value,
      processFeature findEdge shapes (IndexedMatrix.indexOf shapes y) g = .ok value ∧
      (value = none ↔
        IsEmptyGeog isEmpty shapes g ∨ ∀ geog ∈ y, IsEmptyGeog isEmpty shapes geog) ∧
      ∀ n, value = some n → ∃ j geog s t, n = j + 1 ∧ y[j]? = some geog ∧ s ∈ shapes geog ∧
        BestPair isEmpty distance before (IndexedMatrix.indexOf shapes y).shapes (shapes g)
          s t := by
    intro g
    rcases processFeature_spec h y g with ⟨hempty, hrun⟩ | ⟨j, geog, s, t, hrun, hj, hs, hbest⟩
    · exact ⟨none, hrun, iff_of_true rfl hempty, fun n hn => nomatch hn⟩
    · refine ⟨some (j + 1), hrun, iff_of_false (Option.some_ne_none _) ?_, ?_⟩
      · rintro (hempty | hempty)
        · cases (hempty t hbest.right_mem).symm.trans hbest.right_nonempty
        · cases (hempty geog (List.mem_of_getElem? hj) s hs).symm.trans hbest.left_nonempty
      · intro n hn
        exact ⟨j, geog, s, t, (Option.some.inj hn).symm, hj, hs, hbest⟩
  choose value hvalue using hvalue
  exact ⟨value, hvalue⟩

theorem run_findsBest (h : ExactQuery findEdge isEmpty distance before nothing)
    (hentry : EntriesExact isEmpty distance before shapes entry)
    (htrans : ∀ a b c, before a b → before b c → before a c)
    (hangle : ∀ a b : δ, before a b → angleBefore (a : S1ChordAngle δ) (b : S1ChordAngle δ))
    (x : List (Option G)) (y : List G) :
    ∃ out, run findEdge shapes x (y.map some) = .ok out ∧
      FindsBest angleBefore entry (IsEmptyGeog isEmpty shapes) x y out := by
  obtain ⟨value, hvalue⟩ := exists_value h y
  have hrun : run findEdge shapes x (y.map some) = .ok (x.map fun row => row.elim none value) := by
    unfold run
    rw [IndexedMatrix.buildIndex_eq]
    exact GeographyOperator.processVector_eq_map value fun g _ _ => (hvalue g).1
  refine ⟨_, hrun, List.length_map _, ?_, ?_⟩
  · intro i
    rw [List.getElem?_map]
    cases x[i]? with
    | none => simp
    | some item =>
      cases item with
      | none => simp
      | some g => simpa using (hvalue g).2.1
  · intro i n hi
    rw [List.getElem?_map, Option.map_eq_some_iff] at hi
    obtain ⟨item, hitem, hn⟩ := hi
    cases item with
    | none => cases hn
    | some g =>
      obtain ⟨j, geog, s, t, hj, hgeog, hs, hbest⟩ := (hvalue g).2.2 n hn
      obtain ⟨d, hd, hbefore⟩ := before_of_bestPair hentry h.symmetric htrans hangle hs hbest
      exact ⟨g, j, geog, d, hitem, hj, hgeog, hd, hbefore⟩

/-! ### Rows of a matrix -/

/-- Every number is that of a column with the best entry of its row, or missing if there is no
entry in the row. -/
structure SelectsColumns (before : S1ChordAngle δ → S1ChordAngle δ → Prop)
    (matrix : List (List (Option (S1ChordAngle δ)))) (out : List (Option ℕ)) : Prop where
  length_eq : out.length = matrix.length
  missing_iff : ∀ (i : ℕ) row, matrix[i]? = some row →
    (out[i]? = some none ↔ ∀ d ∈ row, d = none)
  attained : ∀ (i : ℕ) row n, matrix[i]? = some row → out[i]? = some (some n) →
    ∃ j d, n = j + 1 ∧ row[j]? = some (some d) ∧ ∀ d', some d' ∈ row → before d d'

theorem getElem?_matrixProcessVector {α : Type} (processFeature : G → G → α) (na : α)
    (x : List (Option G)) (y : List G) (i : ℕ) :
    (matrixProcessVector processFeature na x (y.map some))[i]? =
      x[i]?.map fun item => y.map fun geog => item.elim na fun g => processFeature g geog := by
  rw [matrixProcessVector, List.getElem?_map]
  congr 1
  funext item
  cases item <;> simp [Function.comp_def]

theorem FindsBest.selectsColumns {x : List (Option G)} {y : List G} {out : List (Option ℕ)}
    (h : FindsBest angleBefore entry (IsEmptyGeog isEmpty shapes) x y out)
    (hentry : ∀ g geog, entry g geog = none ↔
      IsEmptyGeog isEmpty shapes g ∨ IsEmptyGeog isEmpty shapes geog) :
    SelectsColumns angleBefore (matrixProcessVector entry none x (y.map some)) out where
  length_eq := by rw [h.length_eq, matrixProcessVector, List.length_map]
  missing_iff i row hrow := by
    rw [getElem?_matrixProcessVector, Option.map_eq_some_iff] at hrow
    obtain ⟨item, hitem, rfl⟩ := hrow
    rw [h.missing_iff i, hitem]
    cases item with
    | none => simp
    | some g => simp [hentry, forall_or_left]
  attained i row n hrow hn := by
    obtain ⟨g, j, geog, d, hg, rfl, hj, hd, hbest⟩ := h.attained i n hn
    rw [getElem?_matrixProcessVector, hg] at hrow
    cases hrow
    refine ⟨j, d, rfl, by simp [hj, hd], fun d' hd' => ?_⟩
    obtain ⟨geog', hgeog', heq⟩ := List.mem_map.mp hd'
    exact hbest geog' hgeog' d' heq

theorem EntriesExact.eq_none_iff (h : EntriesExact isEmpty distance before shapes entry)
    (g geog : G) : entry g geog = none ↔
      IsEmptyGeog isEmpty shapes g ∨ IsEmptyGeog isEmpty shapes geog := by
  rcases h g geog with ⟨hempty, hnone⟩ | ⟨hempty, s, t, -, hsome⟩
  · exact iff_of_true hnone hempty
  · rw [hsome]
    exact iff_of_false (Option.some_ne_none _) hempty

end ClosestFeature

section Agreement

open ClosestFeature

variable [LinearOrder δ] [Zero δ] {lib : S2Queries G Sh δ} {minDistance maxDistance : Sh → Sh → δ}

/-- `s2_is_empty`. -/
def S2Queries.IsEmpty (lib : S2Queries G Sh δ) : G → Prop :=
  IsEmptyGeog (fun s => (lib.counts s).isEmpty) lib.shapes

theorem entriesExact_distance (h : lib.Exact minDistance maxDistance) :
    EntriesExact (fun s => (lib.counts s).isEmpty) minDistance (· ≤ ·) lib.shapes
      (distanceOrNA lib) := by
  intro g geog
  refine (pair_spec h.closest g geog).imp (fun ⟨hempty, hfind⟩ => ⟨hempty, ?_⟩)
    fun ⟨hempty, s, t, hbest, hfind⟩ => ⟨hempty, s, t, hbest, ?_⟩
  · exact if_pos hfind
  · have hne : s2Distance lib g geog ≠ ⊤ := by
      rw [s2Distance, hfind]
      exact fun htop => WithTop.coe_ne_top (WithBot.coe_injective htop)
    exact (if_neg hne).trans (congrArg some hfind)

theorem entriesExact_maxDistance (h : lib.Exact minDistance maxDistance) :
    EntriesExact (fun s => (lib.counts s).isEmpty) maxDistance (· ≥ ·) lib.shapes
      (maxDistanceOrNA lib) := by
  intro g geog
  refine (pair_spec h.furthest g geog).imp (fun ⟨hempty, hfind⟩ => ⟨hempty, ?_⟩)
    fun ⟨hempty, s, t, hbest, hfind⟩ => ⟨hempty, s, t, hbest, ?_⟩
  · have hlt : s2MaxDistance lib g geog < ((0 : δ) : S1ChordAngle δ) := by
      rw [s2MaxDistance, hfind]
      exact WithBot.bot_lt_coe _
    exact if_pos hlt
  · have hle : ¬s2MaxDistance lib g geog < ((0 : δ) : S1ChordAngle δ) := by
      rw [s2MaxDistance, hfind, not_lt]
      exact WithBot.coe_le_coe.mpr (WithTop.coe_le_coe.mpr (h.nonneg s t))
    exact (if_neg hle).trans (congrArg some hfind)

/-- The closest and the farthest feature are at the smallest and at the largest distance of
their rows, one by one and in the distance matrices. -/
theorem closest_farthest_feature (h : lib.Exact minDistance maxDistance) (x : List (Option G))
    (y : List G) :
    (∃ out, cppS2ClosestFeature lib x (y.map some) = .ok out ∧
      FindsBest (· ≤ ·) (distanceOrNA lib) lib.IsEmpty x y out ∧
      SelectsColumns (· ≤ ·) (cppS2DistanceMatrix lib x (y.map some)) out) ∧
    ∃ out, cppS2FarthestFeature lib x (y.map some) = .ok out ∧
      FindsBest (· ≥ ·) (maxDistanceOrNA lib) lib.IsEmpty x y out ∧
      SelectsColumns (· ≥ ·) (cppS2MaxDistanceMatrix lib x (y.map some)) out := by
  have hcoe : ∀ a b : δ, a ≤ b → (a : S1ChordAngle δ) ≤ (b : S1ChordAngle δ) := fun a b hab =>
    WithBot.coe_le_coe.mpr (WithTop.coe_le_coe.mpr hab)
  have hcoe' : ∀ a b : δ, a ≥ b → (a : S1ChordAngle δ) ≥ (b : S1ChordAngle δ) := fun a b hab =>
    hcoe b a hab
  constructor
  · have hentry := entriesExact_distance h
    obtain ⟨out, hrun, hbest⟩ := run_findsBest h.closest hentry
      (fun _ _ _ => le_trans) hcoe x y
    exact ⟨out, hrun, hbest, hbest.selectsColumns hentry.eq_none_iff⟩
  · have hentry := entriesExact_maxDistance h
    obtain ⟨out, hrun, hbest⟩ := run_findsBest h.furthest hentry
      (fun _ _ _ hab hbc => le_trans hbc hab) hcoe' x y
    exact ⟨out, hrun, hbest, hbest.selectsColumns hentry.eq_none_iff⟩

end Agreement

/-! ### A search over all pairs -/

section AllPairs

variable (isEmpty : Sh → Bool) (distance : Sh → Sh → δ)

/-- The shapes of the index that are not empty, by number, with those of the target. -/
def shapePairs (index target : List Sh) : List (ℕ × Sh × Sh) :=
  (index.zipIdx.flatMap fun s => target.map fun t => (s.2, s.1, t)).filter fun p =>
    !isEmpty p.2.1 && !isEmpty p.2.2

/-- The query that takes the best of all pairs. -/
def searchPairs (best : List (ℕ × Sh × Sh) → Option (ℕ × Sh × Sh)) (nothing : S1ChordAngle δ) :
    EdgeQuery Sh δ := fun index target =>
  match best (shapePairs isEmpty index target) with
  | none => ⟨nothing, -1⟩
  | some (id, s, t) => ⟨((distance s t : δ) : S1ChordAngle δ), id⟩

variable {isEmpty} {distance}

theorem mem_shapePairs {index target : List Sh} {id : ℕ} {s t : Sh} :
    (id, s, t) ∈ shapePairs isEmpty index target ↔
      index[id]? = some s ∧ t ∈ target ∧ isEmpty s = false ∧ isEmpty t = false := by
  simp only [shapePairs, List.mem_filter, List.mem_flatMap, List.mem_map, Prod.exists,
    Prod.mk.injEq, List.mem_zipIdx_iff_getElem?, Bool.and_eq_true, Bool.not_eq_true']
  constructor
  · rintro ⟨⟨s', id', hs, t', ht, rfl, rfl, rfl⟩, hempty⟩
    exact ⟨hs, ht, hempty⟩
  · rintro ⟨hs, ht, hempty⟩
    exact ⟨⟨s, id, hs, t, ht, rfl, rfl, rfl⟩, hempty⟩

theorem exactQuery_searchPairs {best : List (ℕ × Sh × Sh) → Option (ℕ × Sh × Sh)}
    {before : δ → δ → Prop} {nothing : S1ChordAngle δ}
    (hsymmetric : ∀ s t, distance s t = distance t s)
    (hnone : ∀ pairs, best pairs = none ↔ pairs = [])
    (hbest : ∀ pairs p, best pairs = some p → p ∈ pairs ∧
      ∀ p' ∈ pairs, before (distance p.2.1 p.2.2) (distance p'.2.1 p'.2.2)) :
    ExactQuery (searchPairs isEmpty distance best nothing) isEmpty distance before nothing where
  symmetric := hsymmetric
  nothing_of_empty index target hempty := by
    have hpairs : shapePairs isEmpty index target = [] := by
      apply List.eq_nil_iff_forall_not_mem.mpr
      rintro ⟨id, s, t⟩ hmem
      obtain ⟨hs, ht, hs', ht'⟩ := mem_shapePairs.mp hmem
      rcases hempty with hempty | hempty
      · cases (hempty s (List.mem_of_getElem? hs)).symm.trans hs'
      · cases (hempty t ht).symm.trans ht'
    rw [searchPairs, (hnone _).mpr hpairs]
  attained index target hindex htarget := by
    obtain ⟨s, hs, hs'⟩ := hindex
    obtain ⟨t, ht, ht'⟩ := htarget
    obtain ⟨id, hid⟩ := List.mem_iff_getElem?.mp hs
    have hmem := mem_shapePairs.mpr ⟨hid, ht, hs', ht'⟩
    cases hfound : best (shapePairs isEmpty index target) with
    | none =>
      rw [(hnone _).mp hfound] at hmem
      exact absurd hmem List.not_mem_nil
    | some p =>
      obtain ⟨id, s, t⟩ := p
      obtain ⟨hp, hbefore⟩ := hbest _ _ hfound
      obtain ⟨hs, ht, hs', ht'⟩ := mem_shapePairs.mp hp
      refine ⟨id, s, t, hs, ⟨List.mem_of_getElem? hs, ht, hs', ht', ?_⟩, ?_⟩
      · intro s' hs' t' ht' hs'' ht''
        obtain ⟨id', hid'⟩ := List.mem_iff_getElem?.mp hs'
        exact hbefore _ (mem_shapePairs.mpr ⟨hid', ht', hs'', ht''⟩)
      · rw [searchPairs, hfound]

end AllPairs

/-- Degrees between two points of a meridian, if there are two. -/
def degreesBetween : Option ℤ → Option ℤ → ℕ
  | some p, some q => (p - q).natAbs
  | _, _ => 0

theorem degreesBetween_comm (s t : Option ℤ) : degreesBetween s t = degreesBetween t s := by
  cases s with
  | none => cases t <;> rfl
  | some p =>
    cases t with
    | none => rfl
    | some q =>
      change (p - q).natAbs = (q - p).natAbs
      rw [← Int.natAbs_neg, neg_sub]

/-- Collections of points on a meridian, and of empty points. -/
def meridianQueries : S2Queries (List (Option ℤ)) (Option ℤ) ℕ where
  shapes := id
  counts point := ⟨0, point.toList.length, point.toList.length⟩
  findClosestEdge := searchPairs Option.isNone degreesBetween
    (List.argmin fun p => degreesBetween p.2.1 p.2.2) ⊤
  findFurthestEdge := searchPairs Option.isNone degreesBetween
    (List.argmax fun p => degreesBetween p.2.1 p.2.2) ⊥

theorem exact_meridianQueries : meridianQueries.Exact degreesBetween degreesBetween := by
  have hempty : (fun s => (meridianQueries.counts s).isEmpty) = Option.isNone := by
    funext s
    cases s <;> rfl
  refine ⟨?_, ?_, ?_⟩
  · rw [hempty]
    exact exactQuery_searchPairs degreesBetween_comm (fun _ => List.argmin_eq_none)
      fun pairs p hp => ⟨List.argmin_mem hp, fun p' hp' => List.le_of_mem_argmin hp' hp⟩
  · rw [hempty]
    exact exactQuery_searchPairs degreesBetween_comm (fun _ => List.argmax_eq_none)
      fun pairs p hp => ⟨List.argmax_mem hp, fun p' hp' => List.le_of_mem_argmax hp' hp⟩
  · intro s t
    cases s <;> cases t <;> simp [degreesBetween]

theorem closest_farthest_feature_meridian :
    ∃ out, cppS2FarthestFeature meridianQueries [some [some 0], none, some [none]]
        ([[none], [some 30, some 5], [some 20]].map some) = .ok out ∧
      ClosestFeature.SelectsColumns (· ≥ ·) (cppS2MaxDistanceMatrix meridianQueries
        [some [some 0], none, some [none]]
        ([[none], [some 30, some 5], [some 20]].map some)) out := by
  obtain ⟨-, out, hrun, -, hselects⟩ := closest_farthest_feature exact_meridianQueries
    [some [some 0], none, some [none]] [[none], [some 30, some 5], [some 20]]
  exact ⟨out, hrun, hselects⟩

example : cppS2ClosestFeature meridianQueries [some [some 0], none, some [none]]
    [some [none], some [some 30, some 5], some [some 20]] = .ok [some 2, none, none] := by
  rfl

example : cppS2DistanceMatrix meridianQueries [some [some 0], none, some [none]]
    [some [none], some [some 30, some 5], some [some 20]] =
      [[none, some ((5 : ℕ) : S1ChordAngle ℕ), some ((20 : ℕ) : S1ChordAngle ℕ)],
        [none, none, none], [none, none, none]] := by
  rfl

end S2Geography
