import S2Geography.GeographyIndex
import S2Geography.Predicates
import Mathlib.Data.List.Sort
import Mathlib.Order.Basic

/-!
# Predicate matrices

A matrix operator returns, for every feature of `x`, the 1-based indices of the features
of `y` that match it. The indexed operators look for candidates with a covering of the
feature first, in an unordered set, and then filter and sort them. The brute force
operators test every pair.
-/
namespace S2Geography

variable {G Sh R δ P : Type}

/-- The order in which an `unordered_set<int>` is traversed: any, but each element once. In
reality it may also depend on how the elements were inserted; the indices are sorted afterwards,
so that makes no difference. -/
structure UnorderedSet where
  traverse : Finset ℕ → List ℕ
  nodup : ∀ s, (traverse s).Nodup
  mem_traverse : ∀ s j, j ∈ traverse s ↔ j ∈ s

/-- What an indexed operator uses of S2 besides the predicates: the cells of the index of
a list of shapes, and the covering of a geography's region. -/
structure S2Matrix (G Sh R δ : Type) extends S2Predicates G Sh R δ where
  indexShapes : (maxEdgesPerCell : ℤ) → List Sh → CellMap
  covering : (maxFeatureCells : ℤ) → G → List S2CellId

/-- The constructor arguments of an `IndexedMatrixPredicateOperator`. -/
structure IndexedOptions where
  maxFeatureCells : ℤ := 4
  maxEdgesPerCell : ℤ := 50

namespace IndexedMatrix

/-- `IndexedBinaryGeographyOperator::buildIndex`, from row `j` on. -/
def buildIndex (shapes : G → List Sh) :
    ℕ → List (Option G) → GeographyIndex Sh → Except Fault (GeographyIndex Sh)
  | _, [], index => .ok index
  | _, none :: _, _ => .error (.stop "Missing `y` not allowed in binary indexed operators()")
  | j, some feature2 :: geog2, index =>
    buildIndex shapes (j + 1) geog2 (index.add (shapes feature2) j)

/-- The members that a row overwrites. -/
structure Scratch where
  cellIds : List S2CellId := []
  indicesUnsorted : Finset ℕ := ∅
  indices : List ℕ := []

/-- The loop over the candidates. -/
def filterCandidates (geog2 : List (Option G)) (actuallyIntersects : G → Bool) :
    List ℕ → List ℕ → Except Fault (List ℕ)
  | [], indices => .ok indices
  | j :: js, indices =>
    match geog2[j]? with
    | none => .error .outOfBounds
    | some none => .error .nullDereference
    | some (some feature2) =>
      filterCandidates geog2 actuallyIntersects js
        (if actuallyIntersects feature2 then indices ++ [j + 1] else indices)

/-- `processFeature` of the indexed operators, which differ in the covering and the test. -/
def processFeature (set : UnorderedSet) (index : GeographyIndex Sh) (cells : CellMap)
    (covering : G → List S2CellId) (geog2 : List (Option G))
    (actuallyIntersects : G → G → Bool) (feature : G) (_ : ℕ) (s : Scratch) :
    Except Fault (Option (List ℕ)) × Scratch :=
  let cellIds := covering feature
  match index.query cells cellIds ∅ with
  | .error fault => (.error fault, { s with cellIds := cellIds })
  | .ok indicesUnsorted =>
    match filterCandidates geog2 (actuallyIntersects feature) (set.traverse indicesUnsorted) [] with
    | .error fault =>
      (.error fault, { s with cellIds := cellIds, indicesUnsorted := indicesUnsorted })
    | .ok indices =>
      let sorted := indices.mergeSort (· ≤ ·)
      (.ok (some sorted), ⟨cellIds, indicesUnsorted, sorted⟩)

/-- An indexed operator: it builds its index over `geog2`, then processes `geog1`. -/
def run (set : UnorderedSet) (shapes : G → List Sh) (indexShapes : List Sh → CellMap)
    (covering : G → List S2CellId) (actuallyIntersects : G → G → Bool)
    (geog1 geog2 : List (Option G)) : Except Fault (List (Option (List ℕ))) :=
  match buildIndex shapes 0 geog2 .empty with
  | .error fault => .error fault
  | .ok index =>
    GeographyOperator.processVector (processFeature set index (indexShapes index.shapes) covering
      geog2 actuallyIntersects) none geog1 {}

end IndexedMatrix

section Operators

variable (lib : S2Matrix G Sh R δ) (set : UnorderedSet) (k : IndexedOptions)
  (options : BooleanOptions R)

/-- An `IndexedMatrixPredicateOperator`. The exported operators use the default `k`. -/
def indexedMatrixPredicateOperator (actuallyIntersects : G → G → Bool) :=
  IndexedMatrix.run set lib.shapes (lib.indexShapes k.maxEdgesPerCell)
    (lib.covering k.maxFeatureCells) actuallyIntersects

def cppS2ContainsMatrix :=
  indexedMatrixPredicateOperator lib set k fun index1 index2 =>
    s2Contains lib.toS2Predicates options index1 index2

/-- Note reversed `index2, index1`. -/
def cppS2WithinMatrix :=
  indexedMatrixPredicateOperator lib set k fun index1 index2 =>
    s2Contains lib.toS2Predicates options index2 index1

def cppS2IntersectsMatrix :=
  indexedMatrixPredicateOperator lib set k fun index1 index2 =>
    s2Intersects lib.toS2Predicates options index1 index2

def cppS2EqualsMatrix :=
  indexedMatrixPredicateOperator lib set k fun index1 index2 =>
    s2Equals lib.toS2Predicates options index1 index2

def cppS2TouchesMatrix :=
  indexedMatrixPredicateOperator lib set k fun index1 index2 =>
    s2Touches lib.toS2Predicates options index1 index2

/-- Here the query's index is the one of the first feature. The covering has the default
options of the coverer. -/
def cppS2DwithinMatrix (distance : δ) :=
  IndexedMatrix.run set lib.shapes (lib.indexShapes k.maxEdgesPerCell)
    (fun feature1 => lib.bufferedCovering feature1 distance)
    (fun feature1 feature2 => lib.isDistanceLessOrEqual feature1 feature2 distance)

end Operators

namespace BruteForceMatrix

/-- The loop over `geog2`, from `j` on. -/
def row (result : G → Bool) : ℕ → List (Option G) → List ℕ → Except Fault (List ℕ)
  | _, [], trueIndices => .ok trueIndices
  | _, none :: _, _ => .error (.stop "Missing `y` not allowed in binary index operations")
  | j, some feature2 :: geog2, trueIndices =>
    row result (j + 1) geog2 (if result feature2 then trueIndices ++ [j + 1] else trueIndices)

/-- `BruteForceMatrixPredicateOperator::processVector`. -/
def processVector (processFeature : G → G → Bool) (geog2 : List (Option G)) :
    List (Option G) → Except Fault (List (Option (List ℕ)))
  | [] => .ok []
  | none :: geog1 =>
    match processVector processFeature geog2 geog1 with
    | .ok output => .ok (none :: output)
    | .error fault => .error fault
  | some feature1 :: geog1 =>
    match row (processFeature feature1) 0 geog2 [] with
    | .error fault => .error fault
    | .ok itemOut =>
      match processVector processFeature geog2 geog1 with
      | .ok output => .ok (some itemOut :: output)
      | .error fault => .error fault

end BruteForceMatrix

section BruteForceOperators

variable (lib : S2Matrix G Sh R δ) (options : BooleanOptions R)

def cppS2ContainsMatrixBruteForce (geog1 geog2 : List (Option G)) :=
  BruteForceMatrix.processVector (s2Contains lib.toS2Predicates options) geog2 geog1

/-- Note reversed `index2, index1`. -/
def cppS2WithinMatrixBruteForce (geog1 geog2 : List (Option G)) :=
  BruteForceMatrix.processVector
    (fun feature1 feature2 => s2Contains lib.toS2Predicates options feature2 feature1)
    geog2 geog1

def cppS2IntersectsMatrixBruteForce (geog1 geog2 : List (Option G)) :=
  BruteForceMatrix.processVector (s2Intersects lib.toS2Predicates options) geog2 geog1

def cppS2DisjointMatrixBruteForce (geog1 geog2 : List (Option G)) :=
  BruteForceMatrix.processVector
    (fun feature1 feature2 => !s2Intersects lib.toS2Predicates options feature1 feature2)
    geog2 geog1

def cppS2EqualsMatrixBruteForce (geog1 geog2 : List (Option G)) :=
  BruteForceMatrix.processVector (s2Equals lib.toS2Predicates options) geog2 geog1

def cppS2DwithinMatrixBruteForce (distance : δ) (geog1 geog2 : List (Option G)) :=
  BruteForceMatrix.processVector
    (fun feature1 feature2 => lib.isDistanceLessOrEqual feature2 feature1 distance) geog2 geog1

end BruteForceOperators

/-- The 1-based indices of the positions with a property, in increasing order. -/
structure IncreasingIndices (p : ℕ → Prop) (js : List ℕ) : Prop where
  increasing : js.Pairwise (· < ·)
  mem_iff : ∀ k, k ∈ js ↔ ∃ j, k = j + 1 ∧ p j

/-- One row for each feature of `x`: NULL if it is missing, and otherwise the indices of
the positions of `y` that it is related to. -/
structure MatchesRows (rel : G → ℕ → Prop) (x : List (Option G))
    (out : List (Option (List ℕ))) : Prop where
  length_eq : out.length = x.length
  missing : ∀ i : ℕ, x[i]? = some none → out[i]? = some none
  row : ∀ (i : ℕ) (g : G), x[i]? = some (some g) →
    ∃ js, out[i]? = some (some js) ∧ IncreasingIndices (rel g) js

/-- The feature of `x` matches the feature of `y` at the position, as a pairwise predicate
has it. -/
def MatchesAt (pairwise : G → G → Prop) (y : List G) (g : G) (j : ℕ) : Prop :=
  ∃ h, y[j]? = some h ∧ pairwise g h

theorem IncreasingIndices.unique {p q : ℕ → Prop} {js ks : List ℕ} (hj : IncreasingIndices p js)
    (hk : IncreasingIndices q ks) : js = ks ↔ ∀ j, p j ↔ q j := by
  have hmem : js = ks ↔ ∀ k, k ∈ js ↔ k ∈ ks := by
    refine ⟨fun h => by simp [h], fun h => ?_⟩
    exact (List.perm_ext_iff_of_nodup (hj.increasing.imp ne_of_lt)
      (hk.increasing.imp ne_of_lt)).mpr h |>.eq_of_pairwise
        (fun a b _ _ hab hba => absurd hba (lt_asymm hab)) hj.increasing hk.increasing
  rw [hmem]
  constructor
  · intro h j
    have hj1 := h (j + 1)
    rw [hj.mem_iff, hk.mem_iff] at hj1
    simpa using hj1
  · intro h k
    rw [hj.mem_iff, hk.mem_iff]
    simp [h]

/-- The rows determine the matrix. -/
theorem MatchesRows.eq_iff {rel rel' : G → ℕ → Prop} {x : List (Option G)}
    {out out' : List (Option (List ℕ))} (h : MatchesRows rel x out)
    (h' : MatchesRows rel' x out') :
    out = out' ↔ ∀ g, some g ∈ x → ∀ j, rel g j ↔ rel' g j := by
  constructor
  · rintro rfl g hg
    obtain ⟨i, hi⟩ := List.mem_iff_getElem?.mp hg
    obtain ⟨js, hjs, hrow⟩ := h.row i g hi
    obtain ⟨ks, hks, hrow'⟩ := h'.row i g hi
    have heq : js = ks := by
      rw [hjs] at hks
      simpa using hks
    exact (hrow.unique hrow').mp heq
  · intro hrel
    apply List.ext_getElem?
    intro i
    cases hi : x[i]? with
    | none =>
      have hle := List.getElem?_eq_none_iff.mp hi
      rw [List.getElem?_eq_none (h.length_eq ▸ hle), List.getElem?_eq_none (h'.length_eq ▸ hle)]
    | some row =>
      cases row with
      | none => rw [h.missing i hi, h'.missing i hi]
      | some g =>
        obtain ⟨js, hjs, hrow⟩ := h.row i g hi
        obtain ⟨ks, hks, hrow'⟩ := h'.row i g hi
        rw [hjs, hks, (hrow.unique hrow').mpr (hrel g (List.mem_of_getElem? hi))]

theorem MatchesRows.congr {rel rel' : G → ℕ → Prop} {x : List (Option G)}
    {out : List (Option (List ℕ))} (h : MatchesRows rel x out)
    (hrel : ∀ g j, rel g j ↔ rel' g j) : MatchesRows rel' x out := by
  have heq : rel = rel' := by
    funext g j
    exact propext (hrel g j)
  exact heq ▸ h

namespace BruteForceMatrix

/-- The indices the loop over a row collects. -/
theorem row_eq (result : G → Bool) (y : List G) (j : ℕ) (trueIndices : List ℕ) :
    row result j (y.map some) trueIndices =
      .ok (trueIndices ++ ((y.zipIdx j).filter fun p => result p.1).map fun p => p.2 + 1) := by
  induction y generalizing j trueIndices with
  | nil => simp [row]
  | cons h y ih =>
    rw [List.map_cons, row, ih, List.zipIdx_cons]
    by_cases hr : result h = true
    · simp [hr]
    · simp [hr]

theorem row_increasing (result : G → Bool) (y : List G) :
    ∃ js, row result 0 (y.map some) [] = .ok js ∧
      IncreasingIndices (fun j => ∃ h, y[j]? = some h ∧ result h = true) js := by
  refine ⟨_, row_eq result y 0 [], ?_, ?_⟩
  · rw [List.nil_append, List.pairwise_map]
    refine List.Pairwise.filter _ ?_
    have hord : ((y.zipIdx 0).map Prod.snd).Pairwise (· < ·) := by
      rw [List.zipIdx_map_snd]
      exact List.pairwise_lt_range'
    exact (List.pairwise_map.mp hord).imp (fun h => Nat.succ_lt_succ h)
  · intro k
    simp only [List.nil_append, List.mem_map, List.mem_filter, Prod.exists,
      List.mem_zipIdx_iff_getElem?]
    constructor
    · rintro ⟨h, j, ⟨hj, hr⟩, rfl⟩
      exact ⟨j, rfl, h, hj, hr⟩
    · rintro ⟨j, rfl, h, hj, hr⟩
      exact ⟨h, j, ⟨hj, hr⟩, rfl⟩

/-- The brute force operators return the matching rows. -/
theorem processVector_matches (processFeature : G → G → Bool) (x : List (Option G))
    (y : List G) :
    ∃ out, processVector processFeature (y.map some) x = .ok out ∧
      MatchesRows (MatchesAt (fun g h => processFeature g h = true) y) x out := by
  induction x with
  | nil => exact ⟨[], rfl, rfl, by simp, by simp⟩
  | cons item x ih =>
    obtain ⟨out, hout, hlen, hmissing, hrow⟩ := ih
    cases item with
    | none =>
      refine ⟨none :: out, by simp [processVector, hout], by simp [hlen], ?_, ?_⟩
      · intro i hi
        cases i with
        | zero => rfl
        | succ i => simpa using hmissing i (by simpa using hi)
      · intro i g hi
        cases i with
        | zero => simp at hi
        | succ i => simpa using hrow i g (by simpa using hi)
    | some g =>
      obtain ⟨js, hjs, hinc⟩ := row_increasing (processFeature g) y
      refine ⟨some js :: out, by simp [processVector, hjs, hout], by simp [hlen], ?_, ?_⟩
      · intro i hi
        cases i with
        | zero => simp at hi
        | succ i => simpa using hmissing i (by simpa using hi)
      · intro i g' hi
        cases i with
        | zero =>
          simp only [List.getElem?_cons_zero, Option.some.injEq] at hi
          subst hi
          exact ⟨js, rfl, hinc⟩
        | succ i => simpa using hrow i g' (by simpa using hi)

end BruteForceMatrix

namespace IndexedMatrix

theorem buildIndex_eq (shapes : G → List Sh) (y : List G) (j : ℕ)
    (index : GeographyIndex Sh) :
    buildIndex shapes j (y.map some) index =
      .ok (index.addAll ((y.zipIdx j).map fun p => (shapes p.1, p.2))) := by
  induction y generalizing j index with
  | nil => rfl
  | cons h y ih =>
    rw [List.map_cons, buildIndex, ih, List.zipIdx_cons]
    rfl

/-- The index over a vector without missing values. -/
def indexOf (shapes : G → List Sh) (y : List G) : GeographyIndex Sh :=
  GeographyIndex.empty.addAll ((y.zipIdx 0).map fun p => (shapes p.1, p.2))

theorem mem_zip_indexOf (shapes : G → List Sh) (y : List G) (shape : Sh) (j : ℕ) :
    (shape, j) ∈ (indexOf shapes y).shapes.zip (indexOf shapes y).values ↔
      ∃ h, y[j]? = some h ∧ shape ∈ shapes h := by
  rw [indexOf, GeographyIndex.addAll_zip]
  simp only [GeographyIndex.empty, List.zip_nil_left, List.nil_append, List.mem_flatMap,
    List.mem_map, Prod.mk.injEq, Prod.exists, List.mem_zipIdx_iff_getElem?]
  constructor
  · rintro ⟨_, _, ⟨h, j, hj, rfl, rfl⟩, _, hs, rfl, rfl⟩
    exact ⟨h, hj, hs⟩
  · rintro ⟨h, hj, hs⟩
    exact ⟨_, _, ⟨h, j, hj, rfl, rfl⟩, shape, hs, rfl, rfl⟩

/-- Every shape of a feature has an id that carries the feature's position. -/
theorem exists_shapeId {shapes : G → List Sh} {y : List G} {j : ℕ} {h : G} {shape : Sh}
    (hj : y[j]? = some h) (hs : shape ∈ shapes h) :
    ∃ shapeId : ℕ, (indexOf shapes y).shapes[shapeId]? = some shape ∧
      (indexOf shapes y).value shapeId = some j := by
  have hmem := (mem_zip_indexOf shapes y shape j).mpr ⟨h, hj, hs⟩
  obtain ⟨i, hi⟩ := List.mem_iff_getElem?.mp hmem
  exact ⟨i, List.getElem?_zip_eq_some.mp hi⟩

/-- The value of a shape id is the position of the feature that the shape belongs to. -/
theorem exists_feature {shapes : G → List Sh} {y : List G} {shapeId j : ℕ}
    (hv : (indexOf shapes y).value shapeId = some j) :
    ∃ h shape, y[j]? = some h ∧ shape ∈ shapes h ∧
      (indexOf shapes y).shapes[shapeId]? = some shape := by
  have hlt := (List.getElem?_eq_some_iff.mp hv).1
  rw [(indexOf shapes y).aligned] at hlt
  have hs := List.getElem?_eq_getElem hlt
  have hmem := List.mem_of_getElem? (List.getElem?_zip_eq_some.mpr
    (⟨hs, hv⟩ : _ ∧ (indexOf shapes y).values[shapeId]? = _) :
      ((indexOf shapes y).shapes.zip (indexOf shapes y).values)[shapeId]? = some (_, j))
  obtain ⟨h, hj, hmem⟩ := (mem_zip_indexOf shapes y _ j).mp hmem
  exact ⟨h, _, hj, hmem, hs⟩

theorem filterCandidates_eq (y : List G) (test : G → Bool) (js indices : List ℕ)
    (hjs : ∀ j ∈ js, j < y.length) :
    filterCandidates (y.map some) test js indices =
      .ok (indices ++ (js.filter fun j => y[j]?.any test).map (· + 1)) := by
  induction js generalizing indices with
  | nil => simp [filterCandidates]
  | cons j js ih =>
    have hlt : j < y.length := hjs j (by simp)
    have hj := List.getElem?_eq_getElem hlt
    have hrec := fun indices => ih indices fun i hi => hjs i (by simp [hi])
    simp only [filterCandidates, List.getElem?_map, hj, Option.map_some, hrec]
    by_cases ht : test y[j] = true
    · simp [hj, ht]
    · simp [hj, ht]

/-- Sorting candidates that come in any order, each once. -/
theorem increasing_mergeSort {js : List ℕ} (hjs : js.Nodup) :
    IncreasingIndices (· ∈ js) ((js.map (· + 1)).mergeSort (· ≤ ·)) where
  increasing := by
    have hsorted : ((js.map (· + 1)).mergeSort (· ≤ ·)).Pairwise (· ≤ ·) := by
      simpa using List.pairwise_mergeSort' (· ≤ ·) (js.map (· + 1))
    have hnodup : ((js.map (· + 1)).mergeSort (· ≤ ·)).Nodup :=
      (List.mergeSort_perm _ _).nodup_iff.mpr (hjs.map (fun a b h => by simpa using h))
    exact (hsorted.and hnodup).imp fun h => lt_of_le_of_ne h.1 h.2
  mem_iff k := by
    simp only [List.mem_mergeSort, List.mem_map]
    constructor
    · rintro ⟨j, hj, rfl⟩
      exact ⟨j, rfl, hj⟩
    · rintro ⟨j, rfl, hj⟩
      exact ⟨j, hj, rfl⟩

/-- The filter pairs a feature with the features that have a shape in an index cell met
by its covering. -/
def Candidate (index : GeographyIndex Sh) (cells : CellMap) (covering : G → List S2CellId)
    (g : G) (j : ℕ) : Prop :=
  ∃ c ∈ covering g, ∃ e ∈ cells.entries, c.intersects e.id = true ∧ index.Lists e j

theorem processFeature_spec (set : UnorderedSet) (shapes : G → List Sh) {cells : CellMap}
    {covering : G → List S2CellId} (y : List G) (test : G → G → Bool) (g : G)
    (hcells : (indexOf shapes y).Indexes cells)
    (hvalid : ∀ c ∈ covering g, c.isValid = true) :
    ∃ js, (∀ i s, (processFeature set (indexOf shapes y) cells covering (y.map some) test g i
        s).1 = .ok (some js)) ∧
      IncreasingIndices (fun j => Candidate (indexOf shapes y) cells covering g j ∧
        MatchesAt (fun g h => test g h = true) y g j) js := by
  obtain ⟨found, hfound, hmem⟩ := GeographyIndex.query_spec hcells
    (fun c hc => S2CellId.ne_none_of_isValid (hvalid c hc)) ∅
  have hcand : ∀ j, j ∈ set.traverse found ↔ Candidate (indexOf shapes y) cells covering g j := by
    intro j
    rw [set.mem_traverse, hmem]
    simp [Candidate]
  have hlt : ∀ j ∈ set.traverse found, j < y.length := by
    intro j hj
    obtain ⟨-, -, -, -, -, shapeId, -, hv⟩ := (hcand j).mp hj
    obtain ⟨h, -, hj, -⟩ := exists_feature hv
    exact (List.getElem?_eq_some_iff.mp hj).1
  have hcollect := filterCandidates_eq y (test g) (set.traverse found) [] hlt
  have hsort := increasing_mergeSort ((set.nodup found).filter fun j => y[j]?.any (test g))
  refine ⟨_, fun i s => by simp only [processFeature, hfound, hcollect, List.nil_append]; rfl, ?_⟩
  refine ⟨hsort.increasing, fun k => (hsort.mem_iff k).trans ?_⟩
  simp only [List.mem_filter, hcand, MatchesAt, Option.any_eq_true]

/-- What an indexed operator returns: the candidates that pass its test. -/
theorem run_matches (set : UnorderedSet) (shapes : G → List Sh)
    (indexShapes : List Sh → CellMap) (covering : G → List S2CellId) (test : G → G → Bool)
    (x : List (Option G)) (y : List G)
    (hcells : (indexOf shapes y).Indexes (indexShapes (indexOf shapes y).shapes))
    (hvalid : ∀ g, ∀ c ∈ covering g, c.isValid = true) :
    ∃ out, run set shapes indexShapes covering test x (y.map some) = .ok out ∧
      MatchesRows (fun g j =>
        Candidate (indexOf shapes y) (indexShapes (indexOf shapes y).shapes) covering g j ∧
          MatchesAt (fun g h => test g h = true) y g j) x out := by
  have hrun : run set shapes indexShapes covering test x (y.map some) =
      GeographyOperator.processVector (processFeature set (indexOf shapes y)
        (indexShapes (indexOf shapes y).shapes) covering (y.map some) test) none x {} := by
    simp only [run, buildIndex_eq]
    rfl
  choose row hrow hinc using fun g =>
    processFeature_spec set shapes y test g hcells (hvalid g)
  refine ⟨_, hrun.trans (GeographyOperator.processVector_eq_map (fun g => some (row g)) hrow),
    by simp, ?_, ?_⟩
  · intro i hi
    simp [hi]
  · intro i g hi
    exact ⟨row g, by simp [hi], hinc g⟩

end IndexedMatrix

end S2Geography
