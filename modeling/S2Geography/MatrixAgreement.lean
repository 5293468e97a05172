import S2Geography.MatrixPredicates
import Mathlib.Data.Finset.Sort
import Mathlib.Order.SetNotation

/-!
# Indexed matrices against pairwise predicates

Two geographies with a common point are paired by the candidate filter, so an indexed
operator whose predicate needs a common point returns what the pairwise predicate says.
Equality and disjointness do not need one; there the two can differ.
-/
namespace S2Geography

variable {G Sh R δ P : Type}

/-- The points of a geography are those of its shapes. -/
def geogPoints (lib : S2Matrix G Sh R δ) (points : Sh → Set P) (g : G) : Set P :=
  {p | ∃ shape ∈ lib.shapes g, p ∈ points shape}

/-- What the indexed operators rely on in S2: coverings cover, points lie in index cells,
and an index cell lists every shape that has a point in it. -/
structure CoveringFacts (lib : S2Matrix G Sh R δ) (points : Sh → Set P)
    (leaf : P → S2CellId) : Prop where
  covers : ∀ {n g p}, p ∈ geogPoints lib points g →
    ∃ c ∈ lib.covering n g, c.contains (leaf p) = true
  covering_valid : ∀ {n g}, ∀ c ∈ lib.covering n g, c.isValid = true
  indexed : ∀ {n shapes shape p}, shape ∈ shapes → p ∈ points shape →
    ∃ e ∈ (lib.indexShapes n shapes).entries, e.id.contains (leaf p) = true
  listed : ∀ {n shapes shapeId shape p}, ∀ e ∈ (lib.indexShapes n shapes).entries,
    shapes[shapeId]? = some shape → p ∈ points shape → e.id.contains (leaf p) = true →
      shapeId ∈ e.shapeIds
  shapeIds_lt : ∀ {n shapes}, ∀ e ∈ (lib.indexShapes n shapes).entries,
    ∀ shapeId ∈ e.shapeIds, shapeId < shapes.length

/-- The predicates need a common point, and distance is symmetric. -/
structure PredicateFacts [Zero δ] [LE δ] (lib : S2Matrix G Sh R δ) (points : Sh → Set P)
    (leaf : P → S2CellId) (within : G → P → δ → Prop) : Prop where
  intersects_shares : ∀ {options g h}, lib.intersects options g h = true →
    ∃ p ∈ geogPoints lib points g, p ∈ geogPoints lib points h
  contains_shares : ∀ {options g h}, lib.contains options g h = true →
    s2IsEmpty lib.toS2Predicates h = false →
    ∃ p ∈ geogPoints lib points g, p ∈ geogPoints lib points h
  near : ∀ {g h d}, 0 ≤ d → lib.isDistanceLessOrEqual g h d = true →
    ∃ p ∈ geogPoints lib points h, within g p d
  symmetric : ∀ {g h d}, lib.isDistanceLessOrEqual g h d = lib.isDistanceLessOrEqual h g d
  bufferedCovering_covers : ∀ {g p d}, within g p d →
    ∃ c ∈ lib.bufferedCovering g d, c.contains (leaf p) = true
  bufferedCovering_valid : ∀ {g d}, ∀ c ∈ lib.bufferedCovering g d, c.isValid = true

/-- A call returns the matrix of a relation between features and positions. -/
def Returns (result : Except Fault (List (Option (List ℕ)))) (rel : G → ℕ → Prop)
    (x : List (Option G)) : Prop :=
  ∃ out, result = .ok out ∧ MatchesRows rel x out

theorem Returns.congr {result : Except Fault (List (Option (List ℕ)))} {rel rel' : G → ℕ → Prop}
    {x : List (Option G)} (h : Returns result rel x) (hrel : ∀ g j, rel g j ↔ rel' g j) :
    Returns result rel' x := by
  obtain ⟨out, hout, hrows⟩ := h
  exact ⟨out, hout, hrows.congr hrel⟩

theorem Returns.eq_iff {result result' : Except Fault (List (Option (List ℕ)))}
    {rel rel' : G → ℕ → Prop} {x : List (Option G)} (h : Returns result rel x)
    (h' : Returns result' rel' x) :
    result = result' ↔ ∀ g, some g ∈ x → ∀ j, rel g j ↔ rel' g j := by
  obtain ⟨out, rfl, hrows⟩ := h
  obtain ⟨out', rfl, hrows'⟩ := h'
  rw [Except.ok.injEq]
  exact hrows.eq_iff hrows'

theorem matchesAt_congr {pairwise pairwise' : G → G → Prop} {y : List G}
    (h : ∀ g g', pairwise g g' ↔ pairwise' g g') (g : G) (j : ℕ) :
    MatchesAt pairwise y g j ↔ MatchesAt pairwise' y g j := by
  simp only [MatchesAt, h]

theorem CoveringFacts.indexes {lib : S2Matrix G Sh R δ} {points : Sh → Set P}
    {leaf : P → S2CellId} (facts : CoveringFacts lib points leaf) (n : ℤ)
    (index : GeographyIndex Sh) : index.Indexes (lib.indexShapes n index.shapes) :=
  fun e he shapeId hs => facts.shapeIds_lt e he shapeId hs

/-- A point in the cells of a covering and in a feature of `y` makes that feature a
candidate. -/
theorem CoveringFacts.candidate {lib : S2Matrix G Sh R δ} {points : Sh → Set P}
    {leaf : P → S2CellId} (facts : CoveringFacts lib points leaf) {n : ℤ}
    {covering : G → List S2CellId} {y : List G} {g h : G} {j : ℕ} {p : P}
    (hcovers : ∃ c ∈ covering g, c.contains (leaf p) = true) (hj : y[j]? = some h)
    (hp : p ∈ geogPoints lib points h) :
    IndexedMatrix.Candidate (IndexedMatrix.indexOf lib.shapes y)
      (lib.indexShapes n (IndexedMatrix.indexOf lib.shapes y).shapes) covering g j := by
  obtain ⟨c, hc, hcp⟩ := hcovers
  obtain ⟨shape, hs, hp⟩ := hp
  obtain ⟨shapeId, hid, hv⟩ := IndexedMatrix.exists_shapeId hj hs
  obtain ⟨e, he, hep⟩ := facts.indexed (n := n) (List.mem_of_getElem? hid) hp
  exact ⟨c, hc, e, he, S2CellId.intersects_of_contains hcp hep, shapeId,
    facts.listed e he hid hp hep, hv⟩

section Agreement

variable {lib : S2Matrix G Sh R δ} {points : Sh → Set P} {leaf : P → S2CellId}

/-- An indexed operator returns the matrix of its test whenever a pair that passes the
test has a point that the covering of the first and the shapes of the second share. -/
theorem run_returns (facts : CoveringFacts lib points leaf) (set : UnorderedSet) (n : ℤ)
    (covering : G → List S2CellId) (test : G → G → Bool)
    (hvalid : ∀ g, ∀ c ∈ covering g, c.isValid = true)
    (hshares : ∀ g h, test g h = true → ∃ p ∈ geogPoints lib points h,
      ∃ c ∈ covering g, c.contains (leaf p) = true) (x : List (Option G)) (y : List G) :
    Returns (IndexedMatrix.run set lib.shapes (lib.indexShapes n) covering test x (y.map some))
      (MatchesAt (fun g h => test g h = true) y) x := by
  have hrun : Returns _ _ x := IndexedMatrix.run_matches set lib.shapes (lib.indexShapes n)
    covering test x y (facts.indexes n _) hvalid
  refine hrun.congr fun g j => and_iff_right_of_imp ?_
  rintro ⟨h, hj, ht⟩
  obtain ⟨p, hp, hc⟩ := hshares g h ht
  exact facts.candidate hc hj hp

theorem indexedMatrixPredicateOperator_returns (facts : CoveringFacts lib points leaf)
    (set : UnorderedSet) (k : IndexedOptions) (test : G → G → Bool)
    (hshares : ∀ g h, test g h = true →
      ∃ p ∈ geogPoints lib points g, p ∈ geogPoints lib points h)
    (x : List (Option G)) (y : List G) :
    Returns (indexedMatrixPredicateOperator lib set k test x (y.map some))
      (MatchesAt (fun g h => test g h = true) y) x := by
  refine run_returns facts set k.maxEdgesPerCell _ test (fun _ => facts.covering_valid) ?_ x y
  intro g h ht
  obtain ⟨p, hg, hh⟩ := hshares g h ht
  exact ⟨p, hh, facts.covers hg⟩

variable [Zero δ] [LE δ] {within : G → P → δ → Prop}

theorem PredicateFacts.s2Contains_shares (facts : PredicateFacts lib points leaf within)
    {options : BooleanOptions R} {g h : G}
    (hc : s2Contains lib.toS2Predicates options g h = true) :
    ∃ p ∈ geogPoints lib points g, p ∈ geogPoints lib points h := by
  by_cases he : s2IsEmpty lib.toS2Predicates h = true
  · simp [s2Contains, he] at hc
  · simp only [s2Contains, he, Bool.false_eq_true, if_false] at hc
    exact facts.contains_shares hc (by simpa using he)

theorem PredicateFacts.s2Touches_shares (facts : PredicateFacts lib points leaf within)
    {options : BooleanOptions R} {g h : G}
    (hc : s2Touches lib.toS2Predicates options g h = true) :
    ∃ p ∈ geogPoints lib points g, p ∈ geogPoints lib points h := by
  simp only [s2Touches, Bool.and_eq_true] at hc
  exact facts.intersects_shares hc.1

/-- The indexed operators for `contains`, `within`, `intersects`, `touches` and `dwithin`
return for every feature of `x` the increasing indices of the features of `y` for which
the pairwise predicate is TRUE, and agree with their brute force siblings. -/
theorem indexedMatrices_match (facts : CoveringFacts lib points leaf)
    (predicates : PredicateFacts lib points leaf within) (set : UnorderedSet)
    (k : IndexedOptions) (options : BooleanOptions R) {distance : δ} (hd : 0 ≤ distance)
    (x : List (Option G)) (y : List G) :
    Returns (cppS2ContainsMatrix lib set k options x (y.map some))
        (MatchesAt (PairwiseTrue (cppS2Contains lib.toS2Predicates options)) y) x ∧
      cppS2ContainsMatrix lib set k options x (y.map some) =
        cppS2ContainsMatrixBruteForce lib options x (y.map some) ∧
      Returns (cppS2WithinMatrix lib set k options x (y.map some))
        (MatchesAt (PairwiseTrue (s2Within lib.toS2Predicates options)) y) x ∧
      cppS2WithinMatrix lib set k options x (y.map some) =
        cppS2WithinMatrixBruteForce lib options x (y.map some) ∧
      Returns (cppS2TouchesMatrix lib set k options x (y.map some))
        (MatchesAt (PairwiseTrue (cppS2Touches lib.toS2Predicates options)) y) x ∧
      Returns (cppS2IntersectsMatrix lib set k options x (y.map some))
        (MatchesAt (PairwiseTrue (cppS2Intersects lib.toS2Predicates options)) y) x ∧
      cppS2IntersectsMatrix lib set k options x (y.map some) =
        cppS2IntersectsMatrixBruteForce lib options x (y.map some) ∧
      Returns (cppS2DwithinMatrix lib set k distance x (y.map some))
        (MatchesAt (fun g h => dwithin lib.toS2Predicates distance g h = .ok [some true]) y) x ∧
      cppS2DwithinMatrix lib set k distance x (y.map some) =
        cppS2DwithinMatrixBruteForce lib distance x (y.map some) := by
  have hcontains := indexedMatrixPredicateOperator_returns facts set k
    (s2Contains lib.toS2Predicates options) (fun _ _ => predicates.s2Contains_shares) x y
  have hwithin := indexedMatrixPredicateOperator_returns facts set k
    (fun g h => s2Contains lib.toS2Predicates options h g)
    (fun _ _ hc => (predicates.s2Contains_shares hc).imp fun _ hp => ⟨hp.2, hp.1⟩) x y
  have htouches := indexedMatrixPredicateOperator_returns facts set k
    (s2Touches lib.toS2Predicates options) (fun _ _ => predicates.s2Touches_shares) x y
  have hintersects := indexedMatrixPredicateOperator_returns facts set k
    (s2Intersects lib.toS2Predicates options) (fun _ _ => predicates.intersects_shares) x y
  have hdwithin := run_returns facts set k.maxEdgesPerCell
    (fun g => lib.bufferedCovering g distance)
    (fun g h => lib.isDistanceLessOrEqual g h distance)
    (fun _ => predicates.bufferedCovering_valid)
    (fun g h hle => by
      obtain ⟨p, hp, hpd⟩ := predicates.near hd hle
      exact ⟨p, hp, predicates.bufferedCovering_covers hpd⟩) x y
  refine ⟨hcontains.congr (matchesAt_congr fun _ _ => pairwiseTrue_iff.symm), ?_,
    hwithin.congr (matchesAt_congr fun _ _ => ?_), ?_,
    htouches.congr (matchesAt_congr fun _ _ => pairwiseTrue_iff.symm),
    hintersects.congr (matchesAt_congr fun _ _ => pairwiseTrue_iff.symm), ?_,
    hdwithin.congr (matchesAt_congr fun g h => ?_), ?_⟩
  · exact (hcontains.eq_iff (BruteForceMatrix.processVector_matches _ x y)).mpr
      fun _ _ _ => Iff.rfl
  · exact pairwiseTrue_iff.symm
  · exact (hwithin.eq_iff (BruteForceMatrix.processVector_matches _ x y)).mpr
      fun _ _ _ => Iff.rfl
  · exact (hintersects.eq_iff (BruteForceMatrix.processVector_matches _ x y)).mpr
      fun _ _ _ => Iff.rfl
  · simp [dwithin_eq, predicates.symmetric (g := g)]
  · refine (hdwithin.eq_iff (BruteForceMatrix.processVector_matches _ x y)).mpr fun g _ j => ?_
    exact matchesAt_congr (fun g h => by rw [predicates.symmetric]) g j

end Agreement

section Equals

variable {lib : S2Matrix G Sh R δ} {points : Sh → Set P} {leaf : P → S2CellId}

/-- `Equals` compares the point sets that the options give the two geographies, which are
empty for empty geographies only. An index cell lists no empty shape. -/
structure EqualsFacts (lib : S2Matrix G Sh R δ) (points : Sh → Set P)
    (options : BooleanOptions R) (region : G → Set P) : Prop where
  equals_iff : ∀ {g h}, lib.equals options g h = true ↔ region g = region h
  region_subset : ∀ {g}, region g ⊆ geogPoints lib points g
  region_eq_empty_iff : ∀ {g}, region g = ∅ ↔ s2IsEmpty lib.toS2Predicates g = true
  listed_nonempty : ∀ {n shapes shapeId shape}, ∀ e ∈ (lib.indexShapes n shapes).entries,
    shapeId ∈ e.shapeIds → shapes[shapeId]? = some shape → (lib.counts shape).isEmpty = false

/-- No empty geography is a candidate. -/
theorem EqualsFacts.not_candidate {options : BooleanOptions R} {region : G → Set P}
    (facts : EqualsFacts lib points options region) {n : ℤ} {covering : G → List S2CellId}
    {y : List G} {g h : G} {j : ℕ} (hj : y[j]? = some h)
    (hempty : s2IsEmpty lib.toS2Predicates h = true) :
    ¬ IndexedMatrix.Candidate (IndexedMatrix.indexOf lib.shapes y)
      (lib.indexShapes n (IndexedMatrix.indexOf lib.shapes y).shapes) covering g j := by
  rintro ⟨c, -, e, he, -, shapeId, hs, hv⟩
  obtain ⟨h', shape, hj', hmem, hshape⟩ := IndexedMatrix.exists_feature hv
  rw [hj, Option.some.injEq] at hj'
  subst hj'
  have hne := facts.listed_nonempty e he hs hshape
  have hall := List.all_eq_true.mp hempty shape hmem
  rw [hne] at hall
  exact Bool.false_ne_true hall

/-- The indexed `equals` matrix is the pairwise one, and the one of the brute force
operator, exactly when no empty feature of `x` meets an empty feature of `y`. -/
theorem cppS2EqualsMatrix_iff (facts : CoveringFacts lib points leaf)
    {options : BooleanOptions R} {region : G → Set P}
    (equalsFacts : EqualsFacts lib points options region) (set : UnorderedSet)
    (k : IndexedOptions) (x : List (Option G)) (y : List G) :
    Returns (cppS2EqualsMatrix lib set k options x (y.map some))
          (MatchesAt (PairwiseTrue (cppS2Equals lib.toS2Predicates options)) y) x ∧
        cppS2EqualsMatrix lib set k options x (y.map some) =
          cppS2EqualsMatrixBruteForce lib options x (y.map some) ↔
      ¬ ((∃ g, some g ∈ x ∧ s2IsEmpty lib.toS2Predicates g = true) ∧
          ∃ h ∈ y, s2IsEmpty lib.toS2Predicates h = true) := by
  have hrun : Returns (cppS2EqualsMatrix lib set k options x (y.map some)) _ x :=
    IndexedMatrix.run_matches set lib.shapes (lib.indexShapes k.maxEdgesPerCell)
      (lib.covering k.maxFeatureCells) (s2Equals lib.toS2Predicates options) x y
      (facts.indexes k.maxEdgesPerCell _) (fun _ => facts.covering_valid)
  have hbrute : Returns (cppS2EqualsMatrixBruteForce lib options x (y.map some)) _ x :=
    BruteForceMatrix.processVector_matches (s2Equals lib.toS2Predicates options) x y
  have hiff := hrun.eq_iff hbrute
  constructor
  · rintro ⟨-, heq⟩ ⟨⟨g, hg, hge⟩, h, hh, hhe⟩
    obtain ⟨j, hj⟩ := List.mem_iff_getElem?.mp hh
    have hequal : s2Equals lib.toS2Predicates options g h = true :=
      equalsFacts.equals_iff.mpr ((equalsFacts.region_eq_empty_iff.mpr hge).trans
        (equalsFacts.region_eq_empty_iff.mpr hhe).symm)
    exact equalsFacts.not_candidate hj hhe ((hiff.mp heq g hg j).mpr ⟨h, hj, hequal⟩).1
  · intro hne
    -- equal features with a point are paired by it
    have hpaired : ∀ g, some g ∈ x → ∀ j,
        MatchesAt (fun g h => s2Equals lib.toS2Predicates options g h = true) y g j →
          IndexedMatrix.Candidate (IndexedMatrix.indexOf lib.shapes y)
            (lib.indexShapes k.maxEdgesPerCell (IndexedMatrix.indexOf lib.shapes y).shapes)
            (lib.covering k.maxFeatureCells) g j := by
      rintro g hg j ⟨h, hj, hequal⟩
      have hregion : region g = region h := equalsFacts.equals_iff.mp hequal
      have hgne : region g ≠ ∅ := by
        intro hge
        exact hne ⟨⟨g, hg, equalsFacts.region_eq_empty_iff.mp hge⟩, h, List.mem_of_getElem? hj,
          equalsFacts.region_eq_empty_iff.mp (hregion ▸ hge)⟩
      obtain ⟨p, hp⟩ := Set.nonempty_iff_ne_empty.mpr hgne
      exact facts.candidate (facts.covers (equalsFacts.region_subset hp)) hj
        (equalsFacts.region_subset (hregion ▸ hp))
    have heq := hiff.mpr fun g hg j => and_iff_right_of_imp (hpaired g hg j)
    exact ⟨heq ▸ hbrute.congr (matchesAt_congr fun _ _ => pairwiseTrue_iff.symm), heq⟩

end Equals

section MultiPoints

open PreparedDwithin (TwoPoints sixFaces)

/-- A traversal in increasing order. -/
def sortedSet : UnorderedSet where
  traverse s := s.sort (· ≤ ·)
  nodup s := s.sort_nodup (· ≤ ·)
  mem_traverse s _ := s.mem_sort (· ≤ ·)

theorem indexCell_isValid (p : TwoPoints) : p.indexCell.id.isValid = true := by
  cases p <;> decide

theorem indexCell_contains_leaf_iff {p q : TwoPoints} :
    p.indexCell.id.contains q.leaf = true ↔ p = q := by
  cases p <;> cases q <;> decide

/-- The index cells of multipoints: one for each point that some shape has. -/
def multiPointCells (shapes : List (List TwoPoints)) : CellMap where
  entries := ([TwoPoints.origin, .east].map fun p =>
    (⟨p.indexCell.id, (shapes.zipIdx.filter fun s => s.1.contains p).map Prod.snd⟩ :
      IndexCell)).filter fun e => !e.shapeIds.isEmpty
  valid := by
    intro e he
    obtain ⟨p, -, rfl⟩ := List.mem_map.mp (List.mem_of_mem_filter he)
    exact indexCell_isValid p
  ordered := by
    have h : [TwoPoints.origin, .east].Pairwise
        (fun a b => a.indexCell.id.rangeMax < b.indexCell.id.rangeMin) := by decide
    exact List.Pairwise.filter _ (List.pairwise_map.mpr h)

/-- Geographies made of the points POINT (0 0) and POINT (90 0), distances in degrees. -/
def multiPointLib : S2Matrix (List TwoPoints) (List TwoPoints) Unit ℕ where
  indexCells g := multiPointCells [g]
  bufferedCovering g d := if g = [] then [] else if d < 90 then g.map TwoPoints.leaf else sixFaces
  isDistanceLessOrEqual index target limit :=
    index.any fun a => target.any fun b => decide (a.degrees b ≤ limit)
  shapes g := [g]
  counts g := ⟨0, g.length, g.length⟩
  intersects _ g h := g.any h.contains
  contains _ g h := h.all g.contains
  equals _ g h := g.all h.contains && h.all g.contains
  indexShapes _ := multiPointCells
  covering _ g := g.map TwoPoints.leaf

theorem mem_geogPoints_multiPoint {g : List TwoPoints} {p : TwoPoints} :
    p ∈ geogPoints multiPointLib (fun shape => {q | q ∈ shape}) g ↔ p ∈ g := by
  simp [geogPoints, multiPointLib]

theorem mem_multiPointCells {shapes : List (List TwoPoints)} {e : IndexCell} :
    e ∈ (multiPointCells shapes).entries ↔ ∃ p : TwoPoints, e.id = p.indexCell.id ∧
      e.shapeIds = (shapes.zipIdx.filter fun s => s.1.contains p).map Prod.snd ∧
      e.shapeIds ≠ [] := by
  simp only [multiPointCells, List.mem_filter, List.mem_map, List.isEmpty_iff, Bool.not_eq_true',
    Bool.eq_false_iff, ne_eq]
  constructor
  · rintro ⟨⟨p, -, rfl⟩, hne⟩
    exact ⟨p, rfl, rfl, hne⟩
  · rintro ⟨p, hid, hs, hne⟩
    refine ⟨⟨p, by cases p <;> simp, ?_⟩, hne⟩
    rw [← hid, ← hs]

theorem mem_shapeIds_multiPoint {shapes : List (List TwoPoints)} {p : TwoPoints} {i : ℕ} :
    i ∈ (shapes.zipIdx.filter fun s => s.1.contains p).map Prod.snd ↔
      ∃ shape, shapes[i]? = some shape ∧ p ∈ shape := by
  simp only [List.mem_map, List.mem_filter, List.contains_iff_mem, Prod.exists,
    List.mem_zipIdx_iff_getElem?]
  constructor
  · rintro ⟨shape, i, ⟨hi, hp⟩, rfl⟩
    exact ⟨shape, hi, hp⟩
  · rintro ⟨shape, hi, hp⟩
    exact ⟨shape, i, ⟨hi, hp⟩, rfl⟩

theorem multiPoint_coveringFacts : CoveringFacts multiPointLib (fun shape => {q | q ∈ shape})
    TwoPoints.leaf where
  covers := by
    intro n g p hp
    refine ⟨p.leaf, List.mem_map.mpr ⟨p, mem_geogPoints_multiPoint.mp hp, rfl⟩, ?_⟩
    cases p <;> decide
  covering_valid := by
    intro n g c hc
    obtain ⟨p, -, rfl⟩ := List.mem_map.mp hc
    cases p <;> decide
  indexed := by
    intro n shapes shape p hs hp
    obtain ⟨i, hi⟩ := List.mem_iff_getElem?.mp hs
    have hmem := mem_shapeIds_multiPoint.mpr ⟨shape, hi, hp⟩
    refine ⟨⟨p.indexCell.id, (shapes.zipIdx.filter fun s => s.1.contains p).map Prod.snd⟩,
      mem_multiPointCells.mpr ⟨p, rfl, rfl, ?_⟩, indexCell_contains_leaf_iff.mpr rfl⟩
    exact List.ne_nil_of_mem hmem
  listed := by
    intro n shapes shapeId shape p e he hs hp hc
    obtain ⟨q, hid, hids, -⟩ := mem_multiPointCells.mp he
    rw [hid, indexCell_contains_leaf_iff] at hc
    subst hc
    rw [hids]
    exact mem_shapeIds_multiPoint.mpr ⟨shape, hs, hp⟩
  shapeIds_lt := by
    intro n shapes e he shapeId hs
    obtain ⟨q, -, hids, -⟩ := mem_multiPointCells.mp he
    rw [hids] at hs
    obtain ⟨shape, hi, -⟩ := mem_shapeIds_multiPoint.mp hs
    exact (List.getElem?_eq_some_iff.mp hi).1

theorem multiPoint_predicateFacts : PredicateFacts multiPointLib (fun shape => {q | q ∈ shape})
    TwoPoints.leaf (fun g p d => ∃ a ∈ g, a.degrees p ≤ d) where
  intersects_shares := by
    intro options g h hi
    obtain ⟨p, hg, hh⟩ := List.any_eq_true.mp hi
    exact ⟨p, mem_geogPoints_multiPoint.mpr hg,
      mem_geogPoints_multiPoint.mpr (List.contains_iff_mem.mp hh)⟩
  contains_shares := by
    intro options g h hc hne
    cases h with
    | nil => exact absurd hne (by decide)
    | cons p h =>
      have hp := List.all_eq_true.mp hc p (by simp)
      exact ⟨p, mem_geogPoints_multiPoint.mpr (List.contains_iff_mem.mp hp),
        mem_geogPoints_multiPoint.mpr (by simp)⟩
  near := by
    intro g h d _ hle
    obtain ⟨a, ha, hany⟩ := List.any_eq_true.mp hle
    obtain ⟨b, hb, hd⟩ := List.any_eq_true.mp hany
    exact ⟨b, mem_geogPoints_multiPoint.mpr hb, a, ha, of_decide_eq_true hd⟩
  symmetric := by
    intro g h d
    have hsymm : ∀ a b : TwoPoints, a.degrees b = b.degrees a := by
      intro a b
      cases a <;> cases b <;> rfl
    rw [Bool.eq_iff_iff]
    simp only [multiPointLib, List.any_eq_true, decide_eq_true_eq]
    constructor
    · rintro ⟨a, ha, b, hb, hle⟩
      exact ⟨b, hb, a, ha, hsymm a b ▸ hle⟩
    · rintro ⟨a, ha, b, hb, hle⟩
      exact ⟨b, hb, a, ha, hsymm a b ▸ hle⟩
  bufferedCovering_covers := by
    rintro g p d ⟨a, ha, hle⟩
    have hg : g ≠ [] := List.ne_nil_of_mem ha
    by_cases hd : d < 90
    · have hap : a = p := by
        by_contra hne
        simp [TwoPoints.degrees, hne] at hle
        omega
      refine ⟨p.leaf, ?_, by cases p <;> decide⟩
      simpa [multiPointLib, hg, hd] using ⟨p, hap ▸ ha, rfl⟩
    · refine ⟨p.indexCell.id, ?_, indexCell_contains_leaf_iff.mpr rfl⟩
      cases p <;> simp [multiPointLib, hg, hd, sixFaces, TwoPoints.indexCell]
  bufferedCovering_valid := by
    intro g d c hc
    by_cases hg : g = []
    · simp [multiPointLib, hg] at hc
    by_cases hd : d < 90
    · simp only [multiPointLib, hg, hd, if_true, if_false] at hc
      obtain ⟨p, -, rfl⟩ := List.mem_map.mp hc
      cases p <;> decide
    · have hall : ∀ c ∈ sixFaces, c.isValid = true := by decide
      exact hall c (by simpa [multiPointLib, hg, hd] using hc)

theorem multiPoint_equalsFacts (options : BooleanOptions Unit) :
    EqualsFacts multiPointLib (fun shape => {q | q ∈ shape}) options (fun g => {q | q ∈ g}) where
  equals_iff := by
    intro g h
    simp only [multiPointLib, Bool.and_eq_true, List.all_eq_true, List.contains_iff_mem,
      Set.ext_iff, Set.mem_ofPred_eq]
    exact ⟨fun h p => ⟨h.1 p, h.2 p⟩, fun h => ⟨fun p => (h p).mp, fun p => (h p).mpr⟩⟩
  region_subset := fun hp => mem_geogPoints_multiPoint.mpr hp
  region_eq_empty_iff := by
    intro g
    cases g with
    | nil => simp [s2IsEmpty, multiPointLib, ShapeCounts.isEmpty]
    | cons p g =>
      have hmem : p ∈ {q | q ∈ p :: g} := List.mem_cons_self
      have hne : s2IsEmpty multiPointLib.toS2Predicates (p :: g) = false := by
        simp [s2IsEmpty, multiPointLib, ShapeCounts.isEmpty]
      rw [hne]
      exact ⟨fun h => absurd (h ▸ hmem) (Set.notMem_empty p), fun h => absurd h (by decide)⟩
  listed_nonempty := by
    intro n shapes shapeId shape e he hs hshape
    obtain ⟨q, -, hids, -⟩ := mem_multiPointCells.mp he
    rw [hids] at hs
    obtain ⟨shape', hshape', hq⟩ := mem_shapeIds_multiPoint.mp hs
    rw [hshape, Option.some.injEq] at hshape'
    subst hshape'
    have hlen : shape.length ≠ 0 := by
      have := List.length_pos_of_mem hq
      omega
    simp [multiPointLib, ShapeCounts.isEmpty, hlen]

def closedOptions : BooleanOptions Unit := ⟨.modelClosed, .modelClosed, ()⟩

/-- A point, a missing value and an empty point against a multipoint, an empty point and
the other point. -/
theorem cppS2IntersectsMatrix_multiPoint :
    cppS2IntersectsMatrix multiPointLib sortedSet {} closedOptions
        [some [.origin], none, some []] ([[.east, .origin], [], [.east]].map some) =
      .ok [some [1], none, some []] :=
  (indexedMatrices_match multiPoint_coveringFacts multiPoint_predicateFacts sortedSet {}
    closedOptions (Nat.zero_le 91) _ _).2.2.2.2.2.2.1.trans (by decide)

/-- Without empty features the indexed `equals` matrix is right. -/
theorem cppS2EqualsMatrix_multiPoint :
    Returns (cppS2EqualsMatrix multiPointLib sortedSet {} closedOptions
          [some [.origin], none] ([[.origin, .origin], []].map some))
        (MatchesAt (PairwiseTrue (cppS2Equals multiPointLib.toS2Predicates closedOptions))
          [[.origin, .origin], []]) [some [.origin], none] ∧
      cppS2EqualsMatrix multiPointLib sortedSet {} closedOptions
          [some [.origin], none] ([[.origin, .origin], []].map some) =
        cppS2EqualsMatrixBruteForce multiPointLib closedOptions
          [some [.origin], none] ([[.origin, .origin], []].map some) :=
  (cppS2EqualsMatrix_iff multiPoint_coveringFacts (multiPoint_equalsFacts closedOptions) sortedSet
    {} [some [.origin], none] [[.origin, .origin], []]).mpr (by
      rintro ⟨⟨g, hg, hge⟩, -⟩
      simp only [List.mem_cons, Option.some.injEq, reduceCtorEq, List.not_mem_nil, or_false] at hg
      subst hg
      exact absurd hge (by decide))

/-- Two empty points are equal, but an empty point has no covering and so no candidates. -/
theorem cppS2EqualsMatrix_ne_bruteForce :
    cppS2EqualsMatrix multiPointLib sortedSet {} closedOptions [some []] [some []] =
        .ok [some []] ∧
      cppS2EqualsMatrixBruteForce multiPointLib closedOptions [some []] [some []] =
        .ok [some [1]] ∧
      PairwiseTrue (cppS2Equals multiPointLib.toS2Predicates closedOptions) [] [] ∧
      cppS2EqualsMatrix multiPointLib sortedSet {} closedOptions [some []] [some []] ≠
        cppS2EqualsMatrixBruteForce multiPointLib closedOptions [some []] [some []] := by
  have hindexed : cppS2EqualsMatrix multiPointLib sortedSet {} closedOptions [some []] [some []] =
      .ok [some []] := by
    simp [cppS2EqualsMatrix, indexedMatrixPredicateOperator, IndexedMatrix.run,
      IndexedMatrix.buildIndex, GeographyOperator.processVector, GeographyOperator.loop,
      IndexedMatrix.processFeature, multiPointLib, GeographyIndex.query, sortedSet,
      IndexedMatrix.filterCandidates, pure, Except.pure]
  have hbrute : cppS2EqualsMatrixBruteForce multiPointLib closedOptions [some []] [some []] =
      .ok [some [1]] := by decide
  refine ⟨hindexed, hbrute, pairwiseTrue_iff.mpr (by decide), ?_⟩
  rw [hindexed, hbrute]
  decide

end MultiPoints

end S2Geography
