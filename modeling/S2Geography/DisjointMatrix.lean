import S2Geography.MatrixAgreement

/-!
# The disjoint matrix

`s2_disjoint_matrix` is written in R: it takes the rows of the indexed `intersects`
matrix away from `seq_along(y)`. The brute force operator tests every pair and keeps
missing rows missing.
-/
namespace S2Geography

variable {G Sh R δ P : Type}

/-- R's `seq_along`. -/
def seqAlong {α : Type} (y : List α) : List ℕ := List.range' 1 y.length

/-- R's `setdiff` of index vectors: `unique(x[match(x, y, 0L) == 0L])`. -/
def setdiff (x y : List ℕ) : List ℕ := (x.filter fun i => !y.contains i).eraseDups

/-- `Map(setdiff, list(seq_along(y)), intersection)`, where NULL stands for no index. -/
def s2DisjointMatrix (lib : S2Matrix G Sh R δ) (set : UnorderedSet) (k : IndexedOptions)
    (options : BooleanOptions R) (x y : List (Option G)) :
    Except Fault (List (Option (List ℕ))) :=
  (cppS2IntersectsMatrix lib set k options x y).map fun intersection =>
    intersection.map fun indices => some (setdiff (seqAlong y) (indices.getD []))

theorem eraseDups_eq_self {js : List ℕ} (h : js.Nodup) : js.eraseDups = js := by
  induction js with
  | nil => rfl
  | cons j js ih =>
    obtain ⟨hj, hjs⟩ := List.nodup_cons.mp h
    rw [List.eraseDups_cons, List.filter_eq_self.mpr, ih hjs]
    intro k hk
    have hne : k ≠ j := fun h => hj (h ▸ hk)
    simpa using hne

/-- Complementing an index vector within `seq_along(y)`. -/
theorem IncreasingIndices.setdiff {α : Type} {p : ℕ → Prop} {js : List ℕ} (y : List α)
    (h : IncreasingIndices p js) :
    IncreasingIndices (fun j => j < y.length ∧ ¬ p j) (setdiff (seqAlong y) js) := by
  have hord : (seqAlong y).Pairwise (· < ·) := List.pairwise_lt_range'
  have hfilter : ((seqAlong y).filter fun i => !js.contains i).Pairwise (· < ·) := hord.filter _
  have heq : S2Geography.setdiff (seqAlong y) js =
      (seqAlong y).filter fun i => !js.contains i := eraseDups_eq_self (hfilter.imp ne_of_lt)
  rw [heq]
  refine ⟨hfilter, fun k => ?_⟩
  simp only [List.mem_filter, seqAlong, List.mem_range'_1, Bool.not_eq_true', Bool.eq_false_iff,
    ne_eq, List.contains_iff_mem, h.mem_iff]
  constructor
  · rintro ⟨⟨h1, hk⟩, hnot⟩
    refine ⟨k - 1, by omega, by omega, fun hp => hnot ⟨k - 1, by omega, hp⟩⟩
  · rintro ⟨j, rfl, hj, hp⟩
    refine ⟨by omega, ?_⟩
    rintro ⟨j', hj', hp'⟩
    have heq : j = j' := by omega
    exact hp (heq ▸ hp')

/-- What complementing the `intersects` matrix returns: a complement for every row. -/
theorem s2DisjointMatrix_eq {lib : S2Matrix G Sh R δ} {set : UnorderedSet} {k : IndexedOptions}
    {options : BooleanOptions R} {x : List (Option G)} {y : List G}
    (h : Returns (cppS2IntersectsMatrix lib set k options x (y.map some))
      (MatchesAt (fun g h => s2Intersects lib.toS2Predicates options g h = true) y) x) :
    ∃ out, s2DisjointMatrix lib set k options x (y.map some) = .ok out ∧
      out.length = x.length ∧ (∀ i : ℕ, x[i]? = some none → ∃ js, out[i]? = some (some js)) ∧
      ∀ (i : ℕ) (g : G), x[i]? = some (some g) → ∃ js, out[i]? = some (some js) ∧
        IncreasingIndices
          (MatchesAt (fun g h => s2Intersects lib.toS2Predicates options g h = false) y g) js := by
  obtain ⟨out, hout, hrows⟩ := h
  refine ⟨_, by rw [s2DisjointMatrix, hout]; rfl, by simpa using hrows.length_eq, ?_, ?_⟩
  · intro i hi
    exact ⟨_, by rw [List.getElem?_map, hrows.missing i hi]; rfl⟩
  · intro i g hi
    obtain ⟨js, hjs, hinc⟩ := hrows.row i g hi
    refine ⟨_, by rw [List.getElem?_map, hjs]; rfl, ?_⟩
    have hset := hinc.setdiff (y.map some)
    refine ⟨hset.increasing, fun n => (hset.mem_iff n).trans (exists_congr fun j =>
      and_congr_right fun _ => ?_)⟩
    simp only [List.length_map, MatchesAt]
    constructor
    · rintro ⟨hj, hnot⟩
      refine ⟨y[j], List.getElem?_eq_getElem hj, ?_⟩
      rw [Bool.eq_false_iff]
      exact fun ht => hnot ⟨y[j], List.getElem?_eq_getElem hj, ht⟩
    · rintro ⟨h, hj, hf⟩
      refine ⟨(List.getElem?_eq_some_iff.mp hj).1, ?_⟩
      rintro ⟨h', hj', ht⟩
      rw [hj, Option.some.injEq] at hj'
      subst hj'
      rw [hf] at ht
      exact Bool.false_ne_true ht

/-- `s2_disjoint_matrix` returns the pairwise matrix, and the one of the brute force
operator, exactly when `x` has no missing feature. -/
theorem s2DisjointMatrix_iff {lib : S2Matrix G Sh R δ} {points : Sh → Set P}
    {leaf : P → S2CellId} (facts : CoveringFacts lib points leaf) {options : BooleanOptions R}
    (hshares : ∀ g h, lib.intersects options g h = true →
      ∃ p ∈ geogPoints lib points g, p ∈ geogPoints lib points h)
    (set : UnorderedSet) (k : IndexedOptions) (x : List (Option G)) (y : List G) :
    Returns (s2DisjointMatrix lib set k options x (y.map some))
          (MatchesAt (PairwiseTrue (s2Disjoint lib.toS2Predicates options)) y) x ∧
        s2DisjointMatrix lib set k options x (y.map some) =
          cppS2DisjointMatrixBruteForce lib options x (y.map some) ↔
      none ∉ x := by
  have hinter := indexedMatrixPredicateOperator_returns facts set k
    (s2Intersects lib.toS2Predicates options) hshares x y
  obtain ⟨out, hout, hlen, hnull, hrow⟩ := s2DisjointMatrix_eq hinter
  constructor
  · rintro ⟨⟨out', hout', hrows⟩, -⟩ hmem
    obtain ⟨i, hi⟩ := List.mem_iff_getElem?.mp hmem
    obtain ⟨js, hjs⟩ := hnull i hi
    have heq : out = out' := Except.ok.inj (hout.symm.trans hout')
    have hmissing := hrows.missing i hi
    rw [← heq, hjs] at hmissing
    simp at hmissing
  · intro hx
    have hret : Returns (s2DisjointMatrix lib set k options x (y.map some)) (MatchesAt
        (fun g h => s2Intersects lib.toS2Predicates options g h = false) y) x :=
      ⟨out, hout, hlen, fun i hi => absurd (List.mem_of_getElem? hi) hx, hrow⟩
    have hbrute := BruteForceMatrix.processVector_matches
      (fun g h => !s2Intersects lib.toS2Predicates options g h) x y
    refine ⟨hret.congr (matchesAt_congr fun _ _ => pairwiseTrue_disjoint_iff.symm), ?_⟩
    exact (hret.eq_iff hbrute).mpr fun g _ j => matchesAt_congr (fun _ _ => by simp) g j

section MultiPoints

open PreparedDwithin (TwoPoints)

/-- With no missing feature the complement of the `intersects` matrix is right. -/
theorem s2DisjointMatrix_multiPoint :
    Returns (s2DisjointMatrix multiPointLib sortedSet {} closedOptions
          [some [.origin], some []] ([[.origin], [.east]].map some))
        (MatchesAt (PairwiseTrue (s2Disjoint multiPointLib.toS2Predicates closedOptions))
          [[.origin], [.east]]) [some [.origin], some []] ∧
      s2DisjointMatrix multiPointLib sortedSet {} closedOptions
          [some [.origin], some []] ([[.origin], [.east]].map some) =
        cppS2DisjointMatrixBruteForce multiPointLib closedOptions
          [some [.origin], some []] ([[.origin], [.east]].map some) :=
  (s2DisjointMatrix_iff multiPoint_coveringFacts
    (fun _ _ => multiPoint_predicateFacts.intersects_shares) sortedSet {}
    [some [.origin], some []] [[.origin], [.east]]).mpr (by simp)

/-- A missing feature is disjoint from everything in R, and missing by brute force. -/
theorem s2DisjointMatrix_ne_bruteForce :
    s2DisjointMatrix multiPointLib sortedSet {} closedOptions [none] [some [.origin]] =
        .ok [some [1]] ∧
      cppS2DisjointMatrixBruteForce multiPointLib closedOptions [none] [some [.origin]] =
        .ok [none] ∧
      s2DisjointMatrix multiPointLib sortedSet {} closedOptions [none] [some [.origin]] ≠
        cppS2DisjointMatrixBruteForce multiPointLib closedOptions [none] [some [.origin]] :=
  ⟨by decide, by decide, by decide⟩

end MultiPoints

end S2Geography
