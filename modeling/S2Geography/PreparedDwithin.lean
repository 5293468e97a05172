import S2Geography.CellIterator
import S2Geography.GeographyOperator
import Mathlib.Data.Set.Defs

/-!
# Pairwise distance predicates with a cache

`cpp_s2_dwithin` keeps a closest edge query across rows while the second feature
stays the same object. `cpp_s2_prepared_dwithin` also keeps a covering of that
feature buffered by the distance, and answers FALSE without a query when the
covering meets no index cell of the first feature. The covering is renewed when the
feature changes, and only then.
-/
namespace S2Geography.PreparedDwithin

/-- The S2 calls of the two operators. Distances are in radians. -/
structure S2Distance (G δ : Type) where
  /-- The cells of `feature->Index().ShapeIndex()`. -/
  indexCells : G → CellMap
  /-- `GetCovering` of the `S2ShapeIndexBufferedRegion`, with default coverer options. -/
  bufferedCovering : G → δ → List S2CellId
  /-- `S2ClosestEdgeQuery(index).IsDistanceLessOrEqual(target, limit)`. -/
  isDistanceLessOrEqual : (index target : G) → (limit : δ) → Bool

variable {Ptr G P δ : Type} [DecidableEq Ptr]

/-- `geog2_id` and the index that `query` was built on. -/
structure DwithinOp (Ptr G : Type) where
  geog2Id : Option Ptr
  query : Option G

def DwithinOp.init : DwithinOp Ptr G := ⟨none, none⟩

/-- `processFeature` of `cpp_s2_dwithin`. Features are external pointers into `heap`. -/
def dwithinProcessFeature (lib : S2Distance G δ) (heap : Ptr → G) (distance : List δ)
    (feature1 feature2 : Ptr) (i : ℕ) (op : DwithinOp Ptr G) :
    Except Fault (Option Bool) × DwithinOp Ptr G :=
  let op := if some feature2 ≠ op.geog2Id then ⟨some feature2, some (heap feature2)⟩ else op
  match op.query, distance[i]? with
  | none, _ => (.error .nullDereference, op)
  | some _, none => (.error .outOfBounds, op)
  | some index, some d => (.ok (some (lib.isDistanceLessOrEqual index (heap feature1) d)), op)

def cppS2Dwithin (lib : S2Distance G δ) (heap : Ptr → G) (geog1 geog2 : List (Option Ptr))
    (distance : List δ) : Except Fault (List (Option Bool)) :=
  if distance.length ≠ geog1.length then .error (.stop "Incompatible lengths")
  else GeographyOperator.processVector2 (dwithinProcessFeature lib heap distance) none
    geog1 geog2 DwithinOp.init

/-- `covering`, `covering_id` and the index that `query` was built on. -/
structure PreparedDwithinOp (Ptr G : Type) where
  covering : List S2CellId
  coveringId : Option Ptr
  query : Option G

def PreparedDwithinOp.init : PreparedDwithinOp Ptr G := ⟨[], none, none⟩

/-- The scan for a query cell that is not disjoint from the index of `feature1`. -/
def mayIntersectBuffer (cells : CellMap) (covering : List S2CellId) : Bool :=
  covering.any fun queryCell => (CellIterator.locate cells queryCell).1 != .disjoint

/-- `processFeature` of `cpp_s2_prepared_dwithin`. -/
def preparedProcessFeature (lib : S2Distance G δ) (heap : Ptr → G) (distance : List δ)
    (feature1 feature2 : Ptr) (i : ℕ) (op : PreparedDwithinOp Ptr G) :
    Except Fault (Option Bool) × PreparedDwithinOp Ptr G :=
  match distance[i]? with
  | none => (.error .outOfBounds, op)
  | some distanceAngle =>
    let op := if some feature2 ≠ op.coveringId then
        ⟨lib.bufferedCovering (heap feature2) distanceAngle, some feature2, some (heap feature2)⟩
      else op
    if mayIntersectBuffer (lib.indexCells (heap feature1)) op.covering then
      match op.query with
      | none => (.error .nullDereference, op)
      | some index =>
        (.ok (some (lib.isDistanceLessOrEqual index (heap feature1) distanceAngle)), op)
    else (.ok (some false), op)

def cppS2PreparedDwithin (lib : S2Distance G δ) (heap : Ptr → G)
    (geog1 geog2 : List (Option Ptr)) (distance : List δ) : Except Fault (List (Option Bool)) :=
  if distance.length ≠ geog1.length then .error (.stop "Incompatible lengths")
  else GeographyOperator.processVector2 (preparedProcessFeature lib heap distance) none
    geog1 geog2 PreparedDwithinOp.init

/-- The first row of the run of equal second features that row `i` belongs to. -/
def firstRow (geog2 : List Ptr) : ℕ → ℕ
  | 0 => 0
  | i + 1 => if geog2[i + 1]? = geog2[i]? then firstRow geog2 i else i + 1

theorem firstRow_le (geog2 : List Ptr) (i : ℕ) : firstRow geog2 i ≤ i := by
  induction i with
  | zero => exact le_rfl
  | succ i ih =>
    simp only [firstRow]
    split <;> omega

/-- The cached query is the one of the cached feature. -/
def DwithinOp.Consistent (heap : Ptr → G) (op : DwithinOp Ptr G) : Prop :=
  ∀ p, op.geog2Id = some p → op.query = some (heap p)

/-- One row of `cpp_s2_dwithin`: the query in use is the one of the row's own feature. -/
theorem dwithinProcessFeature_eq (lib : S2Distance G δ) (heap : Ptr → G) (distance : List δ)
    (feature1 feature2 : Ptr) (i : ℕ) (op : DwithinOp Ptr G) {d : δ}
    (hd : distance[i]? = some d)
    (hop : op.Consistent heap) :
    dwithinProcessFeature lib heap distance feature1 feature2 i op =
      (.ok (some (lib.isDistanceLessOrEqual (heap feature2) (heap feature1) d)),
        ⟨some feature2, some (heap feature2)⟩) := by
  obtain ⟨geog2Id, query⟩ := op
  by_cases h : some feature2 = geog2Id
  · subst h
    have hq := hop feature2 rfl
    simp only at hq
    simp [dwithinProcessFeature, hd, hq]
  · simp [dwithinProcessFeature, h, hd]

theorem cppS2Dwithin_eq (lib : S2Distance G δ) (heap : Ptr → G) {x y : List Ptr} {d : List δ}
    (hy : y.length = x.length) (hd : d.length = x.length) :
    cppS2Dwithin lib heap (x.map some) (y.map some) d =
      .ok ((List.zipWith GeographyOperator.pairItem (x.map some) (y.map some)).mapIdx
        fun i row => row.elim none fun p =>
          d[i]?.map (lib.isDistanceLessOrEqual (heap p.2) (heap p.1))) := by
  simp only [cppS2Dwithin, GeographyOperator.processVector2, List.length_map, hy, hd, ne_eq,
    not_true_eq_false, if_false]
  refine GeographyOperator.processVector_eq (fun _ op => op.Consistent heap)
    (fun i (p : Ptr × Ptr) => d[i]?.map (lib.isDistanceLessOrEqual (heap p.2) (heap p.1)))
    (by simp [DwithinOp.init, DwithinOp.Consistent])
    (fun i op hi _ => absurd hi GeographyOperator.getElem?_pairItem_ne_none) ?_
  intro i p op hi hop
  obtain ⟨hx, -⟩ := GeographyOperator.getElem?_pairItem.mp hi
  have hlt : i < d.length := hd ▸ (List.getElem?_eq_some_iff.mp hx).1
  have hdi := List.getElem?_eq_getElem hlt
  rw [dwithinProcessFeature_eq lib heap d p.1 p.2 i op hdi hop]
  simp [hdi, DwithinOp.Consistent]

/-- The state of the prepared operator before row `i`: covering and query belong to
the previous row's feature, and the covering to the distance of its run's first row. -/
def Cached (lib : S2Distance G δ) (heap : Ptr → G) (y : List Ptr) (d : List δ) :
    ℕ → PreparedDwithinOp Ptr G → Prop
  | 0, op => op.coveringId = none
  | i + 1, op => ∃ q e, y[i]? = some q ∧ d[firstRow y i]? = some e ∧
      op = ⟨lib.bufferedCovering (heap q) e, some q, some (heap q)⟩

/-- One row of `cpp_s2_prepared_dwithin`: the covering in use was built for the row's
feature, with the distance of the first row of its run. -/
theorem preparedProcessFeature_eq (lib : S2Distance G δ) (heap : Ptr → G) {y : List Ptr}
    {d : List δ} (p : Ptr) {q : Ptr} {e : δ} (i : ℕ) (op : PreparedDwithinOp Ptr G)
    (hy : y[i]? = some q) (hd : d[i]? = some e) (hop : Cached lib heap y d i op) :
    ∃ e', d[firstRow y i]? = some e' ∧
      preparedProcessFeature lib heap d p q i op =
        (.ok (some (mayIntersectBuffer (lib.indexCells (heap p)) (lib.bufferedCovering (heap q) e')
            && lib.isDistanceLessOrEqual (heap q) (heap p) e)),
          ⟨lib.bufferedCovering (heap q) e', some q, some (heap q)⟩) := by
  -- a row whose feature is not the cached one renews the cache with its own distance
  have hfresh : some q ≠ op.coveringId → preparedProcessFeature lib heap d p q i op =
      (.ok (some (mayIntersectBuffer (lib.indexCells (heap p)) (lib.bufferedCovering (heap q) e)
          && lib.isDistanceLessOrEqual (heap q) (heap p) e)),
        ⟨lib.bufferedCovering (heap q) e, some q, some (heap q)⟩) := by
    intro hne
    simp only [preparedProcessFeature, hd, hne, ne_eq, not_false_eq_true, if_true]
    split <;> simp_all
  cases i with
  | zero =>
    have hnone : op.coveringId = none := hop
    exact ⟨e, by simpa [firstRow] using hd, hfresh (by simp [hnone])⟩
  | succ i =>
    obtain ⟨q', e', hq', he', rfl⟩ := hop
    by_cases h : q = q'
    · subst h
      refine ⟨e', by simpa [firstRow, hy, hq'] using he', ?_⟩
      simp only [preparedProcessFeature, hd, ne_eq, not_true_eq_false, if_false]
      split <;> simp_all
    · exact ⟨e, by simpa [firstRow, hy, hq', h] using hd, hfresh (by simpa using h)⟩

theorem cppS2PreparedDwithin_eq (lib : S2Distance G δ) (heap : Ptr → G) {x y : List Ptr}
    {d : List δ} (hy : y.length = x.length) (hd : d.length = x.length) :
    cppS2PreparedDwithin lib heap (x.map some) (y.map some) d =
      .ok ((List.zipWith GeographyOperator.pairItem (x.map some) (y.map some)).mapIdx
        fun i row => row.elim none fun p => d[firstRow y i]?.bind fun e' => d[i]?.map fun e =>
          mayIntersectBuffer (lib.indexCells (heap p.1)) (lib.bufferedCovering (heap p.2) e') &&
            lib.isDistanceLessOrEqual (heap p.2) (heap p.1) e) := by
  simp only [cppS2PreparedDwithin, GeographyOperator.processVector2, List.length_map, hy, hd, ne_eq,
    not_true_eq_false, if_false]
  refine GeographyOperator.processVector_eq (Cached lib heap y d)
    (fun i (p : Ptr × Ptr) => d[firstRow y i]?.bind fun e' => d[i]?.map fun e =>
      mayIntersectBuffer (lib.indexCells (heap p.1)) (lib.bufferedCovering (heap p.2) e') &&
        lib.isDistanceLessOrEqual (heap p.2) (heap p.1) e)
    (by rfl) (fun i op hi _ => absurd hi GeographyOperator.getElem?_pairItem_ne_none) ?_
  intro i p op hi hop
  obtain ⟨hx, hq⟩ := GeographyOperator.getElem?_pairItem.mp hi
  have hlt : i < d.length := hd ▸ (List.getElem?_eq_some_iff.mp hx).1
  have hdi := List.getElem?_eq_getElem hlt
  obtain ⟨e', he', heq⟩ := preparedProcessFeature_eq lib heap p.1 i op hq hdi hop
  rw [heq]
  exact ⟨by simp [he', hdi], p.2, e', hq, he', rfl⟩

/-- What the operators rely on in S2: points of the second feature's buffer are
covered by the buffered covering, and points of a feature lie in its index cells. -/
structure BufferedCoveringFacts [LE δ] (lib : S2Distance G δ) (points : G → Set P)
    (leaf : P → S2CellId) (within : G → P → δ → Prop) : Prop where
  near : ∀ {index target d}, lib.isDistanceLessOrEqual index target d = true →
    ∃ p ∈ points target, within index p d
  within_mono : ∀ {geog p d d'}, d ≤ d' → within geog p d → within geog p d'
  covers : ∀ {geog p d}, within geog p d →
    ∃ c ∈ lib.bufferedCovering geog d, c.contains (leaf p) = true
  covering_valid : ∀ {geog d c}, c ∈ lib.bufferedCovering geog d → c.isValid = true
  indexed : ∀ {geog p}, p ∈ points geog →
    ∃ e ∈ (lib.indexCells geog).entries, e.id.contains (leaf p) = true

theorem mayIntersectBuffer_iff {cells : CellMap} {covering : List S2CellId}
    (hv : ∀ c ∈ covering, c.isValid = true) :
    mayIntersectBuffer cells covering = true ↔
      ∃ c ∈ covering, ∃ e ∈ cells.entries, c.intersects e.id = true := by
  simp only [mayIntersectBuffer, List.any_eq_true, bne_iff_ne]
  refine exists_congr fun c => and_congr_right fun hc => ?_
  exact CellIterator.locate_ne_disjoint_iff cells (S2CellId.ne_none_of_isValid (hv c hc))

/-- A covering built for at least the row's distance never hides a match. -/
theorem BufferedCoveringFacts.mayIntersectBuffer [LE δ] {lib : S2Distance G δ}
    {points : G → Set P} {leaf : P → S2CellId} {within : G → P → δ → Prop}
    (facts : BufferedCoveringFacts lib points leaf within) {index target : G} {e e' : δ}
    (hle : e ≤ e') (h : lib.isDistanceLessOrEqual index target e = true) :
    mayIntersectBuffer (lib.indexCells target) (lib.bufferedCovering index e') = true := by
  obtain ⟨p, hp, hpe⟩ := facts.near h
  obtain ⟨c, hc, hcp⟩ := facts.covers (facts.within_mono hle hpe)
  obtain ⟨cell, hcell, hcellp⟩ := facts.indexed hp
  exact (mayIntersectBuffer_iff fun _ h => facts.covering_valid h).mpr
    ⟨c, hc, cell, hcell, S2CellId.intersects_of_contains hcp hcellp⟩

/-- The prepared operator agrees with the plain one exactly when no match is hidden by
a covering that an earlier row of the same run built for a smaller distance. -/
theorem cppS2PreparedDwithin_eq_cppS2Dwithin_iff [LinearOrder δ] {lib : S2Distance G δ}
    {points : G → Set P} {leaf : P → S2CellId} {within : G → P → δ → Prop}
    (facts : BufferedCoveringFacts lib points leaf within) (heap : Ptr → G) {x y : List Ptr}
    {d : List δ} (hy : y.length = x.length) (hd : d.length = x.length) :
    cppS2PreparedDwithin lib heap (x.map some) (y.map some) d =
        cppS2Dwithin lib heap (x.map some) (y.map some) d ↔
      ∀ i p q e e', x[i]? = some p → y[i]? = some q → d[i]? = some e →
        d[firstRow y i]? = some e' → e' < e →
        lib.isDistanceLessOrEqual (heap q) (heap p) e = true →
        ∃ c ∈ lib.bufferedCovering (heap q) e', ∃ cell ∈ (lib.indexCells (heap p)).entries,
          c.intersects cell.id = true := by
  rw [cppS2PreparedDwithin_eq lib heap hy hd, cppS2Dwithin_eq lib heap hy hd, Except.ok.injEq]
  rw [GeographyOperator.mapIdx_elim_eq_iff
    (f := fun i (p : Ptr × Ptr) => d[firstRow y i]?.bind fun e' => d[i]?.map fun e =>
      mayIntersectBuffer (lib.indexCells (heap p.1)) (lib.bufferedCovering (heap p.2) e') &&
        lib.isDistanceLessOrEqual (heap p.2) (heap p.1) e)
    (g := fun i (p : Ptr × Ptr) => d[i]?.map (lib.isDistanceLessOrEqual (heap p.2) (heap p.1)))]
  constructor
  · intro h i p q e e' hp hq he he' _ hle
    have hrow := h i (p, q) (GeographyOperator.getElem?_pairItem.mpr ⟨hp, hq⟩)
    rw [← mayIntersectBuffer_iff fun _ h => facts.covering_valid h]
    simpa [he, he', hle] using hrow
  · rintro h i ⟨p, q⟩ hi
    obtain ⟨hp, hq⟩ := GeographyOperator.getElem?_pairItem.mp hi
    have hlt : i < d.length := hd ▸ (List.getElem?_eq_some_iff.mp hp).1
    have hfirst : firstRow y i < d.length := (firstRow_le y i).trans_lt hlt
    have he := List.getElem?_eq_getElem hlt
    have he' := List.getElem?_eq_getElem hfirst
    simp only [he, he', Option.bind_some, Option.map_some, Option.some.injEq]
    cases hle : lib.isDistanceLessOrEqual (heap q) (heap p) d[i] with
    | false => simp
    | true =>
      rw [Bool.and_true]
      rcases lt_or_ge d[firstRow y i] d[i] with hlt' | hge
      · rw [mayIntersectBuffer_iff fun _ h => facts.covering_valid h]
        exact h i p q _ _ hp hq he he' hlt' hle
      · exact facts.mayIntersectBuffer hge hle

section TwoPoints

/-- The geographies POINT (0 0) and POINT (90 0), each also standing for its point. -/
inductive TwoPoints
  | origin
  | east
  deriving DecidableEq

/-- Both points are centers of cube faces. -/
def TwoPoints.leaf : TwoPoints → S2CellId
  | .origin => ⟨0x1000000000000001⟩
  | .east => ⟨0x3000000000000001⟩

/-- The index of a single point at a face center has that face as its only cell. -/
def TwoPoints.indexCell : TwoPoints → IndexCell
  | .origin => ⟨⟨0x1000000000000000⟩, [0]⟩
  | .east => ⟨⟨0x3000000000000000⟩, [0]⟩

def TwoPoints.degrees (a b : TwoPoints) : ℕ := if a = b then 0 else 90

def sixFaces : List S2CellId :=
  [⟨0x1000000000000000⟩, ⟨0x3000000000000000⟩, ⟨0x5000000000000000⟩, ⟨0x7000000000000000⟩,
    ⟨0x9000000000000000⟩, ⟨0xb000000000000000⟩]

/-- Distances in whole degrees. -/
def twoPointsLib : S2Distance TwoPoints ℕ where
  indexCells g := ⟨[g.indexCell], by cases g <;> decide, by cases g <;> decide⟩
  bufferedCovering g d := if d < 90 then [g.leaf] else sixFaces
  isDistanceLessOrEqual index target limit := decide (index.degrees target ≤ limit)

theorem twoPointsLib_facts : BufferedCoveringFacts twoPointsLib (fun g => {p | p = g})
    TwoPoints.leaf (fun g p d => g.degrees p ≤ d) where
  near h := ⟨_, rfl, of_decide_eq_true h⟩
  within_mono hle h := h.trans hle
  covers := by
    intro g p d h
    by_cases hd : d < 90
    · refine ⟨g.leaf, by simp [twoPointsLib, hd], ?_⟩
      cases g <;> cases p <;> simp [TwoPoints.degrees] at h <;> first | decide | omega
    · refine ⟨p.indexCell.id, ?_, by cases p <;> decide⟩
      cases p <;> simp [twoPointsLib, hd, sixFaces, TwoPoints.indexCell]
  covering_valid := by
    intro g d c hc
    by_cases hd : d < 90
    · simp only [twoPointsLib, if_pos hd, List.mem_singleton] at hc
      subst hc
      cases g <;> decide
    · have hall : ∀ c ∈ sixFaces, c.isValid = true := by decide
      exact hall c (by simpa [twoPointsLib, hd] using hc)
  indexed := by
    rintro g p rfl
    exact ⟨p.indexCell, by simp [twoPointsLib], by cases p <;> decide⟩

def twoPointsHeap : Bool → TwoPoints
  | false => .origin
  | true => .east

/-- Within 0 degrees, then within 91: the second answer is taken from the first
row's covering, which is too small for it. -/
theorem cppS2PreparedDwithin_ne_cppS2Dwithin :
    BufferedCoveringFacts twoPointsLib (fun g => {p | p = g}) TwoPoints.leaf
        (fun g p d => g.degrees p ≤ d) ∧
      cppS2PreparedDwithin twoPointsLib twoPointsHeap [some true, some true]
        [some false, some false] [0, 91] = .ok [some false, some false] ∧
      cppS2Dwithin twoPointsLib twoPointsHeap [some true, some true]
        [some false, some false] [0, 91] = .ok [some false, some true] ∧
      cppS2PreparedDwithin twoPointsLib twoPointsHeap [some true, some true]
        [some false, some false] [0, 91] ≠
        cppS2Dwithin twoPointsLib twoPointsHeap [some true, some true]
          [some false, some false] [0, 91] :=
  ⟨twoPointsLib_facts, by decide, by decide, by decide⟩

/-- With the larger distance first the two operators agree. -/
theorem cppS2PreparedDwithin_eq_cppS2Dwithin_decreasing :
    cppS2PreparedDwithin twoPointsLib twoPointsHeap ([true, true, true].map some)
        ([false, false, true].map some) [91, 0, 5] =
      cppS2Dwithin twoPointsLib twoPointsHeap ([true, true, true].map some)
        ([false, false, true].map some) [91, 0, 5] := by
  refine (cppS2PreparedDwithin_eq_cppS2Dwithin_iff twoPointsLib_facts twoPointsHeap
    (x := [true, true, true]) (y := [false, false, true]) (d := [91, 0, 5]) rfl rfl).mpr ?_
  intro i p q e e' hp hq he he' hlt
  match i with
  | 0 => simp [firstRow] at he he'; omega
  | 1 => simp [firstRow] at he he'; omega
  | 2 => simp [firstRow] at he he'; omega
  | i + 3 => simp at he

end TwoPoints

end S2Geography.PreparedDwithin
