import S2Geography.BufferCells
import S2Geography.CollectionAccessor

/-!
# Recycled parameters

The R functions that pass a parameter for every feature to a C++ operator first recycle
their arguments with `recycle_common`. The operators read the parameter by the index of the
feature and check no bound.
-/
namespace S2Geography.Recycling

open Exporter Accessors GeographyOperator

variable {σ F α β Ptr δ : Type}

/-! ### Vectors of R -/

/-- `final_length` of `recycle_common`, from the lengths of its arguments. -/
def finalLength (lengths : List ℕ) : Except Fault ℕ :=
  match (lengths.filter fun length => length ≠ 1).eraseDups with
  | [] => .ok 1
  | [length] => .ok length
  | nonConstantLengths => .error (.stop ("Incompatible lengths: " ++
      ", ".intercalate (nonConstantLengths.map toString)))

/-- `rep_len`, with missing values where there is nothing to repeat. -/
def repLen (na : α) (xs : List α) (n : ℕ) : List α :=
  (List.range n).map fun i => xs.getD (i % xs.length) na

/-- The doubles of R and their division. -/
structure RNumeric (δ : Type) where
  na : δ
  isNa : δ → Bool
  div : δ → δ → δ

/-- `xs / ys`: the shorter vector is recycled, and nothing comes of an empty one. -/
def RNumeric.divide (r : RNumeric δ) (xs ys : List δ) : List δ :=
  let n := if xs.length = 0 ∨ ys.length = 0 then 0 else max xs.length ys.length
  List.zipWith r.div (repLen r.na xs n) (repLen r.na ys n)

/-! ### The operators -/

/-- The S2 calls of the operators, on features behind external pointers. -/
structure S2Calls (Ptr δ : Type) where
  heap : Ptr → Geography (List StoredLoop)
  layers : S2Layers
  /-- `S2Polyline::Interpolate`. -/
  interpolate : List S2Point → δ → S2Point
  /-- `s2_length`. -/
  length : Geography (List StoredLoop) → δ
  /-- The border of the covering of a buffered region. -/
  bufferCells : BufferCells.CovererOptions → Ptr → δ → Geography (List StoredLoop)
  /-- The covering of a buffered region under the options of the call. -/
  covering : Ptr → δ → List S2CellId
  distance : PreparedDwithin.S2Distance (Geography (List StoredLoop)) δ

variable (calls : S2Calls Ptr δ) (r : RNumeric δ)

def zeroPoint : S2Point := ⟨.zero, .zero, .zero⟩

/-- `s2_interpolate_normalized` of a geography, given what becomes of one to rebuild. -/
def interpolateLine (geog : Geography (List StoredLoop)) (distanceNorm : δ)
    (rebuilt : Except Fault S2Point) : Except Fault S2Point :=
  if Accessors.s2IsEmpty geog then .ok zeroPoint
  else if geog.dimension ≠ 1 ∨ 1 < geog.numShapes then
    .error (.stop "`geog` must be a single polyline")
  else
    match geog with
    | .polyline [polyline] => .ok (calls.interpolate polyline distanceNorm)
    | .polyline _ => .error (.stop "`geog` must contain 0 or 1 polyines")
    | _ => rebuilt

/-- `s2_interpolate_normalized`. What is rebuilt from lines is lines or empty, and not rebuilt
again. -/
def s2InterpolateNormalized (geog : Geography (List StoredLoop)) (distanceNorm : δ) :
    Except Fault S2Point :=
  interpolateLine calls geog distanceNorm do
    let rebuilt ← s2Rebuild calls.layers geog .actionInclude .actionInclude .actionInclude
    interpolateLine calls rebuilt distanceNorm (.error .nullDereference)

/-- What `cpp_s2_interpolate_normalized` does with a feature and the distance it has read. -/
def interpolateFeature (geog : Geography (List StoredLoop)) (distanceNormalized : δ) :
    Except Fault (Option (Geography (List StoredLoop))) :=
  if r.isNa distanceNormalized then .ok none
  else if Accessors.s2IsEmpty geog then .ok (some (.point []))
  else do
    if ← s2IsCollection calls.layers geog then
      .error (.operatorException "`x` must be a simple geography")
    else if geog.dimension ≠ 1 then .error (.operatorException "`x` must be a polyline")
    else
      let point ← s2InterpolateNormalized calls geog distanceNormalized
      return some (.point (if point.eq zeroPoint then [] else [point]))

/-- `processFeature` of an operator that reads its parameter at the feature's index. -/
def processRead (value : F → δ → Except Fault α) (parameter : List δ) (feature : F) (i : ℕ)
    (op : σ) : Except Fault α × σ :=
  match parameter[i]? with
  | none => (.error .outOfBounds, op)
  | some x => (value feature x, op)

/-- `processFeature` of `cpp_s2_interpolate_normalized`. -/
def interpolateProcessFeature (distanceNormalized : List δ) :
    Ptr → ℕ → Unit → Except Fault (Option (Geography (List StoredLoop))) × Unit :=
  processRead (fun feature => interpolateFeature calls r (calls.heap feature)) distanceNormalized

def cppS2InterpolateNormalized (geog : List (Option Ptr)) (distanceNormalized : List δ) :
    Except Fault (List (Option (Geography (List StoredLoop)))) :=
  processVector (interpolateProcessFeature calls r distanceNormalized) none geog ()

/-- `processFeature` of `cpp_s2_covering_cell_ids`. -/
def coveringProcessFeature (distance : List δ) :
    Ptr → ℕ → Unit → Except Fault (Option (List S2CellId)) × Unit :=
  processRead (fun feature x => .ok (some (calls.covering feature x))) distance

def cppS2CoveringCellIds (geog : List (Option Ptr)) (distance : List δ) :
    Except Fault (List (Option (List S2CellId))) :=
  processVector (coveringProcessFeature calls distance) none geog ()

/-- `cpp_s2_length`. -/
def cppS2Length (geog : List (Option Ptr)) : Except Fault (List δ) :=
  processVector (fun feature _ op => (.ok (calls.length (calls.heap feature)), op)) r.na geog ()

/-! ### The R functions -/

/-- What `s2_interpolate` passes on. -/
def interpolateArguments (x : List (Option Ptr)) (distance radius : List δ) :
    Except Fault (List (Option Ptr) × List δ) := do
  let ratio := r.divide distance radius
  let n ← finalLength [x.length, ratio.length]
  let length ← cppS2Length calls r (repLen none x n)
  return (repLen none x n, r.divide ratio length)

def s2Interpolate (x : List (Option Ptr)) (distance radius : List δ) :
    Except Fault (List (Option (Geography (List StoredLoop)))) := do
  let (x, distance) ← interpolateArguments calls r x distance radius
  cppS2InterpolateNormalized calls r x distance

/-- What `s2_interpolate_normalized` passes on: the second argument as it came. -/
def interpolateNormalizedArguments (x : List (Option Ptr)) (distanceNormalized : List δ) :
    Except Fault (List (Option Ptr) × List δ) := do
  let n ← finalLength [x.length, distanceNormalized.length]
  return (repLen none x n, distanceNormalized)

def s2InterpolateNormalizedR (x : List (Option Ptr)) (distanceNormalized : List δ) :
    Except Fault (List (Option (Geography (List StoredLoop)))) := do
  let (x, distanceNormalized) ← interpolateNormalizedArguments x distanceNormalized
  cppS2InterpolateNormalized calls r x distanceNormalized

/-- What `s2_buffer_cells` passes on. -/
def bufferCellsArguments (x : List (Option Ptr)) (distance radius : List δ)
    (maxCells minLevel : List ℤ) :
    Except Fault (List (Option Ptr) × List δ × List ℤ × List ℤ) := do
  let ratio := r.divide distance radius
  let n ← finalLength [x.length, ratio.length, maxCells.length, minLevel.length]
  return (repLen none x n, repLen r.na ratio n, repLen 0 maxCells n, repLen 0 minLevel n)

def s2BufferCells (x : List (Option Ptr)) (distance radius : List δ)
    (maxCells minLevel : List ℤ) :
    Except Fault (List (Option (Geography (List StoredLoop)))) := do
  let (x, distance, maxCells, minLevel) ←
    bufferCellsArguments r x distance radius maxCells minLevel
  BufferCells.cppS2BufferCells calls.bufferCells x distance maxCells minLevel

/-- What `s2_covering_cell_ids` passes on for each feature. -/
def coveringArguments (x : List (Option Ptr)) (buffer radius : List δ) :
    Except Fault (List (Option Ptr) × List δ) := do
  let ratio := r.divide buffer radius
  let n ← finalLength [x.length, ratio.length]
  return (repLen none x n, repLen r.na ratio n)

def s2CoveringCellIds (x : List (Option Ptr)) (buffer radius : List δ) :
    Except Fault (List (Option (List S2CellId))) := do
  let (x, buffer) ← coveringArguments r x buffer radius
  cppS2CoveringCellIds calls x buffer

/-- What `s2_dwithin` and `s2_prepared_dwithin` pass on. -/
def dwithinArguments (x y : List (Option Ptr)) (distance radius : List δ) :
    Except Fault (List (Option Ptr) × List (Option Ptr) × List δ) := do
  let ratio := r.divide distance radius
  let n ← finalLength [x.length, y.length, ratio.length]
  return (repLen none x n, repLen none y n, repLen r.na ratio n)

def s2Dwithin [DecidableEq Ptr] (x y : List (Option Ptr)) (distance radius : List δ) :
    Except Fault (List (Option Bool)) := do
  let (x, y, distance) ← dwithinArguments r x y distance radius
  PreparedDwithin.cppS2Dwithin calls.distance calls.heap x y distance

def s2PreparedDwithin [DecidableEq Ptr] (x y : List (Option Ptr)) (distance radius : List δ) :
    Except Fault (List (Option Bool)) := do
  let (x, y, distance) ← dwithinArguments r x y distance radius
  PreparedDwithin.cppS2PreparedDwithin calls.distance calls.heap x y distance

/-! ### What is read -/

/-- The fault ends the call: `processVector` only catches operator exceptions. -/
def Stops (result : Except Fault α) : Prop :=
  ∃ fault, result = .error fault ∧ ∀ what, fault ≠ .operatorException what

/-- The features that the loop of an operator processes, with their indexes. -/
def processed (processFeature : F → ℕ → σ → Except Fault α × σ) :
    ℕ → List (Option F) → σ → List (ℕ × F)
  | _, [], _ => []
  | i, none :: rows, op => processed processFeature (i + 1) rows op
  | i, some feature :: rows, op =>
    (i, feature) ::
      match processFeature feature i op with
      | (.ok _, op) => processed processFeature (i + 1) rows op
      | (.error (.operatorException _), op) => processed processFeature (i + 1) rows op
      | (.error _, _) => []

theorem processed_cons (processFeature : F → ℕ → σ → Except Fault α × σ) (i : ℕ) (feature : F)
    (rows : List (Option F)) (op : σ) :
    (Stops (processFeature feature i op).1 ∧
      processed processFeature i (some feature :: rows) op = [(i, feature)]) ∨
    (¬Stops (processFeature feature i op).1 ∧
      processed processFeature i (some feature :: rows) op =
        (i, feature) :: processed processFeature (i + 1) rows (processFeature feature i op).2) := by
  rw [processed]
  rcases processFeature feature i op with ⟨result, op'⟩
  cases result with
  | ok value =>
    right
    exact ⟨fun ⟨fault, hfault, _⟩ => (by cases hfault), rfl⟩
  | error fault =>
    cases fault with
    | operatorException what =>
      right
      refine ⟨?_, rfl⟩
      rintro ⟨fault, hfault, hne⟩
      cases hfault
      exact hne what rfl
    | stop message => exact Or.inl ⟨⟨_, rfl, fun what => by simp⟩, rfl⟩
    | outOfBounds => exact Or.inl ⟨⟨_, rfl, fun what => by simp⟩, rfl⟩
    | nullDereference => exact Or.inl ⟨⟨_, rfl, fun what => by simp⟩, rfl⟩
    | stackOverflow => exact Or.inl ⟨⟨_, rfl, fun what => by simp⟩, rfl⟩

/-- A feature processed is one of the rows, at its index. -/
theorem getElem?_of_mem_processed {processFeature : F → ℕ → σ → Except Fault α × σ}
    (rows : List (Option F)) (i : ℕ) (op : σ) {k : ℕ} {feature : F}
    (h : (k, feature) ∈ processed processFeature i rows op) :
    ∃ j, k = i + j ∧ rows[j]? = some (some feature) := by
  induction rows generalizing i op with
  | nil => exact absurd h List.not_mem_nil
  | cons row rows ih =>
    have hlater : ∀ op', (k, feature) ∈ processed processFeature (i + 1) rows op' →
        ∃ j, k = i + j ∧ (row :: rows)[j]? = some (some feature) := by
      intro op' hmem
      obtain ⟨j, hj, hrow⟩ := ih (i + 1) op' hmem
      exact ⟨j + 1, by omega, by simpa using hrow⟩
    cases row with
    | none => exact hlater op h
    | some first =>
      rcases processed_cons processFeature i first rows op with ⟨-, heq⟩ | ⟨-, heq⟩
      · rw [heq, List.mem_singleton, Prod.mk.injEq] at h
        exact ⟨0, h.1, by simp [h.2]⟩
      · rw [heq, List.mem_cons, Prod.mk.injEq] at h
        rcases h with ⟨rfl, rfl⟩ | h
        · exact ⟨0, rfl, rfl⟩
        · exact hlater _ h

/-- The first feature there is gets processed. -/
theorem exists_mem_processed (processFeature : F → ℕ → σ → Except Fault α × σ)
    (rows : List (Option F)) (i : ℕ) (op : σ) {j : ℕ} {feature : F}
    (h : rows[j]? = some (some feature)) :
    ∃ k feature', i ≤ k ∧ (k, feature') ∈ processed processFeature i rows op := by
  induction rows generalizing i op j with
  | nil => simp at h
  | cons row rows ih =>
    cases row with
    | none =>
      cases j with
      | zero => simp at h
      | succ j =>
        obtain ⟨k, feature', hle, hmem⟩ := ih (i + 1) op (j := j) (by simpa using h)
        exact ⟨k, feature', by omega, hmem⟩
    | some first =>
      refine ⟨i, first, le_refl i, ?_⟩
      rcases processed_cons processFeature i first rows op with ⟨-, heq⟩ | ⟨-, heq⟩
      · rw [heq]
        exact List.mem_cons_self
      · rw [heq]
        exact List.mem_cons_self

/-- The element that recycling assigns to a feature. -/
def recycled (parameter : List β) (i : ℕ) : Option β :=
  parameter[if parameter.length = 1 then 0 else i]?

/-- For every feature processed, the operator reads inside the vector handed over, and reads
what is assigned to the feature. -/
def ReadsAssigned (features : List (ℕ × F)) (handed : List β) (assigned : ℕ → F → Option β) :
    Prop :=
  ∀ i feature, (i, feature) ∈ features → i < handed.length ∧ handed[i]? = assigned i feature

/-! ### Recycling -/

@[simp] theorem length_repLen (na : β) (xs : List β) (n : ℕ) : (repLen na xs n).length = n := by
  simp [repLen]

theorem length_of_finalLength {lengths : List ℕ} {n : ℕ} (h : finalLength lengths = .ok n)
    {length : ℕ} (hlength : length ∈ lengths) : length = n ∨ length = 1 := by
  by_cases hone : length = 1
  · exact Or.inr hone
  have hmem : length ∈ (lengths.filter fun length => length ≠ 1).eraseDups := by
    rw [List.mem_eraseDups, List.mem_filter]
    exact ⟨hlength, by simpa using hone⟩
  unfold finalLength at h
  split at h
  · next hnil =>
    rw [hnil] at hmem
    exact absurd hmem List.not_mem_nil
  · next m hm =>
    rw [hm, List.mem_singleton] at hmem
    cases h
    exact Or.inl hmem
  · cases h

theorem getElem?_repLen {na : β} {xs : List β} {n i : ℕ} (hlength : xs.length = n ∨ xs.length = 1)
    (hi : i < n) : (repLen na xs n)[i]? = recycled xs i := by
  unfold repLen recycled
  rw [List.getElem?_map, List.getElem?_range hi, Option.map_some]
  by_cases hone : xs.length = 1
  · rw [if_pos hone, hone, Nat.mod_one, List.getD_eq_getElem?_getD]
    obtain ⟨x, rfl⟩ := List.length_eq_one_iff.mp hone
    rfl
  · have hn : xs.length = n := hlength.resolve_right hone
    rw [if_neg hone, hn, Nat.mod_eq_of_lt hi, List.getD_eq_getElem?_getD,
      List.getElem?_eq_getElem (hn ▸ hi)]
    rfl

/-- A recycled parameter is read in range by whatever operator runs over as many rows. -/
theorem readsAssigned_repLen {processFeature : F → ℕ → σ → Except Fault α × σ}
    {rows : List (Option F)} {op : σ} {na : β} {parameter : List β} {n : ℕ}
    (hparameter : parameter.length = n ∨ parameter.length = 1) (hrows : rows.length ≤ n) :
    ReadsAssigned (processed processFeature 0 rows op) (repLen na parameter n)
      fun i _ => recycled parameter i := by
  intro i feature hmem
  obtain ⟨j, rfl, hrow⟩ := getElem?_of_mem_processed rows 0 op hmem
  have hlt := (List.getElem?_eq_some_iff.mp hrow).1
  rw [Nat.zero_add] at *
  refine ⟨by rw [length_repLen]; omega, getElem?_repLen hparameter (by omega)⟩

variable {calls r} in
theorem cppS2Length_eq (geog : List (Option Ptr)) :
    cppS2Length calls r geog =
      .ok (geog.map fun row => row.elim r.na fun feature => calls.length (calls.heap feature)) :=
  processVector_eq_map (fun feature => calls.length (calls.heap feature)) fun _ _ _ => rfl

variable {r} in
/-- The quotient of a recycled vector and one as long as the features. -/
theorem getElem?_divide {xs ys : List δ} {i : ℕ}
    (hlength : xs.length = ys.length ∨ xs.length = 1) (hi : i < ys.length) :
    (r.divide xs ys)[i]? = (recycled xs i).bind fun x => ys[i]?.map (r.div x) := by
  have hxs : xs.length ≠ 0 := by omega
  have hmax : max xs.length ys.length = ys.length := by omega
  have hcond : ¬(xs.length = 0 ∨ ys.length = 0) := by omega
  have hys : recycled ys i = ys[i]? := by
    unfold recycled
    split
    · next hone =>
      have hzero : i = 0 := by omega
      rw [hzero]
    · rfl
  unfold RNumeric.divide
  simp only [if_neg hcond, hmax]
  rw [List.getElem?_zipWith, getElem?_repLen hlength hi, getElem?_repLen (Or.inl rfl) hi, hys]
  cases recycled xs i <;> cases ys[i]? <;> rfl

variable {r} in
theorem length_divide {xs ys : List δ} (hlength : xs.length = ys.length ∨ xs.length = 1) :
    (r.divide xs ys).length = ys.length := by
  unfold RNumeric.divide
  rw [List.length_zipWith, length_repLen, length_repLen, Nat.min_self]
  split <;> omega

/-! ### The calls -/

/-- A call of one of the R functions. -/
inductive Call (Ptr δ : Type) where
  | interpolate (x : List (Option Ptr)) (distance radius : List δ)
  | interpolateNormalized (x : List (Option Ptr)) (distanceNormalized : List δ)
  | bufferCells (x : List (Option Ptr)) (distance radius : List δ) (maxCells minLevel : List ℤ)
  | coveringCellIds (x : List (Option Ptr)) (buffer radius : List δ)
  | dwithin (x y : List (Option Ptr)) (distance radius : List δ)
  | preparedDwithin (x y : List (Option Ptr)) (distance radius : List δ)

variable [DecidableEq Ptr]

/-- If `recycle_common` accepts the lengths, the operator reads every parameter in range and
as recycled; for `s2_interpolate`, divided by the length of the feature. -/
def Call.Reads (calls : S2Calls Ptr δ) (r : RNumeric δ) : Call Ptr δ → Prop
  | .interpolate x distance radius =>
    ∀ geog handed, interpolateArguments calls r x distance radius = .ok (geog, handed) →
      ReadsAssigned (processed (interpolateProcessFeature calls r handed) 0 geog ()) handed
        fun i feature => (recycled (r.divide distance radius) i).map fun ratio =>
          r.div ratio (calls.length (calls.heap feature))
  | .interpolateNormalized x distanceNormalized =>
    ∀ geog handed, interpolateNormalizedArguments x distanceNormalized = .ok (geog, handed) →
      ReadsAssigned (processed (interpolateProcessFeature calls r handed) 0 geog ()) handed
        fun i _ => recycled distanceNormalized i
  | .bufferCells x distance radius maxCells minLevel =>
    ∀ geog handed handedCells handedLevel,
      bufferCellsArguments r x distance radius maxCells minLevel =
        .ok (geog, handed, handedCells, handedLevel) →
      let features := processed (BufferCells.processFeature calls.bufferCells handed handedCells
        handedLevel) 0 geog {}
      ReadsAssigned features handed (fun i _ => recycled (r.divide distance radius) i) ∧
        ReadsAssigned features handedCells (fun i _ => recycled maxCells i) ∧
        ReadsAssigned features handedLevel (fun i _ => recycled minLevel i)
  | .coveringCellIds x buffer radius =>
    ∀ geog handed, coveringArguments r x buffer radius = .ok (geog, handed) →
      ReadsAssigned (processed (coveringProcessFeature calls handed) 0 geog ()) handed
        fun i _ => recycled (r.divide buffer radius) i
  | .dwithin x y distance radius =>
    ∀ geog1 geog2 handed, dwithinArguments r x y distance radius = .ok (geog1, geog2, handed) →
      ReadsAssigned (processed (fun p => PreparedDwithin.dwithinProcessFeature calls.distance
        calls.heap handed p.1 p.2) 0 (List.zipWith pairItem geog1 geog2)
        PreparedDwithin.DwithinOp.init) handed
        fun i _ => recycled (r.divide distance radius) i
  | .preparedDwithin x y distance radius =>
    ∀ geog1 geog2 handed, dwithinArguments r x y distance radius = .ok (geog1, geog2, handed) →
      ReadsAssigned (processed (fun p => PreparedDwithin.preparedProcessFeature calls.distance
        calls.heap handed p.1 p.2) 0 (List.zipWith pairItem geog1 geog2)
        PreparedDwithin.PreparedDwithinOp.init) handed
        fun i _ => recycled (r.divide distance radius) i

variable {calls : S2Calls Ptr δ} {r : RNumeric δ}

theorem reads_bufferCells (x : List (Option Ptr)) (distance radius : List δ)
    (maxCells minLevel : List ℤ) :
    (Call.bufferCells x distance radius maxCells minLevel).Reads calls r := by
  intro geog handed handedCells handedLevel h
  obtain ⟨n, hn, hout⟩ := exists_of_bind_ok h
  cases hout
  have hlength : ∀ length ∈ [x.length, (r.divide distance radius).length, maxCells.length,
      minLevel.length], length = n ∨ length = 1 := fun length => length_of_finalLength hn
  exact ⟨readsAssigned_repLen (hlength _ (by simp)) (by simp),
    readsAssigned_repLen (hlength _ (by simp)) (by simp),
    readsAssigned_repLen (hlength _ (by simp)) (by simp)⟩

theorem reads_coveringCellIds (x : List (Option Ptr)) (buffer radius : List δ) :
    (Call.coveringCellIds x buffer radius).Reads calls r := by
  intro geog handed h
  obtain ⟨n, hn, hout⟩ := exists_of_bind_ok h
  cases hout
  exact readsAssigned_repLen (length_of_finalLength hn (by simp)) (by simp)

theorem reads_dwithin (x y : List (Option Ptr)) (distance radius : List δ) :
    (Call.dwithin x y distance radius).Reads calls r := by
  intro geog1 geog2 handed h
  obtain ⟨n, hn, hout⟩ := exists_of_bind_ok h
  cases hout
  exact readsAssigned_repLen (length_of_finalLength hn (by simp)) (by simp)

theorem reads_preparedDwithin (x y : List (Option Ptr)) (distance radius : List δ) :
    (Call.preparedDwithin x y distance radius).Reads calls r := by
  intro geog1 geog2 handed h
  obtain ⟨n, hn, hout⟩ := exists_of_bind_ok h
  cases hout
  exact readsAssigned_repLen (length_of_finalLength hn (by simp)) (by simp)

theorem reads_interpolate (x : List (Option Ptr)) (distance radius : List δ) :
    (Call.interpolate x distance radius).Reads calls r := by
  intro geog handed h
  obtain ⟨n, hn, h⟩ := exists_of_bind_ok h
  obtain ⟨length, hlength, hout⟩ := exists_of_bind_ok h
  rw [cppS2Length_eq, Except.ok.injEq] at hlength
  subst hlength
  cases hout
  intro i feature hmem
  obtain ⟨j, rfl, hrow⟩ := getElem?_of_mem_processed _ 0 () hmem
  rw [Nat.zero_add] at *
  have hlt : j < n := by simpa using (List.getElem?_eq_some_iff.mp hrow).1
  have hratio : (r.divide distance radius).length = n ∨ (r.divide distance radius).length = 1 :=
    length_of_finalLength hn (by simp)
  have hsame : (r.divide distance radius).length =
      ((repLen none x n).map fun row => row.elim r.na fun feature =>
        calls.length (calls.heap feature)).length ∨
      (r.divide distance radius).length = 1 := by simpa using hratio
  refine ⟨by rw [length_divide hsame]; simpa using hlt, ?_⟩
  change _ = (recycled (r.divide distance radius) j).map fun ratio =>
    r.div ratio (calls.length (calls.heap feature))
  rw [getElem?_divide hsame (by simpa using hlt), List.getElem?_map, hrow]
  cases recycled (r.divide distance radius) j <;> rfl

theorem repLen_self (na : β) (xs : List β) : repLen na xs xs.length = xs := by
  apply List.ext_getElem?
  intro i
  by_cases hi : i < xs.length
  · rw [getElem?_repLen (Or.inl rfl) hi, recycled]
    split
    · next hone =>
      have hzero : i = 0 := by omega
      rw [hzero]
    · rfl
  · rw [List.getElem?_eq_none (by simpa using hi), List.getElem?_eq_none (by simpa using hi)]

/-- Two vectors are accepted if they are of one length, or one of them is of length one. -/
theorem finalLength_pair_iff (m k n : ℕ) :
    finalLength [m, k] = .ok n ↔ m = n ∧ k = n ∨ m = n ∧ k = 1 ∨ m = 1 ∧ k = n := by
  constructor
  · intro h
    have hm := length_of_finalLength h (show m ∈ [m, k] by simp)
    have hk := length_of_finalLength h (show k ∈ [m, k] by simp)
    by_cases hone : m = 1 ∧ k = 1
    · obtain ⟨rfl, rfl⟩ := hone
      cases h
      exact Or.inl ⟨rfl, rfl⟩
    · omega
  · rintro (⟨rfl, rfl⟩ | ⟨rfl, rfl⟩ | ⟨rfl, rfl⟩)
    · by_cases hone : k = 1
      · simp [finalLength, hone]
      · simp [finalLength, hone, List.eraseDups_cons]
    · by_cases hone : m = 1
      · simp [finalLength, hone]
      · simp [finalLength, hone, List.eraseDups_cons]
    · by_cases hone : k = 1
      · simp [finalLength, hone]
      · simp [finalLength, hone, List.eraseDups_cons]

/-- The features processed after the first, and what stops them. -/
theorem forall_processed_zero_iff (processFeature : F → ℕ → σ → Except Fault α × σ)
    (rows : List (Option F)) (op : σ) :
    (∀ i feature, (i, feature) ∈ processed processFeature 0 rows op → i = 0) ↔
      (∀ i, 1 ≤ i → ∀ feature, rows[i]? ≠ some (some feature)) ∨
      ∃ feature, rows[0]? = some (some feature) ∧ Stops (processFeature feature 0 op).1 := by
  cases rows with
  | nil => simp [processed]
  | cons row rows =>
    -- a later feature has an index of at least one, and the first of them is processed
    have hlater : ∀ op', (∀ i feature, (i, feature) ∈ processed processFeature 1 rows op' →
        i = 0) ↔ ∀ i, 1 ≤ i → ∀ feature, (row :: rows)[i]? ≠ some (some feature) := by
      intro op'
      constructor
      · intro h i hi feature hrow
        have hrow' : rows[i - 1]? = some (some feature) := by
          rw [← hrow, List.getElem?_cons, if_neg (by omega)]
        obtain ⟨k, feature', hk, hmem⟩ := exists_mem_processed processFeature rows 1 op' hrow'
        have hzero := h k feature' hmem
        omega
      · intro h i feature hmem
        obtain ⟨j, rfl, hrow⟩ := getElem?_of_mem_processed rows 1 op' hmem
        refine absurd ?_ (h (1 + j) (by omega) feature)
        rw [List.getElem?_cons, if_neg (by omega), Nat.add_sub_cancel_left, hrow]
    cases row with
    | none =>
      have hnone : ¬∃ feature, (none :: rows)[0]? = some (some feature) ∧
          Stops (processFeature feature 0 op).1 := by simp
      rw [or_iff_left hnone]
      exact hlater op
    | some first =>
      have hfirst : (∃ feature, (some first :: rows)[0]? = some (some feature) ∧
          Stops (processFeature feature 0 op).1) ↔ Stops (processFeature first 0 op).1 := by
        simp
      rw [hfirst]
      rcases processed_cons processFeature 0 first rows op with ⟨hstops, heq⟩ | ⟨hstops, heq⟩
      · rw [heq]
        exact ⟨fun _ => Or.inr hstops, fun _ i feature hmem => by simp_all⟩
      · rw [heq, or_iff_left hstops, ← hlater (processFeature first 0 op).2]
        constructor
        · exact fun h i feature hmem => h i feature (List.mem_cons_of_mem _ hmem)
        · intro h i feature hmem
          rcases List.mem_cons.mp hmem with heq' | hmem
          · exact (Prod.mk.inj heq').1
          · exact h i feature hmem

/-- One distance is read in range for the first feature only. -/
theorem reads_interpolateNormalized_singleton_iff (x : List (Option Ptr)) (q : δ) :
    (Call.interpolateNormalized x [q]).Reads calls r ↔
      (∀ i, 1 ≤ i → ∀ feature, x[i]? ≠ some (some feature)) ∨
      ∃ feature, x[0]? = some (some feature) ∧
        Stops (interpolateFeature calls r (calls.heap feature) q) := by
  have harguments : interpolateNormalizedArguments x [q] = .ok (x, [q]) := by
    rw [interpolateNormalizedArguments, List.length_singleton,
      (finalLength_pair_iff x.length 1 x.length).mpr (Or.inr (Or.inl ⟨rfl, rfl⟩))]
    exact congrArg (fun x => Except.ok (x, [q])) (repLen_self none x)
  have hfeature : ∀ feature, (interpolateProcessFeature calls r [q] feature 0 ()).1 =
      interpolateFeature calls r (calls.heap feature) q := fun _ => rfl
  have hprocessed := forall_processed_zero_iff (interpolateProcessFeature calls r [q]) x ()
  simp only [hfeature] at hprocessed
  rw [← hprocessed]
  constructor
  · intro h i feature hmem
    have hlt := (h x [q] harguments i feature hmem).1
    simpa using hlt
  · intro h geog handed hout i feature hmem
    rw [harguments, Except.ok.injEq, Prod.mk.injEq] at hout
    obtain ⟨rfl, rfl⟩ := hout
    obtain rfl := h i feature hmem
    exact ⟨by simp, rfl⟩

/-- Any other number of distances is that of the recycled vector. -/
theorem reads_interpolateNormalized_of_ne (x : List (Option Ptr)) {distanceNormalized : List δ}
    (hone : distanceNormalized.length ≠ 1) :
    (Call.interpolateNormalized x distanceNormalized).Reads calls r := by
  intro geog handed h
  obtain ⟨n, hn, hout⟩ := exists_of_bind_ok h
  cases hout
  have hlength : distanceNormalized.length = n := by
    have hmem : distanceNormalized.length ∈ [x.length, distanceNormalized.length] := by simp
    exact (length_of_finalLength hn hmem).resolve_right hone
  subst hlength
  have hself : ReadsAssigned (processed (interpolateProcessFeature calls r distanceNormalized) 0
      (repLen none x distanceNormalized.length) ())
      (repLen r.na distanceNormalized distanceNormalized.length)
      fun i _ => recycled distanceNormalized i := readsAssigned_repLen (Or.inl rfl) (by simp)
  rwa [repLen_self] at hself

theorem reads_interpolateNormalized_iff (x : List (Option Ptr)) (distanceNormalized : List δ) :
    (Call.interpolateNormalized x distanceNormalized).Reads calls r ↔
      ∀ q, distanceNormalized = [q] →
        (∀ i, 1 ≤ i → ∀ feature, x[i]? ≠ some (some feature)) ∨
        ∃ feature, x[0]? = some (some feature) ∧
          Stops (interpolateFeature calls r (calls.heap feature) q) := by
  by_cases hone : distanceNormalized.length = 1
  · obtain ⟨q, rfl⟩ := List.length_eq_one_iff.mp hone
    rw [reads_interpolateNormalized_singleton_iff]
    constructor
    · intro h q' hq
      cases hq
      exact h
    · intro h
      exact h q rfl
  · constructor
    · intro _ q hq
      exact absurd (congrArg List.length hq) hone
    · intro _
      exact reads_interpolateNormalized_of_ne x hone

/-- Every call reads its parameters in range and as recycled, except for
`s2_interpolate_normalized` with one distance and a feature after the first, unless the first
feature ends the call with an exception. -/
theorem reads_iff (calls : S2Calls Ptr δ) (r : RNumeric δ) (call : Call Ptr δ) :
    call.Reads calls r ↔
      ∀ x q, call = .interpolateNormalized x [q] →
        (∀ i, 1 ≤ i → ∀ feature, x[i]? ≠ some (some feature)) ∨
        ∃ feature, x[0]? = some (some feature) ∧
          Stops (interpolateFeature calls r (calls.heap feature) q) := by
  cases call with
  | interpolate x distance radius => simp [reads_interpolate]
  | interpolateNormalized x distanceNormalized =>
    rw [reads_interpolateNormalized_iff]
    constructor
    · intro h x' q heq
      cases heq
      exact h q rfl
    · intro h q hq
      subst hq
      exact h x q rfl
  | bufferCells x distance radius maxCells minLevel => simp [reads_bufferCells]
  | coveringCellIds x buffer radius => simp [reads_coveringCellIds]
  | dwithin x y distance radius => simp [reads_dwithin]
  | preparedDwithin x y distance radius => simp [reads_preparedDwithin]

/-- A line behind every pointer, and numbers that are never missing. -/
def lineCalls : S2Calls ℕ ℕ where
  heap _ := .polyline [[axisX, axisY]]
  layers := noLayers
  interpolate polyline distance :=
    if distance = 0 then polyline.headD zeroPoint else polyline.getLastD zeroPoint
  length _ := 1
  bufferCells _ _ _ := .point []
  covering _ _ := []
  distance := ⟨fun _ => .empty, fun _ _ => [], fun _ _ _ => false⟩

def wholeNumbers : RNumeric ℕ := ⟨0, fun _ => false, (· / ·)⟩

/-- The second of two lines is interpolated at a distance past the end of the vector. -/
theorem not_reads_twoLines :
    interpolateNormalizedArguments [some 0, some 1] [1] =
        (.ok ([some 0, some 1], [1]) : Except Fault (List (Option ℕ) × List ℕ)) ∧
      s2InterpolateNormalizedR lineCalls wholeNumbers [some 0, some 1] [1] =
        .error .outOfBounds ∧
      ¬(Call.interpolateNormalized [some 0, some 1] [1]).Reads lineCalls wholeNumbers := by
  refine ⟨rfl, rfl, fun h => ?_⟩
  have hmem : (1, 1) ∈ processed (interpolateProcessFeature lineCalls wholeNumbers [1]) 0
      [some 0, some 1] () := by decide
  exact absurd (h [some 0, some 1] [1] rfl 1 1 hmem).1 (by decide)

end S2Geography.Recycling
