import S2Geography.GeographyOperator
import S2Geography.CellId
import Mathlib.Data.List.OfFn
import Mathlib.Logic.Equiv.Basic

/-!
# Buffering with cell coverings

`cpp_s2_buffer_cells` owns one region coverer and sets its options before every row.
`max_cells` is always set. `min_level` is only set when the row's value is positive,
and then stays set for the rows that follow. Nothing else of the coverer survives a
call of `GetCovering`, which starts and ends with an empty queue and result.
-/
namespace S2Geography.BufferCells

/-- `S2RegionCoverer::Options`. -/
structure CovererOptions where
  maxCells : ℤ := 8
  minLevel : ℤ := 0
  maxLevel : ℤ := S2CellId.kMaxLevel
  levelMod : ℤ := 1
  deriving DecidableEq, Repr

namespace CovererOptions

def setMaxCells (o : CovererOptions) (maxCells : ℤ) : CovererOptions :=
  { o with maxCells := maxCells }

def setMinLevel (o : CovererOptions) (minLevel : ℤ) : CovererOptions :=
  { o with minLevel := max 0 (min S2CellId.kMaxLevel minLevel) }

end CovererOptions

variable {G δ α : Type}

/-- `processFeature` of `cpp_s2_buffer_cells`. `cover` is the border polygon of the
covering of the buffered region under the coverer's options at that moment. -/
def processFeature (cover : CovererOptions → G → δ → α) (distance : List δ)
    (maxCells minLevel : List ℤ) (feature : G) (i : ℕ) (coverer : CovererOptions) :
    Except Fault (Option α) × CovererOptions :=
  match maxCells[i]?, minLevel[i]?, distance[i]? with
  | some maxCells, some minLevel, some distance =>
    let coverer := coverer.setMaxCells maxCells
    let coverer := if minLevel > 0 then coverer.setMinLevel minLevel else coverer
    (.ok (some (cover coverer feature distance)), coverer)
  | _, _, _ => (.error .outOfBounds, coverer)

def cppS2BufferCells (cover : CovererOptions → G → δ → α) (geog : List (Option G))
    (distance : List δ) (maxCells minLevel : List ℤ) : Except Fault (List (Option α)) :=
  GeographyOperator.processVector (processFeature cover distance maxCells minLevel) none geog {}

/-- One row of the four argument vectors. -/
structure Row (G δ : Type) where
  geog : Option G
  distance : δ
  maxCells : ℤ
  minLevel : ℤ
  deriving DecidableEq, Repr

def bufferCells (cover : CovererOptions → G → δ → α) (rows : List (Row G δ)) :
    Except Fault (List (Option α)) :=
  cppS2BufferCells cover (rows.map Row.geog) (rows.map Row.distance) (rows.map Row.maxCells)
    (rows.map Row.minLevel)

/-- The options each feature is covered with. -/
def coveringOptions (rows : List (Row G δ)) : Except Fault (List (Option CovererOptions)) :=
  bufferCells (fun options _ _ => options) rows

/-- What a row does to the options of the coverer when its feature is processed. -/
def Row.setOptions (r : Row G δ) (o : CovererOptions) : CovererOptions :=
  if r.minLevel > 0 then (o.setMaxCells r.maxCells).setMinLevel r.minLevel
  else o.setMaxCells r.maxCells

/-- The options after the given rows; a missing row leaves them alone. -/
def optionsAfter (rows : List (Row G δ)) : CovererOptions :=
  rows.foldl (fun o r => if r.geog.isSome then r.setOptions o else o) {}

theorem optionsAfter_concat (rows : List (Row G δ)) (r : Row G δ) :
    optionsAfter (rows ++ [r]) =
      if r.geog.isSome then r.setOptions (optionsAfter rows) else optionsAfter rows := by
  simp [optionsAfter]

theorem optionsAfter_take_succ {rows : List (Row G δ)} {i : ℕ} {r : Row G δ}
    (h : rows[i]? = some r) :
    optionsAfter (rows.take (i + 1)) =
      if r.geog.isSome then r.setOptions (optionsAfter (rows.take i))
      else optionsAfter (rows.take i) := by
  rw [List.take_add_one, h]
  exact optionsAfter_concat _ _

theorem bufferCells_eq (cover : CovererOptions → G → δ → α) (rows : List (Row G δ)) :
    bufferCells cover rows = .ok (rows.mapIdx fun i r =>
      r.geog.map fun g => cover (r.setOptions (optionsAfter (rows.take i))) g r.distance) := by
  rw [bufferCells, cppS2BufferCells, GeographyOperator.processVector_eq
    (fun i o => o = optionsAfter (rows.take i))
    (fun i g => rows[i]?.map fun r =>
      cover (r.setOptions (optionsAfter (rows.take i))) g r.distance) (by rfl)]
  · congr 1
    apply List.ext_getElem?
    intro i
    simp only [List.getElem?_mapIdx, List.getElem?_map, Option.map_map]
    cases hi : rows[i]? with
    | none => rfl
    | some r => cases hg : r.geog <;> simp [hg]
  · rintro i o hi rfl
    obtain ⟨r, hr, hg⟩ := Option.map_eq_some_iff.mp (by simpa using hi)
    simp [optionsAfter_take_succ hr, hg]
  · rintro i g o hi rfl
    obtain ⟨r, hr, hg⟩ := Option.map_eq_some_iff.mp (by simpa using hi)
    have hopt : (if r.minLevel > 0 then ((optionsAfter (rows.take i)).setMaxCells
        r.maxCells).setMinLevel r.minLevel else (optionsAfter (rows.take i)).setMaxCells
        r.maxCells) = r.setOptions (optionsAfter (rows.take i)) := rfl
    simp only [processFeature, List.getElem?_map, hr, Option.map_some, hopt, true_and]
    simp [optionsAfter_take_succ hr, hg]

/-- Every coverer the rows can produce differs from a fresh one in the two set options. -/
theorem optionsAfter_eq (rows : List (Row G δ)) :
    ∃ c l, 0 ≤ l ∧ optionsAfter rows = { maxCells := c, minLevel := l } ∧
      (0 < l ↔ ∃ r ∈ rows, r.geog.isSome ∧ 0 < r.minLevel) := by
  induction rows using List.reverseRecOn with
  | nil => exact ⟨8, 0, le_rfl, rfl, by simp⟩
  | append_singleton rows r ih =>
    obtain ⟨c, l, hl, heq, hiff⟩ := ih
    rw [optionsAfter_concat, heq]
    by_cases hg : r.geog.isSome
    · by_cases hm : 0 < r.minLevel
      · refine ⟨r.maxCells, max 0 (min S2CellId.kMaxLevel r.minLevel), le_max_left _ _, ?_, ?_⟩
        · simp [hg, Row.setOptions, hm, CovererOptions.setMaxCells, CovererOptions.setMinLevel]
        · have hpos : 0 < max 0 (min (S2CellId.kMaxLevel : ℤ) r.minLevel) := by
            simp [S2CellId.kMaxLevel, hm]
          exact ⟨fun _ => ⟨r, by simp, hg, hm⟩, fun _ => hpos⟩
      · refine ⟨r.maxCells, l, hl, ?_, ?_⟩
        · simp [hg, Row.setOptions, hm, CovererOptions.setMaxCells]
        · simp [hiff, List.mem_append, or_and_right, exists_or, hm]
    · refine ⟨c, l, hl, by simp [hg], ?_⟩
      simp [hiff, List.mem_append, or_and_right, exists_or, hg]

theorem bufferCells_singleton (cover : CovererOptions → G → δ → α) (r : Row G δ) :
    bufferCells cover [r] = .ok [r.geog.map fun g => cover (r.setOptions {}) g r.distance] := by
  rw [bufferCells_eq]
  rfl

/-- Rows of one kind: either every feature sets the minimum level, or none does. -/
def Uniform (rows : List (Row G δ)) : Prop :=
  (∀ r ∈ rows, r.geog.isSome → 0 < r.minLevel) ∨ ∀ r ∈ rows, r.geog.isSome → r.minLevel ≤ 0

/-- Under uniform rows every feature is covered with the options of a fresh coverer. -/
theorem bufferCells_eq_map (cover : CovererOptions → G → δ → α) {rows : List (Row G δ)}
    (hu : Uniform rows) :
    bufferCells cover rows = .ok (rows.map fun r =>
      r.geog.map fun g => cover (r.setOptions {}) g r.distance) := by
  rw [bufferCells_eq]
  congr 1
  apply List.ext_getElem?
  intro i
  rw [List.getElem?_mapIdx, List.getElem?_map]
  cases hi : rows[i]? with
  | none => rfl
  | some r =>
    cases hg : r.geog with
    | none => simp [hg]
    | some g =>
      have hr := List.mem_of_getElem? hi
      have hsome : r.geog.isSome := by simp [hg]
      obtain ⟨c, l, hl, heq, hiff⟩ := optionsAfter_eq (rows.take i)
      have hset : r.setOptions (optionsAfter (rows.take i)) = r.setOptions {} := by
        rw [heq]
        rcases hu with hpos | hneg
        · simp [Row.setOptions, hpos r hr hsome, CovererOptions.setMaxCells,
            CovererOptions.setMinLevel]
        · have hl0 : l = 0 := by
            by_contra hne
            obtain ⟨r', hr', hg', hm'⟩ := hiff.mp (by omega)
            exact absurd (hneg r' (List.mem_of_mem_take hr') hg') (by omega)
          have hm := hneg r hr hsome
          simp [Row.setOptions, not_lt.mpr hm, CovererOptions.setMaxCells, hl0]
      simp [hg, hset]

/-- The rows of a list in another order. -/
def permute {β : Type} (xs : List β) (σ : Equiv.Perm (Fin xs.length)) : List β :=
  List.ofFn fun i => xs[σ i]

/-- A vectorised call treats its rows independently: it is the concatenation of the
one-element calls, and another order of the rows gives the same results in that order. -/
structure RowIndependent {β : Type} (f : List (Row G δ) → Except Fault (List β))
    (rows : List (Row G δ)) : Prop where
  concatenated : f rows = (rows.mapM fun r => f [r]).map List.flatten
  permuted : ∀ (σ : Equiv.Perm (Fin rows.length)) (out : List β), f rows = .ok out →
    ∃ out', f (permute rows σ) = .ok out' ∧ out'.length = out.length ∧
      ∀ i : Fin rows.length, out'[i]? = out[σ i]?

theorem concatenated_eq (cover : CovererOptions → G → δ → α) (rows : List (Row G δ)) :
    (rows.mapM fun r => bufferCells cover [r]).map List.flatten = .ok (rows.map fun r =>
      r.geog.map fun g => cover (r.setOptions {}) g r.distance) := by
  simp only [bufferCells_singleton]
  have h := List.mapM_pure (m := Except Fault) (l := rows)
    (f := fun r => [r.geog.map fun g => cover (r.setOptions {}) g r.distance])
  simp only [pure, Except.pure] at h
  simp only [h, Except.map, Except.ok.injEq]
  rw [← List.flatMap_def, ← List.map_eq_flatMap]

theorem Uniform.permute {rows : List (Row G δ)} (hu : Uniform rows)
    (σ : Equiv.Perm (Fin rows.length)) : Uniform (permute rows σ) := by
  have hmem : ∀ r ∈ BufferCells.permute rows σ, r ∈ rows := by
    intro r hr
    obtain ⟨i, rfl⟩ := List.mem_ofFn.mp hr
    exact List.getElem_mem _
  exact hu.imp (fun h r hr => h r (hmem r hr)) (fun h r hr => h r (hmem r hr))

theorem Uniform.rowIndependent (cover : CovererOptions → G → δ → α) {rows : List (Row G δ)}
    (hu : Uniform rows) : RowIndependent (bufferCells cover) rows where
  concatenated := by rw [bufferCells_eq_map cover hu, concatenated_eq]
  permuted := by
    intro σ out hout
    rw [bufferCells_eq_map cover hu, Except.ok.injEq] at hout
    subst hout
    refine ⟨_, bufferCells_eq_map cover (hu.permute σ), by simp [BufferCells.permute], ?_⟩
    intro i
    simp [BufferCells.permute]

/-- A row that does not set the minimum level inherits a positive one from any
earlier feature that did. -/
theorem coveringOptions_leak {rows out : List _} {r : Row G δ} {o : CovererOptions} {i : ℕ}
    (hout : coveringOptions rows = .ok out) (hi : rows[i]? = some r)
    (ho : out[i]? = some (some o)) (hm : r.minLevel ≤ 0) :
    0 < o.minLevel ↔ ∃ r' ∈ rows.take i, r'.geog.isSome ∧ 0 < r'.minLevel := by
  rw [coveringOptions, bufferCells_eq, Except.ok.injEq] at hout
  subst hout
  obtain ⟨c, l, -, heq, hiff⟩ := optionsAfter_eq (rows.take i)
  rw [List.getElem?_mapIdx, hi, Option.map_some, Option.some.injEq] at ho
  obtain ⟨g, -, rfl⟩ := Option.map_eq_some_iff.mp ho
  rw [← hiff, heq]
  simp [Row.setOptions, not_lt.mpr hm, CovererOptions.setMaxCells]

/-- The options, and with them the results, are independent of the other rows in every
order exactly when the rows are uniform in setting the minimum level. -/
theorem bufferCells_rowIndependent_iff (cover : CovererOptions → G → δ → α)
    (rows : List (Row G δ)) :
    RowIndependent coveringOptions rows ∧ RowIndependent (bufferCells cover) rows ↔
      Uniform rows := by
  refine ⟨fun ⟨h, _⟩ => ?_, fun hu => ⟨hu.rowIndependent _, hu.rowIndependent _⟩⟩
  by_contra hu
  simp only [Uniform, not_or, not_forall, not_le, not_lt] at hu
  obtain ⟨⟨r, hr, hg, hm⟩, ⟨r', hr', hg', hm'⟩⟩ := hu
  obtain ⟨i, hi⟩ := List.mem_iff_getElem?.mp hr
  obtain ⟨j, hj⟩ := List.mem_iff_getElem?.mp hr'
  obtain ⟨hilt, hir⟩ := List.getElem?_eq_some_iff.mp hi
  obtain ⟨hjlt, hjr⟩ := List.getElem?_eq_some_iff.mp hj
  obtain ⟨g, hg⟩ := Option.isSome_iff_exists.mp hg
  -- in the order given, row `i` is covered as if it were alone
  have hout : coveringOptions rows = .ok (rows.map fun r => r.geog.map fun _ => r.setOptions {}) :=
    h.concatenated.trans (concatenated_eq (fun options _ _ => options) rows)
  have hoi : (rows.map fun r => r.geog.map fun _ => r.setOptions {})[i]? =
      some (some (r.setOptions {})) := by
    rw [List.getElem?_map, hi, Option.map_some, hg, Option.map_some]
  have hzero : ¬ 0 < (r.setOptions {}).minLevel := by
    simp [Row.setOptions, not_lt.mpr hm, CovererOptions.setMaxCells]
  rcases lt_trichotomy j i with hlt | rfl | hlt
  · refine hzero ((coveringOptions_leak hout hi hoi hm).mpr ⟨r', ?_, hg', hm'⟩)
    exact List.mem_of_getElem? (by rw [List.getElem?_take_of_lt hlt, hj])
  · rw [hi, Option.some.injEq] at hj
    subst hj
    omega
  · -- exchanging the two rows puts the row that sets the level first
    let σ : Equiv.Perm (Fin rows.length) := Equiv.swap ⟨i, hilt⟩ ⟨j, hjlt⟩
    obtain ⟨out', hout', -, hperm⟩ := h.permuted σ _ hout
    have hpi : (permute rows σ)[i]? = some r' := by
      simp [permute, σ, hilt, hjr]
    have hpj : (permute rows σ)[j]? = some r := by
      simp [permute, σ, hjlt, hir]
    have hoj : out'[j]? = some (some (r.setOptions {})) := by
      have hpo : out'[j]? = _ := hperm ⟨j, hjlt⟩
      rw [hpo]
      simpa [σ] using hoi
    refine hzero ((coveringOptions_leak hout' hpj hoj hm).mpr ⟨r', ?_, hg', hm'⟩)
    exact List.mem_of_getElem? (by rw [List.getElem?_take_of_lt hlt, hpi])

/-- One point buffered twice, with a minimum level of 10 and then without one: the
second row is covered at level 10 as well, but at level 0 when it stands alone. -/
theorem coveringOptions_not_rowIndependent :
    coveringOptions [⟨some "POINT (0 0)", 1, 1000, 10⟩, ⟨some "POINT (0 0)", 1, 1000, -1⟩] =
        .ok [some { maxCells := 1000, minLevel := 10 },
          some { maxCells := 1000, minLevel := 10 }] ∧
      coveringOptions [⟨some "POINT (0 0)", 1, 1000, -1⟩] =
        .ok [some { maxCells := 1000, minLevel := 0 }] ∧
      ¬ RowIndependent coveringOptions
        [⟨some "POINT (0 0)", 1, 1000, 10⟩, ⟨some "POINT (0 0)", 1, 1000, -1⟩] := by
  refine ⟨by decide, by decide, fun h => ?_⟩
  exact absurd h.concatenated (by decide)

end S2Geography.BufferCells
