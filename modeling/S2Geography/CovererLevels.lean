import S2Geography.CovererRuns

/-!
# Levels of coverings

Cells are moved up to levels in use before they enter a search, and a normalised result is
moved down to such levels again. Every cell that is returned holds a cell that was put in, so
none of them is deeper than that one, and there are no more of them.
-/
namespace S2Geography

open DyadicCells DyadicCell S2CellUnion BufferCells
open S2CellId hiding none

/-! ### Vectors of disjoint cells -/

section Disjoint

variable {ids out : List S2CellId} {a b c l : S2CellId}

theorem Ascending.orderedIds (h : Ascending ids) (hids : ValidIds ids) : OrderedIds ids := by
  refine ⟨hids.ne_none, h.imp_of_mem ?_⟩
  intro a b ha hb hab
  exact (rangeMax_lt_rangeMin_iff (hids.ne_none a ha) (hids.ne_none b hb)).mp hab

theorem Ascending.eq_of_common (h : Ascending ids) (hids : ValidIds ids) (ha : a ∈ ids)
    (hb : b ∈ ids) (hc : c ≠ S2CellId.none) (hac : a.contains c = true)
    (hbc : b.contains c = true) : a = b := by
  apply (h.orderedIds hids).eq_of_meets ha hb
  rw [← intersects_iff_meets (hids.ne_none a ha) (hids.ne_none b hb)]
  exact intersects_of_common (hids a ha) (hids b hb) hc hac hbc

/-- Disjoint cells that each hold a cell of a vector are no more than the cells of it. -/
theorem Ascending.length_le (h : Ascending out) (hout : ValidIds out) (hids : ValidIds ids)
    (hsource : ∀ d ∈ out, ∃ r ∈ ids, d.contains r = true) : out.length ≤ ids.length := by
  choose! source hmem hcontains using hsource
  have hnodup : (out.map source).Nodup := by
    rw [List.nodup_map_iff_inj_on]
    · intro a ha b hb heq
      apply h.eq_of_common hout ha hb (hids.ne_none _ (hmem a ha)) (hcontains a ha)
      rw [heq]
      exact hcontains b hb
    · apply (h.orderedIds hout).ordered.imp
      intro a b hab heq
      rw [heq] at hab
      exact hab.not_meets (Within.refl _).meets
  have hsub : out.map source ⊆ ids := by
    intro r hr
    obtain ⟨d, hd, hdr⟩ := List.mem_map.mp hr
    exact hdr ▸ hmem d hd
  have hle := (List.subperm_of_subset hnodup hsub).length_le
  rwa [List.length_map] at hle

/-- A normalised cell holds the cells of the vector that cover its leaves. -/
theorem exists_source (hids : ValidIds ids) (hc : c ∈ normalizeIds ids) (hl : l.isLeaf = true)
    (hcl : c.contains l = true) :
    ∃ r ∈ ids, r.contains l = true ∧ c.contains r = true := by
  have hl0 := ne_none_of_isLeaf hl
  have hnormal := normalised_normalizeIds hids
  have hmem : l ∈ leafCells ids := by
    rw [← leafCells_normalizeIds hids.ne_none]
    exact ⟨hl, c, hc, hcl⟩
  obtain ⟨-, r, hr, hrl⟩ := hmem
  obtain ⟨w, hw, hrw⟩ := exists_of_mem hids.ne_none hr
  have hr0 := hids.ne_none r hr
  have hw0 := hnormal.valid.ne_none w hw
  have hwr := (contains_iff_within hw0 hr0).mpr hrw
  have heq := hnormal.ascending.eq_of_common hnormal.valid hw hc hl0
    (contains_trans hw0 hr0 hl0 hwr hrl) hcl
  exact ⟨r, hr, hrl, heq ▸ hwr⟩

end Disjoint

namespace S2RegionCoverer

variable {o : CovererOptions} {ids out cells : List S2CellId} {c d : S2CellId} {turns : ℕ}

/-! ### Moving up -/

/-- A level above the lowest one, or one that is in use apart from its depth. -/
def Adjusted (o : CovererOptions) (level : ℤ) : Prop :=
  level < o.minLevel ∨ o.minLevel ≤ level ∧ (level - o.minLevel) % o.levelMod = 0

theorem adjustLevel_spec (ho : o.Valid) (level : ℤ) :
    adjustLevel o level ≤ level ∧ Adjusted o (adjustLevel o level) ∧
      (o.minLevel ≤ level → o.minLevel ≤ adjustLevel o level) ∧
      (level < o.minLevel → adjustLevel o level = level) := by
  obtain ⟨-, -, -, hpos, -⟩ := ho
  rw [Adjusted, adjustLevel]
  split
  · rename_i h
    have hrem := Int.emod_nonneg (level - o.minLevel) (show o.levelMod ≠ 0 by omega)
    have hle : (level - o.minLevel) % o.levelMod ≤ level - o.minLevel := by
      have hdiv := Int.mul_ediv_add_emod (level - o.minLevel) o.levelMod
      have hquot := Int.ediv_nonneg (show 0 ≤ level - o.minLevel by omega)
        (show 0 ≤ o.levelMod by omega)
      have hprod := Int.mul_nonneg (show 0 ≤ o.levelMod by omega) hquot
      omega
    rw [Int.tmod_eq_emod_of_nonneg (by omega)]
    refine ⟨by omega, Or.inr ⟨by omega, ?_⟩, fun _ => by omega, fun _ => by omega⟩
    rw [show level - (level - o.minLevel) % o.levelMod - o.minLevel =
      level - o.minLevel - (level - o.minLevel) % o.levelMod by omega]
    exact Int.emod_eq_zero_of_dvd (Int.dvd_self_sub_emod)
  · rename_i h
    refine ⟨le_rfl, ?_, fun h => h, fun _ => rfl⟩
    by_cases hlow : level < o.minLevel
    · exact Or.inl hlow
    · refine Or.inr ⟨by omega, ?_⟩
      by_cases hone : o.levelMod = 1
      · rw [hone, Int.emod_one]
      · rw [show level - o.minLevel = 0 by omega, Int.zero_emod]

theorem atLevel_spec (hc : c.isValid = true) {newLevel : ℤ} (h0 : 0 ≤ newLevel)
    (hle : newLevel ≤ c.level) : (atLevel c newLevel).isValid = true ∧
      (atLevel c newLevel).level = newLevel ∧ (atLevel c newLevel).contains c = true := by
  rw [atLevel]
  split
  · exact parentAt_spec hc h0 hle
  · rename_i heq
    exact ⟨hc, (not_not.mp heq).symm, contains_self hc⟩

theorem nonneg_of_adjusted (ho : o.Valid) (hc : c.isValid = true) {newLevel : ℤ}
    (h : o.minLevel ≤ c.level → o.minLevel ≤ newLevel)
    (h' : c.level < o.minLevel → newLevel = c.level) : 0 ≤ newLevel := by
  have hmin := ho.min_nonneg
  have hlevel := (level_spec hc).1
  by_cases hlow : c.level < o.minLevel
  · rw [h' hlow]
    exact hlevel
  · exact hmin.trans (h (not_lt.mp hlow))

/-- The vector that `AdjustCellLevels` builds: cells of adjusted levels around all cells so
far. -/
structure AdjustInvariant (o : CovererOptions) (done out : List S2CellId) : Prop where
  adjusted : ∀ c ∈ out, c.isValid = true ∧ Adjusted o c.level ∧ ∃ d ∈ done, c.contains d = true
  covers : ∀ d ∈ done, ∃ c ∈ out, c.contains d = true
  length_le : out.length ≤ done.length

theorem adjustStep_invariant (ho : o.Valid) (hc : c.isValid = true) {done : List S2CellId}
    (hdone : ValidIds done) (h : AdjustInvariant o done out) :
    AdjustInvariant o (done ++ [c]) (adjustStep o out c) := by
  obtain ⟨hle, hadjusted, hstay, hsame⟩ := adjustLevel_spec ho c.level
  obtain ⟨hv, hlevel, hcontains⟩ := atLevel_spec hc (nonneg_of_adjusted ho hc hstay hsame) hle
  rw [← hlevel] at hadjusted
  simp only [adjustStep]
  generalize atLevel c (adjustLevel o c.level) = a at *
  have hold : ∀ b ∈ out, b.isValid = true ∧ Adjusted o b.level ∧
      ∃ d ∈ done ++ [c], b.contains d = true := by
    intro b hb
    obtain ⟨hbv, hbl, d, hd, hbd⟩ := h.adjusted b hb
    exact ⟨hbv, hbl, d, List.mem_append_left _ hd, hbd⟩
  split
  · -- the last cell holds the new one
    rename_i hlast
    rw [Option.any_eq_true] at hlast
    obtain ⟨last, hhead, hin⟩ := hlast
    have hmem := List.mem_of_mem_head? hhead
    refine ⟨hold, ?_, ?_⟩
    · intro d hd
      rcases List.mem_append.mp hd with hd | hd
      · exact h.covers d hd
      · rw [List.mem_singleton.mp hd]
        exact ⟨last, hmem, contains_trans (ne_none_of_isValid (hold last hmem).1)
          (ne_none_of_isValid hv) (ne_none_of_isValid hc) hin hcontains⟩
    · rw [List.length_append]
      exact h.length_le.trans (Nat.le_add_right _ _)
  · -- the new cell replaces those it holds
    refine ⟨?_, ?_, ?_⟩
    · intro b hb
      rcases List.mem_cons.mp hb with heq | hb
      · rw [heq]
        exact ⟨hv, hadjusted, c, List.mem_append_right _ (List.mem_singleton_self c), hcontains⟩
      · exact hold b ((List.dropWhile_sublist _).mem hb)
    · intro d hd
      rcases List.mem_append.mp hd with hd | hd
      · obtain ⟨b, hb, hbd⟩ := h.covers d hd
        rw [← List.takeWhile_append_dropWhile (p := a.contains) (l := out)] at hb
        rcases List.mem_append.mp hb with htake | hdrop
        · refine ⟨a, List.mem_cons_self .., ?_⟩
          have hbin := (List.takeWhile_sublist a.contains).mem htake
          exact contains_trans (ne_none_of_isValid hv) (ne_none_of_isValid (hold b hbin).1)
            (hdone.ne_none d hd) (List.mem_takeWhile_imp htake) hbd
        · exact ⟨b, List.mem_cons_of_mem _ hdrop, hbd⟩
      · rw [List.mem_singleton.mp hd]
        exact ⟨a, List.mem_cons_self .., hcontains⟩
    · have hdrop := (List.dropWhile_sublist (p := a.contains) (l := out)).length_le
      have hlen := h.length_le
      rw [List.length_cons, List.length_append, List.length_singleton]
      omega

theorem adjustCellLevels_spec (ho : o.Valid) (hcells : ValidIds cells) :
    AdjustInvariant o cells (adjustCellLevels o cells) := by
  have hrun : ∀ done out, ValidIds done → AdjustInvariant o done out →
      AdjustInvariant o (done ++ cells) (cells.foldl (adjustStep o) out) := by
    induction cells with
    | nil =>
      intro done out _ h
      rwa [List.append_nil]
    | cons c cells ih =>
      obtain ⟨hc, hcells⟩ := List.forall_mem_cons.mp hcells
      intro done out hdone h
      rw [List.foldl_cons, List.append_cons]
      apply ih hcells _ _ ?_ (adjustStep_invariant ho hc hdone h)
      intro d hd
      rcases List.mem_append.mp hd with hd | hd
      · exact hdone d hd
      · rw [List.mem_singleton.mp hd]
        exact hc
  rw [adjustCellLevels]
  split
  · rename_i hone
    refine ⟨?_, fun d hd => ⟨d, hd, contains_self (hcells d hd)⟩, le_rfl⟩
    intro c hc
    refine ⟨hcells c hc, ?_, c, hc, contains_self (hcells c hc)⟩
    rw [Adjusted, hone, Int.emod_one]
    omega
  · have hnil : AdjustInvariant o [] [] :=
      ⟨fun c hc => absurd hc List.not_mem_nil, fun d hd => absurd hd List.not_mem_nil, le_rfl⟩
    obtain ⟨hadjusted, hcovers, hlength⟩ :=
      hrun [] [] (fun c hc => absurd hc List.not_mem_nil) hnil
    exact ⟨fun c hc => hadjusted c (List.mem_reverse.mp hc), fun d hd => by
      simpa only [List.mem_reverse] using hcovers d hd, by rwa [List.length_reverse]⟩

/-- Cells no deeper than the deepest level can be candidates once their levels are adjusted. -/
theorem initialCells_adjustCellLevels (ho : o.Valid) (hcells : ValidIds cells)
    (hdeep : ∀ c ∈ cells, c.level ≤ o.maxLevel) :
    InitialCells o (adjustCellLevels o cells) := by
  intro c hc
  obtain ⟨hv, hadjusted, d, hd, hcd⟩ := (adjustCellLevels_spec ho hcells).adjusted c hc
  have hlevel := (level_le_of_contains hv (hcells d hd) hcd).trans (hdeep d hd)
  refine ⟨hv, ?_⟩
  rcases hadjusted with hlow | ⟨hmin, hstep⟩
  · exact Or.inl hlow
  · exact Or.inr ⟨hmin, hlevel, hstep⟩

/-! ### Moving down -/

theorem levelParams_of_valid (ho : o.Valid) :
    LevelParams o.minLevel o.levelMod := by
  obtain ⟨hmin, hle, hmax, hpos, hmod⟩ := ho
  exact ⟨hmin, by omega, hpos, hmod⟩

/-- A vector as a covering returns it. -/
structure Canonical (o : CovererOptions) (ids : List S2CellId) : Prop where
  valid : ValidIds ids
  ascending : Ascending ids
  inUse : ∀ c ∈ ids, InUse o c.level

/-- All cells inside a cell that are one step of levels below it. -/
def HasFamily (o : CovererOptions) (ids : List S2CellId) (id : S2CellId) : Prop :=
  ∀ d, d.isValid = true → d.level = id.level + o.levelMod → id.contains d = true → d ∈ ids

/-- No such cells could be replaced by the cell around them. -/
def Unmergeable (o : CovererOptions) (ids : List S2CellId) : Prop :=
  ∀ id, id.isValid = true → InUse o id.level → id.level + o.levelMod ≤ kMaxLevel →
    ¬ HasFamily o ids id

/-- The first levels in use below normalised cells leave no family complete: the cell around
one would be in use itself. -/
theorem unmergeable_of_isLeast (ho : o.Valid) (hnormal : Normalised ids)
    (hout : ∀ d ∈ out, ∃ c ∈ ids, c.contains d = true ∧
      IsLeast {l | c.level ≤ l ∧ LevelInUse o.minLevel o.levelMod l} d.level) :
    Unmergeable o out := by
  intro id hid hinUse hdeep hfamily
  have hid0 := ne_none_of_isValid hid
  have hpos := ho.mod_pos
  have hmember : ∀ l, l.isLeaf = true → id.contains l = true → ∃ d ∈ out, d.isValid = true ∧
      id.contains d = true ∧ d.level = id.level + o.levelMod ∧ d.contains l = true := by
    intro l hl hidl
    obtain ⟨d, hd, hidd, hlevel, hdl⟩ :=
      exists_descendant hid hl hidl (show id.level ≤ id.level + o.levelMod by omega) hdeep
    exact ⟨d, hfamily d hd hlevel hidd, hd, hidd, hlevel, hdl⟩
  have hcovered : leafCells [id] ⊆ leafCells ids := by
    intro l hl
    obtain ⟨hleaf, c, hc, hcl⟩ := hl
    rw [List.mem_singleton.mp hc] at hcl
    obtain ⟨d, hd, hdv, -, -, hdl⟩ := hmember l hleaf hcl
    obtain ⟨e, he, hed, -⟩ := hout d hd
    exact ⟨hleaf, e, he, contains_trans (hnormal.valid.ne_none e he) (ne_none_of_isValid hdv)
      (ne_none_of_isLeaf hleaf) hed hdl⟩
  obtain ⟨c, hc, hwithin⟩ := (hnormal.covers_iff hid).mpr hcovered
  have hcid := (contains_iff_within (hnormal.valid.ne_none c hc) hid0).mpr hwithin
  obtain ⟨l, hl, hidl⟩ := exists_leaf_contains hid0
  have hl0 := ne_none_of_isLeaf hl
  obtain ⟨d, hd, hdv, -, hlevel, hdl⟩ := hmember l hl hidl
  obtain ⟨e, he, hed, hleast⟩ := hout d hd
  have heq := hnormal.ascending.eq_of_common hnormal.valid he hc hl0
    (contains_trans (hnormal.valid.ne_none e he) (ne_none_of_isValid hdv) hl0 hed hdl)
    (contains_trans (hnormal.valid.ne_none c hc) hid0 hl0 hcid hidl)
  obtain ⟨hlow, hhigh, hstep⟩ := hinUse
  have hup := level_le_of_contains (hnormal.valid c hc) hid hcid
  have hfirst := hleast.2 ⟨heq ▸ hup, hlow, hhigh.trans ho.max_le, Or.inl hstep⟩
  omega

/-- What `finish` makes of cells of adjusted levels. -/
structure Finished (o : CovererOptions) (ids out : List S2CellId) : Prop where
  canonical : Canonical o out
  unmergeable : Unmergeable o out
  leafCells_eq : leafCells out = leafCells ids
  sources : (∀ c ∈ ids, InUse o c.level) → ∀ d ∈ out, ∃ r ∈ ids, d.contains r = true

/-- A cell of the first level in use inside a normalised cell. -/
theorem exists_source_of_level (ho : o.Valid) (hids : ValidIds ids)
    (hlevels : ∀ c ∈ ids, c.level < o.minLevel ∨ InUse o c.level) (hc : c ∈ normalizeIds ids)
    (hd : d.isValid = true) (hcd : c.contains d = true)
    (hleast : IsLeast {l | c.level ≤ l ∧ LevelInUse o.minLevel o.levelMod l} d.level) :
    InUse o d.level ∧ ∃ r ∈ ids, InUse o r.level → d.contains r = true := by
  obtain ⟨hmin, hle, hmax, hpos, hmod⟩ := ho
  have hcv := validIds_normalizeIds hids c hc
  have hc0 := ne_none_of_isValid hcv
  have hd0 := ne_none_of_isValid hd
  obtain ⟨l, hl, hdl⟩ := exists_leaf_contains hd0
  have hl0 := ne_none_of_isLeaf hl
  obtain ⟨r, hr, hrl, hcr⟩ := exists_source hids hc hl (contains_trans hc0 hd0 hl0 hcd hdl)
  have hup := level_le_of_contains hcv (hids r hr) hcr
  obtain ⟨⟨-, hdmin, -, hdstep⟩, hfirst⟩ := hleast
  have hbelow : InUse o r.level → d.level ≤ r.level := by
    intro hr'
    obtain ⟨hrmin, hrmax, hrstep⟩ := hr'
    exact hfirst ⟨hup, hrmin, hrmax.trans hmax, Or.inl hrstep⟩
  refine ⟨?_, r, hr, fun hr' => contains_of_common hd (hids r hr) hl0 hdl hrl (hbelow hr')⟩
  rcases hlevels r hr with hlow | hin
  · -- above the lowest level that level is the one in use
    have hdle : d.level ≤ o.minLevel := by
      apply hfirst
      refine ⟨by omega, le_rfl, hle.trans hmax, Or.inl ?_⟩
      rw [Int.sub_self, Int.zero_emod]
    have heq : d.level = o.minLevel := le_antisymm hdle hdmin
    rw [heq, InUse, Int.sub_self, Int.zero_emod]
    exact ⟨le_rfl, hle, rfl⟩
  · have hdr := hbelow hin
    obtain ⟨-, hrmax, hrstep⟩ := hin
    refine ⟨hdmin, hdr.trans hrmax, ?_⟩
    rcases hdstep with hstep | hlast
    · exact hstep
    · -- the last level is in use only as a level of the vector
      have heq : d.level = r.level := by
        rw [kMaxLevel] at hmax hlast
        omega
      rw [heq]
      exact hrstep

theorem finish_spec (ho : o.Valid) (hids : ValidIds ids)
    (hlevels : ∀ c ∈ ids, c.level < o.minLevel ∨ InUse o c.level)
    (h : finish o turns ids = some out) : Finished o ids out := by
  have hnormal := normalised_normalizeIds hids
  have hleaves := leafCells_normalizeIds hids.ne_none
  rw [finish] at h
  split at h
  · have hout := denormalised_of_eq_some (levelParams_of_valid ho) hnormal.valid h
    have hsource : ∀ d ∈ out, InUse o d.level ∧ ∃ r ∈ ids, InUse o r.level →
        d.contains r = true := by
      intro d hd
      obtain ⟨c, hc, hdv, hcd, hleast⟩ := (hout.mem_iff d).mp hd
      exact exists_source_of_level ho hids hlevels hc hdv hcd hleast
    refine ⟨⟨hout.validIds, hout.ascending hnormal.ascending, fun d hd => (hsource d hd).1⟩,
      unmergeable_of_isLeast ho hnormal ?_, hout.leafCells_eq.trans hleaves, ?_⟩
    · intro d hd
      obtain ⟨c, hc, -, hcd, hleast⟩ := (hout.mem_iff d).mp hd
      exact ⟨c, hc, hcd, hleast⟩
    intro hall d hd
    obtain ⟨r, hr, hdr⟩ := (hsource d hd).2
    exact ⟨r, hr, hdr (hall r hr)⟩
  · rename_i hplain
    rw [Option.some.injEq] at h
    rw [← h]
    have hmin0 := ho.min_nonneg
    have hmod1 := ho.mod_pos
    -- without a lowest level or steps every level is in use
    have hzero : o.minLevel = 0 := by omega
    have hone : o.levelMod = 1 := by omega
    have hleast : ∀ d ∈ normalizeIds ids,
        IsLeast {l | d.level ≤ l ∧ LevelInUse o.minLevel o.levelMod l} d.level := by
      intro d hd
      obtain ⟨hlevel0, hlevel30, -⟩ := level_spec (hnormal.valid d hd)
      rw [hzero, hone]
      exact ⟨⟨le_rfl, hlevel0, hlevel30, Or.inl (Int.emod_one _)⟩, fun l hl => hl.1⟩
    have hsource : ∀ d ∈ normalizeIds ids, InUse o d.level ∧ ∃ r ∈ ids, InUse o r.level →
        d.contains r = true := by
      intro d hd
      have hdv := hnormal.valid d hd
      exact exists_source_of_level ho hids hlevels hd hdv (contains_self hdv) (hleast d hd)
    refine ⟨⟨hnormal.valid, hnormal.ascending, fun d hd => (hsource d hd).1⟩,
      unmergeable_of_isLeast ho hnormal ?_, hleaves, ?_⟩
    · intro d hd
      exact ⟨d, hd, contains_self (hnormal.valid d hd), hleast d hd⟩
    intro hall d hd
    obtain ⟨r, hr, hdr⟩ := (hsource d hd).2
    exact ⟨r, hr, hdr (hall r hr)⟩

theorem exists_finish (ho : o.Valid) (hids : ValidIds ids) (hturns : 4 ^ kMaxLevel < turns) :
    ∃ out, finish o turns ids = some out := by
  rw [finish]
  split
  · obtain ⟨out, hrun, -⟩ := denormalize_spec (levelParams_of_valid ho) hturns (validIds_normalizeIds hids)
    exact ⟨out, hrun⟩
  · exact ⟨_, rfl⟩

/-- There are no more cells than before. -/
theorem Finished.length_le (h : Finished o ids out) (hids : ValidIds ids)
    (hall : ∀ c ∈ ids, InUse o c.level) : out.length ≤ ids.length :=
  h.canonical.ascending.length_le h.canonical.valid hids (h.sources hall)

/-! ### The first part of `CanonicalizeCovering` -/

/-- The cells before `Normalize`. -/
theorem exists_withLevels (turns : ℕ) (ho : o.Valid) (hids : ValidIds ids) :
    ∃ moved : List S2CellId, withLevels o turns ids = finish o turns moved ∧ ValidIds moved ∧
      (∀ c ∈ moved, c.level < o.minLevel ∨ InUse o c.level) ∧
      leafCells ids ⊆ leafCells moved ∧ moved.length = ids.length := by
  have hmax := ho.max_le
  rw [withLevels]
  split
  · have hmoved : ∀ c ∈ ids,
        (atLevel c (adjustLevel o (min c.level o.maxLevel))).isValid = true ∧
        (atLevel c (adjustLevel o (min c.level o.maxLevel))).level =
          adjustLevel o (min c.level o.maxLevel) ∧
        (atLevel c (adjustLevel o (min c.level o.maxLevel))).contains c = true := by
      intro c hc
      obtain ⟨hle, -, hstay, hsame⟩ := adjustLevel_spec ho (min c.level o.maxLevel)
      have hmin := ho.min_nonneg
      have hminmax := ho.min_le_max
      have hlevel := (level_spec (hids c hc)).1
      apply atLevel_spec (hids c hc)
      · by_cases hlow : min c.level o.maxLevel < o.minLevel
        · rw [hsame hlow]
          omega
        · exact hmin.trans (hstay (not_lt.mp hlow))
      · exact hle.trans (min_le_left _ _)
    refine ⟨_, rfl, ?_, ?_, ?_, List.length_map ..⟩
    · intro d hd
      obtain ⟨c, hc, rfl⟩ := List.mem_map.mp hd
      exact (hmoved c hc).1
    · intro d hd
      obtain ⟨c, hc, rfl⟩ := List.mem_map.mp hd
      obtain ⟨hle, hadjusted, -, -⟩ := adjustLevel_spec ho (min c.level o.maxLevel)
      rw [(hmoved c hc).2.1]
      rcases hadjusted with hlow | ⟨hmin, hstep⟩
      · exact Or.inl hlow
      · exact Or.inr ⟨hmin, hle.trans (min_le_right _ _), hstep⟩
    · intro l hl
      obtain ⟨hleaf, c, hc, hcl⟩ := hl
      obtain ⟨hv, -, hcontains⟩ := hmoved c hc
      exact ⟨hleaf, _, List.mem_map_of_mem hc, contains_trans (ne_none_of_isValid hv)
        (hids.ne_none c hc) (ne_none_of_isLeaf hleaf) hcontains hcl⟩
  · rename_i hplain
    have hmod1 := ho.mod_pos
    refine ⟨ids, rfl, hids, ?_, le_rfl, rfl⟩
    intro c hc
    have hlevel := (level_spec (hids c hc)).2.1
    rw [kMaxLevel] at hplain hmax
    have hone : o.levelMod = 1 := by omega
    rw [InUse, hone, Int.emod_one]
    omega

end S2RegionCoverer

end S2Geography
