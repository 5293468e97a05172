import S2Geography.CovererFamilies

/-!
# Merging the cells of a covering

The loops of `CanonicalizeCovering` that replace neighbours by an ancestor, and all children
of a cell by the cell. Each keeps a vector of disjoint cells of levels in use that covers at
least what it covered, and shortens it.
-/
namespace S2Geography

open DyadicCells DyadicCell S2CellUnion BufferCells
open S2CellId hiding none

namespace S2RegionCoverer

variable {o : CovererOptions} {ids : List S2CellId} {a b c id : S2CellId} {turns : ℕ}

/-! ### Ancestors -/

theorem replaceCellsWithAncestor_eq (h : Canonical o ids) : replaceCellsWithAncestor ids id =
    (ids.filter fun c => decide (c < id.rangeMin)) ++
      id :: ids.filter fun c => !decide (c ≤ id.rangeMax) := by
  have hsorted := h.ascending.increasing h.valid
  rw [replaceCellsWithAncestor, takeWhile_eq_filter hsorted, dropWhile_eq_filter hsorted]
  · intro a b hab hb
    rw [decide_eq_true_eq] at hb ⊢
    exact hab.le.trans hb
  · intro a b hab hb
    rw [decide_eq_true_eq] at hb ⊢
    exact hab.trans hb

/-- A cell that holds one of disjoint cells holds or misses each of the others. -/
theorem disjoint_or_contains (h : Canonical o ids) (hid : id.isValid = true) (ha : a ∈ ids)
    (hia : id.contains a = true) (hc : c ∈ ids) :
    id.contains c = true ∨ c.rangeMax < id.rangeMin ∨ id.rangeMax < c.rangeMin := by
  have hc0 := h.valid.ne_none c hc
  have ha0 := h.valid.ne_none a ha
  have hid0 := ne_none_of_isValid hid
  by_cases hmeets : id.cell.Meets c.cell
  · rcases hmeets.within_or with hin | hout
    · -- a cell around the ancestor holds the one it has been found for
      have hcid := (contains_iff_within hc0 hid0).mpr hin
      have heq := h.ascending.eq_of_common h.valid hc ha ha0
        (contains_trans hc0 hid0 ha0 hcid hia) (contains_self (h.valid a ha))
      rw [heq]
      exact Or.inl hia
    · exact Or.inl ((contains_iff_within hid0 hc0).mpr hout)
  · rw [rangeMax_lt_rangeMin_iff hc0 hid0, rangeMax_lt_rangeMin_iff hid0 hc0]
    rcases not_meets_iff.mp hmeets with hbefore | hafter
    · exact Or.inr (Or.inr hbefore)
    · exact Or.inr (Or.inl hafter)

theorem contains_iff_of_mem (h : Canonical o ids) (hid : id.isValid = true) (ha : a ∈ ids)
    (hia : id.contains a = true) (hc : c ∈ ids) :
    (c < id.rangeMin ↔ c.rangeMax < id.rangeMin) ∧
      (¬ c ≤ id.rangeMax ↔ id.rangeMax < c.rangeMin) := by
  have hself := contains_self (h.valid c hc)
  rw [contains_eq_true] at hself
  rw [not_le]
  refine ⟨⟨?_, fun hlt => hself.2.trans_lt hlt⟩, ⟨?_, fun hlt => hlt.trans_le hself.1⟩⟩
  · intro hlt
    rcases disjoint_or_contains h hid ha hia hc with hin | hbefore | hafter
    · exact absurd hlt (not_lt.mpr (contains_eq_true.mp hin).1)
    · exact hbefore
    · have hidself := contains_eq_true.mp (contains_self hid)
      exact absurd (hlt.trans_le (hidself.1.trans hidself.2)) (hafter.trans_le hself.1).not_gt
  · intro hlt
    rcases disjoint_or_contains h hid ha hia hc with hin | hbefore | hafter
    · exact absurd hlt (not_lt.mpr (contains_eq_true.mp hin).2)
    · have hidself := contains_eq_true.mp (contains_self hid)
      exact absurd ((hidself.1.trans hidself.2).trans_lt hlt) (hself.2.trans_lt hbefore).not_gt
    · exact hafter

/-- An id is in front of the leaves of a cell, behind them, or among them. -/
theorem parts_of_id (hid : id.isValid = true) (c : S2CellId) :
    decide (c < id.rangeMin) = true ∧ (!decide (c ≤ id.rangeMax)) = false ∧
      id.contains c = false ∨
    decide (c < id.rangeMin) = false ∧ (!decide (c ≤ id.rangeMax)) = true ∧
      id.contains c = false ∨
    decide (c < id.rangeMin) = false ∧ (!decide (c ≤ id.rangeMax)) = false ∧
      id.contains c = true := by
  have hidself := contains_eq_true.mp (contains_self hid)
  have hends := hidself.1.trans hidself.2
  have hcontains : id.contains c = true ↔ ¬ c < id.rangeMin ∧ c ≤ id.rangeMax := by
    rw [contains_eq_true, not_lt]
  simp only [decide_eq_true_eq, Bool.not_eq_true', Bool.eq_false_iff, ne_eq, hcontains, not_and]
  by_cases hlt : c < id.rangeMin
  · have hle := hlt.le.trans hends
    exact Or.inl ⟨hlt, fun h => h hle, fun h => absurd hlt h⟩
  · by_cases hle : c ≤ id.rangeMax
    · exact Or.inr (Or.inr ⟨hlt, fun h => h hle, hlt, hle⟩)
    · exact Or.inr (Or.inl ⟨hlt, hle, fun _ => hle⟩)

/-- What replacing cells by an ancestor of one of them gives. -/
structure Replaced (o : CovererOptions) (ids out : List S2CellId) (id : S2CellId) : Prop where
  canonical : Canonical o out
  mem : id ∈ out
  leafCells_subset : leafCells ids ⊆ leafCells out
  length_le : out.length ≤ ids.length
  length_lt : ∀ a ∈ ids, ∀ b ∈ ids, a ≠ b → id.contains a = true → id.contains b = true →
    out.length < ids.length

theorem replaceCellsWithAncestor_spec (h : Canonical o ids) (hid : id.isValid = true)
    (hlevel : InUse o id.level) (ha : a ∈ ids) (hia : id.contains a = true) :
    Replaced o ids (replaceCellsWithAncestor ids id) id := by
  rw [replaceCellsWithAncestor_eq h]
  have hiff : ∀ c ∈ ids, _ := fun c hc => contains_iff_of_mem h hid ha hia hc
  have hmem : ∀ c, c ∈ (ids.filter fun c => decide (c < id.rangeMin)) ++
      id :: ids.filter (fun c => !decide (c ≤ id.rangeMax)) ↔
      c = id ∨ c ∈ ids ∧ (c.rangeMax < id.rangeMin ∨ id.rangeMax < c.rangeMin) := by
    intro c
    simp only [List.mem_append, List.mem_cons, List.mem_filter, Bool.not_eq_true',
      decide_eq_true_eq, decide_eq_false_iff_not]
    constructor
    · intro hc
      rcases hc with ⟨hc, hlt⟩ | heq | ⟨hc, hgt⟩
      · exact Or.inr ⟨hc, Or.inl ((hiff c hc).1.mp hlt)⟩
      · exact Or.inl heq
      · exact Or.inr ⟨hc, Or.inr ((hiff c hc).2.mp hgt)⟩
    · intro hc
      rcases hc with heq | ⟨hc, hbefore | hafter⟩
      · exact Or.inr (Or.inl heq)
      · exact Or.inl ⟨hc, (hiff c hc).1.mpr hbefore⟩
      · exact Or.inr (Or.inr ⟨hc, (hiff c hc).2.mpr hafter⟩)
  have hlength := @length_filter_add _ _ ids _ _ fun c _ => parts_of_id hid c
  have hid0 := ne_none_of_isValid hid
  constructor
  · constructor
    · intro c hc
      rcases (hmem c).mp hc with heq | ⟨hc, -⟩
      · rw [heq]
        exact hid
      · exact h.valid c hc
    · rw [Ascending, List.pairwise_append, List.pairwise_cons]
      have hlow : ∀ c ∈ ids.filter (fun c => decide (c < id.rangeMin)),
          c.rangeMax < id.rangeMin := by
        intro c hc
        obtain ⟨hc, hlt⟩ := List.mem_filter.mp hc
        exact (hiff c hc).1.mp (of_decide_eq_true hlt)
      have hhigh : ∀ c ∈ ids.filter (fun c => !decide (c ≤ id.rangeMax)),
          id.rangeMax < c.rangeMin := by
        intro c hc
        obtain ⟨hc, hgt⟩ := List.mem_filter.mp hc
        rw [Bool.not_eq_true', decide_eq_false_iff_not] at hgt
        exact (hiff c hc).2.mp hgt
      have hends := contains_eq_true.mp (contains_self hid)
      refine ⟨h.ascending.filter _, ⟨hhigh, h.ascending.filter _⟩, ?_⟩
      intro x hx y hy
      rcases List.mem_cons.mp hy with heq | hy
      · rw [heq]
        exact hlow x hx
      · exact (hlow x hx).trans ((hends.1.trans hends.2).trans_lt (hhigh y hy))
    · intro c hc
      rcases (hmem c).mp hc with heq | ⟨hc, -⟩
      · rw [heq]
        exact hlevel
      · exact h.inUse c hc
  · exact (hmem id).mpr (Or.inl rfl)
  · intro l hl
    obtain ⟨hleaf, c, hc, hcl⟩ := hl
    rcases disjoint_or_contains h hid ha hia hc with hin | hout
    · exact ⟨hleaf, id, (hmem id).mpr (Or.inl rfl), contains_trans hid0 (h.valid.ne_none c hc)
        (ne_none_of_isLeaf hleaf) hin hcl⟩
    · exact ⟨hleaf, c, (hmem c).mpr (Or.inr ⟨hc, hout⟩), hcl⟩
  · have hpos := List.length_pos_of_mem (List.mem_filter.mpr ⟨ha, hia⟩)
    rw [List.length_append, List.length_cons]
    omega
  · intro x hx y hy hne hxin hyin
    have htwo := one_lt_length_of_mem (List.mem_filter.mpr ⟨hx, hxin⟩)
      (List.mem_filter.mpr ⟨hy, hyin⟩) hne
    rw [List.length_append, List.length_cons]
    omega

/-! ### The best pair -/

/-- No pair has a deeper ancestor than the one found, which is that of a pair. -/
theorem bestMerge_spec (o : CovererOptions) (ids : List S2CellId) :
    (∀ pair ∈ ids.zip ids.tail, mergeLevel o pair ≤ (bestMerge o ids).1) ∧
      (bestMerge o ids = (-1, none) ∨ ∃ pair ∈ ids.zip ids.tail,
        bestMerge o ids = (mergeLevel o pair, some pair.1)) := by
  suffices hrun : ∀ pairs : List (S2CellId × S2CellId), ∀ start best,
      pairs.foldl (fun best pair => if mergeLevel o pair > best.1 then
        (mergeLevel o pair, some pair.1) else best) start = best →
      start.1 ≤ best.1 ∧ (∀ pair ∈ pairs, mergeLevel o pair ≤ best.1) ∧
        (best = start ∨ ∃ pair ∈ pairs, best = (mergeLevel o pair, some pair.1)) by
    exact (hrun (ids.zip ids.tail) (-1, none) (bestMerge o ids) rfl).2
  intro pairs
  induction pairs with
  | nil =>
    intro start best h
    exact ⟨h ▸ le_rfl, fun pair hpair => absurd hpair List.not_mem_nil, Or.inl h.symm⟩
  | cons pair pairs ih =>
    intro start best h
    obtain ⟨hge, hall, hfrom⟩ := ih _ best h
    have hstep : start.1 ≤ (if mergeLevel o pair > start.1 then
        (mergeLevel o pair, some pair.1) else start).1 ∧
        mergeLevel o pair ≤ (if mergeLevel o pair > start.1 then
          (mergeLevel o pair, some pair.1) else start).1 := by
      split
      · rename_i hgt
        exact ⟨hgt.le, le_rfl⟩
      · rename_i hle
        exact ⟨le_rfl, not_lt.mp hle⟩
    refine ⟨hstep.1.trans hge, List.forall_mem_cons.mpr ⟨hstep.2.trans hge, hall⟩, ?_⟩
    rcases hfrom with heq | ⟨p, hp, heq⟩
    · simp only at heq
      split at heq
      · exact Or.inr ⟨pair, List.mem_cons_self .., heq⟩
      · exact Or.inl heq
    · exact Or.inr ⟨p, List.mem_cons_of_mem _ hp, heq⟩

/-! ### The loops -/

/-- What the loops give: a covering of the same cells that is no longer. -/
structure Merged (o : CovererOptions) (ids out : List S2CellId) : Prop where
  canonical : Canonical o out
  leafCells_subset : leafCells ids ⊆ leafCells out
  length_le : out.length ≤ ids.length

variable {out : List S2CellId} {steps : ℕ} {level : ℤ}

theorem Merged.trans {mid : List S2CellId} (h : Merged o ids mid) (h' : Merged o mid out) :
    Merged o ids out :=
  ⟨h'.canonical, h.leafCells_subset.trans h'.leafCells_subset, h'.length_le.trans h.length_le⟩

theorem Replaced.merged (h : Replaced o ids out id) : Merged o ids out :=
  ⟨h.canonical, h.leafCells_subset, h.length_le⟩

/-- One turn: the parent of a cell of the vector, at the next level in use. -/
theorem parent_replaced (ho : o.Valid) (h : Canonical o ids) (hid : id ∈ ids)
    (hmin : id.level > o.minLevel) : (id.parentAt (id.level - o.levelMod)).isValid = true ∧
      (id.parentAt (id.level - o.levelMod)).level = id.level - o.levelMod ∧
      Replaced o ids (replaceCellsWithAncestor ids (id.parentAt (id.level - o.levelMod)))
        (id.parentAt (id.level - o.levelMod)) := by
  obtain ⟨-, -, hstep⟩ := h.inUse id hid
  have hmin0 := ho.min_nonneg
  have hpos := ho.mod_pos
  -- a level above the lowest one is a whole step above it
  have hroom : o.minLevel ≤ id.level - o.levelMod := by
    have hdvd := Int.dvd_of_emod_eq_zero hstep
    have hle := Int.le_of_dvd (by omega) hdvd
    omega
  obtain ⟨hp, hplevel, hcontains⟩ := parentAt_spec (h.valid id hid)
    (show 0 ≤ id.level - o.levelMod by omega) (by omega)
  refine ⟨hp, hplevel, replaceCellsWithAncestor_spec h hp ?_ hid hcontains⟩
  rw [hplevel]
  exact InUse.up ho (h.inUse id hid) hroom

/-- A turn stops, or goes on with the parent. -/
theorem mergeParents_cases (ho : o.Valid) (h : Canonical o ids) (hid : id ∈ ids)
    (hrun : mergeParents o turns (steps + 1) ids id id.level = some out) :
    out = ids ∧ (id.level ≤ o.minLevel ∨
      containsAllChildren o turns ids (id.parentAt (id.level - o.levelMod)) = some false) ∨
    ∃ parent, parent = id.parentAt (id.level - o.levelMod) ∧
      Replaced o ids (replaceCellsWithAncestor ids parent) parent ∧
      mergeParents o turns steps (replaceCellsWithAncestor ids parent) parent parent.level =
        some out := by
  rw [mergeParents] at hrun
  split at hrun
  · rename_i hmin
    obtain ⟨-, hplevel, hreplaced⟩ := parent_replaced ho h hid hmin
    rw [Option.bind_eq_bind, Option.bind_eq_some_iff] at hrun
    obtain ⟨present, hpresent, hrun⟩ := hrun
    cases present with
    | true =>
      refine Or.inr ⟨_, rfl, hreplaced, ?_⟩
      rw [hplevel]
      exact hrun
    | false => exact Or.inl ⟨(Option.some.inj hrun).symm, Or.inr hpresent⟩
  · rename_i hmin
    exact Or.inl ⟨(Option.some.inj hrun).symm, Or.inl (not_lt.mp hmin)⟩

theorem mergeParents_merged (ho : o.Valid) (h : Canonical o ids) (hid : id ∈ ids)
    (hrun : mergeParents o turns steps ids id id.level = some out) : Merged o ids out := by
  induction steps generalizing ids id with
  | zero => exact nomatch hrun
  | succ steps ih =>
    rcases mergeParents_cases ho h hid hrun with ⟨heq, -⟩ | ⟨parent, -, hreplaced, hrest⟩
    · rw [heq]
      exact ⟨h, le_rfl, le_rfl⟩
    · exact hreplaced.merged.trans (ih hreplaced.canonical hreplaced.mem hrest)

theorem exists_containsAllChildren (ids : List S2CellId) (ho : o.Valid)
    (hturns : 4 ^ kMaxLevel < turns) (hid : id.isValid = true) (hlevel : id.level + o.levelMod ≤ kMaxLevel) :
    ∃ present, containsAllChildren o turns ids id = some present := by
  have hpos := ho.mod_pos
  obtain ⟨children, hrun, -⟩ := idsUntil_childBeginAt hid
    (show id.level ≤ id.level + o.levelMod by omega) hlevel hturns
  rw [containsAllChildren]
  simp only [hrun]
  exact ⟨_, rfl⟩

theorem exists_mergeParents (ho : o.Valid) (hturns : 4 ^ kMaxLevel < turns)
    (h : Canonical o ids) (hid : id ∈ ids) (hsteps : id.level < steps) :
    ∃ out, mergeParents o turns steps ids id id.level = some out := by
  have hpos := ho.mod_pos
  induction steps generalizing ids id with
  | zero =>
    have hlevel := (level_spec (h.valid id hid)).1
    omega
  | succ steps ih =>
    rw [mergeParents]
    split
    · rename_i hmin
      obtain ⟨hp, hplevel, hreplaced⟩ := parent_replaced ho h hid hmin
      have hmax := (level_spec (h.valid id hid)).2.1
      obtain ⟨present, hpresent⟩ := exists_containsAllChildren ids ho hturns hp (by
        rw [hplevel, kMaxLevel]
        omega)
      obtain ⟨out, hout⟩ := ih hreplaced.canonical hreplaced.mem (by
        rw [hplevel]
        omega)
      rw [hplevel] at hout
      cases present with
      | true =>
        refine ⟨out, ?_⟩
        simp only [hpresent]
        exact hout
      | false =>
        refine ⟨ids, ?_⟩
        simp only [hpresent]
        rfl
    · exact ⟨ids, rfl⟩

/-- Neighbours whose common ancestors are all too large. -/
def Apart (o : CovererOptions) (ids : List S2CellId) : Prop :=
  ∀ pair ∈ ids.zip ids.tail, pair.1.getCommonAncestorLevel pair.2 < o.minLevel

/-- The best pair of a vector is either too far apart, or it can be replaced. -/
theorem bestMerge_cases (ho : o.Valid) (h : Canonical o ids) :
    (bestMerge o ids).1 < o.minLevel ∧ Apart o ids ∨
      ∃ c, bestMerge o ids = ((bestMerge o ids).1, some c) ∧ o.minLevel ≤ (bestMerge o ids).1 ∧
        (c.parentAt (bestMerge o ids).1).level = (bestMerge o ids).1 ∧
        Replaced o ids (replaceCellsWithAncestor ids (c.parentAt (bestMerge o ids).1))
          (c.parentAt (bestMerge o ids).1) ∧
        (replaceCellsWithAncestor ids (c.parentAt (bestMerge o ids).1)).length < ids.length := by
  obtain ⟨hall, hfrom⟩ := bestMerge_spec o ids
  have hmin0 := ho.min_nonneg
  by_cases hlow : (bestMerge o ids).1 < o.minLevel
  · refine Or.inl ⟨hlow, ?_⟩
    intro pair hpair
    by_contra hge
    have hadjusted := (adjustLevel_spec ho (pair.1.getCommonAncestorLevel pair.2)).2.2.1
      (not_lt.mp hge)
    have hbest := hall pair hpair
    rw [mergeLevel] at hbest
    omega
  · rcases hfrom with heq | ⟨pair, hpair, heq⟩
    · rw [heq] at hlow
      simp only at hlow
      omega
    · obtain ⟨ha, hb, hlt⟩ := of_mem_zip_tail (h.ascending.increasing h.valid) hpair
      obtain ⟨hle, hadjusted, -, hsame⟩ :=
        adjustLevel_spec ho (pair.1.getCommonAncestorLevel pair.2)
      have hbest : (bestMerge o ids).1 = mergeLevel o pair := by rw [heq]
      rw [not_lt, hbest] at hlow
      have hav := h.valid _ ha
      have hbv := h.valid _ hb
      have hnonneg : 0 ≤ mergeLevel o pair := hmin0.trans hlow
      obtain ⟨hla, hlb, hparent⟩ := (le_getCommonAncestorLevel_iff hav hbv hnonneg).mp hle
      obtain ⟨hp, hplevel, hpa⟩ := parentAt_spec hav hnonneg hla
      have hpb := (parentAt_spec hbv hnonneg hlb).2.2
      rw [← hparent] at hpb
      have hinUse : InUse o (pair.1.parentAt (mergeLevel o pair)).level := by
        rw [hplevel]
        refine ⟨hlow, hla.trans (h.inUse _ ha).2.1, ?_⟩
        exact (hadjusted.resolve_left (not_lt.mpr hlow)).2
      have hreplaced := replaceCellsWithAncestor_spec h hp hinUse ha hpa
      rw [hbest]
      exact Or.inr ⟨pair.1, heq, hlow, hplevel, hreplaced,
        hreplaced.length_lt _ ha _ hb hlt.ne hpa hpb⟩

/-- A turn stops, or goes on with what the ancestor of two neighbours makes of the vector. -/
theorem mergeCells_cases (ho : o.Valid) (h : Canonical o ids)
    (hrun : mergeCells o turns (steps + 1) ids = some out) :
    out = ids ∧ (ids.length ≤ o.maxCellsSize ∨ Apart o ids) ∨
    ∃ id mid, Replaced o ids (replaceCellsWithAncestor ids id) id ∧
      mergeParents o turns turns (replaceCellsWithAncestor ids id) id id.level = some mid ∧
      mergeCells o turns steps mid = some out := by
  rw [mergeCells] at hrun
  split at hrun
  · simp only at hrun
    rcases bestMerge_cases ho h with ⟨hlow, hapart⟩ | ⟨c, heq, hlow, hlevel, hreplaced, -⟩
    · rw [if_pos hlow, Option.some.injEq] at hrun
      exact Or.inl ⟨hrun.symm, Or.inr hapart⟩
    · rw [if_neg (not_lt.mpr hlow), Option.bind_eq_bind, Option.bind_eq_some_iff] at hrun
      obtain ⟨c', hc', hrun⟩ := hrun
      have hsnd : (bestMerge o ids).2 = some c := by rw [heq]
      rw [hsnd, Option.some.injEq] at hc'
      rw [← hc', Option.bind_eq_bind, Option.bind_eq_some_iff] at hrun
      obtain ⟨mid, hmid, hrun⟩ := hrun
      refine Or.inr ⟨_, mid, hreplaced, ?_, hrun⟩
      rw [hlevel]
      exact hmid
  · rename_i hsmall
    rw [Option.some.injEq] at hrun
    exact Or.inl ⟨hrun.symm, Or.inl (not_lt.mp hsmall)⟩

/-- The covering that the loop ends with: small enough, or without cells that can be merged. -/
theorem mergeCells_merged (ho : o.Valid) (h : Canonical o ids)
    (hrun : mergeCells o turns steps ids = some out) :
    Merged o ids out ∧ (out.length ≤ o.maxCellsSize ∨ Apart o out) := by
  induction steps generalizing ids with
  | zero => exact nomatch hrun
  | succ steps ih =>
    rcases mergeCells_cases ho h hrun with ⟨heq, hend⟩ | ⟨id, mid, hreplaced, hmid, hrest⟩
    · rw [heq]
      exact ⟨⟨h, le_rfl, le_rfl⟩, hend⟩
    · have hparents := mergeParents_merged ho hreplaced.canonical hreplaced.mem hmid
      obtain ⟨hmerged, hend⟩ := ih hparents.canonical hrest
      exact ⟨hreplaced.merged.trans (hparents.trans hmerged), hend⟩

theorem exists_mergeCells (ho : o.Valid) (hturns : 4 ^ kMaxLevel < turns) (h : Canonical o ids)
    (hsteps : ids.length < steps) : ∃ out, mergeCells o turns steps ids = some out := by
  induction steps generalizing ids with
  | zero => omega
  | succ steps ih =>
    rw [mergeCells]
    split
    · simp only
      rcases bestMerge_cases ho h with ⟨hlow, -⟩ | ⟨c, heq, hlow, hlevel, hreplaced, hshorter⟩
      · exact ⟨ids, by rw [if_pos hlow]⟩
      · have hsnd : (bestMerge o ids).2 = some c := by rw [heq]
        have hdeep : (c.parentAt (bestMerge o ids).1).level < turns := by
          have hbound := (level_spec (hreplaced.canonical.valid _ hreplaced.mem)).2.1
          rw [kMaxLevel] at hturns
          omega
        obtain ⟨mid, hmid⟩ :=
          exists_mergeParents ho hturns hreplaced.canonical hreplaced.mem hdeep
        have hmerged := mergeParents_merged ho hreplaced.canonical hreplaced.mem hmid
        have hlength := hmerged.length_le
        obtain ⟨out, hout⟩ := ih hmerged.canonical (by omega)
        refine ⟨out, ?_⟩
        rw [hlevel] at hmid
        rw [if_neg (not_lt.mpr hlow), hsnd]
        change (mergeParents o turns turns _ _ _ >>= fun covering =>
          mergeCells o turns steps covering) = _
        rw [hmid]
        exact hout
    · exact ⟨ids, rfl⟩

/-! ### Cells that cannot be merged -/

/-- Neighbours that no cell holds lie on faces one after the other. -/
theorem Apart.length_le (h : Canonical o ids) (hzero : o.minLevel = 0) (hapart : Apart o ids) :
    ids.length ≤ 6 := by
  have hfaces : ∀ pair ∈ ids.zip ids.tail, pair.1.face < pair.2.face := by
    intro pair hpair
    obtain ⟨ha, hb, hlt⟩ := of_mem_zip_tail (h.ascending.increasing h.valid) hpair
    have hav := h.valid _ ha
    have hbv := h.valid _ hb
    have hle : pair.1.face ≤ pair.2.face := by
      rw [face_eq, face_eq]
      exact Nat.div_le_div_right (lt_def.mp hlt).le
    apply lt_of_le_of_ne hle
    intro heq
    have hlow := hapart pair hpair
    rw [hzero, ← not_le, le_getCommonAncestorLevel_iff hav hbv le_rfl] at hlow
    apply hlow
    exact ⟨(level_spec hav).1, (level_spec hbv).1, (parentAt_zero_eq_iff (ne_none_of_isValid hav)
      (ne_none_of_isValid hbv)).mpr heq⟩
  have hchain : (ids.map face).Pairwise (· < ·) := by
    have hids : ids.IsChain fun a b => a.face < b.face := isChain_of_zip_tail hfaces
    exact List.isChain_iff_pairwise.mp ((List.isChain_map face).mpr hids)
  have hsub : ids.map face ⊆ List.range 6 := by
    intro n hn
    obtain ⟨c, hc, rfl⟩ := List.mem_map.mp hn
    exact List.mem_range.mpr (face_lt_of_isValid (h.valid c hc))
  have hle := (List.subperm_of_subset (hchain.imp Nat.ne_of_lt) hsub).length_le
  rwa [List.length_map, List.length_range] at hle

theorem getCommonAncestorLevel_comm (ha : a.isValid = true) (hb : b.isValid = true) {level : ℤ}
    (h0 : 0 ≤ level) (h : a.getCommonAncestorLevel b < level) :
    b.getCommonAncestorLevel a < level := by
  rw [← not_le] at h ⊢
  rw [le_getCommonAncestorLevel_iff ha hb h0] at h
  rw [le_getCommonAncestorLevel_iff hb ha h0]
  intro hba
  obtain ⟨hlb, hla, heq⟩ := hba
  exact h ⟨hla, hlb, heq.symm⟩

/-- With too many cells `IsCanonical` accepts only neighbours without such ancestors. -/
theorem apart_of_isCanonicalFrom (ho : o.Valid) {count : ℕ} (ha : a.isValid = true)
    (h : isCanonicalFrom o true count a ids = true) :
    ∀ pair ∈ (a :: ids).zip ids, pair.1.getCommonAncestorLevel pair.2 < o.minLevel := by
  have hmin0 := ho.min_nonneg
  induction ids generalizing a count with
  | nil => exact fun pair hpair => absurd hpair List.not_mem_nil
  | cons c ids ih =>
    obtain ⟨⟨hc, -, -, hapart⟩, hsame, hother⟩ :=
      (isCanonicalFrom_next ho (ne_none_of_isValid ha)).mp h
    have hrest : ∃ n, isCanonicalFrom o true n c ids = true := by
      by_cases hsiblings : Siblings o a c
      · exact ⟨_, (hsame hsiblings).2⟩
      · exact ⟨_, hother hsiblings⟩
    obtain ⟨n, hn⟩ := hrest
    intro pair hpair
    rcases List.mem_cons.mp hpair with heq | hin
    · rw [heq]
      exact getCommonAncestorLevel_comm hc ha hmin0 (hapart rfl)
    · exact ih hc hn pair hin

theorem apart_of_isCanonical (ho : o.Valid) (hmany : o.maxCellsSize < ids.length)
    (h : isCanonical o ids = true) : Apart o ids := by
  cases ids with
  | nil => exact fun pair hpair => absurd hpair List.not_mem_nil
  | cons c ids =>
    rw [isCanonical, decide_eq_true hmany, isCanonicalFrom_first ho] at h
    obtain ⟨hc, -, hrest⟩ := h
    exact apart_of_isCanonicalFrom ho hc hrest

end S2RegionCoverer

end S2Geography
