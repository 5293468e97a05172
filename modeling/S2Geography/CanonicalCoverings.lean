import S2Geography.RegionCoverings

/-!
# Canonical coverings

`IsCanonical` accepts a vector exactly if it is sorted, disjoint and of levels in use, has no
complete family and, with too many cells, no neighbours that an ancestor could replace. The
merges of `CanonicalizeCovering` keep that, so its last check does not fail.
-/
namespace S2Geography

open DyadicCells DyadicCell S2CellUnion BufferCells
open S2CellId hiding none

namespace S2RegionCoverer

variable {o : CovererOptions} {ids run pre post ds out : List S2CellId}
  {a b c id p prev : S2CellId} {turns count steps : ℕ} {many : Bool}

/-! ### What `IsCanonical` finds out -/

/-- Members of one family pass for siblings. -/
theorem siblings_of_contains (hid : id.isValid = true) (hmin : o.minLevel ≤ id.level)
    (ha : a.isValid = true) (hb : b.isValid = true) (hia : id.contains a = true)
    (hib : id.contains b = true) (hla : a.level = id.level + o.levelMod)
    (hlb : b.level = id.level + o.levelMod) : Siblings o a b := by
  have hlevel : b.level - o.levelMod = id.level := by omega
  refine ⟨by omega, hlb.trans hla.symm, ?_⟩
  rw [hlevel, parentAt_eq hid hb hib, parentAt_eq hid ha hia]

theorem canonical_of_isCanonicalFrom (ho : o.Valid) (hprev : prev.isValid = true)
    (h : isCanonicalFrom o many count prev ids = true) :
    Canonical o ids ∧ ∀ c ∈ ids, prev.rangeMax < c.rangeMin := by
  induction ids generalizing prev count with
  | nil =>
    refine ⟨⟨fun c hc => absurd hc List.not_mem_nil, List.Pairwise.nil, ?_⟩, ?_⟩
    · exact fun c hc => absurd hc List.not_mem_nil
    · exact fun c hc => absurd hc List.not_mem_nil
  | cons c ids ih =>
    obtain ⟨⟨hc, hinUse, hlt, -⟩, hsame, hother⟩ :=
      (isCanonicalFrom_next ho (ne_none_of_isValid hprev)).mp h
    have hrest : Canonical o ids ∧ ∀ d ∈ ids, c.rangeMax < d.rangeMin := by
      by_cases hsiblings : Siblings o prev c
      · exact ih hc (hsame hsiblings).2
      · exact ih hc (hother hsiblings)
    obtain ⟨hcanonical, hafter⟩ := hrest
    have hends := contains_eq_true.mp (contains_self hc)
    constructor
    · constructor
      · exact List.forall_mem_cons.mpr ⟨hc, hcanonical.valid⟩
      · exact List.pairwise_cons.mpr ⟨hafter, hcanonical.ascending⟩
      · exact List.forall_mem_cons.mpr ⟨hinUse, hcanonical.inUse⟩
    · intro d hd
      rcases List.mem_cons.mp hd with heq | hd
      · rw [heq]
        exact hlt
      · exact hlt.trans ((hends.1.trans hends.2).trans_lt (hafter d hd))

theorem canonical_of_isCanonical (ho : o.Valid) (h : isCanonical o ids = true) :
    Canonical o ids := by
  cases ids with
  | nil =>
    exact ⟨fun c hc => absurd hc List.not_mem_nil, List.Pairwise.nil,
      fun c hc => absurd hc List.not_mem_nil⟩
  | cons c ids =>
    obtain ⟨hc, hinUse, hrest⟩ := (isCanonicalFrom_first ho).mp h
    obtain ⟨hcanonical, hafter⟩ := canonical_of_isCanonicalFrom ho hc hrest
    constructor
    · exact List.forall_mem_cons.mpr ⟨hc, hcanonical.valid⟩
    · exact List.pairwise_cons.mpr ⟨hafter, hcanonical.ascending⟩
    · exact List.forall_mem_cons.mpr ⟨hinUse, hcanonical.inUse⟩

theorem one_lt_familySize (ho : o.Valid) : 1 < 4 ^ o.levelMod.toNat := by
  have hpos := ho.mod_pos
  exact Nat.one_lt_pow (by omega) (by omega)

/-- The count stays below the size of a family. -/
theorem exists_count (ho : o.Valid) (hprev : prev.isValid = true)
    (hcount : count < 4 ^ o.levelMod.toNat)
    (h : isCanonicalFrom o many count prev (pre ++ id :: ids) = true) :
    ∃ n, 1 ≤ n ∧ n < 4 ^ o.levelMod.toNat ∧ isCanonicalFrom o many n id ids = true := by
  have hone := one_lt_familySize ho
  induction pre generalizing prev count with
  | nil =>
    obtain ⟨-, hsame, hother⟩ := (isCanonicalFrom_next ho (ne_none_of_isValid hprev)).mp h
    by_cases hsiblings : Siblings o prev id
    · obtain ⟨hne, hrest⟩ := hsame hsiblings
      exact ⟨count + 1, by omega, by omega, hrest⟩
    · exact ⟨1, le_rfl, hone, hother hsiblings⟩
  | cons c pre ih =>
    rw [List.cons_append] at h
    obtain ⟨⟨hc, -⟩, hsame, hother⟩ := (isCanonicalFrom_next ho (ne_none_of_isValid hprev)).mp h
    by_cases hsiblings : Siblings o prev c
    · obtain ⟨hne, hrest⟩ := hsame hsiblings
      exact ih hc (by omega) hrest
    · exact ih hc hone (hother hsiblings)

/-- Siblings one after the other are counted. -/
theorem count_add_length_lt (ho : o.Valid) (hp : p.isValid = true) (hmin : o.minLevel ≤ p.level)
    (hmember : ∀ d ∈ id :: ds, d.isValid = true ∧ p.contains d = true ∧
      d.level = p.level + o.levelMod)
    (hcount : count < 4 ^ o.levelMod.toNat)
    (h : isCanonicalFrom o many count id (ds ++ post) = true) :
    count + ds.length < 4 ^ o.levelMod.toNat := by
  induction ds generalizing id count with
  | nil => exact hcount
  | cons d ds ih =>
    obtain ⟨⟨hid, hpid, hlevel⟩, hds⟩ := List.forall_mem_cons.mp hmember
    obtain ⟨⟨hd, hpd, hdlevel⟩, -⟩ := List.forall_mem_cons.mp hds
    rw [List.cons_append] at h
    obtain ⟨-, hsame, -⟩ := (isCanonicalFrom_next ho (ne_none_of_isValid hid)).mp h
    obtain ⟨hne, hrest⟩ := hsame (siblings_of_contains hp hmin hid hd hpid hpd hlevel hdlevel)
    have hlength := ih hds (by omega) hrest
    rw [List.length_cons]
    omega

theorem unmergeable_of_isCanonical (ho : o.Valid) (h : isCanonical o ids = true) :
    Unmergeable o ids := by
  have hcanonical := canonical_of_isCanonical ho h
  intro p hp hinUse hdeep hfamily
  obtain ⟨ds, -, hmem, hasc, hlength⟩ := exists_family ho hp hdeep
  obtain ⟨post, hpost⟩ := exists_idsFrom_eq ho hcanonical hp hdeep hfamily hmem hasc
  have hone := one_lt_familySize ho
  cases ds with
  | nil =>
    rw [List.length_nil] at hlength
    omega
  | cons d ds =>
    have hsplit : ids = ids.takeWhile (fun c => decide (c < p.rangeMin)) ++ d :: (ds ++ post) := by
      rw [← List.cons_append, ← hpost, idsFrom, List.takeWhile_append_dropWhile]
    obtain ⟨many, hmany⟩ : ∃ many, isCanonicalFrom o many 1 S2CellId.none ids = true := ⟨_, h⟩
    -- the first member is reached with a count below the size of the family
    have hreach : ∃ n, 1 ≤ n ∧ n < 4 ^ o.levelMod.toNat ∧
        isCanonicalFrom o many n d (ds ++ post) = true := by
      rw [hsplit] at hmany
      cases hpre : ids.takeWhile (fun c => decide (c < p.rangeMin)) with
      | nil =>
        rw [hpre, List.nil_append] at hmany
        exact ⟨1, le_rfl, hone, ((isCanonicalFrom_first ho).mp hmany).2.2⟩
      | cons c pre =>
        rw [hpre, List.cons_append] at hmany
        obtain ⟨hc, -, hrest⟩ := (isCanonicalFrom_first ho).mp hmany
        exact exists_count ho hc hone hrest
    obtain ⟨n, hpos, hlt, hrest⟩ := hreach
    have hcounted := count_add_length_lt ho hp hinUse.1 (fun e he => (hmem e).mp he) hlt hrest
    rw [List.length_cons] at hlength
    omega

/-! ### What `IsCanonical` accepts -/

/-- Cells of the level of a cell, with the same parent one step of levels up. -/
def SameFamily (o : CovererOptions) (run : List S2CellId) (c : S2CellId) : Prop :=
  ∀ d ∈ run, d.level = c.level ∧
    d.parentAt (c.level - o.levelMod) = c.parentAt (c.level - o.levelMod)

theorem sameFamily_singleton (o : CovererOptions) (c : S2CellId) : SameFamily o [c] c := by
  intro d hd
  rw [List.mem_singleton.mp hd]
  exact ⟨rfl, rfl⟩

theorem SameFamily.concat (h : SameFamily o run prev) (hsiblings : Siblings o prev c) :
    SameFamily o (run ++ [c]) c := by
  obtain ⟨-, hlevel, hparent⟩ := hsiblings
  intro d hd
  rcases List.mem_append.mp hd with hd | hd
  · obtain ⟨hdl, hdp⟩ := h d hd
    rw [hlevel] at hparent ⊢
    exact ⟨hdl, hdp.trans hparent.symm⟩
  · exact sameFamily_singleton o c d hd

/-- The cells of one family in a vector are not all of it. -/
theorem length_ne_of_unmergeable (ho : o.Valid) (hcanonical : Canonical o ids)
    (hunmergeable : Unmergeable o ids) (hsub : run.Sublist ids) (hc : c ∈ run)
    (hroom : o.minLevel ≤ c.level - o.levelMod)
    (hsame : SameFamily o run c) : run.length ≠ 4 ^ o.levelMod.toNat := by
  intro hfull
  have hrun := hcanonical.sublist hsub
  have hmin0 := ho.min_nonneg
  have hmod := ho.mod_pos
  have hcv := hrun.valid c hc
  have hnonneg : 0 ≤ c.level - o.levelMod := by omega
  have hup : c.level - o.levelMod ≤ c.level := by omega
  obtain ⟨hp, hlevel, -⟩ := parentAt_spec hcv hnonneg hup
  have hdown : (c.parentAt (c.level - o.levelMod)).level + o.levelMod = c.level := by omega
  have hdeep : (c.parentAt (c.level - o.levelMod)).level + o.levelMod ≤ kMaxLevel := by
    rw [hdown]
    exact (level_spec hcv).2.1
  have hmember : ∀ d ∈ run, (c.parentAt (c.level - o.levelMod)).contains d = true ∧
      d.level = (c.parentAt (c.level - o.levelMod)).level + o.levelMod := by
    intro d hd
    obtain ⟨hdl, hdp⟩ := hsame d hd
    rw [hdown, ← hdp]
    exact ⟨(parentAt_spec (hrun.valid d hd) hnonneg (by omega)).2.2, hdl⟩
  have hfamily := hasFamily_of_length ho hrun hp hdeep hmember hfull
  apply hunmergeable _ hp ?_ hdeep
  · intro d hd hdl hpd
    exact hsub.mem (hfamily d hd hdl hpd)
  · rw [hlevel]
    exact InUse.up ho (hrun.inUse c hc) hroom

/-- The run of the cells counted goes on with a sibling, or starts again. -/
theorem isCanonicalFrom_of_canonical (ho : o.Valid) (hcanonical : Canonical o (run ++ ids))
    (hunmergeable : Unmergeable o (run ++ ids)) (hprev : prev ∈ run)
    (hrun : SameFamily o run prev)
    (hapart : many = true →
      (prev :: ids).IsChain fun a b => a.getCommonAncestorLevel b < o.minLevel) :
    isCanonicalFrom o many run.length prev ids = true := by
  induction ids generalizing run prev with
  | nil => rw [isCanonicalFrom]
  | cons c ids ih =>
    have hc0 : c ∈ run ++ c :: ids := List.mem_append_right _ (List.mem_cons_self ..)
    have hc := hcanonical.valid c hc0
    have hpv := hcanonical.valid prev (List.mem_append_left _ hprev)
    have hrest : many = true →
        (c :: ids).IsChain fun a b => a.getCommonAncestorLevel b < o.minLevel := by
      intro hmany
      exact (List.isChain_cons_cons.mp (hapart hmany)).2
    rw [isCanonicalFrom_next ho (ne_none_of_isValid hpv)]
    refine ⟨⟨hc, hcanonical.inUse c hc0, ?_, ?_⟩, ?_, ?_⟩
    · exact (List.pairwise_append.mp hcanonical.ascending).2.2 prev hprev c
        (List.mem_cons_self ..)
    · intro hmany
      exact getCommonAncestorLevel_comm hpv hc ho.min_nonneg
        (List.isChain_cons_cons.mp (hapart hmany)).1
    · intro hsiblings
      rw [List.append_cons] at hcanonical hunmergeable
      have hmem : c ∈ run ++ [c] := List.mem_append_right _ (List.mem_singleton_self c)
      have hsame := hrun.concat hsiblings
      have hlength : (run ++ [c]).length = run.length + 1 := by
        rw [List.length_append, List.length_singleton]
      rw [← hlength]
      exact ⟨length_ne_of_unmergeable ho hcanonical hunmergeable
        (List.sublist_append_left (run ++ [c]) ids) hmem hsiblings.1 hsame,
        ih hcanonical hunmergeable hmem hsame hrest⟩
    · intro _
      have hsub : ([c] ++ ids).Sublist (run ++ c :: ids) :=
        List.sublist_append_right run (c :: ids)
      exact ih (hcanonical.sublist hsub) (hunmergeable.sublist hsub) (List.mem_singleton_self c)
        (sameFamily_singleton o c) hrest

theorem isCanonical_of_canonical (ho : o.Valid) (hcanonical : Canonical o ids)
    (hunmergeable : Unmergeable o ids) (hapart : o.maxCellsSize < ids.length → Apart o ids) :
    isCanonical o ids = true := by
  cases ids with
  | nil => rw [isCanonical, isCanonicalFrom]
  | cons c ids =>
    have hc : c ∈ c :: ids := List.mem_cons_self ..
    rw [isCanonical, isCanonicalFrom_first ho]
    refine ⟨hcanonical.valid c hc, hcanonical.inUse c hc, ?_⟩
    change isCanonicalFrom o _ [c].length c ids = true
    apply isCanonicalFrom_of_canonical ho hcanonical hunmergeable (List.mem_singleton_self c)
      (sameFamily_singleton o c)
    intro hmany
    exact isChain_of_zip_tail (hapart (of_decide_eq_true hmany))

/-- `IsCanonical` accepts sorted and disjoint cells of levels in use, unless a family is
complete or, with too many cells, an ancestor could replace neighbours. -/
theorem isCanonical_iff (ho : o.Valid) : isCanonical o ids = true ↔
    Canonical o ids ∧ Unmergeable o ids ∧ (o.maxCellsSize < ids.length → Apart o ids) := by
  constructor
  · intro h
    exact ⟨canonical_of_isCanonical ho h, unmergeable_of_isCanonical ho h,
      fun hmany => apart_of_isCanonical ho hmany h⟩
  · intro h
    obtain ⟨hcanonical, hunmergeable, hapart⟩ := h
    exact isCanonical_of_canonical ho hcanonical hunmergeable hapart

/-- A cell of level 2 in the corner of the first face. -/
def corner : S2CellId := ((fromFace 0).child 0).child 0

/-- Its family at level 4. -/
def cornerFamily : List S2CellId :=
  (List.range 16).map fun i => (corner.child (i / 4)).child (i % 4)

theorem isCanonical_iff_cornerFamily :
    (Canonical sparse (cornerFamily.take 3) ∧ Unmergeable sparse (cornerFamily.take 3) ∧
      (sparse.maxCellsSize < 3 → Apart sparse (cornerFamily.take 3))) ∧
    ¬ (Canonical sparse cornerFamily ∧ Unmergeable sparse cornerFamily ∧
      (sparse.maxCellsSize < 16 → Apart sparse cornerFamily)) := by
  constructor
  · have haccepts : isCanonical sparse (cornerFamily.take 3) = true := by decide +kernel
    exact (isCanonical_iff sparse_valid).mp haccepts
  · have hrefuses : isCanonical sparse cornerFamily = false := by decide +kernel
    intro h
    have haccepts := (isCanonical_iff sparse_valid).mpr h
    rw [hrefuses] at haccepts
    exact Bool.noConfusion haccepts

/-! ### Merging -/

theorem mem_of_replaceCellsWithAncestor (h : c ∈ replaceCellsWithAncestor ids id) :
    c = id ∨ c ∈ ids := by
  rw [replaceCellsWithAncestor, List.mem_append, List.mem_cons] at h
  rcases h with hbefore | heq | hafter
  · exact Or.inr ((List.takeWhile_sublist _).mem hbefore)
  · exact Or.inl heq
  · exact Or.inr ((List.dropWhile_sublist _).mem hafter)

/-- A family that an ancestor completes has the ancestor as a member. -/
theorem hasFamily_of_replaced (h : HasFamily o (replaceCellsWithAncestor ids id) p)
    (hnot : ¬ (p.contains id = true ∧ id.level = p.level + o.levelMod)) : HasFamily o ids p := by
  intro d hd hlevel hpd
  rcases mem_of_replaceCellsWithAncestor (h d hd hlevel hpd) with heq | hin
  · rw [heq] at hlevel hpd
    exact absurd ⟨hpd, hlevel⟩ hnot
  · exact hin

/-- No family is complete but that of a cell. -/
def UnmergeableBut (o : CovererOptions) (ids : List S2CellId) (id : S2CellId) : Prop :=
  ∀ p, p.isValid = true → InUse o p.level → p.level + o.levelMod ≤ kMaxLevel →
    HasFamily o ids p → p.contains id = true ∧ id.level = p.level + o.levelMod

theorem Unmergeable.replaced (h : Unmergeable o ids) :
    UnmergeableBut o (replaceCellsWithAncestor ids id) id := by
  intro p hp hinUse hdeep hfamily
  by_contra hnot
  exact h p hp hinUse hdeep (hasFamily_of_replaced hfamily hnot)

/-- The parent of the cell takes the place of its family. -/
theorem UnmergeableBut.parent (h : UnmergeableBut o ids id) (ho : o.Valid)
    (hid : id.isValid = true) {parent : S2CellId}
    (hparent : parent = id.parentAt (id.level - o.levelMod))
    (hreplaced : Replaced o ids (replaceCellsWithAncestor ids parent) parent) :
    UnmergeableBut o (replaceCellsWithAncestor ids parent) parent := by
  intro p hp hinUse hdeep hfamily
  by_contra hnot
  obtain ⟨hpid, hlevel⟩ := h p hp hinUse hdeep (hasFamily_of_replaced hfamily hnot)
  have heq : parent = p := by
    rw [hparent, show id.level - o.levelMod = p.level by omega, parentAt_eq hp hid hpid]
  have hmem := hreplaced.mem
  rw [heq] at hmem hfamily hreplaced
  -- the parent and its own children are not in one vector
  have hself := level_of_hasFamily ho hreplaced.canonical hp hdeep hfamily hmem
    (contains_self hp)
  have hmod := ho.mod_pos
  omega

theorem mergeParents_unmergeable (ho : o.Valid) (h : Canonical o ids) (hid : id ∈ ids)
    (honly : UnmergeableBut o ids id)
    (hrun : mergeParents o turns steps ids id id.level = some out) : Unmergeable o out := by
  induction steps generalizing ids id with
  | zero => exact nomatch hrun
  | succ steps ih =>
    have hidv := h.valid id hid
    rcases mergeParents_cases ho h hid hrun with
      ⟨heq, hstop⟩ | ⟨parent, hparent, hreplaced, hrest⟩
    · rw [heq]
      intro p hp hinUse hdeep hfamily
      have hmod := ho.mod_pos
      obtain ⟨hpid, hlevel⟩ := honly p hp hinUse hdeep hfamily
      rcases hstop with hmin | habsent
      · have hlow := hinUse.1
        omega
      · rw [show id.level - o.levelMod = p.level by omega, parentAt_eq hp hidv hpid] at habsent
        have hpresent := containsAllChildren_of_hasFamily ho h hp hdeep hfamily habsent
        exact Bool.noConfusion hpresent
    · exact ih hreplaced.canonical hreplaced.mem (honly.parent ho hidv hparent hreplaced) hrest

theorem mergeCells_unmergeable (ho : o.Valid) (h : Canonical o ids)
    (hunmergeable : Unmergeable o ids) (hrun : mergeCells o turns steps ids = some out) :
    Unmergeable o out := by
  induction steps generalizing ids with
  | zero => exact nomatch hrun
  | succ steps ih =>
    rcases mergeCells_cases ho h hrun with ⟨heq, -⟩ | ⟨id, mid, hreplaced, hmid, hrest⟩
    · rwa [heq]
    · have hmerged := mergeParents_merged ho hreplaced.canonical hreplaced.mem hmid
      apply ih hmerged.canonical ?_ hrest
      exact mergeParents_unmergeable ho hreplaced.canonical hreplaced.mem hunmergeable.replaced
        hmid

/-! ### The last checks -/

/-- The vector that `CanonicalizeCovering` returns without a new search is canonical, whether
there are few enough cells or they are merged. -/
theorem canonicalizeCovering_isCanonical (ho : o.Valid) (hfits : CountFits o)
    (hids : ValidIds ids) {covering : List S2CellId}
    (levels : withLevels o turns ids = some covering) :
    (excess o covering ≤ 0 → isCanonical o covering = true) ∧
      ∀ turns steps out, mergeCells o turns steps covering = some out →
        isCanonical o out = true := by
  obtain ⟨moved, hmoved, hvalid, hlevels, -⟩ := exists_withLevels turns ho hids
  rw [hmoved] at levels
  have hfinished := finish_spec ho hvalid hlevels levels
  constructor
  · intro hfew
    have hsize := hfits.maxCellsSize_eq
    rw [excess] at hfew
    exact isCanonical_of_canonical ho hfinished.canonical hfinished.unmergeable (by omega)
  · intro turns steps out hmerge
    obtain ⟨hmerged, hend⟩ := mergeCells_merged ho hfinished.canonical hmerge
    apply isCanonical_of_canonical ho hmerged.canonical
      (mergeCells_unmergeable ho hfinished.canonical hfinished.unmergeable hmerge)
    intro hmany
    exact hend.resolve_left (not_le.mpr hmany)

/-- A family at level 4, but for its last cell, of which there are two parts at level 6. The
ancestor of the two completes the family. -/
def nearlyCorner : List S2CellId :=
  cornerFamily.take 15 ++ (List.range 2).map fun i =>
    (((corner.child 3).child 3).child i).child i

theorem canonicalizeCovering_isCanonical_nearlyCorner :
    ∃ out, mergeCells sparse 20 20 nearlyCorner = some out ∧ isCanonical sparse out = true := by
  have hvalid : ∀ c ∈ nearlyCorner, c.isValid = true := by decide +kernel
  have hmoved : (nearlyCorner.map fun id =>
      atLevel id (adjustLevel sparse (min id.level sparse.maxLevel))) = nearlyCorner := by
    decide +kernel
  have hsorted : nearlyCorner.Pairwise fun a b => decide (a ≤ b) = true := by decide +kernel
  have hlevels : withLevels sparse 20 nearlyCorner = some nearlyCorner := by
    rw [withLevels, if_pos (by decide), hmoved, finish, if_pos (by decide), normalizeIds,
      List.mergeSort_of_pairwise hsorted]
    decide +kernel
  have hmerge : mergeCells sparse 20 20 nearlyCorner = some [corner] := by decide +kernel
  exact ⟨[corner], hmerge, (canonicalizeCovering_isCanonical sparse_valid
    ⟨by decide, by decide⟩ hvalid hlevels).2 20 20 [corner] hmerge⟩

/-- The result of a search has no complete family. If it has no more cells than asked for, it
is canonical. -/
theorem covering_isCanonical {P : Type} {leaf : P → S2CellId} {A : Set P} {interior : Bool}
    {region : S2Region} {unionBound : S2CellUnion → List S2CellId}
    (hbound : BoundsUnions unionBound) (ho : o.Valid) (hleaf : ∀ p, (leaf p).isLeaf = true)
    (hregion : region.Describes leaf A)
    (h : Returns unionBound (.getCoveringInternal o interior region) out) :
    Unmergeable o out ∧ (out.length ≤ o.maxCellsSize → isCanonical o out = true) := by
  cases h with
  | covering fast run stopped finished =>
    have hcells :=
      (fast.spec hbound (initialOptions_valid ho).1 hregion.bound_valid).canonical
    have hinv := run_invariant ho hregion hleaf (initialCells_of_canonical ho hcells) run
    have hfinished := finish_spec ho hinv.valid (fun c hc => Or.inr (hinv.inUse c hc)) finished
    refine ⟨hfinished.unmergeable, fun hfew => ?_⟩
    exact isCanonical_of_canonical ho hfinished.canonical hfinished.unmergeable
      fun hmany => absurd hfew (not_le.mpr hmany)

theorem covering_isCanonical_twoCells :
    ∃ out, Returns (fun _ => faceCells) (.getCoveringInternal sparse false twoCellsRegion) out ∧
      Unmergeable sparse out ∧
        (out.length ≤ sparse.maxCellsSize → isCanonical sparse out = true) := by
  have hreturns : ∃ out, Returns (fun _ => faceCells)
      (.getCoveringInternal sparse false twoCellsRegion) out :=
    exists_getCoveringInternal boundsUnions_faceCells sparse_valid ⟨by decide, by decide⟩
      (fun l => l.property) twoCellsRegion_describes
  obtain ⟨out, hout⟩ := hreturns
  exact ⟨out, hout, covering_isCanonical boundsUnions_faceCells sparse_valid
    (fun l => l.property) twoCellsRegion_describes hout⟩

end S2RegionCoverer

end S2Geography
