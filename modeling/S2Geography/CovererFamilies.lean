import S2Geography.CovererLevels

/-!
# Families of siblings in a covering

A family is all that is in a cell of a level in use at the next level in use. In a sorted vector
it is one run, which `ContainsAllChildren` compares with the children in order and `IsCanonical`
counts with one number.
-/
namespace S2Geography

open DyadicCells DyadicCell S2CellUnion BufferCells
open S2CellId hiding none

/-! ### Sorted vectors -/

section Sorted

variable {α : Type} {r : α → α → Prop} {p : α → Bool} {l : List α}

theorem takeWhile_eq_filter (h : l.Pairwise r) (hp : ∀ a b, r a b → p b = true → p a = true) :
    l.takeWhile p = l.filter p := by
  induction l with
  | nil => rfl
  | cons a l ih =>
    obtain ⟨hfirst, hrest⟩ := List.pairwise_cons.mp h
    by_cases ha : p a = true
    · rw [List.takeWhile_cons_of_pos ha, List.filter_cons_of_pos ha, ih hrest]
    · rw [List.takeWhile_cons_of_neg ha, List.filter_cons_of_neg ha]
      symm
      rw [List.filter_eq_nil_iff]
      intro b hb hpb
      exact ha (hp a b (hfirst b hb) hpb)

theorem dropWhile_eq_filter (h : l.Pairwise r) (hp : ∀ a b, r a b → p b = true → p a = true) :
    l.dropWhile p = l.filter fun a => !p a := by
  induction l with
  | nil => rfl
  | cons a l ih =>
    obtain ⟨hfirst, hrest⟩ := List.pairwise_cons.mp h
    by_cases ha : p a = true
    · rw [List.dropWhile_cons_of_pos ha, List.filter_cons_of_neg (by simp [ha]), ih hrest]
    · rw [List.dropWhile_cons_of_neg ha, List.filter_cons_of_pos (by simp [ha]), eq_comm]
      rw [List.cons.injEq, List.filter_eq_self]
      refine ⟨rfl, fun b hb => ?_⟩
      rw [Bool.not_eq_true', Bool.eq_false_iff]
      intro hpb
      exact ha (hp a b (hfirst b hb) hpb)

/-- A vector splits into three by tests of which every element passes one. -/
theorem length_filter_add {q s : α → Bool} (h : ∀ a ∈ l,
    p a = true ∧ q a = false ∧ s a = false ∨ p a = false ∧ q a = true ∧ s a = false ∨
      p a = false ∧ q a = false ∧ s a = true) :
    (l.filter p).length + (l.filter q).length + (l.filter s).length = l.length := by
  induction l with
  | nil => rfl
  | cons a l ih =>
    obtain ⟨ha, hl⟩ := List.forall_mem_cons.mp h
    have hrest := ih hl
    rcases ha with ⟨hp, hq, hs⟩ | ⟨hp, hq, hs⟩ | ⟨hp, hq, hs⟩
    all_goals
      simp only [List.filter_cons, hp, hq, hs, if_true, List.length_cons, Bool.false_eq_true,
        if_false]
      omega

theorem one_lt_length_of_mem {a b : α} (ha : a ∈ l) (hb : b ∈ l) (hne : a ≠ b) :
    1 < l.length := by
  match l with
  | [] => exact absurd ha List.not_mem_nil
  | [c] => exact absurd ((List.mem_singleton.mp ha).trans (List.mem_singleton.mp hb).symm) hne
  | _ :: _ :: l =>
    simp only [List.length_cons]
    omega

/-- The pairs of neighbours. -/
theorem of_mem_zip_tail (h : l.Pairwise r) {pair : α × α} (hpair : pair ∈ l.zip l.tail) :
    pair.1 ∈ l ∧ pair.2 ∈ l ∧ r pair.1 pair.2 := by
  induction l with
  | nil => exact absurd hpair List.not_mem_nil
  | cons a l ih =>
    obtain ⟨hfirst, hrest⟩ := List.pairwise_cons.mp h
    cases l with
    | nil => exact absurd hpair List.not_mem_nil
    | cons b l =>
      rcases List.mem_cons.mp hpair with heq | hin
      · rw [heq]
        exact ⟨List.mem_cons_self .., List.mem_cons_of_mem _ (List.mem_cons_self ..),
          hfirst b (List.mem_cons_self ..)⟩
      · obtain ⟨h1, h2, h3⟩ := ih hrest hin
        exact ⟨List.mem_cons_of_mem _ h1, List.mem_cons_of_mem _ h2, h3⟩

theorem isChain_of_zip_tail (h : ∀ pair ∈ l.zip l.tail, r pair.1 pair.2) : l.IsChain r := by
  induction l with
  | nil => exact List.isChain_nil
  | cons a l ih =>
    cases l with
    | nil => exact List.isChain_singleton a
    | cons b l =>
      apply List.isChain_cons_cons.mpr
      exact ⟨h (a, b) (List.mem_cons_self ..),
        ih fun pair hpair => h pair (List.mem_cons_of_mem _ hpair)⟩

end Sorted

theorem Ascending.increasing {ids : List S2CellId} (h : Ascending ids) (hids : ValidIds ids) :
    ids.Pairwise (· < ·) := by
  apply (h.orderedIds hids).ordered.imp_of_mem
  intro a b ha hb hab
  exact lt_of_before (hids.ne_none a ha) (hids.ne_none b hb) hab

theorem Ascending.nodup {ids : List S2CellId} (h : Ascending ids) (hids : ValidIds ids) :
    ids.Nodup :=
  (h.increasing hids).imp ne_of_lt

namespace S2RegionCoverer

variable {o : CovererOptions} {ids run ds : List S2CellId} {a b c d id prev : S2CellId}
  {turns count : ℕ} {many : Bool}

/-! ### Vectors with fewer cells -/

theorem Canonical.sublist (h : Canonical o ids) (hsub : run.Sublist ids) : Canonical o run :=
  ⟨fun c hc => h.valid c (hsub.mem hc), h.ascending.sublist hsub,
    fun c hc => h.inUse c (hsub.mem hc)⟩

theorem Unmergeable.sublist (h : Unmergeable o ids) (hsub : run.Sublist ids) :
    Unmergeable o run :=
  fun id hid hlevel hdeep hfamily =>
    h id hid hlevel hdeep fun d hd hdl hcd => hsub.mem (hfamily d hd hdl hcd)

/-! ### Families -/

/-- The next level in use above one. -/
theorem InUse.up (ho : o.Valid) {level : ℤ} (h : InUse o level)
    (hroom : o.minLevel ≤ level - o.levelMod) : InUse o (level - o.levelMod) := by
  have hpos := ho.mod_pos
  obtain ⟨-, hmax, hstep⟩ := h
  refine ⟨hroom, by omega, ?_⟩
  rw [show level - o.levelMod - o.minLevel = level - o.minLevel - o.levelMod by omega,
    Int.sub_emod_right, hstep]

theorem parentAt_eq (ha : a.isValid = true) (hc : c.isValid = true) (hac : a.contains c = true) :
    c.parentAt a.level = a := by
  have hle := level_le_of_contains ha hc hac
  obtain ⟨hp, hlevel, hpc⟩ := parentAt_spec hc (level_spec ha).1 hle
  have hpa := contains_of_common hp ha (ne_none_of_isValid hc) hpc hac hlevel.le
  exact eq_of_contains hp ha hpa hlevel.ge

/-- The members of a family, listed in order. -/
theorem exists_family (ho : o.Valid) (hid : id.isValid = true)
    (hdeep : id.level + o.levelMod ≤ kMaxLevel) :
    ∃ ds, idsUntil (id.childEndAt (id.level + o.levelMod)) (4 ^ kMaxLevel + 1)
        (id.childBeginAt (id.level + o.levelMod)) = some ds ∧
      (∀ d, d ∈ ds ↔ d.isValid = true ∧ id.contains d = true ∧
        d.level = id.level + o.levelMod) ∧
      Ascending ds ∧ ds.length = 4 ^ o.levelMod.toNat := by
  have hpos := ho.mod_pos
  obtain ⟨ds, hrun, hmem, hasc, hlength⟩ := idsUntil_childBeginAt hid
    (show id.level ≤ id.level + o.levelMod by omega) hdeep (Nat.lt_succ_self _)
  rw [show id.level + o.levelMod - id.level = o.levelMod by omega] at hlength
  exact ⟨ds, hrun, hmem, hasc, hlength⟩

/-- As many members as a family has are all of them. -/
theorem hasFamily_of_length (ho : o.Valid) (hrun : Canonical o run) (hid : id.isValid = true)
    (hdeep : id.level + o.levelMod ≤ kMaxLevel)
    (hmember : ∀ c ∈ run, id.contains c = true ∧ c.level = id.level + o.levelMod)
    (hlength : run.length = 4 ^ o.levelMod.toNat) : HasFamily o run id := by
  obtain ⟨ds, -, hmem, -, hcount⟩ := exists_family ho hid hdeep
  have hsub : run ⊆ ds := by
    intro c hc
    obtain ⟨hcontains, hlevel⟩ := hmember c hc
    exact (hmem c).mpr ⟨hrun.valid c hc, hcontains, hlevel⟩
  have hperm := (List.subperm_of_subset (hrun.ascending.nodup hrun.valid) hsub).perm_of_length_le
    (by rw [hcount, hlength])
  intro d hd hlevel hcontains
  exact hperm.mem_iff.mpr ((hmem d).mpr ⟨hd, hcontains, hlevel⟩)

/-- A cell of the vector in the cell around a family is a member. -/
theorem level_of_hasFamily (ho : o.Valid) (h : Canonical o ids) (hid : id.isValid = true)
    (hdeep : id.level + o.levelMod ≤ kMaxLevel) (hfamily : HasFamily o ids id) (hd : d ∈ ids)
    (hcontains : id.contains d = true) : d.level = id.level + o.levelMod := by
  have hpos := ho.mod_pos
  have hd0 := h.valid.ne_none d hd
  obtain ⟨l, hl, hdl⟩ := exists_leaf_contains hd0
  have hl0 := ne_none_of_isLeaf hl
  obtain ⟨e, he, hide, hlevel, hel⟩ := exists_descendant hid hl
    (contains_trans (ne_none_of_isValid hid) hd0 hl0 hcontains hdl)
    (show id.level ≤ id.level + o.levelMod by omega) hdeep
  have heq := h.ascending.eq_of_common h.valid hd (hfamily e he hlevel hide) hl0 hdl hel
  rw [heq, hlevel]

/-- A complete family stands where the first leaf of its cell would be. -/
theorem exists_idsFrom_eq (ho : o.Valid) (h : Canonical o ids) (hid : id.isValid = true)
    (hdeep : id.level + o.levelMod ≤ kMaxLevel) (hfamily : HasFamily o ids id)
    (hmem : ∀ d, d ∈ ds ↔ d.isValid = true ∧ id.contains d = true ∧
      d.level = id.level + o.levelMod) (hasc : Ascending ds) :
    ∃ post, idsFrom ids id.rangeMin = ds ++ post := by
  have hsorted := h.ascending.increasing h.valid
  have hds : ValidIds ds := fun d hd => ((hmem d).mp hd).1
  have hfrom : idsFrom ids id.rangeMin = ids.filter fun c => !decide (c < id.rangeMin) := by
    rw [idsFrom, dropWhile_eq_filter hsorted]
    intro a b hab hb
    rw [decide_eq_true_eq] at hb ⊢
    exact hab.trans hb
  have htake : (idsFrom ids id.rangeMin).takeWhile (fun c => decide (c ≤ id.rangeMax)) = ds := by
    rw [hfrom, takeWhile_eq_filter (hsorted.filter _), List.filter_filter]
    · apply List.Perm.eq_of_pairwise ?_ (hsorted.filter _) (hasc.increasing hds)
      · apply (List.perm_ext_iff_of_nodup ((h.ascending.nodup h.valid).filter _)
          (hasc.nodup hds)).mpr
        intro d
        rw [List.mem_filter, hmem, Bool.and_eq_true, Bool.not_eq_true', decide_eq_true_eq,
          decide_eq_false_iff_not, not_lt]
        constructor
        · intro hd
          obtain ⟨hd, hmax, hmin⟩ := hd
          have hcontains := contains_eq_true.mpr ⟨hmin, hmax⟩
          exact ⟨h.valid d hd, hcontains, level_of_hasFamily ho h hid hdeep hfamily hd hcontains⟩
        · intro hd
          obtain ⟨hdv, hcontains, hlevel⟩ := hd
          obtain ⟨hmin, hmax⟩ := contains_eq_true.mp hcontains
          exact ⟨hfamily d hdv hlevel hcontains, hmax, hmin⟩
      · intro a b _ _ hab hba
        exact absurd hab hba.asymm
    · intro a b hab hb
      rw [decide_eq_true_eq] at hb ⊢
      exact hab.le.trans hb
  refine ⟨(idsFrom ids id.rangeMin).dropWhile fun c => decide (c ≤ id.rangeMax), ?_⟩
  rw [← htake]
  exact List.takeWhile_append_dropWhile.symm

/-- `ContainsAllChildren` overlooks no family. -/
theorem containsAllChildren_of_hasFamily (ho : o.Valid) (h : Canonical o ids)
    (hid : id.isValid = true) (hdeep : id.level + o.levelMod ≤ kMaxLevel)
    (hfamily : HasFamily o ids id) {present : Bool}
    (hpresent : containsAllChildren o turns ids id = some present) : present = true := by
  obtain ⟨ds, hrun, hmem, hasc, -⟩ := exists_family ho hid hdeep
  obtain ⟨post, hpost⟩ := exists_idsFrom_eq ho h hid hdeep hfamily hmem hasc
  simp only [containsAllChildren] at hpresent
  obtain ⟨children, hchildren, hprefix⟩ := Option.map_eq_some_iff.mp hpresent
  have hmore := idsUntil_mono (le_max_left turns (4 ^ kMaxLevel + 1)) hchildren
  rw [idsUntil_mono (le_max_right turns (4 ^ kMaxLevel + 1)) hrun, Option.some.injEq] at hmore
  rw [← hprefix, ← hmore, hpost]
  exact List.isPrefixOf_iff_prefix.mpr (List.prefix_append ds post)

/-! ### The checks of `IsCanonical` -/

/-- The levels that pass the checks are those in use. -/
theorem inUse_iff (ho : o.Valid) {level : ℤ} : InUse o level ↔
    ¬ (level < o.minLevel ∨ level > o.trueMaxLevel) ∧
      ¬ (o.levelMod > 1 ∧ Int.tmod (level - o.minLevel) o.levelMod ≠ 0) := by
  obtain ⟨-, hle, -, hpos, -⟩ := ho
  rw [InUse, CovererOptions.trueMaxLevel, Int.tmod_eq_emod_of_nonneg (by omega)]
  by_cases hlow : level < o.minLevel
  · omega
  rw [Int.tmod_eq_emod_of_nonneg (by omega)]
  by_cases hone : o.levelMod = 1
  · rw [hone, if_pos rfl, Int.emod_one]
    omega
  · rw [if_neg hone]
    have hmax := Int.mul_ediv_add_emod (o.maxLevel - o.minLevel) o.levelMod
    have hlevel := Int.mul_ediv_add_emod (level - o.minLevel) o.levelMod
    have hrem := Int.emod_nonneg (o.maxLevel - o.minLevel) (show o.levelMod ≠ 0 by omega)
    constructor
    · intro h
      obtain ⟨hmin, hmaximal, hstep⟩ := h
      have hquot := Int.ediv_le_ediv (show 0 < o.levelMod by omega)
        (show level - o.minLevel ≤ o.maxLevel - o.minLevel by omega)
      have hprod := Int.mul_le_mul_of_nonneg_left hquot (show 0 ≤ o.levelMod by omega)
      omega
    · omega

/-- The comparison of a cell with the one in front of it that makes the count grow. -/
def Siblings (o : CovererOptions) (prev id : S2CellId) : Prop :=
  o.minLevel ≤ id.level - o.levelMod ∧ id.level = prev.level ∧
    id.parentAt (id.level - o.levelMod) = prev.parentAt (id.level - o.levelMod)

theorem not_siblings_iff : ¬ Siblings o prev id ↔ id.level - o.levelMod < o.minLevel ∨
    id.level ≠ prev.level ∨
      id.parentAt (id.level - o.levelMod) ≠ prev.parentAt (id.level - o.levelMod) := by
  rw [Siblings, not_and_or, not_and_or, not_le]

theorem familySize_eq (ho : o.Valid) : 1 <<< (2 * o.levelMod).toNat = 4 ^ o.levelMod.toNat := by
  have hpos := ho.mod_pos
  rw [Nat.one_shiftLeft, show (2 * o.levelMod).toNat = 2 * o.levelMod.toNat by omega, pow_mul]
  norm_num

theorem isCanonicalFrom_first (ho : o.Valid) :
    isCanonicalFrom o many count S2CellId.none (id :: ids) = true ↔
      id.isValid = true ∧ InUse o id.level ∧ isCanonicalFrom o many count id ids = true := by
  rw [isCanonicalFrom, inUse_iff ho, if_neg (not_not.mpr rfl)]
  simp only [Bool.not_eq_true', Bool.if_false_left, Bool.and_eq_true, decide_eq_false_iff_not,
    Bool.not_eq_false, and_assoc]

theorem isCanonicalFrom_next (ho : o.Valid) (hprev : prev ≠ S2CellId.none) :
    isCanonicalFrom o many count prev (id :: ids) = true ↔
      (id.isValid = true ∧ InUse o id.level ∧ prev.rangeMax < id.rangeMin ∧
        (many = true → id.getCommonAncestorLevel prev < o.minLevel)) ∧
      (Siblings o prev id → count + 1 ≠ 4 ^ o.levelMod.toNat ∧
        isCanonicalFrom o many (count + 1) id ids = true) ∧
      (¬ Siblings o prev id → isCanonicalFrom o many 1 id ids = true) := by
  rw [isCanonicalFrom, inUse_iff ho, ← familySize_eq ho, if_pos hprev]
  by_cases hsiblings : Siblings o prev id
  · have hnot := not_siblings_iff.not.mp (not_not.mpr hsiblings)
    simp only [if_neg hnot, Bool.not_eq_true', Bool.if_false_left, Bool.and_eq_true,
      decide_eq_false_iff_not, Bool.not_eq_false, and_assoc, hsiblings, true_implies,
      not_true_eq_false, false_implies, and_true, decide_eq_true_eq, ge_iff_le, not_le, not_and]
  · have hnot := not_siblings_iff.mp hsiblings
    simp only [if_pos hnot, Bool.not_eq_true', Bool.if_false_left, Bool.and_eq_true,
      decide_eq_false_iff_not, Bool.not_eq_false, and_assoc, hsiblings, true_implies,
      not_false_eq_true, false_implies, true_and, decide_eq_true_eq, ge_iff_le, not_le, not_and]

end S2RegionCoverer

end S2Geography
