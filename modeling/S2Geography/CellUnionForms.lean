import S2Geography.CellUnionNormalize

/-!
# The normal form of a vector of cell ids

A vector stands for the leaf cells it covers. Normalising a vector of valid ids keeps
them and gives the one normalised vector that covers them. Ids that are not valid are
normalised as well, and the larger ones among them swallow valid ids.
-/
namespace S2Geography

open DyadicCells DyadicCell S2CellUnion
open S2CellId hiding none

/-- The leaf cells that a vector covers. -/
def leafCells (ids : List S2CellId) : Set S2CellId :=
  {l | l.isLeaf = true ∧ ∃ c ∈ ids, c.contains l = true}

/-- The leaf cells that the valid ids of a vector cover. -/
def validLeafCells (ids : List S2CellId) : Set S2CellId :=
  leafCells (ids.filter S2CellId.isValid)

def ValidIds (ids : List S2CellId) : Prop := ∀ c ∈ ids, c.isValid = true

/-- Valid ids in strictly increasing order, disjoint, no four of them siblings. -/
structure Normalised (ids : List S2CellId) : Prop where
  valid : ValidIds ids
  increasing : ids.Pairwise (· < ·)
  disjoint : ids.Pairwise fun a b => a.intersects b = false
  noSiblings : ∀ p : S2CellId, p.isValid = true → p.isLeaf = false →
    ¬ ∀ k < 4, p.child k ∈ ids

theorem ValidIds.ne_none {ids : List S2CellId} (h : ValidIds ids) :
    ∀ c ∈ ids, c ≠ S2CellId.none :=
  fun c hc => ne_none_of_isValid (h c hc)

theorem ValidIds.validCell {ids : List S2CellId} (h : ValidIds ids) {d : DyadicCell}
    (hd : d ∈ cellsOf ids) : ValidCell d := by
  obtain ⟨c, hc, rfl⟩ := hd
  exact (isValid_iff_validCell.mp (h c hc)).2

theorem mem_cellsOf {ids : List S2CellId} {c : S2CellId} (hc : c ∈ ids) : c.cell ∈ cellsOf ids :=
  ⟨c, hc, rfl⟩

/-! ### Leaves -/

theorem ne_none_of_isLeaf {l : S2CellId} (h : l.isLeaf = true) : l ≠ S2CellId.none := by
  rintro rfl
  exact absurd h (by decide)

theorem mem_leafCells {ids : List S2CellId} (h : ∀ c ∈ ids, c ≠ S2CellId.none) {l : S2CellId} :
    l ∈ leafCells ids ↔ l.isLeaf = true ∧ ∃ d ∈ cellsOf ids, l.cell.Within d := by
  refine and_congr_right fun hl => ?_
  have hl0 := ne_none_of_isLeaf hl
  constructor
  · rintro ⟨c, hc, hcl⟩
    exact ⟨c.cell, mem_cellsOf hc, (contains_iff_within (h c hc) hl0).mp hcl⟩
  · rintro ⟨d, ⟨c, hc, rfl⟩, hlc⟩
    exact ⟨c, hc, (contains_iff_within (h c hc) hl0).mpr hlc⟩

/-- A cell is covered when its leaf cells are. -/
theorem covers_iff {ids : List S2CellId} (h : ∀ c ∈ ids, c ≠ S2CellId.none) {c : S2CellId}
    (hc : c ≠ S2CellId.none) :
    Covers (cellsOf ids) c.cell ↔ ∀ l : S2CellId, l.isLeaf = true → c.contains l = true →
      l ∈ leafCells ids := by
  constructor
  · intro hcov l hl hcl
    have hl0 := ne_none_of_isLeaf hl
    rw [mem_leafCells h]
    exact ⟨hl, hcov l.cell ((isLeaf_iff hl0).mp hl) ((contains_iff_within hc hl0).mp hcl)⟩
  · intro hall l hl hlc
    obtain ⟨b, hb, rfl⟩ := exists_of_within hc hlc
    have hbl := (isLeaf_iff hb).mpr hl
    exact ((mem_leafCells h).mp (hall b hbl ((contains_iff_within hc hb).mpr hlc))).2

theorem leafCells_subset_iff {xs ys : List S2CellId} (hx : ∀ c ∈ xs, c ≠ S2CellId.none)
    (hy : ∀ c ∈ ys, c ≠ S2CellId.none) :
    leafCells xs ⊆ leafCells ys ↔ ∀ d ∈ cellsOf xs, Covers (cellsOf ys) d := by
  constructor
  · rintro h d ⟨c, hc, rfl⟩
    rw [covers_iff hy (hx c hc)]
    intro l hl hcl
    exact h ⟨hl, c, hc, hcl⟩
  · rintro h l ⟨hl, c, hc, hcl⟩
    exact (covers_iff hy (hx c hc)).mp (h c.cell (mem_cellsOf hc)) l hl hcl

/-! ### Normal forms -/

/-- The cells of a normalised vector are in normal form. -/
theorem Normalised.normalForm {ids : List S2CellId} (h : Normalised ids) :
    NormalForm 60 (cellsOf ids) := by
  have hne := h.valid.ne_none
  refine ⟨fun d hd => (h.valid.validCell hd).1, fun d hd => (h.valid.validCell hd).2.1, ?_, ?_⟩
  · rintro d ⟨a, ha, rfl⟩ e ⟨b, hb, rfl⟩ hab
    have hfwd : ids.Pairwise fun a b => a.intersects b = true → a = b :=
      h.disjoint.imp fun hab hint => absurd hint (by simp [hab])
    have hbwd : ids.Pairwise fun a b => b.intersects a = true → b = a :=
      h.disjoint.imp fun hab hint => absurd hint (by simp [intersects_comm, hab])
    have heq : a = b := List.Pairwise.forall_of_forall_of_flip (fun _ _ _ => rfl) hfwd hbwd ha hb
      ((intersects_iff_meets (hne a ha) (hne b hb)).mpr hab.meets)
    rw [heq]
  · intro p hh hp hall
    obtain ⟨c0, hc0, hcell0⟩ := hall 0 (by omega)
    obtain ⟨c3, hc3, hcell3⟩ := hall 3 (by omega)
    have hv3 := h.valid.validCell (mem_cellsOf hc3)
    have hlast : p.hi = (p.child 3).hi := by
      have hs := (p.child 3).size_pos
      have hsize := size_eq_four_mul hh 3
      rw [child_hi hh, hi_eq_lo_add p]
      omega
    have hheight : (p.child 3).height = p.height - 2 := rfl
    rw [hcell3] at hv3
    have hvp : ValidCell p := ⟨by have := hv3.1; omega, hp, hlast ▸ hv3.2.2⟩
    have hlt : p.center < 2 ^ 64 := by
      have := p.center_le_hi
      have := hvp.2.2
      omega
    obtain ⟨q, hq0, hq⟩ := exists_cell_eq hlt
    refine h.noSiblings q (isValid_iff_validCell.mpr ⟨hq0, hq ▸ hvp⟩) ?_ ?_
    · rw [Bool.eq_false_iff]
      intro hleaf
      have := (isLeaf_iff hq0).mp hleaf
      rw [hq] at this
      omega
    · intro k hk
      obtain ⟨c, hc, hck⟩ := hall k hk
      obtain ⟨hk0, hkc⟩ := child_cell hq0 (hq ▸ hh) hk
      rw [hq, ← hck] at hkc
      rw [eq_of_cell_eq hk0 (hne c hc) hkc]
      exact hc

/-- A vector of valid ids in order, none of whose cells can be merged, is normalised. -/
theorem Normalised.of_unmerged {ids : List S2CellId} (hv : ValidIds ids)
    (hord : ids.Pairwise fun a b => a.cell.Before b.cell)
    (hun : ∀ p : DyadicCell, ValidCell p → 2 ≤ p.height → ¬ ∀ k < 4, p.child k ∈ cellsOf ids) :
    Normalised ids := by
  have hne := hv.ne_none
  refine ⟨hv, ?_, ?_, ?_⟩
  · exact hord.imp_of_mem fun ha hb hab => lt_of_before (hne _ ha) (hne _ hb) hab
  · refine hord.imp_of_mem fun {a b} ha hb hab => ?_
    rw [Bool.eq_false_iff]
    intro hint
    exact hab.not_meets ((intersects_iff_meets (hne a ha) (hne b hb)).mp hint)
  · intro p hp hleaf hall
    obtain ⟨hp0, hvp⟩ := isValid_iff_validCell.mp hp
    have hh : 2 ≤ p.cell.height := by
      have hnleaf : p.cell.height ≠ 0 := by
        intro h0
        rw [(isLeaf_iff hp0).mpr h0] at hleaf
        exact absurd hleaf (by decide)
      have := hvp.1
      omega
    refine hun p.cell hvp hh fun k hk => ?_
    rw [← (child_cell hp0 hh hk).2]
    exact mem_cellsOf (hall k hk)

/-- Normalised vectors are determined by the leaf cells they cover. -/
theorem Normalised.eq_iff {xs ys : List S2CellId} (hx : Normalised xs) (hy : Normalised ys) :
    xs = ys ↔ leafCells xs = leafCells ys := by
  constructor
  · intro h
    rw [h]
  · intro h
    have hxs := (leafCells_subset_iff hx.valid.ne_none hy.valid.ne_none).mp h.subset
    have hys := (leafCells_subset_iff hy.valid.ne_none hx.valid.ne_none).mp h.superset
    have hmem : ∀ {as bs : List S2CellId}, Normalised as → Normalised bs →
        cellsOf as ⊆ cellsOf bs → ∀ c ∈ as, c ∈ bs := by
      intro as bs ha hb hsub c hc
      obtain ⟨b, hbm, hcell⟩ := hsub (mem_cellsOf hc)
      rw [eq_of_cell_eq (ha.valid.ne_none c hc) (hb.valid.ne_none b hbm) hcell.symm]
      exact hbm
    have hxy := hx.normalForm.subset_of_covers hy.normalForm hxs hys
    have hyx := hy.normalForm.subset_of_covers hx.normalForm hys hxs
    exact hx.increasing.eq_of_mem_iff hy.increasing fun c =>
      ⟨hmem hx hy hxy c, hmem hy hx hyx c⟩

/-! ### Normalising valid ids -/

/-- What is merged from a valid maximal cell is valid. -/
theorem validCell_of_assembled {S : Set DyadicCell} {w t : DyadicCell}
    (hw : Assembled 61 S w) (ht : IsTop S t) (hv : ValidCell t) (htw : t.Within w)
    (hpar : t.height % 2 = w.height % 2) : ValidCell w := by
  rcases hw.isTop_or_children with htop | ⟨-, hle, -⟩
  · rw [← ht.2 w htop.1 htw]
    exact hv
  · have heven := hv.1
    have hle' : w.height ≤ 60 := by omega
    refine ⟨by omega, hle', hi_lt_of_lo_lt hle' ?_⟩
    exact htw.1.trans_lt (t.lo_le_hi.trans_lt hv.2.2)

variable {ids : List S2CellId}

theorem assembled_of_mem (h : ∀ c ∈ ids, c ≠ S2CellId.none) {c : S2CellId}
    (hc : c ∈ normalizeIds ids) : Assembled 61 (cellsOf ids) c.cell :=
  (normalizeIds_invariant h).stacked.assembled c.cell
    (List.mem_map_of_mem (List.mem_reverse.mpr hc))

theorem exists_of_mem (h : ∀ c ∈ ids, c ≠ S2CellId.none) {c : S2CellId} (hc : c ∈ ids) :
    ∃ w ∈ normalizeIds ids, c.cell.Within w.cell := by
  obtain ⟨d, hd, hcd⟩ := (normalizeIds_invariant h).stacked.reached c.cell (mem_cellsOf hc)
  obtain ⟨w, hw, rfl⟩ := List.mem_map.mp hd
  exact ⟨w, List.mem_reverse.mp hw, hcd⟩

theorem leafCells_normalizeIds (h : ∀ c ∈ ids, c ≠ S2CellId.none) :
    leafCells (normalizeIds ids) = leafCells ids := by
  have hn : ∀ c ∈ normalizeIds ids, c ≠ S2CellId.none := fun c hc =>
    ne_none_of_mem_normalizeIds h hc
  apply Set.Subset.antisymm
  · rw [leafCells_subset_iff hn h]
    rintro d ⟨c, hc, rfl⟩
    exact (assembled_of_mem h hc).covers
  · rw [leafCells_subset_iff h hn]
    rintro d ⟨c, hc, rfl⟩
    obtain ⟨w, hw, hcw⟩ := exists_of_mem h hc
    exact covers_of_within (mem_cellsOf hw) hcw

theorem validIds_normalizeIds (h : ValidIds ids) : ValidIds (normalizeIds ids) := by
  intro c hc
  have hasm := assembled_of_mem h.ne_none hc
  obtain ⟨l, hl, hlc⟩ := exists_leaf c.cell
  obtain ⟨t, ht, -, htc, hpar⟩ := hasm.exists_isTop hl hlc
  exact isValid_iff_validCell.mpr ⟨ne_none_of_mem_normalizeIds h.ne_none hc,
    validCell_of_assembled hasm ht (h.validCell ht.1) htc hpar⟩

/-- Normalising valid ids gives a normalised vector. -/
theorem normalised_normalizeIds (h : ValidIds ids) : Normalised (normalizeIds ids) := by
  refine .of_unmerged (validIds_normalizeIds h) (ordered_normalizeIds h.ne_none) ?_
  intro p hp hh hall
  have hinv := normalizeIds_invariant h.ne_none
  refine hinv.collapsed.unmerged hinv.stacked.ordered hh (hp.2.1.trans (by omega)) fun k hk => ?_
  obtain ⟨c, hc, hck⟩ := hall k hk
  rw [← hck]
  exact List.mem_map_of_mem (List.mem_reverse.mpr hc)

/-! ### Normalising any ids -/

theorem mem_validLeafCells {l : S2CellId} : l ∈ validLeafCells ids ↔
    l.isLeaf = true ∧ ∃ c ∈ ids, c.isValid = true ∧ c.contains l = true := by
  refine and_congr_right fun _ => exists_congr fun c => ?_
  rw [List.mem_filter]
  exact and_assoc

theorem exists_leaf_contains {c : S2CellId} (hc : c ≠ S2CellId.none) :
    ∃ l : S2CellId, l.isLeaf = true ∧ c.contains l = true := by
  obtain ⟨d, hd, hdc⟩ := exists_leaf c.cell
  obtain ⟨l, hl, rfl⟩ := exists_of_within hc hdc
  exact ⟨l, (isLeaf_iff hl).mpr hd, (contains_iff_within hc hl).mpr hdc⟩

/-- A valid id in an id that is not valid is in a larger valid one. -/
def ValidIdsDominate (ids : List S2CellId) : Prop :=
  ∀ v ∈ ids, v.isValid = true → ∀ c ∈ ids, c.isValid = false → c.contains v = true →
    ∃ d ∈ ids, d.isValid = true ∧ d.contains c = true

/-- Of a vector with `none` nothing else is left. -/
theorem validLeafCells_subset_iff_of_none_mem (h : S2CellId.none ∈ ids) :
    validLeafCells ids ⊆ validLeafCells (normalizeIds ids) ↔ ValidIdsDominate ids := by
  constructor
  · intro hsub v hv hvalid
    have hv0 := ne_none_of_isValid hvalid
    obtain ⟨l, hl, hvl⟩ := exists_leaf_contains hv0
    obtain ⟨-, c, hc, hcvalid, -⟩ := mem_validLeafCells.mp
      (hsub (mem_validLeafCells.mpr ⟨hl, v, hv, hvalid, hvl⟩))
    rw [normalizeIds_of_none_mem h] at hc
    rw [List.eq_of_mem_replicate hc] at hcvalid
    exact absurd hcvalid (by decide)
  · intro hdom l hl
    obtain ⟨-, v, hv, hvalid, -⟩ := mem_validLeafCells.mp hl
    obtain ⟨d, -, hdvalid, hd⟩ := hdom v hv hvalid S2CellId.none h (by decide)
      (none_contains (ne_none_of_isValid hvalid))
    rw [contains_none (ne_none_of_isValid hdvalid)] at hd
    exact absurd hd (by decide)

/-- A leaf of a valid id is in the output only if the maximal cell over it is valid, and that
cell is in whatever is over the id. -/
theorem validIdsDominate_of_subset (h : ∀ c ∈ ids, c ≠ S2CellId.none)
    (hsub : validLeafCells ids ⊆ validLeafCells (normalizeIds ids)) : ValidIdsDominate ids := by
  intro v hv hvalid c hc _ hcv
  obtain ⟨l, hl, hvl⟩ := exists_leaf_contains (h v hv)
  obtain ⟨-, w, hw, hwvalid, hwl⟩ := mem_validLeafCells.mp
    (hsub (mem_validLeafCells.mpr ⟨hl, v, hv, hvalid, hvl⟩))
  have hl0 := ne_none_of_isLeaf hl
  have hlw := (contains_iff_within (ne_none_of_mem_normalizeIds h hw) hl0).mp hwl
  obtain ⟨t, ht, hlt, htw, hpar⟩ :=
    (assembled_of_mem h hw).exists_isTop ((isLeaf_iff hl0).mp hl) hlw
  obtain ⟨d, hd, hdt⟩ := ht.1
  have hwcell := (isValid_iff_validCell.mp hwvalid).2
  have htvalid : ValidCell t := hwcell.of_within htw (by have := hwcell.1; omega)
  refine ⟨d, hd, isValid_iff_validCell.mpr ⟨h d hd, hdt ▸ htvalid⟩, ?_⟩
  rw [contains_iff_within (h d hd) (h c hc), hdt]
  -- the maximal cell and `c` share the leaf
  have hlc := (contains_iff_within (h c hc) hl0).mp
    (contains_trans (h c hc) (h v hv) hl0 hcv hvl)
  rcases (hlt.meets.symm.mono (Within.refl t) hlc).within_or with htc | hct
  · rw [ht.2 c.cell (mem_cellsOf hc) htc]
    exact Within.refl _
  · exact hct

/-- The maximal cell over a leaf decides: what is merged from it has its parity. -/
theorem subset_of_validIdsDominate (h : ∀ c ∈ ids, c ≠ S2CellId.none)
    (hdom : ValidIdsDominate ids) :
    validLeafCells ids ⊆ validLeafCells (normalizeIds ids) := by
  intro l hl
  obtain ⟨hleaf, v, hv, hvalid, hvl⟩ := mem_validLeafCells.mp hl
  have hl0 := ne_none_of_isLeaf hleaf
  have hlv := (contains_iff_within (h v hv) hl0).mp hvl
  obtain ⟨w, hw, hvw⟩ := exists_of_mem h hv
  have hw0 := ne_none_of_mem_normalizeIds h hw
  have hasm := assembled_of_mem h hw
  obtain ⟨t, ht, hlt, htw, hpar⟩ := hasm.exists_isTop ((isLeaf_iff hl0).mp hleaf)
    (hlv.trans hvw)
  obtain ⟨c, hc, rfl⟩ := ht.1
  have hcvalid : c.isValid = true := by
    by_contra hinvalid
    have hvc : v.cell.Within c.cell := by
      rcases (hlv.meets.symm.mono (Within.refl _) hlt).within_or with hvc | hcv
      · exact hvc
      · rw [ht.2 v.cell (mem_cellsOf hv) hcv]
        exact Within.refl _
    obtain ⟨d, hd, hdvalid, hdc⟩ := hdom v hv hvalid c hc (by simpa using hinvalid)
      ((contains_iff_within (h c hc) (h v hv)).mpr hvc)
    have hcd := ht.2 d.cell (mem_cellsOf hd) ((contains_iff_within (h d hd) (h c hc)).mp hdc)
    rw [eq_of_cell_eq (h c hc) (h d hd) hcd] at hinvalid
    exact hinvalid hdvalid
  have hwvalid := isValid_iff_validCell.mpr ⟨hw0,
    validCell_of_assembled hasm ht (isValid_iff_validCell.mp hcvalid).2 htw hpar⟩
  exact mem_validLeafCells.mpr ⟨hleaf, w, hw, hwvalid,
    (contains_iff_within hw0 hl0).mpr (hlv.trans hvw)⟩

/-- The output covers the leaf cells that valid ids covered exactly when every invalid id
over a valid one is itself in a valid one. -/
theorem validLeafCells_normalizeIds_subset_iff (ids : List S2CellId) :
    validLeafCells ids ⊆ validLeafCells (normalizeIds ids) ↔ ValidIdsDominate ids := by
  by_cases hnone : S2CellId.none ∈ ids
  · exact validLeafCells_subset_iff_of_none_mem hnone
  · have hne : ∀ c ∈ ids, c ≠ S2CellId.none := fun c hc heq => hnone (heq ▸ hc)
    exact ⟨validIdsDominate_of_subset hne, subset_of_validIdsDominate hne⟩

/-! ### The operator called from R -/

/-- `Normalize` runs in the constructor and once more in the operator. -/
theorem cppS2CellUnionNormalize_eq (v : List CellUnionItem) :
    cppS2CellUnionNormalize v = .ok (v.map fun item => item.map normalizeIds) := by
  have h : processUnaryVector (fun u _ => .ok (some (cellIdVectorFromCellUnion u.normalize)))
      (none : CellUnionItem) v = _ :=
    processUnaryVector_eq (fun u _ => some (cellIdVectorFromCellUnion u.normalize))
      fun _ _ _ => rfl
  rw [cppS2CellUnionNormalize, h]
  congr 1
  apply List.ext_getElem?
  intro i
  rw [List.getElem?_mapIdx, List.getElem?_map]
  cases v[i]? with
  | none => rfl
  | some item =>
    cases item with
    | none => rfl
    | some ids =>
      have hidem : cellIdVectorFromCellUnion (cellUnionFromCellIdVector ids).normalize =
          normalizeIds ids := normalizeIds_idem ids
      simp [hidem]

/-- Every vector of valid ids is given its normal form, which a second call leaves alone,
and two vectors get the same one exactly when they cover the same leaf cells. -/
theorem cppS2CellUnionNormalize_normalForm (v : List CellUnionItem) :
    ∃ out, cppS2CellUnionNormalize v = .ok out ∧ cppS2CellUnionNormalize out = .ok out ∧
      (∀ (i : ℕ) (ids : List S2CellId), v[i]? = some (some ids) → ValidIds ids →
        ∃ form, out[i]? = some (some form) ∧ Normalised form ∧
          leafCells form = leafCells ids) ∧
      ∀ (i j : ℕ) (ids ids' : List S2CellId), v[i]? = some (some ids) →
        v[j]? = some (some ids') → ValidIds ids → ValidIds ids' →
          (out[i]? = out[j]? ↔ leafCells ids = leafCells ids') := by
  have hrow : ∀ (i : ℕ) (ids : List S2CellId), v[i]? = some (some ids) →
      (v.map fun item => item.map normalizeIds)[i]? = some (some (normalizeIds ids)) := by
    intro i ids hi
    rw [List.getElem?_map, hi]
    rfl
  refine ⟨_, cppS2CellUnionNormalize_eq v, ?_, ?_, ?_⟩
  · rw [cppS2CellUnionNormalize_eq, List.map_map]
    congr 1
    apply List.map_congr_left
    intro item _
    cases item with
    | none => rfl
    | some ids => simp [normalizeIds_idem]
  · intro i ids hi hv
    exact ⟨_, hrow i ids hi, normalised_normalizeIds hv, leafCells_normalizeIds hv.ne_none⟩
  · intro i j ids ids' hi hj hv hv'
    rw [hrow i ids hi, hrow j ids' hj, Option.some.injEq, Option.some.injEq,
      (normalised_normalizeIds hv).eq_iff (normalised_normalizeIds hv'),
      leafCells_normalizeIds hv.ne_none, leafCells_normalizeIds hv'.ne_none]

/-- The coverage of the valid ids of a vector is kept exactly when they dominate. -/
theorem cppS2CellUnionNormalize_keeps_validLeafCells_iff (v : List CellUnionItem) (i : ℕ)
    (ids : List S2CellId) (hi : v[i]? = some (some ids)) :
    ∃ out form, cppS2CellUnionNormalize v = .ok out ∧ out[i]? = some (some form) ∧
      (validLeafCells ids ⊆ validLeafCells form ↔ ValidIdsDominate ids) := by
  refine ⟨_, normalizeIds ids, cppS2CellUnionNormalize_eq v, ?_, ?_⟩
  · rw [List.getElem?_map, hi]
    rfl
  · exact validLeafCells_normalizeIds_subset_iff ids

/-- A face cell and one of its children stay covered beside an id that is no cell. -/
theorem cppS2CellUnionNormalize_keeps_face :
    ∃ out form, cppS2CellUnionNormalize [some [S2CellId.sentinel, ⟨0x1000000000000000⟩,
        ⟨0x0400000000000000⟩]] = .ok out ∧ out[0]? = some (some form) ∧
      validLeafCells [S2CellId.sentinel, ⟨0x1000000000000000⟩, ⟨0x0400000000000000⟩] ⊆
        validLeafCells form := by
  obtain ⟨out, form, hout, hform, hiff⟩ := cppS2CellUnionNormalize_keeps_validLeafCells_iff
    [some [S2CellId.sentinel, ⟨0x1000000000000000⟩, ⟨0x0400000000000000⟩]] 0 _ rfl
  refine ⟨out, form, hout, hform, hiff.mpr ?_⟩
  unfold ValidIdsDominate
  decide

/-- `s2_cell_invalid()` beside a face cell: the face is dropped. -/
theorem cppS2CellUnionNormalize_loses_face :
    ¬ ∀ (v : List CellUnionItem) (i : ℕ) (ids : List S2CellId), v[i]? = some (some ids) →
      ∃ out form, cppS2CellUnionNormalize v = .ok out ∧ out[i]? = some (some form) ∧
        validLeafCells ids ⊆ validLeafCells form := by
  intro h
  obtain ⟨out, form, hout, hform, hsub⟩ :=
    h [some [S2CellId.none, ⟨0x1000000000000000⟩]] 0 _ rfl
  rw [cppS2CellUnionNormalize_eq, Except.ok.injEq] at hout
  rw [← hout] at hform
  simp only [List.map_cons, List.map_nil, List.getElem?_cons_zero, Option.map_some,
    Option.some.injEq] at hform
  rw [← hform, validLeafCells_normalizeIds_subset_iff] at hsub
  obtain ⟨d, hd, hvalid, hin⟩ := hsub ⟨0x1000000000000000⟩ (by simp) (by decide) S2CellId.none
    (by simp) (by decide) (by decide)
  simp only [List.mem_cons, List.not_mem_nil, or_false] at hd
  rcases hd with rfl | rfl
  · exact absurd hvalid (by decide)
  · exact absurd hin (by decide)

end S2Geography
