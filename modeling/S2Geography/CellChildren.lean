import S2Geography.CellOperators
import S2Geography.CellUnionOperations

/-!
# Children of cells

`s2_cell_child` finds the four quarters of a cell. It checks that the cell is valid, but not
that it has children: the quarter of a leaf cell is computed from a zero bit and is the leaf
cell itself.
-/
namespace S2Geography

open DyadicCells DyadicCell CellMethods
open S2CellId hiding none

variable {c d : S2CellId} {k : ℤ}

theorem two_le_height (hc : c.isValid = true) (hl : c.isLeaf = false) : 2 ≤ c.cell.height := by
  obtain ⟨hne, heven, -⟩ := isValid_iff_validCell.mp hc
  have hpos : c.cell.height ≠ 0 := by
    intro hzero
    rw [(isLeaf_iff hne).mpr hzero] at hl
    exact Bool.noConfusion hl
  omega

/-- A quarter of a valid cell is a valid cell of the next level. -/
theorem child_spec (hc : c.isValid = true) (hl : c.isLeaf = false) {j : ℕ} (hj : j < 4) :
    (c.child j).isValid = true ∧ (c.child j).level = c.level + 1 ∧
      c.contains (c.child j) = true := by
  have hh := two_le_height hc hl
  obtain ⟨hne, hcell⟩ := isValid_iff_validCell.mp hc
  obtain ⟨hd, hdcell⟩ := child_cell hne hh hj
  have hwithin := child_within hh hj
  have hvalid : (c.child j).isValid = true := by
    rw [isValid_iff_validCell, hdcell]
    refine ⟨hd, hcell.of_within hwithin ?_⟩
    have heven := hcell.1
    rw [child_height]
    omega
  refine ⟨hvalid, ?_, ?_⟩
  · have hcl := (level_spec hc).2.2
    have hdl := (level_spec hvalid).2.2
    rw [hdcell, child_height] at hdl
    omega
  · rw [contains_iff_within hne hd, hdcell]
    exact hwithin

/-- The quarter of a leaf cell is the cell: the lowest set bit is shifted out. -/
theorem child_of_isLeaf (hl : c.isLeaf = true) (j : ℕ) : c.child j = c := by
  have hne := ne_none_of_isLeaf hl
  have hlsb : c.lsb >>> 2 = 0#64 := by
    apply BitVec.eq_of_toNat_eq
    rw [BitVec.toNat_ushiftRight, lsb_toNat hne, size, (isLeaf_iff hne).mp hl]
    rfl
  simp only [S2CellId.child, hlsb, BitVec.mul_zero, BitVec.add_zero]

theorem leafCells_children (hc : c.isValid = true) (hl : c.isLeaf = false) :
    leafCells [c.child 0, c.child 1, c.child 2, c.child 3] = leafCells [c] := by
  have hh := two_le_height hc hl
  have hne := ne_none_of_isValid hc
  have hchild : ∀ j < 4, c.child j ≠ S2CellId.none ∧ (c.child j).cell = c.cell.child j :=
    fun j hj => child_cell hne hh hj
  ext l
  refine and_congr_right fun hleaf => ?_
  have hl0 := ne_none_of_isLeaf hleaf
  constructor
  · rintro ⟨e, he, hel⟩
    refine ⟨c, List.mem_cons_self, ?_⟩
    have hsub : ∃ j < 4, e = c.child j := by
      simp only [List.mem_cons, List.not_mem_nil, or_false] at he
      rcases he with rfl | rfl | rfl | rfl
      · exact ⟨0, by omega, rfl⟩
      · exact ⟨1, by omega, rfl⟩
      · exact ⟨2, by omega, rfl⟩
      · exact ⟨3, by omega, rfl⟩
    obtain ⟨j, hj, rfl⟩ := hsub
    exact contains_trans hne (hchild j hj).1 hl0 (child_spec hc hl hj).2.2 hel
  · rintro ⟨e, he, hel⟩
    obtain rfl := List.mem_singleton.mp he
    rw [contains_iff_within hne hl0] at hel
    have hheight := (isLeaf_iff hl0).mp hleaf
    obtain ⟨j, hj, hjl⟩ := hel.exists_child (by omega)
    refine ⟨e.child j, ?_, ?_⟩
    · have hcases : j = 0 ∨ j = 1 ∨ j = 2 ∨ j = 3 := by omega
      rcases hcases with rfl | rfl | rfl | rfl <;> simp
    · rw [contains_iff_within (hchild j hj).1 hl0, (hchild j hj).2]
      exact hjl

theorem disjoint_children (hc : c.isValid = true) (hl : c.isLeaf = false) {i j : ℕ} (hij : i < j)
    (hj : j < 4) : Disjoint (leafCells [c.child i]) (leafCells [c.child j]) := by
  have hh := two_le_height hc hl
  have hne := ne_none_of_isValid hc
  obtain ⟨hi0, hicell⟩ := child_cell hne hh (hij.trans hj)
  obtain ⟨hj0, hjcell⟩ := child_cell hne hh hj
  rw [Set.disjoint_left]
  rintro l ⟨hleaf, e, he, hel⟩ ⟨-, f, hf, hfl⟩
  obtain rfl := List.mem_singleton.mp he
  obtain rfl := List.mem_singleton.mp hf
  have hl0 := ne_none_of_isLeaf hleaf
  rw [contains_iff_within hi0 hl0, hicell] at hel
  rw [contains_iff_within hj0 hl0, hjcell] at hfl
  exact (child_before hh hij).not_meets (hel.meets.symm.mono (Within.refl _) hfl)

/-! ### The functions of R -/

theorem rIsNA_naReal : rIsNA naReal = true := by decide

theorem childCell_release (c : S2CellId) (k : ℤ) : childCell release c k =
    .ok (if c.isValid && decide (k ≥ 0) && decide (k ≤ 3) then c.child k.toNat else naReal) := by
  rw [childCell]
  split
  · rfl
  · rfl

theorem s2CellChild_single (c : S2CellId) (k : ℤ) : s2CellChild release [c] [k] =
    .ok [if c.isValid && decide (k ≥ 0) && decide (k ≤ 3) then c.child k.toNat else naReal] := by
  change (childCell release c k >>= fun d => pure [d]) = _
  rw [childCell_release]
  rfl

theorem s2CellChild_quarters (hc : c.isValid = true) : s2CellChild release [c] [0, 1, 2, 3] =
    .ok [c.child 0, c.child 1, c.child 2, c.child 3] := by
  have hchild : ∀ k : ℤ, 0 ≤ k → k ≤ 3 → childCell release c k = .ok (c.child k.toNat) := by
    intro k h0 h3
    rw [childCell_release, hc, decide_eq_true h0, decide_eq_true h3]
    rfl
  rw [s2CellChild, recycleCells_singleton]
  change ([(c, 0), (c, 1), (c, 2), (c, 3)].mapM fun row : S2CellId × ℕ =>
    withParameter (childCell release) [0, 1, 2, 3] row.1 row.2) = _
  rw [CheckedRun.mapM_eq_pure (g := fun row => c.child row.2)]
  · rfl
  · intro row hrow
    simp only [List.mem_cons, List.not_mem_nil, or_false] at hrow
    rcases hrow with rfl | rfl | rfl | rfl
    · exact hchild 0 (by decide) (by decide)
    · exact hchild 1 (by decide) (by decide)
    · exact hchild 2 (by decide) (by decide)
    · exact hchild 3 (by decide) (by decide)

/-- A valid cell of the next level inside a cell, which is its immediate parent. -/
structure IsChild (c d : S2CellId) : Prop where
  valid : d.isValid = true
  level : d.level = c.level + 1
  contained : c.contains d = true
  parent : s2CellParent release [d] [-1] = .ok [c]

theorem isChild_child (hc : c.isValid = true) (hl : c.isLeaf = false) {j : ℕ} (hj : j < 4) :
    IsChild c (c.child j) := by
  obtain ⟨hvalid, hlevel, hcontains⟩ := child_spec hc hl hj
  refine ⟨hvalid, hlevel, hcontains, ?_⟩
  have h0 := (level_spec hc).1
  have hparent : parentCell release (c.child j) (-1) = .ok c := by
    change (if (c.child j).isValid && decide ((c.child j).level + -1 ≥ 0) then
      if (c.child j).level + -1 ≤ (c.child j).level then
        .ok ((c.child j).parentAt ((c.child j).level + -1))
      else .ok naReal else .ok naReal : Except CellFault S2CellId) = .ok c
    rw [hvalid, if_pos (by simp [hlevel, h0]), if_pos (by omega),
      show (c.child j).level + -1 = c.level by omega,
      ((contains_iff_parentAt hc hvalid).mp hcontains).2]
  change (parentCell release (c.child j) (-1) >>= fun d => pure [d]) = _
  rw [hparent]
  rfl

/-- What `s2_cell_child` is to do with a cell and a number. -/
structure ChildLaws (c : S2CellId) (k : ℤ) : Prop where
  result : ∃ d, s2CellChild release [c] [k] = .ok [d] ∧ (rIsNA d = true ∨ IsChild c d) ∧
    (rIsNA d = true ↔ ¬(0 ≤ k ∧ k ≤ 3) ∨ c.isValid = false ∨ c.isLeaf = true)
  quarters : c.isValid = true → c.isLeaf = false →
    ∃ ds, s2CellChild release [c] [0, 1, 2, 3] = .ok ds ∧
      ds.Pairwise (fun d e => Disjoint (leafCells [d]) (leafCells [e])) ∧
      leafCells ds = leafCells [c]

theorem quarters_spec (hc : c.isValid = true) (hl : c.isLeaf = false) :
    ∃ ds, s2CellChild release [c] [0, 1, 2, 3] = .ok ds ∧
      ds.Pairwise (fun d e => Disjoint (leafCells [d]) (leafCells [e])) ∧
      leafCells ds = leafCells [c] := by
  refine ⟨_, s2CellChild_quarters hc, ?_, leafCells_children hc hl⟩
  have hpairs : (List.range 4).Pairwise fun i j =>
      Disjoint (leafCells [c.child i]) (leafCells [c.child j]) := by
    refine List.pairwise_lt_range.imp_of_mem ?_
    intro i j _ hj hij
    exact disjoint_children hc hl hij (List.mem_range.mp hj)
  exact (List.pairwise_map (f := c.child)
    (R := fun d e => Disjoint (leafCells [d]) (leafCells [e]))).mpr hpairs

/-- The laws hold but for the quarters of leaf cells. -/
theorem childLaws_iff (c : S2CellId) (k : ℤ) : ChildLaws c k ↔
    ¬(c.isValid = true ∧ c.isLeaf = true ∧ 0 ≤ k ∧ k ≤ 3) := by
  constructor
  · rintro ⟨⟨d, hrun, -, hmissing⟩, -⟩ ⟨hc, hl, h0, h3⟩
    rw [s2CellChild_single, hc, decide_eq_true h0, decide_eq_true h3, Except.ok.injEq] at hrun
    have hd : c = d := by
      rw [← child_of_isLeaf hl k.toNat]
      exact List.head_eq_of_cons_eq hrun
    have hna := hmissing.mpr (Or.inr (Or.inr hl))
    rw [← hd, rIsNA_of_isValid hc] at hna
    exact Bool.noConfusion hna
  · intro hgood
    refine ⟨⟨_, s2CellChild_single c k, ?_⟩, quarters_spec⟩
    by_cases hcheck : (c.isValid && decide (k ≥ 0) && decide (k ≤ 3)) = true
    · rw [if_pos hcheck]
      simp only [Bool.and_eq_true, decide_eq_true_eq] at hcheck
      obtain ⟨⟨hc, h0⟩, h3⟩ := hcheck
      have hl : c.isLeaf = false := by
        rw [Bool.eq_false_iff]
        exact fun hl => hgood ⟨hc, hl, h0, h3⟩
      have hchild := isChild_child hc hl (show k.toNat < 4 by omega)
      refine ⟨Or.inr hchild, ?_⟩
      rw [rIsNA_of_isValid hchild.valid, hc, hl]
      simp [h0, h3]
    · rw [if_neg hcheck]
      refine ⟨Or.inl rIsNA_naReal, iff_of_true rIsNA_naReal ?_⟩
      simp only [Bool.and_eq_true, decide_eq_true_eq, not_and_or] at hcheck
      rcases hcheck with (hc | h0) | h3
      · exact Or.inr (Or.inl (Bool.eq_false_iff.mpr hc))
      · exact Or.inl fun hk => h0 hk.1
      · exact Or.inl fun hk => h3 hk.2

/-- The first quarter of a leaf cell comes out as the leaf cell itself. -/
theorem not_childLaws_leaf : ¬ ChildLaws ⟨1⟩ 0 := by
  rintro ⟨⟨d, hrun, -, hmissing⟩, -⟩
  have hd : s2CellChild release [⟨1⟩] [0] = .ok [⟨1⟩] := rfl
  rw [hd, Except.ok.injEq] at hrun
  obtain rfl := List.head_eq_of_cons_eq hrun
  exact absurd (hmissing.mpr (Or.inr (Or.inr (by decide)))) (by decide)

end S2Geography
