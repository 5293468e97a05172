import S2Geography.CellUnionDifference
import Mathlib.Data.Set.Basic

/-!
# Cell unions as sets of leaf cells

The operators called from R on vectors of valid ids: each is the set operation on the
leaf cells covered, and the vectors they return are normalised.
-/
namespace S2Geography

open DyadicCells DyadicCell S2CellUnion
open S2CellId hiding none

variable {xs ys out : List S2CellId}

theorem Normalised.orderedIds (h : Normalised xs) : OrderedIds xs := by
  have hne := h.valid.ne_none
  refine ⟨hne, ?_⟩
  refine (h.increasing.and h.disjoint).imp_of_mem ?_
  rintro a b ha hb ⟨hlt, hdis⟩
  have hn : ¬ a.cell.Meets b.cell := by
    intro hm
    rw [(intersects_iff_meets (hne a ha) (hne b hb)).mpr hm] at hdis
    exact absurd hdis (by decide)
  rcases not_meets_iff.mp hn with hab | hba
  · exact hab
  · have hcenter := (lt_iff_center (hne a ha) (hne b hb)).mp hlt
    exact absurd hba.center_lt (Nat.not_lt_of_lt hcenter)

theorem Normalised.even (h : Normalised xs) {c : S2CellId} (hc : c ∈ xs) :
    c.cell.height % 2 = 0 :=
  (h.valid.validCell (mem_cellsOf hc)).1

/-- A covered cell lies in a cell of the vector. -/
theorem Normalised.exists_within (h : Normalised xs) {d : DyadicCell} (hd : ValidCell d)
    (hcov : Covers (cellsOf xs) d) : ∃ x ∈ xs, d.Within x.cell := by
  obtain ⟨e, ⟨x, hx, rfl⟩, hw⟩ := h.normalForm.exists_within hd.1 hd.2.1 hcov
  exact ⟨x, hx, hw⟩

/-- So does a cell whose quarters lie in cells of the vector. -/
theorem Normalised.exists_within_of_quarters (h : Normalised xs) {d : DyadicCell}
    (hd : ValidCell d) (hh : 2 ≤ d.height)
    (hquarters : ∀ k < 4, ∃ x ∈ xs, (d.child k).Within x.cell) : ∃ x ∈ xs, d.Within x.cell := by
  refine h.exists_within hd (covers_of_children hh fun k hk => ?_)
  obtain ⟨x, hx, hw⟩ := hquarters k hk
  exact covers_of_within (mem_cellsOf hx) hw

theorem Normalised.covers_iff (h : Normalised xs) {c : S2CellId} (hc : c.isValid = true) :
    (∃ x ∈ xs, c.cell.Within x.cell) ↔ leafCells [c] ⊆ leafCells xs := by
  obtain ⟨hc0, hvc⟩ := isValid_iff_validCell.mp hc
  have hcells : cellsOf [c] = {c.cell} := by
    ext d
    simp [cellsOf, eq_comm]
  rw [leafCells_subset_iff (by simpa using hc0) h.valid.ne_none, hcells]
  simp only [Set.mem_singleton_iff, forall_eq]
  constructor
  · rintro ⟨x, hx, hw⟩
    exact covers_of_within (mem_cellsOf hx) hw
  · exact h.exists_within hvc

/-- Disjoint ids of which one holds a whole cell hold no quarter of it beside. -/
theorem OrderedIds.not_child_zero (h : OrderedIds out) {r : S2CellId} {p : DyadicCell}
    (hr : r ∈ out) (hp : p.Within r.cell) (hh : 2 ≤ p.height) : p.child 0 ∉ cellsOf out := by
  rintro ⟨c, hc, hcell⟩
  have hcp : (p.child 0).Within p := child_within hh (by omega)
  have hcr : c = r := by
    refine h.eq_of_meets hc hr ?_
    rw [hcell]
    exact (hcp.trans hp).meets
  rw [← hcr, hcell] at hp
  have hle := hp.height_le
  rw [child_height] at hle
  omega

/-! ### The results of the operations -/

theorem leafCells_append (xs ys : List S2CellId) :
    leafCells (xs ++ ys) = leafCells xs ∪ leafCells ys := by
  ext l
  simp only [leafCells, Set.mem_ofPred_eq, Set.mem_union, List.mem_append, or_and_right, exists_or,
    and_or_left]

theorem union_spec (hx : Normalised xs) (hy : Normalised ys) :
    Normalised (union ⟨xs⟩ ⟨ys⟩).cellIds ∧
      leafCells (union ⟨xs⟩ ⟨ys⟩).cellIds = leafCells xs ∪ leafCells ys := by
  have hv : ValidIds (xs ++ ys) := by
    intro c hc
    rcases List.mem_append.mp hc with hc | hc
    · exact hx.valid c hc
    · exact hy.valid c hc
  refine ⟨normalised_normalizeIds hv, ?_⟩
  rw [← leafCells_append]
  exact leafCells_normalizeIds hv.ne_none

theorem intersection_spec (hx : Normalised xs) (hy : Normalised ys) :
    Normalised (intersection ⟨xs⟩ ⟨ys⟩).cellIds ∧
      leafCells (intersection ⟨xs⟩ ⟨ys⟩).cellIds = leafCells xs ∩ leafCells ys := by
  obtain ⟨hord, hmem⟩ := getIntersection_spec hx.orderedIds hy.orderedIds
  have hsub : ∀ c ∈ getIntersection xs ys,
      (∃ x ∈ xs, c.cell.Within x.cell) ∧ ∃ y ∈ ys, c.cell.Within y.cell := by
    intro c hc
    rcases (hmem c).mp hc with ⟨hcx, hw⟩ | ⟨hcy, hw⟩
    · exact ⟨⟨c, hcx, Within.refl _⟩, hw⟩
    · exact ⟨hw, ⟨c, hcy, Within.refl _⟩⟩
  -- of two cells that meet, the smaller one is in the intersection
  have hinf : ∀ (d : DyadicCell) (x y : S2CellId), x ∈ xs → y ∈ ys → d.Within x.cell →
      d.Within y.cell → ∃ r ∈ getIntersection xs ys, d.Within r.cell := by
    intro d x y hxin hyin hdx hdy
    rcases (hdx.meets.symm.mono (Within.refl _) hdy).within_or with h | h
    · exact ⟨x, (hmem x).mpr (Or.inl ⟨hxin, y, hyin, h⟩), hdx⟩
    · exact ⟨y, (hmem y).mpr (Or.inr ⟨hyin, x, hxin, h⟩), hdy⟩
  constructor
  · refine .of_unmerged ?_ hord.ordered ?_
    · intro c hc
      rcases (hmem c).mp hc with ⟨hcx, -⟩ | ⟨hcy, -⟩
      · exact hx.valid c hcx
      · exact hy.valid c hcy
    · intro p hp hh hall
      have hquarter : ∀ k < 4, (∃ x ∈ xs, (p.child k).Within x.cell) ∧
          ∃ y ∈ ys, (p.child k).Within y.cell := by
        intro k hk
        obtain ⟨c, hc, hcell⟩ := hall k hk
        rw [← hcell]
        exact hsub c hc
      obtain ⟨x, hxin, hpx⟩ := hx.exists_within_of_quarters hp hh fun k hk => (hquarter k hk).1
      obtain ⟨y, hyin, hpy⟩ := hy.exists_within_of_quarters hp hh fun k hk => (hquarter k hk).2
      obtain ⟨r, hr, hpr⟩ := hinf p x y hxin hyin hpx hpy
      exact hord.not_child_zero hr hpr hh (hall 0 (by omega))
  · ext l
    change l ∈ leafCells (getIntersection xs ys) ↔ l ∈ leafCells xs ∧ l ∈ leafCells ys
    rw [mem_leafCells hord.ne_none, mem_leafCells hx.valid.ne_none, mem_leafCells hy.valid.ne_none]
    constructor
    · rintro ⟨hl, d, ⟨c, hc, rfl⟩, hw⟩
      obtain ⟨⟨x, hxin, hcx⟩, y, hyin, hcy⟩ := hsub c hc
      exact ⟨⟨hl, x.cell, mem_cellsOf hxin, hw.trans hcx⟩,
        hl, y.cell, mem_cellsOf hyin, hw.trans hcy⟩
    · rintro ⟨⟨hl, d, ⟨x, hxin, rfl⟩, hlx⟩, -, e, ⟨y, hyin, rfl⟩, hly⟩
      obtain ⟨r, hr, hlr⟩ := hinf l.cell x y hxin hyin hlx hly
      exact ⟨hl, r.cell, mem_cellsOf hr, hlr⟩

/-- The difference consists of the pieces that are left of the cells of the first union. -/
theorem exists_pieces (hx : Normalised xs) (hy : Normalised ys) :
    ∃ outs : S2CellId → List S2CellId,
      difference 31 ⟨xs⟩ ⟨ys⟩ = some ⟨xs.flatMap outs⟩ ∧
        ∀ x ∈ xs, DifferenceSpec ys x.cell (outs x) := by
  have hyo := hy.orderedIds
  have hret : ∀ x ∈ xs, ∃ out, getDifferenceInternal ⟨ys⟩ 31 x = some out := by
    intro x hxin
    have hv := hx.valid.validCell (mem_cellsOf hxin)
    have heven := hv.1
    have hle := hv.2.1
    exact getDifferenceInternal_returns hyo (x.cell.height / 2) x (hx.valid.ne_none x hxin)
      (by omega) 31 (by omega)
  let outs : S2CellId → List S2CellId := fun x => (getDifferenceInternal ⟨ys⟩ 31 x).getD []
  have houts : ∀ x ∈ xs, getDifferenceInternal ⟨ys⟩ 31 x = some (outs x) := by
    intro x hxin
    obtain ⟨out, hout⟩ := hret x hxin
    simp [outs, hout]
  refine ⟨outs, ?_, fun x hxin => ?_⟩
  · have hmap := CheckedRun.mapM_eq_pure (m := Option) (f := getDifferenceInternal ⟨ys⟩ 31) (g := outs) xs
      houts
    simp [difference, hmap, List.flatMap_def]
  · refine getDifferenceInternal_spec hyo (hx.valid.ne_none x hxin) ?_ (houts x hxin)
    intro y hyin
    rw [hy.even hyin, hx.even hxin]

section Pieces

variable {outs : S2CellId → List S2CellId} (hx : Normalised xs) (hy : Normalised ys)
  (hspec : ∀ x ∈ xs, DifferenceSpec ys x.cell (outs x))
include hx hy hspec

omit hy in
theorem orderedIds_pieces : OrderedIds (xs.flatMap outs) := by
  refine .flatMap (fun x hxin => (hspec x hxin).ordered) ?_
  refine hx.orderedIds.ordered.imp_of_mem fun {x z} hxin hzin hxz r hr t ht => ?_
  exact hxz.mono ((hspec x hxin).within r hr) ((hspec z hzin).within t ht)

/-- Four pieces that are the quarters of a cell would have been left as that cell. -/
theorem normalised_pieces : Normalised (xs.flatMap outs) := by
  have hord := orderedIds_pieces hx hspec
  refine .of_unmerged ?_ hord.ordered ?_
  · intro r hr
    obtain ⟨x, hxin, hrx⟩ := List.mem_flatMap.mp hr
    have hv := hx.valid.validCell (mem_cellsOf hxin)
    refine isValid_iff_validCell.mpr ⟨hord.ne_none r hr, hv.of_within ?_ ?_⟩
    · exact (hspec x hxin).within r hrx
    · rw [(hspec x hxin).parity r hrx]
      exact hv.1
  · intro p hp hh hall
    have hchild : ∀ k < 4, ∃ x ∈ xs, (p.child k).Within x.cell ∧
        ∀ y ∈ ys, ¬ (p.child k).Meets y.cell := by
      intro k hk
      obtain ⟨r, hr, hcell⟩ := hall k hk
      obtain ⟨x, hxin, hrx⟩ := List.mem_flatMap.mp hr
      rw [← hcell]
      exact ⟨x, hxin, (hspec x hxin).within r hrx, (hspec x hxin).apart r hrx⟩
    obtain ⟨x, hxin, hpx⟩ := hx.exists_within_of_quarters hp hh fun k hk => by
      obtain ⟨x, hxin, hw, -⟩ := hchild k hk
      exact ⟨x, hxin, hw⟩
    have hapart : ∀ y ∈ ys, ¬ p.Meets y.cell := by
      intro y hyin
      refine not_meets_of_children hh (by rw [hp.1, hy.even hyin]) fun k hk => ?_
      obtain ⟨-, -, -, hn⟩ := hchild k hk
      exact hn y hyin
    obtain ⟨r, hr, hpr⟩ := (hspec x hxin).maximal p hpx
      (by rw [hp.1, hx.even hxin]) hapart
    exact hord.not_child_zero (List.mem_flatMap.mpr ⟨x, hxin, hr⟩) hpr hh (hall 0 (by omega))

theorem leafCells_pieces : leafCells (xs.flatMap outs) = leafCells xs \ leafCells ys := by
  have hord := orderedIds_pieces hx hspec
  ext l
  rw [Set.mem_sdiff, mem_leafCells hord.ne_none, mem_leafCells hx.valid.ne_none,
    mem_leafCells hy.valid.ne_none]
  constructor
  · rintro ⟨hl, d, ⟨r, hr, rfl⟩, hlr⟩
    obtain ⟨x, hxin, hrx⟩ := List.mem_flatMap.mp hr
    refine ⟨⟨hl, x.cell, mem_cellsOf hxin, hlr.trans ((hspec x hxin).within r hrx)⟩, ?_⟩
    rintro ⟨-, e, ⟨y, hyin, rfl⟩, hly⟩
    exact (hspec x hxin).apart r hrx y hyin (hlr.meets.symm.mono (Within.refl _) hly)
  · rintro ⟨⟨hl, d, ⟨x, hxin, rfl⟩, hlx⟩, hn⟩
    have hl0 := (isLeaf_iff (ne_none_of_isLeaf hl)).mp hl
    have hapart : ∀ y ∈ ys, ¬ l.cell.Meets y.cell := by
      intro y hyin hm
      exact hn ⟨hl, y.cell, mem_cellsOf hyin, hm.within (by omega)⟩
    obtain ⟨r, hr, hlr⟩ := (hspec x hxin).maximal l.cell hlx
      (by rw [hl0, hx.even hxin]) hapart
    exact ⟨hl, r.cell, mem_cellsOf (List.mem_flatMap.mpr ⟨x, hxin, hr⟩), hlr⟩

end Pieces

theorem difference_spec (hx : Normalised xs) (hy : Normalised ys) :
    ∃ out, difference 31 ⟨xs⟩ ⟨ys⟩ = some out ∧ Normalised out.cellIds ∧
      leafCells out.cellIds = leafCells xs \ leafCells ys := by
  obtain ⟨outs, hout, hspec⟩ := exists_pieces hx hy
  exact ⟨_, hout, normalised_pieces hx hy hspec, leafCells_pieces hx hy hspec⟩

theorem contains_spec (hx : Normalised xs) (hy : Normalised ys) :
    contains ⟨xs⟩ ⟨ys⟩ = true ↔ leafCells ys ⊆ leafCells xs := by
  rw [contains_iff hx.orderedIds hy.orderedIds]
  constructor
  · rintro h l ⟨hl, y, hyin, hyl⟩
    exact (hx.covers_iff (hy.valid y hyin)).mp (h y hyin) ⟨hl, y, by simp, hyl⟩
  · intro h y hyin
    refine (hx.covers_iff (hy.valid y hyin)).mpr (Set.Subset.trans ?_ h)
    rintro l ⟨hl, c, hc, hcl⟩
    rw [List.mem_singleton] at hc
    exact ⟨hl, y, hyin, hc ▸ hcl⟩

theorem containsId_spec (hx : Normalised xs) {c : S2CellId} (hc : c.isValid = true) :
    containsId ⟨xs⟩ c = true ↔ leafCells [c] ⊆ leafCells xs := by
  rw [containsId_iff hx.orderedIds (ne_none_of_isValid hc)]
  exact hx.covers_iff hc

theorem intersects_spec (hx : Normalised xs) (hy : Normalised ys) :
    intersects ⟨xs⟩ ⟨ys⟩ = true ↔ (leafCells xs ∩ leafCells ys).Nonempty := by
  have hx0 := hx.valid.ne_none
  have hy0 := hy.valid.ne_none
  rw [S2CellUnion.intersects, intersectsFrom_iff hx.orderedIds hy.orderedIds]
  constructor
  · rintro ⟨a, ha, b, hb, hm⟩
    have hsmall : ∃ c : S2CellId, c ≠ S2CellId.none ∧ c.cell.Within a.cell ∧
        c.cell.Within b.cell := by
      rcases hm.within_or with h | h
      · exact ⟨a, hx0 a ha, Within.refl _, h⟩
      · exact ⟨b, hy0 b hb, h, Within.refl _⟩
    obtain ⟨c, hc, hca, hcb⟩ := hsmall
    obtain ⟨l, hl, hcl⟩ := exists_leaf_contains hc
    have hlc := (contains_iff_within hc (ne_none_of_isLeaf hl)).mp hcl
    exact ⟨l, (mem_leafCells hx0).mpr ⟨hl, a.cell, mem_cellsOf ha, hlc.trans hca⟩,
      (mem_leafCells hy0).mpr ⟨hl, b.cell, mem_cellsOf hb, hlc.trans hcb⟩⟩
  · rintro ⟨l, hlx, hly⟩
    obtain ⟨-, d, ⟨a, ha, rfl⟩, hla⟩ := (mem_leafCells hx0).mp hlx
    obtain ⟨-, e, ⟨b, hb, rfl⟩, hlb⟩ := (mem_leafCells hy0).mp hly
    exact ⟨a, ha, b, hb, hla.meets.symm.mono (Within.refl _) hlb⟩

/-! ### Rows of a call -/

/-- Row `i` of a call with two recyclable vectors pairs `x` with `y`. -/
structure CellUnionRow (us vs : List CellUnionItem) (i : ℕ) (x y : List S2CellId) : Prop where
  recyclable : us.length = vs.length ∨ us.length = 1 ∨ vs.length = 1
  bound : i < max us.length vs.length
  left : us[if us.length = 1 then 0 else i]? = some (some x)
  right : vs[if vs.length = 1 then 0 else i]? = some (some y)

/-- Every vector of ids in a list of cell unions is valid. -/
def ValidItems (us : List CellUnionItem) : Prop := ∀ ids, some ids ∈ us → ValidIds ids

variable {us vs : List CellUnionItem} {i : ℕ} {x y : List S2CellId}

theorem CellUnionRow.valid (h : CellUnionRow us vs i x y) (hu : ValidItems us)
    (hv : ValidItems vs) : ValidIds x ∧ ValidIds y :=
  ⟨hu x (List.mem_of_getElem? h.left), hv y (List.mem_of_getElem? h.right)⟩

theorem CellUnionRow.processBinaryVector {α : Type} (h : CellUnionRow us vs i x y)
    (processCell : S2CellUnion → S2CellUnion → α) (na : α) :
    ∃ out, S2Geography.processBinaryVector processCell na us vs = .ok out ∧ out[i]? = some
      (processCell (cellUnionFromCellIdVector x) (cellUnionFromCellIdVector y)) := by
  obtain ⟨hrec, hbound, hleft, hright⟩ := h
  unfold S2Geography.processBinaryVector
  by_cases heq : us.length = vs.length
  · have hindex : ∀ n : ℕ, i < n → (if n = 1 then 0 else i) = i := by
      intro n hn
      split_ifs <;> omega
    rw [hindex _ (by omega)] at hleft hright
    refine ⟨_, if_pos heq, ?_⟩
    rw [List.getElem?_zipWith, hleft, hright]
    rfl
  · rw [if_neg heq]
    rcases hrec with h | h | h
    · exact absurd h heq
    · obtain ⟨u, rfl⟩ := List.length_eq_one_iff.mp h
      rw [if_neg (by rw [h] at heq; omega)] at hright
      simp only [List.length_singleton, if_true, List.getElem?_cons_zero,
        Option.some.injEq] at hleft
      refine ⟨_, rfl, ?_⟩
      rw [List.getElem?_map, hright, hleft]
      rfl
    · obtain ⟨v, rfl⟩ := List.length_eq_one_iff.mp h
      rw [if_neg (by rw [h] at heq; omega)] at hleft
      simp only [List.length_singleton, if_true, List.getElem?_cons_zero,
        Option.some.injEq] at hright
      have hne : ∀ u, us ≠ [u] := by
        rintro u rfl
        exact heq rfl
      match us, hne, hleft with
      | [], _, hleft => simp at hleft
      | [u], hne, _ => exact absurd rfl (hne u)
      | u :: u' :: us, _, hleft =>
        refine ⟨_, rfl, ?_⟩
        rw [List.getElem?_map, hleft, hright]
        rfl

/-- What holds of a missing value and of every pair of vectors holds of all rows. -/
theorem forall_mem_processBinaryVector {α : Type} {processCell : S2CellUnion → S2CellUnion → α}
    {na : α} {P : α → Prop} {rows : List α} (hna : P na)
    (h : ∀ x y, some x ∈ us → some y ∈ vs →
      P (processCell (cellUnionFromCellIdVector x) (cellUnionFromCellIdVector y)))
    (hrows : processBinaryVector processCell na us vs = .ok rows) : ∀ r ∈ rows, P r := by
  have hpair : ∀ u ∈ us, ∀ v ∈ vs, P (processPair processCell na u v) := by
    intro u hu v hv
    cases u with
    | none => exact hna
    | some x =>
      cases v with
      | none => exact hna
      | some y => exact h x y hu hv
  unfold processBinaryVector at hrows
  split_ifs at hrows with heq
  · rw [Except.ok.injEq] at hrows
    intro r hr
    rw [← hrows, ← List.map_uncurry_zip_eq_zipWith] at hr
    obtain ⟨⟨u, v⟩, huv, rfl⟩ := List.mem_map.mp hr
    exact hpair u (List.of_mem_zip huv).1 v (List.of_mem_zip huv).2
  · split at hrows
    · rw [Except.ok.injEq] at hrows
      intro r hr
      rw [← hrows] at hr
      obtain ⟨v, hv, rfl⟩ := List.mem_map.mp hr
      exact hpair _ (by simp) v hv
    · rw [Except.ok.injEq] at hrows
      intro r hr
      rw [← hrows] at hr
      obtain ⟨u, hu, rfl⟩ := List.mem_map.mp hr
      exact hpair u hu _ (by simp)
    · exact absurd hrows (by simp)

theorem normalised_of_validIds (h : ValidIds x) :
    Normalised (cellUnionFromCellIdVector x).cellIds ∧
      leafCells (cellUnionFromCellIdVector x).cellIds = leafCells x :=
  ⟨normalised_normalizeIds h, leafCells_normalizeIds h.ne_none⟩

/-- No recursion of a call with valid ids nests more than 31 calls. -/
theorem CellUnionRow.difference (h : CellUnionRow us vs i x y) (hu : ValidItems us)
    (hv : ValidItems vs) : ∃ out u, cppS2CellUnionDifference 31 us vs = some (.ok out) ∧
      out[i]? = some (some u) ∧ Normalised u ∧ leafCells u = leafCells x \ leafCells y := by
  let value : S2CellUnion → S2CellUnion → Option CellUnionItem := fun x y =>
    (x.difference 31 y).map fun out => some (cellIdVectorFromCellUnion out)
  obtain ⟨rows, hrows, hi⟩ := h.processBinaryVector value (some none)
  have hreturn : ∀ x y, some x ∈ us → some y ∈ vs →
      (value (cellUnionFromCellIdVector x) (cellUnionFromCellIdVector y)).isSome = true := by
    intro x y hx hy
    obtain ⟨out, hout, -⟩ := difference_spec (normalised_of_validIds (hu x hx)).1
      (normalised_of_validIds (hv y hy)).1
    have hout' : (cellUnionFromCellIdVector x).difference 31 (cellUnionFromCellIdVector y) =
      some out := hout
    simp [value, hout']
  have hall := forall_mem_processBinaryVector (P := fun r => r.isSome = true) rfl hreturn hrows
  have hmap : rows.mapM id = some (rows.map fun r => r.getD none) := by
    refine CheckedRun.mapM_eq_pure rows fun r hr => ?_
    obtain ⟨item, rfl⟩ := Option.isSome_iff_exists.mp (hall r hr)
    rfl
  obtain ⟨hx, hy⟩ := h.valid hu hv
  obtain ⟨hnx, hlx⟩ := normalised_of_validIds hx
  obtain ⟨hny, hly⟩ := normalised_of_validIds hy
  obtain ⟨out, hout, hnorm, hleaf⟩ := difference_spec hnx hny
  have hout' : (cellUnionFromCellIdVector x).difference 31 (cellUnionFromCellIdVector y) =
    some out := hout
  refine ⟨rows.map fun r => r.getD none, out.cellIds, ?_, ?_, hnorm, ?_⟩
  · rw [cppS2CellUnionDifference, hrows]
    simp only [hmap, Option.map_some]
  · rw [List.getElem?_map, hi]
    simp [value, hout', cellIdVectorFromCellUnion]
  · rw [hleaf, hlx, hly]

/-- The missing value of R is no valid id: its lowest set bit is the second. -/
theorem rIsNA_of_isValid {c : S2CellId} (h : c.isValid = true) : rIsNA c = false := by
  obtain ⟨hc, heven, -⟩ := isValid_iff_validCell.mp h
  rw [Bool.eq_false_iff]
  intro hna
  simp only [rIsNA, Bool.and_eq_true, beq_iff_eq] at hna
  have hlow : c.toNat % 2 ^ 32 = 1954 := by
    have hand := congrArg BitVec.toNat hna.2
    rw [BitVec.toNat_and, show (0xFFFFFFFF#64).toNat = 2 ^ 32 - 1 from rfl,
      Nat.and_two_pow_sub_one_eq_mod] at hand
    exact hand
  have hcenter := toNat_eq hc
  rw [center, size] at hcenter
  obtain ⟨n, hn⟩ : ∃ n, c.cell.height = 2 * n := ⟨c.cell.height / 2, by omega⟩
  cases n with
  | zero =>
    rw [hn] at hcenter
    omega
  | succ n =>
    have hfour : 2 ^ c.cell.height = 4 * 2 ^ (2 * n) := by
      rw [hn, Nat.mul_add, Nat.pow_add]
      ring
    rw [hfour, Nat.mul_left_comm] at hcenter
    omega

theorem containsCell_row {cs : List S2CellId} {k : ℕ} {c : S2CellId} (hcs : cs ≠ [])
    (hk : us[k]? = some (some x)) (hx : ValidIds x) (hck : cs[k % cs.length]? = some c)
    (hc : c.isValid = true) : ∃ out b, cppS2CellUnionContainsCell us cs = .ok out ∧
      out[k]? = some (some b) ∧ (b = true ↔ leafCells [c] ⊆ leafCells x) := by
  have hlen : 0 < cs.length := List.length_pos_of_ne_nil hcs
  have hrun : cppS2CellUnionContainsCell us cs = _ :=
    processUnaryVector_eq (fun cellUnion i => (cs[i % cs.length]?).bind fun cellId =>
      if rIsNA cellId then none else some (cellUnion.containsId cellId)) (by
      intro i cellIds _
      have hlt : i % cs.length < cs.length := Nat.mod_lt i hlen
      rw [List.getElem?_eq_getElem hlt]
      rfl)
  refine ⟨_, (cellUnionFromCellIdVector x).containsId c, hrun, ?_, ?_⟩
  · rw [List.getElem?_mapIdx, hk]
    simp [hck, rIsNA_of_isValid hc]
  · obtain ⟨hnx, hlx⟩ := normalised_of_validIds hx
    rw [← hlx]
    exact containsId_spec hnx hc

/-- On vectors of valid ids, the exported operators are the set operations on leaf cells,
and the vectors they return are normalised. -/
theorem cppS2CellUnionOperations_leafCells (h : CellUnionRow us vs i x y) (hu : ValidItems us)
    (hv : ValidItems vs) :
    (∃ out u, cppS2CellUnionUnion us vs = .ok out ∧ out[i]? = some (some u) ∧
      Normalised u ∧ leafCells u = leafCells x ∪ leafCells y) ∧
    (∃ out u, cppS2CellUnionIntersection us vs = .ok out ∧ out[i]? = some (some u) ∧
      Normalised u ∧ leafCells u = leafCells x ∩ leafCells y) ∧
    (∃ out u, cppS2CellUnionDifference 31 us vs = some (.ok out) ∧ out[i]? = some (some u) ∧
      Normalised u ∧ leafCells u = leafCells x \ leafCells y) ∧
    (∃ out b, cppS2CellUnionContains us vs = .ok out ∧ out[i]? = some (some b) ∧
      (b = true ↔ leafCells y ⊆ leafCells x)) ∧
    (∃ out b, cppS2CellUnionIntersects us vs = .ok out ∧ out[i]? = some (some b) ∧
      (b = true ↔ (leafCells x ∩ leafCells y).Nonempty)) ∧
    ∀ (cs : List S2CellId) (k : ℕ) (z : List S2CellId) (c : S2CellId),
      us[k]? = some (some z) → cs[k % cs.length]? = some c → c.isValid = true →
        ∃ out b, cppS2CellUnionContainsCell us cs = .ok out ∧ out[k]? = some (some b) ∧
          (b = true ↔ leafCells [c] ⊆ leafCells z) := by
  obtain ⟨hx, hy⟩ := h.valid hu hv
  obtain ⟨hnx, hlx⟩ := normalised_of_validIds hx
  obtain ⟨hny, hly⟩ := normalised_of_validIds hy
  refine ⟨?_, ?_, h.difference hu hv, ?_, ?_, ?_⟩
  · obtain ⟨out, hout, hi⟩ := h.processBinaryVector
      (fun x y => some (cellIdVectorFromCellUnion (x.union y))) none
    obtain ⟨hnorm, hleaf⟩ := union_spec hnx hny
    rw [hlx, hly] at hleaf
    exact ⟨out, _, hout, hi, hnorm, hleaf⟩
  · obtain ⟨out, hout, hi⟩ := h.processBinaryVector
      (fun x y => some (cellIdVectorFromCellUnion (x.intersection y))) none
    obtain ⟨hnorm, hleaf⟩ := intersection_spec hnx hny
    rw [hlx, hly] at hleaf
    exact ⟨out, _, hout, hi, hnorm, hleaf⟩
  · obtain ⟨out, hout, hi⟩ := h.processBinaryVector (fun x y => some (x.contains y)) none
    have hspec := contains_spec hnx hny
    rw [hlx, hly] at hspec
    exact ⟨out, _, hout, hi, hspec⟩
  · obtain ⟨out, hout, hi⟩ := h.processBinaryVector (fun x y => some (x.intersects y)) none
    have hspec := intersects_spec hnx hny
    rw [hlx, hly] at hspec
    exact ⟨out, _, hout, hi, hspec⟩
  · intro cs k z c hk hck hc
    have hcs : cs ≠ [] := by
      rintro rfl
      simp at hck
    exact containsCell_row hcs hk (hu z (List.mem_of_getElem? hk)) hck hc

/-- A face cell and its first child. -/
theorem cppS2CellUnionOperations_leafCells_face :
    ∃ out u, cppS2CellUnionDifference 31 [some [⟨0x1000000000000000⟩]]
      [some [⟨0x0400000000000000⟩]] = some (.ok out) ∧ out[0]? = some (some u) ∧ Normalised u ∧
        leafCells u = leafCells [⟨0x1000000000000000⟩] \ leafCells [⟨0x0400000000000000⟩] := by
  have hface : ValidItems [some [⟨0x1000000000000000⟩]] := by
    intro ids hids c hc
    simp only [List.mem_singleton, Option.some.injEq] at hids
    rw [hids, List.mem_singleton] at hc
    rw [hc]
    decide
  have hchild : ValidItems [some [⟨0x0400000000000000⟩]] := by
    intro ids hids c hc
    simp only [List.mem_singleton, Option.some.injEq] at hids
    rw [hids, List.mem_singleton] at hc
    rw [hc]
    decide
  have hrow : CellUnionRow [some [⟨0x1000000000000000⟩]] [some [⟨0x0400000000000000⟩]] 0
      [⟨0x1000000000000000⟩] [⟨0x0400000000000000⟩] := ⟨Or.inl rfl, by decide, rfl, rfl⟩
  exact (cppS2CellUnionOperations_leafCells hrow hface hchild).2.2.1

end S2Geography
