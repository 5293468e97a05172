import S2Geography.CellLevels
import S2Geography.CellUnionOperations

/-!
# Nested cells

Containment of valid cell ids as an order on them: cells that share a leaf are nested, the
one of lower level outside, and every level has one cell around a leaf.
-/
namespace S2Geography

open DyadicCells DyadicCell S2CellUnion
open S2CellId hiding none

namespace S2CellId

variable {a b c l : S2CellId}

theorem contains_self (hc : c.isValid = true) : c.contains c = true :=
  (contains_iff_within (ne_none_of_isValid hc) (ne_none_of_isValid hc)).mpr (Within.refl _)

theorem level_le_of_contains (ha : a.isValid = true) (hb : b.isValid = true)
    (hab : a.contains b = true) : a.level ≤ b.level :=
  ((contains_iff_parentAt ha hb).mp hab).1

theorem eq_of_contains (ha : a.isValid = true) (hb : b.isValid = true)
    (hab : a.contains b = true) (hlevel : b.level ≤ a.level) : a = b := by
  obtain ⟨hle, hparent⟩ := (contains_iff_parentAt ha hb).mp hab
  obtain ⟨-, hself⟩ := (contains_iff_parentAt hb hb).mp (contains_self hb)
  rw [← hparent, le_antisymm hle hlevel, hself]

theorem intersects_of_common (ha : a.isValid = true) (hb : b.isValid = true) (hc : c ≠ none)
    (hac : a.contains c = true) (hbc : b.contains c = true) : a.intersects b = true := by
  have ha0 := ne_none_of_isValid ha
  have hb0 := ne_none_of_isValid hb
  rw [contains_iff_within ha0 hc] at hac
  rw [contains_iff_within hb0 hc] at hbc
  rw [intersects_iff_meets ha0 hb0]
  exact ((Within.refl c.cell).meets.mono hac hbc)

/-- Of two cells around a third one, the one of lower level contains the other. -/
theorem contains_of_common (ha : a.isValid = true) (hb : b.isValid = true) (hc : c ≠ none)
    (hac : a.contains c = true) (hbc : b.contains c = true) (hlevel : a.level ≤ b.level) :
    a.contains b = true := by
  have ha0 := ne_none_of_isValid ha
  have hb0 := ne_none_of_isValid hb
  have hal := level_spec ha
  have hbl := level_spec hb
  rw [contains_iff_within ha0 hc] at hac
  rw [contains_iff_within hb0 hc] at hbc
  rw [contains_iff_within ha0 hb0]
  exact ((Within.refl c.cell).meets.mono hbc hac).within (by omega)

/-! ### Leaves -/

theorem isValid_of_leaf (hc : c.isValid = true) (hl : l.isLeaf = true)
    (hcl : c.contains l = true) : l.isValid = true ∧ l.level = kMaxLevel := by
  have hl0 := ne_none_of_isLeaf hl
  have hheight := (isLeaf_iff hl0).mp hl
  have hvalid : l.isValid = true := by
    rw [isValid_iff_validCell] at hc ⊢
    exact ⟨hl0, hc.2.of_within ((contains_iff_within hc.1 hl0).mp hcl) (by omega)⟩
  have hlevel := level_spec hvalid
  rw [kMaxLevel]
  exact ⟨hvalid, by omega⟩

/-- Around a leaf of a cell there is one cell of every level from that of the cell on. -/
theorem exists_descendant (hc : c.isValid = true) (hl : l.isLeaf = true)
    (hcl : c.contains l = true) {level : ℤ} (hle : c.level ≤ level) (hmax : level ≤ kMaxLevel) :
    ∃ d : S2CellId, d.isValid = true ∧ c.contains d = true ∧ d.level = level ∧
      d.contains l = true := by
  obtain ⟨hlv, hlevel⟩ := isValid_of_leaf hc hl hcl
  obtain ⟨hd, hdl, hdcl⟩ := parentAt_spec hlv ((level_spec hc).1.trans hle) (by rwa [hlevel])
  refine ⟨l.parentAt level, hd, ?_, hdl, hdcl⟩
  exact contains_of_common hc hd (ne_none_of_isValid hlv) hcl hdcl (by rwa [hdl])

end S2CellId

variable {ids out : List S2CellId} {a b c : S2CellId}

/-- Cells inside cells of a vector cover no other leaves. -/
theorem leafCells_subset_of_contains (hids : ValidIds ids) (hout : ValidIds out)
    (h : ∀ d ∈ out, ∃ c ∈ ids, c.contains d = true) : leafCells out ⊆ leafCells ids := by
  intro l hl
  obtain ⟨hleaf, d, hd, hdl⟩ := hl
  obtain ⟨c, hc, hcd⟩ := h d hd
  exact ⟨hleaf, c, hc, contains_trans (hids.ne_none c hc) (hout.ne_none d hd)
    (ne_none_of_isLeaf hleaf) hcd hdl⟩

/-- Sorted and non-overlapping. -/
def Ascending (ids : List S2CellId) : Prop := ids.Pairwise fun a b => a.rangeMax < b.rangeMin

theorem Normalised.ascending (h : Normalised ids) : Ascending ids := by
  apply (h.increasing.and h.disjoint).imp_of_mem
  intro a b ha hb hab
  obtain ⟨hlt, hdisjoint⟩ := hab
  have ha0 := h.valid.ne_none a ha
  have hb0 := h.valid.ne_none b hb
  rw [rangeMax_lt_rangeMin_iff ha0 hb0]
  rw [lt_iff_center ha0 hb0] at hlt
  have hmeets : ¬ a.cell.Meets b.cell := by
    rw [← intersects_iff_meets ha0 hb0, hdisjoint]
    exact Bool.noConfusion
  rcases not_meets_iff.mp hmeets with hbefore | hafter
  · exact hbefore
  · exact absurd hafter.center_lt hlt.not_gt

end S2Geography
