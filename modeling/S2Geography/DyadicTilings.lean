import S2Geography.DyadicForms

/-!
# Tilings of ranges of leaves

A range of leaves is cut into cells from left to right, each time with the largest cell of
even height that starts where the last one ended and ends inside the range. The cells found
so are disjoint, cover the range, and no four of them are the quarters of a cell.
-/
namespace DyadicCells

open DyadicCell

/-- The largest cell of even height up to `top` that starts at `start` and ends before
`limit`. -/
structure IsTile (top start limit : ℕ) (d : DyadicCell) : Prop where
  even : d.height % 2 = 0
  height_le : d.height ≤ top
  lo_eq : d.lo = start
  hi_lt : d.hi < limit
  maximal : d.height + 2 ≤ top → d.parent.lo = start → limit ≤ d.parent.hi

/-- Tiles one after the other, from `start` on and up to `limit`. -/
inductive Tiling (top limit : ℕ) : ℕ → List DyadicCell → Prop
  | nil : Tiling top limit limit []
  | cons {start : ℕ} {d : DyadicCell} {ds : List DyadicCell} (first : IsTile top start limit d)
      (rest : Tiling top limit (d.hi + 2) ds) : Tiling top limit start (d :: ds)

variable {top start limit : ℕ} {d e p : DyadicCell} {ds : List DyadicCell}

namespace Tiling

theorem start_le_of_mem (h : Tiling top limit start ds) (hd : d ∈ ds) : start ≤ d.lo := by
  induction h with
  | nil => exact absurd hd List.not_mem_nil
  | cons first rest ih =>
    have hlo := first.lo_eq
    rcases List.mem_cons.mp hd with heq | hd
    · rw [heq, hlo]
    · have hle := DyadicCell.lo_le_hi ‹_›
      have hrest := ih hd
      omega

theorem isTile_of_mem (h : Tiling top limit start ds) (hd : d ∈ ds) :
    IsTile top d.lo limit d := by
  induction h with
  | nil => exact absurd hd List.not_mem_nil
  | cons first rest ih =>
    rcases List.mem_cons.mp hd with heq | hd
    · rw [heq, first.lo_eq]
      exact first
    · exact ih hd

theorem ordered (h : Tiling top limit start ds) : ds.Pairwise Before := by
  induction h with
  | nil => exact List.Pairwise.nil
  | cons first rest ih =>
    apply List.pairwise_cons.mpr
    refine ⟨?_, ih⟩
    intro e he
    have hle := rest.start_le_of_mem he
    rw [Before]
    omega

/-- The odd numbers, which are the leaves, of a range are those of its tiles. -/
theorem mem_iff (h : Tiling top limit start ds) {n : ℕ} (hn : n % 2 = 1) :
    (∃ d ∈ ds, d.lo ≤ n ∧ n ≤ d.hi) ↔ start ≤ n ∧ n < limit := by
  induction h with
  | nil =>
    simp only [List.not_mem_nil, false_and, exists_false, false_iff]
    omega
  | @cons start d ds first rest ih =>
    have hlo := first.lo_eq
    have hhi := first.hi_lt
    have hle := d.lo_le_hi
    have hadd := d.hi_eq_lo_add
    have hodd : d.lo % 2 = 1 := by
      rw [DyadicCell.lo, Nat.mul_assoc]
      omega
    simp only [List.mem_cons, exists_eq_or_imp, ih]
    omega

/-- The first of four quarters would not have been the largest cell. -/
theorem unmerged (h : Tiling top limit start ds) (hh : 2 ≤ p.height) (htop : p.height ≤ top) :
    ¬ ∀ k < 4, p.child k ∈ ds := by
  intro hmem
  have hfirst := h.isTile_of_mem (hmem 0 (by omega))
  have hlast := h.isTile_of_mem (hmem 3 (by omega))
  have hparent := parent_child p hh (show 0 < 4 by omega)
  have hlo : p.lo = (p.child 0).lo := by
    rw [child_lo hh]
    omega
  have hhi : p.hi = (p.child 3).hi := by
    have hsize := size_eq_four_mul hh 3
    have hpos := (p.child 3).size_pos
    rw [child_hi hh, hi_eq_lo_add p]
    omega
  have hmax := hfirst.maximal (by rw [child_height]; omega) (by rw [hparent, hlo])
  have hlt := hlast.hi_lt
  rw [hparent] at hmax
  omega

end Tiling

end DyadicCells
