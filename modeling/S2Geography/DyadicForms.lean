import S2Geography.DyadicCells
import Mathlib.Data.Set.Defs
import Mathlib.Data.List.Basic

/-!
# Unions of dyadic cells in normal form

Cells are split into four quarters, so a cell and its descendants have heights of one
parity. A set of pairwise disjoint cells without four quarters of one cell is in normal
form. A cell whose leaves are all covered by a normal form lies in one of its members,
and so the form is determined by the leaves it covers.
-/
namespace DyadicCells
namespace DyadicCell

theorem hi_eq_lo_add (c : DyadicCell) : c.hi = c.lo + 2 * (c.size - 1) := by
  have h := c.size_pos
  simp only [lo, hi, Nat.add_mul]
  omega

theorem lo_le_hi (c : DyadicCell) : c.lo ≤ c.hi := c.lo_le_center.trans c.center_le_hi

/-- The number of a cell names it. -/
theorem center_injective : Function.Injective center := by
  intro a b h
  rcases lt_trichotomy a.height b.height with hlt | heq | hlt
  · have := center_notMem_of_height_lt hlt
    have := a.lo_le_center
    have := a.center_le_hi
    omega
  · have hidx : (2 * a.index + 1) * 2 ^ a.height = (2 * b.index + 1) * 2 ^ a.height := by
      simpa only [center, size, heq] using h
    have := Nat.eq_of_mul_eq_mul_right (Nat.two_pow_pos _) hidx
    cases a
    cases b
    simp only [mk.injEq] at *
    omega
  · have := center_notMem_of_height_lt hlt
    have := b.lo_le_center
    have := b.center_le_hi
    omega

theorem Within.center_mem {a b : DyadicCell} (h : a.Within b) :
    b.lo ≤ a.center ∧ a.center ≤ b.hi :=
  (center_mem_iff a b).mpr h

theorem Within.height_le {a b : DyadicCell} (h : a.Within b) : a.height ≤ b.height := by
  by_contra hlt
  have hm := h.center_mem
  rcases center_notMem_of_height_lt (Nat.lt_of_not_le hlt) with h' | h' <;> omega

theorem Within.antisymm {a b : DyadicCell} (h : a.Within b) (h' : b.Within a) : a = b := by
  have heq : a.height = b.height := Nat.le_antisymm h.height_le h'.height_le
  have hlo : a.lo = b.lo := Nat.le_antisymm h'.1 h.1
  apply center_injective
  have ha := a.lo_eq
  have hb := b.lo_eq
  have hap := a.lo_pos
  have hbp := b.lo_pos
  simp only [size, heq] at ha hb
  omega

/-- Overlap of intervals. -/
def Meets (a b : DyadicCell) : Prop := a.lo ≤ b.hi ∧ b.lo ≤ a.hi

/-- The interval of `a` ends before that of `b` starts. -/
def Before (a b : DyadicCell) : Prop := a.hi < b.lo

theorem Meets.symm {a b : DyadicCell} (h : a.Meets b) : b.Meets a := ⟨h.2, h.1⟩

theorem Within.meets {a b : DyadicCell} (h : a.Within b) : a.Meets b :=
  ⟨a.lo_le_hi.trans h.2, h.1.trans a.lo_le_hi⟩

theorem Meets.mono {a b a' b' : DyadicCell} (h : a.Meets b) (ha : a.Within a')
    (hb : b.Within b') : a'.Meets b' :=
  ⟨(ha.1.trans h.1).trans hb.2, (hb.1.trans h.2).trans ha.2⟩

theorem not_meets_iff {a b : DyadicCell} : ¬ a.Meets b ↔ a.Before b ∨ b.Before a := by
  simp only [Meets, Before]
  omega

theorem Before.not_meets {a b : DyadicCell} (h : a.Before b) : ¬ a.Meets b :=
  not_meets_iff.mpr (Or.inl h)

theorem Before.trans {a b c : DyadicCell} (h : a.Before b) (h' : b.Before c) : a.Before c := by
  have := b.lo_le_hi
  simp only [Before] at *
  omega

theorem Before.mono {a b a' b' : DyadicCell} (h : a.Before b) (ha : a'.Within a)
    (hb : b'.Within b) : a'.Before b' :=
  (ha.2.trans_lt h).trans_le hb.1

theorem Before.center_lt {a b : DyadicCell} (h : a.Before b) : a.center < b.center :=
  (a.center_le_hi.trans_lt h).trans_le b.lo_le_center

theorem Meets.within {a b : DyadicCell} (h : a.Meets b) (hh : a.height ≤ b.height) :
    a.Within b := by
  rcases within_or_disjoint hh with hw | hd | hd
  · exact hw
  · exact absurd h (Before.not_meets hd)
  · exact absurd h.symm (Before.not_meets hd)

theorem Meets.within_or {a b : DyadicCell} (h : a.Meets b) : a.Within b ∨ b.Within a :=
  within_or_within h.2 h.1

theorem Within.eq_of_height_le {a b : DyadicCell} (h : a.Within b) (hh : b.height ≤ a.height) :
    a = b :=
  h.antisymm (h.meets.symm.within hh)

/-! ### Quarters -/

/-- One of the four quarters of a cell of height at least two. -/
def child (c : DyadicCell) (k : ℕ) : DyadicCell := ⟨4 * c.index + k, c.height - 2⟩

/-- The cell of which a cell is a quarter. -/
def parent (c : DyadicCell) : DyadicCell := ⟨c.index / 4, c.height + 2⟩

@[simp] theorem child_height (c : DyadicCell) (k : ℕ) : (c.child k).height = c.height - 2 := rfl

@[simp] theorem parent_height (c : DyadicCell) : c.parent.height = c.height + 2 := rfl

theorem child_parent (c : DyadicCell) : c.parent.child (c.index % 4) = c := by
  simp only [child, parent, Nat.add_sub_cancel]
  have h := Nat.div_add_mod c.index 4
  rw [h]

theorem parent_child (c : DyadicCell) {k : ℕ} (hh : 2 ≤ c.height) (hk : k < 4) :
    (c.child k).parent = c := by
  have hi : (4 * c.index + k) / 4 = c.index := by omega
  have hs : c.height - 2 + 2 = c.height := by omega
  simp only [child, parent, hi, hs]

theorem child_injective {c : DyadicCell} {j k : ℕ} (h : c.child j = c.child k) : j = k := by
  simp only [child, mk.injEq] at h
  omega

theorem size_eq_four_mul {c : DyadicCell} (hh : 2 ≤ c.height) (k : ℕ) :
    c.size = 4 * (c.child k).size := by
  obtain ⟨d, hd⟩ := Nat.exists_eq_add_of_le hh
  simp only [size, child_height, hd, Nat.add_sub_cancel_left, Nat.pow_add]

theorem child_lo {c : DyadicCell} (hh : 2 ≤ c.height) (k : ℕ) :
    (c.child k).lo = c.lo + 2 * k * (c.child k).size := by
  simp only [lo, size_eq_four_mul hh k, child]
  ring

theorem child_hi {c : DyadicCell} (hh : 2 ≤ c.height) (k : ℕ) :
    (c.child k).hi = c.lo + 2 * k * (c.child k).size + 2 * ((c.child k).size - 1) := by
  rw [hi_eq_lo_add, child_lo hh]

theorem child_size (c : DyadicCell) (k : ℕ) : (c.child k).size = (c.child 0).size := rfl

theorem child_within {c : DyadicCell} (hh : 2 ≤ c.height) {k : ℕ} (hk : k < 4) :
    (c.child k).Within c := by
  have hs := (c.child 0).size_pos
  have hc := size_eq_four_mul hh 0
  have hm := Nat.mul_le_mul_right (c.child 0).size (show 2 * k ≤ 6 by omega)
  refine ⟨?_, ?_⟩
  · rw [child_lo hh]
    omega
  · rw [child_hi hh, hi_eq_lo_add c, child_size]
    omega

theorem child_before {c : DyadicCell} (hh : 2 ≤ c.height) {j k : ℕ} (h : j < k) :
    (c.child j).Before (c.child k) := by
  have hs := (c.child 0).size_pos
  have hm := Nat.mul_le_mul_right (c.child 0).size (show 2 * j + 2 ≤ 2 * k by omega)
  rw [Nat.add_mul] at hm
  rw [Before, child_hi hh, child_lo hh, child_size c j, child_size c k]
  omega

/-- A cell strictly inside another of the same parity lies in one of its quarters. -/
theorem Within.exists_child {c d : DyadicCell} (h : d.Within c) (hh : d.height + 2 ≤ c.height) :
    ∃ k < 4, d.Within (c.child k) := by
  have h2 : 2 ≤ c.height := by omega
  have hs := (c.child 0).size_pos
  have hc := size_eq_four_mul h2 0
  have hchi := hi_eq_lo_add c
  have hdl := d.lo_le_hi
  obtain ⟨hlo, hhi⟩ := h
  have hdiv := Nat.div_add_mod (d.lo - c.lo) (2 * (c.child 0).size)
  have hmod := Nat.mod_lt (d.lo - c.lo) (show 0 < 2 * (c.child 0).size by omega)
  have hk4 : (d.lo - c.lo) / (2 * (c.child 0).size) < 4 := by
    apply Nat.div_lt_of_lt_mul
    omega
  generalize (d.lo - c.lo) / (2 * (c.child 0).size) = k at *
  have hmul : 2 * (c.child 0).size * k = 2 * k * (c.child 0).size := by ring
  -- both intervals start at odd numbers
  have hodd : (d.lo - c.lo) % 2 = 0 := by
    have hd : d.lo = 2 * (d.index * d.size) + 1 := by
      simp only [lo]
      ring
    have hc : c.lo = 2 * (c.index * c.size) + 1 := by
      simp only [lo]
      ring
    omega
  have heven : 2 * k * (c.child 0).size = 2 * (k * (c.child 0).size) := by ring
  refine ⟨k, hk4, Meets.within ⟨?_, ?_⟩ (by rw [child_height]; omega)⟩
  · rw [child_hi h2, child_size]
    omega
  · rw [child_lo h2, child_size]
    omega

/-! ### Leaves -/

theorem within_parent (c : DyadicCell) : c.Within c.parent := by
  have h : 2 ≤ c.parent.height := by
    rw [parent_height]
    omega
  have hwithin := child_within h (Nat.mod_lt c.index (show 0 < 4 by omega))
  rwa [child_parent] at hwithin

/-- A cell that holds another and is higher by two or more holds its parent. -/
theorem Within.parent_within {c d : DyadicCell} (h : c.Within d) (hh : c.height + 2 ≤ d.height) :
    c.parent.Within d :=
  Meets.within ((within_parent c).meets.symm.mono (Within.refl _) h) hh

/-- A cell whose quarters all miss another cell of its parity misses that cell. -/
theorem not_meets_of_children {c d : DyadicCell} (hh : 2 ≤ c.height)
    (hparity : d.height % 2 = c.height % 2) (h : ∀ k < 4, ¬(c.child k).Meets d) :
    ¬c.Meets d := by
  intro hm
  have hfirst : (c.child 0).Within c := child_within hh (by omega)
  rcases hm.within_or with hcd | hdc
  · exact h 0 (by omega) (hfirst.trans hcd).meets
  · by_cases hlt : d.height + 2 ≤ c.height
    · obtain ⟨k, hk, hdk⟩ := hdc.exists_child hlt
      exact h k hk hdk.meets.symm
    · have hle := hdc.height_le
      have heq := hdc.eq_of_height_le (by omega)
      refine h 0 (by omega) ?_
      rw [heq]
      exact hfirst.meets

theorem exists_leaf (c : DyadicCell) : ∃ l : DyadicCell, l.height = 0 ∧ l.Within c := by
  refine ⟨⟨c.index * c.size, 0⟩, rfl, (center_mem_iff _ _).mp ?_⟩
  have hcenter : center ⟨c.index * c.size, 0⟩ = c.lo := by
    simp only [center, size, lo]
    ring
  rw [hcenter]
  exact ⟨le_rfl, c.lo_le_hi⟩

/-- Every leaf below the cell is below a member of the set. -/
def Covers (S : Set DyadicCell) (d : DyadicCell) : Prop :=
  ∀ l : DyadicCell, l.height = 0 → l.Within d → ∃ s ∈ S, l.Within s

theorem Covers.mono {S : Set DyadicCell} {d e : DyadicCell} (h : Covers S d) (he : e.Within d) :
    Covers S e := by
  intro l hl hle
  exact h l hl (hle.trans he)

theorem covers_of_within {S : Set DyadicCell} {d s : DyadicCell} (hs : s ∈ S)
    (h : d.Within s) : Covers S d := by
  intro l _ hl
  exact ⟨s, hs, hl.trans h⟩

theorem covers_of_children {S : Set DyadicCell} {p : DyadicCell} (hh : 2 ≤ p.height)
    (h : ∀ k < 4, Covers S (p.child k)) : Covers S p := by
  intro l hl hlp
  obtain ⟨k, hk, hlk⟩ := hlp.exists_child (by omega)
  exact h k hk l hl hlk

end DyadicCell

open DyadicCell

/-! ### Normal forms -/

/-- Disjoint cells of even height up to `top`, no four of them the quarters of a cell. -/
structure NormalForm (top : ℕ) (S : Set DyadicCell) : Prop where
  even : ∀ s ∈ S, s.height % 2 = 0
  bounded : ∀ s ∈ S, s.height ≤ top
  disjoint : ∀ a ∈ S, ∀ b ∈ S, a.Within b → a = b
  unmerged : ∀ p : DyadicCell, 2 ≤ p.height → p.height ≤ top → ¬ ∀ k < 4, p.child k ∈ S

/-- A covered cell lies in a member of the form. By induction on the height: the quarters
lie in members, and unless one of these holds the whole cell they are the quarters. -/
theorem NormalForm.exists_within {top : ℕ} {S : Set DyadicCell} (hS : NormalForm top S)
    {d : DyadicCell} (heven : d.height % 2 = 0) (htop : d.height ≤ top) (h : Covers S d) :
    ∃ s ∈ S, d.Within s := by
  obtain ⟨n, hn⟩ : ∃ n, d.height = 2 * n := ⟨d.height / 2, by omega⟩
  induction n generalizing d with
  | zero => exact h d (by omega) (Within.refl d)
  | succ n ih =>
    have h2 : 2 ≤ d.height := by omega
    by_contra hnone
    refine hS.unmerged d h2 htop fun k hk => ?_
    have hkd := child_within h2 hk
    have hkh := child_height d k
    obtain ⟨s, hs, hks⟩ := ih (by omega) (by omega) (h.mono hkd) (by omega)
    have hseven := hS.even s hs
    have hle := hks.height_le
    by_cases hbig : d.height ≤ s.height
    · exact absurd ⟨s, hs, (hkd.meets.symm.mono (Within.refl d) hks).within hbig⟩ hnone
    · rw [hks.eq_of_height_le (by omega)]
      exact hs

/-- Normal forms that cover the same leaves have the same members. -/
theorem NormalForm.subset_of_covers {top : ℕ} {S T : Set DyadicCell} (hS : NormalForm top S)
    (hT : NormalForm top T) (hST : ∀ s ∈ S, Covers T s) (hTS : ∀ t ∈ T, Covers S t) :
    S ⊆ T := by
  intro s hs
  obtain ⟨t, ht, hst⟩ := hT.exists_within (hS.even s hs) (hS.bounded s hs) (hST s hs)
  obtain ⟨s', hs', hts⟩ := hS.exists_within (hT.even t ht) (hT.bounded t ht) (hTS t ht)
  have heq : s = s' := hS.disjoint s hs s' hs' (hst.trans hts)
  rw [hst.antisymm (heq ▸ hts)]
  exact ht

/-! ### Merging quarters from a stack -/

/-- A member that no other member contains. -/
def IsTop (S : Set DyadicCell) (c : DyadicCell) : Prop := c ∈ S ∧ ∀ d ∈ S, c.Within d → c = d

/-- Built from maximal members by merging four quarters into a cell, up to a height. -/
inductive Assembled (top : ℕ) (S : Set DyadicCell) : DyadicCell → Prop
  | member {c : DyadicCell} (h : IsTop S c) : Assembled top S c
  | merge {p : DyadicCell} (hh : 2 ≤ p.height) (htop : p.height ≤ top)
      (h : ∀ k < 4, Assembled top S (p.child k)) : Assembled top S p

namespace Assembled

variable {top : ℕ} {S T : Set DyadicCell} {w : DyadicCell}

/-- The maximal members below an assembled cell cover it, with heights of its parity. -/
theorem exists_isTop (hw : Assembled top S w) {l : DyadicCell} (hl : l.height = 0)
    (hlw : l.Within w) :
    ∃ t, IsTop S t ∧ l.Within t ∧ t.Within w ∧ t.height % 2 = w.height % 2 := by
  induction hw with
  | @member c h => exact ⟨c, h, hlw, Within.refl c, rfl⟩
  | @merge p hh htop h ih =>
    obtain ⟨k, hk, hlk⟩ := hlw.exists_child (by omega)
    obtain ⟨t, ht, hlt, htk, hpar⟩ := ih k hk hlk
    have hkh := child_height p k
    exact ⟨t, ht, hlt, htk.trans (child_within hh hk), by omega⟩

theorem exists_mem (hw : Assembled top S w) : ∃ t, IsTop S t ∧ t.Within w := by
  obtain ⟨l, hl, hlw⟩ := exists_leaf w
  obtain ⟨t, ht, -, htw, -⟩ := hw.exists_isTop hl hlw
  exact ⟨t, ht, htw⟩

theorem covers (hw : Assembled top S w) : Covers S w := by
  intro l hl hlw
  obtain ⟨t, ht, hlt, -, -⟩ := hw.exists_isTop hl hlw
  exact ⟨t, ht.1, hlt⟩

/-- The maximal members that meet an assembled cell lie in it. -/
theorem within_of_isTop (hw : Assembled top S w) {t : DyadicCell} (ht : IsTop S t)
    (hm : t.Meets w) : t.Within w ∧ t.height % 2 = w.height % 2 := by
  have hleaf : ∃ l : DyadicCell, l.height = 0 ∧ l.Within t ∧ l.Within w := by
    rcases hm.within_or with h | h
    · obtain ⟨l, hl, hlt⟩ := exists_leaf t
      exact ⟨l, hl, hlt, hlt.trans h⟩
    · obtain ⟨l, hl, hlw⟩ := exists_leaf w
      exact ⟨l, hl, hlw.trans h, hlw⟩
  obtain ⟨l, hl, hlt, hlw⟩ := hleaf
  obtain ⟨u, hu, hlu, huw, hpar⟩ := hw.exists_isTop hl hlw
  have htu : t = u := by
    rcases (hlt.meets.symm.mono (Within.refl t) hlu).within_or with h | h
    · exact ht.2 u hu.1 h
    · exact (hu.2 t ht.1 h).symm
  rw [htu]
  exact ⟨huw, hpar⟩

/-- An assembled cell that is not a maximal member was merged from its quarters. -/
theorem isTop_or_children (hw : Assembled top S w) :
    IsTop S w ∨ 2 ≤ w.height ∧ w.height ≤ top ∧ ∀ k < 4, Assembled top S (w.child k) := by
  cases hw with
  | member h => exact Or.inl h
  | merge hh htop h => exact Or.inr ⟨hh, htop, h⟩

/-- A maximal member of height zero was either kept or merged with its three siblings. -/
theorem eq_or_siblings (hw : Assembled top S w) {l : DyadicCell} (ht : IsTop S l)
    (hl : l.height = 0) (hlw : l.Within w) : l = w ∨ ∀ k < 4, IsTop S (l.parent.child k) := by
  induction hw with
  | @member c h => exact Or.inl (ht.2 c h.1 hlw)
  | @merge p hh htop h ih =>
    right
    obtain ⟨j, hj, hlj⟩ := hlw.exists_child (by omega)
    rcases ih j hj hlj with heq | hsib
    · rw [heq, parent_child p hh hj]
      intro k hk
      rcases (h k hk).isTop_or_children with hk' | ⟨hk', -⟩
      · exact hk'
      · rw [heq, child_height] at hl
        rw [child_height] at hk'
        omega
    · exact hsib

theorem mono (hw : Assembled top S w) (h : ∀ t, IsTop S t → t.Within w → IsTop T t) :
    Assembled top T w := by
  induction hw with
  | @member c hc => exact .member (h c hc (Within.refl c))
  | @merge p hh htop _ ih =>
    refine .merge hh htop fun k hk => ih k hk fun t ht htk => ?_
    exact h t ht (htk.trans (child_within hh hk))

/-- A cell inside an assembled one, numbered no lower than any member, lies in a member:
it can only be in the last quarter of every merge. -/
theorem exists_within_of_le (hw : Assembled top S w) {c : DyadicCell} (hc : c.Within w)
    (hle : ∀ t ∈ S, t.center ≤ c.center) : ∃ t ∈ S, c.Within t := by
  induction hw with
  | @member t ht => exact ⟨t, ht.1, hc⟩
  | @merge p hh htop h ih =>
    have h3 : c.Within (p.child 3) := by
      obtain ⟨t, ht, htw⟩ := (h 3 (by omega)).exists_mem
      have hlast : (p.child 3).hi = p.hi := by
        have hs := (p.child 3).size_pos
        have hsize := size_eq_four_mul hh 3
        rw [child_hi hh, hi_eq_lo_add p]
        omega
      refine (center_mem_iff _ _).mp ⟨?_, ?_⟩
      · exact (htw.1.trans t.lo_le_center).trans (hle t ht.1)
      · rw [hlast]
        exact c.center_le_hi.trans hc.2
    exact ih 3 (by omega) h3

end Assembled

/-- In an ordered stack, cells that meet are the same. -/
theorem eq_of_meets {out : List DyadicCell} (hord : out.Pairwise (fun a b => b.Before a))
    {a b : DyadicCell} (ha : a ∈ out) (hb : b ∈ out) (hm : a.Meets b) : a = b := by
  have hfwd : out.Pairwise (fun a b => a.Meets b → a = b) := by
    refine hord.imp ?_
    intro a b hab hm
    exact absurd hm.symm hab.not_meets
  have hbwd : out.Pairwise (fun a b => b.Meets a → b = a) := by
    refine hord.imp ?_
    intro a b hab hm
    exact absurd hm hab.not_meets
  exact List.Pairwise.forall_of_forall_of_flip (fun _ _ _ => rfl) hfwd hbwd ha hb hm

/-- A stack of cells, nearest first, that has taken in the members of a set. -/
structure Stacked (top : ℕ) (S : Set DyadicCell) (out : List DyadicCell) : Prop where
  ordered : out.Pairwise (fun a b => b.Before a)
  assembled : ∀ w ∈ out, Assembled top S w
  reached : ∀ c ∈ S, ∃ w ∈ out, c.Within w

namespace Stacked

variable {top : ℕ} {S : Set DyadicCell} {out : List DyadicCell} {c w : DyadicCell}

theorem empty (top : ℕ) : Stacked top ∅ [] := by
  refine ⟨List.Pairwise.nil, ?_, ?_⟩
  · intro w hw
    simp at hw
  · intro c hc
    simp at hc

/-- A cell within the first cell of the stack lies in a member, so the maximal members
stay the same. -/
theorem skip (h : Stacked top S (w :: out)) (hc : c.Within w)
    (hle : ∀ t ∈ S, t.center ≤ c.center) : Stacked top (insert c S) (w :: out) := by
  obtain ⟨t, ht, hct⟩ := (h.assembled w (by simp)).exists_within_of_le hc hle
  have htop : ∀ u, IsTop S u → IsTop (insert c S) u := by
    intro u hu
    refine ⟨Set.mem_insert_of_mem c hu.1, ?_⟩
    intro d hd hud
    rcases Set.mem_insert_iff.mp hd with rfl | hd
    · have hut : u = t := hu.2 t ht (hud.trans hct)
      exact hud.antisymm (hut ▸ hct)
    · exact hu.2 d hd hud
  refine ⟨h.ordered, ?_, ?_⟩
  · intro v hv
    exact (h.assembled v hv).mono fun u hu _ => htop u hu
  · intro d hd
    rcases Set.mem_insert_iff.mp hd with rfl | hd
    · exact ⟨w, by simp, hc⟩
    · exact h.reached d hd

/-- A cell of the stack beside a new one comes before it: it holds a member, which is
numbered below the new cell. -/
theorem before_of_not_meets (h : Stacked top S out) (hle : ∀ t ∈ S, t.center ≤ c.center)
    (hw : w ∈ out) (hm : ¬ w.Meets c) : w.Before c := by
  rcases not_meets_iff.mp hm with hwc | hcw
  · exact hwc
  · obtain ⟨t, ht, htw⟩ := (h.assembled w hw).exists_mem
    have hlt := (hcw.mono (Within.refl c) htw).center_lt
    exact absurd (hle t ht.1) (Nat.not_le_of_lt hlt)

/-- If the first of the cells left is beside the new cell, they all come before it. -/
theorem before_of_head {popped : List DyadicCell} (h : Stacked top S (popped ++ out))
    (hhead : ∀ w ∈ out.head?, ¬ w.Meets c) (hle : ∀ t ∈ S, t.center ≤ c.center) :
    ∀ w ∈ out, w.Before c := by
  have hord := (List.pairwise_append.mp h.ordered).2.1
  cases out with
  | nil =>
    intro w hw
    simp at hw
  | cons v rest =>
    have hv : v.Before c :=
      h.before_of_not_meets hle (List.mem_append_right popped (by simp)) (hhead v (by simp))
    intro w hw
    rcases List.mem_cons.mp hw with rfl | hw
    · exact hv
    · exact ((List.pairwise_cons.mp hord).1 w hw).trans hv

/-- No member is above a new cell that is beside the cells left. -/
theorem isTop_insert {popped : List DyadicCell} (h : Stacked top S (popped ++ out))
    (hpop : ∀ w ∈ popped, w.Within c) (hall : ∀ w ∈ out, w.Before c) :
    IsTop (insert c S) c := by
  refine ⟨Set.mem_insert c S, ?_⟩
  intro d hd hcd
  rcases Set.mem_insert_iff.mp hd with rfl | hd
  · rfl
  · obtain ⟨w, hw, hdw⟩ := h.reached d hd
    rcases List.mem_append.mp hw with hw | hw
    · exact hcd.antisymm (hdw.trans (hpop w hw))
    · exact absurd (hcd.trans hdw).meets.symm (Before.not_meets (hall w hw))

/-- A new cell replaces the cells of the stack that lie in it, once the first cell
that does not is beside it. -/
theorem push {popped : List DyadicCell} (h : Stacked top S (popped ++ out))
    (hpop : ∀ w ∈ popped, w.Within c) (hhead : ∀ w ∈ out.head?, ¬ w.Meets c)
    (hle : ∀ t ∈ S, t.center ≤ c.center) : Stacked top (insert c S) (c :: out) := by
  have hord := (List.pairwise_append.mp h.ordered).2.1
  have hall := h.before_of_head hhead hle
  refine ⟨List.pairwise_cons.mpr ⟨hall, hord⟩, ?_, ?_⟩
  · intro w hw
    rcases List.mem_cons.mp hw with rfl | hw
    · exact .member (h.isTop_insert hpop hall)
    · refine (h.assembled w (List.mem_append_right popped hw)).mono fun t ht htw => ?_
      refine ⟨Set.mem_insert_of_mem c ht.1, ?_⟩
      intro d hd htd
      rcases Set.mem_insert_iff.mp hd with heq | hd
      · have hwc : w.Meets c := heq ▸ (htd.meets.symm.mono (Within.refl d) htw).symm
        exact absurd hwc (hall w hw).not_meets
      · exact ht.2 d hd htd
  · intro d hd
    rcases Set.mem_insert_iff.mp hd with rfl | hd
    · exact ⟨d, by simp, Within.refl d⟩
    · obtain ⟨w, hw, hdw⟩ := h.reached d hd
      rcases List.mem_append.mp hw with hw | hw
      · exact ⟨c, by simp, hdw.trans (hpop w hw)⟩
      · exact ⟨w, by simp [hw], hdw⟩

/-- Four quarters on top of the stack become one cell. -/
theorem merge {p : DyadicCell} (hh : 2 ≤ p.height) (htop : p.height ≤ top)
    (h : Stacked top S (p.child 3 :: p.child 2 :: p.child 1 :: p.child 0 :: out)) :
    Stacked top S (p :: out) := by
  have hmem : ∀ k < 4, p.child k ∈ p.child 3 :: p.child 2 :: p.child 1 :: p.child 0 :: out := by
    intro k hk
    have hcases : k = 0 ∨ k = 1 ∨ k = 2 ∨ k = 3 := by omega
    rcases hcases with rfl | rfl | rfl | rfl <;> simp
  have hsuffix : [p.child 3, p.child 2, p.child 1] ++ (p.child 0 :: out) =
      p.child 3 :: p.child 2 :: p.child 1 :: p.child 0 :: out := rfl
  have hord := h.ordered
  rw [← hsuffix] at hord
  obtain ⟨hfirst, hrest⟩ := List.pairwise_cons.mp (List.pairwise_append.mp hord).2.1
  refine ⟨List.pairwise_cons.mpr ⟨?_, hrest⟩, ?_, ?_⟩
  · intro w hw
    have hlo := child_lo hh 0
    have hwp := hfirst w hw
    simp only [Before] at *
    omega
  · intro w hw
    rcases List.mem_cons.mp hw with rfl | hw
    · exact .merge hh htop fun k hk => h.assembled _ (hmem k hk)
    · exact h.assembled w (by simp [hw])
  · intro d hd
    obtain ⟨w, hw, hdw⟩ := h.reached d hd
    simp only [List.mem_cons] at hw
    rcases hw with rfl | rfl | rfl | rfl | hw
    · exact ⟨p, by simp, hdw.trans (child_within hh (by omega))⟩
    · exact ⟨p, by simp, hdw.trans (child_within hh (by omega))⟩
    · exact ⟨p, by simp, hdw.trans (child_within hh (by omega))⟩
    · exact ⟨p, by simp, hdw.trans (child_within hh (by omega))⟩
    · exact ⟨w, by simp [hw], hdw⟩

end Stacked

/-- No four neighbours in the stack are the quarters of a cell. -/
def Collapsed (top : ℕ) (out : List DyadicCell) : Prop :=
  ∀ p : DyadicCell, 2 ≤ p.height → p.height ≤ top → ∀ recent rest,
    out ≠ recent ++ p.child 3 :: p.child 2 :: p.child 1 :: p.child 0 :: rest

theorem Collapsed.tail {top : ℕ} {recent out : List DyadicCell}
    (h : Collapsed top (recent ++ out)) : Collapsed top out := by
  intro p hh hp recent' rest heq
  refine h p hh hp (recent ++ recent') rest ?_
  rw [heq, List.append_assoc]

theorem Collapsed.cons {top : ℕ} {c : DyadicCell} {out : List DyadicCell}
    (h : Collapsed top out)
    (hc : ∀ p : DyadicCell, 2 ≤ p.height → p.height ≤ top → ∀ rest,
      c :: out ≠ p.child 3 :: p.child 2 :: p.child 1 :: p.child 0 :: rest) :
    Collapsed top (c :: out) := by
  intro p hh hp recent rest heq
  cases recent with
  | nil => exact hc p hh hp rest heq
  | cons d recent =>
    rw [List.cons_append, List.cons.injEq] at heq
    exact h p hh hp recent rest heq.2

/-- No cell fits between two neighbouring quarters. -/
theorem not_between {p c : DyadicCell} (hh : 2 ≤ p.height) {k : ℕ} :
    ¬ ((p.child k).Before c ∧ c.Before (p.child (k + 1))) := by
  rintro ⟨h, h'⟩
  have hs := (p.child 0).size_pos
  have hle := c.lo_le_hi
  have hmul : 2 * (k + 1) * (p.child 0).size =
      2 * k * (p.child 0).size + 2 * (p.child 0).size := by ring
  have heven : 2 * k * (p.child 0).size = 2 * (k * (p.child 0).size) := by ring
  have hc : c.lo = 2 * (c.index * c.size) + 1 := by
    simp only [lo]
    ring
  have hp : p.lo = 2 * (p.index * p.size) + 1 := by
    simp only [lo]
    ring
  simp only [Before, child_hi hh, child_lo hh, child_size p k, child_size p (k + 1)] at h h'
  omega

theorem eq_cons_of_adjacent {a b : DyadicCell} {out : List DyadicCell}
    (hord : (b :: out).Pairwise (fun a b => b.Before a)) (ha : a ∈ out)
    (hnone : ∀ c, ¬ (a.Before c ∧ c.Before b)) : ∃ rest, out = a :: rest := by
  cases out with
  | nil => simp at ha
  | cons c rest =>
    obtain ⟨hb, hrest⟩ := List.pairwise_cons.mp hord
    rcases List.mem_cons.mp ha with rfl | ha
    · exact ⟨rest, rfl⟩
    · exact absurd ⟨(List.pairwise_cons.mp hrest).1 a ha, hb c (by simp)⟩ (hnone c)

/-- In an ordered stack the quarters of a cell stand together. -/
theorem Collapsed.unmerged {top : ℕ} {out : List DyadicCell} (h : Collapsed top out)
    (hord : out.Pairwise (fun a b => b.Before a)) {p : DyadicCell} (hh : 2 ≤ p.height)
    (hp : p.height ≤ top) : ¬ ∀ k < 4, p.child k ∈ out := by
  intro hmem
  obtain ⟨recent, rest, rfl⟩ := List.append_of_mem (hmem 3 (by omega))
  obtain ⟨-, hord', hrecent⟩ := List.pairwise_append.mp hord
  have hbelow : ∀ k < 3, p.child k ∈ rest := by
    intro k hk
    have hb : (p.child k).Before (p.child 3) := child_before hh hk
    have hmk := hmem k (by omega)
    simp only [List.mem_append, List.mem_cons] at hmk
    rcases hmk with hk' | heq | hk'
    · exact absurd (hb.trans (hrecent _ hk' _ (by simp))) fun hself => hself.not_meets
        (Within.refl _).meets
    · exact absurd (child_injective heq) (by omega)
    · exact hk'
  obtain ⟨rest₂, rfl⟩ := eq_cons_of_adjacent hord' (hbelow 2 (by omega)) fun c => not_between hh
  have hord₂ := (List.pairwise_cons.mp hord').2
  have hne : ∀ {j k : ℕ}, j ≠ k → p.child j ≠ p.child k := fun hjk heq => hjk (child_injective heq)
  have h1 := (List.mem_cons.mp (hbelow 1 (by omega))).resolve_left (hne (by omega))
  obtain ⟨rest₁, rfl⟩ := eq_cons_of_adjacent hord₂ h1 fun c => not_between hh
  have hord₁ := (List.pairwise_cons.mp hord₂).2
  have h0 := (List.mem_cons.mp (hbelow 0 (by omega))).resolve_left (hne (by omega))
  have h0' := (List.mem_cons.mp h0).resolve_left (hne (by omega))
  obtain ⟨rest₀, rfl⟩ := eq_cons_of_adjacent hord₁ h0' fun c => not_between hh
  exact h p hh hp recent rest₀ rfl

end DyadicCells
