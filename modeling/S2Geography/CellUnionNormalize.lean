import S2Geography.CellUnion
import Mathlib.Data.List.TakeWhile

/-!
# The loop of `Normalize`

One pass over the sorted ids drops contained cells and merges siblings on a stack. It is
followed over every vector of ids, valid or not: ids other than `none` are dyadic cells,
and `none` swallows all others. A second pass changes nothing.
-/
namespace S2Geography

open DyadicCells DyadicCell
open S2CellId hiding none

/-! ### Siblings -/

theorem and_mask_eq_iff {x y : BitVec 64} {n : ℕ} (hn : n + 1 < 64) :
    x &&& ~~~(1#64 <<< n + 1#64 <<< (n + 1)) = y &&& ~~~(1#64 <<< n + 1#64 <<< (n + 1)) ↔
      ∀ i, i ≠ n → i ≠ n + 1 → x.toNat.testBit i = y.toNat.testBit i := by
  have hpow : 2 ^ (n + 1) + 2 ^ n < 2 ^ 64 := by
    have hle : 2 ^ (n + 1) ≤ 2 ^ 63 := Nat.pow_le_pow_right (by omega) (by omega)
    rw [Nat.pow_succ] at hle ⊢
    omega
  have hsum : (1#64 <<< n + 1#64 <<< (n + 1)).toNat = 2 ^ (n + 1) * 1 + 2 ^ n := by
    have hpos := Nat.two_pow_pos n
    rw [BitVec.toNat_add, BitVec.toNat_shiftLeft, BitVec.toNat_shiftLeft, Nat.shiftLeft_eq,
      Nat.shiftLeft_eq]
    simp only [BitVec.toNat_ofNat]
    omega
  have hbit : ∀ i, (1#64 <<< n + 1#64 <<< (n + 1)).getLsbD i = decide (i = n ∨ i = n + 1) := by
    intro i
    rw [BitVec.getLsbD, hsum, Nat.testBit_two_pow_mul_add _
      (Nat.pow_lt_pow_right (by omega) (by omega))]
    split_ifs with hi
    · rw [Nat.testBit_two_pow]
      simp [show i ≠ n + 1 by omega, eq_comm]
    · rcases Nat.exists_eq_add_of_le (Nat.le_of_not_lt hi) with ⟨j, rfl⟩
      cases j with
      | zero => simp
      | succ j =>
        rw [show n + 1 + (j + 1) - (n + 1) = j + 1 by omega, Nat.testBit_succ]
        simp
        omega
  generalize 1#64 <<< n + 1#64 <<< (n + 1) = mask at hbit
  constructor
  · intro heq i h0 h1
    by_cases hw : i < 64
    · have hi : (x &&& ~~~mask).getLsbD i = (y &&& ~~~mask).getLsbD i := by rw [heq]
      simp only [BitVec.getLsbD_and, BitVec.getLsbD_not, hbit, hw, h0, h1, or_self, decide_false,
        decide_true, Bool.not_false, Bool.and_true] at hi
      exact hi
    · rw [Nat.testBit_lt_two_pow (x.isLt.trans_le (Nat.pow_le_pow_right (by omega) (by omega))),
        Nat.testBit_lt_two_pow (y.isLt.trans_le (Nat.pow_le_pow_right (by omega) (by omega)))]
  · intro h
    apply BitVec.eq_of_getLsbD_eq
    intro i hw
    rw [BitVec.getLsbD_and, BitVec.getLsbD_and, BitVec.getLsbD_not, hbit]
    by_cases h01 : i = n ∨ i = n + 1
    · simp only [h01, decide_true, Bool.not_true, Bool.and_false]
    · have hi : x.getLsbD i = y.getLsbD i := h i (by omega) (by omega)
      rw [hi]

variable {a b c d : S2CellId}

/-- The bits of a quarter: below the parent's, those of the odd number `2 * k + 1`. -/
theorem center_child (p : DyadicCell) (k : ℕ) :
    (p.child k).center = 2 ^ (p.height - 2 + 3) * p.index + (2 * k + 1) * 2 ^ (p.height - 2) := by
  simp only [center, DyadicCell.child, size, Nat.pow_add]
  ring

theorem testBit_center_child (p : DyadicCell) {k : ℕ} (hk : k < 4) (i : ℕ) :
    (p.child k).center.testBit i =
      if i < p.height - 2 + 3 then ((2 * k + 1) * 2 ^ (p.height - 2)).testBit i
      else p.index.testBit (i - (p.height - 2 + 3)) := by
  rw [center_child, Nat.testBit_two_pow_mul_add]
  calc (2 * k + 1) * 2 ^ (p.height - 2) < 8 * 2 ^ (p.height - 2) := by
        exact Nat.mul_lt_mul_of_pos_right (by omega) (Nat.two_pow_pos _)
    _ = 2 ^ (p.height - 2 + 3) := by
        rw [Nat.pow_add]
        ring

/-- The numbers of the quarters differ in the two bits above their lowest only. -/
theorem testBit_quarters (p : DyadicCell) {j k : ℕ} (hj : j < 4) (hk : k < 4) {i : ℕ}
    (h1 : i ≠ p.height - 2 + 1) (h2 : i ≠ p.height - 2 + 2) :
    (p.child j).center.testBit i = (p.child k).center.testBit i := by
  rw [testBit_center_child p hj, testBit_center_child p hk]
  split_ifs with hi
  · rw [Nat.testBit_mul_two_pow, Nat.testBit_mul_two_pow]
    by_cases hlow : p.height - 2 ≤ i
    · have hi0 : i - (p.height - 2) = 0 := by omega
      simp [hi0]
    · simp [hlow]
  · rfl

/-- Above the lowest bit the quarters count 0, 1, 2 and 3. -/
theorem xor_center_quarters (p : DyadicCell) :
    (p.child 0).center ^^^ (p.child 1).center ^^^ (p.child 2).center = (p.child 3).center := by
  apply Nat.eq_of_testBit_eq
  intro i
  rw [Nat.testBit_xor, Nat.testBit_xor]
  simp only [testBit_center_child p (show 0 < 4 by omega),
    testBit_center_child p (show 1 < 4 by omega), testBit_center_child p (show 2 < 4 by omega),
    testBit_center_child p (show 3 < 4 by omega), Nat.testBit_mul_two_pow]
  split_ifs with hi
  · by_cases hlow : p.height - 2 ≤ i
    · obtain ⟨j, rfl⟩ := Nat.exists_eq_add_of_le hlow
      have hj : j = 0 ∨ j = 1 ∨ j = 2 := by omega
      simp only [Nat.add_sub_cancel_left]
      rcases hj with rfl | rfl | rfl <;> simp <;> decide
    · simp [hlow]
  · simp

/-- A word that agrees with a cell outside the two bits above its lowest is a quarter of
the same parent. -/
theorem eq_child_of_testBit (hd : d ≠ S2CellId.none)
    (h : ∀ i, i ≠ d.cell.height + 1 → i ≠ d.cell.height + 2 →
      a.toNat.testBit i = d.toNat.testBit i) : ∃ k < 4, a.cell = d.cell.parent.child k := by
  have hdc := toNat_eq hd
  have hsize : d.cell.center = 2 ^ d.cell.height * (2 * d.cell.index + 1) := by
    simp only [center, size]
    ring
  have hlow : a.toNat % 2 ^ (d.cell.height + 1) = 2 ^ d.cell.height := by
    have heq : a.toNat % 2 ^ (d.cell.height + 1) = d.toNat % 2 ^ (d.cell.height + 1) := by
      apply Nat.eq_of_testBit_eq
      intro i
      rw [Nat.testBit_mod_two_pow, Nat.testBit_mod_two_pow]
      by_cases hi : i < d.cell.height + 1
      · rw [h i (by omega) (by omega)]
      · simp [hi]
    rw [heq, hdc, hsize, Nat.pow_succ, Nat.mul_mod_mul_left]
    have hodd : (2 * d.cell.index + 1) % 2 = 1 := by omega
    rw [hodd, Nat.mul_one]
  have hhigh : a.toNat / 2 ^ (d.cell.height + 3) = d.cell.index / 4 := by
    have heq : a.toNat / 2 ^ (d.cell.height + 3) = d.toNat / 2 ^ (d.cell.height + 3) := by
      apply Nat.eq_of_testBit_eq
      intro i
      rw [Nat.testBit_div_two_pow, Nat.testBit_div_two_pow]
      exact h _ (by omega) (by omega)
    rw [heq, hdc, hsize, Nat.pow_add, Nat.mul_div_mul_left _ _ (Nat.two_pow_pos _)]
    omega
  refine ⟨a.toNat / 2 ^ (d.cell.height + 1) % 4, Nat.mod_lt _ (by omega), ?_⟩
  apply (cell_eq_of_toNat _).2
  have hmid : a.toNat / 2 ^ (d.cell.height + 1) / 4 = d.cell.index / 4 := by
    rw [Nat.div_div_eq_div_mul, ← hhigh]
    congr 1
    rw [Nat.pow_succ, Nat.pow_add]
    ring
  have hsplit := Nat.div_add_mod a.toNat (2 ^ (d.cell.height + 1))
  have hquot := Nat.div_add_mod (a.toNat / 2 ^ (d.cell.height + 1)) 4
  rw [hmid] at hquot
  generalize a.toNat / 2 ^ (d.cell.height + 1) = q at *
  generalize q % 4 = k at *
  rw [← hsplit, hlow, ← hquot]
  simp only [center, DyadicCell.child, DyadicCell.parent, size, Nat.add_sub_cancel, Nat.pow_succ]
  ring

theorem lsb_eq (h : c ≠ S2CellId.none) : c.lsb = 1#64 <<< c.cell.height := by
  apply BitVec.eq_of_toNat_eq
  have hlt : 2 ^ c.cell.height < 2 ^ 64 := Nat.pow_lt_pow_right (by omega) (height_lt h)
  rw [lsb_toNat h, size, BitVec.toNat_shiftLeft, Nat.shiftLeft_eq]
  simp only [BitVec.toNat_ofNat]
  omega

/-- The mask of `AreSiblings` compares the cells outside the two bits above the lowest
bit of the last one. -/
theorem and_siblingMask_eq_iff (hd : d ≠ S2CellId.none) (hh : d.cell.height < 60) :
    a.id &&& ~~~(d.lsb <<< 1 + d.lsb <<< 1 <<< 1) = d.id &&& ~~~(d.lsb <<< 1 + d.lsb <<< 1 <<< 1) ↔
      ∀ i, i ≠ d.cell.height + 1 → i ≠ d.cell.height + 2 →
        a.toNat.testBit i = d.toNat.testBit i := by
  rw [lsb_eq hd, ← BitVec.shiftLeft_add, ← BitVec.shiftLeft_add]
  exact and_mask_eq_iff (by omega)

theorem areSiblings_eq_true : areSiblings a b c d = true ↔
    a.id ^^^ b.id ^^^ c.id = d.id ∧ d.isFace = false ∧
      ∀ x ∈ [a, b, c], x.id &&& ~~~(d.lsb <<< 1 + d.lsb <<< 1 <<< 1) =
        d.id &&& ~~~(d.lsb <<< 1 + d.lsb <<< 1 <<< 1) := by
  simp only [areSiblings, bne_iff_ne, ne_eq, ite_not, List.forall_mem_cons, List.not_mem_nil,
    false_imp_iff, implies_true, and_true]
  split_ifs with h
  · simp only [h, true_and, Bool.and_eq_true, beq_iff_eq, Bool.not_eq_true']
    tauto
  · simp [h]

theorem child_lt_of_before {p : DyadicCell} (hh : 2 ≤ p.height) {j k : ℕ}
    (h : (p.child j).Before (p.child k)) : j < k := by
  by_contra hge
  rcases (Nat.le_of_not_lt hge).eq_or_lt with rfl | hlt
  · exact h.not_meets (Within.refl _).meets
  · exact (h.trans (child_before hh hlt)).not_meets (Within.refl _).meets

/-- Cells that agree outside of the two bits are quarters of one cell, and if they are in order
they are its quarters in order. -/
theorem exists_quarters (hd : d ≠ S2CellId.none) (hab : a.cell.Before b.cell)
    (hbc : b.cell.Before c.cell) (hcd : c.cell.Before d.cell) (hface : d.isFace = false)
    (hmask : ∀ x ∈ [a, b, c], x.id &&& ~~~(d.lsb <<< 1 + d.lsb <<< 1 <<< 1) =
      d.id &&& ~~~(d.lsb <<< 1 + d.lsb <<< 1 <<< 1)) :
    ∃ p : DyadicCell, 2 ≤ p.height ∧ p.height ≤ 61 ∧
      a.cell = p.child 0 ∧ b.cell = p.child 1 ∧ c.cell = p.child 2 ∧ d.cell = p.child 3 := by
  have hh : d.cell.height < 60 := by
    by_contra hge
    rw [(isFace_iff hd).mpr (Nat.le_of_not_lt hge)] at hface
    exact absurd hface (by decide)
  have h2 : 2 ≤ d.cell.parent.height := by simp
  have hchild : ∀ x ∈ [a, b, c], ∃ k < 4, x.cell = d.cell.parent.child k := by
    intro x hx
    exact eq_child_of_testBit hd ((and_siblingMask_eq_iff hd hh).mp (hmask x hx))
  obtain ⟨i, hi, hai⟩ := hchild a (by simp)
  obtain ⟨j, hj, hbj⟩ := hchild b (by simp)
  obtain ⟨k, hk, hck⟩ := hchild c (by simp)
  have hdl := child_parent d.cell
  have hl : d.cell.index % 4 < 4 := Nat.mod_lt _ (by omega)
  rw [hai, hbj] at hab
  rw [hbj, hck] at hbc
  have hkl' : (d.cell.parent.child k).Before (d.cell.parent.child (d.cell.index % 4)) := by
    rw [hdl, ← hck]
    exact hcd
  have hij := child_lt_of_before h2 hab
  have hjk := child_lt_of_before h2 hbc
  have hkl := child_lt_of_before h2 hkl'
  refine ⟨d.cell.parent, h2, by simp only [parent_height]; omega, ?_, ?_, ?_, ?_⟩
  · rw [hai, show i = 0 by omega]
  · rw [hbj, show j = 1 by omega]
  · rw [hck, show k = 2 by omega]
  · rw [← show d.cell.index % 4 = 3 by omega, hdl]

theorem areSiblings_of_quarters (ha : a ≠ S2CellId.none) (hb : b ≠ S2CellId.none)
    (hc : c ≠ S2CellId.none) (hd : d ≠ S2CellId.none) {p : DyadicCell} (htop : p.height ≤ 61)
    (h0 : a.cell = p.child 0) (h1 : b.cell = p.child 1) (h2 : c.cell = p.child 2)
    (h3 : d.cell = p.child 3) : areSiblings a b c d = true := by
  rw [areSiblings_eq_true]
  have hheight : d.cell.height = p.height - 2 := by rw [h3, child_height]
  refine ⟨?_, ?_, ?_⟩
  · apply BitVec.eq_of_toNat_eq
    rw [BitVec.toNat_xor, BitVec.toNat_xor, show a.id.toNat = _ from toNat_eq ha,
      show b.id.toNat = _ from toNat_eq hb, show c.id.toNat = _ from toNat_eq hc,
      show d.id.toNat = _ from toNat_eq hd, h0, h1, h2, h3, xor_center_quarters]
  · rw [Bool.eq_false_iff]
    intro hface
    have := (isFace_iff hd).mp hface
    omega
  · intro x hx
    rw [and_siblingMask_eq_iff hd (by omega)]
    intro i hi1 hi2
    have hquarter : ∃ k < 4, x.toNat = (p.child k).center := by
      simp only [List.mem_cons, List.not_mem_nil, or_false] at hx
      rcases hx with rfl | rfl | rfl
      · exact ⟨0, by omega, by rw [toNat_eq ha, h0]⟩
      · exact ⟨1, by omega, by rw [toNat_eq hb, h1]⟩
      · exact ⟨2, by omega, by rw [toNat_eq hc, h2]⟩
    obtain ⟨k, hk, hxk⟩ := hquarter
    rw [hheight] at hi1 hi2
    rw [hxk, toNat_eq hd, h3]
    exact testBit_quarters p hk (by omega) hi1 hi2

/-- Four cells in order are siblings exactly when they are the quarters of a cell that
the faces do not exceed. -/
theorem areSiblings_iff (ha : a ≠ S2CellId.none) (hb : b ≠ S2CellId.none)
    (hc : c ≠ S2CellId.none) (hd : d ≠ S2CellId.none) (hab : a.cell.Before b.cell)
    (hbc : b.cell.Before c.cell) (hcd : c.cell.Before d.cell) :
    areSiblings a b c d = true ↔ ∃ p : DyadicCell, 2 ≤ p.height ∧ p.height ≤ 61 ∧
      a.cell = p.child 0 ∧ b.cell = p.child 1 ∧ c.cell = p.child 2 ∧ d.cell = p.child 3 := by
  constructor
  · intro h
    obtain ⟨-, hface, hmask⟩ := areSiblings_eq_true.mp h
    exact exists_quarters hd hab hbc hcd hface hmask
  · rintro ⟨p, -, htop, h0, h1, h2, h3⟩
    exact areSiblings_of_quarters ha hb hc hd htop h0 h1 h2 h3

/-! ### The loop -/

/-- The cells named by a vector of ids. -/
def cellsOf (ids : List S2CellId) : Set DyadicCell := {d | ∃ c ∈ ids, c.cell = d}

/-- What holds of the output of `Normalize` once the cells `S` have been read. -/
structure NormalizeInvariant (S : Set DyadicCell) (out : List S2CellId) : Prop where
  ne_none : ∀ c ∈ out, c ≠ S2CellId.none
  stacked : Stacked 61 S (out.map cell)
  collapsed : Collapsed 61 (out.map cell)

namespace S2CellUnion

variable {S : Set DyadicCell} {out : List S2CellId} {id : S2CellId}

/-- The test of the last loop, on the top of an ordered stack. -/
theorem areSiblings_top_iff {a b c id : S2CellId} {rest : List S2CellId}
    (hne : ∀ x ∈ id :: c :: b :: a :: rest, x ≠ S2CellId.none)
    (hord : ((id :: c :: b :: a :: rest).map cell).Pairwise fun a b => b.Before a) :
    areSiblings a b c id = true ↔ ∃ p : DyadicCell, 2 ≤ p.height ∧ p.height ≤ 61 ∧
      a.cell = p.child 0 ∧ b.cell = p.child 1 ∧ c.cell = p.child 2 ∧ id.cell = p.child 3 := by
  simp only [List.map_cons, List.pairwise_cons, List.mem_cons, forall_eq_or_imp] at hord
  obtain ⟨⟨hdc, -⟩, ⟨hcb, -⟩, ⟨hba, -⟩, -⟩ := hord
  exact areSiblings_iff (hne a (by simp)) (hne b (by simp)) (hne c (by simp)) (hne id (by simp))
    hba hcb hdc

/-- Merging siblings keeps the invariant, which may fail only for the id on top. -/
theorem collapse_invariant (hid : id ≠ S2CellId.none) (hout : ∀ c ∈ out, c ≠ S2CellId.none)
    (hs : Stacked 61 S ((id :: out).map cell)) (hc : Collapsed 61 (out.map cell)) :
    NormalizeInvariant S (collapse out id) := by
  induction out, id using collapse.induct with
  | case1 c b a rest id hsib ih =>
    have hne : ∀ x ∈ id :: c :: b :: a :: rest, x ≠ S2CellId.none :=
      List.forall_mem_cons.mpr ⟨hid, hout⟩
    obtain ⟨p, hh, htop, h0, h1, h2, h3⟩ := (areSiblings_top_iff hne hs.ordered).mp hsib
    have hheight : id.cell.height ≤ 61 := by
      rw [h3, child_height]
      omega
    obtain ⟨hp0, hp⟩ := parent_cell hid hheight
    rw [h3, parent_child p hh (by omega)] at hp
    rw [collapse, if_pos hsib]
    have htail := @Collapsed.tail 61 [c.cell, b.cell, a.cell] (rest.map cell) hc
    refine ih hp0 (fun x hx => hout x (by simp [hx])) ?_ htail
    simp only [List.map_cons, h0, h1, h2, h3] at hs
    rw [List.map_cons, hp]
    exact hs.merge hh htop
  | case2 c b a rest id hsib =>
    have hne : ∀ x ∈ id :: c :: b :: a :: rest, x ≠ S2CellId.none :=
      List.forall_mem_cons.mpr ⟨hid, hout⟩
    rw [collapse, if_neg hsib]
    refine ⟨hne, hs, hc.cons ?_⟩
    intro p hh htop rest' heq
    simp only [List.map_cons, List.cons.injEq] at heq
    obtain ⟨h3, h2, h1, h0, -⟩ := heq
    exact hsib ((areSiblings_top_iff hne hs.ordered).mpr ⟨p, hh, htop, h0, h1, h2, h3⟩)
  | case3 out id hshort =>
    have hcollapse : collapse out id = id :: out := by
      rw [collapse]
      exact hshort
    rw [hcollapse]
    refine ⟨List.forall_mem_cons.mpr ⟨hid, hout⟩, hs, hc.cons ?_⟩
    intro p hh htop rest heq
    match out, hshort, heq with
    | [], _, heq => simp at heq
    | [_], _, heq => simp at heq
    | [_, _], _, heq => simp at heq
    | c :: b :: a :: out, hshort, _ => exact hshort c b a out rfl

theorem within_of_mem_takeWhile (hout : ∀ c ∈ out, c ≠ S2CellId.none) (hid : id ≠ S2CellId.none)
    {c : S2CellId} (hc : c ∈ out.takeWhile id.contains) : c.cell.Within id.cell :=
  (contains_iff_within hid (hout c ((List.takeWhile_sublist _).mem hc))).mp
    (List.mem_takeWhile_imp hc)

/-- The first cell left is not in the new one, and holds it only if it is the last cell of the
output. -/
theorem not_meets_of_head?_dropWhile (h : NormalizeInvariant S out) (hid : id ≠ S2CellId.none)
    (hlast : ¬out.head?.any (·.contains id) = true) {c : S2CellId}
    (hc : (out.dropWhile id.contains).head? = some c) : ¬ c.cell.Meets id.cell := by
  intro hm
  have hcmem : c ∈ out := (List.dropWhile_sublist _).mem (List.mem_of_mem_head? hc)
  have hc0 := h.ne_none c hcmem
  have hstop : ¬ id.contains c = true := by
    have hnot := List.head?_dropWhile_not id.contains out
    rw [hc] at hnot
    simpa using hnot
  rcases hm.within_or with hci | hic
  · exact hstop ((contains_iff_within hid hc0).mpr hci)
  · cases hpopped : out.takeWhile id.contains with
    | nil =>
      have hall : out.dropWhile id.contains = out := by
        have hsplit : out.takeWhile id.contains ++ out.dropWhile id.contains = out :=
          List.takeWhile_append_dropWhile
        rw [hpopped] at hsplit
        exact hsplit
      rw [hall] at hc
      exact hlast (by rw [hc]; exact (contains_iff_within hc0 hid).mpr hic)
    | cons d popped =>
      have hd : d ∈ out.takeWhile id.contains := by simp [hpopped]
      have hdi := within_of_mem_takeWhile h.ne_none hid hd
      have hcd : d.cell = c.cell := by
        refine eq_of_meets h.stacked.ordered ?_ ?_ (hdi.trans hic).meets
        · exact List.mem_map_of_mem ((List.takeWhile_sublist _).mem hd)
        · exact List.mem_map_of_mem hcmem
      rw [hcd] at hdi
      exact hstop ((contains_iff_within hid hc0).mpr hdi)

theorem normalizeStep_invariant (h : NormalizeInvariant S out) (hid : id ≠ S2CellId.none)
    (hle : ∀ t ∈ S, t.center ≤ id.cell.center) :
    NormalizeInvariant (insert id.cell S) (normalizeStep out id) := by
  unfold normalizeStep
  split_ifs with hlast
  · cases out with
    | nil => simp at hlast
    | cons last out =>
      have hlast0 := h.ne_none last (by simp)
      have hin : id.cell.Within last.cell :=
        (contains_iff_within hlast0 hid).mp (by simpa using hlast)
      exact ⟨h.ne_none, h.stacked.skip hin hle, h.collapsed⟩
  · have hsplit : out.takeWhile id.contains ++ out.dropWhile id.contains = out :=
      List.takeWhile_append_dropWhile
    have hmap := h.stacked
    have hcol := h.collapsed
    rw [← hsplit, List.map_append] at hmap hcol
    refine collapse_invariant hid
      (fun c hc => h.ne_none c ((List.dropWhile_sublist _).mem hc)) ?_ hcol.tail
    refine hmap.push ?_ ?_ hle
    · intro w hw
      obtain ⟨c, hc, rfl⟩ := List.mem_map.mp hw
      exact within_of_mem_takeWhile h.ne_none hid hc
    · intro w hw
      rw [List.head?_map, Option.mem_map] at hw
      obtain ⟨c, hc, rfl⟩ := hw
      exact not_meets_of_head?_dropWhile h hid hlast hc

theorem foldl_invariant (ids : List S2CellId) (hids : ∀ c ∈ ids, c ≠ S2CellId.none)
    (hsorted : ids.Pairwise (· ≤ ·)) (hle : ∀ t ∈ S, ∀ c ∈ ids, t.center ≤ c.cell.center)
    (h : NormalizeInvariant S out) :
    NormalizeInvariant (S ∪ cellsOf ids) (ids.foldl normalizeStep out) := by
  induction ids generalizing S out with
  | nil =>
    have hempty : S ∪ cellsOf [] = S := by simp [cellsOf]
    rw [hempty]
    exact h
  | cons id ids ih =>
    obtain ⟨hid, hids⟩ := List.forall_mem_cons.mp hids
    obtain ⟨hfirst, hsorted⟩ := List.pairwise_cons.mp hsorted
    have hstep := normalizeStep_invariant h hid fun t ht => hle t ht id (by simp)
    have hunion : S ∪ cellsOf (id :: ids) = insert id.cell S ∪ cellsOf ids := by
      ext d
      simp only [cellsOf, Set.mem_union, Set.mem_ofPred_eq, List.mem_cons, exists_eq_or_imp,
        Set.mem_insert_iff, eq_comm (a := id.cell)]
      tauto
    rw [hunion]
    refine ih hids hsorted ?_ hstep
    intro t ht c hc
    rcases Set.mem_insert_iff.mp ht with rfl | ht
    · exact (le_iff_center hid (hids c hc)).mp (hfirst c hc)
    · exact hle t ht c (by simp [hc])

theorem pairwise_mergeSort_le (ids : List S2CellId) :
    (ids.mergeSort fun a b => a ≤ b).Pairwise (· ≤ ·) := by
  refine (List.pairwise_mergeSort ?_ ?_ ids).imp ?_
  · intro a b c hab hbc
    simp only [decide_eq_true_eq] at *
    exact hab.trans hbc
  · intro a b
    simpa using le_total a b
  · intro a b hab
    simpa using hab

/-- The invariant of the whole loop, over any ids but `none`. -/
theorem normalizeIds_invariant {ids : List S2CellId} (h : ∀ c ∈ ids, c ≠ S2CellId.none) :
    NormalizeInvariant (cellsOf ids) (normalizeIds ids).reverse := by
  have hempty : NormalizeInvariant ∅ [] := by
    refine ⟨by simp, Stacked.empty 61, ?_⟩
    intro p _ _ recent rest heq
    simp at heq
  have hrun := foldl_invariant (ids.mergeSort fun a b => a ≤ b)
    (by simpa using h) (pairwise_mergeSort_le ids) (by simp) hempty
  have hcells : ∅ ∪ cellsOf (ids.mergeSort fun a b => a ≤ b) = cellsOf ids := by
    simp [cellsOf]
  rw [hcells] at hrun
  rw [normalizeIds, List.reverse_reverse]
  exact hrun

/-- Nothing is merged into a stack that is already collapsed. -/
theorem collapse_eq_cons (hne : ∀ x ∈ id :: out, x ≠ S2CellId.none)
    (hord : ((id :: out).map cell).Pairwise fun a b => b.Before a)
    (hcol : Collapsed 61 ((id :: out).map cell)) : collapse out id = id :: out := by
  unfold collapse
  split
  · next c b a rest =>
    rw [if_neg]
    intro hsib
    obtain ⟨p, hh, htop, h0, h1, h2, h3⟩ := (areSiblings_top_iff hne hord).mp hsib
    refine hcol p hh htop [] (rest.map cell) ?_
    simp only [List.map_cons, h0, h1, h2, h3, List.nil_append]
  · rfl

/-- A second pass reads an output of the first back unchanged. -/
theorem foldl_eq_append (ids : List S2CellId) (h : ∀ c ∈ ids.reverse ++ out, c ≠ S2CellId.none)
    (hord : ((ids.reverse ++ out).map cell).Pairwise fun a b => b.Before a)
    (hcol : Collapsed 61 ((ids.reverse ++ out).map cell)) :
    ids.foldl normalizeStep out = ids.reverse ++ out := by
  induction ids generalizing out with
  | nil => rfl
  | cons id ids ih =>
    have hassoc : (id :: ids).reverse ++ out = ids.reverse ++ (id :: out) := by simp
    rw [hassoc] at h hord hcol ⊢
    have hne : ∀ c ∈ id :: out, c ≠ S2CellId.none := fun c hc => h c (List.mem_append_right _ hc)
    obtain ⟨hid, hout⟩ := List.forall_mem_cons.mp hne
    rw [List.map_append] at hord hcol
    have hord' := (List.pairwise_append.mp hord).2.1
    have hcol' : Collapsed 61 ((id :: out).map cell) := hcol.tail
    have hbefore : ∀ c ∈ out, c.cell.Before id.cell := by
      intro c hc
      exact (List.pairwise_cons.mp hord').1 c.cell (List.mem_map_of_mem hc)
    have hstep : normalizeStep out id = id :: out := by
      unfold normalizeStep
      rw [if_neg, List.dropWhile_eq_self_iff.mpr]
      · exact collapse_eq_cons hne hord' hcol'
      · intro hl hin
        have hmem : out[0] ∈ out := List.getElem_mem hl
        have hw := (contains_iff_within hid (hout _ hmem)).mp hin
        exact (hbefore _ hmem).not_meets hw.meets
      · intro hany
        cases out with
        | nil => simp at hany
        | cons last out =>
          have hw := (contains_iff_within (hout last (by simp)) hid).mp hany
          exact (hbefore last (by simp)).not_meets hw.meets.symm
    rw [List.foldl_cons, hstep]
    refine ih h ?_ ?_
    · rw [List.map_append]
      exact hord
    · rw [List.map_append]
      exact hcol

/-- The output over any ids but `none`, in the order of the vector. -/
theorem ordered_normalizeIds {ids : List S2CellId} (h : ∀ c ∈ ids, c ≠ S2CellId.none) :
    (normalizeIds ids).Pairwise fun a b => a.cell.Before b.cell := by
  have hord := (normalizeIds_invariant h).stacked.ordered
  rw [List.map_reverse, List.pairwise_reverse, List.pairwise_map] at hord
  exact hord

theorem ne_none_of_mem_normalizeIds {ids : List S2CellId} (h : ∀ c ∈ ids, c ≠ S2CellId.none)
    {c : S2CellId} (hc : c ∈ normalizeIds ids) : c ≠ S2CellId.none :=
  (normalizeIds_invariant h).ne_none c (List.mem_reverse.mpr hc)

theorem lt_of_before {a b : S2CellId} (ha : a ≠ S2CellId.none) (hb : b ≠ S2CellId.none)
    (h : a.cell.Before b.cell) : a < b :=
  (lt_iff_center ha hb).mpr h.center_lt

theorem increasing_normalizeIds {ids : List S2CellId} (h : ∀ c ∈ ids, c ≠ S2CellId.none) :
    (normalizeIds ids).Pairwise (· < ·) :=
  (ordered_normalizeIds h).imp_of_mem fun ha hb hab =>
    lt_of_before (ne_none_of_mem_normalizeIds h ha) (ne_none_of_mem_normalizeIds h hb) hab

theorem mergeSort_eq_self {ids : List S2CellId} (h : ids.Pairwise (· ≤ ·)) :
    (ids.mergeSort fun a b => a ≤ b) = ids := by
  refine List.mergeSort_of_pairwise (h.imp ?_)
  intro a b hab
  simpa using hab

/-! ### The id `none` -/

/-- `none` stands first and its wrapped range contains every other id, so what follows it
is dropped; equal ids do not contain each other here and are all kept. -/
theorem foldl_replicate_none (ids : List S2CellId) (n : ℕ) :
    ids.foldl normalizeStep (List.replicate (n + 1) S2CellId.none) =
      List.replicate (n + 1 + ids.count S2CellId.none) S2CellId.none := by
  induction ids generalizing n with
  | nil => simp
  | cons id ids ih =>
    by_cases hid : id = S2CellId.none
    · subst hid
      have hself : S2CellId.none.contains S2CellId.none = false := by decide
      have hcollapse : ∀ k, collapse (List.replicate k S2CellId.none) S2CellId.none =
          List.replicate (k + 1) S2CellId.none := by
        intro k
        have hsib :
            areSiblings S2CellId.none S2CellId.none S2CellId.none S2CellId.none = false := by
          decide
        match k with
        | 0 => rfl
        | 1 => rfl
        | 2 => rfl
        | k + 3 => simp [List.replicate_succ, collapse, hsib]
      have hstep : normalizeStep (List.replicate (n + 1) S2CellId.none) S2CellId.none =
          List.replicate (n + 1 + 1) S2CellId.none := by
        unfold normalizeStep
        rw [if_neg (by simp [List.replicate_succ, hself])]
        rw [List.dropWhile_eq_self_iff.mpr (by simp [hself]), hcollapse]
      rw [List.foldl_cons, hstep, ih, List.count_cons_self]
      congr 1
      omega
    · have hin := none_contains hid
      have hstep : normalizeStep (List.replicate (n + 1) S2CellId.none) id =
          List.replicate (n + 1) S2CellId.none := by
        unfold normalizeStep
        rw [if_pos (by simp [List.replicate_succ, hin])]
      rw [List.foldl_cons, hstep, ih, List.count_cons_of_ne hid]

theorem none_le (c : S2CellId) : S2CellId.none ≤ c := Nat.zero_le _

theorem normalizeIds_of_none_mem {ids : List S2CellId} (h : S2CellId.none ∈ ids) :
    normalizeIds ids = List.replicate (ids.count S2CellId.none) S2CellId.none := by
  have hperm := List.mergeSort_perm ids fun a b => a ≤ b
  have hsorted := pairwise_mergeSort_le ids
  rw [← hperm.mem_iff] at h
  rw [normalizeIds, ← hperm.count_eq]
  cases hs : ids.mergeSort fun a b => a ≤ b with
  | nil => simp [hs] at h
  | cons first rest =>
    have hfirst : first = S2CellId.none := by
      rw [hs] at h hsorted
      rcases List.mem_cons.mp h with heq | hmem
      · exact heq.symm
      · exact le_antisymm ((List.pairwise_cons.mp hsorted).1 _ hmem) (none_le first)
    rw [hfirst, List.foldl_cons, show normalizeStep [] S2CellId.none =
      List.replicate (0 + 1) S2CellId.none from rfl, foldl_replicate_none, List.reverse_replicate,
      List.count_cons_self]
    congr 1
    omega

/-- Normalising is idempotent on every vector of ids, valid or not. -/
theorem normalizeIds_idem (ids : List S2CellId) :
    normalizeIds (normalizeIds ids) = normalizeIds ids := by
  by_cases hnone : S2CellId.none ∈ ids
  · rw [normalizeIds_of_none_mem hnone]
    have hpos : S2CellId.none ∈ List.replicate (ids.count S2CellId.none) S2CellId.none := by
      rw [List.mem_replicate]
      exact ⟨(List.count_pos_iff.mpr hnone).ne', rfl⟩
    rw [normalizeIds_of_none_mem hpos, List.count_replicate_self]
  · have hne : ∀ c ∈ ids, c ≠ S2CellId.none := fun c hc heq => hnone (heq ▸ hc)
    have hinv := normalizeIds_invariant hne
    have hsorted : (normalizeIds ids).Pairwise (· ≤ ·) := (increasing_normalizeIds hne).imp le_of_lt
    conv_lhs => rw [normalizeIds, mergeSort_eq_self hsorted]
    rw [foldl_eq_append (normalizeIds ids) (by simpa using hinv.ne_none)
      (by simpa using hinv.stacked.ordered) (by simpa using hinv.collapsed)]
    simp

end S2CellUnion

end S2Geography
