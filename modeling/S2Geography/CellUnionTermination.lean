import S2Geography.CellUnionOperations

/-!
# When the difference of two cell unions terminates

`GetDifferenceInternal` descends by shifting the lowest set bit down two places. For an
id whose lowest set bit is at an odd place it ends up one place above the leaves, where
the shift loses the bit and the first child is a larger cell, and for `none` the first
child is `none`.
-/
namespace S2Geography

open DyadicCells DyadicCell S2CellUnion
open S2CellId hiding none

variable {ys : List S2CellId} {c : S2CellId}

/-! ### Returning at some depth -/

theorem getDifferenceInternal_mono {y : S2CellUnion} {depth depth' : ℕ} (hle : depth ≤ depth') :
    ∀ {c : S2CellId} {out : List S2CellId}, getDifferenceInternal y depth c = some out →
      getDifferenceInternal y depth' c = some out := by
  induction depth generalizing depth' with
  | zero =>
    intro c out h
    simp [getDifferenceInternal] at h
  | succ depth ih =>
    intro c out h
    obtain ⟨k, rfl⟩ := Nat.exists_eq_add_of_le hle
    rw [show depth + 1 + k = depth + k + 1 by omega]
    rw [getDifferenceInternal_succ] at h ⊢
    refine h.imp id (Or.imp id ?_)
    rintro ⟨hi, hcon, out0, out1, out2, out3, h0, h1, h2, h3, hout⟩
    have hd : depth ≤ depth + k := by omega
    exact ⟨hi, hcon, out0, out1, out2, out3, ih hd h0, ih hd h1, ih hd h2, ih hd h3, hout⟩

/-- The call for a cell returns. -/
def DifferenceReturns (y : S2CellUnion) (c : S2CellId) : Prop :=
  ∃ depth out, getDifferenceInternal y depth c = some out

theorem DifferenceReturns.eventually {y : S2CellUnion} {cs : List S2CellId}
    (h : ∀ c ∈ cs, DifferenceReturns y c) :
    ∃ depth, ∀ c ∈ cs, ∃ out, getDifferenceInternal y depth c = some out := by
  induction cs with
  | nil => exact ⟨0, by simp⟩
  | cons c cs ih =>
    obtain ⟨⟨d, out, hout⟩, hcs⟩ := List.forall_mem_cons.mp h
    obtain ⟨d', hd'⟩ := ih hcs
    refine ⟨max d d', List.forall_mem_cons.mpr ⟨⟨out, ?_⟩, ?_⟩⟩
    · exact getDifferenceInternal_mono (Nat.le_max_left d d') hout
    · intro b hb
      obtain ⟨out', hout'⟩ := hd' b hb
      exact ⟨out', getDifferenceInternal_mono (Nat.le_max_right d d') hout'⟩

theorem DifferenceReturns.of_children {y : S2CellUnion}
    (h : y.intersectsId c = true → y.containsId c = false → ∀ b ∈ [c.childBegin,
      c.childBegin.next, c.childBegin.next.next, c.childBegin.next.next.next],
        DifferenceReturns y b) :
    DifferenceReturns y c := by
  by_cases hi : y.intersectsId c = true ∧ y.containsId c = false
  · obtain ⟨depth, hd⟩ := DifferenceReturns.eventually (h hi.1 hi.2)
    exact ⟨depth + 1, getDifferenceInternal_returns_of_children fun _ _ => hd⟩
  · exact ⟨1, getDifferenceInternal_returns_of_children fun h₁ h₂ => absurd ⟨h₁, h₂⟩ hi⟩

theorem DifferenceReturns.of_even (hy : OrderedIds ys) (hc : c ≠ S2CellId.none)
    (heven : c.cell.height % 2 = 0) : DifferenceReturns ⟨ys⟩ c :=
  ⟨_, getDifferenceInternal_returns hy (c.cell.height / 2) c hc (by omega) _ (Nat.lt_succ_self _)⟩

/-- A call whose recursion comes to a call that does not return does not either. -/
theorem not_returns_of_child {y : S2CellUnion} (hi : y.intersectsId c = true)
    (hcon : y.containsId c = false) {depth : ℕ} {b : S2CellId} (hb : b ∈ [c.childBegin,
      c.childBegin.next, c.childBegin.next.next, c.childBegin.next.next.next])
    (h : getDifferenceInternal y depth b = none) :
    getDifferenceInternal y (depth + 1) c = none := by
  rw [Option.eq_none_iff_forall_ne_some]
  intro out hout
  rw [getDifferenceInternal_succ, hi, hcon] at hout
  rcases hout with ⟨hf, -⟩ | ⟨-, hf, -⟩ | ⟨-, -, out0, out1, out2, out3, h0, h1, h2, h3, -⟩
  · exact absurd hf (by decide)
  · exact absurd hf (by decide)
  · simp only [List.mem_cons, List.not_mem_nil, or_false] at hb
    rcases hb with rfl | rfl | rfl | rfl
    · rw [h0] at h
      exact absurd h (by simp)
    · rw [h1] at h
      exact absurd h (by simp)
    · rw [h2] at h
      exact absurd h (by simp)
    · rw [h3] at h
      exact absurd h (by simp)

/-! ### The id `none` -/

theorem one_le_range (c : S2CellId) : 1 ≤ c.rangeMin.toNat ∧ 1 ≤ c.rangeMax.toNat := by
  by_cases hc : c = S2CellId.none
  · subst hc
    decide
  · rw [rangeMin_toNat hc, rangeMax_toNat hc]
    have hpos := c.cell.lo_pos
    have hle := c.cell.lo_le_hi
    omega

/-- Every cell meets `none` and none contains it, and its first child is itself. -/
theorem getDifferenceInternal_none {y : S2CellUnion} (hy : y.cellIds ≠ []) (depth : ℕ) :
    getDifferenceInternal y depth S2CellId.none = none := by
  obtain ⟨first, rest, hcells⟩ := List.exists_cons_of_ne_nil hy
  have hmin : S2CellId.none.rangeMin.toNat = 1 := by decide
  have hmax : S2CellId.none.rangeMax.toNat = 2 ^ 64 - 1 := by decide
  have hlb : lowerBound y.cellIds S2CellId.none = first :: rest := by
    have hnot : entirelyPrecedes first S2CellId.none = false := by
      have hone := (one_le_range first).2
      rw [entirelyPrecedes, decide_eq_false_iff_not, lt_def]
      omega
    rw [hcells, lowerBound, List.dropWhile_cons, hnot]
    rfl
  have hi : y.intersectsId S2CellId.none = true := by
    have hone := one_le_range first
    have hlt := first.rangeMin.toNat_lt
    simp only [intersectsId, hlb]
    rw [intersects_eq_true, le_def, le_def]
    omega
  have hcon : y.containsId S2CellId.none = false := by
    have hone := (one_le_range first).1
    have hzero : S2CellId.none.toNat = 0 := rfl
    simp only [containsId, hlb]
    rw [Bool.eq_false_iff, Ne, contains_eq_true, le_def]
    omega
  induction depth with
  | zero => rfl
  | succ depth ih =>
    refine not_returns_of_child hi hcon (b := S2CellId.none) ?_ ih
    rw [show S2CellId.none.childBegin = S2CellId.none by decide]
    simp

/-- `none` contains every other id, so nothing is left of it. -/
theorem returns_replicate_none (n : ℕ) (hc : c ≠ S2CellId.none) :
    DifferenceReturns ⟨List.replicate (n + 1) S2CellId.none⟩ c := by
  refine .of_children fun _ hcon => ?_
  have hnot : entirelyPrecedes S2CellId.none c = false := by
    have hmax : S2CellId.none.rangeMax.toNat = 2 ^ 64 - 1 := by decide
    have hlt := c.rangeMin.toNat_lt
    rw [entirelyPrecedes, decide_eq_false_iff_not, lt_def]
    omega
  have hin : containsId ⟨List.replicate (n + 1) S2CellId.none⟩ c = true := by
    simp only [containsId, lowerBound, List.replicate_succ, List.dropWhile_cons, hnot]
    exact none_contains hc
  rw [hin] at hcon
  exact absurd hcon (by decide)

/-! ### Ids of odd height -/

/-- The lowest set bit of the id is at an odd place, as for no valid id. -/
def OddHeight (c : S2CellId) : Prop := c.cell.height % 2 = 1

/-- The id with its two lowest bits cleared. -/
def clearLowBits (c : S2CellId) : S2CellId := ⟨c.id &&& ~~~3#64⟩

/-- A leaf cell below which the recursion comes back to a cell over it. -/
def Trapping (l : S2CellId) : Prop :=
  clearLowBits l = S2CellId.none ∨ OddHeight (clearLowBits l)

/-- The next id has the same lowest set bit, also where the numbers wrap around. -/
theorem next_height (hc : c ≠ S2CellId.none) :
    c.next ≠ S2CellId.none ∧ c.next.cell.height = c.cell.height := by
  have hlt := height_lt hc
  obtain ⟨e, he⟩ := Nat.exists_eq_add_of_lt hlt
  have hword : 2 ^ 64 = 2 ^ c.cell.height * (2 * 2 ^ e) := by
    rw [he, Nat.pow_add, Nat.pow_add, Nat.pow_one, Nat.mul_assoc, Nat.mul_comm (2 ^ e) 2]
  have hshift : (c.lsb <<< 1).toNat = 2 * c.cell.size % 2 ^ 64 := by
    rw [BitVec.toNat_shiftLeft, Nat.shiftLeft_eq, lsb_toNat hc, Nat.pow_one, Nat.mul_comm]
  have hnext : c.next.toNat = 2 ^ c.cell.height * ((2 * c.cell.index + 3) % (2 * 2 ^ e)) := by
    simp only [next, S2CellId.toNat]
    rw [BitVec.toNat_add, hshift, Nat.add_mod_mod, show c.id.toNat = c.cell.center from toNat_eq hc,
      ← Nat.mul_mod_mul_left, ← hword]
    simp only [center, size]
    congr 1
    ring
  have hodd : (2 * c.cell.index + 3) % (2 * 2 ^ e) =
      2 * ((2 * c.cell.index + 3) % (2 * 2 ^ e) / 2) + 1 := by
    have hmod : (2 * c.cell.index + 3) % (2 * 2 ^ e) % 2 = (2 * c.cell.index + 3) % 2 :=
      Nat.mod_mod_of_dvd _ (Nat.dvd_mul_right 2 (2 ^ e))
    omega
  obtain ⟨hne, hcell⟩ := @cell_eq_of_toNat c.next
    ⟨(2 * c.cell.index + 3) % (2 * 2 ^ e) / 2, c.cell.height⟩ (by
      rw [hnext]
      simp only [center, size]
      rw [← hodd, Nat.mul_comm])
  exact ⟨hne, by rw [hcell]⟩

theorem toNat_clearLowBits (c : S2CellId) : (clearLowBits c).toNat = 4 * (c.toNat / 4) := by
  have hmask : (~~~3#64).toNat = 2 ^ 64 - (3 + 1) := by decide
  simp only [clearLowBits, S2CellId.toNat]
  rw [BitVec.toNat_and, hmask]
  apply Nat.eq_of_testBit_eq
  intro i
  have hshift : 4 * (c.id.toNat / 4) = c.id.toNat / 2 ^ 2 * 2 ^ 2 := Nat.mul_comm 4 _
  rw [Nat.testBit_and, Nat.testBit_two_pow_sub_succ (by omega), hshift, Nat.testBit_mul_two_pow,
    Nat.testBit_div_two_pow]
  rcases Nat.lt_or_ge i 2 with hi | hi
  · have hcases : i = 0 ∨ i = 1 := by omega
    have hthree : Nat.testBit 3 1 = true := by decide
    rcases hcases with rfl | rfl
    · simp
    · simp [hthree]
  · have hthree : Nat.testBit 3 i = false :=
      Nat.testBit_lt_two_pow (show 3 < 2 ^ i from lt_of_lt_of_le (by omega)
        (Nat.pow_le_pow_right (by omega) hi))
    have hsub : i - 2 + 2 = i := by omega
    rw [hthree, hsub]
    by_cases hw : i < 64
    · simp [hi, hw]
    · rw [Nat.testBit_lt_two_pow (c.id.isLt.trans_le (Nat.pow_le_pow_right (by omega)
        (Nat.le_of_not_lt hw)))]
      simp

/-- One place above the leaves the first child is the id between the neighbours. -/
theorem childBegin_of_height_one (hc : c ≠ S2CellId.none) (hh : c.cell.height = 1) {l : S2CellId}
    (hl : l ≠ S2CellId.none) (hlc : l.cell.Within c.cell) :
    c.childBegin = clearLowBits l := by
  apply toNat_injective
  have hcenter : c.cell.center = 4 * c.cell.index + 2 := by
    simp only [center, size, hh]
    ring
  have hsize : c.cell.size = 2 := by
    simp only [size, hh]
    rfl
  have hlo := c.cell.lo_eq
  have hhi := c.cell.hi_eq
  obtain ⟨hmin, hmax⟩ := hlc.center_mem
  have hlt := toNat_lt c
  rw [toNat_eq hc] at hlt
  have hlsb := lsb_toNat hc
  rw [toNat_clearLowBits, toNat_eq hl]
  simp only [childBegin, S2CellId.toNat]
  rw [BitVec.toNat_add, BitVec.toNat_sub, BitVec.toNat_ushiftRight, Nat.shiftRight_eq_div_pow,
    hlsb, show c.id.toNat = c.cell.center from toNat_eq hc]
  omega

theorem OddHeight.ne_none (h : OddHeight c) : c ≠ S2CellId.none := by
  rintro rfl
  have hzero : S2CellId.none.cell.height % 2 = 0 := by decide
  unfold OddHeight at h
  omega

/-- A trapping leaf lies in the cell the recursion comes back to. -/
theorem within_clearLowBits {l : S2CellId} (hl : l ≠ S2CellId.none)
    (h : OddHeight (clearLowBits l)) : l.cell.Within (clearLowBits l).cell := by
  have hb := h.ne_none
  have hcenter := toNat_eq hb
  rw [toNat_clearLowBits, toNat_eq hl] at hcenter
  have hsize : 4 ≤ (clearLowBits l).cell.size := by
    have hodd := h
    unfold OddHeight at hodd
    have hh : 2 ≤ (clearLowBits l).cell.height := by
      by_contra hlt
      have hone : (clearLowBits l).cell.height = 1 := by omega
      simp only [center, size, hone] at hcenter
      omega
    exact Nat.pow_le_pow_right (show 0 < 2 by omega) hh
  refine (center_mem_iff _ _).mp ⟨?_, ?_⟩
  · rw [lo_eq]
    omega
  · rw [hi_eq]
    omega

/-- With a trapping leaf among the ids of `y`, no call for a cell of odd height over it
returns: one of its children is such a cell again. -/
theorem getDifferenceInternal_trapped (hy : OrderedIds ys) {l : S2CellId} (hl : l ∈ ys)
    (hleaf : l.cell.height = 0) (htrap : Trapping l) (depth : ℕ) :
    ∀ c : S2CellId, OddHeight c → l.cell.Within c.cell →
      getDifferenceInternal ⟨ys⟩ depth c = none := by
  have hl0 := hy.ne_none l hl
  induction depth with
  | zero =>
    intro c _ _
    rfl
  | succ depth ih =>
    intro c hodd hlc
    have hc := hodd.ne_none
    have hi : intersectsId ⟨ys⟩ c = true := (intersectsId_iff hy hc).mpr ⟨l, hl, hlc.meets⟩
    have hcon : containsId ⟨ys⟩ c = false := by
      rw [Bool.eq_false_iff]
      intro htrue
      obtain ⟨y, hyin, hcy⟩ := (containsId_iff hy hc).mp htrue
      have hly : l = y := hy.eq_of_meets hl hyin (hlc.trans hcy).meets
      have hle := hcy.height_le
      rw [← hly, hleaf] at hle
      unfold OddHeight at hodd
      omega
    unfold OddHeight at hodd
    by_cases hh : c.cell.height = 1
    · refine not_returns_of_child hi hcon (b := c.childBegin) (by simp) ?_
      rw [childBegin_of_height_one hc hh hl0 hlc]
      rcases htrap with hnone | hodd'
      · rw [hnone]
        exact getDifferenceInternal_none (List.ne_nil_of_mem hl) depth
      · exact ih _ hodd' (within_clearLowBits hl0 hodd')
    · obtain ⟨⟨-, h0⟩, ⟨-, h1⟩, ⟨-, h2⟩, ⟨-, h3⟩⟩ := children_cell hc (by omega)
      obtain ⟨k, hk, hlk⟩ := hlc.exists_child (by omega)
      have hchild : ∀ b : S2CellId, b.cell = c.cell.child k →
          getDifferenceInternal ⟨ys⟩ depth b = none := by
        intro b hb
        refine ih b ?_ (hb ▸ hlk)
        unfold OddHeight
        rw [hb, child_height]
        omega
      have hcases : k = 0 ∨ k = 1 ∨ k = 2 ∨ k = 3 := by omega
      rcases hcases with rfl | rfl | rfl | rfl
      · exact not_returns_of_child hi hcon (by simp) (hchild _ h0)
      · exact not_returns_of_child hi hcon (by simp) (hchild _ h1)
      · exact not_returns_of_child hi hcon (by simp) (hchild _ h2)
      · exact not_returns_of_child hi hcon (by simp) (hchild _ h3)

/-- Without one the call returns: past the leaves it goes on with cells of even height. -/
theorem DifferenceReturns.of_odd (hy : OrderedIds ys) (n : ℕ) :
    ∀ c : S2CellId, c ≠ S2CellId.none → c.cell.height = 2 * n + 1 →
      (∀ l ∈ ys, l.cell.height = 0 → l.cell.Within c.cell → ¬ Trapping l) →
        DifferenceReturns ⟨ys⟩ c := by
  induction n with
  | zero =>
    intro c hc hh hfree
    refine .of_children fun hi hcon => ?_
    obtain ⟨l, hl, hlc, hlt⟩ := exists_smaller hy hc hi hcon
    have hnot := hfree l hl (by omega) hlc
    rw [Trapping, not_or] at hnot
    have h0 : c.childBegin ≠ S2CellId.none ∧ c.childBegin.cell.height % 2 = 0 := by
      rw [childBegin_of_height_one hc hh (hy.ne_none l hl) hlc]
      have heven := hnot.2
      unfold OddHeight at heven
      exact ⟨hnot.1, by omega⟩
    have hstep : ∀ b : S2CellId, b ≠ S2CellId.none ∧ b.cell.height % 2 = 0 →
        b.next ≠ S2CellId.none ∧ b.next.cell.height % 2 = 0 := by
      rintro b ⟨hb, heven⟩
      obtain ⟨hn, hheight⟩ := next_height hb
      exact ⟨hn, hheight ▸ heven⟩
    have h1 := hstep _ h0
    have h2 := hstep _ h1
    have h3 := hstep _ h2
    simp only [List.forall_mem_cons, List.not_mem_nil, false_imp_iff, implies_true, and_true]
    exact ⟨.of_even hy h0.1 h0.2, .of_even hy h1.1 h1.2, .of_even hy h2.1 h2.2,
      .of_even hy h3.1 h3.2⟩
  | succ n ih =>
    intro c hc hh hfree
    refine .of_children fun _ _ => ?_
    obtain ⟨⟨hc0, h0⟩, ⟨hc1, h1⟩, ⟨hc2, h2⟩, ⟨hc3, h3⟩⟩ := children_cell hc (by omega)
    have hchild : ∀ (b : S2CellId) (k : ℕ), k < 4 → b ≠ S2CellId.none →
        b.cell = c.cell.child k → DifferenceReturns ⟨ys⟩ b := by
      intro b k hk hb hcell
      refine ih b hb ?_ ?_
      · rw [hcell, child_height]
        omega
      · intro l hl hleaf hlb
        rw [hcell] at hlb
        exact hfree l hl hleaf (hlb.trans (child_within (by omega) hk))
    simp only [List.forall_mem_cons, List.not_mem_nil, false_imp_iff, implies_true, and_true]
    exact ⟨hchild _ 0 (by omega) hc0 h0, hchild _ 1 (by omega) hc1 h1,
      hchild _ 2 (by omega) hc2 h2, hchild _ 3 (by omega) hc3 h3⟩

/-! ### The ids that decide -/

/-- No other id of the vector contains this one. -/
def IsLargest (ids : List S2CellId) (c : S2CellId) : Prop :=
  c ∈ ids ∧ ∀ d ∈ ids, d.contains c = true → d = c

/-- A leaf cell of the vector that is neither in a larger id nor merged with its
siblings. -/
def Remains (ids : List S2CellId) (l : S2CellId) : Prop :=
  l.isLeaf = true ∧ IsLargest ids l ∧ ¬ ∀ k < 4, IsLargest ids (l.parent.child k)

/-- The first vector holds `none` and the second something, or a trapping leaf cell of
the second lies in the first, where the largest id over it has odd height. -/
def Stuck (x y : List S2CellId) : Prop :=
  (S2CellId.none ∈ x ∧ y ≠ []) ∨
    (S2CellId.none ∉ x ∧ S2CellId.none ∉ y ∧ ∃ l, Remains y l ∧ Trapping l ∧
      ∃ c, IsLargest x c ∧ OddHeight c ∧ c.contains l = true)

variable {ids x y : List S2CellId}

theorem isLargest_iff (h : ∀ c ∈ ids, c ≠ S2CellId.none) (hc : c ≠ S2CellId.none) :
    IsLargest ids c ↔ IsTop (cellsOf ids) c.cell := by
  constructor
  · rintro ⟨hmem, hlargest⟩
    refine ⟨mem_cellsOf hmem, ?_⟩
    rintro e ⟨d, hd, rfl⟩ hcd
    rw [hlargest d hd ((contains_iff_within (h d hd) hc).mpr hcd)]
  · rintro ⟨⟨b, hb, hcell⟩, htop⟩
    have hbc : b = c := eq_of_cell_eq (h b hb) hc hcell
    refine ⟨hbc ▸ hb, fun d hd hdc => ?_⟩
    have heq := htop d.cell (mem_cellsOf hd) ((contains_iff_within (h d hd) hc).mp hdc)
    exact eq_of_cell_eq (h d hd) hc heq.symm

/-- With a leaf cell, all its siblings that nothing covers are left: a cell that they were merged
into would hold the leaf as well. -/
theorem exists_sibling_of_mem (h : ∀ c ∈ ids, c ≠ S2CellId.none) {l : S2CellId}
    (hheight : l.cell.height = 0) (hmem : l ∈ normalizeIds ids) {k : ℕ} (hk : k < 4)
    (htop : IsTop (cellsOf ids) (l.cell.parent.child k)) :
    ∃ w ∈ normalizeIds ids, w.cell = l.cell.parent.child k := by
  have htwo : l.cell.parent.height = 2 := by rw [parent_height, hheight]
  have hord := OrderedIds.normalizeIds h
  obtain ⟨b, hb, hbcell⟩ := htop.1
  have hbheight : b.cell.height = 0 := by
    rw [hbcell, child_height, htwo]
  obtain ⟨w, hw, hbw⟩ := exists_of_mem h hb
  rcases (assembled_of_mem h hw).eq_or_siblings (hbcell ▸ htop) hbheight hbw with heq | hmerged
  · exact ⟨w, hw, heq.symm.trans hbcell⟩
  · have hpar := ((assembled_of_mem h hw).within_of_isTop (hbcell ▸ htop) hbw.meets).2
    by_cases hzero : w.cell.height = 0
    · exact ⟨w, hw, (hbw.eq_of_height_le (by omega)).symm.trans hbcell⟩
    · have hbparent : b.cell.parent = l.cell.parent := by rw [hbcell, parent_child _ htwo.ge hk]
      have hlw : l.cell.Within w.cell :=
        (within_parent l.cell).trans (hbparent ▸ hbw.parent_within (by omega))
      have heq := hord.eq_of_meets hmem hw hlw.meets
      rw [← heq] at hzero
      exact absurd hheight hzero

/-- The leaf cells that stay in the normalised vector. -/
theorem mem_normalizeIds_iff_remains (h : ∀ c ∈ ids, c ≠ S2CellId.none) {l : S2CellId}
    (hl : l.isLeaf = true) : l ∈ normalizeIds ids ↔ Remains ids l := by
  have hl0 := ne_none_of_isLeaf hl
  have hheight := (isLeaf_iff hl0).mp hl
  have hparent : l.parent ≠ S2CellId.none ∧ l.parent.cell = l.cell.parent :=
    parent_cell hl0 (by omega)
  have htwo : l.cell.parent.height = 2 := by rw [parent_height, hheight]
  have hsib : ∀ k < 4, (IsLargest ids (l.parent.child k) ↔
      IsTop (cellsOf ids) (l.cell.parent.child k)) := by
    intro k hk
    obtain ⟨hk0, hkc⟩ := child_cell hparent.1 (by rw [hparent.2, htwo]) hk
    rw [isLargest_iff h hk0, hkc, hparent.2]
  constructor
  · intro hmem
    have htop : IsTop (cellsOf ids) l.cell := by
      rcases (assembled_of_mem h hmem).isTop_or_children with htop | ⟨hh, -⟩
      · exact htop
      · omega
    refine ⟨hl, (isLargest_iff h hl0).mpr htop, fun hall => ?_⟩
    -- then all four siblings would be left, which the loop merges
    have hinv := normalizeIds_invariant h
    refine hinv.collapsed.unmerged hinv.stacked.ordered htwo.ge (by omega) fun k hk => ?_
    obtain ⟨w, hw, hcell⟩ := exists_sibling_of_mem h hheight hmem hk ((hsib k hk).mp (hall k hk))
    rw [← hcell]
    exact List.mem_map_of_mem (List.mem_reverse.mpr hw)
  · rintro ⟨-, hlargest, hnot⟩
    have htop := (isLargest_iff h hl0).mp hlargest
    obtain ⟨w, hw, hlw⟩ := exists_of_mem h hlargest.1
    rcases (assembled_of_mem h hw).eq_or_siblings htop hheight hlw with heq | hall
    · rw [eq_of_cell_eq hl0 ((OrderedIds.normalizeIds h).ne_none w hw) heq]
      exact hw
    · exact absurd (fun k hk => (hsib k hk).mpr (hall k hk)) hnot

/-- A cell of odd height of the normalised vector over a leaf comes from one of the vector. -/
theorem exists_odd_normalizeIds_iff (h : ∀ c ∈ ids, c ≠ S2CellId.none) {l : S2CellId}
    (hl : l.isLeaf = true) :
    (∃ w ∈ normalizeIds ids, OddHeight w ∧ w.contains l = true) ↔
      ∃ c, IsLargest ids c ∧ OddHeight c ∧ c.contains l = true := by
  have hl0 := ne_none_of_isLeaf hl
  have hheight := (isLeaf_iff hl0).mp hl
  constructor
  · rintro ⟨w, hw, hodd, hwl⟩
    have hlw := (contains_iff_within hodd.ne_none hl0).mp hwl
    obtain ⟨t, ht, hlt, -, hpar⟩ := (assembled_of_mem h hw).exists_isTop hheight hlw
    obtain ⟨c, hc, rfl⟩ := ht.1
    refine ⟨c, (isLargest_iff h (h c hc)).mpr ht, ?_, (contains_iff_within (h c hc) hl0).mpr hlt⟩
    exact hpar.trans hodd
  · rintro ⟨c, hlargest, hodd, hcl⟩
    have hc0 := hodd.ne_none
    obtain ⟨w, hw, hcw⟩ := exists_of_mem h hlargest.1
    have hw0 := ne_none_of_mem_normalizeIds h hw
    have hlc := (contains_iff_within hc0 hl0).mp hcl
    have hpar := ((assembled_of_mem h hw).within_of_isTop ((isLargest_iff h hc0).mp hlargest)
      hcw.meets).2
    exact ⟨w, hw, hpar.symm.trans hodd, (contains_iff_within hw0 hl0).mpr (hlc.trans hcw)⟩

/-! ### The call -/

theorem mapM_isSome_iff {β γ : Type} {f : β → Option γ} {xs : List β} :
    (∃ outs, xs.mapM f = some outs) ↔ ∀ x ∈ xs, ∃ out, f x = some out := by
  induction xs with
  | nil => simp
  | cons x xs ih =>
    rw [List.forall_mem_cons, ← ih]
    simp only [List.mapM_cons, Option.bind_eq_bind, Option.bind_eq_some_iff, Option.pure_def,
      Option.some.injEq]
    constructor
    · rintro ⟨outs, out, hx, rest, hxs, -⟩
      exact ⟨⟨out, hx⟩, rest, hxs⟩
    · rintro ⟨⟨out, hx⟩, rest, hxs⟩
      exact ⟨_, out, hx, rest, hxs, rfl⟩

theorem difference_returns_iff {xs : List S2CellId} {y : S2CellUnion} :
    (∃ depth out, difference depth ⟨xs⟩ y = some out) ↔ ∀ c ∈ xs, DifferenceReturns y c := by
  have hdepth : ∀ depth, (∃ out, difference depth ⟨xs⟩ y = some out) ↔
      ∀ c ∈ xs, ∃ out, getDifferenceInternal y depth c = some out := by
    intro depth
    rw [← mapM_isSome_iff]
    simp only [difference, Option.bind_eq_bind, Option.bind_eq_some_iff, Option.some.injEq]
    constructor
    · rintro ⟨_, outs, houts, -⟩
      exact ⟨outs, houts⟩
    · rintro ⟨outs, houts⟩
      exact ⟨_, outs, houts, rfl⟩
  simp only [hdepth]
  constructor
  · rintro ⟨depth, h⟩ c hc
    exact ⟨depth, h c hc⟩
  · exact DifferenceReturns.eventually

theorem cppS2CellUnionDifference_returns_iff :
    (∃ depth result, cppS2CellUnionDifference depth [some x] [some y] = some result) ↔
      ∀ c ∈ normalizeIds x, DifferenceReturns ⟨normalizeIds y⟩ c := by
  rw [← difference_returns_iff]
  refine exists_congr fun depth => ?_
  have hcall : cppS2CellUnionDifference depth [some x] [some y] =
      (difference depth ⟨normalizeIds x⟩ ⟨normalizeIds y⟩).map
        fun out => .ok [some out.cellIds] := by
    simp only [cppS2CellUnionDifference, processBinaryVector, processPair, List.length_singleton,
      if_true, List.zipWith_cons_cons, List.zipWith_nil_left, List.mapM_cons, List.mapM_nil, id_eq,
      cellUnionFromCellIdVector, ofCellIds, S2CellUnion.normalize]
    cases difference depth ⟨normalizeIds x⟩ ⟨normalizeIds y⟩ <;> rfl
  rw [hcall]
  cases difference depth ⟨normalizeIds x⟩ ⟨normalizeIds y⟩ <;> simp

theorem none_mem_normalizeIds (h : S2CellId.none ∈ x) : S2CellId.none ∈ normalizeIds x := by
  rw [normalizeIds_of_none_mem h, List.mem_replicate]
  exact ⟨(List.count_pos_iff.mpr h).ne', rfl⟩

theorem normalizeIds_ne_nil (h : y ≠ []) : normalizeIds y ≠ [] := by
  by_cases hnone : S2CellId.none ∈ y
  · rw [normalizeIds_of_none_mem hnone, Ne, List.replicate_eq_nil_iff]
    exact (List.count_pos_iff.mpr hnone).ne'
  · obtain ⟨c, hc⟩ := List.exists_mem_of_ne_nil y h
    obtain ⟨w, hw, -⟩ := exists_of_mem (fun c hc heq => hnone (heq ▸ hc)) hc
    exact List.ne_nil_of_mem hw

/-- Over vectors without `none`: a cell that traps the recursion has odd height. -/
theorem returns_iff_of_ne_none (hx : ∀ c ∈ x, c ≠ S2CellId.none)
    (hy : ∀ c ∈ y, c ≠ S2CellId.none) :
    (∀ c ∈ normalizeIds x, DifferenceReturns ⟨normalizeIds y⟩ c) ↔
      ¬ ∃ l, Remains y l ∧ Trapping l ∧ ∃ c, IsLargest x c ∧ OddHeight c ∧ c.contains l = true := by
  have hord := OrderedIds.normalizeIds hy
  constructor
  · rintro hret ⟨l, hrem, htrap, hodd⟩
    have hleaf := hrem.1
    have hl := (mem_normalizeIds_iff_remains hy hleaf).mpr hrem
    have hl0 := ne_none_of_isLeaf hleaf
    obtain ⟨w, hw, hwodd, hwl⟩ := (exists_odd_normalizeIds_iff hx hleaf).mpr hodd
    obtain ⟨depth, out, hout⟩ := hret w hw
    have hlw := (contains_iff_within hwodd.ne_none hl0).mp hwl
    rw [getDifferenceInternal_trapped hord hl ((isLeaf_iff hl0).mp hleaf) htrap depth w hwodd
      hlw] at hout
    exact absurd hout (by simp)
  · intro hfree w hw
    have hw0 := ne_none_of_mem_normalizeIds hx hw
    by_cases heven : w.cell.height % 2 = 0
    · exact .of_even hord hw0 heven
    · refine .of_odd hord (w.cell.height / 2) w hw0 (by omega) fun l hl hheight hlw htrap => ?_
      have hl0 := hord.ne_none l hl
      have hleaf := (isLeaf_iff hl0).mpr hheight
      have hwodd : OddHeight w := by
        unfold OddHeight
        omega
      refine hfree ⟨l, (mem_normalizeIds_iff_remains hy hleaf).mp hl, htrap, ?_⟩
      exact (exists_odd_normalizeIds_iff hx hleaf).mp
        ⟨w, hw, hwodd, (contains_iff_within hw0 hl0).mpr hlw⟩

/-- The call for two vectors of any ids returns exactly when it does not get stuck. -/
theorem cppS2CellUnionDifference_returns_iff_not_stuck (x y : List S2CellId) :
    (∃ depth result, cppS2CellUnionDifference depth [some x] [some y] = some result) ↔
      ¬ Stuck x y := by
  rw [cppS2CellUnionDifference_returns_iff]
  by_cases hx : S2CellId.none ∈ x
  · have hstuck : Stuck x y ↔ y ≠ [] := by simp [Stuck, hx]
    rw [hstuck, not_not]
    constructor
    · intro hret
      by_contra hy
      obtain ⟨depth, out, hout⟩ := hret S2CellId.none (none_mem_normalizeIds hx)
      rw [getDifferenceInternal_none (y := ⟨normalizeIds y⟩) (normalizeIds_ne_nil hy)] at hout
      exact absurd hout (by simp)
    · rintro rfl c hc
      exact .of_children fun hi _ => absurd hi (by simp [intersectsId, lowerBound, normalizeIds])
  · have hx0 : ∀ c ∈ x, c ≠ S2CellId.none := fun c hc heq => hx (heq ▸ hc)
    by_cases hy : S2CellId.none ∈ y
    · have hstuck : ¬ Stuck x y := by simp [Stuck, hx, hy]
      obtain ⟨n, hn⟩ := Nat.exists_eq_succ_of_ne_zero (List.count_pos_iff.mpr hy).ne'
      rw [iff_true_right hstuck, normalizeIds_of_none_mem hy, hn]
      intro c hc
      exact returns_replicate_none n (ne_none_of_mem_normalizeIds hx0 hc)
    · have hy0 : ∀ c ∈ y, c ≠ S2CellId.none := fun c hc heq => hy (heq ▸ hc)
      rw [returns_iff_of_ne_none hx0 hy0, Stuck]
      simp only [hx, hy, false_and, false_or, not_false_eq_true, true_and]

/-- `s2_cell_invalid()` minus a face never returns. -/
theorem cppS2CellUnionDifference_not_returns :
    ¬ ∀ x y, ∃ depth result, cppS2CellUnionDifference depth [some x] [some y] = some result := by
  intro h
  have hret := cppS2CellUnionDifference_returns_iff.mp
    (h [S2CellId.none] [⟨0x1000000000000000⟩]) S2CellId.none (none_mem_normalizeIds (by simp))
  obtain ⟨depth, out, hout⟩ := hret
  have hne : normalizeIds [⟨0x1000000000000000⟩] ≠ [] := normalizeIds_ne_nil (by simp)
  rw [getDifferenceInternal_none (y := ⟨normalizeIds [⟨0x1000000000000000⟩]⟩) hne] at hout
  exact absurd hout (by simp)

end S2Geography
