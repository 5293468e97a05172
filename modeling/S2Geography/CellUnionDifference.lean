import S2Geography.CellUnionSearch

/-!
# The recursion of `GetDifferenceInternal`

What a call appends when it returns, and that it returns for every cell of even height,
the valid ones included: a cell that meets the other union without lying in it is
larger than one of its cells, and its children are two heights lower.
-/
namespace S2Geography

open DyadicCells DyadicCell S2CellUnion
open S2CellId hiding none

variable {ys : List S2CellId} {c : S2CellId}

/-- The children the loop runs through are the quarters of the cell. -/
theorem children_cell (hc : c ≠ S2CellId.none) (hh : 2 ≤ c.cell.height) :
    (c.childBegin ≠ S2CellId.none ∧ c.childBegin.cell = c.cell.child 0) ∧
    (c.childBegin.next ≠ S2CellId.none ∧ c.childBegin.next.cell = c.cell.child 1) ∧
    (c.childBegin.next.next ≠ S2CellId.none ∧ c.childBegin.next.next.cell = c.cell.child 2) ∧
    (c.childBegin.next.next.next ≠ S2CellId.none ∧
      c.childBegin.next.next.next.cell = c.cell.child 3) := by
  have hbound : ∀ k < 4, (c.cell.child k).center < 2 ^ 64 := by
    intro k hk
    exact (child_within hh hk).center_mem.2.trans_lt (cell_hi_lt hc)
  have hnext : ∀ (b : S2CellId) (k : ℕ), k + 1 < 4 → b ≠ S2CellId.none ∧ b.cell = c.cell.child k →
      b.next ≠ S2CellId.none ∧ b.next.cell = c.cell.child (k + 1) := by
    rintro b k hk ⟨hb, hcell⟩
    refine next_cell hb ?_ ?_ (hbound (k + 1) hk)
    · rw [hcell]
      rfl
    · rw [hcell]
      rfl
  have h0 := childBegin_cell hc hh
  have h1 := hnext _ 0 (by omega) h0
  have h2 := hnext _ 1 (by omega) h1
  have h3 := hnext _ 2 (by omega) h2
  exact ⟨h0, h1, h2, h3⟩

/-- The three ways a call returns. -/
theorem getDifferenceInternal_succ {y : S2CellUnion} {depth : ℕ} {out : List S2CellId} :
    getDifferenceInternal y (depth + 1) c = some out ↔
      y.intersectsId c = false ∧ out = [c] ∨
      y.intersectsId c = true ∧ y.containsId c = true ∧ out = [] ∨
      y.intersectsId c = true ∧ y.containsId c = false ∧ ∃ out0 out1 out2 out3,
        getDifferenceInternal y depth c.childBegin = some out0 ∧
        getDifferenceInternal y depth c.childBegin.next = some out1 ∧
        getDifferenceInternal y depth c.childBegin.next.next = some out2 ∧
        getDifferenceInternal y depth c.childBegin.next.next.next = some out3 ∧
        out = out0 ++ out1 ++ out2 ++ out3 := by
  rw [getDifferenceInternal]
  cases hi : y.intersectsId c with
  | false =>
    simp only [Bool.not_false, if_true, Option.some.injEq, true_and, Bool.false_eq_true, false_and,
      or_false]
    exact eq_comm
  | true =>
    cases hc : y.containsId c with
    | true =>
      simp only [Bool.not_true, Bool.false_eq_true, if_false, Option.some.injEq, true_and,
        Bool.true_eq_false, false_and, false_or, or_false]
      exact eq_comm
    | false =>
      simp only [Bool.not_true, Bool.false_eq_true, if_false, Bool.not_false, if_true,
        Option.bind_eq_bind, Option.bind_eq_some_iff, Option.some.injEq, true_and, false_and,
        Bool.true_eq_false, false_or]
      constructor
      · rintro ⟨out0, h0, out1, h1, out2, h2, out3, h3, rfl⟩
        exact ⟨out0, out1, out2, out3, h0, h1, h2, h3, rfl⟩
      · rintro ⟨out0, out1, out2, out3, h0, h1, h2, h3, rfl⟩
        exact ⟨out0, h0, out1, h1, out2, h2, out3, h3, rfl⟩

/-- A cell that meets the union and is not in it has a cell of the union strictly inside. -/
theorem exists_smaller (hy : OrderedIds ys) (hc : c ≠ S2CellId.none)
    (hi : intersectsId ⟨ys⟩ c = true) (hn : containsId ⟨ys⟩ c = false) :
    ∃ y ∈ ys, y.cell.Within c.cell ∧ y.cell.height < c.cell.height := by
  obtain ⟨y, hyin, hm⟩ := (intersectsId_iff hy hc).mp hi
  have hnot : ¬ c.cell.Within y.cell := by
    intro hw
    rw [(containsId_iff hy hc).mpr ⟨y, hyin, hw⟩] at hn
    exact absurd hn (by decide)
  have hlt : y.cell.height < c.cell.height := by
    by_contra hge
    exact hnot (hm.symm.within (Nat.le_of_not_lt hge))
  exact ⟨y, hyin, hm.within hlt.le, hlt⟩

/-- A call returns if those for the children do, where it comes to them. -/
theorem getDifferenceInternal_returns_of_children {y : S2CellUnion} {depth : ℕ}
    (h : y.intersectsId c = true → y.containsId c = false → ∀ b ∈ [c.childBegin,
      c.childBegin.next, c.childBegin.next.next, c.childBegin.next.next.next],
      ∃ out, getDifferenceInternal y depth b = some out) :
    ∃ out, getDifferenceInternal y (depth + 1) c = some out := by
  cases hi : y.intersectsId c with
  | false => exact ⟨[c], getDifferenceInternal_succ.mpr (Or.inl ⟨hi, rfl⟩)⟩
  | true =>
    cases hcon : y.containsId c with
    | true => exact ⟨[], getDifferenceInternal_succ.mpr (Or.inr (Or.inl ⟨hi, hcon, rfl⟩))⟩
    | false =>
      have hret := h hi hcon
      obtain ⟨out0, h0⟩ := hret c.childBegin (by simp)
      obtain ⟨out1, h1⟩ := hret c.childBegin.next (by simp)
      obtain ⟨out2, h2⟩ := hret c.childBegin.next.next (by simp)
      obtain ⟨out3, h3⟩ := hret c.childBegin.next.next.next (by simp)
      exact ⟨_, getDifferenceInternal_succ.mpr (Or.inr (Or.inr
        ⟨hi, hcon, out0, out1, out2, out3, h0, h1, h2, h3, rfl⟩))⟩

/-- A cell of height `2 * n` needs at most `n + 1` nested calls. -/
theorem getDifferenceInternal_returns (hy : OrderedIds ys) (n : ℕ) :
    ∀ c : S2CellId, c ≠ S2CellId.none → c.cell.height = 2 * n → ∀ depth, n < depth →
      ∃ out, getDifferenceInternal ⟨ys⟩ depth c = some out := by
  induction n with
  | zero =>
    intro c hc hh depth hd
    obtain ⟨depth, rfl⟩ := Nat.exists_eq_add_of_lt hd
    rw [Nat.zero_add]
    refine getDifferenceInternal_returns_of_children fun hi hcon => ?_
    obtain ⟨y, -, -, hlt⟩ := exists_smaller hy hc hi hcon
    omega
  | succ n ih =>
    intro c hc hh depth hd
    obtain ⟨depth, rfl⟩ := Nat.exists_eq_add_of_lt (Nat.zero_lt_of_lt hd)
    rw [Nat.zero_add]
    refine getDifferenceInternal_returns_of_children fun _ _ => ?_
    obtain ⟨⟨hc0, h0⟩, ⟨hc1, h1⟩, ⟨hc2, h2⟩, ⟨hc3, h3⟩⟩ := children_cell hc (by omega)
    have hchild : ∀ (b : S2CellId) (k : ℕ), b ≠ S2CellId.none → b.cell = c.cell.child k →
        ∃ out, getDifferenceInternal ⟨ys⟩ depth b = some out := by
      intro b k hb hcell
      refine ih b hb ?_ depth (by omega)
      rw [hcell, child_height]
      omega
    simp only [List.forall_mem_cons, List.not_mem_nil, false_imp_iff, implies_true, and_true]
    exact ⟨hchild _ 0 hc0 h0, hchild _ 1 hc1 h1, hchild _ 2 hc2 h2, hchild _ 3 hc3 h3⟩

/-- What is left of a cell: disjoint cells inside it, apart from the union, and every
such cell of its parity is in one of them. -/
structure DifferenceSpec (ys : List S2CellId) (d : DyadicCell) (out : List S2CellId) : Prop where
  ordered : OrderedIds out
  within : ∀ r ∈ out, r.cell.Within d
  parity : ∀ r ∈ out, r.cell.height % 2 = d.height % 2
  apart : ∀ r ∈ out, ∀ y ∈ ys, ¬ r.cell.Meets y.cell
  maximal : ∀ e : DyadicCell, e.Within d → e.height % 2 = d.height % 2 →
    (∀ y ∈ ys, ¬ e.Meets y.cell) → ∃ r ∈ out, e.Within r.cell

theorem OrderedIds.append {xs zs : List S2CellId} (hx : OrderedIds xs) (hz : OrderedIds zs)
    (h : ∀ x ∈ xs, ∀ z ∈ zs, x.cell.Before z.cell) : OrderedIds (xs ++ zs) := by
  refine ⟨?_, List.pairwise_append.mpr ⟨hx.ordered, hz.ordered, h⟩⟩
  intro c hc
  rcases List.mem_append.mp hc with hc | hc
  · exact hx.ne_none c hc
  · exact hz.ne_none c hc

/-- Outputs for cells in order, one after the other. -/
theorem OrderedIds.flatMap {α : Type} {as : List α} {outs : α → List S2CellId}
    (h : ∀ a ∈ as, OrderedIds (outs a))
    (hbefore : as.Pairwise fun a b => ∀ r ∈ outs a, ∀ t ∈ outs b, r.cell.Before t.cell) :
    OrderedIds (as.flatMap outs) := by
  induction as with
  | nil => exact ⟨by simp, List.Pairwise.nil⟩
  | cons a as ih =>
    obtain ⟨hfirst, hrest⟩ := List.pairwise_cons.mp hbefore
    rw [List.flatMap_cons]
    refine (h a List.mem_cons_self).append
      (ih (fun b hb => h b (List.mem_cons_of_mem a hb)) hrest) fun r hr t ht => ?_
    obtain ⟨b, hb, htb⟩ := List.mem_flatMap.mp ht
    exact hfirst b hb r hr t htb

/-- The outputs for the four quarters, one after the other. -/
theorem DifferenceSpec.quarters {d : DyadicCell} (hh : 2 ≤ d.height) {outs : ℕ → List S2CellId}
    (hmeet : ∃ y ∈ ys, y.cell.Within d ∧ y.cell.height % 2 = d.height % 2 ∧
      y.cell.height < d.height)
    (h : ∀ k < 4, DifferenceSpec ys (d.child k) (outs k)) :
    DifferenceSpec ys d ((List.range 4).flatMap outs) := by
  have hall : ∀ r ∈ (List.range 4).flatMap outs, ∃ k < 4, r ∈ outs k := by
    intro r hr
    obtain ⟨k, hk, hrk⟩ := List.mem_flatMap.mp hr
    exact ⟨k, List.mem_range.mp hk, hrk⟩
  have hparity : ∀ k, (d.child k).height % 2 = d.height % 2 := by
    intro k
    rw [child_height]
    omega
  refine ⟨?_, ?_, ?_, ?_, ?_⟩
  · refine .flatMap (fun k hk => (h k (List.mem_range.mp hk)).ordered) ?_
    refine List.pairwise_lt_range.imp_of_mem fun {j k} hj hk hjk r hr t ht => ?_
    exact (child_before hh hjk).mono ((h j (List.mem_range.mp hj)).within r hr)
      ((h k (List.mem_range.mp hk)).within t ht)
  · intro r hr
    obtain ⟨k, hk, hrk⟩ := hall r hr
    exact ((h k hk).within r hrk).trans (child_within hh hk)
  · intro r hr
    obtain ⟨k, hk, hrk⟩ := hall r hr
    rw [(h k hk).parity r hrk, hparity]
  · intro r hr
    obtain ⟨k, hk, hrk⟩ := hall r hr
    exact (h k hk).apart r hrk
  · intro e he hpar hapart
    obtain ⟨y, hy, hyd, hypar, hylt⟩ := hmeet
    -- the whole cell meets the union, so `e` lies in a quarter
    have hlt : e.height < d.height := by
      by_contra hge
      refine hapart y hy ?_
      rw [he.eq_of_height_le (Nat.le_of_not_lt hge)]
      exact hyd.meets.symm
    obtain ⟨k, hk, hek⟩ := he.exists_child (by omega)
    obtain ⟨r, hr, her⟩ := (h k hk).maximal e hek (by rw [hparity, hpar]) hapart
    exact ⟨r, List.mem_flatMap.mpr ⟨k, List.mem_range.mpr hk, hr⟩, her⟩

/-- What a call appends, when the cells of the union have the parity of its cell. -/
theorem getDifferenceInternal_spec (hy : OrderedIds ys) {depth : ℕ} :
    ∀ {c : S2CellId} {out : List S2CellId}, c ≠ S2CellId.none →
      (∀ y ∈ ys, y.cell.height % 2 = c.cell.height % 2) →
      getDifferenceInternal ⟨ys⟩ depth c = some out → DifferenceSpec ys c.cell out := by
  induction depth with
  | zero =>
    intro c out _ _ h
    simp [getDifferenceInternal] at h
  | succ depth ih =>
    intro c out hc hpar h
    rcases getDifferenceInternal_succ.mp h with ⟨hi, rfl⟩ | ⟨hi, hcon, rfl⟩ |
      ⟨hi, hcon, out0, out1, out2, out3, hout0, hout1, hout2, hout3, rfl⟩
    · have hapart : ∀ y ∈ ys, ¬ c.cell.Meets y.cell := by
        intro y hyin hm
        rw [(intersectsId_iff hy hc).mpr ⟨y, hyin, hm.symm⟩] at hi
        exact absurd hi (by decide)
      refine ⟨⟨by simpa using hc, by simp⟩, ?_, ?_, ?_, ?_⟩
      · simpa using Within.refl c.cell
      · simp
      · simpa using hapart
      · intro e he _ _
        exact ⟨c, by simp, he⟩
    · obtain ⟨y, hyin, hw⟩ := (containsId_iff hy hc).mp hcon
      refine ⟨⟨by simp, List.Pairwise.nil⟩, by simp, by simp, by simp, ?_⟩
      intro e he _ hapart
      exact absurd (he.trans hw).meets (hapart y hyin)
    · obtain ⟨y, hyin, hw, hlt⟩ := exists_smaller hy hc hi hcon
      have hypar := hpar y hyin
      have hh : 2 ≤ c.cell.height := by omega
      obtain ⟨⟨hc0, h0⟩, ⟨hc1, h1⟩, ⟨hc2, h2⟩, ⟨hc3, h3⟩⟩ := children_cell hc hh
      have hpark : ∀ k, ∀ y ∈ ys, y.cell.height % 2 = (c.cell.child k).height % 2 := by
        intro k y hyin
        rw [hpar y hyin, child_height]
        omega
      have hspec : ∀ k < 4, DifferenceSpec ys (c.cell.child k)
          ([out0, out1, out2, out3].getD k []) := by
        intro k hk
        match k, hk with
        | 0, _ => exact h0 ▸ ih hc0 (h0 ▸ hpark 0) hout0
        | 1, _ => exact h1 ▸ ih hc1 (h1 ▸ hpark 1) hout1
        | 2, _ => exact h2 ▸ ih hc2 (h2 ▸ hpark 2) hout2
        | 3, _ => exact h3 ▸ ih hc3 (h3 ▸ hpark 3) hout3
      have hflat : out0 ++ out1 ++ out2 ++ out3 =
          (List.range 4).flatMap fun k => [out0, out1, out2, out3].getD k [] := by
        simp [List.range_succ]
      rw [hflat]
      exact .quarters hh ⟨y, hyin, hw, hypar, hlt⟩ hspec

end S2Geography
