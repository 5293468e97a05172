import S2Geography.CellUnionForms

/-!
# The loops over two cell unions

On ordered disjoint ids the binary searches of `Contains`, `Intersects` and
`GetIntersection` skip only cells that lie entirely before the target.
-/
namespace S2Geography

open DyadicCells DyadicCell S2CellUnion
open S2CellId hiding none

/-- Ids other than `none`, in order and disjoint. -/
structure OrderedIds (ids : List S2CellId) : Prop where
  ne_none : ∀ c ∈ ids, c ≠ S2CellId.none
  ordered : ids.Pairwise fun a b => a.cell.Before b.cell

namespace OrderedIds

variable {ids xs ys : List S2CellId} {a c id : S2CellId}

theorem normalizeIds (h : ∀ c ∈ ids, c ≠ S2CellId.none) :
    OrderedIds (S2CellUnion.normalizeIds ids) :=
  ⟨fun _ hc => ne_none_of_mem_normalizeIds h hc, ordered_normalizeIds h⟩

theorem sublist (h : OrderedIds ids) (hs : List.Sublist xs ids) : OrderedIds xs :=
  ⟨fun c hc => h.ne_none c (hs.mem hc), h.ordered.sublist hs⟩

theorem tail (h : OrderedIds (a :: ids)) : OrderedIds ids :=
  h.sublist (List.sublist_cons_self a ids)

theorem head (h : OrderedIds (a :: ids)) : a ≠ S2CellId.none := h.ne_none a (by simp)

theorem before (h : OrderedIds (a :: ids)) (hc : c ∈ ids) : a.cell.Before c.cell :=
  (List.pairwise_cons.mp h.ordered).1 c hc

theorem lowerBound (h : OrderedIds ids) (id : S2CellId) :
    OrderedIds (S2CellUnion.lowerBound ids id) :=
  h.sublist (List.dropWhile_sublist _)

/-- Two cells of the vector that meet are the same. -/
theorem eq_of_meets (h : OrderedIds ids) (ha : a ∈ ids) (hc : c ∈ ids)
    (hm : a.cell.Meets c.cell) : a = c := by
  have hfwd : ids.Pairwise fun a c => a.cell.Meets c.cell → a = c :=
    h.ordered.imp fun hac hm => absurd hm hac.not_meets
  have hbwd : ids.Pairwise fun a c => c.cell.Meets a.cell → c = a :=
    h.ordered.imp fun hac hm => absurd hm.symm hac.not_meets
  exact List.Pairwise.forall_of_forall_of_flip (fun _ _ _ => rfl) hfwd hbwd ha hc hm

end OrderedIds

namespace S2CellUnion

variable {ids xs ys : List S2CellId} {a b c id : S2CellId}

theorem entirelyPrecedes_iff (ha : a ≠ S2CellId.none) (hb : b ≠ S2CellId.none) :
    entirelyPrecedes a b = true ↔ a.cell.Before b.cell := by
  rw [entirelyPrecedes, decide_eq_true_eq]
  exact rangeMax_lt_rangeMin_iff ha hb

/-- The search is well defined: the cells before the target stand first. -/
theorem mem_lowerBound (h : OrderedIds ids) (hid : id ≠ S2CellId.none) :
    c ∈ lowerBound ids id ↔ c ∈ ids ∧ ¬ c.cell.Before id.cell := by
  induction ids with
  | nil => simp [lowerBound]
  | cons a ids ih =>
    rw [lowerBound, List.dropWhile_cons]
    split_ifs with hp
    · rw [entirelyPrecedes_iff h.head hid] at hp
      rw [← lowerBound, ih h.tail, List.mem_cons]
      constructor
      · rintro ⟨hc, hn⟩
        exact ⟨Or.inr hc, hn⟩
      · rintro ⟨rfl | hc, hn⟩
        · exact absurd hp hn
        · exact ⟨hc, hn⟩
    · rw [entirelyPrecedes_iff h.head hid] at hp
      constructor
      · intro hc
        refine ⟨hc, ?_⟩
        rcases List.mem_cons.mp hc with rfl | hc
        · exact hp
        · intro hcid
          exact hp ((h.before hc).trans hcid)
      · rintro ⟨hc, -⟩
        exact hc

/-- The first cell that is not before the target is the only one that may contain it. -/
theorem containsId_iff (h : OrderedIds ids) (hid : id ≠ S2CellId.none) :
    containsId ⟨ids⟩ id = true ↔ ∃ c ∈ ids, id.cell.Within c.cell := by
  have hmem := fun c => @mem_lowerBound ids c id h hid
  have hord := h.lowerBound id
  rw [containsId]
  cases hl : lowerBound ids id with
  | nil =>
    simp only [Bool.false_eq_true, false_iff, not_exists, not_and]
    intro c hc hw
    have hin := (hmem c).mpr ⟨hc, fun hb => hb.not_meets hw.meets.symm⟩
    rw [hl] at hin
    simp at hin
  | cons i rest =>
    rw [hl] at hord
    have hi := (hmem i).mp (by simp [hl])
    simp only [contains_iff_within hord.head hid]
    constructor
    · intro hw
      exact ⟨i, hi.1, hw⟩
    · rintro ⟨c, hc, hw⟩
      have hin := (hmem c).mpr ⟨hc, fun hb => hb.not_meets hw.meets.symm⟩
      rw [hl] at hin
      rcases List.mem_cons.mp hin with rfl | hrest
      · exact hw
      · exact absurd ((hord.before hrest).mono (Within.refl _) hw) hi.2

theorem intersectsId_iff (h : OrderedIds ids) (hid : id ≠ S2CellId.none) :
    intersectsId ⟨ids⟩ id = true ↔ ∃ c ∈ ids, c.cell.Meets id.cell := by
  have hmem := fun c => @mem_lowerBound ids c id h hid
  have hord := h.lowerBound id
  rw [intersectsId]
  cases hl : lowerBound ids id with
  | nil =>
    simp only [Bool.false_eq_true, false_iff, not_exists, not_and]
    intro c hc hm
    have hin := (hmem c).mpr ⟨hc, fun hb => hb.not_meets hm⟩
    rw [hl] at hin
    simp at hin
  | cons i rest =>
    rw [hl] at hord
    have hi := (hmem i).mp (by simp [hl])
    simp only [intersects_iff_meets hord.head hid]
    constructor
    · intro hm
      exact ⟨i, hi.1, hm⟩
    · rintro ⟨c, hc, hm⟩
      have hin := (hmem c).mpr ⟨hc, fun hb => hb.not_meets hm⟩
      rw [hl] at hin
      rcases List.mem_cons.mp hin with rfl | hrest
      · exact hm
      · -- the first cell reaches the target and starts before the one that meets it
        have hbefore := hord.before hrest
        have hle := i.cell.lo_le_hi
        have hnot := hi.2
        simp only [Before, Meets] at *
        omega

/-! ### Contains and Intersects of two unions -/

/-- The iterator only ever moves past cells that lie before all ids still to come. -/
theorem containsFrom_iff (hx : OrderedIds xs) (hy : OrderedIds ys) :
    containsFrom xs ys = true ↔ ∀ y ∈ ys, ∃ c ∈ xs, y.cell.Within c.cell := by
  induction ys generalizing xs with
  | nil => simp [containsFrom]
  | cons id ys ih =>
    cases xs with
    | nil =>
      rw [containsFrom, List.forall_mem_cons]
      simp
    | cons i rest =>
      have hstep : (if entirelyPrecedes i id then lowerBound rest id else i :: rest) =
          lowerBound (i :: rest) id := by
        simp only [lowerBound, List.dropWhile_cons]
      have hfind := containsId_iff hx hy.head
      have hkeep : ∀ y ∈ ys, (∃ c ∈ i :: rest, y.cell.Within c.cell) ↔
          ∃ c ∈ lowerBound (i :: rest) id, y.cell.Within c.cell := by
        intro y hyin
        constructor
        · rintro ⟨c, hc, hw⟩
          refine ⟨c, (mem_lowerBound hx hy.head).mpr ⟨hc, ?_⟩, hw⟩
          intro hb
          exact (hb.trans (hy.before hyin)).not_meets hw.meets.symm
        · rintro ⟨c, hc, hw⟩
          exact ⟨c, ((mem_lowerBound hx hy.head).mp hc).1, hw⟩
      have hord := hx.lowerBound id
      rw [containsFrom, hstep, List.forall_mem_cons, ← hfind, containsId]
      cases hl : lowerBound (i :: rest) id with
      | nil => simp
      | cons j rest' =>
        rw [hl] at hord
        simp only [hl] at hkeep
        by_cases hj : j.contains id = true
        · simp only [hj, if_true, true_and]
          rw [ih hord hy.tail]
          exact forall₂_congr fun y hyin => (hkeep y hyin).symm
        · simp [hj]

theorem contains_iff (hx : OrderedIds xs) (hy : OrderedIds ys) :
    contains ⟨xs⟩ ⟨ys⟩ = true ↔ ∀ y ∈ ys, ∃ c ∈ xs, y.cell.Within c.cell := by
  rw [← containsFrom_iff hx hy, contains]
  cases ys with
  | nil => simp [containsFrom]
  | cons y ys =>
    cases xs with
    | nil => simp [containsFrom]
    | cons x xs => simp

/-- Cells before the target take no part in an intersection with it or what follows. -/
theorem exists_meets_lowerBound_iff {j : S2CellId} {js : List S2CellId} (hx : OrderedIds xs)
    (hy : OrderedIds (j :: js)) :
    (∃ a ∈ lowerBound xs j, ∃ b ∈ j :: js, a.cell.Meets b.cell) ↔
      ∃ a ∈ xs, ∃ b ∈ j :: js, a.cell.Meets b.cell := by
  constructor
  · rintro ⟨a, ha, hab⟩
    exact ⟨a, ((mem_lowerBound hx hy.head).mp ha).1, hab⟩
  · rintro ⟨a, ha, b, hb, hm⟩
    refine ⟨a, (mem_lowerBound hx hy.head).mpr ⟨ha, ?_⟩, b, hb, hm⟩
    intro hbefore
    rcases List.mem_cons.mp hb with rfl | hb
    · exact hbefore.not_meets hm
    · exact (hbefore.trans (hy.before hb)).not_meets hm

/-- A loop over two vectors ends when one of them does. -/
theorem nil_or_nil (h : ∀ i is j js, xs = i :: is → ys = j :: js → False) : xs = [] ∨ ys = [] := by
  cases xs with
  | nil => exact Or.inl rfl
  | cons i is =>
    cases ys with
    | nil => exact Or.inr rfl
    | cons j js => exact absurd rfl (h i is j js rfl)

theorem intersectsFrom_iff (hx : OrderedIds xs) (hy : OrderedIds ys) :
    intersectsFrom xs ys = true ↔ ∃ a ∈ xs, ∃ b ∈ ys, a.cell.Meets b.cell := by
  induction xs, ys using intersectsFrom.induct with
  | case1 i is j js hij ih =>
    have hlb : lowerBound (i :: is) j = lowerBound is j := by
      rw [lowerBound, List.dropWhile_cons, if_pos hij]
      rfl
    rw [intersectsFrom, if_pos hij, ih (hx.tail.lowerBound j) hy, ← hlb]
    exact exists_meets_lowerBound_iff hx hy
  | case2 i is j js hij hji ih =>
    have hlb : lowerBound (j :: js) i = lowerBound js i := by
      rw [lowerBound, List.dropWhile_cons, if_pos hji]
      rfl
    rw [intersectsFrom, if_neg hij, if_pos hji, ih hx (hy.tail.lowerBound i), ← hlb]
    have hsymm : ∀ {as bs : List S2CellId}, (∃ a ∈ as, ∃ b ∈ bs, a.cell.Meets b.cell) ↔
        ∃ b ∈ bs, ∃ a ∈ as, b.cell.Meets a.cell := by
      intro as bs
      constructor
      · rintro ⟨a, ha, b, hb, hm⟩
        exact ⟨b, hb, a, ha, hm.symm⟩
      · rintro ⟨b, hb, a, ha, hm⟩
        exact ⟨a, ha, b, hb, hm.symm⟩
    rw [hsymm, exists_meets_lowerBound_iff hy hx, hsymm]
  | case3 i is j js hij hji =>
    rw [intersectsFrom, if_neg hij, if_neg hji]
    rw [entirelyPrecedes_iff hx.head hy.head] at hij
    rw [entirelyPrecedes_iff hy.head hx.head] at hji
    have hm : i.cell.Meets j.cell := by
      by_contra hn
      rcases not_meets_iff.mp hn with h | h
      · exact hij h
      · exact hji h
    simp only [true_iff]
    exact ⟨i, by simp, j, by simp, hm⟩
  | case4 xs ys hshort =>
    rw [intersectsFrom]
    · rcases nil_or_nil hshort with rfl | rfl <;> simp
    · exact hshort

/-! ### Intersection -/

/-- A cell of one vector that lies in a cell of the other. -/
def InBoth (xs ys : List S2CellId) (c : S2CellId) : Prop :=
  (c ∈ xs ∧ ∃ y ∈ ys, c.cell.Within y.cell) ∨ (c ∈ ys ∧ ∃ x ∈ xs, c.cell.Within x.cell)

theorem inBoth_comm : InBoth xs ys c ↔ InBoth ys xs c := or_comm

theorem inBoth_lowerBound_iff {j : S2CellId} {js : List S2CellId} (hx : OrderedIds xs)
    (hy : OrderedIds (j :: js)) :
    InBoth (lowerBound xs j) (j :: js) c ↔ InBoth xs (j :: js) c := by
  have hmem := fun c => @mem_lowerBound xs c j hx hy.head
  have hkeep : ∀ x ∈ xs, ∀ y ∈ j :: js, x.cell.Meets y.cell → x ∈ lowerBound xs j := by
    intro x hxin y hyin hm
    refine (hmem x).mpr ⟨hxin, ?_⟩
    intro hbefore
    rcases List.mem_cons.mp hyin with rfl | hyin
    · exact hbefore.not_meets hm
    · exact (hbefore.trans (hy.before hyin)).not_meets hm
  constructor
  · rintro (⟨hc, hw⟩ | ⟨hc, x, hxin, hw⟩)
    · exact Or.inl ⟨((hmem c).mp hc).1, hw⟩
    · exact Or.inr ⟨hc, x, ((hmem x).mp hxin).1, hw⟩
  · rintro (⟨hc, y, hyin, hw⟩ | ⟨hc, x, hxin, hw⟩)
    · exact Or.inl ⟨hkeep c hc y hyin hw.meets, y, hyin, hw⟩
    · exact Or.inr ⟨hc, x, hkeep x hxin c hc hw.meets.symm, hw⟩

/-- A first cell that lies in the other first cell is the next output. -/
theorem inBoth_cons_iff {i j : S2CellId} {is js : List S2CellId} (hx : OrderedIds (i :: is))
    (hy : OrderedIds (j :: js)) (hij : i.cell.Within j.cell) :
    InBoth (i :: is) (j :: js) c ↔ c = i ∨ InBoth is (j :: js) c := by
  constructor
  · rintro (⟨hc, hw⟩ | ⟨hc, x, hxin, hw⟩)
    · rcases List.mem_cons.mp hc with rfl | hc
      · exact Or.inl rfl
      · exact Or.inr (Or.inl ⟨hc, hw⟩)
    · rcases List.mem_cons.mp hxin with rfl | hxin
      · left
        have hcj : c = j := hy.eq_of_meets hc (by simp) (hw.trans hij).meets
        refine eq_of_cell_eq (hy.ne_none c hc) hx.head (hw.antisymm ?_)
        rw [hcj]
        exact hij
      · exact Or.inr (Or.inr ⟨hc, x, hxin, hw⟩)
  · rintro (rfl | ⟨hc, hw⟩ | ⟨hc, x, hxin, hw⟩)
    · exact Or.inl ⟨by simp, j, by simp, hij⟩
    · exact Or.inl ⟨by simp [hc], hw⟩
    · exact Or.inr ⟨hc, x, by simp [hxin], hw⟩

theorem before_of_inBoth {i : S2CellId} {is : List S2CellId} (hx : OrderedIds (i :: is))
    (h : InBoth is ys c) : i.cell.Before c.cell := by
  rcases h with ⟨hc, -⟩ | ⟨-, x, hxin, hw⟩
  · exact hx.before hc
  · exact (hx.before hxin).mono (Within.refl _) hw

/-- The output of `GetIntersection`: in order, the cells that lie in both. -/
structure IntersectionSpec (xs ys out : List S2CellId) : Prop where
  ordered : OrderedIds out
  mem_iff : ∀ c, c ∈ out ↔ InBoth xs ys c

theorem IntersectionSpec.comm {out : List S2CellId} (h : IntersectionSpec xs ys out) :
    IntersectionSpec ys xs out :=
  ⟨h.ordered, fun c => (h.mem_iff c).trans inBoth_comm⟩

theorem IntersectionSpec.cons {i j : S2CellId} {is js out : List S2CellId}
    (hx : OrderedIds (i :: is)) (hy : OrderedIds (j :: js)) (hij : i.cell.Within j.cell)
    (h : IntersectionSpec is (j :: js) out) : IntersectionSpec (i :: is) (j :: js) (i :: out) := by
  refine ⟨⟨?_, ?_⟩, fun c => ?_⟩
  · exact List.forall_mem_cons.mpr ⟨hx.head, h.ordered.ne_none⟩
  · refine List.pairwise_cons.mpr ⟨fun c hc => ?_, h.ordered.ordered⟩
    exact before_of_inBoth hx ((h.mem_iff c).mp hc)
  · rw [List.mem_cons, h.mem_iff, inBoth_cons_iff hx hy hij]

theorem IntersectionSpec.skip {i j : S2CellId} {is js out : List S2CellId}
    (hx : OrderedIds (i :: is)) (hy : OrderedIds (j :: js)) (hij : i.cell.Before j.cell)
    (h : IntersectionSpec (lowerBound is j) (j :: js) out) :
    IntersectionSpec (i :: is) (j :: js) out := by
  have hlb : lowerBound (i :: is) j = lowerBound is j := by
    rw [lowerBound, List.dropWhile_cons, if_pos ((entirelyPrecedes_iff hx.head hy.head).mpr hij)]
    rfl
  refine ⟨h.ordered, fun c => ?_⟩
  rw [h.mem_iff, ← hlb]
  exact inBoth_lowerBound_iff hx hy

/-- Past the start of another cell, a cell lies in it or after it. -/
theorem within_or_before_of_lo_lt {d e : DyadicCell} (hlo : e.lo < d.lo) :
    (d.center ≤ e.hi → d.Within e) ∧ (¬ d.center ≤ e.hi → e.Before d) := by
  have hle := d.lo_le_center
  constructor
  · intro hc
    exact (center_mem_iff d e).mp ⟨by omega, hc⟩
  · intro hc
    have hn : ¬ e.Meets d := by
      intro hm
      rcases hm.within_or with h | h
      · have := h.1
        omega
      · exact hc (d.center_le_hi.trans h.2)
    rcases not_meets_iff.mp hn with h | h
    · exact h
    · have := d.lo_le_hi
      simp only [Before] at h
      omega

/-- Of two cells with the same start, the one of the smaller number is inside. -/
theorem within_of_lo_eq {d e : DyadicCell} (hlo : d.lo = e.lo) (h : d.center ≤ e.center) :
    d.Within e := by
  refine (center_mem_iff d e).mp ⟨?_, h.trans e.center_le_hi⟩
  rw [← hlo]
  exact d.lo_le_center

theorem getIntersection_spec (hx : OrderedIds xs) (hy : OrderedIds ys) :
    IntersectionSpec xs ys (getIntersection xs ys) := by
  induction xs, ys using getIntersection.induct with
  | case1 i is j js imin jmin hmin hmax ih =>
    have hlo := (rangeMin_lt_iff hy.head hx.head).mp hmin
    have hij := (within_or_before_of_lo_lt hlo).1 ((le_rangeMax_iff hx.head hy.head).mp hmax)
    rw [getIntersection, if_pos hmin, if_pos hmax]
    exact .cons hx hy hij (ih hx.tail hy)
  | case2 i is j js imin jmin hmin hmax ih =>
    have hlo := (rangeMin_lt_iff hy.head hx.head).mp hmin
    have hji := (within_or_before_of_lo_lt hlo).2 (hmax ∘ (le_rangeMax_iff hx.head hy.head).mpr)
    rw [getIntersection, if_pos hmin, if_neg hmax]
    exact (IntersectionSpec.skip hy hx hji (ih hx (hy.tail.lowerBound i)).comm).comm
  | case3 i is j js imin jmin hmin hmin' hmax ih =>
    have hlo := (rangeMin_lt_iff hx.head hy.head).mp hmin'
    have hji := (within_or_before_of_lo_lt hlo).1 ((le_rangeMax_iff hy.head hx.head).mp hmax)
    rw [getIntersection, if_neg hmin, if_pos hmin', if_pos hmax]
    exact (IntersectionSpec.cons hy hx hji (ih hx hy.tail).comm).comm
  | case4 i is j js imin jmin hmin hmin' hmax ih =>
    have hlo := (rangeMin_lt_iff hx.head hy.head).mp hmin'
    have hij := (within_or_before_of_lo_lt hlo).2 (hmax ∘ (le_rangeMax_iff hy.head hx.head).mpr)
    rw [getIntersection, if_neg hmin, if_pos hmin', if_neg hmax]
    exact .skip hx hy hij (ih (hx.tail.lowerBound j) hy)
  | case5 i is j js imin jmin hmin hmin' hlt ih =>
    have hlo : i.cell.lo = j.cell.lo := by
      have h₁ := (rangeMin_lt_iff hy.head hx.head).not.mp hmin
      have h₂ := (rangeMin_lt_iff hx.head hy.head).not.mp hmin'
      omega
    have hij := within_of_lo_eq hlo ((lt_iff_center hx.head hy.head).mp hlt).le
    rw [getIntersection, if_neg hmin, if_neg hmin', if_pos hlt]
    exact .cons hx hy hij (ih hx.tail hy)
  | case6 i is j js imin jmin hmin hmin' hlt ih =>
    have hlo : j.cell.lo = i.cell.lo := by
      have h₁ := (rangeMin_lt_iff hy.head hx.head).not.mp hmin
      have h₂ := (rangeMin_lt_iff hx.head hy.head).not.mp hmin'
      omega
    have hji := within_of_lo_eq hlo ((le_iff_center hy.head hx.head).mp (le_of_not_gt hlt))
    rw [getIntersection, if_neg hmin, if_neg hmin', if_neg hlt]
    exact (IntersectionSpec.cons hy hx hji (ih hx hy.tail).comm).comm
  | case7 xs ys hshort =>
    rw [getIntersection]
    · refine ⟨⟨by simp, List.Pairwise.nil⟩, fun c => ?_⟩
      rcases nil_or_nil hshort with rfl | rfl <;> simp [InBoth]
    · exact hshort

end S2CellUnion

end S2Geography
