import S2Geography.CellOperators
import S2Geography.CellUnionForms
import Mathlib.Data.List.Perm.Basic

/-!
# Common ancestors of cells

Containment and the level of the deepest common ancestor, for two cells and for a vector.
The loop over a vector keeps the deepest cell that contains the cells read so far, and so
its result does not depend on their order.
-/
namespace S2Geography

open CellMethods
open DyadicCells.DyadicCell (Within.refl)
open S2CellId hiding none

variable {a b c d : S2CellId} {ids : List S2CellId}

def ContainsAll (d : S2CellId) (ids : List S2CellId) : Prop := ∀ c ∈ ids, d.contains c = true

/-- The level of the deepest cell that contains all of a vector, -1 if there is none. -/
def DeepestLevel (ids : List S2CellId) (level : ℤ) : Prop :=
  (∃ d : S2CellId, d.isValid = true ∧ ContainsAll d ids ∧ d.level = level ∧
    ∀ e : S2CellId, e.isValid = true → ContainsAll e ids → e.level ≤ level) ∨
  level = -1 ∧ ∀ e : S2CellId, e.isValid = true → ¬ ContainsAll e ids

theorem DeepestLevel.congr {ids' : List S2CellId} {level : ℤ}
    (h : ∀ e : S2CellId, e.isValid = true → (ContainsAll e ids ↔ ContainsAll e ids')) :
    DeepestLevel ids level ↔ DeepestLevel ids' level := by
  have hnone : (∀ e : S2CellId, e.isValid = true → ¬ ContainsAll e ids) ↔
      ∀ e : S2CellId, e.isValid = true → ¬ ContainsAll e ids' :=
    forall₂_congr fun e he => not_congr (h e he)
  have hsome : (∃ d : S2CellId, d.isValid = true ∧ ContainsAll d ids ∧ d.level = level ∧
      ∀ e : S2CellId, e.isValid = true → ContainsAll e ids → e.level ≤ level) ↔
      ∃ d : S2CellId, d.isValid = true ∧ ContainsAll d ids' ∧ d.level = level ∧
        ∀ e : S2CellId, e.isValid = true → ContainsAll e ids' → e.level ≤ level := by
    refine exists_congr fun d => and_congr_right fun hd => ?_
    rw [h d hd]
    refine and_congr_right fun _ => and_congr_right fun _ => forall₂_congr fun e he => ?_
    rw [h e he]
  rw [DeepestLevel, DeepestLevel, hsome, hnone]

theorem DeepestLevel.unique {level level' : ℤ} (h : DeepestLevel ids level)
    (h' : DeepestLevel ids level') : level = level' := by
  rcases h with ⟨d, hd, hall, rfl, hmax⟩ | ⟨rfl, hnone⟩
  · rcases h' with ⟨d', hd', hall', rfl, hmax'⟩ | ⟨-, hnone'⟩
    · exact le_antisymm (hmax' d hd hall) (hmax d' hd' hall')
    · exact absurd hall (hnone' d hd)
  · rcases h' with ⟨d', hd', hall', -, -⟩ | ⟨rfl, -⟩
    · exact absurd hall' (hnone d' hd')
    · rfl

theorem deepestLevel_singleton (hc : c.isValid = true) : DeepestLevel [c] c.level := by
  refine Or.inl ⟨c, hc, ?_, rfl, ?_⟩
  · intro e he
    obtain rfl := List.mem_singleton.mp he
    have hc0 := ne_none_of_isValid hc
    exact (contains_iff_within hc0 hc0).mpr (Within.refl _)
  · intro e he hall
    exact ((contains_iff_parentAt he hc).mp (hall c List.mem_cons_self)).1

/-- Two cells and the cell at their common level are contained in the same valid cells. -/
theorem containsAll_cons_cons (ha : a.isValid = true) (hb : b.isValid = true)
    (h0 : 0 ≤ a.getCommonAncestorLevel b) (hd : d.isValid = true) :
    ContainsAll d (a.parentAt (a.getCommonAncestorLevel b) :: ids) ↔
      ContainsAll d (a :: b :: ids) := by
  have hspec := getCommonAncestorLevel_spec ha hb hd
  simp only [ContainsAll, List.forall_mem_cons]
  rw [← and_assoc, hspec]
  simp only [h0, true_and]

/-- What the loop does to its common cell keeps the deepest level of all cells. -/
theorem commonAncestorLoop_spec (hc : c.isValid = true) (hids : ValidIds ids) :
    ∃ level, commonAncestorLoop release c ids = .ok level ∧ DeepestLevel (c :: ids) level := by
  induction ids generalizing c with
  | nil => exact ⟨c.level, rfl, deepestLevel_singleton hc⟩
  | cons b ids ih =>
    have hb := hids b List.mem_cons_self
    have hrest : ValidIds ids := fun e he => hids e (List.mem_cons_of_mem _ he)
    by_cases hnone : c.getCommonAncestorLevel b = -1
    · refine ⟨-1, ?_, Or.inr ⟨rfl, ?_⟩⟩
      · change (if c.getCommonAncestorLevel b = -1 then .ok (-1) else _ :
          Except CellFault ℤ) = .ok (-1)
        rw [if_pos hnone]
      · intro e he hall
        have hcommon := (getCommonAncestorLevel_spec hc hb he).mp
          ⟨hall c List.mem_cons_self, hall b (List.mem_cons_of_mem _ List.mem_cons_self)⟩
        have h0 := hcommon.1
        omega
    · have h0 : 0 ≤ c.getCommonAncestorLevel b := by
        have hle := neg_one_le_getCommonAncestorLevel c b
        omega
      obtain ⟨hcl, -, -⟩ := (le_getCommonAncestorLevel_iff hc hb h0).mp le_rfl
      obtain ⟨level, hrun, hdeep⟩ := ih (parentAt_spec hc h0 hcl).1 hrest
      refine ⟨level, ?_, ?_⟩
      · change (if c.getCommonAncestorLevel b = -1 then .ok (-1) else
          commonAncestorLoop release (c.parentAt (c.getCommonAncestorLevel b)) ids :
          Except CellFault ℤ) = .ok level
        rw [if_neg hnone, hrun]
      · exact (DeepestLevel.congr fun e he => containsAll_cons_cons hc hb h0 he).mp hdeep

theorem commonAncestorLevelAgg_spec (hne : ids ≠ []) (hids : ValidIds ids) :
    ∃ level, cppS2CellCommonAncestorLevelAgg release ids = .ok (some level) ∧
      DeepestLevel ids level := by
  cases ids with
  | nil => exact absurd rfl hne
  | cons c ids =>
    obtain ⟨level, hrun, hdeep⟩ := commonAncestorLoop_spec (hids c List.mem_cons_self)
      fun e he => hids e (List.mem_cons_of_mem _ he)
    refine ⟨level, ?_, hdeep⟩
    rw [cppS2CellCommonAncestorLevelAgg, hrun]
    rfl

/-- The vector may be read in any order. -/
theorem commonAncestorLevelAgg_perm {ids' : List S2CellId} (hne : ids ≠ []) (hids : ValidIds ids)
    (hperm : ids'.Perm ids) : cppS2CellCommonAncestorLevelAgg release ids' =
      cppS2CellCommonAncestorLevelAgg release ids := by
  have hne' : ids' ≠ [] := by
    rintro rfl
    exact hne hperm.nil_eq.symm
  obtain ⟨level, hrun, hdeep⟩ := commonAncestorLevelAgg_spec hne hids
  obtain ⟨level', hrun', hdeep'⟩ :=
    commonAncestorLevelAgg_spec hne' fun e he => hids e (hperm.subset he)
  have hdeep'' : DeepestLevel ids level' := (DeepestLevel.congr fun e _ =>
    ⟨fun hall c hc => hall c (hperm.mem_iff.mpr hc),
      fun hall c hc => hall c (hperm.mem_iff.mp hc)⟩).mp hdeep'
  rw [hrun, hrun', hdeep.unique hdeep'']

/-- The deepest level at which two cells have equal ancestors, -1 on different faces. -/
def CommonLevel (a b : S2CellId) (level : ℤ) : Prop :=
  (a.face = b.face → IsGreatest
    {l : ℤ | 0 ≤ l ∧ l ≤ a.level ∧ l ≤ b.level ∧ a.parentAt l = b.parentAt l} level) ∧
  (a.face ≠ b.face → level = -1)

theorem commonLevel_getCommonAncestorLevel (ha : a.isValid = true) (hb : b.isValid = true) :
    CommonLevel a b (a.getCommonAncestorLevel b) := by
  have hface := parentAt_zero_eq_iff (ne_none_of_isValid ha) (ne_none_of_isValid hb)
  constructor
  · intro heq
    have h0 := (le_getCommonAncestorLevel_iff ha hb le_rfl).mpr
      ⟨(level_spec ha).1, (level_spec hb).1, hface.mpr heq⟩
    refine ⟨⟨h0, (le_getCommonAncestorLevel_iff ha hb h0).mp le_rfl⟩, ?_⟩
    rintro l ⟨hl0, hl⟩
    exact (le_getCommonAncestorLevel_iff ha hb hl0).mpr hl
  · intro hne
    have hle := neg_one_le_getCommonAncestorLevel a b
    have h0 : ¬ 0 ≤ a.getCommonAncestorLevel b := fun h0 =>
      hne (hface.mp ((le_getCommonAncestorLevel_iff ha hb le_rfl).mp h0).2.2)
    omega

theorem cppS2CellContains_single (ha : a.isValid = true) (hb : b.isValid = true) :
    cppS2CellContains release [a] [b] = .ok [some (a.contains b)] := by
  change ((if a.isValid && b.isValid then some <$> (.ok (a.contains b)) else .ok none :
    Except CellFault (Option Bool)) >>= fun contains => pure [contains]) = _
  rw [ha, hb]
  rfl

theorem cppS2CellCommonAncestorLevel_single (ha : a.isValid = true) (hb : b.isValid = true) :
    cppS2CellCommonAncestorLevel release [a] [b] = .ok [some (a.getCommonAncestorLevel b)] := by
  change ((if a.isValid && b.isValid then some <$> (.ok (a.getCommonAncestorLevel b)) else
    .ok none : Except CellFault (Option ℤ)) >>= fun level => pure [level]) = _
  rw [ha, hb]
  rfl

/-- What the three operators say about ancestors of two valid cells and of a vector. -/
structure AncestorLaws (a b : S2CellId) (ids : List S2CellId) : Prop where
  contains : cppS2CellContains release [a] [b] = .ok [some true] ↔
    a.level ≤ b.level ∧ b.parentAt a.level = a
  commonLevel : ∃ level, cppS2CellCommonAncestorLevel release [a] [b] = .ok [some level] ∧
    CommonLevel a b level
  deepest : ids ≠ [] → ∃ level, cppS2CellCommonAncestorLevelAgg release ids = .ok (some level) ∧
    DeepestLevel ids level
  order : ids ≠ [] → ∀ ids' : List S2CellId, ids'.Perm ids →
    cppS2CellCommonAncestorLevelAgg release ids' = cppS2CellCommonAncestorLevelAgg release ids

theorem ancestorLaws (ha : a.isValid = true) (hb : b.isValid = true) (hids : ValidIds ids) :
    AncestorLaws a b ids where
  contains := by
    rw [cppS2CellContains_single ha hb, ← contains_iff_parentAt ha hb]
    simp
  commonLevel := ⟨_, cppS2CellCommonAncestorLevel_single ha hb,
    commonLevel_getCommonAncestorLevel ha hb⟩
  deepest hne := commonAncestorLevelAgg_spec hne hids
  order hne _ hperm := commonAncestorLevelAgg_perm hne hids hperm

/-- A face, one of its quarters and a cell of another face. -/
theorem ancestorLaws_faces : AncestorLaws ⟨0x1000000000000000⟩ ⟨0x0400000000000000⟩
    [⟨0x0400000000000000⟩, ⟨0x0C00000000000000⟩, ⟨0x3000000000000000⟩] := by
  refine ancestorLaws (by decide) (by decide) fun c hc => ?_
  simp only [List.mem_cons, List.not_mem_nil, or_false] at hc
  rcases hc with rfl | rfl | rfl <;> decide

end S2Geography
