import S2Geography.PreorderForest
import Mathlib.Data.List.Nodup

/-!
# Parents by depth

In a forest stored in preorder, a member's parent is the last member before it that is
less deep. A member at even depth together with those that have it as parent is a block;
the blocks share out all members.
-/
namespace PreorderForest

variable {α : Type}

/-- The depth at a position. -/
def depthAt (xs : List (α × ℕ)) (k : ℕ) : ℕ := (xs[k]?.map Prod.snd).getD 0

@[simp] theorem depthAt_cons_zero (x : α × ℕ) (xs : List (α × ℕ)) :
    depthAt (x :: xs) 0 = x.2 := rfl

@[simp] theorem depthAt_cons_succ (x : α × ℕ) (xs : List (α × ℕ)) (k : ℕ) :
    depthAt (x :: xs) (k + 1) = depthAt xs k := rfl

theorem Forest.ValidDepths.depthAt_zero_le {bound : ℕ} {xs : List (α × ℕ)}
    (h : Forest.ValidDepths bound xs) : depthAt xs 0 ≤ bound := by
  cases xs with
  | nil => exact Nat.zero_le bound
  | cons x xs => exact h.1

/-- Depths go down by any number of levels, but up by one at a time. -/
theorem Forest.ValidDepths.depthAt_succ_le {bound : ℕ} {xs : List (α × ℕ)}
    (h : Forest.ValidDepths bound xs) (k : ℕ) : depthAt xs (k + 1) ≤ depthAt xs k + 1 := by
  induction xs generalizing bound k with
  | nil => exact Nat.zero_le _
  | cons x xs ih =>
    cases k with
    | zero => exact Forest.ValidDepths.depthAt_zero_le h.2
    | succ k => exact ih h.2 k

/-- Position `i` is the last one before `k` that is less deep. -/
structure IsParent (depth : ℕ → ℕ) (i k : ℕ) : Prop where
  lt : i < k
  depth_lt : depth i < depth k
  between : ∀ m, i < m → m < k → depth k ≤ depth m

/-- Everything after `i` up to `k` is deeper than `i`. -/
structure IsDescendant (depth : ℕ → ℕ) (i k : ℕ) : Prop where
  lt : i < k
  deeper : ∀ m, i < m → m ≤ k → depth i < depth m

variable {depth : ℕ → ℕ} {i j k : ℕ}

theorem IsParent.eq (h : IsParent depth i k) (h' : IsParent depth j k) : i = j := by
  rcases lt_trichotomy i j with hlt | heq | hlt
  · exact absurd (h.between j hlt h'.lt) (not_le_of_gt h'.depth_lt)
  · exact heq
  · exact absurd (h'.between i hlt h.lt) (not_le_of_gt h.depth_lt)

/-- A member that is not a root has a parent. -/
theorem exists_isParent (hzero : depth 0 = 0) (hk : depth k ≠ 0) : ∃ i, IsParent depth i k := by
  have hpos : 0 < k := Nat.pos_of_ne_zero fun h => hk (h ▸ hzero)
  have hbelow : depth 0 < depth k := by omega
  let Above : ℕ → Prop := fun i => depth i < depth k
  have hle : Nat.findGreatest Above (k - 1) ≤ k - 1 := Nat.findGreatest_le (k - 1)
  have hspec : Above (Nat.findGreatest Above (k - 1)) :=
    Nat.findGreatest_spec (Nat.zero_le (k - 1)) hbelow
  have hlast : ∀ m, Nat.findGreatest Above (k - 1) < m → m ≤ k - 1 → ¬Above m :=
    fun m => Nat.findGreatest_is_greatest
  exact ⟨_, by omega, hspec, fun m hlt hm => not_lt.mp (hlast m hlt (by omega))⟩

/-- The members with a parent are its descendants one level below it. -/
theorem isParent_iff (hsucc : ∀ k, depth (k + 1) ≤ depth k + 1) :
    IsParent depth i k ↔ IsDescendant depth i k ∧ depth k = depth i + 1 := by
  constructor
  · intro h
    have hlt := h.lt
    have hdepth := h.depth_lt
    refine ⟨⟨hlt, fun m him hmk => ?_⟩, ?_⟩
    · rcases Nat.lt_or_eq_of_le hmk with hmk | rfl
      · have hbetween := h.between m him hmk
        omega
      · exact hdepth
    · -- right after the parent no member is deeper than one level below it
      have hfirst : depth k ≤ depth (i + 1) := by
        rcases Nat.lt_or_eq_of_le (Nat.succ_le_of_lt hlt) with hnext | hnext
        · exact h.between (i + 1) (Nat.lt_succ_self i) hnext
        · exact (congrArg depth hnext).ge
      have hstep := hsucc i
      omega
  · rintro ⟨h, hdepth⟩
    refine ⟨h.lt, by omega, fun m him hmk => ?_⟩
    have hdeeper := h.deeper m him hmk.le
    omega

/-- The blocks of the members at even depth, each with the members whose parent it is,
contain every position once. -/
theorem perm_range_of_isParent (hzero : depth 0 = 0)
    (hsucc : ∀ k, depth (k + 1) ≤ depth k + 1) (n : ℕ) {children : ℕ → List ℕ}
    (hnodup : ∀ i, (children i).Nodup)
    (hchildren : ∀ i < n, ∀ k, k ∈ children i ↔ k < n ∧ IsParent depth i k) :
    (((List.range n).filter fun i => depth i % 2 = 0).flatMap fun i =>
      i :: children i).Perm (List.range n) := by
  have hmem : ∀ i, i ∈ (List.range n).filter (fun i => depth i % 2 = 0) ↔
      i < n ∧ depth i % 2 = 0 := by simp
  have hodd : ∀ i < n, depth i % 2 = 0 → ∀ k ∈ children i, depth k % 2 = 1 := by
    intro i hi heven k hk
    have hdepth := ((isParent_iff hsucc).mp ((hchildren i hi k).mp hk).2).2
    omega
  refine (List.perm_ext_iff_of_nodup ?_ List.nodup_range).mpr fun k => ?_
  · refine List.nodup_flatMap.mpr ⟨fun i hi => ?_, ?_⟩
    · obtain ⟨hlt, heven⟩ := (hmem i).mp hi
      refine List.nodup_cons.mpr ⟨fun hself => ?_, hnodup i⟩
      have hself := hodd i hlt heven i hself
      omega
    · refine (List.nodup_range.filter _).imp_of_mem ?_
      intro i j hi hj hij k hki hkj
      obtain ⟨hilt, hieven⟩ := (hmem i).mp hi
      obtain ⟨hjlt, hjeven⟩ := (hmem j).mp hj
      rcases List.mem_cons.mp hki with rfl | hki <;> rcases List.mem_cons.mp hkj with rfl | hkj
      · exact hij rfl
      · have := hodd j hjlt hjeven k hkj
        omega
      · have := hodd i hilt hieven k hki
        omega
      · exact hij (((hchildren i hilt k).mp hki).2.eq ((hchildren j hjlt k).mp hkj).2)
  · rw [List.mem_flatMap, List.mem_range]
    constructor
    · rintro ⟨i, hi, hk⟩
      have hlt := ((hmem i).mp hi).1
      rcases List.mem_cons.mp hk with rfl | hk
      · exact hlt
      · exact ((hchildren i hlt k).mp hk).1
    · intro hk
      by_cases heven : depth k % 2 = 0
      · exact ⟨k, (hmem k).mpr ⟨hk, heven⟩, List.mem_cons_self⟩
      · obtain ⟨i, hparent⟩ := exists_isParent hzero (k := k) (by omega)
        have hilt : i < n := hparent.lt.trans hk
        have hdepth := ((isParent_iff hsucc).mp hparent).2
        exact ⟨i, (hmem i).mpr ⟨hilt, by omega⟩,
          List.mem_cons_of_mem i ((hchildren i hilt k).mpr ⟨hk, hparent⟩)⟩

end PreorderForest
