import Mathlib.Algebra.Ring.Parity
import Mathlib.Data.List.Induction
import Mathlib.Data.Nat.Find
import Mathlib.Data.Set.BooleanAlgebra
import Mathlib.Data.Set.Disjoint
import Mathlib.Order.CompletePartialOrder
import Mathlib.Tactic.Common

/-!
# Forests stored in preorder

A forest is stored as the list of its members in preorder, each with its depth. For
regions that nest as the members do, uniting the regions at even depth and removing
those at odd depth, in the stored order, leaves the points in an odd number of regions.
-/
namespace PreorderForest

variable {α P : Type}

/-- The first tree's root, the trees below that root, and the trees after the first. -/
inductive Forest (α : Type) where
  | nil
  | cons (root : α) (children siblings : Forest α)

namespace Forest

def roots : Forest α → List α
  | nil => []
  | cons root _ siblings => root :: roots siblings

/-- All members, in preorder. -/
def members : Forest α → List α
  | nil => []
  | cons root children siblings => root :: (members children ++ members siblings)

/-- The members with their depths, when the roots stand at the given depth. -/
def preorder : ℕ → Forest α → List (α × ℕ)
  | _, nil => []
  | depth, cons root children siblings =>
    (root, depth) :: (preorder (depth + 1) children ++ preorder depth siblings)

theorem preorder_map_fst (f : Forest α) (depth : ℕ) :
    (f.preorder depth).map Prod.fst = f.members := by
  induction f generalizing depth with
  | nil => rfl
  | cons root children siblings ihc ihs => simp [preorder, members, ihc, ihs]

theorem mem_members_of_mem_preorder {f : Forest α} {depth : ℕ} {x : α × ℕ}
    (h : x ∈ f.preorder depth) : x.1 ∈ f.members := by
  rw [← preorder_map_fst f depth]
  exact List.mem_map_of_mem h

theorem depth_le_of_mem_preorder {f : Forest α} {depth : ℕ} {x : α × ℕ}
    (h : x ∈ f.preorder depth) : depth ≤ x.2 := by
  induction f generalizing depth with
  | nil => simp [preorder] at h
  | cons root children siblings ihc ihs =>
    rw [preorder, List.mem_cons, List.mem_append] at h
    rcases h with rfl | h | h
    · exact le_refl depth
    · exact (Nat.le_succ depth).trans (ihc h)
    · exact ihs h

/-- The members at the depth of the roots are the roots. -/
theorem filter_preorder (f : Forest α) (depth : ℕ) :
    (f.preorder depth).filter (fun x => x.2 = depth) = f.roots.map (·, depth) := by
  induction f generalizing depth with
  | nil => rfl
  | cons root children siblings ihc ihs =>
    have hchildren : (children.preorder (depth + 1)).filter (fun x => x.2 = depth) = [] := by
      rw [List.filter_eq_nil_iff]
      intro x hx
      have hle := depth_le_of_mem_preorder hx
      simp only [decide_eq_true_eq]
      omega
    simp [preorder, roots, hchildren, ihs]

/-- The list goes on at the depth or above it. -/
def Stops (depth : ℕ) (rest : List (α × ℕ)) : Prop := ∀ x ∈ rest.head?, x.2 ≤ depth

theorem Stops.preorder_append {depth : ℕ} {rest : List (α × ℕ)} (h : Stops depth rest)
    (f : Forest α) : Stops depth (f.preorder depth ++ rest) := by
  cases f with
  | nil => exact h
  | cons root children siblings =>
    intro x hx
    cases hx
    exact le_refl depth

/-- What lies below a root is what follows it up to the next member that does not. -/
theorem takeWhile_preorder_append (f : Forest α) {depth : ℕ} {rest : List (α × ℕ)}
    (h : Stops depth rest) :
    (f.preorder (depth + 1) ++ rest).takeWhile (fun x => depth < x.2) =
      f.preorder (depth + 1) := by
  have hrest : rest.takeWhile (fun x => depth < x.2) = [] := by
    cases rest with
    | nil => rfl
    | cons x rest =>
      have hx : x.2 ≤ depth := h x rfl
      simp [hx]
  rw [List.takeWhile_append_of_pos, hrest, List.append_nil]
  intro x hx
  have hle := depth_le_of_mem_preorder hx
  simp only [decide_eq_true_eq]
  omega

/-- No depth exceeds that of the member before it by more than one; the first is at most
`bound`. -/
def ValidDepths : ℕ → List (α × ℕ) → Prop
  | _, [] => True
  | bound, x :: xs => x.2 ≤ bound ∧ ValidDepths (x.2 + 1) xs

theorem exists_preorder_append (n : ℕ) :
    ∀ (xs : List (α × ℕ)), xs.length ≤ n → ∀ depth, ValidDepths depth xs →
      ∃ (f : Forest α) (rest : List (α × ℕ)), f.preorder depth ++ rest = xs ∧
        (∀ x ∈ rest.head?, x.2 < depth) ∧ ValidDepths depth rest := by
  induction n with
  | zero =>
    intro xs hlength depth _
    cases List.length_eq_zero_iff.mp (Nat.le_zero.mp hlength)
    exact ⟨nil, [], rfl, by simp, trivial⟩
  | succ n ih =>
    intro xs hlength depth hvalid
    cases xs with
    | nil => exact ⟨nil, [], rfl, by simp, trivial⟩
    | cons x xs =>
      obtain ⟨root, k⟩ := x
      obtain ⟨hle, hxs⟩ := hvalid
      rw [List.length_cons] at hlength
      rcases Nat.lt_or_eq_of_le hle with hlt | rfl
      · exact ⟨nil, (root, k) :: xs, rfl, by simpa using hlt, hle, hxs⟩
      · -- the children go down to the first member at the root's depth or above
        obtain ⟨children, rest, rfl, hrest, hvalid⟩ := ih xs (by omega) (k + 1) hxs
        have hvalid' : ValidDepths k rest := by
          cases rest with
          | nil => trivial
          | cons y rest => exact ⟨Nat.le_of_lt_succ (hrest y rfl), hvalid.2⟩
        rw [List.length_append] at hlength
        obtain ⟨siblings, rest', rfl, hrest', hvalid''⟩ := ih rest (by omega) k hvalid'
        exact ⟨cons root children siblings, rest', by simp [preorder], hrest', hvalid''⟩

/-- Every list with valid depths is the preorder of a forest. -/
theorem exists_preorder {xs : List (α × ℕ)} (h : ValidDepths 0 xs) :
    ∃ f : Forest α, f.preorder 0 = xs := by
  obtain ⟨f, rest, hxs, hrest, -⟩ := exists_preorder_append xs.length xs (le_refl _) 0 h
  cases rest with
  | nil => exact ⟨f, by simpa using hxs⟩
  | cons x rest => exact absurd (hrest x rfl) (Nat.not_lt_zero _)

/-- Regions nest as the members do: a child's region lies in its parent's, and the regions
of siblings are disjoint. -/
def Laminar (region : α → Set P) : Forest α → Prop
  | nil => True
  | cons root children siblings =>
    (∀ b ∈ children.roots, region b ⊆ region root) ∧
      (∀ b ∈ siblings.roots, Disjoint (region root) (region b)) ∧
      Laminar region children ∧ Laminar region siblings

/-- Every member's region lies in the region of a root. -/
theorem Laminar.exists_root {region : α → Set P} {f : Forest α} (h : f.Laminar region)
    {b : α} (hb : b ∈ f.members) : ∃ r ∈ f.roots, region b ⊆ region r := by
  induction f with
  | nil => simp [members] at hb
  | cons root children siblings ihc ihs =>
    obtain ⟨hsub, -, hc, hs⟩ := h
    rw [members, List.mem_cons, List.mem_append] at hb
    rcases hb with rfl | hb | hb
    · exact ⟨b, by simp [roots], fun _ hp => hp⟩
    · obtain ⟨r, hr, hbr⟩ := ihc hc hb
      exact ⟨root, by simp [roots], hbr.trans (hsub r hr)⟩
    · obtain ⟨r, hr, hbr⟩ := ihs hs hb
      exact ⟨r, by simp [roots, hr], hbr⟩

theorem Laminar.notMem_of_roots {region : α → Set P} {f : Forest α} (h : f.Laminar region)
    {p : P} (hp : ∀ r ∈ f.roots, p ∉ region r) : ∀ b ∈ f.members, p ∉ region b := by
  intro b hb hpb
  obtain ⟨r, hr, hsub⟩ := h.exists_root hb
  exact hp r hr (hsub hpb)

end Forest

/-- United at even depth, removed at odd depth. -/
def parityStep (region : α → Set P) (acc : Set P) (x : α × ℕ) : Set P :=
  if x.2 % 2 = 0 then acc ∪ region x.1 else acc \ region x.1

def parityFold (region : α → Set P) (acc : Set P) (xs : List (α × ℕ)) : Set P :=
  xs.foldl (parityStep region) acc

@[simp] theorem parityFold_nil (region : α → Set P) (acc : Set P) :
    parityFold region acc [] = acc := rfl

@[simp] theorem parityFold_cons (region : α → Set P) (acc : Set P) (x : α × ℕ)
    (xs : List (α × ℕ)) :
    parityFold region acc (x :: xs) = parityFold region (parityStep region acc x) xs := rfl

theorem parityFold_append (region : α → Set P) (acc : Set P) (xs ys : List (α × ℕ)) :
    parityFold region acc (xs ++ ys) = parityFold region (parityFold region acc xs) ys :=
  List.foldl_append

theorem mem_parityStep {region : α → Set P} {acc : Set P} {a : α} {depth : ℕ} {p : P} :
    p ∈ parityStep region acc (a, depth) ↔
      if depth % 2 = 0 then p ∈ acc ∨ p ∈ region a else p ∈ acc ∧ p ∉ region a := by
  unfold parityStep
  split
  · exact Set.mem_union p acc (region a)
  · exact Set.mem_sdiff p

/-- Members whose regions miss a point do not change whether it is in the result. -/
theorem mem_parityFold_of_notMem {region : α → Set P} {p : P} (xs : List (α × ℕ))
    (h : ∀ x ∈ xs, p ∉ region x.1) (acc : Set P) :
    p ∈ parityFold region acc xs ↔ p ∈ acc := by
  induction xs generalizing acc with
  | nil => rfl
  | cons x xs ih =>
    have hx := h x (by simp)
    rw [parityFold_cons, ih (fun y hy => h y (by simp [hy])), mem_parityStep]
    simp [hx]

open Classical in
/-- How many of the listed regions contain the point. -/
noncomputable def countContaining (region : α → Set P) (p : P) (xs : List α) : ℕ :=
  xs.countP fun a => p ∈ region a

theorem countContaining_cons_of_mem {region : α → Set P} {p : P} {a : α} (xs : List α)
    (h : p ∈ region a) :
    countContaining region p (a :: xs) = countContaining region p xs + 1 :=
  List.countP_cons_of_pos (by simpa using h)

theorem countContaining_cons_of_notMem {region : α → Set P} {p : P} {a : α} (xs : List α)
    (h : p ∉ region a) : countContaining region p (a :: xs) = countContaining region p xs :=
  List.countP_cons_of_neg (by simpa using h)

theorem countContaining_append (region : α → Set P) (p : P) (xs ys : List α) :
    countContaining region p (xs ++ ys) =
      countContaining region p xs + countContaining region p ys :=
  List.countP_append

theorem countContaining_eq_zero {region : α → Set P} {p : P} {xs : List α}
    (h : ∀ a ∈ xs, p ∉ region a) : countContaining region p xs = 0 :=
  List.countP_eq_zero.mpr (by simpa using h)

/-- Below a root that contains the point, whatever the fold starts from, only the depth of
the innermost region that contains it counts. -/
theorem mem_parityFold_preorder {region : α → Set P} {p : P} (f : Forest α)
    (h : f.Laminar region) (depth : ℕ) (acc : Set P) (hroot : ∃ r ∈ f.roots, p ∈ region r) :
    p ∈ parityFold region acc (f.preorder depth) ↔
      Odd (depth + countContaining region p f.members) := by
  induction f generalizing depth acc with
  | nil => simp [Forest.roots] at hroot
  | cons root children siblings ihc ihs =>
    obtain ⟨hsub, hdisj, hc, hs⟩ := h
    rw [Forest.preorder, parityFold_cons, parityFold_append, Forest.members]
    have hlist : ∀ {g : Forest α} (d : ℕ), (∀ b ∈ g.members, p ∉ region b) →
        ∀ x ∈ g.preorder d, p ∉ region x.1 :=
      fun d hg x hx => hg x.1 (Forest.mem_members_of_mem_preorder hx)
    by_cases hp : p ∈ region root
    · -- the siblings' regions miss the point
      have hsib := hs.notMem_of_roots fun r hr hpr =>
        Set.disjoint_left.mp (hdisj r hr) hp hpr
      rw [mem_parityFold_of_notMem _ (hlist depth hsib), countContaining_cons_of_mem _ hp,
        countContaining_append, countContaining_eq_zero hsib]
      by_cases hch : ∃ r ∈ children.roots, p ∈ region r
      · rw [ihc hc (depth + 1) _ hch]
        have hsum : depth + 1 + countContaining region p children.members =
            depth + (countContaining region p children.members + 0 + 1) := by omega
        rw [hsum]
      · have hno := hc.notMem_of_roots fun r hr hpr => hch ⟨r, hr, hpr⟩
        rw [mem_parityFold_of_notMem _ (hlist (depth + 1) hno), countContaining_eq_zero hno,
          mem_parityStep]
        simp only [hp, or_true, not_true_eq_false, and_false, Nat.zero_add, Nat.odd_add_one,
          Nat.not_odd_iff_even, Nat.even_iff]
        split <;> simp_all
    · have hno := hc.notMem_of_roots fun r hr hpr => hp (hsub r hr hpr)
      obtain ⟨r, hr, hpr⟩ := hroot
      have hrs : ∃ r ∈ siblings.roots, p ∈ region r := by
        rw [Forest.roots, List.mem_cons] at hr
        rcases hr with rfl | hr
        · exact absurd hpr hp
        · exact ⟨r, hr, hpr⟩
      rw [ihs hs depth _ hrs, countContaining_cons_of_notMem _ hp, countContaining_append,
        countContaining_eq_zero hno, Nat.zero_add]

/-- The fold over a laminar forest leaves the points in an odd number of regions. -/
theorem parityFold_preorder {region : α → Set P} {f : Forest α} (h : f.Laminar region) :
    parityFold region ∅ (f.preorder 0) = {p | Odd (countContaining region p f.members)} := by
  ext p
  by_cases hroot : ∃ r ∈ f.roots, p ∈ region r
  · rw [mem_parityFold_preorder f h 0 ∅ hroot, Nat.zero_add]
    rfl
  · have hno := h.notMem_of_roots fun r hr hpr => hroot ⟨r, hr, hpr⟩
    rw [mem_parityFold_of_notMem _ fun x hx => hno x.1 (Forest.mem_members_of_mem_preorder hx)]
    simp [countContaining_eq_zero hno]

/-- A family of shells, each at depth 0 and followed by its holes at depth 1. -/
def shellsWithHoles (family : List (α × List α)) : List (α × ℕ) :=
  family.flatMap fun q => (q.1, 0) :: q.2.map fun hole => (hole, 1)

/-- The points in a shell and in none of its own holes. -/
def Covers (region : α → Set P) (q : α × List α) (p : P) : Prop :=
  p ∈ region q.1 ∧ ∀ hole ∈ q.2, p ∉ region hole

theorem mem_parityFold_holes {region : α → Set P} {p : P} (holes : List α) (acc : Set P) :
    p ∈ parityFold region acc (holes.map fun hole => (hole, 1)) ↔
      p ∈ acc ∧ ∀ hole ∈ holes, p ∉ region hole := by
  induction holes generalizing acc with
  | nil => simp
  | cons hole holes ih =>
    rw [List.map_cons, parityFold_cons, ih, mem_parityStep]
    simp [and_assoc]

/-- A point is left exactly if some member of the family covers it and no hole of a later
member removes it. -/
theorem mem_parityFold_shellsWithHoles {region : α → Set P} {p : P}
    (family : List (α × List α)) :
    p ∈ parityFold region ∅ (shellsWithHoles family) ↔
      ∃ (i : ℕ) (q : α × List α), family[i]? = some q ∧ Covers region q p ∧
        ∀ (j : ℕ) (q' : α × List α), i < j → family[j]? = some q' →
          ∀ hole ∈ q'.2, p ∉ region hole := by
  induction family using List.reverseRecOn with
  | nil => simp [shellsWithHoles]
  | append_singleton family last ih =>
    have hsplit : shellsWithHoles (family ++ [last]) =
        shellsWithHoles family ++ (last.1, 0) :: last.2.map fun hole => (hole, 1) := by
      simp [shellsWithHoles]
    rw [hsplit, parityFold_append, parityFold_cons, mem_parityFold_holes, mem_parityStep,
      if_pos rfl, ih]
    have hlast : (family ++ [last])[family.length]? = some last := by simp
    constructor
    · rintro ⟨⟨i, q, hi, hq, hlater⟩ | hshell, hholes⟩
      · have hlt := (List.getElem?_eq_some_iff.mp hi).1
        refine ⟨i, q, by rw [List.getElem?_append_left hlt, hi], hq, ?_⟩
        intro j q' hij hj
        by_cases hjl : j < family.length
        · exact hlater j q' hij (by rwa [List.getElem?_append_left hjl] at hj)
        · have hjlt := (List.getElem?_eq_some_iff.mp hj).1
          rw [List.length_append, List.length_singleton] at hjlt
          have hjeq : j = family.length := by omega
          rw [hjeq, hlast, Option.some.injEq] at hj
          exact hj ▸ hholes
      · refine ⟨family.length, last, hlast, ⟨hshell, hholes⟩, ?_⟩
        intro j q' hij hj
        have hjlt := (List.getElem?_eq_some_iff.mp hj).1
        rw [List.length_append, List.length_singleton] at hjlt
        omega
    · rintro ⟨i, q, hi, hq, hlater⟩
      by_cases hil : i < family.length
      · rw [List.getElem?_append_left hil] at hi
        refine ⟨Or.inl ⟨i, q, hi, hq, fun j q' hij hj => ?_⟩,
          hlater family.length last hil hlast⟩
        have hjl := (List.getElem?_eq_some_iff.mp hj).1
        exact hlater j q' hij (by rw [List.getElem?_append_left hjl, hj])
      · have hilt := (List.getElem?_eq_some_iff.mp hi).1
        rw [List.length_append, List.length_singleton] at hilt
        have hieq : i = family.length := by omega
        rw [hieq, hlast, Option.some.injEq] at hi
        subst hi
        exact ⟨Or.inr hq.1, hq.2⟩

/-- The fold leaves the union of the family's members exactly when every point that a
hole takes from an earlier member is covered again by a later one. -/
theorem parityFold_shellsWithHoles_eq_iff {region : α → Set P} (family : List (α × List α)) :
    parityFold region ∅ (shellsWithHoles family) = {p | ∃ q ∈ family, Covers region q p} ↔
      ∀ (p : P) (i j : ℕ) (q q' : α × List α), i < j → family[i]? = some q →
        family[j]? = some q' → Covers region q p → (∃ hole ∈ q'.2, p ∈ region hole) →
        ∃ (k : ℕ) (r : α × List α), j < k ∧ family[k]? = some r ∧ Covers region r p := by
  rw [Set.ext_iff]
  constructor
  · rintro h p i j q q' hij hi hj hq ⟨hole, hhole, hp⟩
    obtain ⟨k, r, hk, hr, hlater⟩ := (mem_parityFold_shellsWithHoles family).mp
      ((h p).mpr ⟨q, List.mem_of_getElem? hi, hq⟩)
    refine ⟨k, r, ?_, hk, hr⟩
    rcases lt_trichotomy k j with hkj | hkj | hkj
    · exact absurd hp (hlater j q' hkj hj hole hhole)
    · rw [hkj, hj, Option.some.injEq] at hk
      exact absurd hp (hr.2 hole (hk ▸ hhole))
    · exact hkj
  · intro h p
    rw [mem_parityFold_shellsWithHoles]
    constructor
    · rintro ⟨i, q, hi, hq, -⟩
      exact ⟨q, List.mem_of_getElem? hi, hq⟩
    · rintro ⟨q, hq, hqp⟩
      obtain ⟨i, hi⟩ := List.mem_iff_getElem?.mp hq
      let CoversAt : ℕ → Prop := fun j => ∃ r, family[j]? = some r ∧ Covers region r p
      have hbound : ∀ j, CoversAt j → j ≤ family.length :=
        fun j ⟨r, hj, _⟩ => (List.getElem?_eq_some_iff.mp hj).1.le
      -- the last member that covers the point
      obtain ⟨k, ⟨r, hk, hr⟩, hmax⟩ : ∃ k, CoversAt k ∧ ∀ j, CoversAt j → j ≤ k := by
        classical
        have hi' : CoversAt i := ⟨q, hi, hqp⟩
        exact ⟨Nat.findGreatest CoversAt family.length, Nat.findGreatest_spec (hbound i hi') hi',
          fun j hj => Nat.le_findGreatest (hbound j hj) hj⟩
      refine ⟨k, r, hk, hr, fun j q' hkj hj hole hhole hp => ?_⟩
      obtain ⟨k', r', hjk, hk', hr'⟩ := h p k j r q' hkj hk hj hr ⟨hole, hhole, hp⟩
      have := hmax k' ⟨r', hk', hr'⟩
      omega

end PreorderForest
