import Mathlib.Data.List.Forall2

/-!
# Lists that visit others in order

A list visits another one if it comes by all of its elements in their order, perhaps with
detours before each, and ends when it has come by the last.
-/
namespace ListVisits

variable {α β γ : Type} {R : α → β → Prop}

inductive Visits (R : α → β → Prop) : List α → List β → Prop where
  | nil : Visits R [] []
  | cons {a : α} {b : β} {as : List α} {bs : List β} (detour : List β) :
      R a b → Visits R as bs → Visits R (a :: as) (detour ++ b :: bs)

theorem sublistForall₂_append_left {as : List α} {bs : List β}
    (h : List.SublistForall₂ R as bs) (before : List β) :
    List.SublistForall₂ R as (before ++ bs) := by
  obtain ⟨visited, hvisited, hsub⟩ := List.sublistForall₂_iff.mp h
  exact List.sublistForall₂_iff.mpr
    ⟨visited, hvisited, hsub.trans (List.sublist_append_right before bs)⟩

theorem sublistForall₂_append_right {as : List α} {bs : List β}
    (h : List.SublistForall₂ R as bs) (after : List β) :
    List.SublistForall₂ R as (bs ++ after) := by
  obtain ⟨visited, hvisited, hsub⟩ := List.sublistForall₂_iff.mp h
  exact List.sublistForall₂_iff.mpr
    ⟨visited, hvisited, hsub.trans (List.sublist_append_left bs after)⟩

theorem sublistForall₂_map {S : α → γ → Prop} {f : β → γ} (hS : ∀ a b, R a b → S a (f b))
    {as : List α} {bs : List β} (h : List.SublistForall₂ R as bs) :
    List.SublistForall₂ S as (bs.map f) := by
  obtain ⟨visited, hvisited, hsub⟩ := List.sublistForall₂_iff.mp h
  exact List.sublistForall₂_map_right_iff.mpr
    (List.sublistForall₂_iff.mpr ⟨visited, hvisited.imp hS, hsub⟩)

namespace Visits

theorem ne_nil {a : α} {as : List α} {bs : List β} (h : Visits R (a :: as) bs) : bs ≠ [] := by
  cases h with
  | cons detour hab h => exact List.append_ne_nil_of_right_ne_nil detour (List.cons_ne_nil _ _)

/-- The last element of a list is only come by at the end. -/
theorem dropLast {as : List α} {bs : List β} (h : Visits R as bs) :
    List.SublistForall₂ R as.dropLast bs.dropLast := by
  induction h with
  | nil => exact .nil
  | @cons a b as bs detour hab h ih =>
    rw [List.dropLast_append_of_ne_nil (List.cons_ne_nil b bs)]
    cases as with
    | nil => exact .nil
    | cons a' as =>
      rw [List.dropLast_cons_of_ne_nil h.ne_nil]
      exact sublistForall₂_append_left (.cons hab ih) detour

theorem exists_mem {as : List α} {bs : List β} (h : Visits R as bs) {a : α} (ha : a ∈ as) :
    ∃ b ∈ bs, R a b := by
  induction h with
  | nil => exact absurd ha List.not_mem_nil
  | @cons a' b as bs detour hab _ ih =>
    rcases List.mem_cons.mp ha with rfl | ha
    · exact ⟨b, List.mem_append_right detour List.mem_cons_self, hab⟩
    · obtain ⟨b', hb', hab'⟩ := ih ha
      exact ⟨b', List.mem_append_right detour (List.mem_cons_of_mem b hb'), hab'⟩

theorem exists_concat {as : List α} {a : α} {bs : List β} (h : Visits R (as ++ [a]) bs) :
    ∃ before b, bs = before ++ [b] ∧ R a b := by
  induction as generalizing bs with
  | nil =>
    cases h with
    | @cons _ b _ _ detour hab h =>
      cases h with
      | nil => exact ⟨detour, b, rfl, hab⟩
  | cons a' as ih =>
    cases h with
    | @cons _ b _ bs detour _ h =>
      obtain ⟨before, b', rfl, hab⟩ := ih h
      exact ⟨detour ++ b :: before, b', by rw [List.append_assoc, List.cons_append], hab⟩

theorem length_le {as : List α} {bs : List β} (h : Visits R as bs) : as.length ≤ bs.length := by
  induction h with
  | nil => exact Nat.le_refl 0
  | cons detour hab _ ih =>
    rw [List.length_append, List.length_cons, List.length_cons]
    omega

theorem map (f : α → β) : (as : List α) → Visits (fun a b => b = f a) as (as.map f)
  | [] => .nil
  | _ :: as => .cons [] rfl (map f as)

end Visits

end ListVisits
