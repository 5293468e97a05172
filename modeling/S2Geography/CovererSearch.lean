import S2Geography.RegionCoverer
import Mathlib.Logic.Hydra
import Mathlib.Data.List.MinMax

/-!
# The search of the region coverer

A candidate either goes to the result, or is dropped since nothing of the region is left in
it, or enters the queue with children that are smaller. From this every turn of the main loop
keeps the result inside the levels in use, keeps the region covered, and makes the queue
smaller as a multiset of ranks.
-/
namespace S2Geography

open BufferCells
open S2CellId hiding none

/-- What `S2RegionCoverer` requires of its options. -/
structure BufferCells.CovererOptions.Valid (o : CovererOptions) : Prop where
  min_nonneg : 0 ≤ o.minLevel
  min_le_max : o.minLevel ≤ o.maxLevel
  max_le : o.maxLevel ≤ kMaxLevel
  mod_pos : 1 ≤ o.levelMod
  mod_le : o.levelMod ≤ 3

/-- What the methods of a region promise of the points in it. Every point is in one leaf. -/
structure S2Region.Describes {P : Type} (leaf : P → S2CellId) (A : Set P)
    (region : S2Region) : Prop where
  contains : ∀ c, c.isValid = true → region.contains c = true →
    ∀ p, c.contains (leaf p) = true → p ∈ A
  mayIntersect : ∀ c, c.isValid = true → region.mayIntersect c = false →
    ∀ p ∈ A, c.contains (leaf p) = false
  bound_valid : ValidIds region.getCellUnionBound
  bound_covers : ∀ p ∈ A, ∃ c ∈ region.getCellUnionBound, c.contains (leaf p) = true

namespace S2RegionCoverer

/-- The levels of the cells of a covering. -/
def InUse (o : CovererOptions) (level : ℤ) : Prop :=
  o.minLevel ≤ level ∧ level ≤ o.maxLevel ∧ (level - o.minLevel) % o.levelMod = 0

section Candidates

variable {o : CovererOptions} {interior : Bool} {region : S2Region} {candidate child : Candidate}
  {cell c : S2CellId}

theorem newCandidate_spec (h : newCandidate o interior region cell = some candidate) :
    candidate.cell = cell ∧
      (candidate.isTerminal = true → o.minLevel ≤ cell.level ∧
        (interior = true → region.contains cell = true)) ∧
      (candidate.isTerminal = false → o.minLevel ≤ cell.level →
        cell.level + o.levelMod ≤ o.maxLevel) := by
  rw [newCandidate] at h
  split at h
  · cases h
  · split at h
    · rename_i hlevel
      split at h
      · split at h
        · rename_i hcontains
          cases h
          exact ⟨rfl, fun _ => ⟨hlevel, fun _ => hcontains⟩, fun h => Bool.noConfusion h⟩
        · split at h
          · cases h
          · rename_i hdeep
            cases h
            exact ⟨rfl, fun h => Bool.noConfusion h, fun _ _ => not_lt.mp hdeep⟩
      · rename_i hexterior
        cases h
        refine ⟨rfl, fun _ => ⟨hlevel, fun h => absurd h hexterior⟩, ?_⟩
        intro hterminal _
        rw [Bool.or_eq_false_iff, decide_eq_false_iff_not] at hterminal
        exact not_lt.mp hterminal.1
    · rename_i hlevel
      cases h
      exact ⟨rfl, fun h => Bool.noConfusion h, fun _ h => absurd h hlevel⟩

/-- For a covering from outside only cells that miss the region are no candidates. -/
theorem mayIntersect_of_newCandidate (h : newCandidate o false region cell = none) :
    region.mayIntersect cell = false := by
  rw [newCandidate] at h
  split at h
  · rename_i hmay
    rwa [Bool.not_eq_true'] at hmay
  · split at h <;> simp at h

/-- A candidate as `NewCandidate` makes it, of a level that the search comes by. -/
structure Candidate.Good (o : CovererOptions) (interior : Bool) (region : S2Region)
    (candidate : Candidate) : Prop where
  valid : candidate.cell.isValid = true
  level : candidate.cell.level < o.minLevel ∨ InUse o candidate.cell.level
  fresh : newCandidate o interior region candidate.cell = some candidate

theorem mem_expandChildren {n : ℕ} (hc : c.isValid = true) (hn : c.level + n ≤ kMaxLevel)
    (hchild : child ∈ expandChildren o interior region n c) : child.cell.isValid = true ∧
      child.cell.level = c.level + n ∧ c.contains child.cell = true ∧
      newCandidate o interior region child.cell = some child := by
  induction n generalizing c with
  | zero => exact absurd hchild List.not_mem_nil
  | succ n ih =>
    obtain ⟨i, hi, hchild⟩ := List.mem_flatMap.mp hchild
    have hleaf : c.isLeaf = false := by
      rw [Bool.eq_false_iff]
      intro hleaf
      have hlevel := (isValid_of_leaf hc hleaf (contains_self hc)).2
      omega
    obtain ⟨hd, hdlevel, hcd⟩ := child_spec hc hleaf (List.mem_range.mp hi)
    split at hchild
    · split at hchild
      · obtain ⟨hv, hlevel, hcontains, hfresh⟩ := ih hd (by omega) hchild
        refine ⟨hv, by omega, ?_, hfresh⟩
        exact contains_trans (ne_none_of_isValid hc) (ne_none_of_isValid hd)
          (ne_none_of_isValid hv) hcd hcontains
      · exact absurd hchild List.not_mem_nil
    · rename_i hzero
      rw [Option.mem_toList] at hchild
      have hcell := (newCandidate_spec hchild).1
      rw [hcell]
      exact ⟨hd, by omega, hcd, hcell ▸ hchild⟩

/-- One of the quarters of a cell holds a leaf of it. -/
theorem exists_child_contains {l : S2CellId} (hc : c.isValid = true) (hleaf : c.isLeaf = false)
    (hl : l.isLeaf = true) (hcl : c.contains l = true) :
    ∃ i < 4, (c.child i).contains l = true := by
  have hmem : l ∈ leafCells [c] := ⟨hl, c, List.mem_singleton_self c, hcl⟩
  rw [← leafCells_children hc hleaf] at hmem
  obtain ⟨-, d, hd, hdl⟩ := hmem
  simp only [List.mem_cons, List.not_mem_nil, or_false] at hd
  rcases hd with h | h | h | h
  · exact ⟨0, by omega, h ▸ hdl⟩
  · exact ⟨1, by omega, h ▸ hdl⟩
  · exact ⟨2, by omega, h ▸ hdl⟩
  · exact ⟨3, by omega, h ▸ hdl⟩

variable {P : Type} {leaf : P → S2CellId} {A : Set P} {p : P}

/-- The children cover what their parent holds of the region. -/
theorem expandChildren_covers (hregion : region.Describes leaf A)
    (hleaf : ∀ p, (leaf p).isLeaf = true) {n : ℕ} (hpos : 0 < n) (hc : c.isValid = true)
    (hn : c.level + n ≤ kMaxLevel) (hp : p ∈ A) (hcp : c.contains (leaf p) = true) :
    ∃ child ∈ expandChildren o false region n c, child.cell.contains (leaf p) = true := by
  induction n generalizing c with
  | zero => omega
  | succ n ih =>
    have hnleaf : c.isLeaf = false := by
      rw [Bool.eq_false_iff]
      intro h
      have hlevel := (isValid_of_leaf hc h (contains_self hc)).2
      omega
    obtain ⟨i, hi, hip⟩ := exists_child_contains hc hnleaf (hleaf p) hcp
    obtain ⟨hd, hdlevel, -⟩ := child_spec hc hnleaf hi
    have hmay : region.mayIntersect (c.child i) = true := by
      rw [← Bool.not_eq_false]
      intro hmiss
      rw [hregion.mayIntersect _ hd hmiss p hp] at hip
      exact Bool.noConfusion hip
    simp only [expandChildren, List.mem_flatMap, List.mem_range]
    by_cases hdeep : n > 0
    · obtain ⟨child, hchild, hcontains⟩ := ih hdeep hd (by omega) hip
      refine ⟨child, ⟨i, hi, ?_⟩, hcontains⟩
      rwa [if_pos hdeep, if_pos hmay]
    · cases hnew : newCandidate o false region (c.child i) with
      | none =>
        rw [mayIntersect_of_newCandidate hnew] at hmay
        exact Bool.noConfusion hmay
      | some child =>
        refine ⟨child, ⟨i, hi, ?_⟩, ?_⟩
        · rw [if_neg hdeep, Option.mem_toList]
          exact hnew
        · rw [(newCandidate_spec hnew).1]
          exact hip

end Candidates

section Entries

variable {P : Type} {leaf : P → S2CellId} {A : Set P} {o : CovererOptions} {interior : Bool}
  {region : S2Region} {candidate : Candidate} {c : S2CellId}

/-- An entry whose children are smaller and cover what it holds of the region. -/
structure QueueEntry.Good (leaf : P → S2CellId) (A : Set P) (o : CovererOptions)
    (interior : Bool) (region : S2Region) (e : QueueEntry) : Prop where
  valid : e.cell.isValid = true
  level : e.cell.level < o.minLevel ∨ InUse o e.cell.level
  children : ∀ child ∈ e.children, child.Good o interior region ∧
    e.cell.level < child.cell.level
  covers : interior = false → ∀ p ∈ A, e.cell.contains (leaf p) = true →
    ∃ child ∈ e.children, child.cell.contains (leaf p) = true

/-- Below a cell of such a level the next level is at most the lowest one in use, or a step
further. -/
theorem level_add (ho : o.Valid) (hlevel : c.level < o.minLevel ∨ InUse o c.level)
    (hroom : o.minLevel ≤ c.level → c.level + o.levelMod ≤ o.maxLevel) {n : ℕ}
    (hn : n = (if c.level < o.minLevel then 1 else o.levelMod).toNat) :
    0 < n ∧ c.level + n ≤ o.maxLevel ∧
      (c.level + n < o.minLevel ∨ InUse o (c.level + n)) := by
  obtain ⟨hmin, hle, -, hpos, -⟩ := ho
  by_cases hlow : c.level < o.minLevel
  · rw [if_pos hlow] at hn
    have hone : (n : ℤ) = 1 := by omega
    refine ⟨by omega, by omega, ?_⟩
    by_cases hnext : c.level + n < o.minLevel
    · exact Or.inl hnext
    · have heq : c.level + n = o.minLevel := by omega
      rw [heq, InUse, Int.sub_self]
      exact Or.inr ⟨le_rfl, hle, Int.zero_emod _⟩
  · rw [if_neg hlow] at hn
    have hmod : (n : ℤ) = o.levelMod := by omega
    obtain ⟨-, -, hstep⟩ := hlevel.resolve_left hlow
    have hdeep := hroom (not_lt.mp hlow)
    rw [hmod]
    refine ⟨by omega, hdeep, Or.inr ⟨by omega, hdeep, ?_⟩⟩
    rw [show c.level + o.levelMod - o.minLevel = c.level - o.minLevel + o.levelMod by omega,
      Int.add_emod_right, hstep]

/-- All that can become of a candidate. -/
theorem addCandidate_cases (ho : o.Valid) (hregion : region.Describes leaf A)
    (hleaf : ∀ p, (leaf p).isLeaf = true) (hgood : candidate.Good o interior region)
    (s : CovererState) :
    (addCandidate o interior region s candidate =
        { s with result := s.result ++ [candidate.cell] } ∧ InUse o candidate.cell.level ∧
      (interior = true → region.contains candidate.cell = true)) ∨
    (addCandidate o interior region s candidate = s ∧
      (interior = false → ∀ p ∈ A, candidate.cell.contains (leaf p) = false)) ∨
    ∃ e : QueueEntry, e.cell = candidate.cell ∧ e.Good leaf A o interior region ∧
      addCandidate o interior region s candidate = { s with pq := e :: s.pq } := by
  obtain ⟨hvalid, hlevel, hfresh⟩ := hgood
  obtain ⟨-, hterminal, hroom⟩ := newCandidate_spec hfresh
  by_cases ht : candidate.isTerminal = true
  · obtain ⟨hmin, hcontains⟩ := hterminal ht
    rw [addCandidate, if_pos ht]
    exact Or.inl ⟨rfl, hlevel.resolve_left (not_lt.mpr hmin), hcontains⟩
  · obtain ⟨n, hn⟩ : ∃ n : ℕ, n =
      (if candidate.cell.level < o.minLevel then 1 else o.levelMod).toNat := ⟨_, rfl⟩
    obtain ⟨hpos, hdeep, hnext⟩ := level_add ho hlevel (hroom (Bool.eq_false_iff.mpr ht)) hn
    have hmax := ho.max_le
    have hchildren : ∀ child ∈ expandChildren o interior region n candidate.cell,
        child.Good o interior region ∧ candidate.cell.level < child.cell.level := by
      intro child hchild
      obtain ⟨hv, hl, -, hnew⟩ := mem_expandChildren hvalid (by omega) hchild
      exact ⟨⟨hv, hl ▸ hnext, hnew⟩, by omega⟩
    have hcovers : interior = false → ∀ p ∈ A, candidate.cell.contains (leaf p) = true →
        ∃ child ∈ expandChildren o interior region n candidate.cell,
          child.cell.contains (leaf p) = true := by
      intro hexterior p hp hcp
      subst hexterior
      exact expandChildren_covers hregion hleaf hpos hvalid (by omega) hp hcp
    simp only [addCandidate, if_neg ht, ← hn]
    generalize expandChildren o interior region n candidate.cell = children at *
    by_cases hnone : children.length = 0
    · -- nothing of the region is left
      rw [if_pos hnone]
      refine Or.inr (Or.inl ⟨rfl, ?_⟩)
      intro hexterior p hp
      rw [Bool.eq_false_iff]
      intro hcp
      obtain ⟨child, hchild, -⟩ := hcovers hexterior p hp hcp
      rw [List.length_eq_zero_iff.mp hnone] at hchild
      exact List.not_mem_nil hchild
    · rw [if_neg hnone]
      split
      · -- the parent stands for its children
        rename_i hall
        rw [Bool.and_eq_true, Bool.and_eq_true, Bool.not_eq_true', decide_eq_true_eq] at hall
        obtain ⟨⟨hexterior, -⟩, hmin⟩ := hall
        refine Or.inl ⟨rfl, hlevel.resolve_left (not_lt.mpr hmin), ?_⟩
        intro hinterior
        rw [hinterior] at hexterior
        exact Bool.noConfusion hexterior
      · refine Or.inr (Or.inr ⟨⟨priorityOf o candidate.cell children.length
          (children.countP Candidate.isTerminal), candidate.cell, children⟩, rfl, ?_, rfl⟩)
        exact ⟨hvalid, hlevel, hchildren, hcovers⟩

end Entries

/-! ### Invariants -/

section Invariants

variable {P : Type} {leaf : P → S2CellId} {A : Set P} {o : CovererOptions} {interior : Bool}
  {region : S2Region}

/-- What holds in every state of the search. -/
structure SearchInvariant (leaf : P → S2CellId) (A : Set P) (o : CovererOptions)
    (interior : Bool) (region : S2Region) (s : CovererState) : Prop where
  valid : ValidIds s.result
  inUse : ∀ c ∈ s.result, InUse o c.level
  contains : interior = true → ∀ c ∈ s.result, region.contains c = true
  entries : ∀ e ∈ s.pq, e.Good leaf A o interior region

/-- The point is in a cell of the result or of the queue. -/
def Reaches (leaf : P → S2CellId) (s : CovererState) (p : P) : Prop :=
  (∃ c ∈ s.result, c.contains (leaf p) = true) ∨ ∃ e ∈ s.pq, e.cell.contains (leaf p) = true

variable {s s' : CovererState} {candidate : Candidate} {children : List Candidate} {p : P}

theorem SearchInvariant.push (h : SearchInvariant leaf A o interior region s) {c : S2CellId}
    (hc : c.isValid = true) (hlevel : InUse o c.level)
    (hcontains : interior = true → region.contains c = true) :
    SearchInvariant leaf A o interior region { s with result := s.result ++ [c] } := by
  obtain ⟨hvalid, hinUse, hinside, hentries⟩ := h
  constructor
  · intro d hd
    rcases List.mem_append.mp hd with hd | hd
    · exact hvalid d hd
    · rw [List.mem_singleton.mp hd]
      exact hc
  · intro d hd
    rcases List.mem_append.mp hd with hd | hd
    · exact hinUse d hd
    · rw [List.mem_singleton.mp hd]
      exact hlevel
  · intro hinterior d hd
    rcases List.mem_append.mp hd with hd | hd
    · exact hinside hinterior d hd
    · rw [List.mem_singleton.mp hd]
      exact hcontains hinterior
  · exact hentries

theorem addCandidate_invariant (ho : o.Valid) (hregion : region.Describes leaf A)
    (hleaf : ∀ p, (leaf p).isLeaf = true) (hgood : candidate.Good o interior region)
    (h : SearchInvariant leaf A o interior region s) :
    SearchInvariant leaf A o interior region (addCandidate o interior region s candidate) := by
  rcases addCandidate_cases ho hregion hleaf hgood s with hpush | hdrop | hqueue
  · obtain ⟨heq, hlevel, hcontains⟩ := hpush
    rw [heq]
    exact h.push hgood.valid hlevel hcontains
  · rw [hdrop.1]
    exact h
  · obtain ⟨e, -, he, heq⟩ := hqueue
    rw [heq]
    exact ⟨h.valid, h.inUse, h.contains, List.forall_mem_cons.mpr ⟨he, h.entries⟩⟩

/-- Adding a candidate loses no point, and those of the region in its cell are reached. -/
theorem addCandidate_reaches (ho : o.Valid) (hregion : region.Describes leaf A)
    (hleaf : ∀ p, (leaf p).isLeaf = true) (hgood : candidate.Good o false region) (hp : p ∈ A)
    (h : Reaches leaf s p ∨ candidate.cell.contains (leaf p) = true) :
    Reaches leaf (addCandidate o false region s candidate) p := by
  rcases addCandidate_cases ho hregion hleaf hgood s with hpush | hdrop | hqueue
  · rw [hpush.1]
    rcases h with (⟨c, hc, hcp⟩ | hentry) | hcp
    · exact Or.inl ⟨c, List.mem_append_left _ hc, hcp⟩
    · exact Or.inr hentry
    · exact Or.inl ⟨candidate.cell, List.mem_append_right _ (List.mem_singleton_self _), hcp⟩
  · obtain ⟨heq, hmiss⟩ := hdrop
    rw [heq]
    rcases h with h | hcp
    · exact h
    · rw [hmiss rfl p hp] at hcp
      exact Bool.noConfusion hcp
  · obtain ⟨e, hcell, -, heq⟩ := hqueue
    rw [heq]
    rcases h with (hresult | ⟨e', he', hep⟩) | hcp
    · exact Or.inl hresult
    · exact Or.inr ⟨e', List.mem_cons_of_mem _ he', hep⟩
    · exact Or.inr ⟨e, List.mem_cons_self .., by rw [hcell, hcp]⟩

theorem addChildren_invariant (ho : o.Valid) (hregion : region.Describes leaf A)
    (hleaf : ∀ p, (leaf p).isLeaf = true)
    (hgood : ∀ child ∈ children, child.Good o interior region)
    (h : SearchInvariant leaf A o interior region s) :
    SearchInvariant leaf A o interior region (addChildren o interior region s children) := by
  induction children generalizing s with
  | nil => exact h
  | cons child children ih =>
    obtain ⟨hchild, hrest⟩ := List.forall_mem_cons.mp hgood
    rw [addChildren, List.foldl_cons]
    apply ih hrest
    split
    · exact h
    · exact addCandidate_invariant ho hregion hleaf hchild h

theorem addChildren_reaches (ho : o.Valid) (hregion : region.Describes leaf A)
    (hleaf : ∀ p, (leaf p).isLeaf = true)
    (hgood : ∀ child ∈ children, child.Good o false region) (hp : p ∈ A)
    (h : Reaches leaf s p ∨ ∃ child ∈ children, child.cell.contains (leaf p) = true) :
    Reaches leaf (addChildren o false region s children) p := by
  induction children generalizing s with
  | nil =>
    rcases h with h | ⟨child, hchild, -⟩
    · exact h
    · exact absurd hchild List.not_mem_nil
  | cons child children ih =>
    obtain ⟨hchild, hrest⟩ := List.forall_mem_cons.mp hgood
    rw [addChildren, List.foldl_cons]
    apply ih hrest
    rw [if_neg (by simp)]
    rcases h with h | ⟨d, hd, hdp⟩
    · exact Or.inl (addCandidate_reaches ho hregion hleaf hchild hp (Or.inl h))
    · rcases List.mem_cons.mp hd with heq | hd
      · rw [heq] at hdp
        exact Or.inl (addCandidate_reaches ho hregion hleaf hchild hp (Or.inr hdp))
      · exact Or.inr ⟨d, hd, hdp⟩

/-- All that a step can do: it pops an entry, and adds its children or the entry itself. -/
theorem Step.exists_entry (hstep : Step o interior region s s') :
    ∃ e rest, e ∈ s.pq ∧ s.pq.Perm (e :: rest) ∧
      (s' = addChildren o interior region { s with pq := rest } e.children ∧
        (interior = true ∨ e.cell.level < o.minLevel ∨ e.children.length = 1 ∨
          s.result.length + rest.length + e.children.length ≤ o.maxCellsSize) ∨
      s' = ⟨s.result ++ [e.cell], rest⟩ ∧ interior = false ∧ o.minLevel ≤ e.cell.level) := by
  cases hstep with
  | @pop before after e continues top highest =>
    refine ⟨e, before ++ after, ?_, ?_, ?_⟩
    · rw [top]
      exact List.mem_append_right _ (List.mem_cons_self ..)
    · rw [top]
      exact List.perm_middle
    · rw [processEntry]
      split
      · rename_i hexpand
        simp only [Bool.or_eq_true, decide_eq_true_eq, beq_iff_eq, or_assoc] at hexpand
        exact Or.inl ⟨rfl, hexpand⟩
      · rename_i hfull
        simp only [Bool.or_eq_true, decide_eq_true_eq, beq_iff_eq, or_assoc, not_or, not_lt,
          Bool.not_eq_true] at hfull
        exact Or.inr ⟨rfl, hfull.1, hfull.2.1⟩

theorem SearchInvariant.drop (h : SearchInvariant leaf A o interior region s)
    (rest : List QueueEntry) (hrest : ∀ e ∈ rest, e ∈ s.pq) :
    SearchInvariant leaf A o interior region { s with pq := rest } :=
  ⟨h.valid, h.inUse, h.contains, fun e he => h.entries e (hrest e he)⟩

theorem Step.invariant (ho : o.Valid) (hregion : region.Describes leaf A)
    (hleaf : ∀ p, (leaf p).isLeaf = true) (hstep : Step o interior region s s')
    (h : SearchInvariant leaf A o interior region s) :
    SearchInvariant leaf A o interior region s' := by
  obtain ⟨e, rest, he, hperm, ⟨heq, -⟩ | ⟨heq, hexterior, hlevel⟩⟩ := hstep.exists_entry
  · have hgood := h.entries e he
    have hdrop := h.drop rest fun e' he' => hperm.mem_iff.mpr (List.mem_cons_of_mem _ he')
    rw [heq]
    exact addChildren_invariant ho hregion hleaf (fun child hchild =>
      (hgood.children child hchild).1) hdrop
  · have hgood := h.entries e he
    have hdrop := h.drop rest fun e' he' => hperm.mem_iff.mpr (List.mem_cons_of_mem _ he')
    rw [heq]
    apply hdrop.push hgood.valid (hgood.level.resolve_left (not_lt.mpr hlevel))
    intro hinterior
    rw [hexterior] at hinterior
    exact Bool.noConfusion hinterior

/-- No step loses a point of the region. -/
theorem Step.reaches (ho : o.Valid) (hregion : region.Describes leaf A)
    (hleaf : ∀ p, (leaf p).isLeaf = true) (hstep : Step o false region s s')
    (h : SearchInvariant leaf A o false region s) (hp : p ∈ A) (hreach : Reaches leaf s p) :
    Reaches leaf s' p := by
  obtain ⟨e, rest, he, hperm, hcases⟩ := hstep.exists_entry
  have hgood := h.entries e he
  -- the point is still reached, or it is in the popped cell
  have hsplit : Reaches leaf { s with pq := rest } p ∨ e.cell.contains (leaf p) = true := by
    rcases hreach with hresult | ⟨e', he', hep⟩
    · exact Or.inl (Or.inl hresult)
    · rcases List.mem_cons.mp (hperm.mem_iff.mp he') with heq | hin
      · exact Or.inr (heq ▸ hep)
      · exact Or.inl (Or.inr ⟨e', hin, hep⟩)
  rcases hcases with ⟨heq, -⟩ | ⟨heq, -⟩
  · rw [heq]
    apply addChildren_reaches ho hregion hleaf
      (fun child hchild => (hgood.children child hchild).1) hp
    rcases hsplit with hreach | hep
    · exact Or.inl hreach
    · exact Or.inr (hgood.covers rfl p hp hep)
  · rw [heq]
    rcases hsplit with (⟨c, hc, hcp⟩ | hentry) | hep
    · exact Or.inl ⟨c, List.mem_append_left _ hc, hcp⟩
    · exact Or.inr hentry
    · exact Or.inl ⟨e.cell, List.mem_append_right _ (List.mem_singleton_self _), hep⟩

/-! ### Initial candidates -/

/-- Cells that `GetInitialCandidates` may start from. -/
def InitialCells (o : CovererOptions) (cells : List S2CellId) : Prop :=
  ∀ c ∈ cells, c.isValid = true ∧ (c.level < o.minLevel ∨ InUse o c.level)

theorem addCell_invariant (ho : o.Valid) (hregion : region.Describes leaf A)
    (hleaf : ∀ p, (leaf p).isLeaf = true) {c : S2CellId} (hc : c.isValid = true)
    (hlevel : c.level < o.minLevel ∨ InUse o c.level)
    (h : SearchInvariant leaf A o interior region s) :
    SearchInvariant leaf A o interior region (addCell o interior region s c) := by
  rw [addCell]
  split
  · exact h
  · rename_i candidate hnew
    have hcell := (newCandidate_spec hnew).1
    exact addCandidate_invariant ho hregion hleaf ⟨hcell ▸ hc, hcell ▸ hlevel, hcell ▸ hnew⟩ h

theorem addCell_reaches (ho : o.Valid) (hregion : region.Describes leaf A)
    (hleaf : ∀ p, (leaf p).isLeaf = true) {c : S2CellId} (hc : c.isValid = true)
    (hlevel : c.level < o.minLevel ∨ InUse o c.level) (hp : p ∈ A)
    (h : Reaches leaf s p ∨ c.contains (leaf p) = true) :
    Reaches leaf (addCell o false region s c) p := by
  rw [addCell]
  split
  · rename_i hnew
    rcases h with h | hcp
    · exact h
    · rw [hregion.mayIntersect c hc (mayIntersect_of_newCandidate hnew) p hp] at hcp
      exact Bool.noConfusion hcp
  · rename_i candidate hnew
    have hcell := (newCandidate_spec hnew).1
    exact addCandidate_reaches ho hregion hleaf ⟨hcell ▸ hc, hcell ▸ hlevel, hcell ▸ hnew⟩ hp
      (by rwa [hcell])

theorem initialState_invariant (ho : o.Valid) (hregion : region.Describes leaf A)
    (hleaf : ∀ p, (leaf p).isLeaf = true) {cells : List S2CellId} (hcells : InitialCells o cells) :
    SearchInvariant leaf A o interior region (initialState o interior region cells) := by
  have hrun : ∀ s, SearchInvariant leaf A o interior region s →
      SearchInvariant leaf A o interior region (cells.foldl (addCell o interior region) s) := by
    induction cells with
    | nil => exact fun s hs => hs
    | cons c cells ih =>
      obtain ⟨⟨hc, hlevel⟩, hrest⟩ := List.forall_mem_cons.mp hcells
      intro s hs
      exact ih hrest _ (addCell_invariant ho hregion hleaf hc hlevel hs)
  exact hrun _ ⟨fun c hc => absurd hc List.not_mem_nil, fun c hc => absurd hc List.not_mem_nil,
    fun _ c hc => absurd hc List.not_mem_nil, fun e he => absurd he List.not_mem_nil⟩

theorem initialState_reaches (ho : o.Valid) (hregion : region.Describes leaf A)
    (hleaf : ∀ p, (leaf p).isLeaf = true) {cells : List S2CellId} (hcells : InitialCells o cells)
    (hp : p ∈ A) (hcovers : ∃ c ∈ cells, c.contains (leaf p) = true) :
    Reaches leaf (initialState o false region cells) p := by
  suffices hrun : ∀ s, (Reaches leaf s p ∨ ∃ c ∈ cells, c.contains (leaf p) = true) →
      Reaches leaf (cells.foldl (addCell o false region) s) p by
    exact hrun _ (Or.inr hcovers)
  clear hcovers
  induction cells with
  | nil =>
    intro s hs
    rcases hs with hs | ⟨c, hc, -⟩
    · exact hs
    · exact absurd hc List.not_mem_nil
  | cons c cells ih =>
    obtain ⟨⟨hc, hlevel⟩, hrest⟩ := List.forall_mem_cons.mp hcells
    intro s hs
    rw [List.foldl_cons]
    apply ih hrest
    rcases hs with hs | ⟨d, hd, hdp⟩
    · exact Or.inl (addCell_reaches ho hregion hleaf hc hlevel hp (Or.inl hs))
    · rcases List.mem_cons.mp hd with heq | hd
      · exact Or.inl (addCell_reaches ho hregion hleaf hc hlevel hp (Or.inr (heq ▸ hdp)))
      · exact Or.inr ⟨d, hd, hdp⟩

/-! ### Runs -/

/-- What every state of a run keeps. -/
theorem run_invariant (ho : o.Valid) (hregion : region.Describes leaf A)
    (hleaf : ∀ p, (leaf p).isLeaf = true) {cells : List S2CellId} (hcells : InitialCells o cells)
    (hrun : Relation.ReflTransGen (Step o interior region)
      (initialState o interior region cells) s) :
    SearchInvariant leaf A o interior region s := by
  induction hrun with
  | refl => exact initialState_invariant ho hregion hleaf hcells
  | tail _ hstep ih => exact hstep.invariant ho hregion hleaf ih

theorem run_reaches (ho : o.Valid) (hregion : region.Describes leaf A)
    (hleaf : ∀ p, (leaf p).isLeaf = true) {cells : List S2CellId} (hcells : InitialCells o cells)
    (hrun : Relation.ReflTransGen (Step o false region) (initialState o false region cells) s)
    (hp : p ∈ A) (hcovers : ∃ c ∈ cells, c.contains (leaf p) = true) : Reaches leaf s p := by
  induction hrun with
  | refl => exact initialState_reaches ho hregion hleaf hcells hp hcovers
  | tail hrun hstep ih =>
    exact hstep.reaches ho hregion hleaf (run_invariant ho hregion hleaf hcells hrun) hp ih

end Invariants

end S2RegionCoverer

end S2Geography
