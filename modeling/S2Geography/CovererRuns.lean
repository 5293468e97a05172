import S2Geography.CovererSearch

/-!
# Ends and sizes of searches

Every turn of the main loop replaces an entry of the queue by entries of lower ranks, so the
search ends whatever entries are popped. In a covering from outside the cells of the result
and the queue together, and in one from inside the cells of the result, only grow up to the
number of cells asked for.
-/
namespace S2Geography.S2RegionCoverer

open BufferCells
open S2CellId hiding none

variable {P : Type} {leaf : P → S2CellId} {A : Set P} {o : CovererOptions} {interior : Bool}
  {region : S2Region} {s s' : CovererState} {candidate : Candidate} {children : List Candidate}

theorem addCandidate_eq (o : CovererOptions) (interior : Bool) (region : S2Region)
    (s : CovererState) (candidate : Candidate) :
    addCandidate o interior region s candidate =
        { s with result := s.result ++ [candidate.cell] } ∨
      addCandidate o interior region s candidate = s ∨
      ∃ e : QueueEntry, e.cell = candidate.cell ∧
        addCandidate o interior region s candidate = { s with pq := e :: s.pq } := by
  by_cases ht : candidate.isTerminal = true
  · rw [addCandidate, if_pos ht]
    exact Or.inl rfl
  · simp only [addCandidate, if_neg ht]
    generalize expandChildren o interior region _ candidate.cell = children
    by_cases hnone : children.length = 0
    · rw [if_pos hnone]
      exact Or.inr (Or.inl rfl)
    · rw [if_neg hnone]
      split
      · exact Or.inl rfl
      · refine Or.inr (Or.inr ⟨⟨priorityOf o candidate.cell children.length
          (children.countP Candidate.isTerminal), candidate.cell, children⟩, rfl, rfl⟩)

/-! ### Sizes -/

/-- The cells of the result and of the queue. -/
def total (s : CovererState) : ℕ := s.result.length + s.pq.length

theorem total_addCandidate_le (s : CovererState) (candidate : Candidate) :
    total (addCandidate o interior region s candidate) ≤ total s + 1 := by
  rcases addCandidate_eq o interior region s candidate with heq | heq | ⟨e, -, heq⟩
  · simp only [heq, total, List.length_append, List.length_singleton]
    omega
  · rw [heq]
    omega
  · simp only [heq, total, List.length_cons]
    omega

theorem result_addCandidate_le (s : CovererState) (candidate : Candidate) :
    (addCandidate o interior region s candidate).result.length ≤ s.result.length + 1 := by
  rcases addCandidate_eq o interior region s candidate with heq | heq | ⟨e, -, heq⟩
  · rw [heq, List.length_append, List.length_singleton]
  · rw [heq]
    omega
  · rw [heq]
    exact Nat.le_succ _

theorem total_addChildren_le (s : CovererState) (children : List Candidate) :
    total (addChildren o interior region s children) ≤ total s + children.length := by
  induction children generalizing s with
  | nil => exact le_rfl
  | cons child children ih =>
    rw [addChildren, List.foldl_cons, List.length_cons]
    split
    · exact (ih s).trans (by omega)
    · exact (ih _).trans (by
        have hone := @total_addCandidate_le o interior region s child
        omega)

/-- From inside no child is added once the result is full. -/
theorem result_addChildren_le (hinterior : interior = true) :
    (addChildren o interior region s children).result.length ≤
      max s.result.length o.maxCellsSize := by
  induction children generalizing s with
  | nil => exact le_max_left _ _
  | cons child children ih =>
    rw [addChildren, List.foldl_cons]
    apply le_trans ih
    rw [hinterior, Bool.true_and]
    split
    · exact le_rfl
    · rename_i hroom
      rw [decide_eq_true_eq, ge_iff_le, not_le] at hroom
      have hone := @result_addCandidate_le o true region s child
      omega

theorem Step.total_le (hstep : Step o false region s s')
    (hlevels : ∀ e ∈ s.pq, o.minLevel ≤ e.cell.level) :
    total s' ≤ max (total s) o.maxCellsSize := by
  obtain ⟨e, rest, he, hperm, hcases⟩ := hstep.exists_entry
  have hlevel := hlevels e he
  have hlength := hperm.length_eq
  rw [List.length_cons] at hlength
  rcases hcases with ⟨heq, hexpand⟩ | ⟨heq, -⟩
  · have hadd := @total_addChildren_le o false region { s with pq := rest } e.children
    rw [← heq] at hadd
    simp only [total] at hadd ⊢
    rcases hexpand with h | h | h | h
    · exact Bool.noConfusion h
    · omega
    · omega
    · omega
  · simp only [heq, total, List.length_append, List.length_singleton]
    omega

theorem Step.result_le (hstep : Step o true region s s') :
    s'.result.length ≤ max s.result.length o.maxCellsSize := by
  obtain ⟨e, rest, -, -, ⟨heq, -⟩ | ⟨-, hexterior, -⟩⟩ := hstep.exists_entry
  · rw [heq]
    exact result_addChildren_le rfl
  · exact Bool.noConfusion hexterior

theorem total_initialState_le (cells : List S2CellId) :
    total (initialState o interior region cells) ≤ cells.length := by
  suffices hrun : ∀ s, total (cells.foldl (addCell o interior region) s) ≤
      total s + cells.length by
    have h := hrun {}
    rwa [show total {} = 0 from rfl, Nat.zero_add] at h
  induction cells with
  | nil => exact fun s => le_rfl
  | cons c cells ih =>
    intro s
    have hone : total (addCell o interior region s c) ≤ total s + 1 := by
      rw [addCell]
      split
      · omega
      · exact total_addCandidate_le ..
    have hrest := ih (addCell o interior region s c)
    rw [List.foldl_cons, List.length_cons]
    omega

/-! ### Termination -/

def rank (e : QueueEntry) : ℕ := (kMaxLevel - e.cell.level).toNat

def ranks (s : CovererState) : Multiset ℕ := (s.pq.map rank : List ℕ)

/-- The new entries of the queue come from the children. -/
theorem addChildren_pq : ∃ new : List QueueEntry,
    (addChildren o interior region s children).pq = new ++ s.pq ∧
      ∀ e ∈ new, ∃ child ∈ children, e.cell = child.cell := by
  induction children generalizing s with
  | nil => exact ⟨[], rfl, fun e he => absurd he List.not_mem_nil⟩
  | cons child children ih =>
    rw [addChildren, List.foldl_cons]
    split
    · obtain ⟨new, hnew, hmem⟩ := ih (s := s)
      refine ⟨new, hnew, fun e he => ?_⟩
      obtain ⟨d, hd, hcell⟩ := hmem e he
      exact ⟨d, List.mem_cons_of_mem _ hd, hcell⟩
    · obtain ⟨new, hnew, hmem⟩ := ih (s := addCandidate o interior region s child)
      have hmem' : ∀ e ∈ new, ∃ d ∈ child :: children, e.cell = d.cell := by
        intro e he
        obtain ⟨d, hd, hcell⟩ := hmem e he
        exact ⟨d, List.mem_cons_of_mem _ hd, hcell⟩
      rcases addCandidate_eq o interior region s child with heq | heq | ⟨e, hcell, heq⟩
      · rw [heq] at hnew
        rw [heq]
        exact ⟨new, hnew, hmem'⟩
      · rw [heq] at hnew
        rw [heq]
        exact ⟨new, hnew, hmem'⟩
      · rw [heq] at hnew
        rw [heq]
        refine ⟨new ++ [e], by rw [List.append_assoc]; exact hnew, ?_⟩
        intro e' he'
        rcases List.mem_append.mp he' with h | h
        · exact hmem' e' h
        · rw [List.mem_singleton.mp h]
          exact ⟨child, List.mem_cons_self .., hcell⟩

/-- A step cuts an entry off the queue and grows entries of lower ranks. -/
theorem Step.cutExpand (hstep : Step o interior region s s')
    (h : SearchInvariant leaf A o interior region s) :
    Relation.CutExpand (· < ·) (ranks s') (ranks s) := by
  obtain ⟨e, rest, he, hperm, hcases⟩ := hstep.exists_entry
  have hgood := h.entries e he
  have hranks : ranks s = ranks { s with pq := rest } + {rank e} := by
    rw [ranks, Multiset.coe_eq_coe.mpr (hperm.map rank), List.map_cons, ← Multiset.cons_coe,
      ← Multiset.singleton_add, add_comm]
    rfl
  have hrest : ∃ new : List QueueEntry, s'.pq = new ++ rest ∧
      ∀ e' ∈ new, ∃ child ∈ e.children, e'.cell = child.cell := by
    rcases hcases with ⟨heq, -⟩ | ⟨heq, -⟩
    · rw [heq]
      exact addChildren_pq
    · rw [heq]
      exact ⟨[], rfl, fun e' he' => absurd he' List.not_mem_nil⟩
  obtain ⟨new, hnew, hmem⟩ := hrest
  refine ⟨(new.map rank : List ℕ), rank e, ?_, ?_⟩
  · intro n hn
    obtain ⟨e', he', rfl⟩ := List.mem_map.mp (Multiset.mem_coe.mp hn)
    obtain ⟨child, hchild, hcell⟩ := hmem e' he'
    obtain ⟨hfresh, hdeep⟩ := hgood.children child hchild
    have hmax := (level_spec hfresh.valid).2.1
    rw [rank, rank, hcell, kMaxLevel]
    omega
  · rw [hranks, ranks, ranks, hnew, List.map_append, ← Multiset.coe_add,
      add_comm ((new.map rank : List ℕ) : Multiset ℕ), add_right_comm]

/-- However the entries are popped, the search ends. -/
theorem acc_step (ho : o.Valid) (hregion : region.Describes leaf A)
    (hleaf : ∀ p, (leaf p).isLeaf = true) (h : SearchInvariant leaf A o interior region s) :
    Acc (fun s' s => Step o interior region s s') s := by
  have hwf : WellFounded (Relation.CutExpand ((· < ·) : ℕ → ℕ → Prop)) := wellFounded_lt.cutExpand
  obtain ⟨m, hm⟩ : ∃ m, ranks s = m := ⟨_, rfl⟩
  induction m using hwf.induction generalizing s with
  | _ m ih =>
    apply Acc.intro
    intro s' hstep
    exact ih (ranks s') (hm ▸ hstep.cutExpand h) (hstep.invariant ho hregion hleaf h) rfl

/-- As long as the loop continues there is an entry to pop. -/
theorem exists_step (region : S2Region) (h : Continues o interior s) :
    ∃ s', Step o interior region s s' := by
  obtain ⟨hne, hroom⟩ := h
  obtain ⟨e, he⟩ : ∃ e, List.argmax QueueEntry.priority s.pq = some e := by
    rw [← Option.ne_none_iff_exists', ne_eq, List.argmax_eq_none]
    exact hne
  obtain ⟨before, after, heq⟩ := List.append_of_mem (List.argmax_mem he)
  exact ⟨_, Step.pop ⟨hne, hroom⟩ heq fun e' he' => List.le_of_mem_argmax he' he⟩

theorem exists_stopped (ho : o.Valid) (hregion : region.Describes leaf A)
    (hleaf : ∀ p, (leaf p).isLeaf = true) (h : SearchInvariant leaf A o interior region s) :
    ∃ s', Relation.ReflTransGen (Step o interior region) s s' ∧ ¬ Continues o interior s' := by
  have hacc := acc_step ho hregion hleaf h
  induction hacc with
  | intro s _ ih =>
    by_cases hcontinues : Continues o interior s
    · obtain ⟨s', hstep⟩ := exists_step region hcontinues
      obtain ⟨s'', hrun, hstopped⟩ := ih s' hstep (hstep.invariant ho hregion hleaf h)
      exact ⟨s'', Relation.ReflTransGen.head hstep hrun, hstopped⟩
    · exact ⟨s, Relation.ReflTransGen.refl, hcontinues⟩

end S2Geography.S2RegionCoverer
