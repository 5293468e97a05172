import S2Geography.CellMissing
import Mathlib.Data.Finset.Sort
import Mathlib.Order.Bounds.Basic

/-!
# The order of cells

Sorting, ranges, unique values and cumulative extremes of vectors of cells. All of them
compare the bits of the doubles as unsigned words, as the comparison operators do; the order
of the doubles is another one. Missing values have bits of their own, and are sorted and kept
with the others.
-/
namespace S2Geography

open S2CellId hiding none

/-! ### Operators -/

/-- `processCell` of the comparison operators, which differ in the comparison of the words. -/
def compareCells (holds : BitVec 64 → BitVec 64 → Bool) (cellId1 cellId2 : S2CellId) :
    Option Bool :=
  if rIsNA cellId1 || rIsNA cellId2 then none else some (holds cellId1.id cellId2.id)

/-- `cpp_s2_cell_lte`. -/
def cppS2CellLte (cellIdVector1 cellIdVector2 : List S2CellId) :
    Except CellFault (List (Option Bool)) :=
  processCellVectors (fun cellId1 cellId2 => .ok (compareCells BitVec.ule cellId1 cellId2))
    cellIdVector1 cellIdVector2

/-- `cpp_s2_cell_sort`. -/
def cppS2CellSort (cellIdVector : List S2CellId) (decreasing : Bool) : List S2CellId :=
  if decreasing then cellIdVector.mergeSort (fun a b => decide (a ≥ b))
  else cellIdVector.mergeSort (fun a b => decide (a ≤ b))

/-- The loop of `cpp_s2_cell_range`. -/
def rangeLoop (naRm : Bool) : List S2CellId → S2CellId × S2CellId → S2CellId × S2CellId
  | [], dataRange => dataRange
  | c :: cells, dataRange =>
    if rIsNA c && !naRm then (c, c)
    else
      let dataRange := if !rIsNA c && decide (c < dataRange.1) then (c, dataRange.2) else dataRange
      let dataRange := if !rIsNA c && decide (c > dataRange.2) then (dataRange.1, c) else dataRange
      rangeLoop naRm cells dataRange

/-- `cpp_s2_cell_range`; the range starts from the largest and the smallest word. -/
def cppS2CellRange (cellIdVector : List S2CellId) (naRm : Bool) : List S2CellId :=
  let dataRange := rangeLoop naRm cellIdVector (sentinel, S2CellId.none)
  if dataRange.1 > dataRange.2 then [naReal, naReal] else [dataRange.1, dataRange.2]

/-- `cpp_s2_cell_unique`; a `std::set` is traversed in ascending order. -/
def cppS2CellUnique (cellIdVector : List S2CellId) : List S2CellId :=
  let uniqueValues := cellIdVector.foldl (fun values value => insert value values) (∅ : Finset _)
  uniqueValues.sort (· ≤ ·)

/-- The members of the operators for cumulative extremes. -/
structure CumulativeOp where
  current : S2CellId
  currentId : S2CellId

/-- `processCell` of the operators, which differ in the comparison. -/
def cumulativeCell (replaces : S2CellId → S2CellId → Bool) (cellId : S2CellId)
    (op : CumulativeOp) : S2CellId × CumulativeOp :=
  if rIsNA op.current || rIsNA cellId then (naReal, ⟨naReal, cellId⟩)
  else if replaces cellId op.currentId then (cellId, ⟨cellId, cellId⟩)
  else (op.current, op)

/-- `processVector` of an operator that changes from cell to cell. -/
def processCells (processCell : S2CellId → CumulativeOp → S2CellId × CumulativeOp) :
    List S2CellId → CumulativeOp → List S2CellId
  | [], _ => []
  | cellId :: cells, op =>
    let (value, op) := processCell cellId op
    value :: processCells processCell cells op

def cppS2CellCummax (cellIdVector : List S2CellId) : List S2CellId :=
  processCells (cumulativeCell fun cellId currentId => decide (cellId > currentId)) cellIdVector
    ⟨S2CellId.none, S2CellId.none⟩

def cppS2CellCummin (cellIdVector : List S2CellId) : List S2CellId :=
  processCells (cumulativeCell fun cellId currentId => decide (cellId < currentId)) cellIdVector
    ⟨sentinel, sentinel⟩

/-! ### Comparison -/

theorem none_le (c : S2CellId) : S2CellId.none ≤ c := Nat.zero_le _

theorem le_sentinel (c : S2CellId) : c ≤ sentinel := by
  have hlt := c.toNat_lt
  have hsentinel : sentinel.toNat = 2 ^ 64 - 1 := rfl
  rw [le_def, hsentinel]
  omega

/-- The operator compares two cells that are not missing by the order of their ids. -/
theorem compareCells_ule {a b : S2CellId} (ha : rIsNA a = false) (hb : rIsNA b = false) :
    compareCells BitVec.ule a b = some (decide (a ≤ b)) := by
  rw [compareCells, ha, hb]
  rfl

/-! ### Sorted vectors -/

theorem perm_cppS2CellSort (cells : List S2CellId) (decreasing : Bool) :
    (cppS2CellSort cells decreasing).Perm cells := by
  unfold cppS2CellSort
  split
  · exact List.mergeSort_perm _ _
  · exact List.mergeSort_perm _ _

theorem pairwise_cppS2CellSort (cells : List S2CellId) :
    (cppS2CellSort cells false).Pairwise (· ≤ ·) := by
  have h := @List.pairwise_mergeSort S2CellId (fun a b => decide (a ≤ b))
    (fun a b c hab hbc => by
      rw [decide_eq_true_eq] at *
      exact hab.trans hbc)
    (fun a b => by simpa using le_total a b) cells
  exact h.imp fun hab => of_decide_eq_true hab

theorem pairwise_cppS2CellSort_decreasing (cells : List S2CellId) :
    (cppS2CellSort cells true).Pairwise (· ≥ ·) := by
  have h := @List.pairwise_mergeSort S2CellId (fun a b => decide (a ≥ b))
    (fun a b c hab hbc => by
      rw [decide_eq_true_eq] at *
      exact ge_trans hab hbc)
    (fun a b => by simpa using le_total b a) cells
  exact h.imp fun hab => of_decide_eq_true hab

theorem mem_foldl_insert (cells : List S2CellId) (values : Finset S2CellId) (c : S2CellId) :
    c ∈ cells.foldl (fun values value => insert value values) values ↔ c ∈ values ∨ c ∈ cells := by
  induction cells generalizing values with
  | nil => simp
  | cons d cells ih =>
    rw [List.foldl_cons, ih, Finset.mem_insert, List.mem_cons]
    tauto

theorem mem_cppS2CellUnique (cells : List S2CellId) (c : S2CellId) :
    c ∈ cppS2CellUnique cells ↔ c ∈ cells := by
  rw [cppS2CellUnique, Finset.mem_sort, mem_foldl_insert]
  simp

theorem pairwise_cppS2CellUnique (cells : List S2CellId) :
    (cppS2CellUnique cells).Pairwise (· < ·) :=
  (Finset.sortedLT_sort _).pairwise

/-- In a sorted list the first element is the least one, and the last the greatest. -/
theorem exists_ends_of_sorted {xs : List S2CellId} (hsorted : xs.Pairwise (· ≤ ·))
    (hne : xs ≠ []) :
    ∃ first last, xs.head? = some first ∧ xs.getLast? = some last ∧
      IsLeast {c | c ∈ xs} first ∧ IsGreatest {c | c ∈ xs} last := by
  refine ⟨xs.head hne, xs.getLast hne, List.head?_eq_some_head hne,
    List.getLast?_eq_some_getLast hne, ⟨List.head_mem hne, ?_⟩, ⟨List.getLast_mem hne, ?_⟩⟩
  · intro c hc
    obtain ⟨i, hi, rfl⟩ := List.getElem_of_mem hc
    rw [List.head_eq_getElem]
    exact hsorted.rel_get_of_le (a := ⟨0, by omega⟩) (b := ⟨i, hi⟩) (Nat.zero_le i)
  · intro c hc
    obtain ⟨i, hi, rfl⟩ := List.getElem_of_mem hc
    rw [List.getLast_eq_getElem]
    exact hsorted.rel_get_of_le (a := ⟨i, hi⟩) (b := ⟨xs.length - 1, by omega⟩)
      (show i ≤ xs.length - 1 by omega)

/-! ### Ranges -/

/-- The cells that count. -/
def presentCells (cells : List S2CellId) : List S2CellId := cells.filter fun c => !rIsNA c

theorem isLeast_foldl_min {α : Type} [LinearOrder α] {xs : List α} (hne : xs ≠ []) {seed : α}
    (hseed : ∀ x ∈ xs, x ≤ seed) : IsLeast {x | x ∈ xs} (xs.foldl min seed) := by
  have hfold : ∀ (xs : List α) (seed : α), (xs.foldl min seed = seed ∨ xs.foldl min seed ∈ xs) ∧
      xs.foldl min seed ≤ seed ∧ ∀ x ∈ xs, xs.foldl min seed ≤ x := by
    intro xs
    induction xs with
    | nil => exact fun seed => ⟨Or.inl rfl, le_rfl, by simp⟩
    | cons x xs ih =>
      intro seed
      obtain ⟨hmem, hle, hall⟩ := ih (min seed x)
      rw [List.foldl_cons]
      refine ⟨?_, hle.trans (min_le_left seed x), ?_⟩
      · rcases hmem with heq | hmem
        · rw [heq]
          rcases min_choice seed x with hmin | hmin
          · exact Or.inl hmin
          · rw [hmin]
            exact Or.inr List.mem_cons_self
        · exact Or.inr (List.mem_cons_of_mem x hmem)
      · intro y hy
        rcases List.mem_cons.mp hy with rfl | hy
        · exact hle.trans (min_le_right seed y)
        · exact hall y hy
  obtain ⟨hmem, hle, hall⟩ := hfold xs seed
  refine ⟨?_, fun x hx => hall x hx⟩
  rcases hmem with heq | hmem
  · -- the seed is the least only if it is one of the elements
    obtain ⟨x, hx⟩ := List.exists_mem_of_ne_nil xs hne
    have hsame : xs.foldl min seed = x := le_antisymm (hall x hx) ((hseed x hx).trans heq.ge)
    exact hsame ▸ hx
  · exact hmem

theorem isGreatest_foldl_max {α : Type} [LinearOrder α] {xs : List α} (hne : xs ≠ []) {seed : α}
    (hseed : ∀ x ∈ xs, seed ≤ x) : IsGreatest {x | x ∈ xs} (xs.foldl max seed) :=
  isLeast_foldl_min (α := αᵒᵈ) hne hseed

/-- Without a missing cell that counts, the loop takes the least and the greatest of the
cells and the ends it starts from. -/
theorem rangeLoop_eq {naRm : Bool} {cells : List S2CellId}
    (h : naRm = true ∨ ∀ c ∈ cells, rIsNA c = false) (dataRange : S2CellId × S2CellId) :
    rangeLoop naRm cells dataRange =
      ((presentCells cells).foldl min dataRange.1, (presentCells cells).foldl max dataRange.2) := by
  induction cells generalizing dataRange with
  | nil => rfl
  | cons c cells ih =>
    have hrest : naRm = true ∨ ∀ c ∈ cells, rIsNA c = false :=
      h.imp_right fun h d hd => h d (List.mem_cons_of_mem c hd)
    by_cases hmissing : rIsNA c = true
    · have hremoved : naRm = true := by
        refine h.resolve_right fun h => ?_
        rw [h c List.mem_cons_self] at hmissing
        exact Bool.false_ne_true hmissing
      simp only [rangeLoop, presentCells, hmissing, hremoved, Bool.not_true, Bool.and_false,
        Bool.false_and, Bool.false_eq_true, if_false, List.filter_cons]
      rw [← hremoved]
      exact ih hrest dataRange
    · have hpresent : rIsNA c = false := Bool.eq_false_iff.mpr hmissing
      have hfirst : (if c < dataRange.1 then (c, dataRange.2) else dataRange) =
          (min dataRange.1 c, dataRange.2) := by
        split
        · next hlt => rw [min_eq_right hlt.le]
        · next hle => rw [min_eq_left (not_lt.mp hle)]
      have hsecond : ∀ a b : S2CellId, (if c > b then (a, c) else (a, b)) = (a, max b c) := by
        intro a b
        split
        · next hlt => rw [max_eq_right hlt.le]
        · next hle => rw [max_eq_left (not_lt.mp hle)]
      simp only [rangeLoop, presentCells, hpresent, Bool.not_false, Bool.true_and,
        Bool.false_and, Bool.false_eq_true, if_false, List.filter_cons, if_true,
        decide_eq_true_eq, hfirst, hsecond]
      exact ih hrest (min dataRange.1 c, max dataRange.2 c)

/-- The first missing cell that is not removed ends the loop, and is both ends of the range. -/
theorem rangeLoop_missing {cells : List S2CellId} (h : ∃ c ∈ cells, rIsNA c = true)
    (dataRange : S2CellId × S2CellId) :
    ∃ c, rIsNA c = true ∧ rangeLoop false cells dataRange = (c, c) := by
  induction cells generalizing dataRange with
  | nil => simp at h
  | cons c cells ih =>
    by_cases hmissing : rIsNA c = true
    · exact ⟨c, hmissing, by simp [rangeLoop, hmissing]⟩
    · have hrest : ∃ c ∈ cells, rIsNA c = true := by
        obtain ⟨d, hd, hna⟩ := h
        rcases List.mem_cons.mp hd with rfl | hd
        · exact absurd hna hmissing
        · exact ⟨d, hd, hna⟩
      have hpresent : rIsNA c = false := Bool.eq_false_iff.mpr hmissing
      simp only [rangeLoop, hpresent, Bool.false_and, Bool.false_eq_true, if_false]
      exact ih hrest _

theorem cppS2CellRange_of_missing {cells : List S2CellId} (h : ∃ c ∈ cells, rIsNA c = true) :
    ∀ c ∈ cppS2CellRange cells false, rIsNA c = true := by
  obtain ⟨c, hna, heq⟩ := rangeLoop_missing h (sentinel, S2CellId.none)
  rw [cppS2CellRange, heq]
  simpa using hna

theorem cppS2CellRange_of_nil {naRm : Bool} {cells : List S2CellId}
    (h : naRm = true ∨ ∀ c ∈ cells, rIsNA c = false) (hnil : presentCells cells = []) :
    cppS2CellRange cells naRm = [naReal, naReal] := by
  rw [cppS2CellRange, rangeLoop_eq h, hnil]
  rfl

/-- The range of cells that count runs from the least to the greatest of them. -/
theorem cppS2CellRange_of_ne_nil {naRm : Bool} {cells : List S2CellId}
    (h : naRm = true ∨ ∀ c ∈ cells, rIsNA c = false) (hne : presentCells cells ≠ []) :
    ∃ first last, cppS2CellRange cells naRm = [first, last] ∧
      IsLeast {c | c ∈ presentCells cells} first ∧
      IsGreatest {c | c ∈ presentCells cells} last := by
  have hfirst := isLeast_foldl_min hne (fun c _ => le_sentinel c)
  have hlast := isGreatest_foldl_max hne (fun c _ => none_le c)
  refine ⟨_, _, ?_, hfirst, hlast⟩
  have hle : ¬(presentCells cells).foldl min sentinel >
      (presentCells cells).foldl max S2CellId.none := not_lt.mpr (hfirst.2 hlast.1)
  rw [cppS2CellRange, rangeLoop_eq h]
  exact if_neg hle

/-! ### Cumulative extremes -/

/-- What follows a missing cell is missing. -/
theorem processCells_missing (replaces : S2CellId → S2CellId → Bool) (cells : List S2CellId)
    (currentId : S2CellId) :
    processCells (cumulativeCell replaces) cells ⟨naReal, currentId⟩ =
      List.replicate cells.length naReal := by
  induction cells generalizing currentId with
  | nil => rfl
  | cons c cells ih =>
    have hcell : cumulativeCell replaces c ⟨naReal, currentId⟩ = (naReal, ⟨naReal, c⟩) := by
      rw [cumulativeCell, rIsNA_naReal]
      rfl
    rw [processCells, hcell, List.length_cons, List.replicate_succ, ← ih c]

/-- Up to the first missing cell the value is the last of the fold that replaces it. -/
theorem getElem?_processCells {replaces : S2CellId → S2CellId → Bool} {cells : List S2CellId}
    {seed : S2CellId} (hseed : rIsNA seed = false) {i : ℕ} (hi : i < cells.length) :
    (processCells (cumulativeCell replaces) cells ⟨seed, seed⟩)[i]? =
      some (if (∃ c ∈ cells.take (i + 1), rIsNA c = true) then naReal
        else (cells.take (i + 1)).foldl (fun a c => if replaces c a then c else a) seed) := by
  induction cells generalizing seed i with
  | nil => simp at hi
  | cons c cells ih =>
    by_cases hmissing : rIsNA c = true
    · have hcell : cumulativeCell replaces c ⟨seed, seed⟩ = (naReal, ⟨naReal, c⟩) := by
        rw [cumulativeCell, hseed, hmissing]
        rfl
      rw [if_pos ⟨c, by simp, hmissing⟩, processCells, hcell]
      change (naReal :: processCells (cumulativeCell replaces) cells ⟨naReal, c⟩)[i]? = _
      rw [processCells_missing, ← List.replicate_succ, List.getElem?_replicate,
        if_pos (by simpa using hi)]
    · have hpresent : rIsNA c = false := Bool.eq_false_iff.mpr hmissing
      let next := if replaces c seed then c else seed
      have hnext : rIsNA next = false := by
        unfold next
        split
        · exact hpresent
        · exact hseed
      have hcell : cumulativeCell replaces c ⟨seed, seed⟩ = (next, ⟨next, next⟩) := by
        unfold next
        rw [cumulativeCell, hseed, hpresent]
        split
        · rename_i h
          cases h
        · split <;> rfl
      rw [processCells, hcell]
      cases i with
      | zero => simp [hpresent, next]
      | succ i =>
        have hrest := ih hnext (i := i) (by simpa using hi)
        simpa [hpresent, next] using hrest

theorem length_processCells (processCell : S2CellId → CumulativeOp → S2CellId × CumulativeOp)
    (cells : List S2CellId) (op : CumulativeOp) :
    (processCells processCell cells op).length = cells.length := by
  induction cells generalizing op with
  | nil => rfl
  | cons c cells ih => rw [processCells, List.length_cons, List.length_cons, ih]

/-- The value at every position is missing from the first missing cell on, and up to there it
is the best cell so far. -/
def Accumulates (Best : Set S2CellId → S2CellId → Prop) (cells out : List S2CellId) : Prop :=
  out.length = cells.length ∧ ∀ i, i < cells.length → ∃ value, out[i]? = some value ∧
    (rIsNA value = true ↔ ∃ c ∈ cells.take (i + 1), rIsNA c = true) ∧
    (rIsNA value = false → Best {c | c ∈ cells.take (i + 1)} value)

theorem accumulates_processCells {replaces : S2CellId → S2CellId → Bool} {cells : List S2CellId}
    {seed : S2CellId} (hseed : rIsNA seed = false) {Best : Set S2CellId → S2CellId → Prop}
    (hmem : ∀ S c, Best S c → c ∈ S)
    (hbest : ∀ xs : List S2CellId, xs ≠ [] →
      Best {c | c ∈ xs} (xs.foldl (fun a c => if replaces c a then c else a) seed)) :
    Accumulates Best cells (processCells (cumulativeCell replaces) cells ⟨seed, seed⟩) := by
  refine ⟨length_processCells _ cells _, fun i hi => ⟨_, getElem?_processCells hseed hi, ?_⟩⟩
  have hne : cells.take (i + 1) ≠ [] := by
    intro hnil
    have hlength := congrArg List.length hnil
    rw [List.length_take, List.length_nil] at hlength
    omega
  have hprefix := hbest _ hne
  by_cases hmissing : ∃ c ∈ cells.take (i + 1), rIsNA c = true
  · rw [if_pos hmissing]
    exact ⟨iff_of_true rIsNA_naReal hmissing, fun h => absurd h (by decide)⟩
  · rw [if_neg hmissing]
    have hpresent : rIsNA ((cells.take (i + 1)).foldl (fun a c => if replaces c a then c else a)
        seed) = false := by
      by_contra hna
      exact hmissing ⟨_, hmem _ _ hprefix, eq_true_of_ne_false hna⟩
    exact ⟨iff_of_false (by rw [hpresent]; exact Bool.false_ne_true) hmissing, fun _ => hprefix⟩

theorem accumulates_cppS2CellCummax (cells : List S2CellId) :
    Accumulates IsGreatest cells (cppS2CellCummax cells) := by
  refine accumulates_processCells (by decide) (fun S c h => h.1) fun xs hne => ?_
  have hmax : (fun a c : S2CellId => if decide (c > a) then c else a) = max := by
    funext a c
    by_cases hlt : a < c
    · rw [max_eq_right hlt.le]
      exact if_pos (decide_eq_true hlt)
    · rw [max_eq_left (not_lt.mp hlt)]
      exact if_neg (by simpa using hlt)
  rw [hmax]
  exact isGreatest_foldl_max hne fun c _ => none_le c

theorem accumulates_cppS2CellCummin (cells : List S2CellId) :
    Accumulates IsLeast cells (cppS2CellCummin cells) := by
  refine accumulates_processCells (by decide) (fun S c h => h.1) fun xs hne => ?_
  have hmin : (fun a c : S2CellId => if decide (c < a) then c else a) = min := by
    funext a c
    by_cases hlt : c < a
    · rw [min_eq_right hlt.le]
      exact if_pos (decide_eq_true hlt)
    · rw [min_eq_left (not_lt.mp hlt)]
      exact if_neg (by simpa using hlt)
  rw [hmin]
  exact isLeast_foldl_min hne fun c _ => le_sentinel c

/-! ### One order -/

/-- The least and the greatest cell are the first and the last of the sorted cells. -/
theorem sort_ends {cells : List S2CellId} {first last : S2CellId}
    (hfirst : IsLeast {c | c ∈ cells} first) (hlast : IsGreatest {c | c ∈ cells} last) :
    (cppS2CellSort cells false).head? = some first ∧
      (cppS2CellSort cells false).getLast? = some last := by
  have hperm := perm_cppS2CellSort cells false
  have hset : {c | c ∈ cppS2CellSort cells false} = {c | c ∈ cells} :=
    Set.ext fun c => hperm.mem_iff
  have hne : cppS2CellSort cells false ≠ [] :=
    List.ne_nil_of_mem (hperm.mem_iff.mpr hfirst.1)
  obtain ⟨first', last', hhead, hlast', hleast, hgreatest⟩ :=
    exists_ends_of_sorted (pairwise_cppS2CellSort cells) hne
  rw [hset] at hleast hgreatest
  exact ⟨hleast.unique hfirst ▸ hhead, hgreatest.unique hlast ▸ hlast'⟩

/-- A range is missing if a missing cell counts or no cell does, and otherwise runs from the
first to the last of the sorted cells. -/
theorem cppS2CellRange_spec (cells : List S2CellId) (naRm : Bool) :
    ((∀ c ∈ cppS2CellRange cells naRm, rIsNA c = true) ↔
      (naRm = false ∧ ∃ c ∈ cells, rIsNA c = true) ∨ presentCells cells = []) ∧
    ((∃ c ∈ cppS2CellRange cells naRm, rIsNA c = false) →
      ∃ first last, cppS2CellRange cells naRm = [first, last] ∧
        (cppS2CellSort (presentCells cells) false).head? = some first ∧
        (cppS2CellSort (presentCells cells) false).getLast? = some last) := by
  have hcontra : (∀ c ∈ cppS2CellRange cells naRm, rIsNA c = true) →
      ¬∃ c ∈ cppS2CellRange cells naRm, rIsNA c = false := by
    rintro hall ⟨c, hc, hpresent⟩
    rw [hall c hc] at hpresent
    cases hpresent
  by_cases hstops : naRm = false ∧ ∃ c ∈ cells, rIsNA c = true
  · obtain ⟨rfl, hmissing⟩ := hstops
    have hall := cppS2CellRange_of_missing hmissing
    exact ⟨iff_of_true hall (Or.inl ⟨rfl, hmissing⟩), fun h => absurd h (hcontra hall)⟩
  have hcounts : naRm = true ∨ ∀ c ∈ cells, rIsNA c = false := by
    by_contra hnot
    obtain ⟨hremoved, hmissing⟩ := not_or.mp hnot
    push Not at hmissing
    obtain ⟨c, hc, hna⟩ := hmissing
    exact hstops ⟨Bool.eq_false_iff.mpr hremoved, c, hc, eq_true_of_ne_false hna⟩
  by_cases hnil : presentCells cells = []
  · have hall : ∀ c ∈ cppS2CellRange cells naRm, rIsNA c = true := by
      rw [cppS2CellRange_of_nil hcounts hnil]
      simpa using rIsNA_naReal
    exact ⟨iff_of_true hall (Or.inr hnil), fun h => absurd h (hcontra hall)⟩
  obtain ⟨first, last, heq, hfirst, hlast⟩ := cppS2CellRange_of_ne_nil hcounts hnil
  have hpresent : rIsNA first = false := by simpa using List.of_mem_filter hfirst.1
  have hmem : first ∈ cppS2CellRange cells naRm := by
    rw [heq]
    exact List.mem_cons_self
  refine ⟨iff_of_false (fun hall => hcontra hall ⟨first, hmem, hpresent⟩)
    (not_or.mpr ⟨hstops, hnil⟩), fun _ => ?_⟩
  exact ⟨first, last, heq, sort_ends hfirst hlast⟩

/-- All operators agree on the unsigned order of the ids. -/
theorem cells_ordered (cells : List S2CellId) :
    (∀ a b, rIsNA a = false → rIsNA b = false →
      cppS2CellLte [a] [b] = .ok [some (decide (a ≤ b))]) ∧
    ((cppS2CellSort cells false).Perm cells ∧ (cppS2CellSort cells false).Pairwise (· ≤ ·)) ∧
    ((cppS2CellSort cells true).Perm cells ∧ (cppS2CellSort cells true).Pairwise (· ≥ ·)) ∧
    ((cppS2CellUnique cells).Pairwise (· < ·) ∧ ∀ c, c ∈ cppS2CellUnique cells ↔ c ∈ cells) ∧
    (∀ naRm : Bool, ((∀ c ∈ cppS2CellRange cells naRm, rIsNA c = true) ↔
      (naRm = false ∧ ∃ c ∈ cells, rIsNA c = true) ∨ presentCells cells = []) ∧
      ((∃ c ∈ cppS2CellRange cells naRm, rIsNA c = false) →
        ∃ first last, cppS2CellRange cells naRm = [first, last] ∧
          (cppS2CellSort (presentCells cells) false).head? = some first ∧
          (cppS2CellSort (presentCells cells) false).getLast? = some last)) ∧
    Accumulates IsGreatest cells (cppS2CellCummax cells) ∧
    Accumulates IsLeast cells (cppS2CellCummin cells) := by
  refine ⟨fun a b ha hb => ?_, ⟨perm_cppS2CellSort cells false, pairwise_cppS2CellSort cells⟩,
    ⟨perm_cppS2CellSort cells true, pairwise_cppS2CellSort_decreasing cells⟩,
    ⟨pairwise_cppS2CellUnique cells, mem_cppS2CellUnique cells⟩, cppS2CellRange_spec cells,
    accumulates_cppS2CellCummax cells, accumulates_cppS2CellCummin cells⟩
  rw [← compareCells_ule ha hb]
  rfl

end S2Geography
