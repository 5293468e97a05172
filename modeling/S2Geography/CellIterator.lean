import S2Geography.CellId
import Mathlib.Data.List.TakeWhile

/-!
# Iterating over the cells of a shape index

A shape index keeps its cells in a map sorted by id. The cells are valid and do not
overlap, which the map carries as fields. The iterator is the map split at its
current position, so `Next` and `Prev` move one cell across the split.
-/
namespace S2Geography

/-- An index cell lists the ids of the shapes clipped to it. -/
structure IndexCell where
  id : S2CellId
  shapeIds : List ℕ
  deriving DecidableEq, Repr

/-- The `cell_map_` of a `MutableS2ShapeIndex`. -/
structure CellMap where
  entries : List IndexCell
  valid : ∀ e ∈ entries, e.id.isValid = true
  ordered : entries.Pairwise (fun a b => a.id.rangeMax < b.id.rangeMin)

namespace CellMap

def empty : CellMap := ⟨[], fun _ he => absurd he List.not_mem_nil, List.Pairwise.nil⟩

theorem ne_none (m : CellMap) {e : IndexCell} (he : e ∈ m.entries) : e.id ≠ S2CellId.none :=
  S2CellId.ne_none_of_isValid (m.valid e he)

theorem id_ordered (m : CellMap) : m.entries.Pairwise (fun a b => a.id < b.id) := by
  refine m.ordered.imp_of_mem ?_
  intro a b ha hb hab
  exact (S2CellId.le_rangeMax (m.ne_none ha)).trans_lt
    (hab.trans_le (S2CellId.rangeMin_le (m.ne_none hb)))

/-- The map's order separates the ranges of its cells, wherever they stand in it. -/
theorem rangeMax_lt_rangeMin (m : CellMap) {a b : IndexCell} (ha : a ∈ m.entries)
    (hb : b ∈ m.entries) (h : a.id < b.id) : a.id.rangeMax < b.id.rangeMin := by
  have hfwd : m.entries.Pairwise (fun a b => a.id < b.id → a.id.rangeMax < b.id.rangeMin) :=
    m.ordered.imp (by intro a b hab _; exact hab)
  have hbwd : m.entries.Pairwise (fun a b => b.id < a.id → b.id.rangeMax < a.id.rangeMin) :=
    m.id_ordered.imp (by intro a b hab hba; exact absurd hba (lt_asymm hab))
  exact List.Pairwise.forall_of_forall_of_flip (fun x _ hx => absurd hx (lt_irrefl _))
    hfwd hbwd ha hb h

/-- Two cells of the map that meet are the same entry. -/
theorem eq_of_intersects (m : CellMap) {a b : IndexCell} (ha : a ∈ m.entries)
    (hb : b ∈ m.entries) (h : a.id.intersects b.id = true) : a = b := by
  obtain ⟨hba, hab⟩ := S2CellId.intersects_eq_true.mp h
  rcases lt_trichotomy a.id b.id with hlt | heq | hlt
  · exact absurd hba (not_le_of_gt (m.rangeMax_lt_rangeMin ha hb hlt))
  · have hnodup : (m.entries.map IndexCell.id).Nodup :=
      List.pairwise_map.mpr (m.id_ordered.imp ne_of_lt)
    exact List.inj_on_of_nodup_map hnodup ha hb heq
  · exact absurd hab (not_le_of_gt (m.rangeMax_lt_rangeMin hb ha hlt))

/-- A target inside a cell of the map meets that cell only. -/
theorem intersects_iff_eq (m : CellMap) {target : S2CellId} (ht : target ≠ S2CellId.none)
    {e f : IndexCell} (he : e ∈ m.entries) (hf : f ∈ m.entries)
    (h : e.id.contains target = true) : target.intersects f.id = true ↔ f = e := by
  have hte : target.intersects e.id = true :=
    (S2CellId.intersects_iff ht (m.ne_none he)).mpr (Or.inr h)
  refine ⟨fun hint => (m.eq_of_intersects he hf ?_).symm, fun heq => heq ▸ hte⟩
  rcases (S2CellId.intersects_iff ht (m.ne_none hf)).mp hint with htf | hft
  · exact (S2CellId.intersects_iff (m.ne_none he) (m.ne_none hf)).mpr
      (Or.inl (S2CellId.contains_trans (m.ne_none he) ht (m.ne_none hf) h htf))
  · exact S2CellId.intersects_of_contains h hft

/-- A target that contains a cell of the map contains every cell of the map it meets. -/
theorem intersects_iff_contains (m : CellMap) {target : S2CellId} (ht : target ≠ S2CellId.none)
    {e f : IndexCell} (he : e ∈ m.entries) (hf : f ∈ m.entries)
    (h : target.contains e.id = true) :
    target.intersects f.id = true ↔ target.contains f.id = true := by
  rw [S2CellId.intersects_iff ht (m.ne_none hf)]
  constructor
  · rintro (htf | hft)
    · exact htf
    · -- a cell around the target meets the cell inside it, so it is that cell
      have hfe := S2CellId.contains_trans (m.ne_none hf) ht (m.ne_none he) hft h
      have heq := m.eq_of_intersects hf he
        ((S2CellId.intersects_iff (m.ne_none hf) (m.ne_none he)).mpr (Or.inl hfe))
      rwa [heq]
  · exact Or.inl

/-- Past a first cell that ends beyond the target without containing it, no cell
meets the target. -/
theorem intersects_eq_false_of_le (m : CellMap) {target : S2CellId} {first c : IndexCell}
    (ht : target ≠ S2CellId.none) (hf : first ∈ m.entries) (hc : c ∈ m.entries)
    (hle : first.id ≤ c.id) (hout : ¬ (target ≤ first.id ∧ first.id.rangeMin ≤ target))
    (hpast : ¬ first.id ≤ target.rangeMax) : target.intersects c.id = false := by
  have hf0 := m.ne_none hf
  have htf : target ≤ first.id := (S2CellId.le_rangeMax ht).trans (le_of_not_ge hpast)
  rw [Bool.eq_false_iff]
  intro hint
  rcases (S2CellId.intersects_iff ht (m.ne_none hc)).mp hint with h | h
  · exact hpast (hle.trans (S2CellId.contains_eq_true.mp h).2)
  · have hmin := (S2CellId.contains_eq_true.mp h).1
    rcases hle.eq_or_lt with heq | hlt
    · exact hout ⟨htf, heq ▸ hmin⟩
    · have hsep := m.rangeMax_lt_rangeMin hf hc hlt
      exact absurd ((S2CellId.le_rangeMax hf0).trans_lt (hsep.trans_le hmin)) (not_lt_of_ge htf)

/-- Up to a last cell that ends short of the target, no cell meets the target. -/
theorem intersects_eq_false_of_ge (m : CellMap) {target : S2CellId} {last c : IndexCell}
    (ht : target ≠ S2CellId.none) (hl : last ∈ m.entries) (hc : c ∈ m.entries)
    (hle : c.id ≤ last.id) (hbefore : c.id < target.rangeMin)
    (hshort : ¬ target ≤ last.id.rangeMax) : target.intersects c.id = false := by
  have hl0 := m.ne_none hl
  rw [Bool.eq_false_iff]
  intro hint
  rcases (S2CellId.intersects_iff ht (m.ne_none hc)).mp hint with h | h
  · exact absurd (S2CellId.contains_eq_true.mp h).1 (not_le_of_gt hbefore)
  · have hmax := (S2CellId.contains_eq_true.mp h).2
    rcases hle.eq_or_lt with heq | hlt
    · exact hshort (heq ▸ hmax)
    · have hsep := m.rangeMax_lt_rangeMin hc hl hlt
      exact hshort (hmax.trans (hsep.le.trans
        ((S2CellId.rangeMin_le hl0).trans (S2CellId.le_rangeMax hl0))))

end CellMap

inductive S2CellRelation
  | indexed
  | subdivided
  | disjoint
  deriving DecidableEq, Repr

/-- The cells before the position, nearest first, and the cells from it on. -/
structure CellIterator where
  before : List IndexCell
  rest : List IndexCell
  deriving DecidableEq, Repr

namespace CellIterator

/-- The initial position of a freshly initialised iterator is unpositioned. -/
def init (m : CellMap) : CellIterator := ⟨m.entries.reverse, []⟩

def done (it : CellIterator) : Bool := it.rest.isEmpty

def id (it : CellIterator) : S2CellId :=
  match it.rest with
  | [] => S2CellId.sentinel
  | e :: _ => e.id

def next (it : CellIterator) : CellIterator :=
  match it.rest with
  | [] => it
  | e :: rest => ⟨e :: it.before, rest⟩

def prev (it : CellIterator) : Bool × CellIterator :=
  match it.before with
  | [] => (false, it)
  | e :: before => (true, ⟨before, e :: it.rest⟩)

/-- The map's `lower_bound`. -/
def seek (m : CellMap) (target : S2CellId) : CellIterator :=
  ⟨(m.entries.takeWhile (fun e => decide (e.id < target))).reverse,
    m.entries.dropWhile (fun e => decide (e.id < target))⟩

/-- The end of `LocateImpl`: the previous cell may still contain the target. -/
def locatePrev (it : CellIterator) (target : S2CellId) : S2CellRelation × CellIterator :=
  let p := it.prev
  if p.1 && decide (p.2.id.rangeMax ≥ target) then (.indexed, p.2) else (.disjoint, p.2)

/-- `S2CellIterator::LocateImpl` for a cell target. -/
def locate (m : CellMap) (target : S2CellId) : S2CellRelation × CellIterator :=
  let it := seek m target.rangeMin
  if !it.done && (decide (it.id ≥ target) && decide (it.id.rangeMin ≤ target)) then
    (.indexed, it)
  else if !it.done && decide (it.id ≤ target.rangeMax) then
    (.subdivided, it)
  else
    locatePrev it target

theorem seek_split (m : CellMap) (target : S2CellId) :
    m.entries = (seek m target).before.reverse ++ (seek m target).rest := by
  simp [seek, List.takeWhile_append_dropWhile]

theorem seek_before (m : CellMap) (target : S2CellId) :
    ∀ e ∈ (seek m target).before, e.id < target := by
  intro e he
  have h := List.mem_takeWhile_imp (List.mem_reverse.mp he)
  simpa using h

theorem seek_rest (m : CellMap) (target : S2CellId) :
    ∀ e ∈ (seek m target).rest, target ≤ e.id := by
  intro e he
  have hord := m.id_ordered
  rw [seek_split m target] at hord
  have hrest := (List.pairwise_append.mp hord).2.1
  cases hr : (seek m target).rest with
  | nil => simp [hr] at he
  | cons a rest =>
    have ha : target ≤ a.id := by
      have h := List.head?_dropWhile_not (fun e : IndexCell => decide (e.id < target)) m.entries
      have hr' : m.entries.dropWhile (fun e => decide (e.id < target)) = a :: rest := hr
      rw [hr'] at h
      simpa using h
    rw [hr] at he hrest
    rcases List.mem_cons.mp he with rfl | he
    · exact ha
    · exact ha.trans (le_of_lt ((List.pairwise_cons.mp hrest).1 e he))

theorem seek_first_le (m : CellMap) (target : S2CellId) {e : IndexCell} {rest : List IndexCell}
    (h : (seek m target).rest = e :: rest) : ∀ c ∈ e :: rest, e.id ≤ c.id := by
  have hord := m.id_ordered
  rw [seek_split m target, h, List.pairwise_append, List.pairwise_cons] at hord
  intro c hc
  rcases List.mem_cons.mp hc with rfl | hc
  · exact le_rfl
  · exact (hord.2.1.1 c hc).le

theorem seek_le_last (m : CellMap) (target : S2CellId) {e : IndexCell}
    {before : List IndexCell} (h : (seek m target).before = e :: before) :
    ∀ c ∈ e :: before, c.id ≤ e.id := by
  have hord := m.id_ordered
  rw [seek_split m target, h, List.pairwise_append, List.reverse_cons, List.pairwise_append] at hord
  intro c hc
  rcases List.mem_cons.mp hc with rfl | hc
  · exact le_rfl
  · exact (hord.1.2.2 c (List.mem_reverse.mpr hc) e (by simp)).le

theorem mem_seek (m : CellMap) (target : S2CellId) (e : IndexCell) :
    e ∈ m.entries ↔ e ∈ (seek m target).before ∨ e ∈ (seek m target).rest := by
  rw [seek_split m target]
  simp

/-- The final step back, once the cells from the position on are known not to meet the target. -/
theorem locatePrev_cases (m : CellMap) {target : S2CellId} (ht : target ≠ S2CellId.none)
    (hnone : ∀ e ∈ (seek m target.rangeMin).rest, target.intersects e.id = false) :
    (∃ e it rest, locatePrev (seek m target.rangeMin) target = (.indexed, it) ∧
        it.rest = e :: rest ∧ e ∈ m.entries ∧ e.id.contains target = true) ∨
      (∃ it, locatePrev (seek m target.rangeMin) target = (.disjoint, it) ∧
        ∀ e ∈ m.entries, target.intersects e.id = false) := by
  have hmem := mem_seek m target.rangeMin
  have hlast := @seek_le_last m target.rangeMin
  have hbefore := seek_before m target.rangeMin
  generalize seek m target.rangeMin = it at *
  obtain ⟨before, rest⟩ := it
  simp only at *
  cases before with
  | nil =>
    right
    exact ⟨⟨[], rest⟩, rfl, fun e he => hnone e (by simpa using (hmem e).mp he)⟩
  | cons p before =>
    have hp : p ∈ m.entries := (hmem p).mpr (Or.inl (by simp))
    by_cases hreach : target ≤ p.id.rangeMax
    · left
      refine ⟨p, ⟨before, p :: rest⟩, rest, ?_, rfl, hp, ?_⟩
      · simp [locatePrev, prev, id, hreach]
      · have hpt := (hbefore p (by simp)).le.trans (S2CellId.rangeMin_le ht)
        exact S2CellId.contains_eq_true.mpr
          ⟨(S2CellId.rangeMin_le (m.ne_none hp)).trans hpt, hreach⟩
    · right
      refine ⟨⟨before, p :: rest⟩, ?_, ?_⟩
      · simp [locatePrev, prev, id, hreach]
      · intro e he
        rcases (hmem e).mp he with h | h
        · exact m.intersects_eq_false_of_ge ht hp he (hlast rfl e h) (hbefore e h) hreach
        · exact hnone e h

/-- What `Locate` can report, and what it then says about the whole map: the target
lies inside the cell reached, or the cells inside the target start at the position,
or no cell meets the target. -/
theorem locate_cases (m : CellMap) {target : S2CellId} (ht : target ≠ S2CellId.none) :
    (∃ e it rest, locate m target = (.indexed, it) ∧ it.rest = e :: rest ∧ e ∈ m.entries ∧
        e.id.contains target = true) ∨
      (∃ e rest, locate m target = (.subdivided, seek m target.rangeMin) ∧
        (seek m target.rangeMin).rest = e :: rest ∧ target.contains e.id = true) ∨
      (∃ it, locate m target = (.disjoint, it) ∧
        ∀ e ∈ m.entries, target.intersects e.id = false) := by
  have hmem := mem_seek m target.rangeMin
  have hfirst := @seek_first_le m target.rangeMin
  have hrest := seek_rest m target.rangeMin
  have hback := locatePrev_cases m ht
  simp only [locate]
  generalize seek m target.rangeMin = it at *
  obtain ⟨before, rest⟩ := it
  simp only at *
  cases rest with
  | nil =>
    rcases hback (by simp) with h | h
    · exact Or.inl h
    · exact Or.inr (Or.inr h)
  | cons e tail =>
    have he : e ∈ m.entries := (hmem e).mpr (Or.inr (by simp))
    by_cases h₁ : target ≤ e.id ∧ e.id.rangeMin ≤ target
    · left
      refine ⟨e, ⟨before, e :: tail⟩, tail, by simp [done, id, h₁.1, h₁.2], rfl, he, ?_⟩
      exact S2CellId.contains_eq_true.mpr
        ⟨h₁.2, h₁.1.trans (S2CellId.le_rangeMax (m.ne_none he))⟩
    have hcond : (decide (e.id ≥ target) && decide (e.id.rangeMin ≤ target)) = false := by
      rw [← Bool.decide_and]
      exact decide_eq_false h₁
    have hd : done ⟨before, e :: tail⟩ = false := rfl
    have hid : id ⟨before, e :: tail⟩ = e.id := rfl
    by_cases h₂ : e.id ≤ target.rangeMax
    · right; left
      refine ⟨e, tail, ?_, rfl, S2CellId.contains_eq_true.mpr ⟨hrest e (by simp), h₂⟩⟩
      simp only [hd, hid, hcond, Bool.and_false, Bool.false_eq_true, if_false, h₂, decide_true,
        Bool.not_false, Bool.and_true, if_true]
    · have hnone : ∀ c ∈ e :: tail, target.intersects c.id = false := fun c hc =>
        m.intersects_eq_false_of_le ht he ((hmem c).mpr (Or.inr hc)) (hfirst rfl c hc) h₁ h₂
      simp only [hd, hid, hcond, Bool.and_false, Bool.false_eq_true, if_false, h₂, decide_false]
      rcases hback hnone with h | h
      · exact Or.inl h
      · exact Or.inr (Or.inr h)

/-- The target is reported disjoint exactly when it meets no cell of the map. -/
theorem locate_ne_disjoint_iff (m : CellMap) {target : S2CellId} (ht : target ≠ S2CellId.none) :
    (locate m target).1 ≠ .disjoint ↔ ∃ e ∈ m.entries, target.intersects e.id = true := by
  rcases locate_cases m ht with ⟨e, it, rest, h, -, he, hc⟩ | ⟨e, rest, h, hr, hc⟩ | ⟨it, h, hn⟩
  · refine ⟨fun _ => ⟨e, he, ?_⟩, fun _ => by simp [h]⟩
    exact (S2CellId.intersects_iff ht (m.ne_none he)).mpr (Or.inr hc)
  · have he : e ∈ m.entries := (mem_seek m _ e).mpr (Or.inr (by rw [hr]; simp))
    refine ⟨fun _ => ⟨e, he, ?_⟩, fun _ => by simp [h]⟩
    exact (S2CellId.intersects_iff ht (m.ne_none he)).mpr (Or.inl hc)
  · simp only [h, ne_eq, not_true_eq_false, false_iff, not_exists, not_and]
    intro e he
    simp [hn e he]

end CellIterator

end S2Geography
