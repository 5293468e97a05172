import Mathlib.Data.List.Basic
import Mathlib.Tactic.Common

/-!
# Vectorised operators

`UnaryGeographyOperator::processVector` and its binary sibling run one operator
object over the rows of a list. The object may change from row to row, so the loop
threads its state. A missing row is skipped and yields a missing value; a
`GeographyOperatorException` is collected and reported at the end.
-/
namespace S2Geography

/-- How a call can go wrong. The last three are undefined behaviour of the source. -/
inductive Fault
  | operatorException (what : String)
  | stop (message : String)
  | outOfBounds
  | nullDereference
  | stackOverflow
  deriving DecidableEq, Repr

namespace GeographyOperator

variable {σ F α : Type}

/-- `stop_problems_process`, which formats at most ten problems. -/
def stopProblemsProcess (problems : List (ℕ × String)) : Fault :=
  let n := problems.length
  let label := if n ≠ 1 then "errors" else "error"
  let header := "Encountered " ++ toString n ++ " processing " ++ label ++ "."
  let lines := (problems.take 10).map fun p => "[" ++ toString (p.1 + 1) ++ "] " ++ p.2
  let more := if n > 10 then "\n...and " ++ toString (n - 10) ++ " more" else ""
  .stop (header ++ "\n" ++ "\n".intercalate lines ++ more)

/-- The rows from `i` on: their outputs, and the problems met on the way. -/
def loop (processFeature : F → ℕ → σ → Except Fault α × σ) (na : α) :
    ℕ → List (Option F) → σ → Except Fault (List α × List (ℕ × String))
  | _, [], _ => .ok ([], [])
  | i, none :: rows, s =>
    match loop processFeature na (i + 1) rows s with
    | .ok (out, problems) => .ok (na :: out, problems)
    | .error fault => .error fault
  | i, some feature :: rows, s =>
    match processFeature feature i s with
    | (.ok value, s') =>
      match loop processFeature na (i + 1) rows s' with
      | .ok (out, problems) => .ok (value :: out, problems)
      | .error fault => .error fault
    | (.error (.operatorException what), s') =>
      match loop processFeature na (i + 1) rows s' with
      | .ok (out, problems) => .ok (na :: out, (i, what) :: problems)
      | .error fault => .error fault
    | (.error fault, _) => .error fault

/-- `UnaryGeographyOperator::processVector`. -/
def processVector (processFeature : F → ℕ → σ → Except Fault α × σ) (na : α)
    (geog : List (Option F)) (op : σ) : Except Fault (List α) :=
  match loop processFeature na 0 geog op with
  | .ok (out, []) => .ok out
  | .ok (_, problems) => .error (stopProblemsProcess problems)
  | .error fault => .error fault

/-- A row of a binary operator is missing when either side is. -/
def pairItem : Option F → Option F → Option (F × F)
  | some feature1, some feature2 => some (feature1, feature2)
  | _, _ => none

/-- `BinaryGeographyOperator::processVector`. -/
def processVector2 (processFeature : F → F → ℕ → σ → Except Fault α × σ) (na : α)
    (geog1 geog2 : List (Option F)) (op : σ) : Except Fault (List α) :=
  if geog2.length ≠ geog1.length then .error (.stop "Incompatible lengths")
  else processVector (fun p => processFeature p.1 p.2) na (List.zipWith pairItem geog1 geog2) op

/-- If an invariant of the operator's state fixes the value of every row and is kept
by every row, the loop computes these values, whatever else the state holds. -/
theorem loop_eq (inv : ℕ → σ → Prop) (value : ℕ → F → α)
    {processFeature : F → ℕ → σ → Except Fault α × σ} {na : α} (rows : List (Option F)) :
    ∀ (i : ℕ) (s : σ), inv i s →
      (∀ k s, rows[k]? = some none → inv (i + k) s → inv (i + k + 1) s) →
      (∀ k feature s, rows[k]? = some (some feature) → inv (i + k) s →
        (processFeature feature (i + k) s).1 = .ok (value (i + k) feature) ∧
          inv (i + k + 1) (processFeature feature (i + k) s).2) →
      loop processFeature na i rows s =
        .ok (rows.mapIdx fun k row => row.elim na (value (i + k)), []) := by
  induction rows with
  | nil => intro i s _ _ _; rfl
  | cons row rows ih =>
    intro i s hs hnone hsome
    have hnone' : ∀ k s, rows[k]? = some none → inv (i + 1 + k) s → inv (i + 1 + k + 1) s := by
      intro k s hk h
      have hshift : i + 1 + k = i + (k + 1) := by omega
      rw [hshift] at h ⊢
      exact hnone (k + 1) s (by simpa using hk) h
    have hsome' : ∀ k feature s, rows[k]? = some (some feature) → inv (i + 1 + k) s →
        (processFeature feature (i + 1 + k) s).1 = .ok (value (i + 1 + k) feature) ∧
          inv (i + 1 + k + 1) (processFeature feature (i + 1 + k) s).2 := by
      intro k feature s hk h
      have hshift : i + 1 + k = i + (k + 1) := by omega
      rw [hshift] at h ⊢
      exact hsome (k + 1) feature s (by simpa using hk) h
    have htail : ∀ k, i + 1 + k = i + (k + 1) := by intro k; omega
    cases row with
    | none =>
      have hrec := ih (i + 1) s (hnone 0 s (by simp) (by simpa using hs)) hnone' hsome'
      simp only [htail] at hrec
      simp [loop, hrec, List.mapIdx_cons]
    | some feature =>
      obtain ⟨hval, hinv⟩ := hsome 0 feature s (by simp) (by simpa using hs)
      have hrec := ih (i + 1) _ (by simpa using hinv) hnone' hsome'
      simp only [htail] at hrec
      cases hp : processFeature feature i s with
      | mk out s' =>
        simp only [Nat.add_zero, hp] at hval hrec
        simp [loop, hp, hval, hrec, List.mapIdx_cons]

theorem processVector_eq (inv : ℕ → σ → Prop) (value : ℕ → F → α)
    {processFeature : F → ℕ → σ → Except Fault α × σ} {na : α} {rows : List (Option F)} {op : σ}
    (h0 : inv 0 op)
    (hnone : ∀ i s, rows[i]? = some none → inv i s → inv (i + 1) s)
    (hsome : ∀ i feature s, rows[i]? = some (some feature) → inv i s →
      (processFeature feature i s).1 = .ok (value i feature) ∧
        inv (i + 1) (processFeature feature i s).2) :
    processVector processFeature na rows op =
      .ok (rows.mapIdx fun i row => row.elim na (value i)) := by
  have h : loop processFeature na 0 rows op =
      .ok (rows.mapIdx fun i row => row.elim na (value (0 + i)), []) :=
    loop_eq inv value rows 0 op h0 (by simpa using hnone) (by simpa using hsome)
  simp only [Nat.zero_add] at h
  simp [processVector, h]

/-- An operator whose values do not depend on its state treats the rows one by one. -/
theorem processVector_eq_map (value : F → α)
    {processFeature : F → ℕ → σ → Except Fault α × σ} {na : α} {rows : List (Option F)} {op : σ}
    (h : ∀ feature i s, (processFeature feature i s).1 = .ok (value feature)) :
    processVector processFeature na rows op = .ok (rows.map fun row => row.elim na value) := by
  rw [processVector_eq (fun _ _ => True) (fun _ => value) trivial (fun _ _ _ _ => trivial)
    (fun i feature s _ _ => ⟨h feature i s, trivial⟩)]
  congr 1
  apply List.ext_getElem?
  intro i
  simp [List.getElem?_mapIdx]

/-- Two operators agree on a list exactly when they agree on its non-missing rows. -/
theorem mapIdx_elim_eq_iff {na : α} {rows : List (Option F)} {f g : ℕ → F → α} :
    (rows.mapIdx fun i row => row.elim na (f i)) = (rows.mapIdx fun i row => row.elim na (g i)) ↔
      ∀ i feature, rows[i]? = some (some feature) → f i feature = g i feature := by
  constructor
  · intro h i feature hi
    have hi' := congrArg (·[i]?) h
    simpa [List.getElem?_mapIdx, hi] using hi'
  · intro h
    apply List.ext_getElem?
    intro i
    rw [List.getElem?_mapIdx, List.getElem?_mapIdx]
    cases hi : rows[i]? with
    | none => rfl
    | some row =>
      cases row with
      | none => rfl
      | some feature => simp [h i feature hi]

theorem getElem?_pairItem {xs ys : List F} {i : ℕ} {p : F × F} :
    (List.zipWith pairItem (xs.map some) (ys.map some))[i]? = some (some p) ↔
      xs[i]? = some p.1 ∧ ys[i]? = some p.2 := by
  obtain ⟨x, y⟩ := p
  rw [List.getElem?_zipWith, List.getElem?_map, List.getElem?_map]
  cases xs[i]? <;> cases ys[i]? <;> simp [pairItem]

theorem getElem?_pairItem_ne_none {xs ys : List F} {i : ℕ} :
    (List.zipWith pairItem (xs.map some) (ys.map some))[i]? ≠ some none := by
  rw [List.getElem?_zipWith, List.getElem?_map, List.getElem?_map]
  cases xs[i]? <;> cases ys[i]? <;> simp [pairItem]

end GeographyOperator

end S2Geography
