import Mathlib.Data.List.Basic
import Mathlib.Tactic.Common

/-!
# Runs of fallible steps

A machine reads a list of inputs and may fail on one. `Ends check P run` says exactly
when a run fails: `check`, which knows nothing of the machine, computes the fault, and
without one the run ends in a state with property `P`.
-/
namespace CheckedRun

variable {ε σ τ ρ α : Type}

/-- The inputs fed to a machine one after the other. -/
def feed (step : α → σ → Except ε σ) (es : List α) (s : σ) : Except ε σ :=
  es.foldlM (fun s e => step e s) s

@[simp] theorem feed_nil (step : α → σ → Except ε σ) (s : σ) : feed step [] s = .ok s := rfl

@[simp] theorem feed_cons (step : α → σ → Except ε σ) (e : α) (es : List α) (s : σ) :
    feed step (e :: es) s = step e s >>= feed step es := rfl

theorem feed_singleton (step : α → σ → Except ε σ) (e : α) (s : σ) :
    feed step [e] s = step e s := by
  rw [feed_cons]
  cases step e s <;> rfl

theorem feed_append (step : α → σ → Except ε σ) (es es' : List α) (s : σ) :
    feed step (es ++ es') s = feed step es s >>= feed step es' :=
  List.foldlM_append

theorem bind_ok (run : Except ε σ) (f : σ → τ) : (run >>= fun s => .ok (f s)) = run.map f := by
  cases run <;> rfl

theorem map_bind (run : Except ε σ) (f : σ → τ) (next : τ → Except ε ρ) :
    run.map f >>= next = run >>= fun s => next (f s) := by
  cases run <;> rfl

/-- A machine inside another: if the outer one's steps are those of the inner one put in
place, so are its runs. -/
theorem feed_map {step : α → σ → Except ε σ} {step' : α → τ → Except ε τ} (put : σ → τ)
    (h : ∀ e s, step' e (put s) = (step e s).map put) (es : List α) (s : σ) :
    feed step' es (put s) = (feed step es s).map put := by
  induction es generalizing s with
  | nil => rfl
  | cons e es ih =>
    rw [feed_cons, feed_cons, h]
    cases step e s with
    | error fault => rfl
    | ok s' => exact ih s'

/-! ### Runs over a vector -/

theorem mapM_eq_pure {m : Type → Type} [Monad m] [LawfulMonad m] {β γ : Type} {f : β → m γ}
    {g : β → γ} (xs : List β) (h : ∀ x ∈ xs, f x = pure (g x)) :
    xs.mapM f = pure (xs.map g) := by
  induction xs with
  | nil => rfl
  | cons x xs ih =>
    obtain ⟨hx, hxs⟩ := List.forall_mem_cons.mp h
    simp [hx, ih hxs]

theorem mapM_congr {f g : α → Except ε τ} {xs : List α} (h : ∀ x ∈ xs, f x = g x) :
    xs.mapM f = xs.mapM g := by
  induction xs with
  | nil => rfl
  | cons x xs ih =>
    rw [List.mapM_cons, List.mapM_cons, h x List.mem_cons_self,
      ih fun y hy => h y (List.mem_cons_of_mem x hy)]

/-- A list read by number, position by position. -/
theorem mapM_range_eq {read : ℕ → Except ε α} (xs : List α)
    (h : ∀ i x, xs[i]? = some x → read i = .ok x) : (List.range xs.length).mapM read = .ok xs := by
  induction xs generalizing read with
  | nil => rfl
  | cons x xs ih =>
    have hrest := @ih (fun i => read (i + 1)) fun i y hy => h (i + 1) y hy
    rw [List.length_cons, List.range_succ_eq_map, List.mapM_cons, h 0 x rfl, List.mapM_map]
    change (do let rest ← (List.range xs.length).mapM fun i => read (i + 1)
               pure (x :: rest)) = Except.ok (x :: xs)
    rw [hrest]
    rfl

theorem mapM_ok_getElem? {f : α → Except ε τ} {xs : List α} {out : List τ}
    (h : xs.mapM f = .ok out) {i : ℕ} {x : α} (hx : xs[i]? = some x) :
    ∃ y, f x = .ok y ∧ out[i]? = some y := by
  induction xs generalizing out i with
  | nil => cases hx
  | cons x' xs ih =>
    rw [List.mapM_cons] at h
    cases hx' : f x' with
    | error e =>
      rw [hx'] at h
      cases h
    | ok y =>
      cases hxs : xs.mapM f with
      | error e =>
        rw [hx', hxs] at h
        cases h
      | ok ys =>
        rw [hx', hxs] at h
        obtain rfl : y :: ys = out := Except.ok.inj h
        cases i with
        | zero =>
          obtain rfl : x' = x := Option.some.inj hx
          exact ⟨y, hx', rfl⟩
        | succ i => exact ih hxs hx

theorem mapM_error {f : α → Except ε τ} {xs : List α} {e : ε} (h : xs.mapM f = .error e) :
    ∃ x ∈ xs, f x = .error e := by
  induction xs with
  | nil => cases h
  | cons x xs ih =>
    rw [List.mapM_cons] at h
    cases hx : f x with
    | error e' =>
      rw [hx] at h
      cases h
      exact ⟨x, List.mem_cons_self, hx⟩
    | ok y =>
      cases hxs : xs.mapM f with
      | error e' =>
        rw [hx, hxs] at h
        cases h
        obtain ⟨x', hmem, hx'⟩ := ih hxs
        exact ⟨x', List.mem_cons_of_mem _ hmem, hx'⟩
      | ok ys =>
        rw [hx, hxs] at h
        cases h

/-- A run over a vector ends with an error that it meets before any other. -/
theorem mapM_eq_error {f : α → Except ε τ} {xs : List α} {e : ε} {i : ℕ} {x : α}
    (hx : xs[i]? = some x) (he : f x = .error e)
    (hbefore : ∀ j < i, ∀ x, xs[j]? = some x → ∀ e', f x = .error e' → e' = e) :
    xs.mapM f = .error e := by
  induction xs generalizing i with
  | nil => cases hx
  | cons x' xs ih =>
    rw [List.mapM_cons]
    cases i with
    | zero =>
      obtain rfl : x' = x := Option.some.inj hx
      rw [he]
      rfl
    | succ i =>
      cases hx' : f x' with
      | error e' =>
        rw [hbefore 0 (Nat.succ_pos i) x' rfl e' hx']
        rfl
      | ok y =>
        rw [ih hx fun j hj => hbefore (j + 1) (Nat.succ_lt_succ hj)]
        rfl

/-! ### Checks -/

/-- The run fails as the check does, or ends in a state with the property. -/
def Ends (check : Except ε Unit) (P : σ → Prop) (run : Except ε σ) : Prop :=
  match check with
  | .ok () => ∃ s, run = .ok s ∧ P s
  | .error fault => run = .error fault

variable {check check' : Except ε Unit} {P : σ → Prop} {run : Except ε σ}

theorem ends_ok {s : σ} (h : P s) : Ends (.ok ()) P (.ok s : Except ε σ) := ⟨s, rfl, h⟩

theorem Ends.mono {Q : σ → Prop} (h : Ends check P run) (hPQ : ∀ s, P s → Q s) :
    Ends check Q run := by
  cases check with
  | error fault => exact h
  | ok u =>
    obtain ⟨s, hs, hP⟩ := h
    exact ⟨s, hs, hPQ s hP⟩

theorem Ends.bind {Q : τ → Prop} {next : σ → Except ε τ} (h : Ends check P run)
    (hnext : ∀ s, P s → Ends check' Q (next s)) :
    Ends (check >>= fun _ => check') Q (run >>= next) := by
  cases check with
  | error fault =>
    have hrun : run = .error fault := h
    rw [hrun]
    rfl
  | ok u =>
    obtain ⟨s, hs, hP⟩ := h
    rw [hs]
    exact hnext s hP

/-- A step that cannot fail after one that can. -/
theorem Ends.then {Q : τ → Prop} {next : σ → Except ε τ} (h : Ends check P run)
    (hnext : ∀ s, P s → Ends (.ok ()) Q (next s)) : Ends check Q (run >>= next) := by
  have hbind := h.bind hnext
  cases check with
  | error fault => exact hbind
  | ok u => exact hbind

theorem Ends.of_check (h : Ends check P run) (hcheck : check = .ok ()) :
    ∃ s, run = .ok s ∧ P s := by
  subst hcheck
  exact h

end CheckedRun
