import S2Geography.CellAncestors
import S2Geography.CellChildren

/-!
# Preconditions of the methods of cells

Whether the operators call a method of `S2CellId` outside its precondition, which the
debugging build shows. `cpp_s2_cell_parent` looks at the level of an id before it checks
the id, and the aggregate checks nothing.
-/
namespace S2Geography

open CellMethods Recycling
open S2CellId hiding none

/-! ### Parents -/

variable {c : S2CellId} {l : ℤ}

theorem parentCell_of_not_isValid (methods : CellMethods) (hc : c.isValid = false) :
    parentCell methods c l = relativeLevel methods c l >>= fun _ => .ok naReal := by
  simp only [parentCell, hc, Bool.false_and, Bool.false_eq_true, if_false]
  rfl

theorem parentCell_release (c : S2CellId) (l : ℤ) : ∃ d, parentCell release c l = .ok d := by
  obtain ⟨leveli, hrelative⟩ : ∃ leveli, relativeLevel release c l = .ok leveli := by
    by_cases hl : l < 0
    · exact ⟨c.level + l, by rw [relativeLevel, if_pos hl]; rfl⟩
    · exact ⟨l, by rw [relativeLevel, if_neg hl]; rfl⟩
  rw [parentCell, hrelative]
  change ∃ d, (if c.isValid && decide (leveli ≥ 0) then
    if leveli ≤ c.level then .ok (c.parentAt leveli) else .ok naReal else .ok naReal :
    Except CellFault S2CellId) = .ok d
  split
  · split
    · exact ⟨_, rfl⟩
    · exact ⟨_, rfl⟩
  · exact ⟨_, rfl⟩

theorem rIsNA_of_parentCell {methods : CellMethods} {d : S2CellId} (hc : c.isValid = false)
    (h : parentCell methods c l = .ok d) : rIsNA d = true := by
  rw [parentCell_of_not_isValid methods hc] at h
  cases hrelative : relativeLevel methods c l with
  | error e =>
    rw [hrelative] at h
    cases h
  | ok leveli =>
    rw [hrelative] at h
    obtain rfl : naReal = d := Except.ok.inj h
    exact rIsNA_naReal

/-- The debugging build stops only at the level of the id zero. -/
theorem parentCell_debug (c : S2CellId) (l : ℤ) : parentCell debug c l =
    if l < 0 ∧ c = S2CellId.none then .error .failedCheck else parentCell release c l := by
  by_cases hzero : l < 0 ∧ c = S2CellId.none
  · rw [if_pos hzero]
    obtain ⟨hl, rfl⟩ := hzero
    simp only [parentCell, relativeLevel, if_pos hl]
    rfl
  rw [if_neg hzero]
  have hrelative : relativeLevel debug c l = relativeLevel release c l := by
    by_cases hl : l < 0
    · have hc : c ≠ S2CellId.none := fun hc => hzero ⟨hl, hc⟩
      simp only [relativeLevel, if_pos hl, debug, check, bne_iff_ne.mpr hc, if_true]
    · simp only [relativeLevel, if_neg hl]
  by_cases hc : c.isValid = true
  · have hparent : ∀ leveli : ℤ, 0 ≤ leveli → leveli ≤ c.level →
        debug.parent c leveli = release.parent c leveli := by
      intro leveli h0 hle
      simp only [debug, check, hc, decide_eq_true h0, decide_eq_true hle, Bool.and_self, if_true]
    have hlevel : debug.level c = release.level c := by
      simp only [debug, check, bne_iff_ne.mpr (ne_none_of_isValid hc), if_true]
    rw [parentCell, parentCell, hrelative]
    refine bind_congr fun leveli => ?_
    by_cases h0 : 0 ≤ leveli
    · simp only [hc, h0, decide_true, Bool.and_self, if_true, hlevel]
      change (if leveli ≤ c.level then debug.parent c leveli else pure naReal) =
        if leveli ≤ c.level then release.parent c leveli else pure naReal
      split
      · rename_i hle
        exact hparent leveli h0 hle
      · rfl
    · simp only [h0, decide_false, Bool.and_false, Bool.false_eq_true, if_false]
  · have hc' := Bool.eq_false_iff.mpr hc
    rw [parentCell_of_not_isValid debug hc', parentCell_of_not_isValid release hc', hrelative]

theorem parentCell_debug_error {e : CellFault} (h : parentCell debug c l = .error e) :
    e = .failedCheck := by
  rw [parentCell_debug] at h
  split at h
  · exact (Except.error.inj h).symm
  · obtain ⟨d, hd⟩ := parentCell_release c l
    rw [hd] at h
    cases h

theorem parentCell_debug_failed (h : parentCell debug c l = .error .failedCheck) :
    l < 0 ∧ c = S2CellId.none := by
  rw [parentCell_debug] at h
  split at h
  · assumption
  · obtain ⟨d, hd⟩ := parentCell_release c l
    rw [hd] at h
    cases h

theorem parentRow_failed {level : List ℤ} {i : ℕ}
    (h : withParameter (parentCell debug) level c i = .error .failedCheck) :
    c = S2CellId.none ∧ ∃ l, level[i]? = some l ∧ l < 0 := by
  cases hl : level[i]? with
  | none =>
    rw [withParameter_of_none hl] at h
    cases h
  | some l =>
    rw [withParameter_of_some hl] at h
    obtain ⟨hneg, hnone⟩ := parentCell_debug_failed h
    exact ⟨hnone, l, rfl, hneg⟩

theorem rIsNA_of_parentRow {methods : CellMethods} {level : List ℤ} {i : ℕ} {d : S2CellId}
    (hc : c.isValid = false) (h : withParameter (parentCell methods) level c i = .ok d) :
    rIsNA d = true := by
  cases hl : level[i]? with
  | none =>
    rw [withParameter_of_none hl] at h
    cases h
  | some l =>
    rw [withParameter_of_some hl] at h
    exact rIsNA_of_parentCell hc h

theorem zipIdx_getElem?_eq_some_iff {xs : List β} {i : ℕ} {row : β × ℕ} :
    xs.zipIdx[i]? = some row ↔ xs[i]? = some row.1 ∧ row.2 = i := by
  rw [List.getElem?_zipIdx, Option.map_eq_some_iff, Nat.zero_add]
  constructor
  · rintro ⟨x, hx, rfl⟩
    exact ⟨hx, rfl⟩
  · rintro ⟨hx, rfl⟩
    exact ⟨row.1, hx, rfl⟩

/-- No method is called outside its precondition, and invalid ids give missing results. -/
structure ParentSafe (cellIds : List S2CellId) (level : List ℤ) : Prop where
  checks : cppS2CellParent debug cellIds level ≠ .error .failedCheck
  missing : ∀ out, cppS2CellParent debug cellIds level = .ok out → ∀ (i : ℕ) (c : S2CellId),
    cellIds[i]? = some c → c.isValid = false → ∃ d, out[i]? = some d ∧ rIsNA d = true

theorem parentSafe_iff (cellIds : List S2CellId) (level : List ℤ) : ParentSafe cellIds level ↔
    ∀ (i : ℕ) (l : ℤ), cellIds[i]? = some S2CellId.none → level[i]? = some l → 0 ≤ l := by
  constructor
  · rintro ⟨hchecks, -⟩ i l hc hl
    by_contra hneg
    have hfail : withParameter (parentCell debug) level S2CellId.none i = .error .failedCheck := by
      rw [withParameter_of_some hl, parentCell_debug, if_pos ⟨by omega, rfl⟩]
    have hrow : cellIds.zipIdx[i]? = some (S2CellId.none, i) :=
      zipIdx_getElem?_eq_some_iff.mpr ⟨hc, rfl⟩
    refine hchecks (CheckedRun.mapM_eq_error hrow hfail ?_)
    -- the parameter is long enough for the rows before
    intro j hj row hrow e he
    obtain ⟨-, hidx⟩ := zipIdx_getElem?_eq_some_iff.mp hrow
    have hlt : j < level.length := hj.trans (List.getElem?_eq_some_iff.mp hl).1
    rw [hidx, withParameter_of_some (List.getElem?_eq_getElem hlt)] at he
    exact parentCell_debug_error he
  · intro hgood
    constructor
    · intro hfail
      obtain ⟨row, hmem, hrow⟩ := CheckedRun.mapM_error hfail
      obtain ⟨i, hi⟩ := List.mem_iff_getElem?.mp hmem
      obtain ⟨hc, hidx⟩ := zipIdx_getElem?_eq_some_iff.mp hi
      rw [hidx] at hrow
      obtain ⟨hnone, l, hl, hneg⟩ := parentRow_failed hrow
      rw [hnone] at hc
      have h0 := hgood i l hc hl
      omega
    · intro out hrun i c hc hinvalid
      have hrow : cellIds.zipIdx[i]? = some (c, i) :=
        zipIdx_getElem?_eq_some_iff.mpr ⟨hc, rfl⟩
      obtain ⟨d, hd, hout⟩ := CheckedRun.mapM_ok_getElem? hrun hrow
      exact ⟨d, hout, rIsNA_of_parentRow hinvalid hd⟩

/-! ### Common ancestors -/

theorem debug_getCommonAncestorLevel {a b : S2CellId} (ha : a.isValid = true)
    (hb : b.isValid = true) :
    debug.getCommonAncestorLevel a b = release.getCommonAncestorLevel a b := by
  simp only [debug, check, bne_iff_ne.mpr (ne_none_of_isValid ha),
    bne_iff_ne.mpr (ne_none_of_isValid hb), Bool.and_self, if_true]

/-- A row of `cpp_s2_cell_common_ancestor_level`. -/
def commonAncestorRow (cellId1 cellId2 : S2CellId) : Option ℤ :=
  if cellId1.isValid && cellId2.isValid then some (cellId1.getCommonAncestorLevel cellId2)
  else none

theorem cppS2CellCommonAncestorLevel_debug (cellIds1 cellIds2 : List S2CellId) :
    cppS2CellCommonAncestorLevel debug cellIds1 cellIds2 =
      processCellVectors (fun a b => .ok (commonAncestorRow a b)) cellIds1 cellIds2 := by
  rw [cppS2CellCommonAncestorLevel]
  congr 1
  funext a b
  rw [commonAncestorRow]
  by_cases h : (a.isValid && b.isValid) = true
  · obtain ⟨ha, hb⟩ := Bool.and_eq_true_iff.mp h
    rw [if_pos h, if_pos h, debug_getCommonAncestorLevel ha hb]
    rfl
  · rw [if_neg h, if_neg h]
    rfl

theorem recycled_eq_of_lt {xs : List β} {i : ℕ} (hi : i < xs.length) :
    recycled xs i = some xs[i] := by
  rw [recycled, List.getElem?_eq_some_iff]
  split
  · rename_i hone
    obtain rfl : i = 0 := by omega
    exact ⟨hi, rfl⟩
  · exact ⟨hi, rfl⟩

/-- An operator whose rows do not fail gives the rows after recycling, or refuses to recycle. -/
theorem processCellVectors_ok (value : S2CellId → S2CellId → γ) (xs ys : List S2CellId) :
    (∃ out, processCellVectors (fun a b => .ok (value a b)) xs ys = .ok out ∧
      ∀ i < out.length, ∃ a b, recycled xs i = some a ∧ recycled ys i = some b ∧
        out[i]? = some (value a b)) ∨
    ∃ message, processCellVectors (fun a b => .ok (value a b)) xs ys =
      .error (.fault (.stop message)) := by
  have hpure : ∀ {δ : Type} (g : δ → γ) (zs : List δ),
      zs.mapM (fun z => (.ok (g z) : Except CellFault γ)) = .ok (zs.map g) :=
    fun g zs => CheckedRun.mapM_eq_pure zs fun _ _ => rfl
  unfold processCellVectors
  split
  · rename_i hlength
    refine Or.inl ⟨_, hpure (fun row => value row.1 row.2) (xs.zip ys), ?_⟩
    intro i hi
    have hix : i < xs.length := by
      rw [List.length_map, List.length_zip] at hi
      omega
    have hiy : i < ys.length := hlength ▸ hix
    refine ⟨xs[i], ys[i], ?_, ?_, ?_⟩
    · rw [recycled_eq_of_lt hix]
    · rw [recycled_eq_of_lt hiy]
    · rw [List.getElem?_map, List.getElem?_eq_getElem (by simpa using ⟨hix, hiy⟩),
        List.getElem_zip]
      rfl
  · split
    · rename_i a _
      refine Or.inl ⟨_, hpure (value a) ys, ?_⟩
      intro i hi
      rw [List.length_map] at hi
      refine ⟨a, ys[i], rfl, recycled_eq_of_lt hi, ?_⟩
      rw [List.getElem?_map, List.getElem?_eq_getElem hi]
      rfl
    · rename_i b _ _
      refine Or.inl ⟨_, hpure (fun a => value a b) xs, ?_⟩
      intro i hi
      rw [List.length_map] at hi
      refine ⟨xs[i], b, recycled_eq_of_lt hi, rfl, ?_⟩
      rw [List.getElem?_map, List.getElem?_eq_getElem hi]
      rfl
    · exact Or.inr ⟨_, rfl⟩

/-- As `ParentSafe`, for the cells of a row after recycling. -/
structure CommonAncestorSafe (cellIds1 cellIds2 : List S2CellId) : Prop where
  checks : cppS2CellCommonAncestorLevel debug cellIds1 cellIds2 ≠ .error .failedCheck
  missing : ∀ out, cppS2CellCommonAncestorLevel debug cellIds1 cellIds2 = .ok out →
    ∀ (i : ℕ) (c : S2CellId), i < out.length →
      recycled cellIds1 i = some c ∨ recycled cellIds2 i = some c → c.isValid = false →
      out[i]? = some none

theorem commonAncestorSafe (cellIds1 cellIds2 : List S2CellId) :
    CommonAncestorSafe cellIds1 cellIds2 := by
  rcases processCellVectors_ok commonAncestorRow cellIds1 cellIds2 with
    ⟨out, hrun, hrows⟩ | ⟨message, hrun⟩
  · rw [← cppS2CellCommonAncestorLevel_debug] at hrun
    constructor
    · rw [hrun]
      intro h
      cases h
    · intro out' hrun' i c hi hc hinvalid
      rw [hrun, Except.ok.injEq] at hrun'
      subst hrun'
      obtain ⟨a, b, ha, hb, hout⟩ := hrows i hi
      rw [hout, commonAncestorRow, if_neg]
      intro hvalid
      obtain ⟨hav, hbv⟩ := Bool.and_eq_true_iff.mp hvalid
      rcases hc with hc | hc
      · rw [ha, Option.some.injEq] at hc
        rw [hc, hinvalid] at hav
        exact Bool.noConfusion hav
      · rw [hb, Option.some.injEq] at hc
        rw [hc, hinvalid] at hbv
        exact Bool.noConfusion hbv
  · rw [← cppS2CellCommonAncestorLevel_debug] at hrun
    constructor
    · rw [hrun]
      intro h
      cases h
    · intro out hout
      rw [hrun] at hout
      cases hout

/-! ### The aggregate -/

/-- On valid cells the loop meets no failed check. -/
theorem commonAncestorLoop_debug {ids : List S2CellId} (hc : c.isValid = true)
    (hids : ValidIds ids) : commonAncestorLoop debug c ids = commonAncestorLoop release c ids := by
  induction ids generalizing c with
  | nil =>
    simp only [commonAncestorLoop, debug, check, bne_iff_ne.mpr (ne_none_of_isValid hc), if_true]
  | cons b ids ih =>
    have hb := hids b List.mem_cons_self
    have hrest : ValidIds ids := fun e he => hids e (List.mem_cons_of_mem _ he)
    rw [commonAncestorLoop, commonAncestorLoop, debug_getCommonAncestorLevel hc hb]
    change (if c.getCommonAncestorLevel b = -1 then pure (-1) else
        debug.parent c (c.getCommonAncestorLevel b) >>= fun d => commonAncestorLoop debug d ids) =
      if c.getCommonAncestorLevel b = -1 then pure (-1) else
        commonAncestorLoop release (c.parentAt (c.getCommonAncestorLevel b)) ids
    split
    · rfl
    · rename_i hne
      have h0 : 0 ≤ c.getCommonAncestorLevel b := by
        have hle := neg_one_le_getCommonAncestorLevel c b
        omega
      obtain ⟨hcl, -, -⟩ := (le_getCommonAncestorLevel_iff hc hb h0).mp le_rfl
      have hparent : debug.parent c (c.getCommonAncestorLevel b) =
          .ok (c.parentAt (c.getCommonAncestorLevel b)) := by
        simp only [debug, release, check, hc, decide_eq_true h0, decide_eq_true hcl,
          Bool.and_self, if_true]
      rw [hparent, ← ih (parentAt_spec hc h0 hcl).1 hrest]
      rfl

/-- Nothing else stops the loop. -/
theorem commonAncestorLoop_debug_error {ids : List S2CellId} {e : CellFault}
    (h : commonAncestorLoop debug c ids = .error e) : e = .failedCheck := by
  have hcheck : ∀ {α : Type} {holds : Bool} {value : α} {e : CellFault},
      check holds (.ok value) = .error e → e = .failedCheck := by
    intro α holds value e he
    rw [check] at he
    split at he
    · cases he
    · exact (Except.error.inj he).symm
  induction ids generalizing c with
  | nil => exact hcheck h
  | cons b ids ih =>
    rw [commonAncestorLoop] at h
    cases hlevel : debug.getCommonAncestorLevel c b with
    | error e' =>
      rw [hlevel] at h
      obtain rfl : e' = e := Except.error.inj h
      exact hcheck hlevel
    | ok level =>
      rw [hlevel] at h
      change (if level = -1 then pure (-1) else
        debug.parent c level >>= fun d => commonAncestorLoop debug d ids) = .error e at h
      split at h
      · cases h
      · cases hparent : debug.parent c level with
        | error e' =>
          rw [hparent] at h
          obtain rfl : e' = e := Except.error.inj h
          exact hcheck hparent
        | ok d =>
          rw [hparent] at h
          exact ih h

/-- As `ParentSafe`, for the single result of a vector. -/
structure AggSafe (cellIds : List S2CellId) : Prop where
  checks : cppS2CellCommonAncestorLevelAgg debug cellIds ≠ .error .failedCheck
  missing : ∀ level, cppS2CellCommonAncestorLevelAgg debug cellIds = .ok level →
    (∃ c ∈ cellIds, c.isValid = false) → level = none

theorem aggSafe_iff (cellIds : List S2CellId) : AggSafe cellIds ↔ ValidIds cellIds := by
  cases cellIds with
  | nil =>
    refine iff_of_true ⟨?_, ?_⟩ fun c hc => absurd hc List.not_mem_nil
    · intro h
      cases h
    · intro level hlevel _
      exact (Except.ok.inj hlevel).symm
  | cons b ids =>
    constructor
    · rintro ⟨hchecks, hmissing⟩ c hc
      by_contra hinvalid
      rw [cppS2CellCommonAncestorLevelAgg] at hchecks hmissing
      -- a run of the loop ends with a failed check or with a level
      cases hloop : commonAncestorLoop debug b ids with
      | error e =>
        rw [hloop, commonAncestorLoop_debug_error hloop] at hchecks
        exact hchecks rfl
      | ok level =>
        rw [hloop] at hmissing
        exact Option.some_ne_none level
          (hmissing (some level) rfl ⟨c, hc, Bool.eq_false_iff.mpr hinvalid⟩)
    · intro hvalid
      have hb := hvalid b List.mem_cons_self
      have hids : ValidIds ids := fun e he => hvalid e (List.mem_cons_of_mem _ he)
      obtain ⟨level, hrun, -⟩ := commonAncestorLoop_spec hb hids
      constructor
      · rw [cppS2CellCommonAncestorLevelAgg, commonAncestorLoop_debug hb hids, hrun]
        intro h
        cases h
      · rintro - - ⟨c, hc, hinvalid⟩
        rw [hvalid c hc] at hinvalid
        exact Bool.noConfusion hinvalid

/-- The preconditions hold exactly when no zero id has a negative level and the aggregate gets
valid cells only. -/
theorem preconditions_iff (cellIds : List S2CellId) (level : List ℤ)
    (cellIds1 cellIds2 aggregated : List S2CellId) :
    (ParentSafe cellIds level ∧ CommonAncestorSafe cellIds1 cellIds2 ∧ AggSafe aggregated) ↔
      (∀ (i : ℕ) (l : ℤ), cellIds[i]? = some S2CellId.none → level[i]? = some l → 0 ≤ l) ∧
        ValidIds aggregated := by
  rw [parentSafe_iff, aggSafe_iff]
  exact and_congr_right fun _ => and_iff_right (commonAncestorSafe cellIds1 cellIds2)

/-- The level of the id zero is asked for by a relative level, and by the aggregate. -/
theorem not_preconditions_zero : ¬ ParentSafe [S2CellId.none] [-1] ∧ ¬ AggSafe [S2CellId.none] :=
  ⟨fun h => h.checks rfl, fun h => h.checks rfl⟩

end S2Geography
