import S2Geography.CollectionAccessor
import S2Geography.ImporterTranslation

/-!
# The list of results

The importer writes its results into an allocated list, which it replaces by a longer one
when it is full and by a shorter one at the end. Reads and writes of a list are checked here
against its length. Whatever size a reader declares, all of them are in range, and the list
returned is the one that a collector without any capacity returns.
-/
namespace S2Geography

open Exporter Constructor

section

variable {α : Type}

/-- `SET_VECTOR_ELT`. -/
def setVectorElt (x : List α) (i : ℕ) (v : α) : Except Fault (List α) :=
  if i < x.length then .ok (x.set i v) else .error .outOfBounds

/-- `VECTOR_ELT`. -/
def vectorElt (x : List α) (i : ℕ) : Except Fault α :=
  match x[i]? with
  | some v => .ok v
  | none => .error .outOfBounds

/-- The loop that copies the first `n` elements to a new list. -/
def copyElements (source : List α) (n : ℕ) (target : List α) : Except Fault (List α) :=
  (List.range n).foldlM (fun target i => do
    let v ← vectorElt source i
    setVectorElt target i v) target

theorem setVectorElt_of_lt {x : List α} {i : ℕ} (h : i < x.length) (v : α) :
    setVectorElt x i v = .ok (x.set i v) := if_pos h

theorem vectorElt_of_lt {x : List α} {i : ℕ} (h : i < x.length) :
    vectorElt x i = .ok x[i] := by
  rw [vectorElt, List.getElem?_eq_getElem h]

/-- All reads and writes of the loop are in range if both lists are long enough. -/
theorem copyElements_eq {source target : List α} {n : ℕ} (hsource : n ≤ source.length)
    (htarget : n ≤ target.length) :
    copyElements source n target = .ok (source.take n ++ target.drop n) := by
  induction n with
  | zero => rfl
  | succ n ih =>
    have hn : n < source.length := hsource
    have hcopied : (source.take n ++ target.drop n).length = target.length := by
      rw [List.length_append, List.length_take, List.length_drop]
      omega
    have hdrop : target.drop n = target[n] :: target.drop (n + 1) := List.drop_eq_getElem_cons _
    have hset : (source.take n ++ target.drop n).set n source[n] =
        source.take (n + 1) ++ target.drop (n + 1) := by
      rw [List.set_append_right _ _ (by simp), hdrop, List.length_take_of_le hn.le, Nat.sub_self,
        List.set_cons_zero, List.take_succ_eq_append_getElem hn, List.append_assoc]
      rfl
    rw [copyElements, List.range_succ, List.foldlM_append]
    change copyElements source n target >>= _ = _
    rw [ih hn.le (by omega)]
    change (do let v ← vectorElt source n
               setVectorElt (source.take n ++ target.drop n) n v) >>= pure = _
    rw [vectorElt_of_lt hn]
    change setVectorElt (source.take n ++ target.drop n) n source[n] >>= pure = _
    rw [setVectorElt_of_lt (by omega), hset]
    rfl

end

variable {L Pg : Type}

namespace BuilderHandler

/-! ### The checked importer -/

/-- `builder_result_append`. -/
def checkedAppend (value : Option (Geography Pg)) (data : BuilderHandler L Pg) :
    Except Fault (BuilderHandler L Pg) := do
  let current := data.result.getD []
  let currentSize := current.length
  let result ← if data.featId ≥ currentSize then
      copyElements current currentSize (List.replicate (currentSize * 2 + 1) none)
    else .ok current
  let result ← setVectorElt result data.featId value
  return { data with result := some result, featId := data.featId + 1 }

/-- `builder_result_finalize`. -/
def checkedFinalize (data : BuilderHandler L Pg) : Except Fault (List (Option (Geography Pg))) :=
  let current := data.result.getD []
  if data.featId ≠ current.length then
    copyElements current data.featId (List.replicate data.featId none)
  else .ok current

/-- The handler with its list checked. -/
def checkedHandler (lib : S2Lib L Pg) (options : Options) :
    WkHandler (BuilderHandler L Pg) (List (Option (Geography Pg))) where
  vectorStart := vectorStart
  featureStart := featureStart lib options
  nullFeature := fun data => do
    let data ← data.checkedAppend none
    return (.abortFeature, data)
  event := event lib options
  featureEnd := fun data => do
    let (feat, builder) ← finishFeature lib options data.builder
    let data ← { data with builder }.checkedAppend (some feat)
    return (.continue, data)
  vectorEnd := checkedFinalize

theorem checkedAppend_eq {data : BuilderHandler L Pg}
    (h : data.featId ≤ (data.result.getD []).length) (value : Option (Geography Pg)) :
    data.checkedAppend value = .ok (data.resultAppend value) := by
  by_cases hfull : data.featId ≥ (data.result.getD []).length
  · have htarget : (List.replicate ((data.result.getD []).length * 2 + 1)
        (none : Option (Geography Pg))).drop (data.result.getD []).length =
        List.replicate ((data.result.getD []).length + 1) none := by
      rw [List.drop_replicate]
      congr 1
      omega
    have hcopy : copyElements (data.result.getD []) (data.result.getD []).length
        (List.replicate ((data.result.getD []).length * 2 + 1) none) =
        .ok (data.result.getD [] ++ List.replicate ((data.result.getD []).length + 1) none) := by
      rw [copyElements_eq le_rfl (by rw [List.length_replicate]; omega), List.take_length, htarget]
    have hset := setVectorElt_of_lt (x := data.result.getD [] ++
      List.replicate ((data.result.getD []).length + 1) none) (i := data.featId)
      (by rw [List.length_append, List.length_replicate]; omega) value
    simp only [checkedAppend, resultAppend, if_pos hfull, hcopy]
    change setVectorElt _ data.featId value >>= _ = _
    rw [hset]
    rfl
  · simp only [checkedAppend, resultAppend, if_neg hfull]
    change setVectorElt _ data.featId value >>= _ = _
    rw [setVectorElt_of_lt (by omega)]
    rfl

theorem checkedFinalize_eq {data : BuilderHandler L Pg}
    (h : data.featId ≤ (data.result.getD []).length) :
    data.checkedFinalize = .ok data.resultFinalize := by
  unfold checkedFinalize resultFinalize
  by_cases hlength : data.featId = (data.result.getD []).length
  · simp only [ne_eq, hlength, not_true_eq_false, if_false, List.take_length]
  · simp only [ne_eq, hlength, not_false_eq_true, if_true]
    rw [copyElements_eq h (by rw [List.length_replicate])]
    simp

end BuilderHandler

/-! ### Handlers that run alike -/

/-- Both calls fail in the same way, or neither does and the states they leave are related. -/
def RunsAlike {σ τ : Type} (R : σ → τ → Prop) (run : Except Fault (WkResult × σ))
    (run' : Except Fault (WkResult × τ)) : Prop :=
  (∃ fault, run = .error fault ∧ run' = .error fault) ∨
    ∃ result s t, run = .ok (result, s) ∧ run' = .ok (result, t) ∧ R s t

/-- What follows a call, unless its answer ends the feature. -/
theorem RunsAlike.andThen {σ τ : Type} {R : σ → τ → Prop} {run : Except Fault (WkResult × σ)}
    {run' : Except Fault (WkResult × τ)}
    {next : σ → Except Fault (WkResult × σ)} {next' : τ → Except Fault (WkResult × τ)}
    (h : RunsAlike R run run') (hnext : ∀ s t, R s t → RunsAlike R (next s) (next' t)) :
    RunsAlike R
      (run >>= fun p => if p.1 ≠ .continue then return (p.1, p.2) else next p.2)
      (run' >>= fun p => if p.1 ≠ .continue then return (p.1, p.2) else next' p.2) := by
  obtain ⟨fault, rfl, rfl⟩ | ⟨result, s, t, rfl, rfl, hR⟩ := h
  · exact Or.inl ⟨fault, rfl, rfl⟩
  · cases result with
    | «continue» => exact hnext s t hR
    | abort => exact Or.inr ⟨.abort, s, t, rfl, rfl, hR⟩
    | abortFeature => exact Or.inr ⟨.abortFeature, s, t, rfl, rfl, hR⟩

/-- The callbacks of two handlers preserve a relation between their data. -/
structure WkHandler.Simulates {σ τ ρ : Type} (handler : WkHandler σ ρ)
    (handler' : WkHandler τ ρ) (R : σ → τ → Prop) : Prop where
  featureStart : ∀ {s t}, R s t → RunsAlike R (handler.featureStart s) (handler'.featureStart t)
  nullFeature : ∀ {s t}, R s t → RunsAlike R (handler.nullFeature s) (handler'.nullFeature t)
  event : ∀ e {s t}, R s t → RunsAlike R (handler.event e s) (handler'.event e t)
  featureEnd : ∀ {s t}, R s t → RunsAlike R (handler.featureEnd s) (handler'.featureEnd t)
  vectorEnd : ∀ {s t}, R s t → handler.vectorEnd s = handler'.vectorEnd t

namespace WkHandler

variable {σ τ ρ F : Type} {R : σ → τ → Prop} {handler : WkHandler σ ρ} {handler' : WkHandler τ ρ}

theorem Simulates.feed (h : handler.Simulates handler' R) (es : List WkEvent) {s : σ} {t : τ}
    (hR : R s t) : RunsAlike R (handler.feed es s) (handler'.feed es t) := by
  induction es generalizing s t with
  | nil => exact Or.inr ⟨.continue, s, t, rfl, rfl, hR⟩
  | cons e es ih => exact (h.event e hR).andThen fun s t hR => ih hR

theorem Simulates.readFeature (h : handler.Simulates handler' R) (emit : F → List WkEvent)
    (item : Option F) {s : σ} {t : τ} (hR : R s t) :
    RunsAlike R (handler.readFeature emit item s) (handler'.readFeature emit item t) := by
  cases item with
  | none =>
    exact (h.featureStart hR).andThen fun s t hR =>
      (h.nullFeature hR).andThen fun s t hR => h.featureEnd hR
  | some feature =>
    exact (h.featureStart hR).andThen fun s t hR =>
      (h.feed (emit feature) hR).andThen fun s t hR => h.featureEnd hR

theorem Simulates.readFeatures (h : handler.Simulates handler' R) (emit : F → List WkEvent)
    (features : List (Option F)) {s : σ} {t : τ} (hR : R s t) :
    (handler.readFeatures emit features s >>= handler.vectorEnd) =
      (handler'.readFeatures emit features t >>= handler'.vectorEnd) := by
  induction features generalizing s t with
  | nil => exact h.vectorEnd hR
  | cons item features ih =>
    rw [WkHandler.readFeatures, WkHandler.readFeatures]
    obtain ⟨fault, hs, ht⟩ | ⟨result, s', t', hs, ht, hR'⟩ := h.readFeature emit item hR
    · rw [hs, ht]
      rfl
    · rw [hs, ht]
      by_cases habort : result = .abort
      · subst habort
        exact h.vectorEnd hR'
      · change (if result = .abort then return s' else handler.readFeatures emit features s') >>= _
          = (if result = .abort then return t' else handler'.readFeatures emit features t') >>= _
        rw [if_neg habort, if_neg habort]
        exact ih hR'

end WkHandler

/-! ### The collector -/

/-- An importer whose results are a list that grows by one value at a time. -/
structure Collector (L Pg : Type) where
  builder : CollectionConstructor L Pg
  coordSize : ℕ
  appended : List (Option (Geography Pg))

namespace Collector

def new : Collector L Pg := ⟨.new, 2, []⟩

/-- The importer's data without a list. -/
def data (s : Collector L Pg) : BuilderHandler L Pg := ⟨s.builder, none, 0, s.coordSize⟩

def append (value : Option (Geography Pg)) (s : Collector L Pg) : Collector L Pg :=
  { s with appended := s.appended ++ [value] }

/-- A callback of the importer that does not touch the list. -/
def lift (callback : BuilderHandler L Pg → Except Fault (WkResult × BuilderHandler L Pg))
    (s : Collector L Pg) : Except Fault (WkResult × Collector L Pg) := do
  let (result, data) ← callback s.data
  return (result, ⟨data.builder, data.coordSize, s.appended⟩)

def handler (lib : S2Lib L Pg) (options : Options) :
    WkHandler (Collector L Pg) (List (Option (Geography Pg))) where
  vectorStart := fun _ s => .ok (.continue, s)
  featureStart := lift (BuilderHandler.featureStart lib options)
  nullFeature := fun s => .ok (.abortFeature, s.append none)
  event := fun e => lift (BuilderHandler.event lib options e)
  featureEnd := fun s => do
    let (feat, builder) ← finishFeature lib options s.builder
    return (.continue, { s with builder }.append (some feat))
  vectorEnd := fun s => .ok s.appended

/-- The list starts with the values appended, and `feat_id` counts them. -/
structure Holds (data : BuilderHandler L Pg) (s : Collector L Pg) : Prop where
  builder : data.builder = s.builder
  coordSize : data.coordSize = s.coordSize
  featId : data.featId = s.appended.length
  result : (data.result.getD []).take s.appended.length = s.appended

variable {lib : S2Lib L Pg} {options : Options}

theorem Holds.featId_le {data : BuilderHandler L Pg} {s : Collector L Pg} (h : Holds data s) :
    data.featId ≤ (data.result.getD []).length := by
  have hlength := congrArg List.length h.result
  rw [List.length_take] at hlength
  rw [h.featId]
  omega

/-- An append to the list is checked, and keeps the values before. -/
theorem Holds.append {data : BuilderHandler L Pg} {s : Collector L Pg} (h : Holds data s)
    (value : Option (Geography Pg)) :
    ∃ data', data.checkedAppend value = .ok data' ∧ Holds data' (s.append value) := by
  refine ⟨data.resultAppend value, BuilderHandler.checkedAppend_eq h.featId_le value, ?_⟩
  constructor
  case builder => exact h.builder
  case coordSize => exact h.coordSize
  case featId =>
    change data.featId + 1 = (s.appended ++ [value]).length
    rw [List.length_append, h.featId]
    rfl
  case result =>
    change List.take (s.appended ++ [value]).length _ = s.appended ++ [value]
    rw [List.length_append]
    exact BuilderHandler.resultAppend_result h.featId h.result value

/-- The callbacks that make a call on the builder leave the list as it is. -/
theorem runsAlike_lift
    {callback : BuilderHandler L Pg → Except Fault (WkResult × BuilderHandler L Pg)}
    (hframe : ∀ data, callback data = (callback ⟨data.builder, none, 0, data.coordSize⟩).map
      fun p => (p.1, { p.2 with result := data.result, featId := data.featId }))
    {data : BuilderHandler L Pg} {s : Collector L Pg} (h : Holds data s) :
    RunsAlike Holds (callback data) (lift callback s) := by
  have hdata : (⟨data.builder, none, 0, data.coordSize⟩ : BuilderHandler L Pg) = s.data := by
    rw [h.builder, h.coordSize]
    rfl
  rw [hframe data, hdata, lift]
  cases callback s.data with
  | error fault => exact Or.inl ⟨fault, rfl, rfl⟩
  | ok p => exact Or.inr ⟨p.1, _, _, rfl, rfl, rfl, rfl, h.featId, h.result⟩

theorem featureStart_frame (data : BuilderHandler L Pg) :
    BuilderHandler.featureStart lib options data =
      (BuilderHandler.featureStart lib options ⟨data.builder, none, 0, data.coordSize⟩).map
        fun p => (p.1, { p.2 with result := data.result, featId := data.featId }) := by
  unfold BuilderHandler.featureStart
  cases featStart lib options data.builder <;> rfl

theorem event_frame (e : WkEvent) (data : BuilderHandler L Pg) :
    BuilderHandler.event lib options e data =
      (BuilderHandler.event lib options e ⟨data.builder, none, 0, data.coordSize⟩).map
        fun p => (p.1, { p.2 with result := data.result, featId := data.featId }) := by
  have hcall : ∀ (call : HandlerEvent) (data : BuilderHandler L Pg), data.call lib options call =
      (BuilderHandler.call lib options call ⟨data.builder, none, 0, data.coordSize⟩).map
        fun p => (p.1, { p.2 with result := data.result, featId := data.featId }) := by
    intro call data
    unfold BuilderHandler.call
    cases CollectionConstructor.handle lib options call data.builder <;> rfl
  cases e with
  | geometryStart geom => exact hcall _ { data with coordSize := geom.coordSize }
  | ringStart geom size => exact hcall _ data
  | coord geom coord => exact hcall _ data
  | ringEnd geom size => exact hcall _ data
  | geometryEnd geom => exact hcall _ data
  | error message => rfl

/-- The importer does what the collector does, and never leaves its list. -/
theorem checkedHandler_simulates (lib : S2Lib L Pg) (options : Options) :
    (BuilderHandler.checkedHandler lib options).Simulates (handler lib options) Holds where
  featureStart := runsAlike_lift featureStart_frame
  nullFeature := by
    intro data s h
    obtain ⟨data', happend, hholds⟩ := h.append none
    refine Or.inr ⟨.abortFeature, data', s.append none, ?_, rfl, hholds⟩
    change data.checkedAppend none >>= _ = _
    rw [happend]
    rfl
  event e := runsAlike_lift (event_frame e)
  featureEnd := by
    intro data s h
    change RunsAlike Holds (finishFeature lib options data.builder >>= _)
      (finishFeature lib options s.builder >>= _)
    rw [h.builder]
    cases hfinish : finishFeature lib options s.builder with
    | error fault => exact Or.inl ⟨fault, rfl, rfl⟩
    | ok p =>
      have hbuilt : Holds { data with builder := p.2 } { s with builder := p.2 } :=
        ⟨rfl, h.coordSize, h.featId, h.result⟩
      obtain ⟨data', happend, hholds⟩ := hbuilt.append (some p.1)
      refine Or.inr ⟨.continue, data', _, ?_, rfl, hholds⟩
      change BuilderHandler.checkedAppend (some p.1) { data with builder := p.2 } >>= _ = _
      rw [happend]
      rfl
  vectorEnd := by
    intro data s h
    change data.checkedFinalize = .ok s.appended
    rw [BuilderHandler.checkedFinalize_eq h.featId_le, BuilderHandler.resultFinalize, h.featId,
      h.result]

/-! ### Values and features -/

/-- The call is answered with `WK_CONTINUE`, and appends nothing. -/
def Continues (s : Collector L Pg) (run : Except Fault (WkResult × Collector L Pg)) : Prop :=
  ∀ result s', run = .ok (result, s') → result = .continue ∧ s'.appended = s.appended

theorem continues_lift
    {callback : BuilderHandler L Pg → Except Fault (WkResult × BuilderHandler L Pg)}
    (hcontinue : ∀ data result data', callback data = .ok (result, data') → result = .continue)
    (s : Collector L Pg) : Continues s (lift callback s) := by
  intro result s' h
  obtain ⟨⟨result', data⟩, hcall, hout⟩ := exists_of_bind_ok h
  cases hout
  exact ⟨hcontinue s.data result data hcall, rfl⟩

theorem continues_featureStart (s : Collector L Pg) :
    Continues s ((handler lib options).featureStart s) := by
  refine continues_lift (fun data result data' h => ?_) s
  obtain ⟨builder, -, hout⟩ := exists_of_bind_ok h
  cases hout
  rfl

theorem continues_event (e : WkEvent) (s : Collector L Pg) :
    Continues s ((handler lib options).event e s) := by
  refine continues_lift (fun data result data' h => ?_) s
  have hcall : ∀ (call : HandlerEvent) (data : BuilderHandler L Pg),
      data.call lib options call = .ok (result, data') → result = .continue := by
    intro call data h
    obtain ⟨builder, -, hout⟩ := exists_of_bind_ok h
    cases hout
    rfl
  cases e with
  | error message => cases h
  | geometryStart | ringStart | coord | ringEnd | geometryEnd => exact hcall _ _ h

theorem continues_feed (es : List WkEvent) (s : Collector L Pg) :
    Continues s ((handler lib options).feed es s) := by
  induction es generalizing s with
  | nil =>
    intro result s' h
    cases h
    exact ⟨rfl, rfl⟩
  | cons e es ih =>
    intro result s' h
    obtain ⟨⟨first, s1⟩, hevent, h⟩ := exists_of_bind_ok h
    obtain ⟨rfl, happended⟩ := continues_event e s first s1 hevent
    obtain ⟨hresult, hrest⟩ := ih s1 result s' h
    exact ⟨hresult, hrest.trans happended⟩

/-- Every feature appends one value, missing if the feature is, and never aborts the vector. -/
theorem appended_readFeature {F : Type} (emit : F → List WkEvent) (item : Option F)
    {s s' : Collector L Pg} {result : WkResult}
    (h : (handler lib options).readFeature emit item s = .ok (result, s')) :
    result ≠ .abort ∧
      ∃ value, s'.appended = s.appended ++ [value] ∧ value.isSome = item.isSome := by
  obtain ⟨⟨started, s1⟩, hstart, h⟩ := exists_of_bind_ok h
  obtain ⟨rfl, hs1⟩ := continues_featureStart s started s1 hstart
  cases item with
  | none =>
    cases h
    exact ⟨by decide, none, congrArg (· ++ [none]) hs1, rfl⟩
  | some feature =>
    obtain ⟨⟨fed, s2⟩, hfeed, h⟩ := exists_of_bind_ok h
    obtain ⟨rfl, hs2⟩ := continues_feed (emit feature) s1 fed s2 hfeed
    obtain ⟨⟨feat, builder⟩, -, hout⟩ := exists_of_bind_ok h
    cases hout
    exact ⟨by decide, some feat, congrArg (· ++ [some feat]) (hs2.trans hs1), rfl⟩

/-- The values appended while features are read match these one by one. -/
theorem appended_readFeatures {F : Type} (emit : F → List WkEvent) (items : List (Option F))
    {s s' : Collector L Pg} (h : (handler lib options).readFeatures emit items s = .ok s') :
    ∃ values, s'.appended = s.appended ++ values ∧
      List.Forall₂ (fun item value => value.isSome = item.isSome) items values := by
  induction items generalizing s with
  | nil =>
    cases h
    exact ⟨[], (List.append_nil _).symm, .nil⟩
  | cons item items ih =>
    obtain ⟨⟨result, s1⟩, hfeature, h⟩ := exists_of_bind_ok h
    obtain ⟨habort, value, hvalue, hsome⟩ := appended_readFeature emit item hfeature
    change (if result = .abort then return s1 else _) = Except.ok s' at h
    rw [if_neg habort] at h
    obtain ⟨values, hvalues, hforall⟩ := ih h
    refine ⟨value :: values, ?_, .cons hsome hforall⟩
    rw [hvalues, hvalue, List.append_assoc]
    rfl

end Collector

/-- For every declared size the importer returns what the collector appends, and fails only
where the builder does: its list is never read or written out of range. The values are as
many as the features, and missing where these are. -/
theorem checkedHandler_handleVector {F : Type} (lib : S2Lib L Pg) (options : Options)
    (emit : F → List WkEvent) (size : Option ℕ) (items : List (Option F)) :
    (BuilderHandler.checkedHandler lib options).handleVector emit size items .new =
        (Collector.handler lib options).handleVector emit size items .new ∧
      ∀ out, (BuilderHandler.checkedHandler lib options).handleVector emit size items .new =
          .ok out →
        out.length = items.length ∧
        List.Forall₂ (fun item value => value.isSome = item.isSome) items out := by
  have hstart : Collector.Holds (BuilderHandler.allocated size) (.new : Collector L Pg) :=
    ⟨rfl, rfl, rfl, rfl⟩
  have hsame : (BuilderHandler.checkedHandler lib options).handleVector emit size items .new =
      (Collector.handler lib options).handleVector emit size items .new :=
    (Collector.checkedHandler_simulates lib options).readFeatures emit items hstart
  refine ⟨hsame, fun out h => ?_⟩
  rw [hsame] at h
  change ((Collector.handler lib options).readFeatures emit items .new >>= _) = Except.ok out at h
  obtain ⟨s, hs, hout⟩ := exists_of_bind_ok h
  obtain ⟨values, hvalues, hforall⟩ := Collector.appended_readFeatures emit items hs
  cases hout
  have hnil : (Collector.new : Collector L Pg).appended ++ values = values := rfl
  rw [hvalues, hnil]
  exact ⟨hforall.length_eq.symm, hforall⟩

end S2Geography
