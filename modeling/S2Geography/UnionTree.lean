import S2Geography.UnionAggregator
import Mathlib.Data.List.Induction
import Mathlib.Data.List.Perm.Basic

/-!
# The tree of unions

What `Finalize` returns is the value of a tree of binary unions with every added geography
at one leaf. The invariant is that the nodes together hold such trees: a merge, a pass of
the pairing loop and `Add` keep it.
-/
namespace S2Geography.UnionAggregator

variable {Pg P : Type}

mutual

/-- A tree of binary unions, as a derivation: the first list holds the geographies that
take part, in the order of the leaves, and the second argument is the value. -/
inductive Evaluates (ops : UnionOps Pg) (actions : LayerActions) :
    List (Geography Pg) → Geography Pg → Prop
  | input (g : Geography Pg) : Evaluates ops actions [g] g
  | union {leaves1 leaves2 index1 index2 : List (Geography Pg)} {value : Geography Pg} :
    EvaluatesAll ops actions leaves1 index1 → EvaluatesAll ops actions leaves2 index2 →
      s2BooleanUnion ops actions index1 index2 = .ok value →
      Evaluates ops actions (leaves1 ++ leaves2) value

/-- Every geography of an index is the value of such a tree. -/
inductive EvaluatesAll (ops : UnionOps Pg) (actions : LayerActions) :
    List (Geography Pg) → List (Geography Pg) → Prop
  | nil : EvaluatesAll ops actions [] []
  | add {leaves1 leaves2 index : List (Geography Pg)} {g : Geography Pg} :
    EvaluatesAll ops actions leaves1 index → Evaluates ops actions leaves2 g →
      EvaluatesAll ops actions (leaves1 ++ leaves2) (index ++ [g])

end

section Spec

variable {ops : UnionOps Pg} {actions : LayerActions}

/-- A fault that some union raised, so none of the loop's own indexing. -/
def Raised (ops : UnionOps Pg) (actions : LayerActions) (fault : Fault) : Prop :=
  ∃ index1 index2 text, fault = .stop text ∧
    s2BooleanUnion ops actions index1 index2 = .error fault

/-- The call returns a value with the property, or a union raised an error. -/
def Outcome {α : Type} (ops : UnionOps Pg) (actions : LayerActions) (result : Except Fault α)
    (post : α → Prop) : Prop :=
  match result with
  | .ok value => post value
  | .error fault => Raised ops actions fault

theorem Outcome.bind {α β : Type} {x : Except Fault α} {f : α → Except Fault β}
    {p : α → Prop} {q : β → Prop} (hx : Outcome ops actions x p)
    (hf : ∀ a, p a → Outcome ops actions (f a) q) : Outcome ops actions (x >>= f) q := by
  cases x with
  | ok a => exact hf a hx
  | error fault => exact hx

theorem Outcome.mono {α : Type} {x : Except Fault α} {p q : α → Prop}
    (hx : Outcome ops actions x p) (h : ∀ a, p a → q a) : Outcome ops actions x q := by
  cases x with
  | ok a => exact h a hx
  | error fault => exact hx

theorem layerUsed_error {hasLayer : Bool} {action : OutputAction} {what : String}
    {fault : Fault} (h : layerUsed hasLayer action what = .error fault) :
    ∃ text, fault = .stop text := by
  unfold layerUsed at h
  split at h
  · exact ⟨_, (Except.error.inj h).symm⟩
  · split at h <;> simp at h

theorem s2GeographyFromLayers_error {layers : Layers Pg} {fault : Fault}
    (h : s2GeographyFromLayers ops actions layers = .error fault) :
    ∃ text, fault = .stop text := by
  unfold s2GeographyFromLayers at h
  cases h₁ : layerUsed (!ops.polygonIsEmpty layers.polygon) actions.polygonLayerAction
    "polygon" with
  | error fault' =>
    simp only [h₁, bind, Except.bind] at h
    exact Except.error.inj h ▸ layerUsed_error h₁
  | ok hasPolygon =>
    cases h₂ : layerUsed (!layers.polylines.isEmpty) actions.polylineLayerAction
      "polylines" with
    | error fault' =>
      simp only [h₁, h₂, bind, Except.bind] at h
      exact Except.error.inj h ▸ layerUsed_error h₂
    | ok hasPolylines =>
      cases h₃ : layerUsed (!layers.points.isEmpty) actions.pointLayerAction "points" with
      | error fault' =>
        simp only [h₁, h₂, h₃, bind, Except.bind] at h
        exact Except.error.inj h ▸ layerUsed_error h₃
      | ok hasPoints => simp [h₁, h₂, h₃, bind, Except.bind, pure, Except.pure] at h

theorem s2BooleanUnion_outcome (index1 index2 : List (Geography Pg)) :
    Outcome ops actions (s2BooleanUnion ops actions index1 index2)
      (fun value => s2BooleanUnion ops actions index1 index2 = .ok value) := by
  cases h : s2BooleanUnion ops actions index1 index2 with
  | ok value => rfl
  | error fault =>
    have htext : ∃ text, fault = .stop text := by
      unfold s2BooleanUnion at h
      split at h
      · exact ⟨_, (Except.error.inj h).symm⟩
      · exact s2GeographyFromLayers_error h
    obtain ⟨text, ht⟩ := htext
    exact ⟨index1, index2, text, ht, h⟩

/-- The leaves below the two indexes of a node. -/
def NodeHolds (ops : UnionOps Pg) (actions : LayerActions) (node : Node Pg)
    (leaves : List (Geography Pg)) : Prop :=
  ∃ leaves1 leaves2, EvaluatesAll ops actions leaves1 node.index1 ∧
    EvaluatesAll ops actions leaves2 node.index2 ∧ leaves = leaves1 ++ leaves2

/-- The leaves below a list of nodes, in any order. -/
def NodesHold (ops : UnionOps Pg) (actions : LayerActions) (nodes : List (Node Pg))
    (leaves : List (Geography Pg)) : Prop :=
  ∃ parts, List.Forall₂ (NodeHolds ops actions) nodes parts ∧ parts.flatten.Perm leaves

theorem evaluatesAll_single {leaves : List (Geography Pg)} {g : Geography Pg}
    (h : Evaluates ops actions leaves g) : EvaluatesAll ops actions leaves [g] :=
  EvaluatesAll.add EvaluatesAll.nil h

theorem NodeHolds.merge {node : Node Pg} {leaves : List (Geography Pg)}
    (h : NodeHolds ops actions node leaves) :
    Outcome ops actions (node.merge ops actions) (Evaluates ops actions leaves) := by
  obtain ⟨leaves1, leaves2, h1, h2, rfl⟩ := h
  exact (s2BooleanUnion_outcome node.index1 node.index2).mono
    fun value hvalue => Evaluates.union h1 h2 hvalue

/-- Taking two neighbouring nodes out and putting one with both their values at the end
keeps the leaves. -/
theorem mergeLastTwo_spec {other : List (Node Pg)} {leaves : List (Geography Pg)} {i : ℕ}
    (hi : i + 1 < other.length) (h : NodesHold ops actions other leaves) :
    Outcome ops actions (mergeLastTwo ops actions i other)
      (fun out => NodesHold ops actions out leaves ∧ out.length + 1 = other.length) := by
  obtain ⟨parts, hparts, hperm⟩ := h
  have hlen := hparts.length_eq
  have hi' : i + 1 < parts.length := hlen ▸ hi
  have hnode : other[i + 1]? = some other[i + 1] := List.getElem?_eq_getElem hi
  have hprev : other[i]? = some other[i] := List.getElem?_eq_getElem (by omega)
  have hget := fun (j : ℕ) (hj : j < other.length) => hparts.get hj (hlen ▸ hj)
  simp only [mergeLastTwo, hnode, hprev]
  refine (NodeHolds.merge (hget (i + 1) hi)).bind fun merged hmerged => ?_
  refine (NodeHolds.merge (hget i (by omega))).bind fun mergedPrev hmergedPrev => ?_
  refine ⟨⟨parts.take i ++ parts.drop (i + 2) ++ [parts[i + 1] ++ parts[i]], ?_, ?_⟩, ?_⟩
  · refine List.rel_append (List.rel_append (List.forall₂_take i hparts)
      (List.forall₂_drop (i + 2) hparts)) (List.Forall₂.cons ?_ List.Forall₂.nil)
    exact ⟨_, _, evaluatesAll_single hmerged, evaluatesAll_single hmergedPrev, rfl⟩
  · have hsplit : parts = parts.take i ++ parts[i] :: parts[i + 1] :: parts.drop (i + 2) := by
      rw [List.getElem_cons_drop, List.getElem_cons_drop, List.take_append_drop]
    refine List.Perm.trans ?_ hperm
    conv_rhs => rw [hsplit]
    simp only [List.flatten_append, List.flatten_cons, List.flatten_nil, List.append_nil,
      List.append_assoc]
    refine List.Perm.append_left _ (List.perm_append_comm.trans ?_)
    rw [List.append_assoc]
    exact (List.perm_append_comm_assoc _ _ _)
  · simp only [List.length_append, List.length_take, List.length_drop, List.length_singleton]
    omega

theorem pairingLoop_spec {leaves : List (Geography Pg)} :
    ∀ (i : ℕ) (other : List (Node Pg)), i < other.length ∨ i = 0 →
      NodesHold ops actions other leaves →
      Outcome ops actions (pairingLoop ops actions i other)
        (fun out => NodesHold ops actions out leaves ∧ out.length + (i + 1) / 2 = other.length)
  | 0, other, _, h => ⟨h, by omega⟩
  | 1, other, hi, h => (mergeLastTwo_spec (by omega) h).mono fun out hout => ⟨hout.1, by omega⟩
  | i + 2, other, hi, h => by
    refine (mergeLastTwo_spec (i := i + 1) (by omega) h).bind fun mid hmid => ?_
    refine (pairingLoop_spec i mid (by omega) hmid.1).mono fun out hout => ⟨hout.1, ?_⟩
    have hlen := hout.2
    have hlen' := hmid.2
    omega

/-- Every pass halves the number of nodes, rounding up, so enough passes leave one. -/
theorem passes_spec {leaves : List (Geography Pg)} (j : ℕ) (other : List (Node Pg))
    (hlen : other.length ≤ 2 ^ j) (h : NodesHold ops actions other leaves) :
    Outcome ops actions (passes ops actions j other)
      (fun out => NodesHold ops actions out leaves ∧ out.length ≤ 1) := by
  induction j generalizing other with
  | zero => exact ⟨h, by simpa using hlen⟩
  | succ j ih =>
    unfold passes
    split
    · next hle => exact ⟨h, hle⟩
    · next hgt =>
      refine (pairingLoop_spec (other.length - 1) other (by omega) h).bind fun mid hmid => ?_
      have hmid' := hmid.2
      rw [Nat.pow_succ] at hlen
      exact ih mid (by omega) hmid.1

theorem NodesHold.snoc {nodes : List (Node Pg)} {node : Node Pg}
    {leaves leaves' : List (Geography Pg)} (h : NodesHold ops actions nodes leaves)
    (hnode : NodeHolds ops actions node leaves') :
    NodesHold ops actions (nodes ++ [node]) (leaves ++ leaves') := by
  obtain ⟨parts, hparts, hperm⟩ := h
  refine ⟨parts ++ [leaves'], List.rel_append hparts (List.Forall₂.cons hnode List.Forall₂.nil), ?_⟩
  simpa using hperm.append_right leaves'

/-- The leaves below the last node, and those below the nodes before it. -/
theorem NodesHold.exists_last {nodes : List (Node Pg)} {node : Node Pg}
    {leaves : List (Geography Pg)} (h : NodesHold ops actions (nodes ++ [node]) leaves) :
    ∃ leaves1 leaves2, NodesHold ops actions nodes leaves1 ∧
      NodeHolds ops actions node leaves2 ∧ (leaves1 ++ leaves2).Perm leaves := by
  obtain ⟨parts, hparts, hperm⟩ := h
  have hinit := List.forall₂_take_append _ _ _ (List.Forall₂.flip hparts)
  have hlast := List.forall₂_drop_append _ _ _ (List.Forall₂.flip hparts)
  obtain ⟨part, rest, hnode, hrest, hdrop⟩ := List.forall₂_cons_right_iff.mp hlast
  rw [List.forall₂_nil_right_iff.mp hrest] at hdrop
  have hsplit : parts = parts.take nodes.length ++ [part] := by
    rw [← hdrop, List.take_append_drop]
  refine ⟨(parts.take nodes.length).flatten, part, ⟨_, hinit.flip, List.Perm.refl _⟩, hnode, ?_⟩
  rw [hsplit] at hperm
  simpa using hperm

/-- What the aggregator holds after the inputs so far. -/
structure Holds (ops : UnionOps Pg) (actions : LayerActions) (agg : S2UnionAggregator Pg)
    (inputs : List (Geography Pg)) : Prop where
  root_index2 : agg.root.index2 = []
  leaves : ∃ leaves1 leaves2, EvaluatesAll ops actions leaves1 agg.root.index1 ∧
    NodesHold ops actions agg.other leaves2 ∧ (leaves1 ++ leaves2).Perm inputs
  length_le : agg.other.length ≤ inputs.length

theorem evaluatesAll_snoc {leaves index : List (Geography Pg)} (g : Geography Pg)
    (h : EvaluatesAll ops actions leaves index) :
    EvaluatesAll ops actions (leaves ++ [g]) (index ++ [g]) :=
  EvaluatesAll.add h (Evaluates.input g)

theorem perm_snoc_append {α : Type} (as bs : List α) (a : α) :
    (as ++ [a] ++ bs).Perm (as ++ bs ++ [a]) := by
  rw [List.append_assoc, List.append_assoc]
  exact List.Perm.append_left as List.perm_append_comm

/-- A node that takes another geography in one of its indexes has one more leaf. -/
theorem NodeHolds.snoc_index1 {node : Node Pg} {leaves : List (Geography Pg)}
    (h : NodeHolds ops actions node leaves) (g : Geography Pg) :
    ∃ leaves', NodeHolds ops actions { node with index1 := node.index1 ++ [g] } leaves' ∧
      leaves'.Perm (leaves ++ [g]) := by
  obtain ⟨leaves1, leaves2, h1, h2, rfl⟩ := h
  exact ⟨_, ⟨leaves1 ++ [g], leaves2, evaluatesAll_snoc g h1, h2, rfl⟩, perm_snoc_append _ _ g⟩

theorem NodeHolds.snoc_index2 {node : Node Pg} {leaves : List (Geography Pg)}
    (h : NodeHolds ops actions node leaves) (g : Geography Pg) :
    ∃ leaves', NodeHolds ops actions { node with index2 := node.index2 ++ [g] } leaves' ∧
      leaves'.Perm (leaves ++ [g]) := by
  obtain ⟨leaves1, leaves2, h1, h2, rfl⟩ := h
  exact ⟨_, ⟨leaves1, leaves2 ++ [g], h1, evaluatesAll_snoc g h2, rfl⟩,
    by rw [List.append_assoc]⟩

/-- If the last node takes one more leaf, so do the nodes. -/
theorem NodesHold.replace_last {nodes : List (Node Pg)} {node node' : Node Pg}
    {leaves : List (Geography Pg)} {g : Geography Pg}
    (h : NodesHold ops actions (nodes ++ [node]) leaves)
    (hnode : ∀ leaves2, NodeHolds ops actions node leaves2 →
      ∃ leaves', NodeHolds ops actions node' leaves' ∧ leaves'.Perm (leaves2 ++ [g])) :
    NodesHold ops actions (nodes ++ [node']) (leaves ++ [g]) := by
  obtain ⟨leaves1, leaves2, h1, h2, hperm⟩ := h.exists_last
  obtain ⟨leaves', h', hperm'⟩ := hnode leaves2 h2
  obtain ⟨parts, hparts, hflat⟩ := h1.snoc h'
  refine ⟨parts, hparts, hflat.trans ?_⟩
  refine (List.Perm.append_left leaves1 hperm').trans ?_
  rw [← List.append_assoc]
  exact hperm.append_right [g]

/-- Wherever a geography of dimension two goes among the nodes, it is one more leaf. -/
theorem Holds.add_other {agg : S2UnionAggregator Pg} {inputs : List (Geography Pg)}
    (h : Holds ops actions agg inputs) {g : Geography Pg} {other' : List (Node Pg)}
    (hother : ∀ leaves, NodesHold ops actions agg.other leaves →
      NodesHold ops actions other' (leaves ++ [g]))
    (hlength : other'.length ≤ agg.other.length + 1) :
    Holds ops actions { agg with other := other' } (inputs ++ [g]) := by
  obtain ⟨hroot, ⟨leaves1, leaves2, h1, h2, hperm⟩, hle⟩ := h
  refine ⟨hroot, ⟨leaves1, leaves2 ++ [g], h1, hother leaves2 h2, ?_⟩, ?_⟩
  · rw [← List.append_assoc]
    exact hperm.append_right [g]
  · rw [List.length_append, List.length_singleton]
    exact hlength.trans (Nat.add_le_add_right hle 1)

theorem Holds.add_root {agg : S2UnionAggregator Pg} {inputs : List (Geography Pg)}
    (h : Holds ops actions agg inputs) (g : Geography Pg) :
    Holds ops actions { agg with root := { agg.root with index1 := agg.root.index1 ++ [g] } }
      (inputs ++ [g]) := by
  obtain ⟨hroot, ⟨leaves1, leaves2, h1, h2, hperm⟩, hle⟩ := h
  refine ⟨hroot, ⟨leaves1 ++ [g], leaves2, evaluatesAll_snoc g h1, h2, ?_⟩, ?_⟩
  · exact (perm_snoc_append leaves1 leaves2 g).trans (hperm.append_right [g])
  · rw [List.length_append]
    exact hle.trans (Nat.le_add_right _ _)

theorem Holds.add {agg : S2UnionAggregator Pg} {inputs : List (Geography Pg)}
    (h : Holds ops actions agg inputs) (g : Geography Pg) :
    Holds ops actions (UnionAggregator.add agg g) (inputs ++ [g]) := by
  have hnew : NodeHolds ops actions ⟨[g], []⟩ [g] :=
    ⟨[g], [], evaluatesAll_single (Evaluates.input g), EvaluatesAll.nil, rfl⟩
  unfold UnionAggregator.add
  split
  · exact h.add_root g
  · cases hlast : agg.other.getLast? with
    | none =>
      have hempty : agg.other = [] := List.getLast?_eq_none_iff.mp hlast
      refine h.add_other (fun leaves hleaves => ?_) (by simp)
      have hsnoc := hleaves.snoc hnew
      rwa [hempty] at hsnoc
    | some last =>
      obtain ⟨init, hinit⟩ := List.getLast?_eq_some_iff.mp hlast
      have hdrop : agg.other.dropLast = init := by simp [hinit]
      have hlength : agg.other.length = init.length + 1 := by simp [hinit]
      simp only [hdrop]
      split
      · refine h.add_other (fun leaves hleaves => ?_) (by simp [hlength])
        rw [hinit] at hleaves
        exact hleaves.replace_last fun _ hnode => hnode.snoc_index1 g
      · split
        · refine h.add_other (fun leaves hleaves => ?_) (by simp [hlength])
          rw [hinit] at hleaves
          exact hleaves.replace_last fun _ hnode => hnode.snoc_index2 g
        · exact h.add_other (fun _ hleaves => hleaves.snoc hnew) (by simp)

theorem holds_foldl_add (ops : UnionOps Pg) (actions : LayerActions)
    (inputs : List (Geography Pg)) :
    Holds ops actions (inputs.foldl add {}) inputs := by
  induction inputs using List.reverseRecOn with
  | nil => exact ⟨rfl, ⟨[], [], EvaluatesAll.nil, ⟨[], List.Forall₂.nil, List.Perm.refl _⟩,
      List.Perm.refl _⟩, le_rfl⟩
  | append_singleton inputs g ih =>
    rw [List.foldl_append]
    exact ih.add g

/-- `Finalize` evaluates a tree of unions whose leaves are the inputs. -/
theorem finalize_spec {agg : S2UnionAggregator Pg} {inputs : List (Geography Pg)}
    (h : Holds ops actions agg inputs) (hlen : inputs.length ≤ 2 ^ 100) :
    Outcome ops actions (finalize ops actions agg)
      (fun value => ∃ leaves, leaves.Perm inputs ∧ Evaluates ops actions leaves value) := by
  obtain ⟨hroot, ⟨leaves1, leaves2, h1, h2, hperm⟩, hle⟩ := h
  refine (passes_spec 100 agg.other (hle.trans hlen) h2).bind fun other hother => ?_
  obtain ⟨⟨parts, hparts, hflat⟩, hone⟩ := hother
  cases hparts with
  | nil =>
    have hnode : NodeHolds ops actions agg.root leaves1 :=
      ⟨leaves1, [], h1, by rw [hroot]; exact EvaluatesAll.nil, by simp⟩
    refine hnode.merge.mono fun value hvalue => ⟨leaves1, ?_, hvalue⟩
    have hnil : leaves2 = [] := by simpa using hflat
    simpa [hnil] using hperm
  | @cons node part nodes parts hnode hrest =>
    have hnodes : nodes = [] := List.eq_nil_of_length_eq_zero (by simpa using hone)
    subst hnodes
    cases hrest
    refine (NodeHolds.merge hnode).bind fun merged hmerged => ?_
    have hroot' : NodeHolds ops actions
        { agg.root with index2 := agg.root.index2 ++ [merged] } (leaves1 ++ part) :=
      ⟨leaves1, part, h1, by simpa [hroot] using evaluatesAll_single hmerged, rfl⟩
    refine hroot'.merge.mono fun value hvalue => ⟨leaves1 ++ part, ?_, hvalue⟩
    exact (List.Perm.append_left leaves1 (by simpa using hflat)).trans hperm

end Spec

/-- Uniting indexes is uniting the points of their geographies. -/
structure SetUnion (ops : UnionOps Pg) (regions : Geography.Regions Pg P) : Prop where
  points_nil : regions.points [] = ∅
  polylines_nil : regions.polylines [] = ∅
  polygon_empty : ∀ polygon, ops.polygonIsEmpty polygon = true → regions.polygon polygon = ∅
  union : ∀ index1 index2, ∃ layers, ops.build index1 index2 = .ok layers ∧
    regions.points layers.points ∪ regions.polylines layers.polylines ∪
        regions.polygon layers.polygon =
      Geography.regionAll regions index1 ∪ Geography.regionAll regions index2

def includeAll : LayerActions :=
  ⟨.outputActionInclude, .outputActionInclude, .outputActionInclude⟩

theorem layerUsed_include (hasLayer : Bool) (what : String) :
    layerUsed hasLayer .outputActionInclude what = .ok hasLayer := by
  simp [layerUsed]

section Region

variable {ops : UnionOps Pg} {regions : Geography.Regions Pg P}

/-- With all dimensions included no point of the layers is lost. -/
theorem SetUnion.region_layersGeography (h : SetUnion ops regions) (layers : Layers Pg) :
    (layersGeography includeAll layers (!ops.polygonIsEmpty layers.polygon)
        (!layers.polylines.isEmpty) (!layers.points.isEmpty)).region regions =
      regions.points layers.points ∪ regions.polylines layers.polylines ∪
        regions.polygon layers.polygon := by
  have hpoints : layers.points.isEmpty = true → regions.points layers.points = ∅ :=
    fun he => List.isEmpty_iff.mp he ▸ h.points_nil
  have hlines : layers.polylines.isEmpty = true → regions.polylines layers.polylines = ∅ :=
    fun he => List.isEmpty_iff.mp he ▸ h.polylines_nil
  have hpolygon := h.polygon_empty layers.polygon
  revert hpoints hlines hpolygon
  cases layers.points.isEmpty <;> cases layers.polylines.isEmpty <;>
    cases ops.polygonIsEmpty layers.polygon <;>
    simp +contextual [layersGeography, includeAll, Geography.region, Geography.regionAll,
      Set.union_assoc]

theorem SetUnion.s2BooleanUnion (h : SetUnion ops regions) (index1 index2 : List (Geography Pg)) :
    ∃ value, UnionAggregator.s2BooleanUnion ops includeAll index1 index2 = .ok value ∧
      value.region regions =
        Geography.regionAll regions index1 ∪ Geography.regionAll regions index2 := by
  obtain ⟨layers, hbuild, hregion⟩ := h.union index1 index2
  refine ⟨_, ?_, (h.region_layersGeography layers).trans hregion⟩
  simp only [UnionAggregator.s2BooleanUnion, hbuild, s2GeographyFromLayers]
  simp only [includeAll, layerUsed_include]
  rfl

mutual

/-- The value of a tree of unions has the points of all leaves. -/
theorem Evaluates.region (h : SetUnion ops regions) {leaves : List (Geography Pg)}
    {value : Geography Pg} :
    Evaluates ops includeAll leaves value →
      value.region regions = Geography.regionAll regions leaves
  | .input g => by simp [Geography.regionAll]
  | .union h1 h2 hvalue => by
    obtain ⟨value', hvalue', hregion⟩ := h.s2BooleanUnion _ _
    rw [hvalue, Except.ok.injEq] at hvalue'
    subst hvalue'
    rw [hregion, EvaluatesAll.region h h1, EvaluatesAll.region h h2]
    ext p
    simp [Geography.mem_regionAll, or_and_right, exists_or]

theorem EvaluatesAll.region (h : SetUnion ops regions) {leaves index : List (Geography Pg)} :
    EvaluatesAll ops includeAll leaves index →
      Geography.regionAll regions index = Geography.regionAll regions leaves
  | .nil => rfl
  | .add h1 h2 => by
    have hall := EvaluatesAll.region h h1
    have hlast := Evaluates.region h h2
    ext p
    have hall' := Set.ext_iff.mp hall p
    have hlast' := Set.ext_iff.mp hlast p
    simp only [Geography.mem_regionAll] at hall' hlast'
    simp [Geography.mem_regionAll, or_and_right, exists_or, hall', hlast']

end

/-- No union fails when uniting is a set operation. -/
theorem SetUnion.not_raised (h : SetUnion ops regions) (fault : Fault) :
    ¬ Raised ops includeAll fault := by
  rintro ⟨index1, index2, text, -, herror⟩
  obtain ⟨value, hvalue, -⟩ := h.s2BooleanUnion index1 index2
  rw [hvalue] at herror
  simp at herror

/-- The left fold of the pairwise union. -/
def leftFold (ops : UnionOps Pg) (actions : LayerActions) :
    List (Geography Pg) → Except Fault (Geography Pg)
  | [] => UnionAggregator.s2BooleanUnion ops actions [] []
  | g :: gs => gs.foldlM (fun acc h => UnionAggregator.s2BooleanUnion ops actions [acc] [h]) g

theorem SetUnion.leftFold (h : SetUnion ops regions) (inputs : List (Geography Pg)) :
    ∃ value, UnionAggregator.leftFold ops includeAll inputs = .ok value ∧
      value.region regions = Geography.regionAll regions inputs := by
  cases inputs with
  | nil =>
    obtain ⟨value, hvalue, hregion⟩ := h.s2BooleanUnion [] []
    exact ⟨value, hvalue, by simpa [Geography.regionAll] using hregion⟩
  | cons g gs =>
    induction gs generalizing g with
    | nil => exact ⟨g, rfl, by simp [Geography.regionAll]⟩
    | cons g' gs ih =>
      obtain ⟨mid, hmid, hregion⟩ := h.s2BooleanUnion [g] [g']
      obtain ⟨value, hvalue, hregion'⟩ := ih mid
      refine ⟨value, ?_, ?_⟩
      · rw [UnionAggregator.leftFold, List.foldlM_cons, hmid]
        exact hvalue
      · rw [hregion', Geography.regionAll, hregion]
        simp [Geography.regionAll, Set.union_assoc]

/-- The result has the points of the inputs. -/
theorem SetUnion.s2UnionAgg (h : SetUnion ops regions) {inputs : List (Geography Pg)}
    (hlen : inputs.length ≤ 2 ^ 100) :
    ∃ value, UnionAggregator.s2UnionAgg ops includeAll inputs = .ok value ∧
      value.region regions = {p | ∃ g ∈ inputs, p ∈ g.region regions} := by
  have hfin := finalize_spec (holds_foldl_add ops includeAll inputs) hlen
  cases hvalue : finalize ops includeAll (inputs.foldl add {}) with
  | error fault =>
    rw [hvalue] at hfin
    exact absurd hfin (h.not_raised fault)
  | ok value =>
    rw [hvalue] at hfin
    obtain ⟨leaves, hleaves, heval⟩ := hfin
    refine ⟨value, hvalue, (heval.region h).trans ?_⟩
    ext p
    rw [Geography.mem_regionAll]
    simp [hleaves.mem_iff]

end Region

/-- For every sequence of geographies, whatever their dimensions: `Finalize` evaluates a
tree of unions in which each takes part once, it reads no node out of range, and at most
one node is left after the passes. With all dimensions included and union as a set
operation, the result has the points of all inputs, in whatever order they were added,
and so those of the left fold of the pairwise union. -/
theorem s2UnionAgg_spec (ops : UnionOps Pg) (inputs : List (Geography Pg))
    (hlen : inputs.length < 2 ^ 31) :
    (∀ actions value, s2UnionAgg ops actions inputs = .ok value →
        ∃ leaves, leaves.Perm inputs ∧ Evaluates ops actions leaves value) ∧
      (∀ actions fault, s2UnionAgg ops actions inputs = .error fault →
        Raised ops actions fault) ∧
      (∀ actions nodes, passes ops actions 100 (inputs.foldl add {}).other = .ok nodes →
        nodes.length ≤ 1) ∧
      ∀ {P : Type} (regions : Geography.Regions Pg P), SetUnion ops regions →
        ∃ value, s2UnionAgg ops includeAll inputs = .ok value ∧
          value.region regions = {p | ∃ g ∈ inputs, p ∈ g.region regions} ∧
          (∀ inputs', inputs'.Perm inputs → ∃ value',
            s2UnionAgg ops includeAll inputs' = .ok value' ∧
              value'.region regions = value.region regions) ∧
          ∃ folded, leftFold ops includeAll inputs = .ok folded ∧
            folded.region regions = value.region regions := by
  have hpow : inputs.length ≤ 2 ^ 100 := by omega
  have hfinal := fun actions =>
    finalize_spec (holds_foldl_add ops actions inputs) hpow
  refine ⟨?_, ?_, ?_, ?_⟩
  · intro actions value hvalue
    have h := hfinal actions
    rw [show finalize ops actions (inputs.foldl add {}) = .ok value from hvalue] at h
    exact h
  · intro actions fault hfault
    have h := hfinal actions
    rw [show finalize ops actions (inputs.foldl add {}) = .error fault from hfault] at h
    exact h
  · intro actions nodes hnodes
    have hadded := holds_foldl_add ops actions inputs
    obtain ⟨_, _, _, hheld, _⟩ := hadded.leaves
    have h := passes_spec 100 _ (hadded.length_le.trans hpow) hheld
    rw [hnodes] at h
    exact h.2
  · intro P regions h
    obtain ⟨value, hvalue, hregion⟩ := h.s2UnionAgg hpow
    refine ⟨value, hvalue, hregion, ?_, ?_⟩
    · intro inputs' hperm
      have hpow' : inputs'.length ≤ 2 ^ 100 := by rw [hperm.length_eq]; exact hpow
      obtain ⟨value', hvalue', hregion'⟩ := h.s2UnionAgg hpow'
      refine ⟨value', hvalue', ?_⟩
      rw [hregion, hregion']
      simp only [hperm.mem_iff]
    · obtain ⟨folded, hfolded, hregion'⟩ := h.leftFold inputs
      refine ⟨folded, hfolded, ?_⟩
      rw [hregion, hregion']
      ext p
      exact Geography.mem_regionAll

section Vertices

mutual

/-- All points and polylines of a geography; the only polygon is the empty one. -/
def gatherLayers : Geography Unit → Layers Unit
  | .point points => ⟨points, [], ()⟩
  | .polyline polylines => ⟨[], polylines, ()⟩
  | .polygon _ => ⟨[], [], ()⟩
  | .collection features => gatherAll features

def gatherAll : List (Geography Unit) → Layers Unit
  | [] => ⟨[], [], ()⟩
  | feature :: features =>
    ⟨(gatherLayers feature).points ++ (gatherAll features).points,
      (gatherLayers feature).polylines ++ (gatherAll features).polylines, ()⟩

end

def vertexOps : UnionOps Unit where
  build index1 index2 := .ok (gatherAll (index1 ++ index2))
  polygonIsEmpty _ := true

/-- Points and vertices. -/
def vertexRegions : Geography.Regions Unit S2Point where
  points points := {p | p ∈ points}
  polylines polylines := {p | ∃ line ∈ polylines, p ∈ line}
  polygon _ := ∅

def layersRegion (layers : Layers Unit) : Set S2Point :=
  vertexRegions.points layers.points ∪ vertexRegions.polylines layers.polylines

mutual

theorem gatherLayers_region : ∀ g : Geography Unit,
    layersRegion (gatherLayers g) = g.region vertexRegions
  | .point points => by simp [gatherLayers, layersRegion, vertexRegions, Geography.region]
  | .polyline polylines => by simp [gatherLayers, layersRegion, vertexRegions, Geography.region]
  | .polygon _ => by simp [gatherLayers, layersRegion, vertexRegions, Geography.region]
  | .collection features => gatherAll_region features

theorem gatherAll_region : ∀ features : List (Geography Unit),
    layersRegion (gatherAll features) = Geography.regionAll vertexRegions features
  | [] => by simp [gatherAll, layersRegion, vertexRegions, Geography.regionAll]
  | feature :: features => by
    rw [Geography.regionAll, ← gatherLayers_region feature, ← gatherAll_region features]
    ext p
    simp only [gatherAll, layersRegion, vertexRegions, Set.mem_union, Set.mem_ofPred_eq,
      List.mem_append, or_and_right, exists_or]
    exact or_or_or_comm

end

theorem vertexOps_setUnion : SetUnion vertexOps vertexRegions where
  points_nil := by simp [vertexRegions]
  polylines_nil := by simp [vertexRegions]
  polygon_empty _ _ := rfl
  union index1 index2 := by
    refine ⟨_, rfl, ?_⟩
    rw [show vertexRegions.polygon _ = ∅ from rfl, Set.union_empty]
    refine (gatherAll_region (index1 ++ index2)).trans ?_
    ext p
    simp [Geography.mem_regionAll, or_and_right, exists_or]

/-- A point, an empty collection, two empty polygons, and a collection of a point and a
polyline: all but the first go to two nodes, which are merged. -/
def vertexInputs : List (Geography Unit) :=
  [.point [⟨⟨1⟩, ⟨0⟩, ⟨0⟩⟩], .collection [], .polygon (), .polygon (), .polygon (),
    .collection [.point [⟨⟨0⟩, ⟨1⟩, ⟨0⟩⟩], .polyline [[⟨⟨0⟩, ⟨0⟩, ⟨1⟩⟩]]]]

theorem s2UnionAgg_vertices : ∃ value, s2UnionAgg vertexOps includeAll vertexInputs = .ok value ∧
    value.region vertexRegions = {p | ∃ g ∈ vertexInputs, p ∈ g.region vertexRegions} := by
  obtain ⟨value, hvalue, hregion, -⟩ := (s2UnionAgg_spec vertexOps vertexInputs (by decide)).2.2.2
    vertexRegions vertexOps_setUnion
  exact ⟨value, hvalue, hregion⟩

end Vertices

end S2Geography.UnionAggregator
