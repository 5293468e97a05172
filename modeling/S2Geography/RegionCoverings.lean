import S2Geography.CellUnionTiles
import S2Geography.CovererMerges

/-!
# What the region coverer returns

`GetCovering` and `GetInteriorCovering` for every region that keeps what `S2Region` promises,
every order in which the queue may pop its entries, and every way through
`CanonicalizeCovering`, which may start a search of its own for a cell union.
-/
namespace S2Geography

open DyadicCells DyadicCell S2CellUnion BufferCells
open S2CellId hiding none

namespace S2RegionCoverer

variable {o : CovererOptions} {interior : Bool} {region : S2Region}
  {unionBound : S2CellUnion → List S2CellId} {ids cells out : List S2CellId} {call : Call}

/-! ### Cell unions as regions -/

/-- What the bound of a cell union promises: a few cells that cover it. -/
structure BoundsUnions (unionBound : S2CellUnion → List S2CellId) : Prop where
  valid : ∀ u, Normalised u.cellIds → ValidIds (unionBound u)
  covers : ∀ u, Normalised u.cellIds → leafCells u.cellIds ⊆ leafCells (unionBound u)
  length_le : ∀ u, (unionBound u).length ≤ 6

/-- A cell union is the region of its leaves. -/
theorem unionRegion_describes (hbound : BoundsUnions unionBound) {u : S2CellUnion}
    (hu : Normalised u.cellIds) : (unionRegion unionBound u).Describes
      (fun l : {l : S2CellId // l.isLeaf = true} => l.val) {l | l.val ∈ leafCells u.cellIds} := by
  constructor
  · intro c hc hcontains l hcl
    have hsub := (containsId_spec hu hc).mp hcontains
    exact hsub ⟨l.property, c, List.mem_singleton_self c, hcl⟩
  · intro c hc hmiss l hl
    obtain ⟨-, d, hd, hdl⟩ := hl
    rw [Bool.eq_false_iff]
    intro hcl
    have hl0 := ne_none_of_isLeaf l.property
    have hmeets := (intersects_iff_meets (hu.valid.ne_none d hd) (ne_none_of_isValid hc)).mp
      (intersects_of_common (hu.valid d hd) hc hl0 hdl hcl)
    have htrue := (intersectsId_iff hu.orderedIds (ne_none_of_isValid hc)).mpr ⟨d, hd, hmeets⟩
    have hfalse : u.intersectsId c = false := hmiss
    rw [show (⟨u.cellIds⟩ : S2CellUnion) = u from rfl, hfalse] at htrue
    exact Bool.noConfusion htrue
  · exact hbound.valid u hu
  · intro l hl
    exact (hbound.covers u hu hl).2

/-! ### Options -/

theorem initialOptions_valid (ho : o.Valid) : (initialOptions o).Valid ∧
    (initialOptions o).minLevel = 0 ∧ (initialOptions o).maxLevel = o.maxLevel ∧
      (initialOptions o).levelMod = 1 ∧ (initialOptions o).maxCells = min 4 o.maxCells := by
  obtain ⟨hmin, hle, hmax, -, -⟩ := ho
  have hclamp : (initialOptions o).maxLevel = o.maxLevel := by
    change max 0 (min (kMaxLevel : ℤ) o.maxLevel) = o.maxLevel
    omega
  refine ⟨⟨le_rfl, ?_, ?_, le_rfl, ?_⟩, rfl, hclamp, rfl, rfl⟩
  · rw [hclamp]
    exact hmin.trans hle
  · rw [hclamp]
    exact hmax
  · change (1 : ℤ) ≤ 3
    omega

/-- A number of cells that fits in an `int` and is not negative. -/
def CountFits (o : CovererOptions) : Prop := 0 ≤ o.maxCells ∧ o.maxCells < 2 ^ 31

theorem CountFits.maxCellsSize_eq (h : CountFits o) : (o.maxCellsSize : ℤ) = o.maxCells := by
  obtain ⟨h0, hlt⟩ := h
  rw [CovererOptions.maxCellsSize, BitVec.toNat_ofInt]
  omega

/-! ### Specifications of the calls -/

/-- What a search for a region returns. -/
structure CoveringSpec {P : Type} (leaf : P → S2CellId) (A : Set P) (o : CovererOptions)
    (interior : Bool) (out : List S2CellId) : Prop where
  canonical : Canonical o out
  covers : interior = false → ∀ p ∈ A, ∃ c ∈ out, c.contains (leaf p) = true
  inside : interior = true → ∀ p, ∀ c ∈ out, c.contains (leaf p) = true → p ∈ A
  length_le : CountFits o → interior = true ∨ o.minLevel = 0 →
    (out.length : ℤ) ≤ max o.maxCells 6

/-- What `CanonicalizeCovering` makes of a vector. -/
structure CanonicalizeSpec (o : CovererOptions) (ids out : List S2CellId) : Prop where
  canonical : Canonical o out
  covers : leafCells ids ⊆ leafCells out
  length_le : CountFits o → o.minLevel = 0 → (out.length : ℤ) ≤ max o.maxCells 6

def CallSpec : Call → List S2CellId → Prop
  | .getCoveringInternal o interior region, out => o.Valid → ∀ (P : Type) (leaf : P → S2CellId)
      (A : Set P), (∀ p, (leaf p).isLeaf = true) → region.Describes leaf A →
        CoveringSpec leaf A o interior out
  | .canonicalizeCovering o ids, out => o.Valid → ValidIds ids → CanonicalizeSpec o ids out

section Search

variable {P : Type} {leaf : P → S2CellId} {A : Set P} {s : CovererState}

/-- Sizes along a run. -/
theorem run_length_le (ho : o.Valid) (hregion : region.Describes leaf A)
    (hleaf : ∀ p, (leaf p).isLeaf = true) (hcells : InitialCells o cells)
    (hrun : Relation.ReflTransGen (Step o interior region)
      (initialState o interior region cells) s)
    (hbounded : interior = true ∨ o.minLevel = 0) :
    (if interior then s.result.length else total s) ≤ max cells.length o.maxCellsSize := by
  induction hrun with
  | refl =>
    have hstart := @total_initialState_le o interior region cells
    split
    · rw [total] at hstart
      omega
    · omega
  | @tail s s' hrun hstep ih =>
    cases interior with
    | true =>
      have hle := hstep.result_le
      rw [if_pos rfl] at ih ⊢
      omega
    | false =>
      have hinv := run_invariant ho hregion hleaf hcells hrun
      have hzero := hbounded.resolve_left Bool.false_ne_true
      have hle := hstep.total_le fun e he => by
        rw [hzero]
        exact (level_spec (hinv.entries e he).valid).1
      rw [if_neg Bool.false_ne_true] at ih ⊢
      omega

/-- A run that has stopped, with the cells that it started from. -/
theorem coveringSpec_of_run (ho : o.Valid) (hregion : region.Describes leaf A)
    (hleaf : ∀ p, (leaf p).isLeaf = true) {turns : ℕ} (hcells : Canonical (initialOptions o) cells)
    (hcovers : leafCells region.getCellUnionBound ⊆ leafCells cells)
    (hlength : CountFits o → (cells.length : ℤ) ≤ max o.maxCells 6)
    (hrun : Relation.ReflTransGen (Step o interior region)
      (initialState o interior region (adjustCellLevels o cells)) s)
    (hstopped : ¬ Continues o interior s) (hfinish : finish o turns s.result = some out) :
    CoveringSpec leaf A o interior out := by
  have hmax := (initialOptions_valid ho).2.2.1
  have hadjust := adjustCellLevels_spec ho hcells.valid
  have hinitial := initialCells_adjustCellLevels ho hcells.valid fun c hc =>
    hmax ▸ (hcells.inUse c hc).2.1
  have hinv := run_invariant ho hregion hleaf hinitial hrun
  have hfinished := finish_spec ho hinv.valid (fun c hc => Or.inr (hinv.inUse c hc)) hfinish
  refine ⟨hfinished.canonical, ?_, ?_, ?_⟩
  · intro hexterior p hp
    subst hexterior
    obtain ⟨b, hb, hbp⟩ := hregion.bound_covers p hp
    obtain ⟨-, c, hc, hcp⟩ := hcovers ⟨hleaf p, b, hb, hbp⟩
    obtain ⟨d, hd, hdc⟩ := hadjust.covers c hc
    have hdp := contains_trans (ne_none_of_isValid (hadjust.adjusted d hd).1)
      (hcells.valid.ne_none c hc) (ne_none_of_isLeaf (hleaf p)) hdc hcp
    -- an empty queue leaves only the result
    have hempty : s.pq = [] := by
      by_contra hne
      exact hstopped ⟨hne, fun h => Bool.noConfusion h⟩
    have hreach := run_reaches ho hregion hleaf hinitial hrun hp ⟨d, hd, hdp⟩
    rw [Reaches, hempty] at hreach
    rcases hreach with ⟨r, hr, hrp⟩ | ⟨e, he, -⟩
    · have hmem : leaf p ∈ leafCells out := by
        rw [hfinished.leafCells_eq]
        exact ⟨hleaf p, r, hr, hrp⟩
      exact hmem.2
    · exact absurd he List.not_mem_nil
  · intro hinterior p c hc hcp
    have hmem : leaf p ∈ leafCells s.result := by
      rw [← hfinished.leafCells_eq]
      exact ⟨hleaf p, c, hc, hcp⟩
    obtain ⟨-, r, hr, hrp⟩ := hmem
    exact hregion.contains r (hinv.valid r hr) (hinv.contains hinterior r hr) p hrp
  · intro hfits hbounded
    have hout := hfinished.length_le hinv.valid hinv.inUse
    have hrunLength := run_length_le ho hregion hleaf hinitial hrun hbounded
    have hstart := hadjust.length_le
    have hcount := hlength hfits
    have hsize := hfits.maxCellsSize_eq
    have hresult : s.result.length ≤ if interior then s.result.length else total s := by
      split
      · exact le_rfl
      · exact Nat.le_add_right _ _
    omega

end Search

/-- Every call that returns keeps its specification. By induction on the call tree. -/
theorem Returns.spec (hbound : BoundsUnions unionBound) (h : Returns unionBound call out) :
    CallSpec call out := by
  induction h with
  | @covering o interior region cells out s turns fast run stopped finished ih =>
    intro ho P leaf A hleaf hregion
    obtain ⟨hinit, hzero, -, -, hcells⟩ := initialOptions_valid ho
    obtain ⟨hcanonical, hcovers, hlength⟩ := ih hinit hregion.bound_valid
    apply coveringSpec_of_run ho hregion hleaf hcanonical hcovers ?_ run stopped finished
    intro hfits
    obtain ⟨h0, hlt⟩ := hfits
    have hle := hlength ⟨by rw [hcells]; omega, by rw [hcells]; omega⟩ hzero
    rw [hcells] at hle
    omega
  | @kept o ids covering turns levels few =>
    intro ho hids
    obtain ⟨moved, hmoved, hvalid, hlevels, hsub, -⟩ := exists_withLevels turns ho hids
    rw [hmoved] at levels
    have hfinished := finish_spec ho hvalid hlevels levels
    refine ⟨hfinished.canonical, hsub.trans hfinished.leafCells_eq.superset, ?_⟩
    intro hfits hzero
    have hsize := hfits.maxCellsSize_eq
    rcases few with hfew | hcan
    · rw [excess] at hfew
      omega
    · by_cases hmany : o.maxCellsSize < covering.length
      · have hapart := apart_of_isCanonical ho hmany hcan
        have hsix := hapart.length_le hfinished.canonical hzero
        omega
      · omega
  | @recomputed o ids covering out turns levels many large again ih =>
    intro ho hids
    obtain ⟨moved, hmoved, hvalid, hlevels, hsub, -⟩ := exists_withLevels turns ho hids
    rw [hmoved] at levels
    have hfinished := finish_spec ho hvalid hlevels levels
    have hnormal := normalised_normalizeIds hfinished.canonical.valid
    obtain ⟨hcanonical, hcovers, -, hlength⟩ := ih ho _ _ _ (fun l => l.property)
      (unionRegion_describes (u := ofCellIds covering) hbound hnormal)
    refine ⟨hcanonical, ?_, fun hfits hzero => hlength hfits (Or.inr hzero)⟩
    intro l hl
    have hmem : l ∈ leafCells (ofCellIds covering).cellIds := by
      change l ∈ leafCells (normalizeIds covering)
      rw [leafCells_normalizeIds hfinished.canonical.valid.ne_none, hfinished.leafCells_eq]
      exact hsub hl
    exact ⟨hl.1, hcovers rfl ⟨l, hl.1⟩ hmem⟩
  | @merged o ids covering out turns steps levels many small merge =>
    intro ho hids
    obtain ⟨moved, hmoved, hvalid, hlevels, hsub, -⟩ := exists_withLevels turns ho hids
    rw [hmoved] at levels
    have hfinished := finish_spec ho hvalid hlevels levels
    obtain ⟨hmerged, hend⟩ := mergeCells_merged ho hfinished.canonical merge
    refine ⟨hmerged.canonical, (hsub.trans hfinished.leafCells_eq.superset).trans
      hmerged.leafCells_subset, ?_⟩
    intro hfits hzero
    have hsize := hfits.maxCellsSize_eq
    rcases hend with hsmall | hapart
    · omega
    · have hsix := hapart.length_le hmerged.canonical hzero
      omega

/-! ### Every call returns -/

/-- A state in which the main loop stops, of some run of the search for the region. -/
def Stopped (unionBound : S2CellUnion → List S2CellId) (o : CovererOptions) (interior : Bool)
    (region : S2Region) (s : CovererState) : Prop :=
  ∃ cells, Returns unionBound (.canonicalizeCovering (initialOptions o) region.getCellUnionBound)
      cells ∧
    Relation.ReflTransGen (Step o interior region)
      (initialState o interior region (adjustCellLevels o cells)) s ∧
    ¬ Continues o interior s

section Existence

variable {P : Type} {leaf : P → S2CellId} {A : Set P} {ids : List S2CellId}

theorem initialCells_of_canonical (ho : o.Valid) (h : Canonical (initialOptions o) cells) :
    InitialCells o (adjustCellLevels o cells) :=
  initialCells_adjustCellLevels ho h.valid fun c hc =>
    (initialOptions_valid ho).2.2.1 ▸ (h.inUse c hc).2.1

/-- In whatever state the loop stops, the last part of the search returns. -/
theorem Stopped.returns (hbound : BoundsUnions unionBound) (ho : o.Valid)
    (hregion : region.Describes leaf A) (hleaf : ∀ p, (leaf p).isLeaf = true) {s : CovererState}
    (h : Stopped unionBound o interior region s) :
    ∃ turns out, finish o turns s.result = some out ∧
      Returns unionBound (.getCoveringInternal o interior region) out := by
  obtain ⟨cells, hfast, hrun, hstopped⟩ := h
  have hcanonical := (hfast.spec hbound (initialOptions_valid ho).1 hregion.bound_valid).canonical
  have hinv := run_invariant ho hregion hleaf (initialCells_of_canonical ho hcanonical) hrun
  obtain ⟨out, hfinish⟩ := exists_finish ho hinv.valid (Nat.lt_succ_self (4 ^ kMaxLevel))
  exact ⟨_, out, hfinish, Returns.covering hfast hrun hstopped hfinish⟩

/-- A search returns as soon as its fast covering has. -/
theorem exists_covering (hbound : BoundsUnions unionBound) (ho : o.Valid)
    (hregion : region.Describes leaf A) (hleaf : ∀ p, (leaf p).isLeaf = true)
    (fast : Returns unionBound
      (.canonicalizeCovering (initialOptions o) region.getCellUnionBound) cells) :
    ∃ out, Returns unionBound (.getCoveringInternal o interior region) out := by
  have hcanonical := (fast.spec hbound (initialOptions_valid ho).1 hregion.bound_valid).canonical
  have hstart := @initialState_invariant _ leaf A o interior region ho hregion hleaf _
    (initialCells_of_canonical ho hcanonical)
  obtain ⟨s, hrun, hstopped⟩ := exists_stopped ho hregion hleaf hstart
  have hreturns : Stopped unionBound o interior region s := ⟨cells, fast, hrun, hstopped⟩
  obtain ⟨-, out, -, hout⟩ := hreturns.returns hbound ho hregion hleaf
  exact ⟨out, hout⟩

/-- The bound of a region as small as that of a cell union needs no other search. -/
theorem exists_canonicalize_short (ho : o.Valid) (hfits : CountFits o) (hzero : o.minLevel = 0)
    (hids : ValidIds ids) (hshort : ids.length ≤ 6) :
    ∃ out, Returns unionBound (.canonicalizeCovering o ids) out := by
  have hturns := Nat.lt_succ_self (4 ^ kMaxLevel)
  obtain ⟨moved, hmoved, hvalid, hlevels, -, hlength⟩ := exists_withLevels _ ho hids
  obtain ⟨covering, hfinish⟩ := exists_finish ho hvalid hturns
  have hfinished := finish_spec ho hvalid hlevels hfinish
  rw [← hmoved] at hfinish
  have hinUse : ∀ c ∈ moved, InUse o c.level := by
    intro c hc
    rcases hlevels c hc with hlow | huse
    · rw [hzero] at hlow
      have hnonneg := (level_spec (hvalid c hc)).1
      omega
    · exact huse
  have hle := hfinished.length_le hvalid hinUse
  by_cases hfew : excess o covering ≤ 0 ∨ isCanonical o covering = true
  · exact ⟨covering, Returns.kept hfinish hfew⟩
  · obtain ⟨out, hmerge⟩ := exists_mergeCells ho hturns hfinished.canonical (Nat.lt_succ_self _)
    refine ⟨out, Returns.merged hfinish hfew ?_ hmerge⟩
    have hexcess : excess o covering ≤ 6 := by
      obtain ⟨h0, -⟩ := hfits
      rw [excess]
      omega
    have hsix : (covering.length : ℤ) ≤ 6 := by omega
    nlinarith

theorem exists_canonicalize (hbound : BoundsUnions unionBound) (ho : o.Valid)
    (hfits : CountFits o) (hids : ValidIds ids) :
    ∃ out, Returns unionBound (.canonicalizeCovering o ids) out := by
  have hturns := Nat.lt_succ_self (4 ^ kMaxLevel)
  obtain ⟨moved, hmoved, hvalid, hlevels, -⟩ := exists_withLevels _ ho hids
  obtain ⟨covering, hfinish⟩ := exists_finish ho hvalid hturns
  have hfinished := finish_spec ho hvalid hlevels hfinish
  rw [← hmoved] at hfinish
  by_cases hfew : excess o covering ≤ 0 ∨ isCanonical o covering = true
  · exact ⟨covering, Returns.kept hfinish hfew⟩
  by_cases hlarge : excess o covering * covering.length > 10000
  · have hnormal := normalised_normalizeIds hfinished.canonical.valid
    obtain ⟨hinit, hzero, -, -, hcells⟩ := initialOptions_valid ho
    obtain ⟨h0, hlt⟩ := hfits
    have hinitFits : CountFits (initialOptions o) := ⟨by rw [hcells]; omega, by rw [hcells]; omega⟩
    have hvalidBound := hbound.valid (ofCellIds covering) hnormal
    have hshort : ∃ fast, Returns unionBound
        (.canonicalizeCovering (initialOptions o) (unionBound (ofCellIds covering))) fast :=
      exists_canonicalize_short hinit hinitFits hzero hvalidBound (hbound.length_le _)
    obtain ⟨fast, hfast⟩ := hshort
    have hsearch : ∃ out, Returns unionBound
        (.getCoveringInternal o false (unionRegion unionBound (ofCellIds covering))) out :=
      exists_covering hbound ho (unionRegion_describes hbound hnormal) (fun l => l.property) hfast
    obtain ⟨out, hout⟩ := hsearch
    exact ⟨out, Returns.recomputed hfinish hfew hlarge hout⟩
  · obtain ⟨out, hmerge⟩ := exists_mergeCells ho hturns hfinished.canonical (Nat.lt_succ_self _)
    exact ⟨out, Returns.merged hfinish hfew hlarge hmerge⟩

theorem exists_getCoveringInternal (hbound : BoundsUnions unionBound) (ho : o.Valid)
    (hfits : CountFits o) (hleaf : ∀ p, (leaf p).isLeaf = true)
    (hregion : region.Describes leaf A) :
    ∃ out, Returns unionBound (.getCoveringInternal o interior region) out := by
  obtain ⟨hinit, -, -, -, hcells⟩ := initialOptions_valid ho
  obtain ⟨h0, hlt⟩ := hfits
  have hinitFits : CountFits (initialOptions o) := ⟨by rw [hcells]; omega, by rw [hcells]; omega⟩
  obtain ⟨fast, hfast⟩ := exists_canonicalize hbound hinit hinitFits hregion.bound_valid
  exact exists_covering hbound ho hregion hleaf hfast

end Existence

/-! ### The whole sphere -/

def faceCells : List S2CellId := (List.range 6).map fromFace

theorem validIds_faceCells : ValidIds faceCells := by
  have hvalid : ∀ c ∈ faceCells, c.isValid = true := by decide
  exact hvalid

theorem exists_faceCell {l : S2CellId} (hl : l.isLeaf = true) (hvalid : l.isValid = true) :
    ∃ c ∈ faceCells, c.contains l = true := by
  have hodd := (isLeaf_iff_toNat l).mp hl
  have hlt := (isValid_iff.mp hvalid).2.2.2
  have hface : l.toNat / 2 ^ 61 < 6 := by omega
  refine ⟨fromFace (l.toNat / 2 ^ 61), List.mem_map_of_mem (List.mem_range.mpr hface), ?_⟩
  have hends : ∀ face < 6, (fromFace face).rangeMin.toNat = face * 2 ^ 61 + 1 ∧
      (fromFace face).rangeMax.toNat = face * 2 ^ 61 + (2 ^ 61 - 1) := by decide
  obtain ⟨hmin, hmax⟩ := hends _ hface
  rw [contains_eq_true, le_def, le_def]
  omega

theorem boundsUnions_faceCells : BoundsUnions fun _ => faceCells := by
  constructor
  · intro u hu
    exact validIds_faceCells
  · intro u hu l hl
    obtain ⟨hleaf, c, hc, hcl⟩ := hl
    exact ⟨hleaf, exists_faceCell hleaf (isValid_of_leaf (hu.valid c hc) hleaf hcl).1⟩
  · intro u
    decide

/-- Two cells of level 5, on the first and the third face. -/
def twoCells : List S2CellId := [⟨0x0004000000000000⟩, ⟨0x4004000000000000⟩]

def twoCellsRegion : S2Region := unionRegion (fun _ => faceCells) (ofCellIds twoCells)

theorem validIds_twoCells : ValidIds twoCells := by
  have hvalid : ∀ c ∈ twoCells, c.isValid = true := by decide
  exact hvalid

theorem twoCellsRegion_describes :
    twoCellsRegion.Describes (fun l : {l : S2CellId // l.isLeaf = true} => l.val)
      {l | l.val ∈ leafCells (ofCellIds twoCells).cellIds} :=
  unionRegion_describes boundsUnions_faceCells (normalised_normalizeIds validIds_twoCells)

/-- At most 3 cells, of every other level from 2 to 10. -/
def sparse : CovererOptions := { maxCells := 3, minLevel := 2, maxLevel := 10, levelMod := 2 }

theorem sparse_valid : sparse.Valid := ⟨by decide, by decide, by decide, by decide, by decide⟩

/-! ### What the coverer promises -/

section Promises

variable {P : Type} {leaf : P → S2CellId} {A : Set P}

/-- `GetCovering` covers the region, with cells that the options allow, in whatever order
entries of one priority are popped. -/
theorem getCovering_covers (hbound : BoundsUnions unionBound) (ho : o.Valid)
    (hleaf : ∀ p, (leaf p).isLeaf = true) (hregion : region.Describes leaf A) :
    (CountFits o → ∃ out, Returns unionBound (.getCoveringInternal o false region) out) ∧
      (∀ s, Stopped unionBound o false region s → ∃ turns out,
        finish o turns s.result = some out ∧
          Returns unionBound (.getCoveringInternal o false region) out) ∧
      ∀ out, Returns unionBound (.getCoveringInternal o false region) out →
        Canonical o out ∧ ∀ p ∈ A, ∃ c ∈ out, c.contains (leaf p) = true := by
  refine ⟨?_, ?_, ?_⟩
  · intro hfits
    exact exists_getCoveringInternal hbound ho hfits hleaf hregion
  · intro s hs
    exact hs.returns hbound ho hregion hleaf
  · intro out hout
    have hspec := hout.spec hbound ho P leaf A hleaf hregion
    exact ⟨hspec.canonical, hspec.covers rfl⟩

theorem getCovering_covers_twoCells :
    (CountFits sparse → ∃ out, Returns (fun _ => faceCells)
      (.getCoveringInternal sparse false twoCellsRegion) out) ∧
      (∀ s, Stopped (fun _ => faceCells) sparse false twoCellsRegion s → ∃ turns out,
        finish sparse turns s.result = some out ∧ Returns (fun _ => faceCells)
          (.getCoveringInternal sparse false twoCellsRegion) out) ∧
      ∀ out, Returns (fun _ => faceCells) (.getCoveringInternal sparse false twoCellsRegion) out →
        Canonical sparse out ∧ ∀ l : {l : S2CellId // l.isLeaf = true},
          l.val ∈ leafCells (ofCellIds twoCells).cellIds → ∃ c ∈ out, c.contains l.val = true :=
  getCovering_covers boundsUnions_faceCells sparse_valid (fun l => l.property)
    twoCellsRegion_describes

/-- `GetInteriorCovering` stays inside the region, in whatever order entries are popped. -/
theorem getInteriorCovering_inside (hbound : BoundsUnions unionBound) (ho : o.Valid)
    (hleaf : ∀ p, (leaf p).isLeaf = true) (hregion : region.Describes leaf A) :
    (CountFits o → ∃ out, Returns unionBound (.getCoveringInternal o true region) out) ∧
      (∀ s, Stopped unionBound o true region s → ∃ turns out,
        finish o turns s.result = some out ∧
          Returns unionBound (.getCoveringInternal o true region) out) ∧
      ∀ out, Returns unionBound (.getCoveringInternal o true region) out →
        Canonical o out ∧ ∀ c ∈ out, ∀ p, c.contains (leaf p) = true → p ∈ A := by
  refine ⟨?_, ?_, ?_⟩
  · intro hfits
    exact exists_getCoveringInternal hbound ho hfits hleaf hregion
  · intro s hs
    exact hs.returns hbound ho hregion hleaf
  · intro out hout
    have hspec := hout.spec hbound ho P leaf A hleaf hregion
    exact ⟨hspec.canonical, fun c hc p hcp => hspec.inside rfl p c hc hcp⟩

theorem getInteriorCovering_inside_twoCells :
    (CountFits sparse → ∃ out, Returns (fun _ => faceCells)
      (.getCoveringInternal sparse true twoCellsRegion) out) ∧
      (∀ s, Stopped (fun _ => faceCells) sparse true twoCellsRegion s → ∃ turns out,
        finish sparse turns s.result = some out ∧ Returns (fun _ => faceCells)
          (.getCoveringInternal sparse true twoCellsRegion) out) ∧
      ∀ out, Returns (fun _ => faceCells) (.getCoveringInternal sparse true twoCellsRegion) out →
        Canonical sparse out ∧ ∀ c ∈ out, ∀ l : {l : S2CellId // l.isLeaf = true},
          c.contains l.val = true → l.val ∈ leafCells (ofCellIds twoCells).cellIds :=
  getInteriorCovering_inside boundsUnions_faceCells sparse_valid (fun l => l.property)
    twoCellsRegion_describes

/-- The number of cells asked for, if it is not less than the number of faces. -/
theorem covering_length_le (hbound : BoundsUnions unionBound) (ho : o.Valid)
    (hfits : CountFits o) (hleaf : ∀ p, (leaf p).isLeaf = true)
    (hregion : region.Describes leaf A) (hbounded : interior = true ∨ o.minLevel = 0) :
    (∃ out, Returns unionBound (.getCoveringInternal o interior region) out) ∧
      ∀ out, Returns unionBound (.getCoveringInternal o interior region) out →
        (out.length : ℤ) ≤ max o.maxCells 6 := by
  constructor
  · exact exists_getCoveringInternal hbound ho hfits hleaf hregion
  · intro out hout
    exact (hout.spec hbound ho P leaf A hleaf hregion).length_le hfits hbounded

theorem covering_length_le_twoCells :
    (∃ out, Returns (fun _ => faceCells) (.getCoveringInternal sparse true twoCellsRegion)
      out) ∧
      ∀ out, Returns (fun _ => faceCells) (.getCoveringInternal sparse true twoCellsRegion) out →
        (out.length : ℤ) ≤ 6 :=
  covering_length_le boundsUnions_faceCells sparse_valid ⟨by decide, by decide⟩
    (fun l => l.property) twoCellsRegion_describes (Or.inl rfl)

/-- Whatever entries are popped, a search stops, and until then there is one to pop. -/
theorem search_stops (ho : o.Valid) (hleaf : ∀ p, (leaf p).isLeaf = true)
    (hregion : region.Describes leaf A) (hcells : InitialCells o cells) :
    (¬ ∃ run : ℕ → CovererState, run 0 = initialState o interior region cells ∧
      ∀ n, Step o interior region (run n) (run (n + 1))) ∧
    ∀ s, Relation.ReflTransGen (Step o interior region)
      (initialState o interior region cells) s →
        ((∃ s', Step o interior region s s') ↔ Continues o interior s) := by
  have hinv := @initialState_invariant _ leaf A o interior region ho hregion hleaf _ hcells
  constructor
  · intro hinfinite
    obtain ⟨run, hstart, hsteps⟩ := hinfinite
    have hacc := acc_step ho hregion hleaf hinv
    rw [← hstart] at hacc
    have hnone : ∀ s, Acc (fun s' s => Step o interior region s s') s → ∀ n, run n ≠ s := by
      intro s hs
      induction hs with
      | intro s _ ih =>
        intro n hn
        exact ih (run (n + 1)) (hn ▸ hsteps n) (n + 1) rfl
    exact hnone _ hacc 0 rfl
  · intro s hrun
    constructor
    · intro hstep
      obtain ⟨s', hstep⟩ := hstep
      cases hstep with
      | pop continues top highest => exact continues
    · intro hcontinues
      exact exists_step region hcontinues

theorem search_stops_twoCells :
    (¬ ∃ run : ℕ → CovererState, run 0 = initialState sparse false twoCellsRegion faceCells ∧
      ∀ n, Step sparse false twoCellsRegion (run n) (run (n + 1))) ∧
    ∀ s, Relation.ReflTransGen (Step sparse false twoCellsRegion)
      (initialState sparse false twoCellsRegion faceCells) s →
        ((∃ s', Step sparse false twoCellsRegion s s') ↔ Continues sparse false s) := by
  apply search_stops sparse_valid (fun l => l.property) twoCellsRegion_describes
  intro c hc
  have hlevel : ∀ c ∈ faceCells, c.level < sparse.minLevel := by decide +kernel
  exact ⟨validIds_faceCells c hc, Or.inl (hlevel c hc)⟩

end Promises

/-- `CanonicalizeCovering` loses no leaf, even where it starts a search, in whatever order
that pops its entries. -/
theorem canonicalizeCovering_covers (hbound : BoundsUnions unionBound) (ho : o.Valid)
    (hids : ValidIds ids) :
    (CountFits o → ∃ out, Returns unionBound (.canonicalizeCovering o ids) out) ∧
      (∀ turns covering, withLevels o turns ids = some covering →
        ∀ s, Stopped unionBound o false (unionRegion unionBound (ofCellIds covering)) s →
          ∃ turns out, finish o turns s.result = some out ∧ Returns unionBound
            (.getCoveringInternal o false (unionRegion unionBound (ofCellIds covering))) out) ∧
      ∀ out, Returns unionBound (.canonicalizeCovering o ids) out →
        Canonical o out ∧ leafCells ids ⊆ leafCells out ∧
          (CountFits o → o.minLevel = 0 → (out.length : ℤ) ≤ max o.maxCells 6) := by
  refine ⟨?_, ?_, ?_⟩
  · intro hfits
    exact exists_canonicalize hbound ho hfits hids
  · intro turns covering levels s hs
    obtain ⟨moved, hmoved, hvalid, hlevels, -⟩ := exists_withLevels turns ho hids
    rw [hmoved] at levels
    have hnormal := normalised_normalizeIds (finish_spec ho hvalid hlevels levels).canonical.valid
    exact hs.returns hbound ho (unionRegion_describes hbound hnormal) fun l => l.property
  · intro out hout
    obtain ⟨hcanonical, hcovers, hlength⟩ := hout.spec hbound ho hids
    exact ⟨hcanonical, hcovers, hlength⟩

theorem canonicalizeCovering_covers_twoCells :
    (CountFits sparse → ∃ out, Returns (fun _ => faceCells) (.canonicalizeCovering sparse
      twoCells) out) ∧
      (∀ turns covering, withLevels sparse turns twoCells = some covering →
        ∀ s, Stopped (fun _ => faceCells) sparse false
          (unionRegion (fun _ => faceCells) (ofCellIds covering)) s →
          ∃ turns out, finish sparse turns s.result = some out ∧ Returns (fun _ => faceCells)
            (.getCoveringInternal sparse false
              (unionRegion (fun _ => faceCells) (ofCellIds covering))) out) ∧
      ∀ out, Returns (fun _ => faceCells) (.canonicalizeCovering sparse twoCells) out →
        Canonical sparse out ∧ leafCells twoCells ⊆ leafCells out ∧
          (CountFits sparse → sparse.minLevel = 0 → (out.length : ℤ) ≤ max sparse.maxCells 6) :=
  canonicalizeCovering_covers (o := sparse) boundsUnions_faceCells sparse_valid validIds_twoCells

end S2RegionCoverer

end S2Geography
