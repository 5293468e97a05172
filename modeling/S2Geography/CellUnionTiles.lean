import S2Geography.CellUnionDenormalize
import S2Geography.DyadicTilings

/-!
# Cell unions of ranges of leaves

`maximum_tile` of `S2CellId` and `InitFromBeginEnd` of `S2CellUnion`, which cut a range of
leaves into cells, and the test `IsNormalized`.
-/
namespace S2Geography

open DyadicCells DyadicCell S2CellUnion
open S2CellId hiding none

namespace S2CellId

def fromFace (face : ℕ) : S2CellId := ⟨BitVec.ofNat 64 face <<< kPosBits + lsbForLevel 0⟩

/-- `S2CellId::End(kMaxLevel)`. -/
def kLeafEnd : S2CellId := (fromFace 5).childEndAt kMaxLevel

/-- The loop of `maximum_tile` over first children. -/
def shrinkTile (limit : S2CellId) : ℕ → S2CellId → Option S2CellId
  | 0, _ => Option.none
  | turns + 1, c =>
    let c := c.child 0
    if c.rangeMax ≥ limit then shrinkTile limit turns c else some c

/-- The loop of `maximum_tile` over parents. -/
def growTile (start limit : S2CellId) : ℕ → S2CellId → Option S2CellId
  | 0, _ => Option.none
  | turns + 1, c =>
    if c.isFace then some c
    else if c.parent.rangeMin ≠ start ∨ c.parent.rangeMax ≥ limit then some c
    else growTile start limit turns c.parent

def maximumTile (turns : ℕ) (c limit : S2CellId) : Option S2CellId :=
  let start := c.rangeMin
  if start ≥ limit.rangeMin then some limit
  else if c.rangeMax ≥ limit then shrinkTile limit turns c
  else growTile start limit turns c

variable {c limit start : S2CellId} {turns : ℕ}

/-- A cell that starts in front of another one ends there if its last leaf has a smaller
number. -/
theorem hi_lt_lo_of_lt {d e : DyadicCell} (hlo : d.lo < e.lo) (hhi : d.hi < e.center) :
    d.hi < e.lo := by
  by_contra hmeets
  have hd := d.lo_le_hi
  have he := e.center_le_hi
  rcases within_or_within (a := d) (b := e) (by omega) (by omega) with hin | hout
  · have := hin.1
    omega
  · have := hout.2
    omega

theorem shrinkTile_spec (hlimit : limit ≠ none) (hc : c ≠ none) (heven : c.cell.height % 2 = 0)
    (htop : c.cell.height ≤ 60) (hlo : c.cell.lo < limit.cell.lo)
    (hhi : limit.cell.center ≤ c.cell.hi) (hturns : c.cell.height ≤ 2 * turns) :
    ∃ t, shrinkTile limit turns c = some t ∧ t ≠ none ∧
      IsTile 60 c.cell.lo limit.cell.lo t.cell := by
  have hcenter := limit.cell.lo_le_center
  have hpos : c.cell.height ≠ 0 := by
    intro hzero
    have hadd := c.cell.hi_eq_lo_add
    rw [DyadicCell.size, hzero] at hadd
    omega
  induction turns generalizing c with
  | zero => omega
  | succ turns ih =>
    have hh : 2 ≤ c.cell.height := by omega
    obtain ⟨hd, hdcell⟩ := child_cell hc hh (show 0 < 4 by omega)
    have hdlo : (c.child 0).cell.lo = c.cell.lo := by
      rw [hdcell, child_lo hh]
      omega
    have hdheight : (c.child 0).cell.height = c.cell.height - 2 := by
      rw [hdcell, child_height]
    rw [shrinkTile]
    by_cases hlarge : (c.child 0).rangeMax ≥ limit
    · have hdhi : limit.cell.center ≤ (c.child 0).cell.hi := by
        rwa [ge_iff_le, le_rangeMax_iff hlimit hd] at hlarge
      rw [if_pos hlarge, ← hdlo]
      apply ih hd (by omega) (by omega) (by omega) hdhi (by omega)
      intro hzero
      have hadd := (c.child 0).cell.hi_eq_lo_add
      rw [DyadicCell.size, hzero] at hadd
      omega
    · have hdhi : (c.child 0).cell.hi < limit.cell.center := by
        rwa [ge_iff_le, le_rangeMax_iff hlimit hd, not_le] at hlarge
      rw [if_neg hlarge]
      refine ⟨c.child 0, rfl, hd, by omega, by omega, hdlo, hi_lt_lo_of_lt (by omega) hdhi, ?_⟩
      -- the parent is the cell that was too large
      intro _ _
      rw [hdcell, parent_child _ hh (by omega)]
      omega

theorem growTile_spec (hlimit : limit ≠ none) (hc : c ≠ none) (heven : c.cell.height % 2 = 0)
    (htop : c.cell.height ≤ 60)
    (hlo : start.toNat = c.cell.lo) (hlt : c.cell.lo < limit.cell.lo)
    (hhi : c.cell.hi < limit.cell.center) (hturns : 60 < c.cell.height + 2 * turns) :
    ∃ t, growTile start limit turns c = some t ∧ t ≠ none ∧
      IsTile 60 c.cell.lo limit.cell.lo t.cell := by
  induction turns generalizing c with
  | zero => omega
  | succ turns ih =>
    have hend := hi_lt_lo_of_lt hlt hhi
    rw [growTile]
    by_cases hface : c.isFace = true
    · rw [if_pos hface]
      rw [isFace_iff hc] at hface
      exact ⟨c, rfl, hc, heven, htop, rfl, hend, fun h => by omega⟩
    · rw [if_neg hface]
      rw [isFace_iff hc] at hface
      obtain ⟨hp, hpcell⟩ := parent_cell hc (by omega)
      have hmin : c.parent.rangeMin = start ↔ c.parent.cell.lo = c.cell.lo := by
        rw [← toNat_injective.eq_iff, rangeMin_toNat hp, hlo]
      by_cases hstop : c.parent.rangeMin ≠ start ∨ c.parent.rangeMax ≥ limit
      · rw [if_pos hstop]
        refine ⟨c, rfl, hc, heven, htop, rfl, hend, ?_⟩
        intro _ hparent
        rcases hstop with hother | hlarge
        · exact absurd (hmin.mpr (by rw [hpcell, hparent])) hother
        · rw [ge_iff_le, le_rangeMax_iff hlimit hp, hpcell] at hlarge
          exact limit.cell.lo_le_center.trans hlarge
      · rw [if_neg hstop]
        rw [not_or, not_not, ge_iff_le, le_rangeMax_iff hlimit hp, not_le, hmin] at hstop
        have hheight : c.parent.cell.height = c.cell.height + 2 := by rw [hpcell, parent_height]
        rw [← hstop.1]
        exact ih hp (by omega) (by omega) (by rw [hlo, hstop.1]) (by omega) hstop.2 (by omega)

/-- `maximum_tile` finds the largest cell with the same first leaf that ends before the limit,
or the limit itself if there is none. -/
theorem maximumTile_spec (hlimit : limit ≠ none) (hc : c ≠ none) (heven : c.cell.height % 2 = 0)
    (htop : c.cell.height ≤ 60) (hturns : kMaxLevel < turns) :
    ∃ t, maximumTile turns c limit = some t ∧ t ≠ none ∧
      (limit.cell.lo ≤ c.cell.lo ∧ t = limit ∨
        c.cell.lo < limit.cell.lo ∧ IsTile 60 c.cell.lo limit.cell.lo t.cell) := by
  rw [kMaxLevel] at hturns
  rw [maximumTile]
  by_cases hdone : c.rangeMin ≥ limit.rangeMin
  · rw [if_pos hdone]
    rw [ge_iff_le, le_def, rangeMin_toNat hlimit, rangeMin_toNat hc] at hdone
    exact ⟨limit, rfl, hlimit, Or.inl ⟨hdone, rfl⟩⟩
  · rw [if_neg hdone]
    rw [ge_iff_le, le_def, rangeMin_toNat hlimit, rangeMin_toNat hc, not_le] at hdone
    by_cases hlarge : c.rangeMax ≥ limit
    · rw [if_pos hlarge]
      rw [ge_iff_le, le_rangeMax_iff hlimit hc] at hlarge
      obtain ⟨t, hrun, ht, htile⟩ := shrinkTile_spec hlimit hc heven htop hdone hlarge
        (show c.cell.height ≤ 2 * turns by omega)
      exact ⟨t, hrun, ht, Or.inr ⟨hdone, htile⟩⟩
    · rw [if_neg hlarge]
      rw [ge_iff_le, le_rangeMax_iff hlimit hc, not_le] at hlarge
      obtain ⟨t, hrun, ht, htile⟩ := growTile_spec hlimit hc heven htop
        (rangeMin_toNat hc) hdone hlarge (show 60 < c.cell.height + 2 * turns by omega)
      exact ⟨t, hrun, ht, Or.inr ⟨hdone, htile⟩⟩

end S2CellId

namespace S2CellUnion

/-- The loop of `InitFromBeginEnd`. -/
def tilesFrom (turns : ℕ) (limit : S2CellId) : ℕ → S2CellId → Option (List S2CellId)
  | 0, _ => none
  | steps + 1, c =>
    if c = limit then some []
    else do
      let next ← c.next.maximumTile turns limit
      let rest ← tilesFrom turns limit steps next
      some (c :: rest)

/-- `InitFromBeginEnd`, if its loop takes fewer than `steps` steps and those of `maximum_tile`
fewer than `turns` turns. -/
def initFromBeginEnd (turns steps : ℕ) (first limit : S2CellId) : Option (List S2CellId) := do
  let c ← first.maximumTile turns limit
  tilesFrom turns limit steps c

end S2CellUnion

section Tiles

variable {c first limit : S2CellId} {turns steps : ℕ} {out : List S2CellId}

/-- The cell after a tile starts where the tile ends. -/
theorem next_of_isTile {start : ℕ} (hlimit : limit.cell.lo ≤ 6 * 2 ^ 61 + 1)
    (hc : c ≠ S2CellId.none) (htile : IsTile 60 start limit.cell.lo c.cell) :
    c.next ≠ S2CellId.none ∧ c.next.cell.height = c.cell.height ∧
      c.next.cell.lo = c.cell.hi + 2 := by
  have hhi := htile.hi_lt
  have hpos := c.cell.size_pos
  have hsize : c.cell.size ≤ 2 ^ 60 := Nat.pow_le_pow_right (by omega) htile.height_le
  have hcenter := c.cell.hi_eq
  have hnext : (⟨c.cell.index + 1, c.cell.height⟩ : DyadicCell).center =
      c.cell.center + 2 * c.cell.size := by
    simp only [DyadicCell.center, DyadicCell.size]
    ring
  obtain ⟨hn, hncell⟩ := next_cell (d := ⟨c.cell.index + 1, c.cell.height⟩) hc rfl rfl (by
    rw [hnext]
    omega)
  refine ⟨hn, by rw [hncell], ?_⟩
  have hlo := c.next.cell.lo_eq
  have hnsize : c.next.cell.size = c.cell.size := by
    rw [hncell]
    rfl
  rw [hnsize, hncell, hnext] at hlo
  rw [hncell, hlo]
  omega

/-- The loop cuts what is left of the range into tiles. -/
theorem tilesFrom_spec (hlimit : limit ≠ S2CellId.none) (hend : limit.cell.lo ≤ 6 * 2 ^ 61 + 1)
    (hturns : kMaxLevel < turns) {start : ℕ} (hc : c ≠ S2CellId.none)
    (hstart : limit.cell.lo = start ∧ c = limit ∨
      start < limit.cell.lo ∧ IsTile 60 start limit.cell.lo c.cell)
    (hsteps : limit.cell.lo < start + steps) :
    ∃ out, tilesFrom turns limit steps c = some out ∧ (∀ t ∈ out, t ≠ S2CellId.none) ∧
      Tiling 60 limit.cell.lo start (out.map cell) := by
  induction steps generalizing c start with
  | zero => omega
  | succ steps ih =>
    rcases hstart with ⟨hdone, heq⟩ | ⟨hlt, htile⟩
    · rw [tilesFrom, if_pos heq, ← hdone]
      exact ⟨[], rfl, fun t ht => absurd ht List.not_mem_nil, Tiling.nil⟩
    · obtain ⟨hn, hnheight, hnlo⟩ := next_of_isTile hend hc htile
      have hne : c ≠ limit := by
        intro heq
        have hhi := htile.hi_lt
        have hle := c.cell.lo_le_hi
        rw [← heq] at hhi
        omega
      have hlo := htile.lo_eq
      have hle := c.cell.lo_le_hi
      have hhi := htile.hi_lt
      have hadd := c.cell.hi_eq_lo_add
      have heven := htile.even
      have htop := htile.height_le
      obtain ⟨t, hrun, ht, hspec⟩ := maximumTile_spec hlimit hn (by omega) (by omega) hturns
      -- both ends of a range are odd, so that it ends at the latest where the next tile starts
      have hodd : ∀ d : DyadicCell, d.lo % 2 = 1 := by
        intro d
        rw [DyadicCell.lo, Nat.mul_assoc]
        omega
      have hoddLo := hodd c.cell
      have hoddLimit := hodd limit.cell
      have hnext : limit.cell.lo = c.cell.hi + 2 ∧ t = limit ∨
          c.cell.hi + 2 < limit.cell.lo ∧ IsTile 60 (c.cell.hi + 2) limit.cell.lo t.cell := by
        rw [hnlo] at hspec
        rcases hspec with ⟨hle', heq⟩ | hspec
        · exact Or.inl ⟨by omega, heq⟩
        · exact Or.inr hspec
      obtain ⟨out, hout, hmem, htiling⟩ := ih ht hnext (by omega)
      refine ⟨c :: out, ?_, ?_, ?_⟩
      · rw [tilesFrom, if_neg hne, hrun]
        change (tilesFrom turns limit steps t >>= fun rest => some (c :: rest)) = _
        rw [hout]
        rfl
      · exact List.forall_mem_cons.mpr ⟨hc, hmem⟩
      · exact Tiling.cons htile htiling

theorem kLeafEnd_toNat : kLeafEnd.toNat = 6 * 2 ^ 61 + 1 := by decide

/-- A leaf, or the end of all leaves. -/
structure LeafBound (c : S2CellId) : Prop where
  isLeaf : c.isLeaf = true
  bounded : c.isValid = true ∨ c = kLeafEnd

namespace LeafBound

theorem cell_eq (h : LeafBound c) : c ≠ S2CellId.none ∧ c.cell.height = 0 ∧
    c.cell.lo = c.toNat ∧ c.cell.hi = c.toNat := by
  have hne := ne_none_of_isLeaf h.isLeaf
  have hheight := (isLeaf_iff hne).mp h.isLeaf
  have hlo := c.cell.lo_eq
  have hhi := c.cell.hi_eq
  rw [DyadicCell.size, hheight] at hlo hhi
  rw [S2CellId.toNat_eq hne]
  exact ⟨hne, hheight, hlo, hhi⟩

theorem toNat_le (h : LeafBound c) : c.toNat ≤ 6 * 2 ^ 61 + 1 := by
  rcases h.bounded with hvalid | heq
  · have hlt := (isValid_iff.mp hvalid).2.2.2
    omega
  · rw [heq, kLeafEnd_toNat]

end LeafBound

/-- `InitFromBeginEnd` gives the normalised vector of the leaves of a range. -/
theorem initFromBeginEnd_eq_some (hfirst : LeafBound first) (hlimit : LeafBound limit)
    (hle : first ≤ limit) (hturns : kMaxLevel < turns)
    (hsteps : limit.toNat < first.toNat + steps) :
    ∃ out, initFromBeginEnd turns steps first limit = some out ∧ Normalised out ∧
      leafCells out = {l | l.isLeaf = true ∧ first ≤ l ∧ l < limit} := by
  obtain ⟨hf, hfheight, hflo, -⟩ := hfirst.cell_eq
  obtain ⟨hl, hlheight, hllo, -⟩ := hlimit.cell_eq
  have hbound := hlimit.toNat_le
  rw [le_def] at hle
  obtain ⟨c, hrun, hc, hspec⟩ := maximumTile_spec hl hf (by omega) (by omega) hturns
  have hstart : limit.cell.lo = first.cell.lo ∧ c = limit ∨
      first.cell.lo < limit.cell.lo ∧ IsTile 60 first.cell.lo limit.cell.lo c.cell := by
    rcases hspec with ⟨hdone, heq⟩ | hspec
    · exact Or.inl ⟨by omega, heq⟩
    · exact Or.inr hspec
  obtain ⟨out, hout, hne, htiling⟩ := tilesFrom_spec hl (by omega) hturns hc hstart
    (show limit.cell.lo < first.cell.lo + steps by omega)
  have hcells : ∀ d, d ∈ cellsOf out ↔ d ∈ out.map cell := by
    intro d
    rw [List.mem_map]
    exact Iff.rfl
  have hvalid : ValidIds out := by
    intro t ht
    have htile := htiling.isTile_of_mem (List.mem_map_of_mem ht)
    have hlt := htile.hi_lt
    have hlo := t.cell.lo_le_hi
    have hcenter := t.cell.lo_eq
    have hodd : t.cell.lo % 2 = 1 := by
      rw [DyadicCell.lo, Nat.mul_assoc]
      omega
    rw [isValid_iff_validCell]
    exact ⟨hne t ht, htile.even, htile.height_le, hi_lt_of_lo_lt htile.height_le (by omega)⟩
  refine ⟨out, ?_, ?_, ?_⟩
  · rw [initFromBeginEnd, hrun]
    exact hout
  · apply Normalised.of_unmerged hvalid (List.pairwise_map.mp htiling.ordered)
    intro p hp hh hall
    exact htiling.unmerged hh hp.2.1 fun k hk => (hcells _).mp (hall k hk)
  · ext l
    rw [mem_leafCells hne, Set.mem_ofPred_eq]
    apply and_congr_right
    intro hleaf
    have hl0 := ne_none_of_isLeaf hleaf
    have hlheight' := (isLeaf_iff hl0).mp hleaf
    have hllo' := l.cell.lo_eq
    have hlhi' := l.cell.hi_eq
    rw [DyadicCell.size, hlheight'] at hllo' hlhi'
    have hodd : l.toNat % 2 = 1 := (isLeaf_iff_toNat l).mp hleaf
    have hmem := htiling.mem_iff hodd
    rw [le_def, lt_def, ← hflo, ← hllo, ← hmem]
    simp only [← hcells, DyadicCell.Within, hllo', hlhi', Nat.pow_zero, Nat.sub_self, Nat.sub_zero,
      Nat.add_zero, S2CellId.toNat_eq hl0]

/-- All leaves. -/
theorem initFromBeginEnd_sphere : ∃ out,
    initFromBeginEnd 31 (2 ^ 64) ⟨1⟩ kLeafEnd = some out ∧ Normalised out ∧
      leafCells out = {l | l.isLeaf = true ∧ ⟨1⟩ ≤ l ∧ l < kLeafEnd} := by
  apply initFromBeginEnd_eq_some
  · exact ⟨by decide, Or.inl (by decide)⟩
  · exact ⟨by decide, Or.inr rfl⟩
  · decide
  · decide
  · rw [kLeafEnd_toNat]
    omega

end Tiles

/-! ### Normalised vectors -/

namespace S2CellUnion

/-- The comparison of an id with the one in front of it. -/
def startsAfter (c : S2CellId) : List S2CellId → Bool
  | [] => true
  | last :: _ => !decide (last.rangeMax ≥ c.rangeMin)

/-- The comparison of an id with the three in front of it. -/
def endsNoSiblings (c : S2CellId) : List S2CellId → Bool
  | c3 :: c2 :: c1 :: _ => !areSiblings c1 c2 c3 c
  | _ => true

/-- The loop of `IsNormalized`, with the ids it has passed, the last one first. -/
def isNormalizedFrom : List S2CellId → List S2CellId → Bool
  | _, [] => true
  | passed, c :: ids => c.isValid && startsAfter c passed && endsNoSiblings c passed &&
      isNormalizedFrom (c :: passed) ids

def isNormalized (u : S2CellUnion) : Bool := isNormalizedFrom [] u.cellIds

end S2CellUnion

section Tests

variable {c : S2CellId} {passed ids : List S2CellId}

/-- The stack of passed ids stays in order. -/
theorem startsAfter_iff (hc : c.isValid = true) (hpassed : ValidIds passed)
    (hord : (passed.map cell).Pairwise fun a b => b.Before a) : startsAfter c passed = true ↔
      ((c :: passed).map cell).Pairwise fun a b => b.Before a := by
  cases passed with
  | nil => simp [startsAfter]
  | cons last passed =>
    obtain ⟨hlast, -⟩ := List.forall_mem_cons.mp hpassed
    have hbefore := rangeMax_lt_rangeMin_iff (ne_none_of_isValid hlast) (ne_none_of_isValid hc)
    rw [startsAfter, Bool.not_eq_true', decide_eq_false_iff_not, ge_iff_le, not_le, hbefore,
      List.map_cons, List.pairwise_cons]
    constructor
    · intro h
      refine ⟨?_, hord⟩
      intro d hd
      rcases List.mem_cons.mp hd with heq | hd
      · rw [heq]
        exact h
      · exact ((List.pairwise_cons.mp hord).1 d hd).trans h
    · intro h
      exact h.1 last.cell (List.mem_cons_self ..)

/-- The stack stays free of siblings. -/
theorem endsNoSiblings_iff (hc : c.isValid = true) (hpassed : ValidIds passed)
    (hord : ((c :: passed).map cell).Pairwise fun a b => b.Before a)
    (hcol : Collapsed 61 (passed.map cell)) : endsNoSiblings c passed = true ↔
      Collapsed 61 ((c :: passed).map cell) := by
  have hne : ∀ x ∈ c :: passed, x ≠ S2CellId.none :=
    List.forall_mem_cons.mpr ⟨ne_none_of_isValid hc, hpassed.ne_none⟩
  match passed with
  | c3 :: c2 :: c1 :: rest =>
    have hsiblings := areSiblings_top_iff hne hord
    rw [endsNoSiblings, Bool.not_eq_true', Bool.eq_false_iff, ne_eq, hsiblings]
    constructor
    · intro h
      apply hcol.cons
      intro p hh htop rest' heq
      simp only [List.map_cons, List.cons.injEq] at heq
      obtain ⟨h3, h2, h1, h0, -⟩ := heq
      exact h ⟨p, hh, htop, h0, h1, h2, h3⟩
    · intro h hexists
      obtain ⟨p, hh, htop, h0, h1, h2, h3⟩ := hexists
      apply h p hh htop [] (rest.map cell)
      simp only [List.map_cons, h0, h1, h2, h3, List.nil_append]
  | [] => exact iff_of_true rfl (hcol.cons fun p hh htop rest heq => by simp at heq)
  | [_] => exact iff_of_true rfl (hcol.cons fun p hh htop rest heq => by simp at heq)
  | [_, _] => exact iff_of_true rfl (hcol.cons fun p hh htop rest heq => by simp at heq)

theorem isNormalizedFrom_iff (hpassed : ValidIds passed)
    (hord : (passed.map cell).Pairwise fun a b => b.Before a)
    (hcol : Collapsed 61 (passed.map cell)) : isNormalizedFrom passed ids = true ↔
      ValidIds ids ∧ ((ids.reverse ++ passed).map cell).Pairwise (fun a b => b.Before a) ∧
        Collapsed 61 ((ids.reverse ++ passed).map cell) := by
  induction ids generalizing passed with
  | nil => exact iff_of_true rfl ⟨fun c hc => absurd hc List.not_mem_nil, hord, hcol⟩
  | cons c ids ih =>
    have hsplit : (c :: ids).reverse ++ passed = ids.reverse ++ c :: passed := by simp
    rw [isNormalizedFrom, hsplit, Bool.and_eq_true, Bool.and_eq_true, Bool.and_eq_true]
    constructor
    · intro h
      obtain ⟨⟨⟨hc, hafter⟩, hsiblings⟩, hrest⟩ := h
      have hord' := (startsAfter_iff hc hpassed hord).mp hafter
      have hcol' := (endsNoSiblings_iff hc hpassed hord' hcol).mp hsiblings
      have hpassed' : ValidIds (c :: passed) := List.forall_mem_cons.mpr ⟨hc, hpassed⟩
      obtain ⟨hids, hall⟩ := (ih hpassed' hord' hcol').mp hrest
      exact ⟨List.forall_mem_cons.mpr ⟨hc, hids⟩, hall⟩
    · intro h
      obtain ⟨hids, hordAll, hcolAll⟩ := h
      obtain ⟨hc, hids⟩ := List.forall_mem_cons.mp hids
      have hpassed' : ValidIds (c :: passed) := List.forall_mem_cons.mpr ⟨hc, hpassed⟩
      rw [List.map_append] at hordAll hcolAll
      have hord' := (List.pairwise_append.mp hordAll).2.1
      have hcol' := hcolAll.tail
      rw [← List.map_append] at hordAll hcolAll
      exact ⟨⟨⟨hc, (startsAfter_iff hc hpassed hord).mpr hord'⟩,
        (endsNoSiblings_iff hc hpassed hord' hcol).mpr hcol'⟩,
        (ih hpassed' hord' hcol').mpr ⟨hids, hordAll, hcolAll⟩⟩

/-- `IsNormalized` accepts the normalised vectors and no others. -/
theorem isNormalized_eq_true_iff (u : S2CellUnion) :
    isNormalized u = true ↔ Normalised u.cellIds := by
  have hnil : Collapsed 61 (([] : List S2CellId).map cell) := by
    intro p hh htop recent rest heq
    simp at heq
  rw [isNormalized, isNormalizedFrom_iff (fun c hc => absurd hc List.not_mem_nil) List.Pairwise.nil
    hnil, List.append_nil]
  constructor
  · intro h
    obtain ⟨hids, hord, hcol⟩ := h
    apply Normalised.of_unmerged hids
    · rwa [List.map_reverse, List.pairwise_reverse, List.pairwise_map] at hord
    · intro p hp hh hall
      apply hcol.unmerged hord hh (hp.2.1.trans (by omega))
      intro k hk
      obtain ⟨c, hc, hck⟩ := hall k hk
      rw [← hck]
      exact List.mem_map_of_mem (List.mem_reverse.mpr hc)
  · intro h
    refine ⟨h.valid, ?_, ?_⟩
    · rw [List.map_reverse, List.pairwise_reverse, List.pairwise_map]
      exact h.orderedIds.ordered
    · intro p hh htop recent rest heq
      have hmem : ∀ k < 4, p.child k ∈ cellsOf u.cellIds := by
        intro k hk
        have hin : p.child k ∈ (u.cellIds.reverse).map cell := by
          rw [heq]
          have hcases : k = 0 ∨ k = 1 ∨ k = 2 ∨ k = 3 := by omega
          rcases hcases with h | h | h | h <;> subst h <;> simp
        obtain ⟨c, hc, hck⟩ := List.mem_map.mp hin
        exact ⟨c, List.mem_reverse.mp hc, hck⟩
      -- quarters of valid cells are not those of a cell larger than a face
      have hv := h.valid.validCell (hmem 0 (by omega))
      have hheight := hv.1
      rw [child_height] at hheight
      exact h.normalForm.unmerged p hh (by omega) hmem

end Tests

end S2Geography
