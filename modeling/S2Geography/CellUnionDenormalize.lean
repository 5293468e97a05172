import S2Geography.HilbertCells
import S2Geography.CellNesting

/-!
# Cells of a level inside a cell

`child_begin` and `child_end` of a level, the loop between them, and `Denormalize` of
`s2cell_union.cc`, which replaces every cell by its descendants of the next level in use.
-/
namespace S2Geography

open DyadicCells DyadicCell S2CellUnion
open S2CellId hiding none

namespace S2CellId

/-- `child_begin(level)`. -/
def childBeginAt (c : S2CellId) (level : ℤ) : S2CellId :=
  ⟨c.id - c.lsb + lsbForLevel level.toNat⟩

/-- `child_end(level)`. -/
def childEndAt (c : S2CellId) (level : ℤ) : S2CellId :=
  ⟨c.id + c.lsb + lsbForLevel level.toNat⟩

/-- The ids from one id up to another as a loop with `next` visits them, if it takes fewer
than `turns` turns. -/
def idsUntil (last : S2CellId) : ℕ → S2CellId → Option (List S2CellId)
  | 0, _ => Option.none
  | turns + 1, id =>
    if id = last then some [] else (idsUntil last turns id.next).map (id :: ·)

/-- The id with the digits of a cell. -/
def curveId (face h p : ℕ) : S2CellId := ⟨BitVec.ofNat 64 (face * 2 ^ 61 + (2 * p + 1) * 4 ^ h)⟩

variable {c d : S2CellId} {l h p q face : ℕ}

theorem CurveCell.eq_curveId (hc : CurveCell c l h p) : c = curveId c.face h p := by
  rw [curveId, ← hc.toNat_eq, toNat, BitVec.ofNat_toNat, BitVec.setWidth_eq]

/-- The number of a position, also of the one after the last one of a face. -/
theorem toNat_curveId (hf : face < kNumFaces) (hh : h ≤ 30) (hp : p * 4 ^ h ≤ 4 ^ 30) :
    (curveId face h p).toNat = face * 2 ^ 61 + (2 * p + 1) * 4 ^ h := by
  have hsmall : 4 ^ h ≤ 4 ^ 30 := Nat.pow_le_pow_right (by omega) hh
  have hexp : (2 * p + 1) * 4 ^ h = 2 * (p * 4 ^ h) + 4 ^ h := by ring
  rw [kNumFaces] at hf
  rw [curveId, toNat, BitVec.toNat_ofNat, Nat.mod_eq_of_lt]
  rw [hexp]
  omega

theorem next_curveId (hf : face < kNumFaces) (hh : h ≤ 30) (hp : p * 4 ^ h ≤ 4 ^ 30) :
    (curveId face h p).next = curveId face h (p + 1) := by
  have hnat := toNat_curveId hf hh hp
  have hpow : 2 ^ 61 = 2 * 4 ^ (30 - h) * 4 ^ h := by
    rw [show 2 ^ 61 = 2 * 4 ^ 30 by norm_num, Nat.mul_assoc, ← Nat.pow_add,
      Nat.sub_add_cancel hh]
  obtain ⟨hne, hcell⟩ := @cell_eq_of_toNat (curveId face h p)
    ⟨face * 4 ^ (30 - h) + p, 2 * h⟩ (by
      rw [hnat, center, size, Nat.pow_mul, hpow]
      ring)
  have hlsb : (curveId face h p).lsb = BitVec.ofNat 64 (4 ^ h) := by
    apply BitVec.eq_of_toNat_eq
    rw [lsb_toNat hne, hcell, size, Nat.pow_mul, BitVec.toNat_ofNat, Nat.mod_eq_of_lt]
    exact (Nat.pow_le_pow_right (by omega) hh).trans_lt (by norm_num)
  rw [next, hlsb, curveId, curveId]
  congr 1
  apply BitVec.eq_of_toNat_eq
  rw [BitVec.toNat_add, BitVec.toNat_shiftLeft, Nat.shiftLeft_eq]
  simp only [BitVec.toNat_ofNat]
  have hstep : (2 * (p + 1) + 1) * 4 ^ h = (2 * p + 1) * 4 ^ h + 4 ^ h * 2 := by ring
  rw [hstep]
  omega

/-- The loop between two positions of one face. -/
theorem idsUntil_curveId (hf : face < kNumFaces) (hh : h ≤ 30) {n turns : ℕ} (hn : n < turns)
    (hp : (p + n) * 4 ^ h ≤ 4 ^ 30) : idsUntil (curveId face h (p + n)) turns (curveId face h p) =
      some ((List.range' p n).map (curveId face h)) := by
  induction n generalizing p turns with
  | zero =>
    obtain ⟨t, rfl⟩ := Nat.exists_eq_add_of_lt hn
    simp [idsUntil]
  | succ n ih =>
    obtain ⟨t, rfl⟩ : ∃ t, turns = t + 1 := ⟨turns - 1, by omega⟩
    have hle : p * 4 ^ h ≤ 4 ^ 30 := (Nat.mul_le_mul_right _ (by omega)).trans hp
    have hne : curveId face h p ≠ curveId face h (p + (n + 1)) := by
      intro heq
      have hnat := congrArg S2CellId.toNat heq
      rw [toNat_curveId hf hh hle, toNat_curveId hf hh hp] at hnat
      have hcancel := Nat.eq_of_mul_eq_mul_right (Nat.pow_pos (by omega)) (Nat.add_left_cancel hnat)
      omega
    rw [idsUntil, if_neg hne, next_curveId hf hh hle, show p + (n + 1) = p + 1 + n by omega,
      ih (by omega) (by rwa [show p + 1 + n = p + (n + 1) by omega]), List.range'_succ]
    rfl

/-- Descendants of a cell start with its digits. -/
theorem CurveCell.contains_iff (hc : CurveCell c l h p) (hv : c.isValid = true) {m k : ℕ}
    (hd : CurveCell d m k q) (hle : k ≤ h) :
    c.contains d = true ↔ d.face = c.face ∧ q / 4 ^ (h - k) = p := by
  have hpos : 0 < 4 ^ k := Nat.pow_pos (by omega)
  have hpos' : 0 < 4 ^ (h - k) := Nat.pow_pos (by omega)
  have hne := ne_none_of_isValid hv
  have hsplit : 4 ^ h = 4 ^ (h - k) * 4 ^ k := by rw [← Nat.pow_add, Nat.sub_add_cancel hle]
  have hsize : c.cell.size = 4 ^ h := by rw [DyadicCell.size, hc.height, Nat.pow_mul]
  have hcenter : c.cell.center = c.face * 2 ^ 61 + (2 * (p * 4 ^ h) + 4 ^ h) := by
    rw [← S2CellId.toNat_eq hne, hc.toNat_eq]
    ring
  have hdnat : d.toNat = d.face * 2 ^ 61 + (2 * (q * 4 ^ k) + 4 ^ k) := by
    rw [hd.toNat_eq]
    ring
  have hcle : (p + 1) * 4 ^ h ≤ 4 ^ 30 := hc.pow_eq ▸ Nat.mul_le_mul_right _ hc.pos_lt
  have hdle : (q + 1) * 4 ^ k ≤ 4 ^ 30 := hd.pow_eq ▸ Nat.mul_le_mul_right _ hd.pos_lt
  rw [contains_eq_true, le_def, le_def, rangeMin_toNat hne, rangeMax_toNat hne, DyadicCell.lo_eq,
    DyadicCell.hi_eq, hsize, hcenter, hdnat, Nat.div_eq_iff hpos']
  rw [Nat.add_mul, Nat.one_mul] at hcle hdle
  have hlow : p * 4 ^ (h - k) ≤ q ↔ p * 4 ^ h ≤ q * 4 ^ k := by
    rw [hsplit, ← Nat.mul_assoc, Nat.mul_le_mul_right_iff hpos]
  have hhigh : q < p * 4 ^ (h - k) + 4 ^ (h - k) ↔ q * 4 ^ k + 4 ^ k ≤ p * 4 ^ h + 4 ^ h := by
    rw [hsplit, ← Nat.mul_assoc, ← Nat.add_mul, ← Nat.succ_mul q, Nat.mul_le_mul_right_iff hpos,
      Nat.succ_le_iff]
  have hless : q < p * 4 ^ (h - k) ↔ q * 4 ^ k + 4 ^ k ≤ p * 4 ^ h := by
    rw [hsplit, ← Nat.mul_assoc, ← Nat.succ_mul q, Nat.mul_le_mul_right_iff hpos,
      Nat.succ_le_iff]
  have hmore : p * 4 ^ (h - k) + 4 ^ (h - k) ≤ q ↔ p * 4 ^ h + 4 ^ h ≤ q * 4 ^ k := by
    rw [hsplit, ← Nat.mul_assoc, ← Nat.add_mul, Nat.mul_le_mul_right_iff hpos]
  generalize p * 4 ^ (h - k) = x' at *
  generalize 4 ^ (h - k) = s' at *
  generalize p * 4 ^ h = x at *
  generalize q * 4 ^ k = y at *
  generalize 4 ^ h = s at *
  generalize 4 ^ k = t at *
  constructor
  · intro hmem
    have hface : d.face = c.face := by omega
    rw [hface] at hmem
    exact ⟨hface, by omega⟩
  · intro hmem
    obtain ⟨hface, hmem⟩ := hmem
    rw [hface]
    omega

/-! ### The descendants of a level -/

theorem lsbForLevel_toNat (hh : h ≤ 30) : (lsbForLevel (30 - h)).toNat = 4 ^ h := by
  rw [lsbForLevel, kMaxLevel, Nat.sub_sub_self hh, BitVec.toNat_shiftLeft, Nat.shiftLeft_eq,
    Nat.pow_mul]
  exact (Nat.mod_eq_of_lt (by
    rw [BitVec.toNat_ofNat, Nat.one_mod, Nat.one_mul]
    exact (Nat.pow_le_pow_right (by omega) hh).trans_lt (by norm_num))).trans (Nat.one_mul _)

/-- The first descendant and the one after the last one, as positions. -/
theorem CurveCell.ends_eq (hc : CurveCell c l h p) (hv : c.isValid = true) {k : ℕ} (hle : k ≤ h) :
    c.childBeginAt (30 - k : ℕ) = curveId c.face k (p * 4 ^ (h - k)) ∧
      c.childEndAt (30 - k : ℕ) = curveId c.face k (p * 4 ^ (h - k) + 4 ^ (h - k)) := by
  have hsum := hc.sum
  have hface := face_lt_of_isValid hv
  have hcle : (p + 1) * 4 ^ h ≤ 4 ^ 30 := hc.pow_eq ▸ Nat.mul_le_mul_right _ hc.pos_lt
  have hsplit : 4 ^ (h - k) * 4 ^ k = 4 ^ h := by rw [← Nat.pow_add, Nat.sub_add_cancel hle]
  have hbegin : p * 4 ^ (h - k) * 4 ^ k = p * 4 ^ h := by rw [Nat.mul_assoc, hsplit]
  have hend : (p * 4 ^ (h - k) + 4 ^ (h - k)) * 4 ^ k = p * 4 ^ h + 4 ^ h := by
    rw [Nat.add_mul, hbegin, hsplit]
  have hlsb : c.lsb.toNat = 4 ^ h := by
    rw [lsb_toNat (ne_none_of_isValid hv), DyadicCell.size, hc.height, Nat.pow_mul]
  have hnew := @lsbForLevel_toNat k (by omega)
  have hnat : c.id.toNat = c.face * 2 ^ 61 + (2 * (p * 4 ^ h) + 4 ^ h) := by
    rw [show c.id.toNat = c.toNat from rfl, hc.toNat_eq]
    ring
  have hbeginNat := @toNat_curveId k (p * 4 ^ (h - k)) c.face hface (by omega) (by
    rw [hbegin]
    exact (Nat.mul_le_mul_right _ p.le_succ).trans hcle)
  have hendNat := @toNat_curveId k (p * 4 ^ (h - k) + 4 ^ (h - k)) c.face hface (by omega) (by
    rwa [hend, ← Nat.succ_mul])
  have hbeginExp : (2 * (p * 4 ^ (h - k)) + 1) * 4 ^ k = 2 * (p * 4 ^ h) + 4 ^ k := by
    rw [← hbegin]
    ring
  have hendExp : (2 * (p * 4 ^ (h - k) + 4 ^ (h - k)) + 1) * 4 ^ k =
      2 * (p * 4 ^ h + 4 ^ h) + 4 ^ k := by
    rw [← hend]
    ring
  have hsmall : 4 ^ k ≤ 4 ^ 30 := Nat.pow_le_pow_right (by omega) (by omega)
  rw [Nat.add_mul, Nat.one_mul] at hcle
  rw [hbeginExp] at hbeginNat
  rw [hendExp] at hendNat
  rw [kNumFaces] at hface
  constructor
  · apply toNat_injective
    rw [hbeginNat, childBeginAt, toNat, Int.toNat_natCast, BitVec.toNat_add, BitVec.toNat_sub,
      hlsb, hnew, hnat]
    generalize p * 4 ^ h = x at *
    generalize 4 ^ h = s at *
    generalize 4 ^ k = t at *
    omega
  · apply toNat_injective
    rw [hendNat, childEndAt, toNat, Int.toNat_natCast, BitVec.toNat_add, BitVec.toNat_add, hlsb,
      hnew, hnat]
    generalize p * 4 ^ h = x at *
    generalize 4 ^ h = s at *
    generalize 4 ^ k = t at *
    omega

/-- The ids between the first descendant of a level and the end. -/
theorem idsUntil_childBeginAt (hv : c.isValid = true) {level : ℤ} (hlevel : c.level ≤ level)
    (hmax : level ≤ kMaxLevel) {turns : ℕ} (hturns : 4 ^ kMaxLevel < turns) :
    ∃ ds, idsUntil (c.childEndAt level) turns (c.childBeginAt level) = some ds ∧
      (∀ d, d ∈ ds ↔ d.isValid = true ∧ c.contains d = true ∧ d.level = level) ∧
      (ds.Pairwise fun a b => a.rangeMax < b.rangeMin) ∧
      ds.length = 4 ^ (level - c.level).toNat := by
  obtain ⟨l, h, p, hc⟩ := exists_curveCell hv
  have hcl := hc.level_eq hv
  have hsum := hc.sum
  rw [kMaxLevel] at hmax hturns
  obtain ⟨k, rfl, hle⟩ : ∃ k : ℕ, level = (30 - k : ℕ) ∧ k ≤ h := by
    exact ⟨30 - level.toNat, by omega, by omega⟩
  obtain ⟨hbegin, hend⟩ := hc.ends_eq hv hle
  have hface := face_lt_of_isValid hv
  have hpow : 4 ^ l * 4 ^ (h - k) = 4 ^ (30 - k) := by
    rw [← Nat.pow_add]
    congr 1
    omega
  have hcount : p * 4 ^ (h - k) + 4 ^ (h - k) ≤ 4 ^ (30 - k) := by
    rw [← Nat.succ_mul, ← hpow]
    exact Nat.mul_le_mul_right _ hc.pos_lt
  have hfits : (p * 4 ^ (h - k) + 4 ^ (h - k)) * 4 ^ k ≤ 4 ^ 30 := by
    apply (Nat.mul_le_mul_right _ hcount).trans
    rw [← Nat.pow_add, Nat.sub_add_cancel (by omega)]
  have hn : 4 ^ (h - k) < turns := (Nat.pow_le_pow_right (by omega) (by omega)).trans_lt hturns
  rw [hbegin, hend]
  -- the positions from the first to the last one name the descendants
  have hcell : ∀ q < p * 4 ^ (h - k) + 4 ^ (h - k), (curveId c.face k q).face = c.face ∧
      (curveId c.face k q).isValid = true ∧ CurveCell (curveId c.face k q) (30 - k) k q := by
    intro q hq
    have hnat := toNat_curveId hface (by omega) ((Nat.mul_le_mul_right _ hq.le).trans hfits)
    obtain ⟨hqface, hqcell⟩ := curveCell_of_toNat (by omega) (hq.trans_le hcount) hnat
    exact ⟨hqface, hqcell.isValid (by rwa [hqface]), hqcell⟩
  have hpos : 0 < 4 ^ (h - k) := Nat.pow_pos (by omega)
  refine ⟨_, idsUntil_curveId hface (by omega) hn hfits, ?_, ?_, ?_⟩
  · intro d
    rw [List.mem_map]
    constructor
    · intro hd
      obtain ⟨q, hq, rfl⟩ := hd
      rw [List.mem_range'_1] at hq
      obtain ⟨hqface, hqv, hqcell⟩ := hcell q hq.2
      refine ⟨hqv, ?_, hqcell.level_eq hqv⟩
      rw [hc.contains_iff hv hqcell hle]
      refine ⟨hqface, ?_⟩
      rw [Nat.div_eq_iff hpos]
      omega
    · intro hd
      obtain ⟨hdv, hcontains, hdl⟩ := hd
      obtain ⟨m, k', q, hdc⟩ := exists_curveCell hdv
      have hdlevel := hdc.level_eq hdv
      have hdsum := hdc.sum
      obtain rfl : k' = k := by omega
      rw [hc.contains_iff hv hdc hle, Nat.div_eq_iff hpos] at hcontains
      refine ⟨q, List.mem_range'_1.mpr (by omega), ?_⟩
      rw [hdc.eq_curveId, hcontains.1]
  · rw [List.pairwise_map]
    have hlt : (List.range' (p * 4 ^ (h - k)) (4 ^ (h - k))).Pairwise (· < ·) :=
      List.pairwise_lt_range'
    apply hlt.imp_of_mem
    intro q r hq hr hqr
    rw [List.mem_range'_1] at hq hr
    obtain ⟨hqface, hqv, hqcell⟩ := hcell q hq.2
    obtain ⟨hrface, hrv, hrcell⟩ := hcell r hr.2
    have hqne := ne_none_of_isValid hqv
    have hrne := ne_none_of_isValid hrv
    have hqnat := hqcell.toNat_eq
    have hrnat := hrcell.toNat_eq
    have hstep : (q + 1) * 4 ^ k ≤ r * 4 ^ k := Nat.mul_le_mul_right _ hqr
    have hqexp : (2 * q + 1) * 4 ^ k = 2 * (q * 4 ^ k) + 4 ^ k := by ring
    have hrexp : (2 * r + 1) * 4 ^ k = 2 * (r * 4 ^ k) + 4 ^ k := by ring
    have hposk : 0 < 4 ^ k := Nat.pow_pos (by omega)
    rw [S2CellId.toNat_eq hqne, hqface, hqexp] at hqnat
    rw [S2CellId.toNat_eq hrne, hrface, hrexp] at hrnat
    rw [Nat.add_mul, Nat.one_mul] at hstep
    rw [rangeMax_lt_rangeMin_iff hqne hrne, DyadicCell.Before, DyadicCell.hi_eq, DyadicCell.lo_eq,
      DyadicCell.size, DyadicCell.size, hqcell.height, hrcell.height, Nat.pow_mul, hqnat, hrnat]
    change _ + (4 ^ k - 1) < _ - (4 ^ k - 1)
    omega
  · rw [List.length_map, List.length_range']
    congr 1
    omega

end S2CellId

/-! ### Denormalising -/

namespace S2CellUnion

/-- The level that `Denormalize` takes for a cell of the given one. -/
def denormalizeLevel (minLevel levelMod level : ℤ) : ℤ :=
  let newLevel := max minLevel level
  if levelMod > 1 then
    min kMaxLevel (newLevel + Int.tmod (kMaxLevel - (newLevel - minLevel)) levelMod)
  else newLevel

def denormalizeId (turns : ℕ) (minLevel levelMod : ℤ) (c : S2CellId) :
    Option (List S2CellId) :=
  let newLevel := denormalizeLevel minLevel levelMod c.level
  if newLevel = c.level then some [c]
  else S2CellId.idsUntil (c.childEndAt newLevel) turns (c.childBeginAt newLevel)

/-- `Denormalize`, if no inner loop takes `turns` turns. -/
def denormalize (turns : ℕ) (minLevel levelMod : ℤ) : List S2CellId → Option (List S2CellId)
  | [] => some []
  | c :: ids => do
    let out ← denormalizeId turns minLevel levelMod c
    let rest ← denormalize turns minLevel levelMod ids
    some (out ++ rest)

/-- What `Denormalize` requires of its parameters. -/
structure LevelParams (minLevel levelMod : ℤ) : Prop where
  min_nonneg : 0 ≤ minLevel
  min_le : minLevel ≤ kMaxLevel
  mod_pos : 1 ≤ levelMod
  mod_le : levelMod ≤ 3

/-- The levels in use with a lowest level and a step. The last level is always one of them. -/
def LevelInUse (minLevel levelMod level : ℤ) : Prop :=
  minLevel ≤ level ∧ level ≤ kMaxLevel ∧ ((level - minLevel) % levelMod = 0 ∨ level = kMaxLevel)

end S2CellUnion

section Denormalize

variable {minLevel levelMod : ℤ} {ids out : List S2CellId} {c d : S2CellId} {turns : ℕ}

theorem isLeast_denormalizeLevel {level : ℤ} (hp : LevelParams minLevel levelMod)
    (hlevel0 : 0 ≤ level) (hlevel30 : level ≤ kMaxLevel) :
    IsLeast {l | level ≤ l ∧ LevelInUse minLevel levelMod l}
      (denormalizeLevel minLevel levelMod level) := by
  obtain ⟨hmin0, hmin30, hmod1, hmod3⟩ := hp
  rw [kMaxLevel] at hmin30 hlevel30
  have hrest : Int.tmod (30 - (max minLevel level - minLevel)) levelMod =
      (30 - (max minLevel level - minLevel)) % levelMod :=
    Int.tmod_eq_emod_of_nonneg (by omega)
  have hnew : denormalizeLevel minLevel levelMod level = if levelMod > 1 then
      min 30 (max minLevel level + (30 - (max minLevel level - minLevel)) % levelMod)
    else max minLevel level := by
    rw [denormalizeLevel, kMaxLevel]
    simp only [Nat.cast_ofNat, hrest]
  have hcases : levelMod = 1 ∨ levelMod = 2 ∨ levelMod = 3 := by omega
  rw [hnew]
  constructor
  · rw [Set.mem_ofPred_eq, LevelInUse, kMaxLevel]
    rcases hcases with h | h | h <;> subst h <;> norm_num <;> omega
  · intro l hl
    obtain ⟨hle, hmin, hmax, hl⟩ := hl
    rw [kMaxLevel] at hmax hl
    rcases hcases with h | h | h <;> subst h <;> norm_num at hl ⊢ <;> omega

theorem denormalizeId_spec (hp : LevelParams minLevel levelMod)
    (hturns : 4 ^ kMaxLevel < turns) (hc : c.isValid = true) :
    ∃ ds, denormalizeId turns minLevel levelMod c = some ds ∧
      (∀ d, d ∈ ds ↔ d.isValid = true ∧ c.contains d = true ∧
        d.level = denormalizeLevel minLevel levelMod c.level) ∧ Ascending ds := by
  obtain ⟨hlevel0, hlevel30, -⟩ := level_spec hc
  obtain ⟨hle, -, hmax, -⟩ := (isLeast_denormalizeLevel hp hlevel0 hlevel30).1
  rw [denormalizeId]
  by_cases heq : denormalizeLevel minLevel levelMod c.level = c.level
  · rw [if_pos heq, heq]
    refine ⟨[c], rfl, ?_, List.pairwise_singleton _ _⟩
    intro d
    rw [List.mem_singleton]
    constructor
    · intro hd
      rw [hd]
      exact ⟨hc, contains_self hc, rfl⟩
    · intro hd
      obtain ⟨hdv, hcontains, hlevel⟩ := hd
      exact (eq_of_contains hc hdv hcontains hlevel.le).symm
  · rw [if_neg heq]
    obtain ⟨ds, hrun, hmem, hasc, -⟩ := idsUntil_childBeginAt hc hle hmax hturns
    exact ⟨ds, hrun, hmem, hasc⟩

theorem denormalize_eq_some (hp : LevelParams minLevel levelMod)
    (hturns : 4 ^ kMaxLevel < turns) (hids : ValidIds ids) :
    ∃ out, denormalize turns minLevel levelMod ids = some out ∧
      (∀ d, d ∈ out ↔ ∃ c ∈ ids, d.isValid = true ∧ c.contains d = true ∧
        d.level = denormalizeLevel minLevel levelMod c.level) ∧
      (Ascending ids → Ascending out) := by
  induction ids with
  | nil =>
    refine ⟨[], rfl, ?_, id⟩
    intro d
    simp only [List.not_mem_nil, false_and, exists_false]
  | cons c ids ih =>
    obtain ⟨hc, hids⟩ := List.forall_mem_cons.mp hids
    have hne := ValidIds.ne_none hids
    obtain ⟨ds, hds, hmem, hasc⟩ := denormalizeId_spec hp hturns hc
    obtain ⟨rest, hrest, hmemRest, hascRest⟩ := ih hids
    refine ⟨ds ++ rest, ?_, ?_, ?_⟩
    · rw [denormalize, hds, hrest]
      rfl
    · intro d
      rw [List.mem_append, hmem, hmemRest]
      simp only [List.mem_cons, exists_eq_or_imp]
    · intro h
      obtain ⟨hfirst, hlater⟩ := List.pairwise_cons.mp h
      rw [Ascending, List.pairwise_append]
      refine ⟨hasc, hascRest hlater, ?_⟩
      -- what replaces an id stays inside it, and so in front of what replaces a later one
      intro x hx y hy
      obtain ⟨hxv, hcx, -⟩ := (hmem x).mp hx
      obtain ⟨b, hb, hyv, hby, -⟩ := (hmemRest y).mp hy
      have hc0 := ne_none_of_isValid hc
      have hb0 := hne b hb
      have hx0 := ne_none_of_isValid hxv
      have hy0 := ne_none_of_isValid hyv
      have hbefore := (rangeMax_lt_rangeMin_iff hc0 hb0).mp (hfirst b hb)
      rw [contains_iff_within hc0 hx0] at hcx
      rw [contains_iff_within hb0 hy0] at hby
      exact (rangeMax_lt_rangeMin_iff hx0 hy0).mpr (hbefore.mono hcx hby)

theorem leafCells_of_descendants (hp : LevelParams minLevel levelMod) (hids : ValidIds ids)
    (hmem : ∀ d, d ∈ out ↔ ∃ c ∈ ids, d.isValid = true ∧ c.contains d = true ∧
      d.level = denormalizeLevel minLevel levelMod c.level) : leafCells out = leafCells ids := by
  have hout : ValidIds out := by
    intro d hd
    obtain ⟨c, -, hdv, -⟩ := (hmem d).mp hd
    exact hdv
  apply Set.Subset.antisymm
  · apply leafCells_subset_of_contains hids hout
    intro d hd
    obtain ⟨c, hc, -, hcd, -⟩ := (hmem d).mp hd
    exact ⟨c, hc, hcd⟩
  · intro l hl
    obtain ⟨hleaf, c, hc, hcl⟩ := hl
    obtain ⟨hlevel0, hlevel30, -⟩ := level_spec (hids c hc)
    obtain ⟨hle, -, hmax, -⟩ := (isLeast_denormalizeLevel hp hlevel0 hlevel30).1
    obtain ⟨d, hdv, hcd, hdl, hdleaf⟩ := exists_descendant (hids c hc) hleaf hcl hle hmax
    exact ⟨hleaf, d, (hmem d).mpr ⟨c, hc, hdv, hcd, hdl⟩, hdleaf⟩

/-- What `Denormalize` makes of a vector: the descendants of the first level in use from that
of each cell on. -/
structure Denormalised (minLevel levelMod : ℤ) (ids out : List S2CellId) : Prop where
  mem_iff : ∀ d, d ∈ out ↔ ∃ c ∈ ids, d.isValid = true ∧ c.contains d = true ∧
    IsLeast {l | c.level ≤ l ∧ LevelInUse minLevel levelMod l} d.level
  leafCells_eq : leafCells out = leafCells ids
  ascending : Ascending ids → Ascending out

theorem denormalize_spec (hp : LevelParams minLevel levelMod)
    (hturns : 4 ^ kMaxLevel < turns) (hids : ValidIds ids) :
    ∃ out, denormalize turns minLevel levelMod ids = some out ∧
      Denormalised minLevel levelMod ids out := by
  obtain ⟨out, hrun, hmem, hasc⟩ := denormalize_eq_some hp hturns hids
  refine ⟨out, hrun, ?_, leafCells_of_descendants hp hids hmem, hasc⟩
  intro d
  rw [hmem]
  apply exists_congr
  intro c
  apply and_congr_right
  intro hc
  obtain ⟨hlevel0, hlevel30, -⟩ := level_spec (hids c hc)
  have hleast := isLeast_denormalizeLevel hp hlevel0 hlevel30
  rw [hleast.isLeast_iff_eq, @eq_comm ℤ]

theorem Denormalised.validIds (h : Denormalised minLevel levelMod ids out) : ValidIds out := by
  intro d hd
  obtain ⟨c, -, hdv, -⟩ := (h.mem_iff d).mp hd
  exact hdv

/-! More turns do not change a run that ends. -/

theorem S2CellId.idsUntil_mono {last : S2CellId} {more : ℕ} (hle : turns ≤ more)
    (h : S2CellId.idsUntil last turns c = some out) : S2CellId.idsUntil last more c = some out := by
  induction turns generalizing more c out with
  | zero => exact nomatch h
  | succ turns ih =>
    obtain ⟨more, rfl⟩ : ∃ m, more = m + 1 := ⟨more - 1, by omega⟩
    rw [S2CellId.idsUntil] at h ⊢
    split at h
    · rename_i hlast
      rwa [if_pos hlast]
    · rename_i hnext
      obtain ⟨rest, hrest, hout⟩ := Option.map_eq_some_iff.mp h
      rw [if_neg hnext, ih (by omega) hrest, ← hout]
      rfl

theorem denormalize_mono {more : ℕ} (hle : turns ≤ more)
    (h : denormalize turns minLevel levelMod ids = some out) :
    denormalize more minLevel levelMod ids = some out := by
  induction ids generalizing out with
  | nil => exact h
  | cons c ids ih =>
    rw [denormalize, Option.bind_eq_bind, Option.bind_eq_some_iff] at h
    obtain ⟨ds, hds, h⟩ := h
    rw [Option.bind_eq_some_iff] at h
    obtain ⟨rest, hrest, hout⟩ := h
    have hmore : denormalizeId more minLevel levelMod c = some ds := by
      rw [denormalizeId] at hds ⊢
      split at hds
      · rename_i heq
        rwa [if_pos heq]
      · rename_i heq
        rw [if_neg heq]
        exact S2CellId.idsUntil_mono hle hds
    rw [denormalize, hmore, ih hrest]
    exact hout

/-- Whatever number of turns it took, what is returned is as specified. -/
theorem denormalised_of_eq_some (hp : LevelParams minLevel levelMod) (hids : ValidIds ids)
    (h : denormalize turns minLevel levelMod ids = some out) :
    Denormalised minLevel levelMod ids out := by
  have hturns : 4 ^ kMaxLevel < max turns (4 ^ kMaxLevel + 1) :=
    (Nat.lt_succ_self _).trans_le (le_max_right _ _)
  obtain ⟨out', hrun, hout⟩ := denormalize_spec hp hturns hids
  rw [denormalize_mono (le_max_left _ _) h, Option.some.injEq] at hrun
  rw [hrun]
  exact hout

/-- `Normalize` undoes `Denormalize`. -/
theorem normalizeIds_denormalize (hp : LevelParams minLevel levelMod)
    (hturns : 4 ^ kMaxLevel < turns) (hids : ValidIds ids) :
    ∃ out, denormalize turns minLevel levelMod ids = some out ∧
      Denormalised minLevel levelMod ids out ∧ normalizeIds out = normalizeIds ids := by
  obtain ⟨out, hrun, hout⟩ := denormalize_spec hp hturns hids
  refine ⟨out, hrun, hout, ?_⟩
  have hvalid := hout.validIds
  rw [(normalised_normalizeIds hvalid).eq_iff (normalised_normalizeIds hids),
    leafCells_normalizeIds hvalid.ne_none, leafCells_normalizeIds hids.ne_none, hout.leafCells_eq]

/-- Two faces and a cell of level 29 with a lowest level of 1 and steps of two levels. -/
theorem normalizeIds_denormalize_faces : ∃ out,
    denormalize (4 ^ 30 + 1) 1 2 [⟨0x1000000000000000⟩, ⟨0x3000000000000000⟩, ⟨0x5000000000000004⟩] =
      some out ∧
      Denormalised 1 2 [⟨0x1000000000000000⟩, ⟨0x3000000000000000⟩, ⟨0x5000000000000004⟩] out ∧
      normalizeIds out =
        normalizeIds [⟨0x1000000000000000⟩, ⟨0x3000000000000000⟩, ⟨0x5000000000000004⟩] := by
  apply normalizeIds_denormalize
  · exact ⟨by decide, by decide, by decide, by decide⟩
  · exact Nat.lt_succ_self _
  · intro c hc
    simp only [List.mem_cons, List.not_mem_nil, or_false] at hc
    rcases hc with hc | hc | hc <;> subst hc <;> decide

end Denormalize

end S2Geography
