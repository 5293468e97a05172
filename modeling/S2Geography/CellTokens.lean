import S2Geography.CellMissing
import Mathlib.Data.List.DropRight

/-!
# Tokens

The token of a cell is its id in hexadecimal without the zeros at the end. A vector of cell
unions becomes a vector of strings in which the tokens of a union are joined by semicolons.
Strings are lists of characters; one outside ASCII, which is several bytes of the
`std::string`, is no digit in either reading.
-/
namespace S2Geography

open S2CellId hiding none id

/-- An element of a character vector of R, `NA` or a string. -/
abbrev RString := Option (List Char)

/-! ### Tokens -/

def hexDigits : List Char := "0123456789abcdef".toList

/-- `HexFormatString`: the digits are written from the last to the first. -/
def hexFormatString : BitVec 64 → ℕ → List Char
  | _, 0 => []
  | val, numDigits + 1 =>
    hexFormatString (val >>> 4) numDigits ++ [hexDigits.getD (val &&& 0xF).toNat ' ']

def toToken (c : S2CellId) : List Char :=
  if c.id = 0 then ['X']
  else
    let numZeroDigits := Bits.findLSBSetNonZero64 c.id / 4
    hexFormatString (c.id >>> (4 * numZeroDigits)) (16 - numZeroDigits)

def hexValue (ch : Char) : Option (BitVec 64) :=
  if '0' ≤ ch ∧ ch ≤ '9' then some (BitVec.ofNat 64 (ch.toNat - '0'.toNat))
  else if 'a' ≤ ch ∧ ch ≤ 'f' then some (BitVec.ofNat 64 (ch.toNat - 'a'.toNat + 10))
  else if 'A' ≤ ch ∧ ch ≤ 'F' then some (BitVec.ofNat 64 (ch.toNat - 'A'.toNat + 10))
  else none

/-- The loop of `FromToken`. -/
def fromTokenLoop : List Char → ℕ → BitVec 64 → S2CellId
  | [], _, id => ⟨id⟩
  | ch :: token, pos, id =>
    match hexValue ch with
    | some d => fromTokenLoop token (pos - 4) (id ||| d <<< pos)
    | none => S2CellId.none

def fromToken (token : List Char) : S2CellId :=
  if token.length > 16 then S2CellId.none else fromTokenLoop token 60 0

def cppS2CellToString (cellIdVector : List S2CellId) : List RString :=
  cellIdVector.map fun cellId => if rIsNA cellId then none else some (toToken cellId)

def cppS2CellFromString (cellString : List RString) : List S2CellId :=
  cellString.map fun item =>
    match item with
    | none => naReal
    | some token => fromToken token

/-! ### Cell unions -/

def isSpace (ch : Char) : Bool := ch == ' ' || (9 ≤ ch.toNat && ch.toNat ≤ 13)

theorem length_dropWhile_tail_lt {s rest : List Char} {ch : Char} {p q : Char → Bool}
    (h : s.dropWhile p = ch :: rest) : (rest.dropWhile q).length < s.length := by
  have hs := (List.dropWhile_sublist p (l := s)).length_le
  have hrest := (List.dropWhile_sublist q (l := rest)).length_le
  rw [h, List.length_cons] at hs
  omega

/-- `strsplit(x, "\\s*;\\s*")`: the string up to the white space around each semicolon, and
what is left after the last one unless nothing is. -/
def strsplit (s : List Char) : List (List Char) :=
  match _h : s.dropWhile (· ≠ ';') with
  | [] => if s.isEmpty then [] else [s]
  | _ :: rest =>
    (s.takeWhile (· ≠ ';')).rdropWhile isSpace :: strsplit (rest.dropWhile isSpace)
termination_by s.length
decreasing_by exact length_dropWhile_tail_lt _h

/-- `paste0(x, collapse = ";")`. -/
def pasteCollapse (x : List RString) : List Char :=
  [';'].intercalate (x.map fun item => item.getD ['N', 'A'])

/-- `as.character.s2_cell_union`. -/
def asCharacterS2CellUnion (x : List CellUnionItem) : List RString :=
  x.map fun item => item.map fun e => pasteCollapse (cppS2CellToString e)

/-- `as_s2_cell_union.character`. -/
def asS2CellUnionCharacter (x : List RString) : List CellUnionItem :=
  x.map fun item => item.map fun s => cppS2CellFromString ((strsplit s).map some)

/-! ### Digits -/

theorem hexValue_getD {d : ℕ} (hd : d < 16) :
    hexValue (hexDigits.getD d ' ') = some (BitVec.ofNat 64 d) := by
  have hall : ∀ k : Fin 16, hexValue (hexDigits.getD k ' ') = some (BitVec.ofNat 64 k) := by
    decide
  exact hall ⟨d, hd⟩

theorem length_hexFormatString (val : BitVec 64) (n : ℕ) : (hexFormatString val n).length = n := by
  induction n generalizing val with
  | zero => rfl
  | succ n ih => rw [hexFormatString, List.length_append, ih, List.length_singleton]

theorem toNat_and_fifteen (val : BitVec 64) : (val &&& 0xF).toNat = val.toNat % 2 ^ 4 :=
  (BitVec.toNat_and val 0xF#64).trans (Nat.and_two_pow_sub_one_eq_mod val.toNat 4)

/-- A word is the digits before its last one and the last one. -/
theorem shiftLeft_or_digit (val : BitVec 64) (s : ℕ) :
    (val >>> 4) <<< (4 + s) ||| (val &&& 0xF) <<< s = val <<< s := by
  have hword : (val >>> 4) <<< 4 ||| (val &&& 0xF) = val := by
    apply BitVec.eq_of_toNat_eq
    have hlt : val.toNat / 2 ^ 4 * 2 ^ 4 < 2 ^ 64 :=
      (Nat.div_mul_le_self _ _).trans_lt val.isLt
    have hhigh : ((val >>> 4) <<< 4).toNat = (val.toNat / 2 ^ 4) <<< 4 := by
      rw [BitVec.toNat_shiftLeft, BitVec.toNat_ushiftRight, Nat.shiftRight_eq_div_pow,
        Nat.shiftLeft_eq, Nat.mod_eq_of_lt hlt]
    rw [BitVec.toNat_or, hhigh, toNat_and_fifteen,
      ← Nat.shiftLeft_add_eq_or_of_lt (Nat.mod_lt _ (Nat.two_pow_pos 4)), Nat.shiftLeft_eq]
    exact Nat.div_add_mod' val.toNat (2 ^ 4)
  rw [BitVec.shiftLeft_add, ← BitVec.shiftLeft_or_distrib, hword]

/-- Reading the digits of a word places it below the digits read before. -/
theorem fromTokenLoop_append (val id : BitVec 64) (rest : List Char) {n k : ℕ} (hn : n ≤ k)
    (hval : val.toNat < 16 ^ n) :
    fromTokenLoop (hexFormatString val n ++ rest) (4 * k - 4) id =
      fromTokenLoop rest (4 * (k - n) - 4) (id ||| val <<< (4 * (k - n))) := by
  induction n generalizing val rest with
  | zero =>
    obtain rfl : val = 0#64 := BitVec.eq_of_toNat_eq (by simpa using hval)
    simp [hexFormatString]
  | succ n ih =>
    have hshift : (val >>> 4).toNat < 16 ^ n := by
      rw [BitVec.toNat_ushiftRight, Nat.shiftRight_eq_div_pow]
      rw [Nat.pow_succ] at hval
      omega
    have hdigit := hexValue_getD (toNat_and_fifteen val ▸ Nat.mod_lt val.toNat (by decide))
    have hlow : BitVec.ofNat 64 (val &&& 0xF).toNat = val &&& 0xF := by simp
    have hplace : 4 * (k - n) = 4 + 4 * (k - (n + 1)) := by omega
    rw [hexFormatString, List.append_assoc, ih (val >>> 4) _ (by omega) hshift,
      List.singleton_append, fromTokenLoop, hdigit, hlow, hplace, Nat.add_sub_cancel_left]
    simp only
    rw [BitVec.or_assoc, shiftLeft_or_digit]

/-- Zeros at the end come back. -/
theorem ushiftRight_shiftLeft {n : BitVec 64} {s : ℕ} (h : ∀ i < s, n.getLsbD i = false) :
    (n >>> s) <<< s = n := by
  apply BitVec.eq_of_getLsbD_eq
  intro i hi
  rw [BitVec.getLsbD_shiftLeft, BitVec.getLsbD_ushiftRight]
  by_cases his : i < s
  · simp [his, h i his]
  · simp [his, hi, show s + (i - s) = i by omega]

theorem numZeroDigits_lt {n : BitVec 64} (hn : n ≠ 0) : Bits.findLSBSetNonZero64 n / 4 < 16 := by
  have hctz : n.ctz.toNat < 64 := BitVec.lt_def.mp ((BitVec.ctz_lt_iff_ne_zero (x := n)).mpr hn)
  rw [Bits.findLSBSetNonZero64]
  omega

theorem fromToken_toToken (c : S2CellId) : fromToken (toToken c) = c := by
  by_cases hzero : c.id = 0
  · rw [toToken, if_pos hzero]
    exact congrArg S2CellId.mk hzero.symm
  · rw [toToken, if_neg hzero]
    simp only
    have hlow : ∀ i < 4 * (Bits.findLSBSetNonZero64 c.id / 4), c.id.getLsbD i = false := by
      intro i hi
      apply BitVec.getLsbD_false_of_lt_ctz
      rw [Bits.findLSBSetNonZero64] at hi
      omega
    have hz := numZeroDigits_lt hzero
    generalize Bits.findLSBSetNonZero64 c.id / 4 = z at *
    have hval : (c.id >>> (4 * z)).toNat < 16 ^ (16 - z) := by
      rw [BitVec.toNat_ushiftRight, Nat.shiftRight_eq_div_pow,
        Nat.div_lt_iff_lt_mul (Nat.two_pow_pos _), show 16 = 2 ^ 4 by rfl, ← Nat.pow_mul,
        ← Nat.pow_add, show 4 * (2 ^ 4 - z) + 4 * z = 64 by omega]
      exact c.id.isLt
    have hloop := fromTokenLoop_append (c.id >>> (4 * z)) 0 [] (show 16 - z ≤ 16 by omega) hval
    rw [List.append_nil, show 4 * (16 - (16 - z)) = 4 * z by omega,
      ushiftRight_shiftLeft hlow] at hloop
    rw [fromToken, length_hexFormatString, if_neg (by omega)]
    refine hloop.trans (congrArg S2CellId.mk ?_)
    simp

/-! ### Strings that are no tokens -/

theorem fromTokenLoop_of_mem {token : List Char} {ch : Char} (hmem : ch ∈ token)
    (hch : hexValue ch = none) (pos : ℕ) (id : BitVec 64) :
    fromTokenLoop token pos id = S2CellId.none := by
  induction token generalizing pos id with
  | nil => exact absurd hmem List.not_mem_nil
  | cons ch' token ih =>
    rw [fromTokenLoop]
    cases hch' : hexValue ch' with
    | none => rfl
    | some d =>
      have htail : ch ∈ token := by
        rcases List.mem_cons.mp hmem with rfl | htail
        · rw [hch] at hch'
          cases hch'
        · exact htail
      exact ih htail (pos - 4) (id ||| d <<< pos)

/-- A string that is too long, or holds a character that is no hexadecimal digit. -/
def IsNoToken (s : List Char) : Prop := 16 < s.length ∨ ∃ ch ∈ s, hexValue ch = none

theorem fromToken_of_isNoToken {s : List Char} (h : IsNoToken s) : fromToken s = S2CellId.none := by
  rw [fromToken]
  split
  · rfl
  · rename_i hlen
    rcases h with hlong | ⟨ch, hmem, hch⟩
    · exact absurd hlong hlen
    · exact fromTokenLoop_of_mem hmem hch 60 0

/-! ### Joined tokens -/

/-- The characters of tokens. -/
def IsTokenChar (ch : Char) : Prop := ch ≠ ';' ∧ isSpace ch = false

theorem isTokenChar_getD {d : ℕ} (hd : d < 16) : IsTokenChar (hexDigits.getD d ' ') := by
  have hall : ∀ k : Fin 16,
      hexDigits.getD k ' ' ≠ ';' ∧ isSpace (hexDigits.getD k ' ') = false := by
    decide
  exact hall ⟨d, hd⟩

theorem isTokenChar_of_mem_hexFormatString {val : BitVec 64} {n : ℕ} {ch : Char}
    (h : ch ∈ hexFormatString val n) : IsTokenChar ch := by
  induction n generalizing val with
  | zero => exact absurd h List.not_mem_nil
  | succ n ih =>
    rw [hexFormatString, List.mem_append, List.mem_singleton] at h
    rcases h with h | rfl
    · exact ih h
    · exact isTokenChar_getD (toNat_and_fifteen val ▸ Nat.mod_lt val.toNat (by decide))

/-- Tokens are not empty, and hold neither semicolons nor white space. -/
theorem toToken_spec (c : S2CellId) : toToken c ≠ [] ∧ ∀ ch ∈ toToken c, IsTokenChar ch := by
  rw [toToken]
  split
  · refine ⟨List.cons_ne_nil _ _, ?_⟩
    intro ch hch
    obtain rfl := List.mem_singleton.mp hch
    exact ⟨by decide, by decide⟩
  · rename_i hzero
    have hz := numZeroDigits_lt hzero
    refine ⟨?_, fun ch => isTokenChar_of_mem_hexFormatString⟩
    rw [← List.length_pos_iff, length_hexFormatString]
    omega

theorem strsplit_of_forall {s : List Char} (hne : s ≠ []) (h : ∀ ch ∈ s, ch ≠ ';') :
    strsplit s = [s] := by
  have hdrop : s.dropWhile (· ≠ ';') = [] :=
    List.dropWhile_eq_nil_iff.mpr fun ch hch => decide_eq_true (h ch hch)
  rw [strsplit]
  split
  · rw [if_neg (by simpa using hne)]
  · rename_i heq
    rw [hdrop] at heq
    cases heq

/-- The part before a semicolon, when there is no white space beside it. -/
theorem strsplit_append {s rest : List Char} (hs : ∀ ch ∈ s, IsTokenChar ch)
    (hrest : rest.dropWhile isSpace = rest) :
    strsplit (s ++ ';' :: rest) = s :: strsplit rest := by
  have hsep : ∀ ch ∈ s, decide (ch ≠ ';') = true := fun ch hch => decide_eq_true (hs ch hch).1
  have hdrop : (s ++ ';' :: rest).dropWhile (· ≠ ';') = ';' :: rest := by
    rw [List.dropWhile_append_of_pos hsep, List.dropWhile_cons_of_neg (by decide)]
  have htake : (s ++ ';' :: rest).takeWhile (· ≠ ';') = s := by
    rw [List.takeWhile_append_of_pos hsep, List.takeWhile_cons_of_neg (by decide),
      List.append_nil]
  have htrim : s.rdropWhile isSpace = s := by
    rw [List.rdropWhile_eq_self_iff]
    intro hne
    rw [(hs _ (List.getLast_mem hne)).2]
    exact Bool.false_ne_true
  rw [strsplit]
  split
  · rename_i heq
    rw [hdrop] at heq
    cases heq
  · rename_i heq
    rw [hdrop] at heq
    obtain ⟨-, rfl⟩ := List.cons.inj heq
    rw [htake, htrim, hrest]

/-- Splitting undoes joining. -/
theorem strsplit_intercalate {tokens : List (List Char)}
    (h : ∀ t ∈ tokens, t ≠ [] ∧ ∀ ch ∈ t, IsTokenChar ch) :
    strsplit ([';'].intercalate tokens) = tokens := by
  induction tokens with
  | nil =>
    rw [strsplit]
    rfl
  | cons t tokens ih =>
    obtain ⟨hne, hchars⟩ := h t List.mem_cons_self
    have hrest := ih fun t' ht' => h t' (List.mem_cons_of_mem _ ht')
    cases tokens with
    | nil =>
      have hone : [';'].intercalate [t] = t := by simp [List.intercalate]
      rw [hone]
      exact strsplit_of_forall hne fun ch hch => (hchars ch hch).1
    | cons t' tokens =>
      have hjoin : [';'].intercalate (t :: t' :: tokens) =
          t ++ ';' :: [';'].intercalate (t' :: tokens) := by
        simp [List.intercalate]
      rw [hjoin, strsplit_append hchars, hrest]
      -- the next token starts with one of its characters
      obtain ⟨hne', hchars'⟩ := h t' (List.mem_cons_of_mem _ List.mem_cons_self)
      obtain ⟨ch, chars, rfl⟩ := List.exists_cons_of_ne_nil hne'
      have hhead : ∃ more, [';'].intercalate ((ch :: chars) :: tokens) = ch :: more := by
        cases tokens <;> simp [List.intercalate]
      obtain ⟨more, hmore⟩ := hhead
      rw [hmore, List.dropWhile_cons_of_neg]
      rw [(hchars' ch List.mem_cons_self).2]
      exact Bool.false_ne_true

/-! ### Round trips -/

theorem fromString_toString (cells : List S2CellId) :
    cppS2CellFromString (cppS2CellToString cells) =
      cells.map fun c => if rIsNA c then naReal else c := by
  rw [cppS2CellFromString, cppS2CellToString, List.map_map]
  refine List.map_congr_left fun c _ => ?_
  rw [Function.comp_apply]
  by_cases hc : rIsNA c = true
  · rw [if_pos hc, if_pos hc]
  · rw [if_neg hc, if_neg hc]
    exact fromToken_toToken c

theorem fromString_toString_of_forall {cells : List S2CellId} (h : ∀ c ∈ cells, rIsNA c = false) :
    cppS2CellFromString (cppS2CellToString cells) = cells := by
  rw [fromString_toString]
  have hsame : ∀ c ∈ cells, (if rIsNA c then naReal else c) = id c := by
    intro c hc
    rw [h c hc, if_neg Bool.false_ne_true]
    rfl
  rw [List.map_congr_left hsame, List.map_id]

theorem strsplit_pasteCollapse {cells : List S2CellId} (h : ∀ c ∈ cells, rIsNA c = false) :
    (strsplit (pasteCollapse (cppS2CellToString cells))).map some = cppS2CellToString cells := by
  have htokens : cppS2CellToString cells = (cells.map toToken).map some := by
    rw [cppS2CellToString, List.map_map]
    refine List.map_congr_left fun c hc => ?_
    rw [h c hc, if_neg Bool.false_ne_true]
    rfl
  have hpaste : pasteCollapse (cppS2CellToString cells) =
      [';'].intercalate (cells.map toToken) := by
    rw [pasteCollapse, htokens, List.map_map]
    congr 1
    exact List.map_id _
  rw [hpaste, strsplit_intercalate, htokens]
  intro t ht
  obtain ⟨c, -, rfl⟩ := List.mem_map.mp ht
  exact toToken_spec c

/-- Cells come back from their tokens with the same bits, cell unions from their strings, and
what is no token becomes the invalid cell. -/
theorem token_roundTrip (cells : List S2CellId) (unions : List CellUnionItem)
    (hunions : ∀ ids, some ids ∈ unions → ∀ c ∈ ids, rIsNA c = false) (s : List Char) :
    cppS2CellFromString (cppS2CellToString cells) =
      cells.map (fun c => if rIsNA c then naReal else c) ∧
    (∀ c ∈ cells, rIsNA c = true → cppS2CellToString [c] = [none]) ∧
    asS2CellUnionCharacter (asCharacterS2CellUnion unions) = unions ∧
    (IsNoToken s → cppS2CellFromString [some s] = [S2CellId.none]) := by
  refine ⟨fromString_toString cells, ?_, ?_, ?_⟩
  · intro c _ hc
    rw [cppS2CellToString, List.map_singleton, if_pos hc]
  · rw [asS2CellUnionCharacter, asCharacterS2CellUnion, List.map_map]
    have hsame : ∀ item ∈ unions, ((fun item => Option.map (fun s =>
        cppS2CellFromString ((strsplit s).map some)) item) ∘ fun item => Option.map (fun e =>
        pasteCollapse (cppS2CellToString e)) item) item = id item := by
      intro item hitem
      cases item with
      | none => rfl
      | some ids =>
        have hids := hunions ids hitem
        rw [Function.comp_apply, Option.map_some, Option.map_some, strsplit_pasteCollapse hids,
          fromString_toString_of_forall hids]
        rfl
    rw [List.map_congr_left hsame, List.map_id]
  · intro hs
    rw [cppS2CellFromString, List.map_singleton]
    exact congrArg (fun c => [c]) (fromToken_of_isNoToken hs)

/-- A missing union, an empty one and one with the ids zero and sentinel. -/
theorem token_roundTrip_unions :
    asS2CellUnionCharacter (asCharacterS2CellUnion [none, some [], some [⟨0⟩, sentinel]]) =
      [none, some [], some [⟨0⟩, sentinel]] := by
  refine (token_roundTrip [] [none, some [], some [⟨0⟩, sentinel]] ?_ []).2.2.1
  intro ids hids c hc
  simp only [List.mem_cons, List.not_mem_nil, or_false, reduceCtorEq, Option.some.injEq,
    false_or] at hids
  rcases hids with rfl | rfl
  · exact absurd hc List.not_mem_nil
  · simp only [List.mem_cons, List.not_mem_nil, or_false] at hc
    rcases hc with rfl | rfl <;> rfl

end S2Geography
