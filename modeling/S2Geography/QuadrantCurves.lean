import Mathlib.Algebra.Order.Ring.Nat
import Mathlib.Tactic.Ring

/-!
# Curves that visit the four quadrants of a square

A curve of this kind is given by orientations. Each orientation lists the four quadrants in
the order of the visit and turns into another orientation inside each of them. After `n`
halvings a position has `n` digits of two bits and a square has `n` bits in each coordinate;
the curve turns one into the other, most significant digit first. Blocks of digits may be
translated at once, and if the corners where the quadrants are entered and left fit
together, the curve never jumps.
-/
namespace QuadrantCurves

/-- Quadrants are numbered by twice the bit of the first coordinate plus the bit of the
second one. -/
structure QuadrantCurve (O : Type) where
  toIJ : O → Fin 4 → Fin 4
  toPos : O → Fin 4 → Fin 4
  turn : O → Fin 4 → O
  toIJ_toPos : ∀ o q, toIJ o (toPos o q) = q
  toPos_toIJ : ∀ o d, toPos o (toIJ o d) = d

/-- The digit of a position at place `k`. -/
def digit (p k : ℕ) : Fin 4 := ⟨p / 4 ^ k % 4, Nat.mod_lt _ (by omega)⟩

@[simp] theorem digit_val (p k : ℕ) : (digit p k).val = p / 4 ^ k % 4 := rfl

/-- The quadrant of a square at place `k`. -/
def quadrant (i j k : ℕ) : Fin 4 := ⟨2 * (i / 2 ^ k % 2) + j / 2 ^ k % 2, by omega⟩

def quadI (q : Fin 4) : ℕ := q.val / 2

def quadJ (q : Fin 4) : ℕ := q.val % 2

theorem quadI_lt (q : Fin 4) : quadI q < 2 := by
  have h := q.isLt
  simp only [quadI]
  omega

theorem quadJ_lt (q : Fin 4) : quadJ q < 2 := Nat.mod_lt _ (by omega)

@[simp] theorem quadI_quadrant (i j k : ℕ) : quadI (quadrant i j k) = i / 2 ^ k % 2 := by
  simp only [quadI, quadrant]
  omega

@[simp] theorem quadJ_quadrant (i j k : ℕ) : quadJ (quadrant i j k) = j / 2 ^ k % 2 := by
  simp only [quadJ, quadrant]
  omega

theorem eq_quadrant {q : Fin 4} {i j k : ℕ} (hi : quadI q = i / 2 ^ k % 2)
    (hj : quadJ q = j / 2 ^ k % 2) : quadrant i j k = q := by
  apply Fin.ext
  simp only [quadI, quadJ, quadrant] at *
  omega

theorem digit_div (p m n : ℕ) : digit (p / 4 ^ n) m = digit p (m + n) := by
  apply Fin.ext
  simp only [digit, Nat.div_div_eq_div_mul, ← Nat.pow_add, Nat.add_comm m n]

theorem quadrant_div (i j m n : ℕ) :
    quadrant (i / 2 ^ n) (j / 2 ^ n) m = quadrant i j (m + n) := by
  apply Fin.ext
  simp only [quadrant, Nat.div_div_eq_div_mul, ← Nat.pow_add, Nat.add_comm m n]

theorem mul_add_div_eq {a b x : ℕ} (h : x < b) : (a * b + x) / b = a := by
  rw [Nat.add_comm, Nat.add_mul_div_right _ _ (by omega), Nat.div_eq_of_lt h, Nat.zero_add]

theorem mul_add_mod_eq {a b x : ℕ} (h : x < b) : (a * b + x) % b = x := by
  rw [Nat.mul_add_mod_of_lt h]

/-- Splitting off the top one of `n + 1` digits in base `b`. -/
theorem mod_pow_succ_eq (p b n : ℕ) : p % b ^ (n + 1) = p / b ^ n % b * b ^ n + p % b ^ n := by
  rw [Nat.pow_succ, Nat.mod_mul, Nat.mul_comm (b ^ n), Nat.add_comm]

namespace QuadrantCurve

variable {O : Type} (c : QuadrantCurve O)

/-- The orientation inside the square at a position. -/
def orient : O → ℕ → ℕ → O
  | o, 0, _ => o
  | o, n + 1, p => orient (c.turn o (digit p n)) n p

/-- The square at a position. -/
def coords : O → ℕ → ℕ → ℕ × ℕ
  | _, 0, _ => (0, 0)
  | o, n + 1, p =>
    let q := c.toIJ o (digit p n)
    let rest := coords (c.turn o (digit p n)) n p
    (quadI q * 2 ^ n + rest.1, quadJ q * 2 ^ n + rest.2)

/-- The position of a square. -/
def position : O → ℕ → ℕ → ℕ → ℕ
  | _, 0, _, _ => 0
  | o, n + 1, i, j =>
    let d := c.toPos o (quadrant i j n)
    d.val * 4 ^ n + position (c.turn o d) n i j

theorem coords_lt (o : O) (n p : ℕ) :
    (c.coords o n p).1 < 2 ^ n ∧ (c.coords o n p).2 < 2 ^ n := by
  induction n generalizing o with
  | zero => simp [coords]
  | succ n ih =>
    obtain ⟨hi, hj⟩ := ih (c.turn o (digit p n))
    have hq := Nat.mul_le_mul_right (2 ^ n) (Nat.le_of_lt_succ (quadI_lt (c.toIJ o (digit p n))))
    have hr := Nat.mul_le_mul_right (2 ^ n) (Nat.le_of_lt_succ (quadJ_lt (c.toIJ o (digit p n))))
    simp only [coords, Nat.pow_succ]
    omega

theorem position_lt (o : O) (n i j : ℕ) : c.position o n i j < 4 ^ n := by
  induction n generalizing o with
  | zero => simp [position]
  | succ n ih =>
    have hrest := ih (c.turn o (c.toPos o (quadrant i j n)))
    have hd := Nat.mul_le_mul_right (4 ^ n)
      (Nat.le_of_lt_succ (c.toPos o (quadrant i j n)).isLt)
    simp only [position, Nat.pow_succ]
    omega

/-! ### Digits that matter -/

theorem orient_congr (o : O) {n p p' : ℕ} (h : ∀ k < n, digit p k = digit p' k) :
    c.orient o n p = c.orient o n p' := by
  induction n generalizing o with
  | zero => rfl
  | succ n ih =>
    simp only [orient, h n n.lt_succ_self]
    exact ih _ fun k hk => h k (Nat.lt_succ_of_lt hk)

theorem coords_congr (o : O) {n p p' : ℕ} (h : ∀ k < n, digit p k = digit p' k) :
    c.coords o n p = c.coords o n p' := by
  induction n generalizing o with
  | zero => rfl
  | succ n ih =>
    simp only [coords, h n n.lt_succ_self, ih _ fun k hk => h k (Nat.lt_succ_of_lt hk)]

theorem position_congr (o : O) {n i j i' j' : ℕ}
    (h : ∀ k < n, quadrant i j k = quadrant i' j' k) :
    c.position o n i j = c.position o n i' j' := by
  induction n generalizing o with
  | zero => rfl
  | succ n ih =>
    simp only [position, h n n.lt_succ_self, ih _ fun k hk => h k (Nat.lt_succ_of_lt hk)]

theorem digit_mod {p n k : ℕ} (hk : k < n) : digit (p % 4 ^ n) k = digit p k := by
  apply Fin.ext
  obtain ⟨e, rfl⟩ := Nat.exists_eq_add_of_lt hk
  have hpow : 4 ^ (k + e + 1) = 4 ^ k * (4 * 4 ^ e) := by ring
  simp only [digit]
  rw [hpow, Nat.mod_mul_right_div_self, Nat.mod_mul_right_mod]

theorem quadrant_mod {i j n k : ℕ} (hk : k < n) :
    quadrant (i % 2 ^ n) (j % 2 ^ n) k = quadrant i j k := by
  apply Fin.ext
  obtain ⟨e, rfl⟩ := Nat.exists_eq_add_of_lt hk
  have hpow : 2 ^ (k + e + 1) = 2 ^ k * (2 * 2 ^ e) := by ring
  simp only [quadrant]
  rw [hpow, Nat.mod_mul_right_div_self, Nat.mod_mul_right_mod, Nat.mod_mul_right_div_self,
    Nat.mod_mul_right_mod]

theorem orient_mod (o : O) (n p : ℕ) : c.orient o n (p % 4 ^ n) = c.orient o n p :=
  c.orient_congr o fun _ hk => digit_mod hk

theorem coords_mod (o : O) (n p : ℕ) : c.coords o n (p % 4 ^ n) = c.coords o n p :=
  c.coords_congr o fun _ hk => digit_mod hk

theorem position_mod (o : O) (n i j : ℕ) :
    c.position o n (i % 2 ^ n) (j % 2 ^ n) = c.position o n i j :=
  c.position_congr o fun _ hk => quadrant_mod hk

/-! ### Round trips -/

theorem quadrant_coords (o : O) (n p : ℕ) :
    quadrant (c.coords o (n + 1) p).1 (c.coords o (n + 1) p).2 n = c.toIJ o (digit p n) := by
  obtain ⟨hi, hj⟩ := c.coords_lt (c.turn o (digit p n)) n p
  apply eq_quadrant
  · rw [coords, mul_add_div_eq hi, Nat.mod_eq_of_lt (quadI_lt _)]
  · rw [coords, mul_add_div_eq hj, Nat.mod_eq_of_lt (quadJ_lt _)]

theorem digit_position (o : O) (n i j : ℕ) :
    digit (c.position o (n + 1) i j) n = c.toPos o (quadrant i j n) := by
  apply Fin.ext
  rw [digit_val, position, mul_add_div_eq (c.position_lt _ n i j), Nat.mod_eq_of_lt (Fin.isLt _)]

theorem position_coords (o : O) (n p : ℕ) :
    c.position o n (c.coords o n p).1 (c.coords o n p).2 = p % 4 ^ n := by
  induction n generalizing o with
  | zero => simp [position, Nat.mod_one]
  | succ n ih =>
    have hrest := ih (c.turn o (digit p n))
    obtain ⟨hi, hj⟩ := c.coords_lt (c.turn o (digit p n)) n p
    rw [position, quadrant_coords, c.toPos_toIJ, mod_pow_succ_eq, ← c.position_mod]
    -- below the top place the coordinates are those of the rest
    rw [coords, mul_add_mod_eq hi, mul_add_mod_eq hj, hrest]
    rfl

theorem coords_position (o : O) (n i j : ℕ) :
    c.coords o n (c.position o n i j) = (i % 2 ^ n, j % 2 ^ n) := by
  induction n generalizing o with
  | zero => simp [coords, Nat.mod_one]
  | succ n ih =>
    have hrest := ih (c.turn o (c.toPos o (quadrant i j n)))
    rw [coords, digit_position, c.toIJ_toPos, mod_pow_succ_eq, mod_pow_succ_eq, ← c.coords_mod]
    rw [position, mul_add_mod_eq (c.position_lt _ n i j), hrest, quadI_quadrant, quadJ_quadrant]

/-! ### Blocks of digits -/

theorem orient_add (o : O) (m n p : ℕ) :
    c.orient o (m + n) p = c.orient (c.orient o m (p / 4 ^ n)) n p := by
  induction m generalizing o with
  | zero => simp [orient]
  | succ m ih =>
    rw [Nat.succ_add, orient, orient, ih, digit_div]

theorem coords_add (o : O) (m n p : ℕ) :
    c.coords o (m + n) p =
      ((c.coords o m (p / 4 ^ n)).1 * 2 ^ n + (c.coords (c.orient o m (p / 4 ^ n)) n p).1,
        (c.coords o m (p / 4 ^ n)).2 * 2 ^ n + (c.coords (c.orient o m (p / 4 ^ n)) n p).2) := by
  induction m generalizing o with
  | zero => simp [coords, orient]
  | succ m ih =>
    rw [Nat.succ_add, coords, coords, orient, ih, digit_div]
    simp only [Nat.pow_add, Prod.mk.injEq]
    constructor <;> ring

theorem digit_zero (p : ℕ) (k : Fin 4) : digit (p * 4 + k) 0 = k := by
  apply Fin.ext
  rw [digit_val, Nat.pow_zero, Nat.div_one, Nat.mul_add_mod_of_lt k.isLt]

/-- One more digit picks a quadrant of the square. -/
theorem coords_succ (o : O) (n p : ℕ) (k : Fin 4) :
    c.coords o (n + 1) (p * 4 + k) =
      ((c.coords o n p).1 * 2 + quadI (c.toIJ (c.orient o n p) k),
        (c.coords o n p).2 * 2 + quadJ (c.toIJ (c.orient o n p) k)) := by
  rw [coords_add, Nat.pow_one, mul_add_div_eq k.isLt, coords, digit_zero, coords]
  simp

theorem orient_succ (o : O) (n p : ℕ) (k : Fin 4) :
    c.orient o (n + 1) (p * 4 + k) = c.turn (c.orient o n p) k := by
  rw [orient_add, Nat.pow_one, mul_add_div_eq k.isLt, orient, digit_zero, orient]

/-- The digits of a block are those of the coordinates above it. -/
theorem position_add (o : O) (m n i j : ℕ) :
    c.position o (m + n) i j = c.position o m (i / 2 ^ n) (j / 2 ^ n) * 4 ^ n +
      c.position (c.orient o m (c.position o m (i / 2 ^ n) (j / 2 ^ n))) n i j := by
  induction m generalizing o with
  | zero => simp [position, orient]
  | succ m ih =>
    have hdigit := c.digit_position o m (i / 2 ^ n) (j / 2 ^ n)
    rw [Nat.succ_add, position, ih, orient, hdigit, quadrant_div]
    -- the rest of the digits turn the orientation alike
    have hrest : c.orient (c.turn o (c.toPos o (quadrant i j (m + n)))) m
        (c.position o (m + 1) (i / 2 ^ n) (j / 2 ^ n)) =
        c.orient (c.turn o (c.toPos o (quadrant i j (m + n)))) m
          (c.position (c.turn o (c.toPos o (quadrant i j (m + n)))) m (i / 2 ^ n) (j / 2 ^ n)) := by
      rw [← c.orient_mod, position, quadrant_div, mul_add_mod_eq (c.position_lt _ _ _ _)]
    rw [hrest, position, quadrant_div, Nat.pow_add]
    ring

/-! ### Continuity -/

/-- Squares that share a side. -/
def Adjacent (a b : ℕ × ℕ) : Prop :=
  (a.1 = b.1 ∧ (a.2 + 1 = b.2 ∨ b.2 + 1 = a.2)) ∨ (a.2 = b.2 ∧ (a.1 + 1 = b.1 ∨ b.1 + 1 = a.1))

instance (a b : ℕ × ℕ) : Decidable (Adjacent a b) := inferInstanceAs (Decidable (_ ∨ _))

theorem Adjacent.add {a b : ℕ × ℕ} (h : Adjacent a b) (i j : ℕ) :
    Adjacent (i + a.1, j + a.2) (i + b.1, j + b.2) := by
  simp only [Adjacent] at *
  omega

/-- The corners at which a curve enters and leaves a square. The curve leaves a quadrant
beside the corner at which it enters the next one, however often these are halved. -/
structure Linked where
  start : O → Fin 4
  stop : O → Fin 4
  start_eq : ∀ o, c.toIJ o 0 = start o
  start_turn : ∀ o, start (c.turn o 0) = start o
  stop_eq : ∀ o, c.toIJ o 3 = stop o
  stop_turn : ∀ o, stop (c.turn o 3) = stop o
  linkI : ∀ o k, k < 3 → quadI (c.toIJ o (k + 1)) + quadI (start (c.turn o (k + 1))) =
    quadI (c.toIJ o k) + quadI (stop (c.turn o k))
  linkJ : ∀ o k, k < 3 → quadJ (c.toIJ o (k + 1)) + quadJ (start (c.turn o (k + 1))) =
    quadJ (c.toIJ o k) + quadJ (stop (c.turn o k))
  link : ∀ o k, k < 3 →
    Adjacent (quadI (stop (c.turn o k)), quadJ (stop (c.turn o k)))
      (quadI (start (c.turn o (k + 1))), quadJ (start (c.turn o (k + 1))))

/-- The square at a corner after `n` halvings. -/
def corner (q : Fin 4) (n : ℕ) : ℕ × ℕ := (quadI q * (2 ^ n - 1), quadJ q * (2 ^ n - 1))

theorem corner_succ (q : Fin 4) (n : ℕ) :
    corner q (n + 1) =
      (quadI q * 2 ^ n + (corner q n).1, quadJ q * 2 ^ n + (corner q n).2) := by
  have hpow : 2 ^ (n + 1) - 1 = 2 ^ n + (2 ^ n - 1) := by
    have hpos := Nat.two_pow_pos n
    omega
  simp only [corner, hpow, Nat.mul_add]

/-- Up to a common number of squares, a corner of a quadrant is as far along as the quadrant. -/
theorem mul_add_corner (a e n : ℕ) :
    a * 2 ^ n + e * (2 ^ n - 1) = (a + e) * (2 ^ n - 1) + a := by
  obtain ⟨m, hm⟩ := Nat.exists_eq_add_of_lt (Nat.two_pow_pos n)
  rw [hm, Nat.zero_add, Nat.add_sub_cancel]
  ring

/-- A curve whose first, or last, quadrant repeats the corner of the square stays there as
long as it is halved. -/
theorem coords_corner {d : Fin 4} {r : O → Fin 4} (hr : ∀ o, c.toIJ o d = r o)
    (hturn : ∀ o, r (c.turn o d) = r o) (o : O) {n p : ℕ} (h : ∀ k < n, digit p k = d) :
    c.coords o n p = corner (r o) n := by
  induction n generalizing o with
  | zero => simp [coords, corner]
  | succ n ih =>
    have hrest := ih (c.turn o d) fun k hk => h k (Nat.lt_succ_of_lt hk)
    rw [hturn] at hrest
    rw [corner_succ, coords, h n n.lt_succ_self, hr, hrest]

theorem digit_eq_zero {p n k : ℕ} (h : p % 4 ^ n = 0) (hk : k < n) : digit p k = 0 := by
  rw [← digit_mod hk, h]
  simp [digit]

theorem digit_eq_three {p n k : ℕ} (h : p % 4 ^ n + 1 = 4 ^ n) (hk : k < n) : digit p k = 3 := by
  obtain ⟨e, rfl⟩ := Nat.exists_eq_add_of_lt hk
  have hpos : 0 < 4 ^ e := Nat.pow_pos (by omega)
  have hlow : 4 ^ k - 1 < 4 ^ k := Nat.sub_one_lt (Nat.pow_pos (by omega)).ne'
  have hsplit : p % 4 ^ (k + e + 1) = (4 * 4 ^ e - 1) * 4 ^ k + (4 ^ k - 1) := by
    have hpow : 4 ^ (k + e + 1) = 4 * 4 ^ e * 4 ^ k := by ring
    have hle : 4 ^ k ≤ 4 * 4 ^ e * 4 ^ k := Nat.le_mul_of_pos_left _ (by omega)
    rw [hpow] at h ⊢
    rw [Nat.sub_mul, Nat.one_mul]
    omega
  apply Fin.ext
  rw [← digit_mod hk, digit_val, hsplit, mul_add_div_eq hlow]
  change (4 * 4 ^ e - 1) % 4 = 3
  omega

theorem mod_add_div_of_lt {p b : ℕ} (h : p % b + 1 < b) : (p + 1) / b = p / b := by
  rw [Nat.div_eq_iff (by omega)]
  have hp := Nat.div_add_mod p b
  rw [Nat.mul_comm] at hp
  omega

theorem mod_add_div_of_eq {p b : ℕ} (h : p % b + 1 = b) :
    (p + 1) / b = p / b + 1 ∧ (p + 1) % b = 0 := by
  have hb : 0 < b := by omega
  have hp := Nat.div_add_mod p b
  have hsucc : p + 1 = b * (p / b + 1) := by
    rw [Nat.mul_add, Nat.mul_one]
    omega
  constructor
  · rw [hsucc, Nat.mul_div_cancel_left _ hb]
  · rw [hsucc, Nat.mul_mod_right]

/-- Consecutive positions are squares that share a side. -/
theorem Linked.adjacent {c : QuadrantCurve O} (l : Linked c) (o : O) {n p : ℕ}
    (h : p % 4 ^ n + 1 < 4 ^ n) : Adjacent (c.coords o n p) (c.coords o n (p + 1)) := by
  induction n generalizing o with
  | zero => simp at h
  | succ n ih =>
    have hlt : p % 4 ^ n < 4 ^ n := Nat.mod_lt _ (Nat.pow_pos (by omega))
    rcases Nat.lt_or_ge (p % 4 ^ n + 1) (4 ^ n) with hsame | hnext
    · -- both positions lie in one quadrant
      have hdigit : digit (p + 1) n = digit p n := by
        simp only [digit, mod_add_div_of_lt hsame]
      rw [coords, coords, hdigit]
      exact (ih (c.turn o (digit p n)) hsame).add _ _
    · -- the first position is the last one of its quadrant
      have hfull : p % 4 ^ n + 1 = 4 ^ n := by omega
      obtain ⟨hdiv, hmod⟩ := mod_add_div_of_eq hfull
      have hd : (digit p n).val < 3 := by
        rw [mod_pow_succ_eq, Nat.pow_succ, Nat.mul_comm (4 ^ n)] at h
        have hrest : (p / 4 ^ n % 4 + 1) * 4 ^ n < 4 * 4 ^ n := by
          rw [Nat.add_mul]
          omega
        have hlast := Nat.lt_of_mul_lt_mul_right hrest
        rw [digit_val]
        omega
      have hdigit : digit (p + 1) n = digit p n + 1 := by
        apply Fin.ext
        rw [digit_val] at hd
        simp only [digit_val, hdiv, Fin.val_add, Fin.isValue]
        omega
      rw [coords, coords, hdigit,
        c.coords_corner l.stop_eq l.stop_turn _ fun k hk => digit_eq_three hfull hk,
        c.coords_corner l.start_eq l.start_turn _ fun k hk => digit_eq_zero hmod hk]
      have hI := l.linkI o (digit p n) hd
      have hJ := l.linkJ o (digit p n) hd
      have hlink := l.link o (digit p n) hd
      -- the corners lie as the quadrants do
      have hquad : Adjacent (quadI (c.toIJ o (digit p n)), quadJ (c.toIJ o (digit p n)))
          (quadI (c.toIJ o (digit p n + 1)), quadJ (c.toIJ o (digit p n + 1))) := by
        simp only [Adjacent] at hlink ⊢
        omega
      simp only [corner, mul_add_corner, hI, hJ]
      exact hquad.add _ _

end QuadrantCurve

end QuadrantCurves
