import Mathlib.Algebra.Order.Field.Basic
import Mathlib.Algebra.Order.Floor.Semifield
import Mathlib.Data.Int.Log
import Mathlib.Data.NNRat.Floor
import Mathlib.Tactic.GCongr
import Mathlib.Tactic.Linarith
import Mathlib.Tactic.NormNum
import Mathlib.Tactic.Ring

/-!
# Rounding to the nearest float

The non-negative numbers of a binary floating-point format, without a largest
exponent, and the rounding of a number to the nearest of them, the even one of
two. A result of `k` roundings is within `k` steps of the exact one, and steps
add up along sums and products.
-/

namespace FloatRounding

abbrev half : ℚ≥0 := 1 / 2

/-- The nearest natural number, the even one of two. -/
def roundEven (x : ℚ≥0) : ℕ :=
  if x < ⌊x⌋₊ + 1 / 2 then ⌊x⌋₊
  else if ⌊x⌋₊ + 1 / 2 < x then ⌊x⌋₊ + 1
  else ⌊x⌋₊ + ⌊x⌋₊ % 2

theorem roundEven_le (x : ℚ≥0) : (roundEven x : ℚ≥0) ≤ x + 1 / 2 := by
  have hfloor : (⌊x⌋₊ : ℚ≥0) ≤ x := Nat.floor_le zero_le
  have hmod : ((⌊x⌋₊ % 2 : ℕ) : ℚ≥0) ≤ 1 := by
    exact_mod_cast Nat.le_of_lt_succ (Nat.mod_lt _ two_pos)
  have hhalves : (⌊x⌋₊ : ℚ≥0) + 1 = ⌊x⌋₊ + 1 / 2 + 1 / 2 := by rw [add_assoc, add_halves]
  unfold roundEven
  split
  · exact hfloor.trans (le_add_of_nonneg_right zero_le)
  next hhalf =>
    have hge := not_lt.mp hhalf
    have hnext : (⌊x⌋₊ : ℚ≥0) + 1 ≤ x + 1 / 2 := by
      rw [hhalves]
      gcongr
    split
    · rw [Nat.cast_add_one]
      exact hnext
    · rw [Nat.cast_add]
      exact le_trans (by gcongr) hnext

theorem le_roundEven (x : ℚ≥0) : x ≤ roundEven x + 1 / 2 := by
  have hlt : x < ⌊x⌋₊ + 1 := Nat.lt_floor_add_one x
  unfold roundEven
  split
  next hhalf => exact hhalf.le
  next hhalf =>
    split
    · rw [Nat.cast_add_one]
      exact hlt.le.trans (le_add_of_nonneg_right zero_le)
    next hhalf' =>
      rw [Nat.cast_add]
      exact (not_lt.mp hhalf').trans (by gcongr; exact le_add_of_nonneg_right zero_le)

@[simp] theorem roundEven_natCast (n : ℕ) : roundEven (n : ℚ≥0) = n := by
  unfold roundEven
  rw [Nat.floor_natCast, if_pos (lt_add_of_pos_right _ (by norm_num))]

/-- A binary format: the bits of a significand, and the exponent of the smallest number. -/
structure Format where
  precision : ℕ
  minExp : ℤ

def binary64 : Format := ⟨53, -1074⟩

namespace Format

variable (φ : Format)

/-- The spacing of the format around a number. -/
def ulp (x : ℚ≥0) : ℚ≥0 := 2 ^ max (Int.log 2 x + 1 - φ.precision) φ.minExp

def round (x : ℚ≥0) : ℚ≥0 := roundEven (x / φ.ulp x) * φ.ulp x

/-- Half of the relative spacing. -/
def unit : ℚ≥0 := (1 / 2) ^ φ.precision

/-- The number is zero, or not so small that the spacing stops to shrink with it. -/
def Normal (x : ℚ≥0) : Prop := x = 0 ∨ 2 ^ (φ.minExp + φ.precision) ≤ x

theorem ulp_pos (x : ℚ≥0) : 0 < φ.ulp x := zpow_pos two_pos _

@[simp] theorem round_zero : φ.round 0 = 0 := by
  have hzero : roundEven 0 = 0 := by exact_mod_cast roundEven_natCast 0
  rw [round, zero_div, hzero, Nat.cast_zero, zero_mul]

theorem unit_zpow : φ.unit = 2 ^ (-(φ.precision : ℤ)) := by
  rw [unit, one_div, inv_pow, zpow_neg, zpow_natCast]

variable {φ} {x : ℚ≥0}

theorem round_of_multiple {n : ℕ} (h : x = n * φ.ulp x) : φ.round x = x := by
  have hdiv : x / φ.ulp x = n := by rw [div_eq_iff (φ.ulp_pos x).ne', ← h]
  rw [round, hdiv, roundEven_natCast, ← h]

theorem round_natCast (hmin : φ.minExp ≤ 0) {n : ℕ} (hn : n < 2 ^ φ.precision) :
    φ.round (n : ℚ≥0) = n := by
  obtain rfl | hpos := n.eq_zero_or_pos
  · rw [Nat.cast_zero, round_zero]
  have hlog : Nat.log 2 n < φ.precision := Nat.log_lt_of_lt_pow hpos.ne' hn
  -- the spacing is a negative power of two
  have hexp : max (Int.log 2 (n : ℚ≥0) + 1 - φ.precision) φ.minExp ≤ 0 := by
    rw [Int.log_natCast]
    omega
  obtain ⟨m, hm⟩ := Int.eq_ofNat_of_zero_le (Int.neg_nonneg_of_nonpos hexp)
  have hulp : φ.ulp (n : ℚ≥0) = ((2 : ℚ≥0) ^ m)⁻¹ := by
    rw [ulp, ← zpow_natCast, ← zpow_neg]
    congr 1
    omega
  refine round_of_multiple (n := n * 2 ^ m) ?_
  rw [hulp, Nat.cast_mul, Nat.cast_pow, Nat.cast_ofNat, mul_inv_cancel_right₀ (by positivity)]

theorem round_le : φ.round x ≤ x + φ.ulp x / 2 := by
  have h := mul_le_mul_left (roundEven_le (x / φ.ulp x)) (φ.ulp x)
  rw [add_mul, div_mul_cancel₀ _ (φ.ulp_pos x).ne', one_div_mul_eq_div] at h
  exact h

theorem le_round : x ≤ φ.round x + φ.ulp x / 2 := by
  have h := mul_le_mul_left (le_roundEven (x / φ.ulp x)) (φ.ulp x)
  rw [add_mul, div_mul_cancel₀ _ (φ.ulp_pos x).ne', one_div_mul_eq_div] at h
  exact h

theorem ulp_le (hx : 2 ^ (φ.minExp + φ.precision) ≤ x) : φ.ulp x / 2 ≤ x * φ.unit := by
  have hpos : 0 < x := lt_of_lt_of_le (zpow_pos two_pos _) hx
  have hlog : (2 : ℚ≥0) ^ Int.log 2 x ≤ x := by
    exact_mod_cast Int.zpow_log_le_self (R := ℚ≥0) (b := 2) one_lt_two hpos
  rw [unit_zpow, ulp]
  rcases max_choice (Int.log 2 x + 1 - φ.precision) φ.minExp with hmax | hmax
  · have hsplit : (2 : ℚ≥0) ^ (Int.log 2 x + 1 - φ.precision) / 2
        = 2 ^ Int.log 2 x * 2 ^ (-(φ.precision : ℤ)) := by
      rw [← zpow_add₀ two_ne_zero, div_eq_iff two_ne_zero, ← zpow_add_one₀ two_ne_zero]
      congr 1
      ring
    rw [hmax, hsplit]
    gcongr
  · have hsplit : (2 : ℚ≥0) ^ φ.minExp
        = 2 ^ (φ.minExp + φ.precision) * 2 ^ (-(φ.precision : ℤ)) := by
      rw [← zpow_add₀ two_ne_zero]
      congr 1
      ring
    rw [hmax]
    calc (2 : ℚ≥0) ^ φ.minExp / 2 ≤ 2 ^ φ.minExp := half_le_self zero_le
      _ = 2 ^ (φ.minExp + φ.precision) * 2 ^ (-(φ.precision : ℤ)) := hsplit
      _ ≤ x * 2 ^ (-(φ.precision : ℤ)) := by gcongr

/-! ## Steps -/

/-- The two numbers are `k` roundings apart. -/
structure Within (φ : Format) (k : ℕ) (x y : ℚ≥0) : Prop where
  lower : x ≤ y * (1 + 2 * φ.unit) ^ k
  upper : y ≤ x * (1 + 2 * φ.unit) ^ k

variable {y x' y' : ℚ≥0} {k l : ℕ}

theorem Within.refl (x : ℚ≥0) : Within φ 0 x x := ⟨by simp, by simp⟩

theorem Within.trans {z : ℚ≥0} (h : Within φ k x y) (h' : Within φ l y z) :
    Within φ (k + l) x z where
  lower := calc
    x ≤ y * (1 + 2 * φ.unit) ^ k := h.lower
    _ ≤ z * (1 + 2 * φ.unit) ^ l * (1 + 2 * φ.unit) ^ k := by gcongr; exact h'.lower
    _ = z * (1 + 2 * φ.unit) ^ (k + l) := by ring
  upper := calc
    z ≤ y * (1 + 2 * φ.unit) ^ l := h'.upper
    _ ≤ x * (1 + 2 * φ.unit) ^ k * (1 + 2 * φ.unit) ^ l := by gcongr; exact h.upper
    _ = x * (1 + 2 * φ.unit) ^ (k + l) := by ring

theorem one_le_step : (1 : ℚ≥0) ≤ 1 + 2 * φ.unit := le_add_of_nonneg_right zero_le

theorem Within.mono (h : Within φ k x y) (hkl : k ≤ l) : Within φ l x y where
  lower := h.lower.trans (by gcongr; exact one_le_step)
  upper := h.upper.trans (by gcongr; exact one_le_step)

theorem Within.add (h : Within φ k x y) (h' : Within φ k x' y') :
    Within φ k (x + x') (y + y') where
  lower := (add_le_add h.lower h'.lower).trans_eq (add_mul ..).symm
  upper := (add_le_add h.upper h'.upper).trans_eq (add_mul ..).symm

theorem Within.mul (h : Within φ k x y) (h' : Within φ l x' y') :
    Within φ (k + l) (x * x') (y * y') where
  lower := (mul_le_mul' h.lower h'.lower).trans_eq (by ring)
  upper := (mul_le_mul' h.upper h'.upper).trans_eq (by ring)

theorem Within.eq_zero_iff (h : Within φ k x y) : x = 0 ↔ y = 0 := by
  constructor
  · rintro rfl
    simpa using h.upper
  · rintro rfl
    simpa using h.lower

theorem within_round (hφ : 0 < φ.precision) (hx : φ.Normal x) : Within φ 1 x (φ.round x) := by
  rcases hx with rfl | hx
  · rw [round_zero]
    exact ⟨zero_le, zero_le⟩
  have hulp := ulp_le hx
  have hunit : φ.unit ≤ 1 / 2 := pow_le_of_le_one (by norm_num) (by norm_num) hφ.ne'
  have hle : φ.round x ≤ x + x * φ.unit := round_le.trans (by gcongr)
  have hge : x ≤ φ.round x + x * φ.unit := le_round.trans (by gcongr)
  have htwice : x ≤ 2 * φ.round x := by
    have hhalf : x ≤ φ.round x + x / 2 := hge.trans (by
      rw [div_eq_mul_one_div]
      gcongr)
    have hcast : (x : ℚ) ≤ φ.round x + x / 2 := by exact_mod_cast hhalf
    have hgoal : (x : ℚ) ≤ 2 * φ.round x := by linarith
    exact_mod_cast hgoal
  refine ⟨?_, ?_⟩
  · calc x ≤ φ.round x + x * φ.unit := hge
      _ ≤ φ.round x + 2 * φ.round x * φ.unit := by gcongr
      _ = φ.round x * (1 + 2 * φ.unit) ^ 1 := by ring
  · calc φ.round x ≤ x + x * φ.unit := hle
      _ ≤ x + x * (2 * φ.unit) := by gcongr; exact le_mul_of_one_le_left zero_le one_le_two
      _ = x * (1 + 2 * φ.unit) ^ 1 := by ring

theorem Within.round (hφ : 0 < φ.precision) (h : Within φ k x y) (hy : φ.Normal y) :
    Within φ (k + 1) x (φ.round y) :=
  h.trans (within_round hφ hy)

/-- A few steps are less than twice as many units. -/
theorem step_pow_le (hk : 4 * k * φ.unit ≤ 1) : (1 + 2 * φ.unit) ^ k ≤ 1 + 4 * k * φ.unit := by
  induction k with
  | zero => simp
  | succ k ih =>
    have hprev : 4 * (k : ℚ≥0) * φ.unit ≤ 1 := by
      refine le_trans ?_ hk
      gcongr
      exact Nat.le_succ k
    calc (1 + 2 * φ.unit) ^ (k + 1) = (1 + 2 * φ.unit) ^ k * (1 + 2 * φ.unit) := pow_succ ..
      _ ≤ (1 + 4 * k * φ.unit) * (1 + 2 * φ.unit) := by gcongr; exact ih hprev
      _ = 1 + 4 * k * φ.unit + 2 * φ.unit + 4 * k * φ.unit * (2 * φ.unit) := by ring
      _ ≤ 1 + 4 * k * φ.unit + 2 * φ.unit + 1 * (2 * φ.unit) := by gcongr
      _ = 1 + 4 * (k + 1 : ℕ) * φ.unit := by push_cast; ring

/-- What few roundings give is not much smaller. -/
theorem Within.half_le (h : Within φ k x y) (hk : 4 * k * φ.unit ≤ 1) : x / 2 ≤ y := by
  have hstep : (1 + 2 * φ.unit) ^ k ≤ 2 := calc
    (1 + 2 * φ.unit) ^ k ≤ 1 + 4 * k * φ.unit := step_pow_le hk
    _ ≤ 1 + 1 := by gcongr
    _ = 2 := one_add_one_eq_two
  rw [div_le_iff₀ two_pos]
  exact h.lower.trans (by gcongr)

/-- After few roundings one more, of a number that is not small. -/
theorem Within.round_of (hφ : 0 < φ.precision) (h : Within φ k x y) (hk : 4 * k * φ.unit ≤ 1)
    (hx : x = 0 ∨ 2 ^ (φ.minExp + φ.precision + 1) ≤ x) : Within φ (k + 1) x (φ.round y) := by
  refine h.round hφ ?_
  rcases hx with rfl | hx
  · exact .inl (h.eq_zero_iff.mp rfl)
  · refine .inr (le_trans ?_ (h.half_le hk))
    rw [le_div_iff₀ two_pos, ← zpow_add_one₀ two_ne_zero]
    exact hx

/-- A number that is small for its steps is less than a half off. -/
theorem Within.lt_half (h : Within φ k x y) (hk : 4 * k * φ.unit ≤ 1)
    (hx : 8 * (x * k * φ.unit) < 1) : y < x + 1 / 2 ∧ x < y + 1 / 2 := by
  have hstep := step_pow_le hk
  have herr : x * (4 * k * φ.unit) < 1 / 2 := by
    rw [lt_div_iff₀ two_pos]
    exact lt_of_eq_of_lt (by ring) hx
  constructor
  · calc y ≤ x * (1 + 2 * φ.unit) ^ k := h.upper
      _ ≤ x * (1 + 4 * k * φ.unit) := by gcongr
      _ = x + x * (4 * k * φ.unit) := by ring
      _ < x + 1 / 2 := by gcongr
  · by_contra hge
    have hyx : y ≤ x := (le_add_of_nonneg_right zero_le).trans (not_lt.mp hge)
    have hlt : x < y + 1 / 2 := calc
      x ≤ y * (1 + 2 * φ.unit) ^ k := h.lower
      _ ≤ y * (1 + 4 * k * φ.unit) := by gcongr
      _ = y + y * (4 * k * φ.unit) := by ring
      _ ≤ y + x * (4 * k * φ.unit) := by gcongr
      _ < y + 1 / 2 := by gcongr
    exact hge hlt

end Format

end FloatRounding
