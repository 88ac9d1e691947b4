import Mathlib.Algebra.Order.Field.Power
import Mathlib.Data.Int.Log
import PropzaAmlak.Data.Rounding

/-! Binary floating-point numbers of 53 bits, as rationals. The exponent is not bounded. -/

namespace Double

/-- The weight of the last of the 53 bits. -/
def ulp (q : ℚ) : ℚ := 2 ^ (Int.log 2 |q| - 52)

/-- The nearest of these numbers, ties to even. -/
def round (q : ℚ) : ℚ := roundInt (q / ulp q) * ulp q

def add (x y : ℚ) : ℚ := round (x + y)

def sub (x y : ℚ) : ℚ := round (x - y)

/-- `sum(xs)`, from the left. -/
def sum (xs : List ℚ) : ℚ := xs.foldl add 0

/-- The numbers that need no rounding. -/
def IsDouble (q : ℚ) : Prop := ∃ m e : ℤ, |m| ≤ 2 ^ 53 ∧ q = m * 2 ^ e

variable {q : ℚ}

theorem ulp_pos (q : ℚ) : 0 < ulp q := zpow_pos (by norm_num) _

theorem roundInt_zero : roundInt 0 = 0 := by exact_mod_cast roundInt_intCast 0

@[simp] theorem round_zero : round 0 = 0 := by
  rw [round, zero_div, roundInt_zero, Int.cast_zero, zero_mul]

theorem round_nonneg (h : 0 ≤ q) : 0 ≤ round q := by
  have hscaled : 0 ≤ q / ulp q := div_nonneg h (ulp_pos q).le
  have hround : 0 ≤ roundInt (q / ulp q) := roundInt_zero ▸ roundInt_mono hscaled
  have hcast : (0 : ℚ) ≤ roundInt (q / ulp q) := by exact_mod_cast hround
  exact mul_nonneg hcast (ulp_pos q).le

theorem ulp_mul (q : ℚ) (n : ℕ) : 2 ^ n * ulp q = 2 ^ (Int.log 2 |q| - 52 + n) := by
  rw [ulp, add_comm, zpow_add₀ two_ne_zero, zpow_natCast]

/-- In units of its last bit, a number other than zero is at least `2 ^ 52` and below `2 ^ 53`. -/
theorem ulp_bounds (h : q ≠ 0) : 2 ^ 52 * ulp q ≤ |q| ∧ |q| < 2 ^ 53 * ulp q := by
  have hlow : (2 : ℚ) ^ Int.log 2 |q| ≤ |q| := by exact_mod_cast Int.zpow_log_le_self (by norm_num) (abs_pos.mpr h)
  have hhigh : |q| < (2 : ℚ) ^ (Int.log 2 |q| + 1) := by exact_mod_cast Int.lt_zpow_succ_log_self (by norm_num) |q|
  rw [ulp_mul, ulp_mul]
  constructor
  · convert hlow using 2
    push_cast
    ring
  · convert hhigh using 2
    push_cast
    ring

@[simp] theorem round_eq_zero : round q = 0 ↔ q = 0 := by
  constructor
  · intro hround
    by_contra hzero
    obtain ⟨hlow, -⟩ := ulp_bounds hzero
    have hulp := ulp_pos q
    have hnone : roundInt (q / ulp q) = 0 := by
      rw [round, mul_eq_zero] at hround
      exact_mod_cast hround.resolve_right hulp.ne'
    obtain ⟨hleft, hright⟩ := roundInt_error (q / ulp q)
    rw [hnone, Int.cast_zero] at hleft hright
    have hsmall : |q / ulp q| ≤ 1 / 2 := abs_le.mpr ⟨by linarith, by linarith⟩
    rw [abs_div, abs_of_pos hulp, div_le_iff₀ hulp] at hsmall
    linarith
  · rintro rfl
    exact round_zero

theorem roundInt_abs_le {x : ℚ} {n : ℤ} (h : |x| ≤ n) : |roundInt x| ≤ n := by
  obtain ⟨hlow, hhigh⟩ := abs_le.mp h
  have hmin : roundInt (-n : ℤ) ≤ roundInt x := roundInt_mono (by push_cast; exact hlow)
  have hmax : roundInt x ≤ roundInt (n : ℤ) := roundInt_mono hhigh
  rw [roundInt_intCast] at hmin hmax
  exact abs_le.mpr ⟨hmin, hmax⟩

theorem isDouble_round (q : ℚ) : IsDouble (round q) := by
  refine ⟨roundInt (q / ulp q), Int.log 2 |q| - 52, roundInt_abs_le ?_, rfl⟩
  push_cast
  by_cases h : q = 0
  · simp [h]
  · rw [abs_div, abs_of_pos (ulp_pos q), div_le_iff₀ (ulp_pos q)]
    exact (ulp_bounds h).2.le

theorem isDouble_zero : IsDouble 0 := ⟨0, 0, by norm_num, by norm_num⟩

theorem isDouble_sub_round (x y : ℚ) : IsDouble (sub x y) := isDouble_round _

theorem round_of_integer {n : ℤ} (h : q = n * ulp q) : round q = q := by
  have hscaled : q / ulp q = n := (div_eq_iff (ulp_pos q).ne').mpr h
  rw [round, hscaled, roundInt_intCast, ← h]

/-- Rounding leaves a double alone: its last bit weighs at most `2 ^ e`, or it is `2 ^ (e + 53)` up to sign. -/
theorem round_of_isDouble (h : IsDouble q) : round q = q := by
  by_cases hzero : q = 0
  · rw [hzero, round_zero]
  obtain ⟨m, e, hm, hq⟩ := h
  have hpos : (0 : ℚ) < 2 ^ e := zpow_pos (by norm_num) _
  rcases le_or_gt (Int.log 2 |q| - 52) e with hle | hlt
  · have hsplit : (2 : ℚ) ^ e = 2 ^ (e - (Int.log 2 |q| - 52)).toNat * ulp q := by
      rw [ulp_mul]
      congr 1
      omega
    apply round_of_integer (n := m * 2 ^ (e - (Int.log 2 |q| - 52)).toNat)
    push_cast
    rw [mul_assoc, ← hsplit]
    exact hq
  · have hulp : 2 * 2 ^ e ≤ ulp q := by
      rw [ulp, ← zpow_one_add₀ two_ne_zero]
      exact zpow_le_zpow_right₀ (by norm_num) (by omega)
    have habs : |q| = |m| * 2 ^ e := by rw [hq, abs_mul, abs_of_pos hpos, Int.cast_abs]
    have hlong : ((|m| : ℤ) : ℚ) ≤ 2 ^ 53 := by exact_mod_cast hm
    have hhigh : |q| ≤ 2 ^ 53 * 2 ^ e := by
      rw [habs]
      exact mul_le_mul_of_nonneg_right hlong hpos.le
    obtain ⟨hlow, -⟩ := ulp_bounds hzero
    have hexact : ulp q = 2 * 2 ^ e ∧ |q| = 2 ^ 53 * 2 ^ e := by
      constructor <;> linarith
    rcases abs_choice q with hsign | hsign
    · apply round_of_integer (n := 2 ^ 52)
      push_cast
      linarith [hexact.1, hexact.2]
    · apply round_of_integer (n := -2 ^ 52)
      push_cast
      linarith [hexact.1, hexact.2]

theorem zero_add_eq (h : IsDouble q) : add 0 q = q := by rw [add, zero_add, round_of_isDouble h]

theorem sub_zero_eq (h : IsDouble q) : sub q 0 = q := by rw [sub, sub_zero, round_of_isDouble h]

/-- Rounding keeps the order. -/
theorem round_mono {x y : ℚ} (hx : 0 ≤ x) (h : x ≤ y) : round x ≤ round y := by
  rcases hx.eq_or_lt with rfl | hpos
  · rw [round_zero]
    exact round_nonneg h
  have hy : 0 < y := hpos.trans_le h
  have hlog : Int.log 2 |x| ≤ Int.log 2 |y| := by
    rw [abs_of_pos hpos, abs_of_pos hy]
    exact Int.log_mono_right hpos h
  rcases hlog.eq_or_lt with heq | hlt
  · have hulp : ulp x = ulp y := by rw [ulp, ulp, heq]
    have hround : roundInt (x / ulp y) ≤ roundInt (y / ulp y) :=
      roundInt_mono (div_le_div_of_nonneg_right h (ulp_pos y).le)
    rw [round, round, hulp]
    exact mul_le_mul_of_nonneg_right (by exact_mod_cast hround) (ulp_pos y).le
  · -- `2 ^ Int.log 2 y` lies between the two
    have hsmall : roundInt (x / ulp x) ≤ 2 ^ 53 := by
      refine (le_abs_self _).trans (roundInt_abs_le ?_)
      rw [abs_div, abs_of_pos (ulp_pos x), div_le_iff₀ (ulp_pos x)]
      push_cast
      exact (ulp_bounds hpos.ne').2.le
    have hlarge : 2 ^ 52 ≤ roundInt (y / ulp y) := by
      have hscaled : ((2 ^ 52 : ℤ) : ℚ) ≤ y / ulp y := by
        rw [le_div_iff₀ (ulp_pos y)]
        push_cast
        exact (ulp_bounds hy.ne').1.trans_eq (abs_of_pos hy)
      exact (roundInt_intCast _).symm.trans_le (roundInt_mono hscaled)
    have hulp : 2 * ulp x ≤ ulp y := by
      rw [ulp, ulp, ← zpow_one_add₀ two_ne_zero]
      exact zpow_le_zpow_right₀ (by norm_num) (by omega)
    have hlow : (2 : ℚ) ^ 52 * ulp y ≤ round y :=
      mul_le_mul_of_nonneg_right (by exact_mod_cast hlarge) (ulp_pos y).le
    have hhigh : round x ≤ 2 ^ 53 * ulp x := mul_le_mul_of_nonneg_right (by exact_mod_cast hsmall) (ulp_pos x).le
    linarith

theorem isDouble_of_multiple {x : ℚ} {m k e : ℤ} (hm : |m| ≤ 2 ^ 53) (hx : x = m * 2 ^ e) (hq : q = k * 2 ^ e)
    (hle : |q| ≤ |x|) : IsDouble q := by
  have hpos : (0 : ℚ) < 2 ^ e := zpow_pos (by norm_num) _
  rw [hx, hq, abs_mul, abs_mul, abs_of_pos hpos] at hle
  have hbits : |(k : ℚ)| ≤ |(m : ℚ)| := le_of_mul_le_mul_right hle hpos
  have hshort : |k| ≤ |m| := by exact_mod_cast hbits
  exact ⟨k, e, hshort.trans hm, hq⟩

/-- Numbers within a factor of two of each other are subtracted exactly. -/
theorem isDouble_sub {x y : ℚ} (hx : IsDouble x) (hy : IsDouble y) (hle : y ≤ x) (hhalf : x ≤ 2 * y) :
    IsDouble (x - y) := by
  obtain ⟨m, e, hm, hmx⟩ := hx
  obtain ⟨n, f, hn, hny⟩ := hy
  have hrest : |x - y| ≤ |x| ∧ |x - y| ≤ |y| := by
    rw [abs_of_nonneg (by linarith), abs_of_nonneg (by linarith), abs_of_nonneg (by linarith)]
    constructor <;> linarith
  have hshift : ∀ {a b : ℤ}, a ≤ b → (2 : ℚ) ^ b = 2 ^ (b - a).toNat * 2 ^ a := by
    intro a b hab
    rw [← zpow_natCast, ← zpow_add₀ two_ne_zero]
    congr 1
    omega
  rcases le_total e f with hef | hfe
  · refine isDouble_of_multiple (k := m - n * 2 ^ (f - e).toNat) hm hmx ?_ hrest.1
    push_cast
    rw [hmx, hny, hshift hef]
    ring
  · refine isDouble_of_multiple (k := m * 2 ^ (e - f).toNat - n) hn hny ?_ hrest.2
    push_cast
    rw [hmx, hny, hshift hfe]
    ring

theorem isDouble_half (h : IsDouble q) : IsDouble (q / 2) := by
  obtain ⟨m, e, hm, hq⟩ := h
  refine ⟨m, e - 1, hm, ?_⟩
  rw [hq, zpow_sub_one₀ two_ne_zero]
  ring

/-- A difference that is made up for by subtracting it again was exact. -/
theorem sub_eq_of_sub_sub {x y : ℚ} (hx : IsDouble x) (hy : IsDouble y) (hnonneg : 0 ≤ y) (hle : y ≤ x)
    (h : sub x (sub x y) = y) : sub x y = x - y := by
  rcases le_or_gt x (2 * y) with hclose | hfar
  · exact round_of_isDouble (isDouble_sub hx hy hle hclose)
  · have hrest : sub x y ≤ x ∧ x / 2 ≤ sub x y := by
      constructor
      · exact (round_mono (by linarith) (by linarith)).trans_eq (round_of_isDouble hx)
      · exact (round_of_isDouble (isDouble_half hx)).symm.trans_le (round_mono (by linarith) (by linarith))
    have hexact : sub x (sub x y) = x - sub x y :=
      round_of_isDouble (isDouble_sub hx (isDouble_round _) hrest.1 (by linarith))
    linarith

theorem isDouble_sum (xs : List ℚ) : IsDouble (sum xs) := by
  cases xs using List.reverseRecOn with
  | nil => exact isDouble_zero
  | append_singleton xs x =>
    rw [sum, List.foldl_append]
    exact isDouble_round _

/-- Three amounts that make 2841 together may stay below it. -/
example : add (add (round (268385 / 100)) (round (1497 / 100))) (round (14218 / 100)) < 2841 := by decide +kernel

end Double
