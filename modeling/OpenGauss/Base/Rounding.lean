import Mathlib.Data.Rat.Floor
import Mathlib.Tactic.FieldSimp
import Mathlib.Tactic.Linarith
import Mathlib.Tactic.Positivity
import Mathlib.Tactic.Ring

/-!
# Rounding by one more digit

A quotient of whole numbers is rounded to some decimals, halves away from zero, by cutting it one
decimal further and rounding the last digit off. Cutting and rounding together are exact, as a
half is seen in the digit behind the last one.
-/
namespace OpenGauss.Base

/-- A number rounded to some decimals, halves away from zero. -/
def roundHalfAway (scale : Nat) (number : ℚ) : ℚ :=
  let size : Int := ⌊|number| * 10 ^ scale + 1 / 2⌋
  (if number < 0 then -size else size) / 10 ^ scale

/-- Round the last digit of a whole number off. -/
def roundLastDigit (value : Int) : Int :=
  if 0 < value then
    if 5 ≤ value.tmod 10 then value.tdiv 10 + 1 else value.tdiv 10
  else if value < 0 then
    if value.tmod 10 ≤ -5 then value.tdiv 10 - 1 else value.tdiv 10
  else value

/-- A natural number is rounded by adding five. -/
theorem roundLastDigit_natCast (size : Nat) :
    roundLastDigit (size : Int) = ((size + 5) / 10 : Nat) := by
  have quotient : (size : Int).tdiv 10 = ((size / 10 : Nat) : Int) := rfl
  have remainder : (size : Int).tmod 10 = ((size % 10 : Nat) : Int) := rfl
  rw [roundLastDigit]
  split_ifs <;> lia

/-- A negative number is rounded away from zero too. -/
theorem roundLastDigit_neg (size : Nat) :
    roundLastDigit (-(size : Int)) = -(((size + 5) / 10 : Nat) : Int) := by
  have quotient : (-(size : Int)).tdiv 10 = -((size / 10 : Nat) : Int) := by
    rw [Int.neg_tdiv]
    rfl
  have remainder : (-(size : Int)).tmod 10 = -((size % 10 : Nat) : Int) := by
    rw [Int.neg_tmod]
    rfl
  rw [roundLastDigit]
  split_ifs <;> lia

/-- The rational floor of a quotient is the one of its digits. -/
theorem floor_quotient (scale size divisor : Nat) (positive : 0 < divisor) :
    ⌊(size : ℚ) / divisor / 10 ^ (scale + 1) * 10 ^ scale + 1 / 2⌋ =
      (((size / divisor + 5) / 10 : Nat) : Int) := by
  have whole : (size / divisor + 5) / 10 = (size + 5 * divisor) / (divisor * 10) := by
    rw [← Nat.div_div_eq_div_mul, Nat.add_mul_div_right _ _ positive]
  have exact : (size : ℚ) / divisor / 10 ^ (scale + 1) * 10 ^ scale + 1 / 2 =
      ((size + 5 * divisor : Nat) : ℚ) / ((divisor * 10 : Nat) : ℚ) := by
    push_cast
    field_simp
    ring
  rw [exact, whole]
  exact Rat.floor_natCast_div_natCast _ _

/-- Zero stays zero. -/
theorem roundHalfAway_zero (scale : Nat) : roundHalfAway scale 0 = 0 := by
  have half : ⌊|(0 : ℚ)| * 10 ^ scale + 1 / 2⌋ = 0 := by
    exact Int.floor_eq_iff.mpr ⟨by norm_num, by norm_num⟩
  rw [roundHalfAway]
  norm_num

/-- Rounding is symmetric. -/
theorem roundHalfAway_neg (scale : Nat) (number : ℚ) :
    roundHalfAway scale (-number) = -roundHalfAway scale number := by
  rcases lt_trichotomy number 0 with negative | zero | positive
  · rw [roundHalfAway, roundHalfAway, abs_neg, if_neg (by linarith), if_pos negative]
    push_cast
    ring
  · rw [zero, neg_zero, roundHalfAway_zero, neg_zero]
  · rw [roundHalfAway, roundHalfAway, abs_neg, if_pos (by linarith), if_neg (by linarith)]
    push_cast
    ring

/-- A quotient is rounded by its truncated digits, with one more of them. -/
theorem roundHalfAway_quotient (scale size divisor : Nat) (positive : 0 < divisor) :
    roundHalfAway scale ((size : ℚ) / divisor / 10 ^ (scale + 1)) =
      (((size / divisor + 5) / 10 : Nat) : ℚ) / 10 ^ scale := by
  have least : (0 : ℚ) ≤ (size : ℚ) / divisor / 10 ^ (scale + 1) := by positivity
  rw [roundHalfAway, if_neg (not_lt.mpr least), abs_of_nonneg least,
    floor_quotient scale size divisor positive, Int.cast_natCast]

/-- A quotient with one more digit, rounded at it, is the rounded quotient. -/
theorem roundLastDigit_tdiv (scale : Nat) (dividend divisor : Int) (nonzero : divisor ≠ 0) :
    (roundLastDigit (dividend.tdiv divisor) : ℚ) / 10 ^ scale =
      roundHalfAway scale ((dividend : ℚ) / divisor / 10 ^ (scale + 1)) := by
  have positive : 0 < divisor.natAbs := Int.natAbs_pos.mpr nonzero
  have rounded := roundHalfAway_quotient scale dividend.natAbs divisor.natAbs positive
  have quotient : (dividend.natAbs : Int).tdiv divisor.natAbs =
      ((dividend.natAbs / divisor.natAbs : Nat) : Int) := rfl
  have same : (roundLastDigit ((dividend.natAbs : Int).tdiv divisor.natAbs) : ℚ) / 10 ^ scale =
      roundHalfAway scale ((dividend.natAbs : ℚ) / divisor.natAbs / 10 ^ (scale + 1)) := by
    rw [quotient, roundLastDigit_natCast, Int.cast_natCast, rounded]
  have other : (roundLastDigit (-(dividend.natAbs : Int).tdiv divisor.natAbs) : ℚ) / 10 ^ scale =
      roundHalfAway scale (-((dividend.natAbs : ℚ) / divisor.natAbs / 10 ^ (scale + 1))) := by
    rw [quotient, roundLastDigit_neg, roundHalfAway_neg, rounded, Int.cast_neg, Int.cast_natCast,
      neg_div]
  have dividendSign := Int.natAbs_eq dividend
  have divisorSign := Int.natAbs_eq divisor
  generalize dividend.natAbs = size at dividendSign same other
  generalize divisor.natAbs = parts at divisorSign same other
  rcases dividendSign with rfl | rfl
  · rcases divisorSign with rfl | rfl
    · exact same
    · rw [Int.tdiv_neg, other, Int.cast_neg, Int.cast_natCast, Int.cast_natCast, div_neg, neg_div]
  · rcases divisorSign with rfl | rfl
    · rw [Int.neg_tdiv, other, Int.cast_neg, Int.cast_natCast, Int.cast_natCast, neg_div, neg_div]
    · rw [Int.neg_tdiv, Int.tdiv_neg, neg_neg, same, Int.cast_neg, Int.cast_neg, Int.cast_natCast,
        Int.cast_natCast, neg_div_neg_eq]

end OpenGauss.Base
