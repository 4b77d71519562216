import OpenGauss.Base.Digits
import Mathlib.Order.Defs.LinearOrder
import Mathlib.Algebra.Order.Group.Unbundled.Basic

/-!
# The order of numbers with digits

Digits that start at some power of the base stand for a number below the next power, so the first
place where two such numbers differ tells which of them is larger. The result of a comparison is 1, 0
or -1, as it is in the C library.
-/
namespace OpenGauss.Base

section ThreeWay

variable {α : Type*} [LinearOrder α]

/-- The comparison of two numbers with three results. -/
def threeWay (left right : α) : Int := if right < left then 1 else if left < right then -1 else 0

variable (left right : α)

/-- A larger number gives 1. -/
theorem threeWay_of_gt (larger : right < left) : threeWay left right = 1 :=
  if_pos larger

/-- A smaller number gives -1. -/
theorem threeWay_of_lt (smaller : left < right) : threeWay left right = -1 := by
  rw [threeWay, if_neg (not_lt.mpr smaller.le), if_pos smaller]

/-- Equal numbers give 0. -/
theorem threeWay_self (number : α) : threeWay number number = 0 := by
  rw [threeWay, if_neg (lt_irrefl number), if_neg (lt_irrefl number)]

/-- The result is positive exactly if the left number is larger. -/
theorem threeWay_pos_iff : 0 < threeWay left right ↔ right < left := by
  rw [threeWay]
  split
  · rename_i larger
    exact ⟨fun _ => larger, fun _ => by decide⟩
  · rename_i larger
    split
    · exact ⟨fun no => absurd no (by decide), fun no => absurd no larger⟩
    · exact ⟨fun no => absurd no (by decide), fun no => absurd no larger⟩

/-- The result is negative exactly if the left number is smaller. -/
theorem threeWay_neg_iff : threeWay left right < 0 ↔ left < right := by
  rw [threeWay]
  split
  · rename_i larger
    exact ⟨fun no => absurd no (by decide), fun no => absurd larger (not_lt.mpr no.le)⟩
  · split
    · rename_i smaller
      exact ⟨fun _ => smaller, fun _ => by decide⟩
    · rename_i smaller
      exact ⟨fun no => absurd no (by decide), fun no => absurd no smaller⟩

end ThreeWay

/-- Negation turns the comparison round. -/
theorem threeWay_opposite (left right : ℚ) : threeWay (-left) (-right) = threeWay right left := by
  simp only [threeWay, neg_lt_neg_iff]

section Weighted

variable (base : Nat)

/-- The number that digits stand for whose first one has some weight. -/
def weightedDigits : Int → List Nat → ℚ
  | _, [] => 0
  | weight, digit :: rest => digit * (base : ℚ) ^ weight + weightedDigits (weight - 1) rest

variable (large : 1 < base)
include large

variable (weight : Int) (digits : List Nat)

/-- Weights are positive. -/
theorem weight_pos : (0 : ℚ) < (base : ℚ) ^ weight := by
  have cast : (0 : ℚ) < base := by exact_mod_cast (by omega : 0 < base)
  exact zpow_pos cast weight

/-- Weighted digits are their number, shifted. -/
theorem weightedDigits_eq : weightedDigits base weight digits =
      digitsValue base digits * (base : ℚ) ^ (weight + 1 - digits.length) := by
  have nonzero : (base : ℚ) ≠ 0 := by exact_mod_cast (by omega : base ≠ 0)
  induction digits generalizing weight with
  | nil => exact (zero_mul _).symm
  | cons digit rest ih =>
    have exponent : weight + 1 - ((digit :: rest).length : Int) = weight - 1 + 1 - rest.length := by
      rw [List.length_cons]
      lia
    have power : (base : ℚ) ^ weight =
        (base : ℚ) ^ rest.length * (base : ℚ) ^ (weight - 1 + 1 - (rest.length : Int)) := by
      rw [← zpow_natCast, ← zpow_add₀ nonzero]
      congr 1
      omega
    rw [weightedDigits, ih, exponent, digitsValue_cons, power]
    push_cast
    ring

/-- Digits have no negative value. -/
theorem weightedDigits_nonneg : 0 ≤ weightedDigits base weight digits := by
  have positive := weight_pos base large (weight + 1 - digits.length)
  rw [weightedDigits_eq base large]
  exact mul_nonneg (Nat.cast_nonneg _) positive.le

/-- Digits are below the weight before the first of them. -/
theorem weightedDigits_lt (small : ∀ digit ∈ digits, digit < base) :
    weightedDigits base weight digits < (base : ℚ) ^ (weight + 1) := by
  have nonzero : (base : ℚ) ≠ 0 := by exact_mod_cast (by omega : base ≠ 0)
  have fits : (digitsValue base digits : ℚ) < (base : ℚ) ^ digits.length := by
    exact_mod_cast digitsValue_lt base large digits small
  have power : (base : ℚ) ^ (weight + 1) =
      (base : ℚ) ^ digits.length * (base : ℚ) ^ (weight + 1 - digits.length) := by
    rw [← zpow_natCast, ← zpow_add₀ nonzero]
    lia
  rw [weightedDigits_eq base large, power]
  exact mul_lt_mul_of_pos_right fits (weight_pos base large _)

/-- A leading digit that is not zero is worth its weight. -/
theorem le_weightedDigits {digit : Nat} (rest : List Nat) (nonzero : digit ≠ 0) :
    (base : ℚ) ^ weight ≤ weightedDigits base weight (digit :: rest) := by
  have one : (1 : ℚ) ≤ digit := by exact_mod_cast Nat.one_le_iff_ne_zero.mpr nonzero
  have front := le_mul_of_one_le_left (weight_pos base large weight).le one
  have more := weightedDigits_nonneg base large (weight - 1) rest
  rw [weightedDigits]
  linarith

/-- They are positive exactly if some digit is not zero. -/
theorem weightedDigits_pos_iff :
    0 < weightedDigits base weight digits ↔ ∃ digit ∈ digits, digit ≠ 0 := by
  induction digits generalizing weight with
  | nil =>
    constructor
    · intro no
      exact absurd no (lt_irrefl _)
    · rintro ⟨digit, member, -⟩
      exact absurd member List.not_mem_nil
  | cons digit rest ih =>
    by_cases zero : digit = 0
    · subst zero
      rw [weightedDigits, Nat.cast_zero, zero_mul, zero_add, ih]
      constructor
      · rintro ⟨digit, member, nonzero⟩
        exact ⟨digit, List.mem_cons_of_mem _ member, nonzero⟩
      · rintro ⟨digit, member, nonzero⟩
        rcases List.mem_cons.mp member with rfl | inside
        · exact absurd rfl nonzero
        · exact ⟨digit, inside, nonzero⟩
    · have least := le_weightedDigits base large weight rest zero
      exact ⟨fun _ => ⟨digit, List.mem_cons_self, zero⟩,
        fun _ => lt_of_lt_of_le (weight_pos base large weight) least⟩

/-- A smaller leading digit decides. -/
theorem weightedDigits_lt_of_digit {digit1 digit2 : Nat} (rest1 rest2 : List Nat)
    (small : ∀ digit ∈ rest1, digit < base) (less : digit1 < digit2) :
    weightedDigits base weight (digit1 :: rest1) < weightedDigits base weight (digit2 :: rest2) := by
  have below := weightedDigits_lt base large (weight - 1) rest1 small
  have more := weightedDigits_nonneg base large (weight - 1) rest2
  have next : (digit1 : ℚ) + 1 ≤ digit2 := by exact_mod_cast less
  have front := mul_le_mul_of_nonneg_right next (weight_pos base large weight).le
  rw [Int.sub_add_cancel] at below
  rw [weightedDigits, weightedDigits]
  linarith

end Weighted

end OpenGauss.Base
