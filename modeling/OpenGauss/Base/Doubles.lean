import Mathlib

/-!
# Doubles of whole numbers

The 64 bits of a double, for the whole numbers that have at most 53 bits: a biased exponent above the
52 bits of the fraction. Such a double is exact, so the whole number is found in it again.
-/
namespace OpenGauss.Base

/-- The bits of the double of a whole number. -/
def wholeBits (number : Nat) : Nat :=
  if number = 0 then 0
  else (1023 + Nat.log 2 number) * 2 ^ 52 + (number * 2 ^ (52 - Nat.log 2 number) - 2 ^ 52)

/-- The whole number of the bits of its double. -/
def bitsWhole (bits : Nat) : Nat :=
  if bits = 0 then 0 else (2 ^ 52 + bits % 2 ^ 52) / 2 ^ (52 - (bits / 2 ^ 52 - 1023))

variable (number : Nat)

/-- The fraction of a whole number fits its 52 bits. -/
theorem fraction_bounds (positive : number ≠ 0) (small : number < 2 ^ 53) :
    Nat.log 2 number ≤ 52 ∧ 2 ^ 52 ≤ number * 2 ^ (52 - Nat.log 2 number) ∧
      number * 2 ^ (52 - Nat.log 2 number) < 2 ^ 53 := by
  have low := Nat.pow_log_le_self 2 positive
  have high := Nat.lt_pow_succ_log_self (show 1 < 2 by decide) number
  have exponent : Nat.log 2 number ≤ 52 := by
    have less := Nat.log_lt_of_lt_pow positive small
    omega
  have scale : 0 < 2 ^ (52 - Nat.log 2 number) := Nat.two_pow_pos _
  refine ⟨exponent, ?_, ?_⟩
  · calc
      2 ^ 52 = 2 ^ Nat.log 2 number * 2 ^ (52 - Nat.log 2 number) := by
        rw [← Nat.pow_add]
        congr 1
        omega
      _ ≤ number * 2 ^ (52 - Nat.log 2 number) := Nat.mul_le_mul_right _ low
  · calc
      number * 2 ^ (52 - Nat.log 2 number) <
          2 ^ (Nat.log 2 number).succ * 2 ^ (52 - Nat.log 2 number) :=
        Nat.mul_lt_mul_of_pos_right high scale
      _ = 2 ^ 53 := by
        rw [← Nat.pow_add]
        congr 1
        omega

/-- A whole number's double has no sign. -/
theorem wholeBits_lt (small : number < 2 ^ 53) : wholeBits number < 2 ^ 63 := by
  rw [wholeBits]
  by_cases zero : number = 0
  · rw [if_pos zero]
    decide
  · obtain ⟨exponent, -, high⟩ := fraction_bounds number zero small
    rw [if_neg zero]
    generalize number * 2 ^ (52 - Nat.log 2 number) = fraction at high
    omega

/-- A whole number is read back from its double. -/
theorem bitsWhole_wholeBits (small : number < 2 ^ 53) : bitsWhole (wholeBits number) = number := by
  rw [bitsWhole, wholeBits]
  by_cases zero : number = 0
  · rw [if_pos zero, if_pos rfl, zero]
  · obtain ⟨exponent, low, high⟩ := fraction_bounds number zero small
    have scale : 0 < 2 ^ (52 - Nat.log 2 number) := Nat.two_pow_pos _
    have back := Nat.mul_div_cancel number scale
    rw [if_neg zero, if_neg (by lia)]
    generalize number * 2 ^ (52 - Nat.log 2 number) = fraction at low high back
    have top : ((1023 + Nat.log 2 number) * 2 ^ 52 + (fraction - 2 ^ 52)) / 2 ^ 52 - 1023 =
        Nat.log 2 number := by omega
    have rest : 2 ^ 52 + ((1023 + Nat.log 2 number) * 2 ^ 52 + (fraction - 2 ^ 52)) % 2 ^ 52 =
        fraction := by grind
    rw [top, rest, back]

end OpenGauss.Base
