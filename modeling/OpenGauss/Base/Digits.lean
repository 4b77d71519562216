import Mathlib.Data.Nat.Digits.Defs
import Mathlib.Data.Nat.Digits.Lemmas
import Mathlib.Algebra.Field.Rat
import Mathlib.Algebra.GroupWithZero.Basic
import Mathlib.Algebra.Order.Field.Basic
import Mathlib.Algebra.Order.Field.Power
import Mathlib.Tactic.Ring
import Mathlib.Tactic.FieldSimp
import Mathlib.Tactic.Linarith

/-!
# Digits with the highest one first

A list of digits in some base stands for a number, the highest digit first. Digits without zeros in
front are fixed by the number, and a number that is not a multiple of the base is fixed, with its
exponent, by its product with a power of the base. The same holds for a whole number with a decimal
scale from which no zero can be taken.
-/
namespace OpenGauss.Base

open List

/-- The number that digits stand for, the highest digit first. -/
def digitsValue (base : Nat) (digits : List Nat) : Nat :=
  digits.foldl (fun value digit => value * base + digit) 0

variable (base : Nat) (digits : List Nat)

/-- The value is the library's, from the other end. -/
theorem digitsValue_eq_ofDigits : digitsValue base digits = Nat.ofDigits base digits.reverse := by
  rw [digitsValue, Nat.ofDigits_eq_foldr, foldr_reverse]
  congr 1
  funext value digit
  rw [Nat.add_comm, Nat.mul_comm]
  rfl

/-- The value of digits in a row. -/
theorem digitsValue_append (first second : List Nat) : digitsValue base (first ++ second) =
      digitsValue base first * base ^ second.length + digitsValue base second := by
  rw [digitsValue_eq_ofDigits, digitsValue_eq_ofDigits, digitsValue_eq_ofDigits, reverse_append,
    Nat.ofDigits_append, length_reverse, Nat.add_comm, Nat.mul_comm]

/-- One digit is its own value. -/
theorem digitsValue_singleton (base digit : Nat) : digitsValue base [digit] = digit := by
  rw [digitsValue, foldl_cons, foldl_nil, Nat.zero_mul, Nat.zero_add]

/-- The first digit counts the most. -/
theorem digitsValue_cons (base digit : Nat) (rest : List Nat) :
    digitsValue base (digit :: rest) = digit * base ^ rest.length + digitsValue base rest := by
  have appended := digitsValue_append base [digit] rest
  rw [digitsValue_singleton] at appended
  exact appended

/-- One more digit at the end. -/
theorem digitsValue_concat (base digit : Nat) (front : List Nat) :
    digitsValue base (front ++ [digit]) = digitsValue base front * base + digit := by
  rw [digitsValue_append, digitsValue_singleton, length_singleton, Nat.pow_one]

/-- Zeros at the end multiply by the base. -/
theorem digitsValue_append_zeros (base zeros : Nat) (digits : List Nat) :
    digitsValue base (digits ++ List.replicate zeros 0) = digitsValue base digits * base ^ zeros := by
  induction zeros with
  | zero => rw [replicate_zero, append_nil, Nat.pow_zero, Nat.mul_one]
  | succ zeros ih =>
    rw [replicate_succ', ← append_assoc, digitsValue_concat, ih, Nat.pow_succ,
      Nat.add_zero, Nat.mul_assoc]

/-- Digits are below the power of the base. -/
theorem digitsValue_lt (large : 1 < base) (digits : List Nat)
    (small : ∀ digit ∈ digits, digit < base) : digitsValue base digits < base ^ digits.length := by
  rw [digitsValue_eq_ofDigits, ← length_reverse]
  exact Nat.ofDigits_lt_base_pow_length large (fun digit member =>
    small digit (mem_reverse.mp member))

/-- Leading zeros do not count. -/
theorem digitsValue_dropWhile :
    digitsValue base (digits.dropWhile (· = 0)) = digitsValue base digits := by
  induction digits with
  | nil => rfl
  | cons digit rest ih =>
    by_cases zero : digit = 0
    · rw [dropWhile_cons_of_pos (by simpa using zero), ih, zero, digitsValue_cons,
        Nat.zero_mul, Nat.zero_add]
    · rw [dropWhile_cons_of_neg (by simpa using zero)]

/-- A number has one list of digits that does not begin with a zero. -/
theorem digitsValue_injective (large : 1 < base) {first second : List Nat}
    (small1 : ∀ digit ∈ first, digit < base) (small2 : ∀ digit ∈ second, digit < base)
    (head1 : first.head? ≠ some 0) (head2 : second.head? ≠ some 0)
    (same : digitsValue base first = digitsValue base second) : first = second := by
  have digits (list : List Nat) (small : ∀ digit ∈ list, digit < base)
      (head : list.head? ≠ some 0) : Nat.digits base (digitsValue base list) = list.reverse := by
    rw [digitsValue_eq_ofDigits]
    apply Nat.digits_ofDigits base large
    · exact fun digit member => small digit (mem_reverse.mp member)
    · intro some zero
      rw [getLast_reverse] at zero
      apply head
      rw [head?_eq_some_head (by simpa using some), zero]
  have one := digits first small1 head1
  rw [same, digits second small2 head2] at one
  exact (reverse_injective one).symm

/-- A number without a last zero and its shift are unique. -/
theorem shifted_unique (large : 1 < base) {first second i j : Nat}
    (rest1 : ¬base ∣ first) (rest2 : ¬base ∣ second)
    (same : first * base ^ i = second * base ^ j) : first = second ∧ i = j := by
  have order (a b k l : Nat) (rest : ¬base ∣ a) (equal : a * base ^ k = b * base ^ l) : l ≤ k := by
    by_contra less
    apply rest
    obtain ⟨more, rfl⟩ : ∃ more, l = k + 1 + more := ⟨l - k - 1, by omega⟩
    have positive : 0 < base ^ k := Nat.pow_pos (by omega)
    rw [Nat.pow_add, Nat.pow_succ, Nat.mul_comm (base ^ k) base, Nat.mul_assoc, ← Nat.mul_assoc b,
      Nat.mul_comm (base ^ k), ← Nat.mul_assoc] at equal
    have divided := Nat.eq_of_mul_eq_mul_right positive equal
    exact ⟨b * base ^ more, by rw [divided]; ring⟩
  have exponents : i = j := Nat.le_antisymm (order second first j i rest2 same.symm)
    (order first second i j rest1 same)
  subst exponents
  exact ⟨Nat.eq_of_mul_eq_mul_right (Nat.pow_pos (by omega)) same, rfl⟩

/-- A whole number with a scale from which no zero can be taken. -/
def DecimalNormal (number : Int) (scale : Nat) : Prop := scale = 0 ∨ ¬(10 : Int) ∣ number

/-- A decimal has one normal form. -/
theorem decimal_unique {number1 number2 : Int} {scale1 scale2 : Nat}
    (normal1 : DecimalNormal number1 scale1) (normal2 : DecimalNormal number2 scale2)
    (same : (number1 : ℚ) / 10 ^ scale1 = number2 / 10 ^ scale2) :
    number1 = number2 ∧ scale1 = scale2 := by
  have order (a b : Int) (s t : Nat) (normal : DecimalNormal b t)
      (equal : (a : ℚ) / 10 ^ s = b / 10 ^ t) : t ≤ s := by
    by_contra less
    obtain ⟨more, rfl⟩ : ∃ more, t = s + 1 + more := ⟨t - s - 1, by omega⟩
    rcases normal with zero | rest
    · omega
    · apply rest
      have cleared : (b : ℚ) = a * 10 * 10 ^ more := by
        rw [div_eq_div_iff (by positivity) (by positivity), pow_add, pow_succ] at equal
        have positive : (10 : ℚ) ^ s ≠ 0 := by positivity
        apply mul_right_cancel₀ positive
        linarith
      refine ⟨a * 10 ^ more, ?_⟩
      have whole : (b : ℚ) = ((10 * (a * 10 ^ more) : Int) : ℚ) := by
        rw [cleared]
        push_cast
        ring
      exact_mod_cast whole
  have scales : scale1 = scale2 := Nat.le_antisymm (order number2 number1 scale2 scale1 normal1
    same.symm) (order number1 number2 scale1 scale2 normal2 same)
  subst scales
  have positive : (10 : ℚ) ^ scale1 ≠ 0 := by positivity
  refine ⟨?_, rfl⟩
  have numbers := mul_right_cancel₀ (inv_ne_zero positive) same
  exact_mod_cast numbers

end OpenGauss.Base
