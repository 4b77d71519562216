import OpenGauss.Base.Digits
import OpenGauss.Base.Bytes

/-!
# Decimal numbers in text

A text of decimal digits stands for a number, the highest digit first. Without a zero in front the
text is fixed by the number. The module has the writing of a number from its lowest digit up, and
that the text so written is the only one of its kind with that number; and the writing of a number
with a width, by which the text of a large number is put together from smaller ones.
-/
namespace OpenGauss.Base

open List

/-- A decimal digit. -/
def isDigit (byte : UInt8) : Bool := decide (48 ≤ byte.toNat) && decide (byte.toNat ≤ 57)

/-- The digit of a number below ten. -/
def digitByte (digit : Nat) : UInt8 := UInt8.ofNat (48 + digit)

/-- The number of a digit. -/
def digitOf (byte : UInt8) : Nat := byte.toNat - 48

/-- The number that a text of digits stands for. -/
def decimalValue (text : List UInt8) : Nat := digitsValue 10 (text.map digitOf)

/-- A text of digits with no zero in front. -/
structure Decimal (text : List UInt8) : Prop where
  digits : ∀ byte ∈ text, isDigit byte = true
  head : text.head? ≠ some 48

/-- The digits of a number from the lowest up, as many as there is room for. -/
def digitStack : Nat → Nat → List UInt8
  | 0, _ => []
  | room + 1, value => if value = 0 then [] else digitByte (value % 10) :: digitStack room (value / 10)

variable (digit : Nat) (text : List UInt8) (first second : List UInt8) (room value : Nat)

/-- A digit is read back from its byte. -/
theorem digitOf_digitByte (small : digit < 10) : digitOf (digitByte digit) = digit := by
  rw [digitOf, digitByte, UInt8.toNat_ofNat_of_lt' (by rw [UInt8.size]; omega)]
  lia

/-- A digit's byte is a digit. -/
theorem isDigit_digitByte (small : digit < 10) : isDigit (digitByte digit) = true := by
  rw [isDigit, digitByte, UInt8.toNat_ofNat_of_lt' (by rw [UInt8.size]; omega)]
  lia

/-- A digit is below ten. -/
theorem digitOf_lt {byte : UInt8} (digit : isDigit byte = true) : digitOf byte < 10 := by
  rw [isDigit, Bool.and_eq_true, decide_eq_true_eq, decide_eq_true_eq] at digit
  rw [digitOf]
  omega

/-- Digits with the same value are the same byte. -/
theorem digitOf_injective (first second : UInt8) (digit1 : isDigit first = true)
    (digit2 : isDigit second = true) (same : digitOf first = digitOf second) : first = second := by
  rw [isDigit] at digit1 digit2
  rw [digitOf, digitOf] at same
  exact UInt8.toNat_inj.mp (by grind)

/-- Texts with the same digits are the same. -/
theorem map_digitOf_injective
    (digits1 : ∀ byte ∈ first, isDigit byte = true) (digits2 : ∀ byte ∈ second, isDigit byte = true)
    (same : first.map digitOf = second.map digitOf) : first = second := by
  induction first generalizing second with
  | nil => exact (map_eq_nil_iff.mp same.symm).symm
  | cons byte rest ih =>
    cases second with
    | nil => simp at same
    | cons other others =>
      rw [map_cons, map_cons, List.cons.injEq] at same
      rw [digitOf_injective byte other (digits1 byte mem_cons_self)
          (digits2 other mem_cons_self) same.1,
        ih others (fun byte member => digits1 byte (mem_cons_of_mem _ member))
          (fun byte member => digits2 byte (mem_cons_of_mem _ member)) same.2]

/-- A decimal has no leading zero. -/
theorem Decimal.head_digit (decimal : Decimal text) : (text.map digitOf).head? ≠ some 0 := by
  cases text with
  | nil => simp
  | cons byte rest =>
    intro zero
    rw [map_cons, head?_cons, Option.some.injEq] at zero
    have digit := decimal.digits byte mem_cons_self
    apply decimal.head
    rw [head?_cons, digitOf_injective byte 48 digit rfl (by rw [zero]; rfl)]

/-- Decimals with the same value are the same. -/
theorem decimalValue_injective (decimal1 : Decimal first)
    (decimal2 : Decimal second) (same : decimalValue first = decimalValue second) :
    first = second := by
  have small (text : List UInt8) (decimal : Decimal text) : ∀ digit ∈ text.map digitOf, digit < 10 := by
    intro digit member
    obtain ⟨byte, inside, rfl⟩ := mem_map.mp member
    exact digitOf_lt (decimal.digits byte inside)
  apply map_digitOf_injective first second decimal1.digits decimal2.digits
  exact digitsValue_injective 10 (by decide) (small first decimal1) (small second decimal2)
    (decimal1.head_digit first) (decimal2.head_digit second) same

/-- A text of digits is below the power of ten of its length. -/
theorem decimalValue_lt (digits : ∀ byte ∈ text, isDigit byte = true) :
    decimalValue text < 10 ^ text.length := by
  have below := digitsValue_lt 10 (by decide) (text.map digitOf) (by
    intro digit member
    obtain ⟨byte, inside, rfl⟩ := mem_map.mp member
    exact digitOf_lt (digits byte inside))
  rw [length_map] at below
  exact below

/-- The stack holds digits only. -/
theorem digitStack_digits : ∀ byte ∈ digitStack room value, isDigit byte = true := by
  induction room generalizing value with
  | zero => simp [digitStack]
  | succ room ih =>
    rw [digitStack]
    split
    · simp
    · intro byte member
      obtain same | later := mem_cons.mp member
      · rw [same]
        exact isDigit_digitByte _ (Nat.mod_lt _ (by decide))
      · exact ih _ byte later

/-- The digits of a value have that value. -/
theorem decimalValue_digitStack (fits : value < 10 ^ room) :
    decimalValue (digitStack room value).reverse = value := by
  induction room generalizing value with
  | zero =>
    rw [Nat.pow_zero, Nat.lt_one_iff] at fits
    rw [fits]
    rfl
  | succ room ih =>
    rw [digitStack]
    split
    · rename_i zero
      rw [zero]
      rfl
    · have above := ih (value / 10) (by rw [Nat.pow_succ] at fits; omega)
      rw [decimalValue] at above ⊢
      rw [reverse_cons, map_append, map_singleton, digitsValue_concat,
        digitOf_digitByte _ (Nat.mod_lt _ (by decide))]
      lia

/-- The digits do not begin with a zero. -/
theorem digitStack_head (fits : value < 10 ^ room) :
    (digitStack room value).reverse.head? ≠ some 48 := by
  induction room generalizing value with
  | zero => simp [digitStack]
  | succ room ih =>
    rw [digitStack]
    split
    · simp
    · have above := ih (value / 10) (by rw [Nat.pow_succ] at fits; omega)
      rw [reverse_cons]
      rcases Nat.eq_zero_or_pos (value / 10) with last | more
      · have bare : digitStack room (value / 10) = [] := by
          rw [last]
          cases room <;> rfl
        rw [bare]
        intro zero
        have digit := digitOf_digitByte (value % 10) (Nat.mod_lt _ (by decide))
        rw [reverse_nil, nil_append, head?_cons] at zero
        have nought : digitOf 48 = 0 := rfl
        lia
      · have filled : (digitStack room (value / 10)).reverse ≠ [] := by
          cases room with
          | zero =>
            omega
          | succ room =>
            rw [digitStack, if_neg (by omega)]
            simp
        rw [head?_append_of_ne_nil _ filled]
        exact above

/-- With enough room the stack is a decimal. -/
theorem digitStack_decimal (fits : value < 10 ^ room) :
    Decimal (digitStack room value).reverse where
  digits := fun byte member => digitStack_digits room value byte (mem_reverse.mp member)
  head := digitStack_head room value fits

/-- Writing the value of a decimal gives the decimal back. -/
theorem digitStack_decimalValue (room : Nat) (text : List UInt8) (decimal : Decimal text)
    (fits : text.length ≤ room) : (digitStack room (decimalValue text)).reverse = text := by
  have below : decimalValue text < 10 ^ room :=
    lt_of_lt_of_le (decimalValue_lt text decimal.digits) (Nat.pow_le_pow_right (by decide) fits)
  exact decimalValue_injective _ _ (digitStack_decimal room _ below) decimal
    (decimalValue_digitStack room _ below)

/-- A text of digits with some length that stands for a number. -/
structure FixedText (width value : Nat) (text : List UInt8) : Prop where
  digits : ∀ byte ∈ text, isDigit byte = true
  length : text.length = width
  value : decimalValue text = value

/-- The text of a number: its decimal digits, and one zero for zero. -/
structure PlainText (value : Nat) (text : List UInt8) : Prop where
  digits : ∀ byte ∈ text, isDigit byte = true
  filled : text ≠ []
  head : text = [48] ∨ text.head? ≠ some 48
  value : decimalValue text = value

/-- The digits of a number, with one zero for zero. -/
def decimalText (value : Nat) : List UInt8 :=
  if value = 0 then [48] else (Nat.digits 10 value).reverse.map digitByte

/-- The digits of a number, filled up with zeros to some width. -/
def paddedText (width value : Nat) : List UInt8 :=
  List.replicate (width - (decimalText value).length) 48 ++ decimalText value

/-- The value of two texts in a row. -/
theorem decimalValue_append : decimalValue (first ++ second) =
      decimalValue first * 10 ^ second.length + decimalValue second := by
  rw [decimalValue, map_append, digitsValue_append, length_map]
  rfl

/-- The text of a value is plain. -/
theorem decimalText_plain : PlainText value (decimalText value) := by
  rw [decimalText]
  split
  · rename_i zero
    exact ⟨by simp [isDigit], by decide, .inl rfl, by rw [zero]; rfl⟩
  · rename_i nonzero
    have small : ∀ digit ∈ (Nat.digits 10 value).reverse, digit < 10 := fun digit member =>
      Nat.digits_lt_base (by decide) (mem_reverse.mp member)
    have back : ((Nat.digits 10 value).reverse.map digitByte).map digitOf =
        (Nat.digits 10 value).reverse := by
      rw [map_map]
      exact (map_congr_left fun digit member => digitOf_digitByte digit (small digit member)).trans
        (map_id _)
    have filled : Nat.digits 10 value ≠ [] := Nat.digits_ne_nil_iff_ne_zero.mpr nonzero
    refine ⟨?_, by simpa using filled, .inr ?_, ?_⟩
    · intro byte member
      obtain ⟨digit, inside, rfl⟩ := mem_map.mp member
      exact isDigit_digitByte digit (small digit inside)
    · rw [head?_map, head?_reverse, getLast?_eq_some_getLast filled]
      intro zero
      have digit := digitOf_digitByte _ (small _ (mem_reverse.mpr (getLast_mem filled)))
      rw [Option.some.inj zero] at digit
      exact Nat.getLast_digit_ne_zero 10 nonzero digit.symm
    · rw [decimalValue, back, digitsValue_eq_ofDigits, reverse_reverse, Nat.ofDigits_digits]

/-- A value below a power of ten has a short text. -/
theorem PlainText.length_le (plain : PlainText value text) (positive : 0 < room)
    (fits : value < 10 ^ room) : text.length ≤ room := by
  rcases plain.head with rfl | head
  · exact positive
  · obtain ⟨byte, rest, rfl⟩ := exists_cons_of_ne_nil plain.filled
    have digit := digitOf_injective byte 48 (plain.digits byte mem_cons_self) rfl
    have value := decimalValue_append [byte] rest
    have one : decimalValue [byte] = digitOf byte := digitsValue_singleton 10 _
    rw [singleton_append, plain.value, one] at value
    by_contra long
    have above : 10 ^ room ≤ 10 ^ rest.length :=
      Nat.pow_le_pow_right (by decide) (by rw [length_cons] at long; omega)
    have nonzero : digitOf byte ≠ 0 := fun zero => head (by rw [digit zero]; rfl)
    have least := Nat.le_mul_of_pos_left (10 ^ rest.length) (Nat.pos_of_ne_zero nonzero)
    omega

/-- A padded text has its width. -/
theorem paddedText_fixed (width : Nat) (positive : 0 < width) (fits : value < 10 ^ width) :
    FixedText width value (paddedText width value) := by
  have plain := decimalText_plain value
  have short := plain.length_le _ width value positive fits
  refine ⟨?_, ?_, ?_⟩
  · intro byte member
    rcases mem_append.mp member with zero | digit
    · rw [(mem_replicate.mp zero).2]
      rfl
    · exact plain.digits byte digit
  · rw [paddedText, length_append, length_replicate]
    omega
  · have zeros (count : Nat) : decimalValue (List.replicate count 48) = 0 := by
      induction count with
      | zero => rfl
      | succ count ih =>
        rw [replicate_succ', decimalValue_append, ih]
        rfl
    rw [paddedText, decimalValue_append, zeros, Nat.zero_mul, Nat.zero_add, plain.value]

/-- Texts of fixed width in a row. -/
theorem FixedText.append {width1 width2 value1 value2 : Nat} (front : FixedText width1 value1 first)
    (behind : FixedText width2 value2 second) :
    FixedText (width1 + width2) (value1 * 10 ^ width2 + value2) (first ++ second) where
  digits := fun byte member => (mem_append.mp member).elim (front.digits byte) (behind.digits byte)
  length := by rw [length_append, front.length, behind.length]
  value := by rw [decimalValue_append, front.value, behind.value, behind.length]

/-- A plain text goes on with one of fixed width. -/
theorem PlainText.append {width value1 value2 : Nat} (front : PlainText value1 first)
    (positive : 0 < value1) (behind : FixedText width value2 second) :
    PlainText (value1 * 10 ^ width + value2) (first ++ second) where
  digits := fun byte member => (mem_append.mp member).elim (front.digits byte) (behind.digits byte)
  filled := append_ne_nil_of_left_ne_nil front.filled _
  head := by
    rcases front.head with rfl | head
    · exact absurd front.value (by rw [show decimalValue [48] = 0 from rfl]; omega)
    · exact .inr (by rw [head?_append_of_ne_nil _ front.filled]; exact head)
  value := by rw [decimalValue_append, front.value, behind.value, behind.length]

end OpenGauss.Base
