import OpenGauss.Numerics.Lossless

/-!
# Hash values of numerics

Hash joins and aggregates meet one number in several forms: of 64 or 128 bits with a scale, or as an
ordinary numeric with any decimals to display. The hash value is computed from the number without
zeros at the end of its decimals. An ordinary numeric is brought to that form first, with checks at
each step that 128 bits are enough; if they are not, no fast numeric has this number, and the hash
value of ordinary numerics is used.
-/
namespace OpenGauss.Numerics

open Option List OpenGauss.Base

/-- Take zeros from the end of the decimals. -/
def omitTrailingZeros : Int → Nat → Int × Nat
  | num, 0 => (num, 0)
  | num, scale + 1 =>
    if num.tmod 10 = 0 then omitTrailingZeros (num.tdiv 10) scale else (num, scale + 1)

/-- Mix a number of 64 bits with its scale. -/
def mixInt64 (hashUint32 : Nat → Nat) (num : Int) (scale : Nat) : Nat :=
  let lohalf := (num % 2 ^ 32).toNat
  let hihalf := (num % 2 ^ 64 / 2 ^ 32).toNat
  let folded := lohalf ^^^ (if 0 ≤ num then hihalf else 2 ^ 32 - 1 - hihalf)
  hashUint32 folded ^^^ scale % 2 ^ 32

/-- Mix a number of 128 bits with its scale. -/
def mixInt128 (hashUint32 : Nat → Nat) (num : Int) (scale : Nat) : Nat :=
  let lohalf64 := (num % 2 ^ 64).toNat
  let hihalf64 := (num % 2 ^ 128 / 2 ^ 64).toNat
  let folded64 := lohalf64 ^^^ (if 0 ≤ num then hihalf64 else 2 ^ 64 - 1 - hihalf64)
  let lohalf32 := folded64 % 2 ^ 32
  let hihalf32 := folded64 / 2 ^ 32
  let folded32 := lohalf32 ^^^ (if 0 ≤ num then hihalf32 else 2 ^ 32 - 1 - hihalf32)
  hashUint32 folded32 ^^^ scale % 2 ^ 32

/-- The hash value of a number of 64 bits. -/
def int64HashBi (hashUint32 : Nat → Nat) (num : Int) (scale : Nat) : Nat :=
  if num = 0 then hashUint32 0 ^^^ 0
  else
    let normalized := omitTrailingZeros num scale
    mixInt64 hashUint32 normalized.1 normalized.2

/-- The hash value of a number of 128 bits. -/
def int128HashBi (hashUint32 : Nat → Nat) (num : Int) (scale : Nat) : Nat :=
  if num = 0 then hashUint32 0 ^^^ 0
  else
    let normalized := omitTrailingZeros num scale
    if InInt64 normalized.1 then int64HashBi hashUint32 normalized.1 normalized.2
    else mixInt128 hashUint32 normalized.1 normalized.2

/-- Add up the digits in front of the decimal point, from a weight on. There is no sum if 128 bits are
not enough, and no result for an index outside of the table. -/
def sumPreDigits (factor : Int) : Int → Int → List Nat → Option (Option Int)
  | _, data, [] => some (some data)
  | weight, data, digit :: rest =>
    (getScaleMultiplier (weight * 4)).bind fun multiplier =>
      let mulTmpData := factor * digit * multiplier
      if InInt128 mulTmpData then
        if InInt128 (data + mulTmpData) then sumPreDigits factor (weight - 1) (data + mulTmpData) rest
        else some none
      else some none

/-- Append digits to a number. There is no number if 128 bits are not enough. -/
def appendDigits (factor : Int) : Int → List (Nat × Nat) → Option Int
  | data, [] => some data
  | data, (digit, base) :: rest =>
    let mulTmpData := data * base
    if InInt128 mulTmpData then
      if InInt128 (digit * factor + mulTmpData) then
        appendDigits factor (digit * factor + mulTmpData) rest
      else none
    else none

/-- The last digit without the zeros at its end: what is left, its base and the number of zeros. -/
def cutLastDigit (digit : Nat) : Nat × Nat × Nat :=
  if digit % 1000 = 0 then (digit / 1000, 10000 / 1000, 3)
  else if digit % 100 = 0 then (digit / 100, 10000 / 100, 2)
  else if digit % 10 = 0 then (digit / 10, 10000 / 10, 1)
  else (digit, 10000, 0)

/-- The hash value of ordinary numerics: that of the digits without zeros in front and behind, mixed
with the weight (`hash_numeric`). -/
def hashNumeric (hashAny : List Nat → Nat) (key : NumericVar) : Nat :=
  let startOffset := (key.digits.takeWhile (· = 0)).length
  let weight := key.weight - startOffset
  if key.digits.length = startOffset then 2 ^ 32 - 1
  else hashAny (trimEnd (key.digits.drop startOffset)) ^^^ (weight % 2 ^ 32).toNat

/-- The hash value of a numeric in the ordinary form. -/
def numericHashBi (hashUint32 : Nat → Nat) (hashAny : List Nat → Nat) (num : NumericVar) :
    Option Nat :=
  match num.digits.getLast? with
  | none => some (hashUint32 0 ^^^ 0)
  | some finalDigit =>
    let ndigits := num.digits.length
    let weight := num.weight
    let factor := num.sign.factor
    if 10 ≤ weight then some (hashNumeric hashAny num)
    -- The number has 128 bits with its decimals.
    else if (0 ≤ weight ∧ weight * 4 + 4 + num.dscale ≤ 38) ∨ (weight < 0 ∧ num.dscale ≤ 38) then
      (convertShortNumericToInt128Byscale num num.dscale).map (int128HashBi hashUint32 · num.dscale)
    -- The number is whole.
    else if 0 ≤ weight ∧ ndigits ≤ weight + 1 then
      (sumPreDigits factor weight 0 num.digits).map fun sum =>
        match sum with
        | some data => int128HashBi hashUint32 data 0
        | none => hashNumeric hashAny num
    else
      let (lastDigit, lastBase, zeros) := cutLastDigit finalDigit
      let dscale := (ndigits - weight - 1) * 4 - zeros
      let front := num.digits.dropLast.map fun digit => (digit, 10000)
      match appendDigits factor 0 (front ++ [(lastDigit, lastBase)]) with
      | some data => some (int128HashBi hashUint32 data dscale.toNat)
      | none => some (hashNumeric hashAny num)

/-- The hash value of a numeric in any form. -/
def hashBi (hashUint32 : Nat → Nat) (hashAny : List Nat → Nat) : Numeric → Option Nat
  | .bi64 keyValue keyScale => some (int64HashBi hashUint32 keyValue keyScale)
  | .bi128 keyValue keyScale => some (int128HashBi hashUint32 keyValue keyScale)
  | .normal key => numericHashBi hashUint32 hashAny key
  | .nan => some 0

/-- The hash value of a key of a hash table, which is computed the same way. -/
def hashBiKey (hashUint32 : Nat → Nat) (hashAny : List Nat → Nat) : Numeric → Option Nat
  | .bi64 keyValue keyScale => some (int64HashBi hashUint32 keyValue keyScale)
  | .bi128 keyValue keyScale => some (int128HashBi hashUint32 keyValue keyScale)
  | .normal key => numericHashBi hashUint32 hashAny key
  | .nan => some 0

/-- What taking zeros from the decimals gives. -/
structure Normalized (num : Int) (scale : Nat) (normalized : Int × Nat) : Prop where
  normal : DecimalNormal normalized.1 normalized.2
  value : (normalized.1 : ℚ) / 10 ^ normalized.2 = num / 10 ^ scale
  between : (0 ≤ normalized.1 ∧ normalized.1 ≤ num) ∨ (num ≤ normalized.1 ∧ normalized.1 ≤ 0)

variable (sign : Sign) (value : Nat) (pairs : List (Nat × Nat)) (hashUint32 : Nat → Nat) (num : Int)
  (scale : Nat) (hashAny : List Nat → Nat) (var : NumericVar)

/-- The zeros at the end are omitted. -/
theorem omitTrailingZeros_spec : Normalized num scale (omitTrailingZeros num scale) := by
  induction scale generalizing num with
  | zero => exact ⟨.inl rfl, rfl, by dsimp only [omitTrailingZeros]; omega⟩
  | succ scale ih =>
    rw [omitTrailingZeros]
    by_cases zero : num.tmod 10 = 0
    · rw [if_pos zero]
      have spec := ih (num.tdiv 10)
      obtain ⟨quotient, isQuotient⟩ : (10 : Int) ∣ num := Int.dvd_of_tmod_eq_zero zero
      have divided : num.tdiv 10 = quotient := by
        rw [isQuotient]
        exact Int.mul_tdiv_cancel_left _ (by decide)
      rw [divided] at spec ⊢
      refine ⟨spec.normal, ?_, ?_⟩
      · rw [spec.value, isQuotient, pow_succ]
        push_cast
        field_simp
      · have between := spec.between
        omega
    · rw [if_neg zero]
      refine ⟨.inr ?_, rfl, by dsimp only; omega⟩
      intro divides
      exact zero (Int.tmod_eq_zero_of_dvd divides)

theorem omitTrailingZeros_of_normal (normal : DecimalNormal num scale) :
    omitTrailingZeros num scale = (num, scale) := by
  cases scale with
  | zero => rfl
  | succ scale =>
    rcases normal with zero | rest
    · exact absurd zero (Nat.succ_ne_zero _)
    · rw [omitTrailingZeros, if_neg]
      intro zero
      exact rest (Int.dvd_of_tmod_eq_zero zero)

theorem Normalized.inInt128 {normalized : Int × Nat}
    (spec : Normalized num scale normalized) (fits : InInt128 num) : InInt128 normalized.1 := by
  have between := spec.between
  obtain ⟨least, most⟩ := fits
  exact ⟨by omega, by omega⟩

theorem omitTrailingZeros_eq (num1 num2 : Int) (scale1 scale2 : Nat)
    (same : (num1 : ℚ) / 10 ^ scale1 = num2 / 10 ^ scale2) :
    omitTrailingZeros num1 scale1 = omitTrailingZeros num2 scale2 := by
  have spec1 := omitTrailingZeros_spec num1 scale1
  have spec2 := omitTrailingZeros_spec num2 scale2
  have values := (spec1.value.trans same).trans spec2.value.symm
  obtain ⟨numbers, scales⟩ := decimal_unique spec1.normal spec2.normal values
  exact Prod.ext numbers scales

theorem omitTrailingZeros_zero : omitTrailingZeros 0 scale = (0, 0) := by
  have same := omitTrailingZeros_eq 0 0 scale 0 (by rw [Int.cast_zero, zero_div, zero_div])
  exact same

/-- The hash value of a number without zeros at the end of its decimals. -/
def normalHash (hashUint32 : Nat → Nat) (normalized : Int × Nat) : Nat :=
  if InInt64 normalized.1 then mixInt64 hashUint32 normalized.1 normalized.2
  else mixInt128 hashUint32 normalized.1 normalized.2

theorem normalHash_zero : normalHash hashUint32 (0, 0) = hashUint32 0 ^^^ 0 := by
  rfl

theorem int64HashBi_eq (fits : InInt64 num) :
    int64HashBi hashUint32 num scale = normalHash hashUint32 (omitTrailingZeros num scale) := by
  rw [int64HashBi]
  by_cases zero : num = 0
  · rw [if_pos zero, zero, omitTrailingZeros_zero, normalHash_zero]
  · have between := (omitTrailingZeros_spec num scale).between
    have short : InInt64 (omitTrailingZeros num scale).1 := by
      obtain ⟨least, most⟩ := fits
      exact ⟨by omega, by omega⟩
    rw [if_neg zero, normalHash, if_pos short]

theorem int128HashBi_eq :
    int128HashBi hashUint32 num scale = normalHash hashUint32 (omitTrailingZeros num scale) := by
  rw [int128HashBi]
  by_cases zero : num = 0
  · rw [if_pos zero, zero, omitTrailingZeros_zero, normalHash_zero]
  · have spec := omitTrailingZeros_spec num scale
    rw [if_neg zero]
    by_cases short : InInt64 (omitTrailingZeros num scale).1
    · rw [if_pos short, int64HashBi_eq _ _ _ short, omitTrailingZeros_of_normal _ _ spec.normal]
    · rw [if_neg short, normalHash, if_neg short]

/-- A number that 128 bits hold with some decimals. -/
def Representable (number : ℚ) : Prop :=
  ∃ (data : Int) (scale : Nat), InInt128 data ∧ number = data / 10 ^ scale

theorem not_representable (normal : DecimalNormal num scale)
    (large : ¬InInt128 num) : ¬Representable (num / 10 ^ scale) := by
  rintro ⟨data, decimals, fits, same⟩
  apply large
  have equal := omitTrailingZeros_eq num data scale decimals same
  rw [omitTrailingZeros_of_normal num scale normal] at equal
  have within := Normalized.inInt128 data decimals (omitTrailingZeros_spec data decimals) fits
  rw [← equal] at within
  exact within

/-- What the hash value of a numeric is: that of a number of 128 bits, or that of ordinary numerics
if these are not enough. -/
def HashOf (hashUint32 : Nat → Nat) (hashAny : List Nat → Nat) (number : ℚ)
    (hash : Nat) : Prop :=
  (∃ (data : Int) (scale : Nat), InInt128 data ∧ number = data / 10 ^ scale ∧
      hash = int128HashBi hashUint32 data scale) ∨
    (¬Representable number ∧ ∃ var : NumericVar, var.Canonical ∧ var.value = number ∧
      hash = hashNumeric hashAny var)

theorem hashNumeric_eq {var1 var2 : NumericVar}
    (canonical1 : var1.Canonical) (canonical2 : var2.Canonical) (values : var1.value = var2.value) :
    hashNumeric hashAny var1 = hashNumeric hashAny var2 := by
  obtain ⟨-, weights, digits⟩ := NumericVar.Canonical.parts_eq var1 var2 canonical1 canonical2 values
  rw [hashNumeric, hashNumeric, weights, digits]

theorem HashOf.unique {number : ℚ}
    {hash1 hash2 : Nat} (is1 : HashOf hashUint32 hashAny number hash1)
    (is2 : HashOf hashUint32 hashAny number hash2) : hash1 = hash2 := by
  rcases is1 with ⟨data1, scale1, fits1, value1, rfl⟩ | ⟨large1, var1, canonical1, value1, rfl⟩
  · rcases is2 with ⟨data2, scale2, fits2, value2, rfl⟩ | ⟨large2, -⟩
    · rw [int128HashBi_eq, int128HashBi_eq,
        omitTrailingZeros_eq data1 data2 scale1 scale2 (value1.symm.trans value2)]
    · exact absurd ⟨data1, scale1, fits1, value1⟩ large2
  · rcases is2 with ⟨data2, scale2, fits2, value2, rfl⟩ | ⟨-, var2, canonical2, value2, rfl⟩
    · exact absurd ⟨data2, scale2, fits2, value2⟩ large1
    · exact hashNumeric_eq hashAny canonical1 canonical2 (value1.trans value2.symm)

theorem signed_inInt128_of_le (small : Nat) {large : Nat} (order : small ≤ large)
    (fits : InInt128 (sign.factor * large)) : InInt128 (sign.factor * small) := by
  obtain ⟨least, most⟩ := fits
  rcases sign.factor_cases with one | one <;> rw [one] at least most ⊢ <;> exact ⟨by omega, by omega⟩

/-- The digits in front of the point are summed, while they fit. -/
theorem sumPreDigits_spec (weight : Int) (sum total : Nat) (digits : List Nat)
    (whole : (digits.length : Int) ≤ weight + 1) (small : weight ≤ 9)
    (fits : InInt128 (sign.factor * sum)) (isTotal : total = sum + digitsValue 10000 digits *
      10000 ^ (weight + 1 - digits.length).toNat) :
    sumPreDigits sign.factor weight (sign.factor * sum) digits =
      some (if InInt128 (sign.factor * total) then some (sign.factor * total) else none) := by
  induction digits generalizing weight sum with
  | nil =>
    have same : total = sum := by
      rw [isTotal, show digitsValue 10000 [] = 0 from rfl, Nat.zero_mul, Nat.add_zero]
    rw [sumPreDigits, same, if_pos fits]
  | cons digit rest ih =>
    rw [length_cons] at whole isTotal
    obtain ⟨place, rfl⟩ : ∃ place : Nat, weight = place := ⟨weight.toNat, by lia⟩
    have table := getScaleMultiplier_of_le (place * 4) (by omega)
    have power : (10 : Int) ^ (place * 4) = ((10000 ^ place : Nat) : Int) := by
      rw [Nat.mul_comm, pow_mul]
      norm_num
    have product : sign.factor * (digit : Int) * 10 ^ (place * 4) =
        sign.factor * ((digit * 10000 ^ place : Nat) : Int) := by
      rw [power, Nat.cast_mul, mul_assoc]
    have added : sign.factor * (sum : Int) + sign.factor * ((digit * 10000 ^ place : Nat) : Int) =
        sign.factor * ((sum + digit * 10000 ^ place : Nat) : Int) := by
      rw [Nat.cast_add, mul_add]
    have split : total = sum + digit * 10000 ^ place + digitsValue 10000 rest *
        10000 ^ ((place : Int) - 1 + 1 - rest.length).toNat := by
      have exponent : ((place : Int) + 1 - (rest.length + 1 : Nat)).toNat = place - rest.length := by
        lia
      have shifted : ((place : Int) - 1 + 1 - rest.length).toNat = place - rest.length := by lia
      have powers : 10000 ^ place = 10000 ^ rest.length * 10000 ^ (place - rest.length) := by
        rw [← Nat.pow_add, Nat.add_sub_cancel' (by omega)]
      rw [isTotal, digitsValue_cons, exponent, shifted, powers]
      ring
    push_cast at table
    rw [sumPreDigits, table, bind_some]
    dsimp only
    rw [product, added]
    by_cases wide : InInt128 (sign.factor * total)
    · have term := signed_inInt128_of_le sign (digit * 10000 ^ place) (by omega) wide
      have partialSum := signed_inInt128_of_le sign (sum + digit * 10000 ^ place) (by omega) wide
      rw [if_pos term, if_pos partialSum, ih _ _ (by lia) (by omega) partialSum split]
    · by_cases term : InInt128 (sign.factor * ((digit * 10000 ^ place : Nat) : Int))
      · rw [if_pos term]
        by_cases partialSum : InInt128 (sign.factor * ((sum + digit * 10000 ^ place : Nat) : Int))
        · rw [if_pos partialSum, ih _ _ (by lia) (by omega) partialSum split]
        · rw [if_neg partialSum, if_neg wide]
      · rw [if_neg term, if_neg wide]

/-- The number of digits with a base for each. -/
def mixedValue (value : Nat) (pairs : List (Nat × Nat)) : Nat :=
  pairs.foldl (fun value pair => value * pair.2 + pair.1) value

theorem le_mixedValue (bases : ∀ pair ∈ pairs, 1 ≤ pair.2) : value ≤ mixedValue value pairs := by
  induction pairs generalizing value with
  | nil => exact le_rfl
  | cons pair rest ih =>
    have base := bases pair mem_cons_self
    calc value = value * 1 := (Nat.mul_one _).symm
      _ ≤ value * pair.2 := Nat.mul_le_mul_left _ base
      _ ≤ value * pair.2 + pair.1 := Nat.le_add_right _ _
      _ ≤ _ := ih _ (fun other member => bases other (mem_cons_of_mem _ member))

/-- More digits are appended, while they fit. -/
theorem appendDigits_spec
    (bases : ∀ pair ∈ pairs, 1 ≤ pair.2) (fits : InInt128 (sign.factor * value)) :
    appendDigits sign.factor (sign.factor * value) pairs =
      if InInt128 (sign.factor * mixedValue value pairs) then
        some (sign.factor * mixedValue value pairs) else none := by
  induction pairs generalizing value with
  | nil =>
    exact (if_pos fits).symm
  | cons pair rest ih =>
    obtain ⟨digit, base⟩ := pair
    have others : ∀ other ∈ rest, 1 ≤ other.2 :=
      fun other member => bases other (mem_cons_of_mem _ member)
    have step : mixedValue value ((digit, base) :: rest) = mixedValue (value * base + digit) rest := rfl
    have larger := le_mixedValue (value * base + digit) rest others
    have product : sign.factor * (value : Int) * base =
        sign.factor * ((value * base : Nat) : Int) := by
      rw [Nat.cast_mul, mul_assoc]
    have added : (digit : Int) * sign.factor + sign.factor * ((value * base : Nat) : Int) =
        sign.factor * ((value * base + digit : Nat) : Int) := by
      rw [Nat.cast_add, mul_add, mul_comm (digit : Int), add_comm]
    rw [appendDigits, step]
    rw [product, added]
    by_cases wide : InInt128 (sign.factor * mixedValue (value * base + digit) rest)
    · have term := signed_inInt128_of_le sign (value * base) (by omega) wide
      have appended := signed_inInt128_of_le sign (value * base + digit) larger wide
      rw [if_pos term, if_pos appended, ih _ others appended]
    · by_cases term : InInt128 (sign.factor * ((value * base : Nat) : Int))
      · rw [if_pos term]
        by_cases appended : InInt128 (sign.factor * ((value * base + digit : Nat) : Int))
        · rw [if_pos appended, ih _ others appended]
        · rw [if_neg appended, if_neg wide]
      · rw [if_neg term, if_neg wide]

theorem cutLastDigit_spec (digit : Nat) (nonzero : digit ≠ 0) (small : digit < 10000) :
    digit = (cutLastDigit digit).1 * 10 ^ (cutLastDigit digit).2.2 ∧
      (cutLastDigit digit).2.1 * 10 ^ (cutLastDigit digit).2.2 = 10000 ∧
      ¬10 ∣ (cutLastDigit digit).1 ∧ 10 ∣ (cutLastDigit digit).2.1 ∧
      1 ≤ (cutLastDigit digit).2.1 ∧ (cutLastDigit digit).2.2 ≤ 3 := by
  rw [cutLastDigit]
  split
  · refine ⟨?_, ?_, ?_, ?_, ?_, ?_⟩ <;> dsimp only <;> omega
  · split
    · refine ⟨?_, ?_, ?_, ?_, ?_, ?_⟩ <;> dsimp only <;> omega
    · split
      · refine ⟨?_, ?_, ?_, ?_, ?_, ?_⟩ <;> dsimp only <;> omega
      · refine ⟨?_, ?_, ?_, ?_, ?_, ?_⟩ <;> dsimp only <;> omega

/-- The whole scale is bounded by the weight. -/
theorem getWholeScale_le (nonempty : var.digits ≠ []) :
    (0 ≤ var.weight → getWholeScale var ≤ var.weight * 4 + 4 + var.dscale) ∧
      (var.weight < 0 → getWholeScale var = var.dscale) := by
  obtain ⟨first, rest, digits⟩ := exists_cons_of_ne_nil nonempty
  rw [getWholeScale, digits]
  dsimp only
  constructor
  · intro whole
    have count : (if 1000 ≤ first then 4 else if 100 ≤ first then 3
        else if 10 ≤ first then 2 else 1) ≤ (4 : Int) := by
      split
      · decide
      · split
        · decide
        · split <;> decide
    rw [if_pos whole]
    lia
  · intro fraction
    rw [if_neg (by omega)]

/-- A number of large weight is no fast one. -/
theorem not_representable_of_weight (canonical : var.Canonical)
    (nonempty : var.digits ≠ []) (large : 10 ≤ var.weight) : ¬Representable var.value := by
  rintro ⟨data, scale, ⟨least, most⟩, value⟩
  have digits := digitsValue_ge var.digits canonical.head nonempty
  have some := length_pos_of_ne_nil nonempty
  have size : |var.value| = digitsValue 10000 var.digits *
      (10000 : ℚ) ^ (var.weight + 1 - var.digits.length) := by
    have positive : (0 : ℚ) ≤ digitsValue 10000 var.digits *
        (10000 : ℚ) ^ (var.weight + 1 - var.digits.length) := by positivity
    have sign : |(var.sign.factor : ℚ)| = 1 := by
      rcases var.sign.factor_cases with one | one <;> rw [one] <;> norm_num
    rw [NumericVar.value, mul_assoc, abs_mul, sign, one_mul, abs_of_nonneg positive]
  have above : (10000 : ℚ) ^ (10 : Int) ≤ |var.value| := by
    have cast : (10000 : ℚ) ^ (var.digits.length - 1) ≤ digitsValue 10000 var.digits := by
      exact_mod_cast digits
    calc (10000 : ℚ) ^ (10 : Int) ≤ (10000 : ℚ) ^ var.weight :=
          zpow_le_zpow_right₀ (by norm_num) large
      _ = (10000 : ℚ) ^ (var.digits.length - 1) *
            (10000 : ℚ) ^ (var.weight + 1 - var.digits.length) := by
        rw [← zpow_natCast, ← zpow_add₀ (by norm_num)]
        congr 1
        lia
      _ ≤ digitsValue 10000 var.digits * (10000 : ℚ) ^ (var.weight + 1 - var.digits.length) := by
        gcongr
      _ = |var.value| := size.symm
  have below : |var.value| ≤ 2 ^ 127 := by
    have whole : |(data : ℚ)| ≤ 2 ^ 127 := by
      rw [abs_le]
      constructor
      · exact_mod_cast least
      · exact_mod_cast most.le
    have power : (1 : ℚ) ≤ 10 ^ scale := one_le_pow₀ (by norm_num)
    rw [value, abs_div, abs_of_nonneg (by positivity : (0 : ℚ) ≤ 10 ^ scale)]
    exact (div_le_self (abs_nonneg _) power).trans whole
  have absurdity : (10000 : ℚ) ^ (10 : Int) ≤ 2 ^ 127 := above.trans below
  norm_num at absurdity

theorem numericHashBi_converted (canonical : var.Canonical) (nonempty : var.digits ≠ [])
    (few : getWholeScale var ≤ 38) : ∃ hash, (convertShortNumericToInt128Byscale var var.dscale).map
        (int128HashBi hashUint32 · var.dscale) = some hash ∧
      HashOf hashUint32 hashAny var.value hash := by
  obtain ⟨size, unpointed⟩ := NumericVar.Canonical.unpointed var canonical nonempty
  have less := Unpointed.size_lt var _ size 38 unpointed few
  obtain ⟨above, below⟩ := signed_bounds var.sign size (10 ^ 38) less
  rw [convertShortNumericToInt128Byscale_spec var canonical nonempty unpointed less]
  exact ⟨_, rfl, .inl ⟨var.sign.factor * size, var.dscale, ⟨by lia, by omega⟩, unpointed.value,
    rfl⟩⟩

/-- The hash of a whole number. -/
theorem numericHashBi_whole (hashUint32 : Nat → Nat) (hashAny : List Nat → Nat)
    (var : NumericVar) (canonical : var.Canonical) (small : var.weight ≤ 9)
    (whole : (var.digits.length : Int) ≤ var.weight + 1) :
    ∃ hash, ((sumPreDigits var.sign.factor var.weight 0 var.digits).map fun sum =>
        match sum with
        | some data => int128HashBi hashUint32 data 0
        | none => hashNumeric hashAny var) = some hash ∧
      HashOf hashUint32 hashAny var.value hash := by
  obtain ⟨total, isTotal⟩ : ∃ total, total = digitsValue 10000 var.digits *
      10000 ^ (var.weight + 1 - var.digits.length).toNat := ⟨_, rfl⟩
  have summed := sumPreDigits_spec var.sign var.weight 0 total var.digits whole small
    (by rw [Nat.cast_zero, mul_zero]; decide) (by rw [isTotal, Nat.zero_add])
  rw [Nat.cast_zero, mul_zero] at summed
  have value : var.value = ((var.sign.factor * total : Int) : ℚ) / 10 ^ 0 := by
    have exponent : (10000 : ℚ) ^ (var.weight + 1 - var.digits.length) =
        (10000 : ℚ) ^ (var.weight + 1 - var.digits.length).toNat := by
      rw [← zpow_natCast, Int.toNat_of_nonneg (by omega)]
    rw [NumericVar.value, exponent, isTotal]
    push_cast
    ring
  rw [summed]
  by_cases wide : InInt128 (var.sign.factor * total)
  · rw [if_pos wide]
    exact ⟨_, rfl, .inl ⟨_, 0, wide, value, rfl⟩⟩
  · rw [if_neg wide]
    refine ⟨_, rfl, .inr ⟨?_, var, canonical, rfl, rfl⟩⟩
    rw [value]
    exact not_representable _ 0 (.inl rfl) wide

/-- The hash value of a number with decimals behind the point. -/
theorem numericHashBi_fraction (hashUint32 : Nat → Nat) (hashAny : List Nat → Nat)
    (var : NumericVar) (canonical : var.Canonical) (nonempty : var.digits ≠ [])
    (fraction : var.weight + 1 < var.digits.length) :
    ∃ hash, (match appendDigits var.sign.factor 0 ((var.digits.dropLast.map fun digit =>
        (digit, 10000)) ++ [((cutLastDigit (var.digits.getLast nonempty)).1,
          (cutLastDigit (var.digits.getLast nonempty)).2.1)]) with
        | some data => some (int128HashBi hashUint32 data
            ((var.digits.length - var.weight - 1) * 4 -
              (cutLastDigit (var.digits.getLast nonempty)).2.2).toNat)
        | none => some (hashNumeric hashAny var)) = some hash ∧
      HashOf hashUint32 hashAny var.value hash := by
  have last : var.digits.getLast nonempty ≠ 0 := by
    intro zero
    apply canonical.last
    rw [getLast?_eq_some_getLast nonempty, zero]
  obtain ⟨isDigit, isBase, rest, tens, positive, few⟩ := cutLastDigit_spec _ last
    (canonical.small _ (getLast_mem nonempty))
  have split := dropLast_append_getLast nonempty
  have parts := digitsValue_concat 10000 (var.digits.getLast nonempty) var.digits.dropLast
  rw [split] at parts
  generalize cutLastDigit (var.digits.getLast nonempty) = cut at isDigit isBase rest tens positive few ⊢
  obtain ⟨lastDigit, lastBase, zeros⟩ := cut
  dsimp only at isDigit isBase rest tens positive few ⊢
  obtain ⟨number, isNumber⟩ : ∃ number, number =
      digitsValue 10000 var.digits.dropLast * lastBase + lastDigit := ⟨_, rfl⟩
  have mixed : mixedValue 0 ((var.digits.dropLast.map fun digit => (digit, 10000)) ++
      [(lastDigit, lastBase)]) = number := by
    rw [mixedValue, foldl_append, foldl_map, isNumber]
    rfl
  have appended := appendDigits_spec var.sign 0 ((var.digits.dropLast.map fun digit =>
    (digit, 10000)) ++ [(lastDigit, lastBase)]) (by
      intro pair member
      rcases mem_append.mp member with front | back
      · obtain ⟨digit, -, rfl⟩ := mem_map.mp front
        show 1 ≤ 10000
        decide
      · rw [mem_singleton.mp back]
        exact positive) (by rw [Nat.cast_zero, mul_zero]; decide)
  rw [Nat.cast_zero, mul_zero, mixed] at appended
  obtain ⟨scale, isScale⟩ : ∃ scale : Nat,
      ((var.digits.length : Int) - var.weight - 1) * 4 - zeros = scale :=
    ⟨(((var.digits.length : Int) - var.weight - 1) * 4 - zeros).toNat, by lia⟩
  have value : var.value = ((var.sign.factor * number : Int) : ℚ) / 10 ^ scale := by
    have shifted : digitsValue 10000 var.digits = number * 10 ^ zeros := by
      rw [parts, isNumber, add_mul, mul_assoc, isBase, ← isDigit]
    have exponent : (10000 : ℚ) ^ (var.weight + 1 - var.digits.length) * 10 ^ zeros =
        ((10 : ℚ) ^ scale)⁻¹ := by
      rw [← zpow_natCast (10 : ℚ) zeros, ← zpow_natCast (10 : ℚ) scale, ← zpow_neg,
        show (10000 : ℚ) = (10 : ℚ) ^ (4 : Int) by norm_num, ← zpow_mul, ← zpow_add₀ (by norm_num)]
      congr 1
      lia
    calc var.value = var.sign.factor * number *
          ((10000 : ℚ) ^ (var.weight + 1 - var.digits.length) * 10 ^ zeros) := by
          rw [NumericVar.value, shifted]
          push_cast
          ring
      _ = _ := by
        rw [exponent]
        push_cast
        rfl
  have normal : DecimalNormal (var.sign.factor * number) scale := by
    refine .inr (fun divides => rest ?_)
    obtain ⟨tenth, isTenth⟩ := tens
    have whole : (10 : Int) ∣ number := by
      rcases var.sign.factor_cases with one | one <;> rw [one] at divides <;> lia
    have natural : 10 ∣ number := by exact_mod_cast whole
    rw [isNumber, isTenth, Nat.mul_left_comm] at natural
    exact (Nat.dvd_add_right (Nat.dvd_mul_right 10 _)).mp natural
  rw [appended, isScale]
  by_cases wide : InInt128 (var.sign.factor * number)
  · rw [if_pos wide]
    exact ⟨_, rfl, .inl ⟨_, _, wide, value, rfl⟩⟩
  · rw [if_neg wide]
    refine ⟨_, rfl, .inr ⟨?_, var, canonical, rfl, rfl⟩⟩
    rw [value]
    exact not_representable _ scale normal wide

/-- The hash of an ordinary numeric is that of its value. -/
theorem numericHashBi_spec (canonical : var.Canonical) :
    ∃ hash, numericHashBi hashUint32 hashAny var = some hash ∧
      HashOf hashUint32 hashAny var.value hash := by
  rw [numericHashBi]
  by_cases empty : var.digits = []
  · have zero := (NumericVar.Canonical.value_eq_zero_iff var canonical).mpr empty
    rw [empty]
    refine ⟨_, rfl, .inl ⟨0, 0, by decide, ?_, rfl⟩⟩
    rw [zero, Int.cast_zero, zero_div]
  · obtain ⟨pre, post⟩ := getWholeScale_le var empty
    rw [getLast?_eq_some_getLast empty]
    dsimp only
    by_cases large : 10 ≤ var.weight
    · rw [if_pos large]
      exact ⟨_, rfl, .inr ⟨not_representable_of_weight var canonical empty large, var, canonical,
        rfl, rfl⟩⟩
    · rw [if_neg large]
      by_cases short : (0 ≤ var.weight ∧ var.weight * 4 + 4 + var.dscale ≤ 38) ∨
          (var.weight < 0 ∧ var.dscale ≤ 38)
      · have few : getWholeScale var ≤ 38 := by
          rcases short with ⟨whole, few⟩ | ⟨fraction, few⟩
          · exact (pre whole).trans few
          · omega
        rw [if_pos short]
        exact numericHashBi_converted hashUint32 hashAny var canonical empty few
      · rw [if_neg short]
        by_cases whole : 0 ≤ var.weight ∧ (var.digits.length : Int) ≤ var.weight + 1
        · rw [if_pos whole]
          exact numericHashBi_whole hashUint32 hashAny var canonical (by omega) whole.2
        · have some := length_pos_of_ne_nil empty
          rw [if_neg whole]
          exact numericHashBi_fraction hashUint32 hashAny var canonical empty (by omega)

/-- The hash of a numeric is that of its value. -/
theorem hashBi_spec {numeric : Numeric}
    (valid : numeric.Valid) {number : ℚ} (denotes : numeric.denotes = some number) :
    ∃ hash, hashBi hashUint32 hashAny numeric = some hash ∧ HashOf hashUint32 hashAny number hash := by
  cases numeric with
  | nan => exact absurd denotes nofun
  | bi64 value scale =>
    obtain ⟨least, most⟩ := valid.1
    refine ⟨_, rfl, .inl ⟨value, scale, ⟨by omega, by omega⟩, (some.inj denotes).symm, ?_⟩⟩
    rw [int64HashBi_eq _ _ _ valid.1, int128HashBi_eq]
  | bi128 value scale =>
    exact ⟨_, rfl, .inl ⟨value, scale, valid.1, (some.inj denotes).symm, rfl⟩⟩
  | normal var =>
    have spec := numericHashBi_spec hashUint32 hashAny var valid
    rw [some.inj denotes] at spec
    exact spec

/-- Numerics that stand for one number have one hash value, whatever their forms and the decimals they
display, and whether they are hashed as values or as keys. -/
theorem equal_numbers_hash_alike (hashUint32 : Nat → Nat) (hashAny : List Nat → Nat)
    (first second : Numeric) (firstValid : first.Valid) (secondValid : second.Valid) (number : ℚ)
    (firstDenotes : first.denotes = some number) (secondDenotes : second.denotes = some number) :
    ∃ hash, hashBi hashUint32 hashAny first = some hash ∧ hashBi hashUint32 hashAny second = some hash ∧
      hashBiKey hashUint32 hashAny first = some hash ∧
      hashBiKey hashUint32 hashAny second = some hash := by
  have keys (numeric : Numeric) : hashBiKey hashUint32 hashAny numeric =
      hashBi hashUint32 hashAny numeric := by
    cases numeric <;> rfl
  obtain ⟨hash1, isHash1, spec1⟩ := hashBi_spec hashUint32 hashAny firstValid firstDenotes
  obtain ⟨hash2, isHash2, spec2⟩ := hashBi_spec hashUint32 hashAny secondValid secondDenotes
  have same := HashOf.unique hashUint32 hashAny spec1 spec2
  rw [← same] at isHash2
  exact ⟨hash1, isHash1, isHash2, by rw [keys, isHash1], by rw [keys, isHash2]⟩

/-- One with two decimals in 64 bits, and one with fifty decimals as an ordinary numeric. -/
theorem equal_numbers_hash_alike_one : ∃ hash, hashBi id List.sum (.bi64 100 2) = some hash ∧
      hashBi id List.sum (.normal ⟨.pos, 0, 50, [1]⟩) = some hash := by
  have value : NumericVar.value ⟨.pos, 0, 50, [1]⟩ = 1 := by
    rw [NumericVar.value, show digitsValue 10000 [1] = 1 from rfl]
    norm_num [Sign.factor]
  have canonical : NumericVar.Canonical ⟨.pos, 0, 50, [1]⟩ :=
    ⟨by decide, by decide, by decide, (fun none => by cases none), 10 ^ 50, by rw [value]; norm_num⟩
  obtain ⟨hash, first, second, -, -⟩ := equal_numbers_hash_alike id List.sum (.bi64 100 2)
    (.normal ⟨.pos, 0, 50, [1]⟩) ⟨by decide, by decide⟩ canonical 1
    (congrArg some (by norm_num)) (congrArg some value)
  exact ⟨hash, first, second⟩

end OpenGauss.Numerics
