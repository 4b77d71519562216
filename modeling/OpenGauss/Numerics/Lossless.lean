import OpenGauss.Numerics.Conversion

/-!
# From ordinary numerics to fast ones and back

A numeric as the server stores it is fixed by its number and the decimals to display. Written with
these decimals and without the point it is a whole number, and that is the number which the
conversions compute if it has at most 18 or 38 decimal digits: no product or sum leaves its width, and
no index leaves its table. So a numeric that is turned into a fast one comes back as it was.
-/
namespace OpenGauss.Numerics

open Option List OpenGauss.Base

variable (sign : Sign) (var1 var2 : NumericVar) (digits : List Nat) (var : NumericVar)

theorem Sign.factor_cases : sign.factor = 1 ∨ sign.factor = -1 := by
  cases sign
  · exact .inl rfl
  · exact .inr rfl

theorem digitsValue_not_dvd (small : ∀ digit ∈ digits, digit < 10000)
    (last : digits.getLast? ≠ some 0) (nonempty : digits ≠ []) :
    ¬10000 ∣ digitsValue 10000 digits := by
  have split := dropLast_append_getLast nonempty
  have less := small _ (getLast_mem nonempty)
  have isLast := getLast?_eq_some_getLast nonempty
  intro divides
  rw [← split, digitsValue_concat] at divides
  have zero : digits.getLast nonempty = 0 := by lia
  rw [isLast, zero] at last
  exact last rfl

theorem digitsValue_ge (head : digits.head? ≠ some 0) (nonempty : digits ≠ []) :
    10000 ^ (digits.length - 1) ≤ digitsValue 10000 digits := by
  obtain ⟨first, rest, rfl⟩ := exists_cons_of_ne_nil nonempty
  have positive : 1 ≤ first := by
    rw [head?_cons] at head
    by_contra zero
    exact head (by rw [show first = 0 by omega])
  rw [digitsValue_cons, length_cons, Nat.add_sub_cancel]
  calc 10000 ^ rest.length = 1 * 10000 ^ rest.length := (Nat.one_mul _).symm
    _ ≤ first * 10000 ^ rest.length := Nat.mul_le_mul_right _ positive
    _ ≤ first * 10000 ^ rest.length + digitsValue 10000 rest := Nat.le_add_right _ _

theorem NumericVar.Canonical.digits_pos (canonical : var.Canonical)
    (nonempty : var.digits ≠ []) : 0 < digitsValue 10000 var.digits :=
  Nat.lt_of_lt_of_le (Nat.pow_pos (by decide)) (digitsValue_ge _ canonical.head nonempty)

/-- Zero has no digits. -/
theorem NumericVar.Canonical.value_eq_zero_iff (canonical : var.Canonical) :
    var.value = 0 ↔ var.digits = [] := by
  constructor
  · intro zero
    by_contra nonempty
    have digits := NumericVar.Canonical.digits_pos var canonical nonempty
    have power : (10000 : ℚ) ^ (var.weight + 1 - var.digits.length) ≠ 0 := by positivity
    have cast : (digitsValue 10000 var.digits : ℚ) ≠ 0 := by exact_mod_cast digits.ne'
    have sign : (var.sign.factor : ℚ) ≠ 0 := by
      rcases var.sign.factor_cases with one | one <;> rw [one] <;> norm_num
    exact mul_ne_zero (mul_ne_zero sign cast) power zero
  · intro empty
    rw [NumericVar.value, empty, show digitsValue 10000 [] = 0 from rfl]
    push_cast
    ring

theorem shifted_rational {first second : Nat} {i j : Int}
    (same : (first : ℚ) * (10000 : ℚ) ^ i = second * (10000 : ℚ) ^ j)
    (rest1 : ¬10000 ∣ first) (rest2 : ¬10000 ∣ second) : first = second ∧ i = j := by
  obtain ⟨shift, above1, above2⟩ : ∃ shift : Nat, 0 ≤ i + shift ∧ 0 ≤ j + shift :=
    ⟨i.natAbs + j.natAbs, by lia, by lia⟩
  have moved : (first : ℚ) * (10000 : ℚ) ^ (i + shift).toNat =
      second * (10000 : ℚ) ^ (j + shift).toNat := by
    rw [← zpow_natCast, ← zpow_natCast, Int.toNat_of_nonneg above1, Int.toNat_of_nonneg above2,
      zpow_add₀ (by norm_num), zpow_add₀ (by norm_num), ← mul_assoc, ← mul_assoc, same]
  have whole : first * 10000 ^ (i + shift).toNat = second * 10000 ^ (j + shift).toNat := by
    exact_mod_cast moved
  obtain ⟨numbers, exponents⟩ := shifted_unique 10000 (by decide) rest1 rest2 whole
  exact ⟨numbers, by lia⟩

/-- Equal values have equal parts. -/
theorem NumericVar.Canonical.parts_eq (canonical1 : var1.Canonical)
    (canonical2 : var2.Canonical) (values : var1.value = var2.value) :
    var1.sign = var2.sign ∧ var1.weight = var2.weight ∧ var1.digits = var2.digits := by
  have zero1 := NumericVar.Canonical.value_eq_zero_iff var1 canonical1
  have zero2 := NumericVar.Canonical.value_eq_zero_iff var2 canonical2
  by_cases empty1 : var1.digits = []
  · have empty2 : var2.digits = [] := zero2.mp (by rw [← values]; exact zero1.mpr empty1)
    obtain ⟨sign1, weight1⟩ := canonical1.zero empty1
    obtain ⟨sign2, weight2⟩ := canonical2.zero empty2
    exact ⟨sign1.trans sign2.symm, weight1.trans weight2.symm, empty1.trans empty2.symm⟩
  · have empty2 : var2.digits ≠ [] := by
      intro none
      rw [← zero2, ← values, zero1] at none
      exact empty1 none
    have digits1 := NumericVar.Canonical.digits_pos var1 canonical1 empty1
    have digits2 := NumericVar.Canonical.digits_pos var2 canonical2 empty2
    have size1 : (0 : ℚ) < digitsValue 10000 var1.digits *
        (10000 : ℚ) ^ (var1.weight + 1 - var1.digits.length) := by positivity
    have size2 : (0 : ℚ) < digitsValue 10000 var2.digits *
        (10000 : ℚ) ^ (var2.weight + 1 - var2.digits.length) := by positivity
    have equation := values
    rw [NumericVar.value, NumericVar.value, mul_assoc, mul_assoc] at equation
    have signs : var1.sign = var2.sign ∧ (digitsValue 10000 var1.digits : ℚ) *
        (10000 : ℚ) ^ (var1.weight + 1 - var1.digits.length) = digitsValue 10000 var2.digits *
          (10000 : ℚ) ^ (var2.weight + 1 - var2.digits.length) := by
      cases left : var1.sign <;> cases right : var2.sign <;>
        simp only [left, right, Sign.factor, Int.cast_one, Int.cast_neg, one_mul, neg_mul,
          reduceCtorEq, true_and, false_and] at equation ⊢ <;> linarith
    obtain ⟨numbers, exponents⟩ := shifted_rational signs.2
      (digitsValue_not_dvd _ canonical1.small canonical1.last empty1)
      (digitsValue_not_dvd _ canonical2.small canonical2.last empty2)
    have digits := digitsValue_injective 10000 (by decide) canonical1.small canonical2.small
      canonical1.head canonical2.head numbers
    have weights : var1.weight = var2.weight := by
      rw [digits] at exponents
      omega
    exact ⟨signs.1, weights, digits⟩

theorem NumericVar.Canonical.unique (canonical1 : var1.Canonical)
    (canonical2 : var2.Canonical) (values : var1.value = var2.value)
    (dscales : var1.dscale = var2.dscale) : var1 = var2 := by
  obtain ⟨signs, weights, digits⟩ := NumericVar.Canonical.parts_eq var1 var2 canonical1 canonical2
    values
  exact NumericVar.ext signs weights dscales digits

/-- A numeric without its decimal point, as a whole number: its size and how its digits are shifted to
get it. -/
structure Unpointed (var : NumericVar) (diff : Int) (size : Nat) : Prop where
  value : var.value = ((var.sign.factor * size : Int) : ℚ) / 10 ^ var.dscale
  up : 0 ≤ diff → size = digitsValue 10000 var.digits * 10 ^ diff.toNat
  down : diff < 0 → digitsValue 10000 var.digits = size * 10 ^ (-diff).toNat
  least : -3 ≤ diff
  bound : (size : ℚ) < 10 ^ getWholeScale var

theorem first_digit_lt (first : Nat) (small : first < 10000) :
    first < 10 ^ (if 1000 ≤ first then 4 else if 100 ≤ first then 3 else if 10 ≤ first then 2
      else 1) := by
  split
  · omega
  · split
    · omega
    · split <;> lia

/-- The whole scale bounds the digits. -/
theorem NumericVar.Canonical.digits_bound (canonical : var.Canonical) (nonempty : var.digits ≠ []) :
    (digitsValue 10000 var.digits : ℚ) * (10 : ℚ) ^ ((var.dscale : Int) -
      ((var.digits.length : Int) - var.weight - 1) * 4) < 10 ^ getWholeScale var := by
  have ten : (1 : ℚ) ≤ 10 := by norm_num
  obtain ⟨first, rest, digits⟩ := exists_cons_of_ne_nil nonempty
  by_cases whole : 0 ≤ var.weight
  · have small : first < 10000 := canonical.small first (by rw [digits]; exact mem_cons_self)
    have fits := first_digit_lt first small
    obtain ⟨count, isCount⟩ : ∃ count : Nat, count = (if 1000 ≤ first then 4
      else if 100 ≤ first then 3 else if 10 ≤ first then 2 else 1) := ⟨_, rfl⟩
    have scale : getWholeScale var = var.weight * 4 + var.dscale + count := by
      rw [getWholeScale, digits]
      dsimp only
      rw [if_pos whole, isCount]
      push_cast
      rfl
    rw [← isCount] at fits
    have below := digitsValue_lt 10000 (by decide) rest
      (fun digit member => canonical.small digit (by rw [digits]; exact mem_cons_of_mem _ member))
    have value : digitsValue 10000 var.digits < 10 ^ (count + 4 * rest.length) := by
      rw [digits, digitsValue_cons, Nat.pow_add, Nat.pow_mul, show 10 ^ 4 = 10000 from rfl]
      calc first * 10000 ^ rest.length + digitsValue 10000 rest
          < first * 10000 ^ rest.length + 10000 ^ rest.length := by lia
        _ = (first + 1) * 10000 ^ rest.length := by ring
        _ ≤ 10 ^ count * 10000 ^ rest.length := Nat.mul_le_mul_right _ fits
    have cast : (digitsValue 10000 var.digits : ℚ) < (10 : ℚ) ^ (count + 4 * rest.length) := by
      exact_mod_cast value
    have length : var.digits.length = rest.length + 1 := by rw [digits, length_cons]
    calc (digitsValue 10000 var.digits : ℚ) * _
        < (10 : ℚ) ^ (count + 4 * rest.length) * _ := by gcongr
      _ = 10 ^ getWholeScale var := by
        rw [← zpow_natCast, ← zpow_add₀ (by norm_num)]
        congr 1
        rw [scale, length]
        push_cast
        ring
  · have scale : getWholeScale var = var.dscale := by
      rw [getWholeScale, digits]
      dsimp only
      rw [if_neg whole]
    have below := digitsValue_lt 10000 (by decide) var.digits canonical.small
    have cast : (digitsValue 10000 var.digits : ℚ) < (10 : ℚ) ^ (4 * var.digits.length) := by
      rw [pow_mul]
      exact_mod_cast below
    calc (digitsValue 10000 var.digits : ℚ) * _
        < (10 : ℚ) ^ (4 * var.digits.length) * _ := by gcongr
      _ = (10 : ℚ) ^ ((var.dscale : Int) + (var.weight + 1) * 4) := by
        rw [← zpow_natCast, ← zpow_add₀ (by norm_num)]
        congr 1
        push_cast
        ring
      _ ≤ 10 ^ getWholeScale var := by
        apply zpow_le_zpow_right₀ ten
        rw [scale]
        lia

/-- The digits without the point are a whole number. -/
theorem NumericVar.Canonical.unpointed (canonical : var.Canonical) (nonempty : var.digits ≠ []) :
    ∃ size, Unpointed var ((var.dscale : Int) - ((var.digits.length : Int) - var.weight - 1) * 4)
      size := by
  have digits_bound := NumericVar.Canonical.digits_bound var canonical nonempty
  generalize isDiff : (var.dscale : Int) - ((var.digits.length : Int) - var.weight - 1) * 4 = diff
    at digits_bound
  obtain ⟨whole, shown⟩ := canonical.shown
  have scaled : var.value * 10 ^ var.dscale =
      var.sign.factor * (digitsValue 10000 var.digits * (10 : ℚ) ^ diff) := by
    have base : (10000 : ℚ) = (10 : ℚ) ^ (4 : Int) := by norm_num
    have exponent : diff = 4 * (var.weight + 1 - var.digits.length) + var.dscale := by
      rw [← isDiff]
      ring
    rw [NumericVar.value, base, ← zpow_mul, exponent, zpow_add₀ (by norm_num), zpow_natCast]
    ring
  have size : ((whole.natAbs : Nat) : ℚ) = digitsValue 10000 var.digits * (10 : ℚ) ^ diff := by
    have sizes : (0 : ℚ) ≤ digitsValue 10000 var.digits * (10 : ℚ) ^ diff := by positivity
    have sign : |(var.sign.factor : ℚ)| = 1 := by
      rcases var.sign.factor_cases with one | one <;> rw [one] <;> norm_num
    rw [Nat.cast_natAbs, Int.cast_abs, ← shown, scaled, abs_mul, sign, one_mul, abs_of_nonneg sizes]
  have power : (10 : ℚ) ^ diff ≠ 0 := by positivity
  have down (negative : diff < 0) :
      digitsValue 10000 var.digits = whole.natAbs * 10 ^ (-diff).toNat := by
    have exact : (digitsValue 10000 var.digits : ℚ) = whole.natAbs * (10 : ℚ) ^ (-diff).toNat := by
      rw [size, ← zpow_natCast, Int.toNat_of_nonneg (by omega), zpow_neg, mul_assoc,
        mul_inv_cancel₀ power, mul_one]
    exact_mod_cast exact
  refine ⟨whole.natAbs, ⟨?_, ?_, down, ?_, ?_⟩⟩
  · have positive : (10 : ℚ) ^ var.dscale ≠ 0 := by positivity
    rw [eq_div_iff positive, scaled, Int.cast_mul, Int.cast_natCast, size]
  · intro positive
    have exact : ((whole.natAbs : Nat) : ℚ) =
        digitsValue 10000 var.digits * (10 : ℚ) ^ diff.toNat := by
      rw [size, ← zpow_natCast, Int.toNat_of_nonneg positive]
    exact_mod_cast exact
  · by_contra less
    apply digitsValue_not_dvd _ canonical.small canonical.last nonempty
    obtain ⟨more, isMore⟩ : ∃ more : Nat, (-diff).toNat = more + 4 := ⟨(-diff).toNat - 4, by omega⟩
    rw [down (by omega), isMore, Nat.pow_add]
    exact ⟨whole.natAbs * 10 ^ more, by ring⟩
  · rw [size]
    exact digits_bound

theorem Unpointed.size_lt (diff : Int) (size limit : Nat)
    (unpointed : Unpointed var diff size) (few : getWholeScale var ≤ limit) : size < 10 ^ limit := by
  have below : (size : ℚ) < (10 : ℚ) ^ limit := by
    calc (size : ℚ) < (10 : ℚ) ^ getWholeScale var := unpointed.bound
      _ ≤ (10 : ℚ) ^ (limit : Int) := zpow_le_zpow_right₀ (by norm_num) few
      _ = (10 : ℚ) ^ limit := zpow_natCast _ _
  exact_mod_cast below

theorem Unpointed.diff_lt (canonical : var.Canonical) (nonempty : var.digits ≠ [])
    {diff : Int} {size limit : Nat} (unpointed : Unpointed var diff size)
    (less : size < 10 ^ limit) : diff < limit := by
  by_contra more
  have up := unpointed.up (by omega)
  have digits := NumericVar.Canonical.digits_pos var canonical nonempty
  have power : 10 ^ limit ≤ 10 ^ diff.toNat := Nat.pow_le_pow_right (by decide) (by omega)
  have product : 1 * 10 ^ diff.toNat ≤ size := by
    rw [up]
    exact Nat.mul_le_mul_right _ digits
  lia

variable {digits}

theorem length_le_of_value_lt (head : digits.head? ≠ some 0) (limit : Nat)
    (less : digitsValue 10000 digits < 10 ^ (4 * limit)) : digits.length ≤ limit := by
  by_cases empty : digits = []
  · rw [empty]
    exact Nat.zero_le _
  · have least := digitsValue_ge digits head empty
    by_contra more
    have power : 10000 ^ limit ≤ 10000 ^ (digits.length - 1) :=
      Nat.pow_le_pow_right (by decide) (by omega)
    rw [Nat.pow_mul, show 10 ^ 4 = 10000 from rfl] at less
    omega

theorem signed_bounds (size limit : Nat) (less : size < limit) :
    -(limit : Int) < sign.factor * size ∧ sign.factor * size < limit := by
  rcases sign.factor_cases with one | one <;> rw [one] <;> constructor <;> omega

/-- A short numeric becomes 64 bits. -/
theorem convertShortNumericToInt64Byscale_spec (canonical : var.Canonical)
    (nonempty : var.digits ≠ []) {size : Nat} (unpointed : Unpointed var
      ((var.dscale : Int) - ((var.digits.length : Int) - var.weight - 1) * 4) size)
    (less : size < 10 ^ 18) :
    convertShortNumericToInt64Byscale var var.dscale = some (var.sign.factor * size) := by
  have least := unpointed.least
  have most := Unpointed.diff_lt var canonical nonempty unpointed less
  have some : 0 < var.digits.length := length_pos_of_ne_nil nonempty
  rw [convertShortNumericToInt64Byscale, if_pos some]
  generalize (var.dscale : Int) - ((var.digits.length : Int) - var.weight - 1) * 4 = diff
    at unpointed least most
  obtain ⟨above, below⟩ := signed_bounds var.sign size (10 ^ 18) less
  have wrapped : wrap64 (var.sign.factor * size) = var.sign.factor * size :=
    wrap64_of_in _ ⟨by lia, by lia⟩
  by_cases up : 0 < diff
  · have exact := unpointed.up up.le
    have atLeast : digitsValue 10000 var.digits ≤ size := by
      rw [exact]
      exact Nat.le_mul_of_pos_right _ (Nat.pow_pos (by decide))
    have length := length_le_of_value_lt canonical.head 6 (by lia)
    have table := scaleMultipler_of_le diff.toNat (by lia)
    rw [Int.toNat_of_nonneg up.le] at table
    have product : (digitsValue 10000 var.digits : Int) * 10 ^ diff.toNat = size := by
      rw [exact]
      push_cast
      rfl
    rw [if_pos up, table, map_some, map_some, encodeDigits, if_pos length, product,
      wrap128_of_in _ ⟨by lia, by lia⟩, wrapped]
  · have product : digitsValue 10000 var.digits = size * 10 ^ (-diff).toNat := by
      by_cases zero : diff = 0
      · have exact := unpointed.up (by omega)
        subst zero
        simpa using exact.symm
      · exact unpointed.down (by lia)
    have power : 10 ^ (-diff).toNat ≤ 10 ^ 3 := Nat.pow_le_pow_right (by decide) (by lia)
    have atMost : digitsValue 10000 var.digits ≤ size * 10 ^ 3 := by
      rw [product]
      exact Nat.mul_le_mul_left _ power
    have length := length_le_of_value_lt canonical.head 6 (by omega)
    have table := scaleMultipler_of_le (-diff).toNat (by lia)
    rw [Int.toNat_of_nonneg (by lia)] at table
    have positive : (10 : Int) ^ (-diff).toNat ≠ 0 := by positivity
    have quotient : (digitsValue 10000 var.digits : Int).tdiv (10 ^ (-diff).toNat) = size := by
      rw [product]
      push_cast
      exact Int.mul_tdiv_cancel _ positive
    rw [if_neg up, table, bind_some, if_neg positive, map_some, encodeDigits,
      if_pos length, quotient, wrapped]

/-- The digits are summed, while they fit. -/
theorem sumDigits_spec (result : Nat) (short : digits.length ≤ 10)
    (fits : result + digitsValue 10000 digits < 2 ^ 127) :
    sumDigits result digits = some ((result + digitsValue 10000 digits : Nat) : Int) := by
  induction digits generalizing result with
  | nil => rfl
  | cons digit rest ih =>
    rw [length_cons] at short
    rw [digitsValue_cons] at fits ⊢
    have table := getScaleMultiplier_of_le (rest.length * 4) (by omega)
    have power : (10 : Int) ^ (rest.length * 4) = ((10000 ^ rest.length : Nat) : Int) := by
      rw [Nat.mul_comm, pow_mul]
      norm_num
    push_cast at table
    rw [sumDigits, table, bind_some, power, ← Nat.cast_mul]
    generalize 10000 ^ rest.length = place at fits ⊢
    have inner : wrap128 ((digit * place : Nat) : Int) = (digit * place : Nat) :=
      wrap128_of_in _ ⟨by omega, by omega⟩
    rw [inner, ← Nat.cast_add, wrap128_of_in _ ⟨by lia, by omega⟩, ih _ (by omega) (by lia),
      Nat.add_assoc]

/-- A numeric of at most 38 decimal digits becomes its number of 128 bits. -/
theorem convertShortNumericToInt128Byscale_spec (canonical : var.Canonical)
    (nonempty : var.digits ≠ []) {size : Nat} (unpointed : Unpointed var
      ((var.dscale : Int) - ((var.digits.length : Int) - var.weight - 1) * 4) size)
    (less : size < 10 ^ 38) :
    convertShortNumericToInt128Byscale var var.dscale = some (var.sign.factor * size) := by
  have least := unpointed.least
  have most := Unpointed.diff_lt var canonical nonempty unpointed less
  have some : var.digits.length ≠ 0 := (length_pos_of_ne_nil nonempty).ne'
  obtain ⟨above, below⟩ := signed_bounds var.sign size (10 ^ 38) less
  have wrapped : wrap128 (var.sign.factor * size) = var.sign.factor * size :=
    wrap128_of_in _ ⟨by lia, by lia⟩
  obtain ⟨ascale, isAscale⟩ : ∃ ascale : Int, ascale = var.digits.length - (var.weight + 1) :=
    ⟨_, rfl⟩
  have diffs : (var.dscale : Int) - ((var.digits.length : Int) - var.weight - 1) * 4 =
      var.dscale - ascale * 4 := by
    rw [isAscale]
    ring
  rw [diffs] at unpointed least most
  rw [convertShortNumericToInt128Byscale, if_neg some, ← isAscale]
  by_cases special : 0 < ascale ∧ var.dscale % 4 ≠ 0 ∧ ((var.dscale / 4 : Nat) : Int) + 1 = ascale
  · have split := dropLast_append_getLast nonempty
    have isLast : var.digits.getLastD 0 = var.digits.getLast nonempty := by
      rw [getLastD_eq_getLast?, getLast?_eq_some_getLast nonempty, getD_some]
    have front : var.digits.take (var.digits.length - 1) = var.digits.dropLast :=
      (dropLast_eq_take ..).symm
    obtain ⟨remainder, isRemainder⟩ : ∃ remainder, var.dscale % 4 = remainder := ⟨_, rfl⟩
    have down := unpointed.down (by lia)
    have exponent : (-((var.dscale : Int) - ascale * 4)).toNat = 4 - remainder := by lia
    have powers : 10000 = 10 ^ remainder * 10 ^ (4 - remainder) := by
      rw [← Nat.pow_add, Nat.add_sub_cancel' (by lia)]
    rw [exponent] at down
    have parts := digitsValue_concat 10000 (var.digits.getLast nonempty) var.digits.dropLast
    rw [split, down] at parts
    have positive : 0 < 10 ^ (4 - remainder) := Nat.pow_pos (by decide)
    have atMost : digitsValue 10000 var.digits.dropLast * 10 ^ remainder ≤ size := by
      apply Nat.le_of_mul_le_mul_right _ positive
      rw [Nat.mul_assoc, ← powers]
      lia
    have quotient : var.digits.getLast nonempty / 10 ^ (4 - remainder) =
        size - digitsValue 10000 var.digits.dropLast * 10 ^ remainder := by
      have isDigit : var.digits.getLast nonempty =
          (size - digitsValue 10000 var.digits.dropLast * 10 ^ remainder) *
            10 ^ (4 - remainder) := by
        rw [Nat.sub_mul, Nat.mul_assoc, ← powers]
        lia
      rw [isDigit, Nat.mul_div_cancel _ positive]
    have fewer : digitsValue 10000 var.digits.dropLast ≤ size :=
      (Nat.le_mul_of_pos_right _ (Nat.pow_pos (by decide))).trans atMost
    have head : var.digits.dropLast.head? ≠ Option.some 0 := by
      rw [head?_dropLast]
      split
      · exact canonical.head
      · exact nofun
    have length := length_le_of_value_lt head 10 (by lia)
    have sum := sumDigits_spec 0 length (by lia)
    rw [Nat.zero_add, Nat.cast_zero] at sum
    have multiplier := getScaleMultiplier_of_le remainder (by lia)
    have divisor := getScaleMultiplier_of_le (4 - remainder) (by lia)
    have difference : (4 : Int) - (remainder : Int) = ((4 - remainder : Nat) : Int) := by lia
    have noShift : (var.dscale : Int) - (ascale - 1) * 4 - (var.dscale : Int) % 4 = (0 : Nat) := by
      lia
    have product : (digitsValue 10000 var.digits.dropLast : Int) * 10 ^ remainder =
        ((digitsValue 10000 var.digits.dropLast * 10 ^ remainder : Nat) : Int) := by
      push_cast
      rfl
    have digit : ((var.digits.getLast nonempty : Nat) : Int).tdiv (10 ^ (4 - remainder)) =
        ((size - digitsValue 10000 var.digits.dropLast * 10 ^ remainder : Nat) : Int) := by
      rw [← quotient, show (10 : Int) ^ (4 - remainder) = ((10 ^ (4 - remainder) : Nat) : Int) by
        push_cast; rfl]
      rfl
    have inner : wrap128 ((digitsValue 10000 var.digits.dropLast * 10 ^ remainder : Nat) : Int) =
        (digitsValue 10000 var.digits.dropLast * 10 ^ remainder : Nat) :=
      wrap128_of_in _ ⟨by lia, by lia⟩
    have outer : wrap128 (size : Int) = size := wrap128_of_in _ ⟨by lia, by lia⟩
    rw [isRemainder] at special
    simp only [isRemainder, if_pos special, isLast, front, noShift]
    rw [sum, bind_some, multiplier, bind_some, difference, divisor, map_some,
      bind_some, getScaleMultiplier_of_le 0 (by decide), map_some, product, digit, inner,
      ← Nat.cast_add, Nat.add_sub_cancel' atMost, outer, pow_zero, mul_one, outer, wrapped]
  · have isUp : 0 ≤ (var.dscale : Int) - ascale * 4 := by
      by_contra negative
      exact special ⟨by lia, by lia, by lia⟩
    have exact := unpointed.up isUp
    have fewer : digitsValue 10000 var.digits ≤ size := by
      rw [exact]
      exact Nat.le_mul_of_pos_right _ (Nat.pow_pos (by decide))
    have length := length_le_of_value_lt canonical.head 10 (by lia)
    have sum := sumDigits_spec 0 length (by lia)
    rw [Nat.zero_add, Nat.cast_zero] at sum
    have table := getScaleMultiplier_of_le ((var.dscale : Int) - ascale * 4).toNat (by lia)
    rw [Int.toNat_of_nonneg isUp] at table
    have product : (digitsValue 10000 var.digits : Int) *
        10 ^ ((var.dscale : Int) - ascale * 4).toNat = size := by
      rw [exact]
      push_cast
      rfl
    have outer : wrap128 (size : Int) = size := wrap128_of_in _ ⟨by lia, by lia⟩
    simp only [if_neg special, take_length]
    rw [sum, bind_some, bind_some, table, map_some, product, outer, wrapped]

theorem dscale_le_wholeScale : (var.dscale : Int) ≤ getWholeScale var := by
  rw [getWholeScale]
  cases var.digits with
  | nil => exact le_rfl
  | cons first rest =>
    dsimp only
    by_cases whole : 0 ≤ var.weight
    · lia
    · rw [if_neg whole]

/-- Zero becomes zero. -/
theorem convertShortNumeric_zero (empty : var.digits = []) :
    (var.dscale ≤ 18 → convertShortNumericToInt64Byscale var var.dscale = some 0) ∧
      convertShortNumericToInt128Byscale var var.dscale = some 0 := by
  constructor
  · intro few
    have table := scaleMultipler_of_le var.dscale few
    have sign : var.sign.factor * 0 = 0 := Int.mul_zero _
    rw [convertShortNumericToInt64Byscale, empty]
    simp only [length_nil, Nat.lt_irrefl, if_false, zero_mul, sub_zero, encodeDigits,
      show digitsValue 10000 [] = 0 from rfl, Nat.cast_zero, ite_self]
    by_cases positive : 0 < (var.dscale : Int)
    · rw [if_pos positive, table, map_some, map_some,
        wrap128_of_in 0 ⟨by decide, by decide⟩, sign, wrap64_of_in 0 ⟨by decide, by decide⟩]
    · have zero : var.dscale = 0 := by omega
      rw [if_neg positive, zero, Nat.cast_zero, neg_zero, show scaleMultipler 0 = some 1 from rfl,
        bind_some, if_neg (by decide), map_some, Int.zero_tdiv, sign,
        wrap64_of_in 0 ⟨by decide, by decide⟩]
  · rw [convertShortNumericToInt128Byscale, empty]
    exact if_pos rfl

/-- A numeric of few digits becomes a fast one of its value. -/
theorem tryConvertNumericNormalToFast_spec (canonical : var.Canonical)
    (few : getWholeScale var ≤ 38) : ∃ data : Int, var.value = data / 10 ^ var.dscale ∧
      ((var.dscale ≤ 19 ∧ InInt64 data ∧
          tryConvertNumericNormalToFast true (.normal var) = some (.bi64 data var.dscale)) ∨
        (var.dscale ≤ 38 ∧ InInt128 data ∧
          tryConvertNumericNormalToFast true (.normal var) = some (.bi128 data var.dscale))) := by
  have scales := dscale_le_wholeScale var
  by_cases empty : var.digits = []
  · obtain ⟨small, large⟩ := convertShortNumeric_zero var empty
    have zero := (NumericVar.Canonical.value_eq_zero_iff var canonical).mpr empty
    refine ⟨0, by rw [zero, Int.cast_zero, zero_div], ?_⟩
    rw [tryConvertNumericNormalToFast, if_pos rfl]
    by_cases short : getWholeScale var ≤ 18
    · rw [if_pos short, small (by omega), map_some]
      exact .inl ⟨by omega, by decide, rfl⟩
    · rw [if_neg short, if_pos few, large, map_some]
      exact .inr ⟨by omega, by decide, rfl⟩
  · obtain ⟨size, unpointed⟩ := NumericVar.Canonical.unpointed var canonical empty
    refine ⟨var.sign.factor * size, unpointed.value, ?_⟩
    rw [tryConvertNumericNormalToFast, if_pos rfl]
    by_cases short : getWholeScale var ≤ 18
    · have less := Unpointed.size_lt var _ size 18 unpointed short
      obtain ⟨above, below⟩ := signed_bounds var.sign size (10 ^ 18) less
      rw [if_pos short, convertShortNumericToInt64Byscale_spec var canonical empty unpointed less,
        map_some]
      exact .inl ⟨by omega, ⟨by lia, by omega⟩, rfl⟩
    · have less := Unpointed.size_lt var _ size 38 unpointed few
      obtain ⟨above, below⟩ := signed_bounds var.sign size (10 ^ 38) less
      rw [if_neg short, if_pos few,
        convertShortNumericToInt128Byscale_spec var canonical empty unpointed less,
        map_some]
      exact .inr ⟨by omega, ⟨by lia, by omega⟩, rfl⟩

theorem Restores.var_eq {short : NumericShort} {data : Int} {var : NumericVar}
    (canonical : var.Canonical) (restores : Restores short data var.dscale)
    (value : var.value = data / 10 ^ var.dscale) : short.var = var :=
  NumericVar.Canonical.unique short.var var restores.canonical canonical
    (restores.value.trans value.symm) restores.dscale

/-- The conversions lose nothing. An ordinary numeric with few enough digits is turned into a fast one
that stands for the same number, and that comes back as the numeric it was, with its sign, weight,
decimals and digits; every other one is left alone. A fast numeric of each width becomes the ordinary
numeric of its number, with its decimals and without zeros around the digits. No index leaves its
table or buffer. -/
theorem conversions_are_lossless : (∀ (enableFastNumeric : Bool) (var : NumericVar), var.Canonical →
      ∃ fast, tryConvertNumericNormalToFast enableFastNumeric (.normal var) = some fast ∧
        (fast = .normal var ↔ ¬(enableFastNumeric = true ∧ getWholeScale var ≤ 38)) ∧
        (fast ≠ .normal var → fast.Valid ∧ fast.denotes = some var.value ∧
          ∃ back, makeNumericNormal fast = some back ∧ back.var = var)) ∧
      (∀ (value : Int) (scale : Nat), InInt64 value → scale ≤ 19 →
        ∃ back, makeNumericNormal (.bi64 value scale) = some back ∧ back.var.Canonical ∧
          back.var.value = value / 10 ^ scale ∧ back.var.dscale = scale) ∧
      (∀ (value : Int) (scale : Nat), InInt128 value → scale ≤ 38 →
        ∃ back, makeNumericNormal (.bi128 value scale) = some back ∧ back.var.Canonical ∧
          back.var.value = value / 10 ^ scale ∧ back.var.dscale = scale) := by
  refine ⟨?_, ?_, ?_⟩
  · intro enableFastNumeric var canonical
    by_cases accepted : enableFastNumeric = true ∧ getWholeScale var ≤ 38
    · obtain ⟨rfl, few⟩ := accepted
      obtain ⟨data, value, ⟨scales, fits, result⟩ | ⟨scales, fits, result⟩⟩ :=
        tryConvertNumericNormalToFast_spec var canonical few
      · obtain ⟨back, isBack, restores⟩ := convertInt64ToNumeric_restores fits scales
        refine ⟨_, result, ⟨nofun, fun rejected => absurd ⟨rfl, few⟩ rejected⟩, fun _ =>
          ⟨⟨fits, scales⟩, by rw [value]; rfl, back, isBack, ?_⟩⟩
        exact Restores.var_eq canonical restores value
      · obtain ⟨back, isBack, restores⟩ := convertInt128ToNumeric_restores fits scales
        refine ⟨_, result, ⟨nofun, fun rejected => absurd ⟨rfl, few⟩ rejected⟩, fun _ =>
          ⟨⟨fits, scales⟩, by rw [value]; rfl, back, isBack, ?_⟩⟩
        exact Restores.var_eq canonical restores value
    · refine ⟨.normal var, ?_, ⟨fun _ => accepted, fun _ => rfl⟩, fun other => absurd rfl other⟩
      rw [tryConvertNumericNormalToFast]
      by_cases enabled : enableFastNumeric = true
      · have many : ¬getWholeScale var ≤ 38 := fun few => accepted ⟨enabled, few⟩
        rw [if_pos enabled, if_neg (by omega), if_neg many]
      · rw [if_neg enabled]
  · intro value scale fits scales
    obtain ⟨back, isBack, restores⟩ := convertInt64ToNumeric_restores fits scales
    exact ⟨back, isBack, restores.canonical, restores.value, restores.dscale⟩
  · intro value scale fits scales
    obtain ⟨back, isBack, restores⟩ := convertInt128ToNumeric_restores fits scales
    exact ⟨back, isBack, restores.canonical, restores.value, restores.dscale⟩

/-- A negative fraction and the least number of 64 bits. -/
theorem conversions_are_lossless_fraction :
    (∃ fast back, tryConvertNumericNormalToFast true (.normal ⟨.neg, 0, 1, [12, 5000]⟩) = some fast ∧
      makeNumericNormal fast = some back ∧ back.var = ⟨.neg, 0, 1, [12, 5000]⟩) ∧
      ∃ back, makeNumericNormal (.bi64 (-2 ^ 63) 19) = some back ∧
        back.var.value = ((-2 ^ 63 : Int) : ℚ) / 10 ^ 19 := by
  obtain ⟨fromNormal, from64, -⟩ := conversions_are_lossless
  have value : NumericVar.value ⟨.neg, 0, 1, [12, 5000]⟩ = -125 / 10 := by
    rw [NumericVar.value, show digitsValue 10000 [12, 5000] = 125000 from rfl]
    norm_num [Sign.factor]
  have canonical : NumericVar.Canonical ⟨.neg, 0, 1, [12, 5000]⟩ :=
    ⟨by decide, by decide, by decide, (fun none => by cases none), -125, by rw [value]; norm_num⟩
  obtain ⟨fast, isFast, accepted, restored⟩ := fromNormal true _ canonical
  have changed : fast ≠ .normal ⟨.neg, 0, 1, [12, 5000]⟩ :=
    fun same => accepted.mp same ⟨rfl, by decide⟩
  obtain ⟨-, -, back, isBack, same⟩ := restored changed
  obtain ⟨least, isLeast, -, denotes, -⟩ := from64 (-2 ^ 63) 19 (by decide) (by decide)
  exact ⟨⟨fast, back, isFast, isBack, same⟩, least, isLeast, denotes⟩

end OpenGauss.Numerics
