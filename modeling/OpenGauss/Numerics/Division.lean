import OpenGauss.Base.Rounding
import OpenGauss.Numerics.Lossless
import OpenGauss.Numerics.Arithmetic
import Mathlib.Tactic.LinearCombination

/-!
# Division of fast numerics

The quotient of two fast numerics gets as many decimals as the quotient of the ordinary forms, which
is told by the weight and the first digit that both operands have to the base 10000. The dividend is
multiplied by a power of ten, divided with one decimal more than the result shows, and the last digit
is rounded off. Where the product leaves 128 bits, or the decimals leave the table of powers, the
operands are turned into ordinary numerics.
-/
namespace OpenGauss.Numerics

open Option OpenGauss.Base

section Functions

/-- The loop of `getBiWeightDigit` over the data before the decimal point, which makes at least one
turn. -/
def preWeight : Nat → Nat → Nat → Option (Int × Nat)
  | 0, _, _ => none
  | room + 1, preData, digits =>
    if preData / 10000 = 0 then some (digits, preData % 10000)
    else preWeight room (preData / 10000) (digits + 1)

/-- The loop of `getBiWeightDigit` over the data behind the decimal point. -/
def postWeight : Nat → Nat → Nat → Nat → Option (Int × Nat)
  | 0, _, _, _ => none
  | room + 1, postData, resultScale, digits =>
    if postData ≠ 0 ∧ 4 ≤ resultScale then
      (getScaleMultiplier ((resultScale : Int) - 4)).bind fun power =>
        if postData / power.toNat ≠ 0 then
          some (-((digits : Int) + 1), postData / power.toNat)
        else postWeight room (postData % power.toNat) (resultScale - 4) (digits + 1)
    else
      (scaleMultipler (4 - (resultScale : Int))).map fun power =>
        (-((digits : Int) + 1), postData * power.toNat)

/-- The weight and the first digit of a number with some decimals, to the base 10000
(`getBiWeightDigit`). -/
def getBiWeightDigit (val scale : Nat) : Option (Int × Nat) :=
  (getScaleMultiplier scale).bind fun power =>
    let preData := val / power.toNat
    let postData := val % power.toNat
    if preData ≠ 0 then preWeight 10 preData 0
    else if postData ≠ 0 then postWeight 10 postData scale 0
    else some (0, 0)

/-- `NUMERIC_MIN_SIG_DIGITS`. -/
def numericMinSigDigits : Int := 16

/-- The estimated weight of a quotient. If the two first digits are equal, the first operand is assumed
to be less than the second. -/
def quotientWeight (weight1 : Int) (firstdigit1 : Nat) (weight2 : Int) (firstdigit2 : Nat) : Int :=
  let qweight := weight1 - weight2
  if firstdigit1 ≤ firstdigit2 then qweight - 1 else qweight

/-- The scale of a quotient whose weight is estimated. -/
def quotientScale (qweight : Int) (scale1 scale2 : Nat) : Int :=
  max (max (numericMinSigDigits - qweight * 4) scale1) scale2

/-- The size of a number, as the functions for fast numerics take it: the opposite is computed with the
width of the number and read without a sign. -/
def unsignedSize (wrap : Int → Int) (modulus value : Int) : Nat :=
  ((if 0 ≤ value then value else wrap (-value)) % modulus).toNat

/-- The dividend with enough decimals; nothing where the scale leaves the table or the product leaves 128
bits. -/
def scaledDividend (leftval rscale adjustScale : Int) : Option Int :=
  if rscale ≤ 38 ∧ adjustScale ≤ 38 then
    (getScaleMultiplier adjustScale).bind fun power => int128Exact (leftval * power)
  else none

/-- The result with the width that it needs. -/
def makeQuotient (result rscale : Int) : Numeric :=
  if rscale ≤ 19 ∧ InInt64 result then .bi64 result rscale.toNat else .bi128 result rscale.toNat

/-- What a division ends with. -/
inductive Quotient
  | divisionByZero
  | fast (result : Numeric)
  | ordinary (left right : NumericShort)
  deriving DecidableEq

/-- The division of two numbers of some width. -/
def biDivide (size : Int → Nat) (leftval : Int) (lvalscale : Nat) (rightval : Int)
    (rvalscale : Nat) (larg rarg : Numeric) : Option Quotient :=
  if rightval = 0 then some .divisionByZero
  else
    (getBiWeightDigit (size leftval) lvalscale).bind fun (weight1, firstdigit1) =>
    (getBiWeightDigit (size rightval) rvalscale).bind fun (weight2, firstdigit2) =>
      let qweight := quotientWeight weight1 firstdigit1 weight2 firstdigit2
      -- one decimal more, for the bound of the last digit
      let rscale := quotientScale qweight lvalscale rvalscale + 1
      match scaledDividend leftval rscale (rscale + rvalscale - lvalscale) with
      | some divnum =>
        (int128Exact (divnum.tdiv rightval)).map fun result =>
          .fast (makeQuotient (roundLastDigit result) (rscale - 1))
      | none =>
        (makeNumericNormal larg).bind fun left =>
          (makeNumericNormal rarg).map fun right => .ordinary left right

/-- Divide two numbers of 64 bits. -/
def bi64div64 (larg rarg : Numeric) : Option Quotient :=
  (numericBiScale larg).bind fun lvalscale => (numericBiScale rarg).bind fun rvalscale =>
  (int128GetVal false larg).bind fun leftval => (int128GetVal false rarg).bind fun rightval =>
    biDivide (unsignedSize wrap64 (2 ^ 64)) leftval lvalscale rightval rvalscale larg rarg

/-- Divide two numbers, at least one of them of 128 bits. -/
def bi128div128 (largIsInt128 rargIsInt128 : Bool) (larg rarg : Numeric) : Option Quotient :=
  (numericBiScale larg).bind fun lvalscale => (numericBiScale rarg).bind fun rvalscale =>
  (int128GetVal largIsInt128 larg).bind fun leftval =>
  (int128GetVal rargIsInt128 rarg).bind fun rightval =>
    biDivide (unsignedSize wrap128 (2 ^ 128)) leftval lvalscale rightval rvalscale larg rarg

/-- Divide through the function for the widths of the operands (`BiFunMatrix`, `BIDIV`). -/
def bipickdiv (larg rarg : Numeric) : Option Quotient :=
  if numericIsBi128 larg || numericIsBi128 rarg then
    bi128div128 (numericIsBi128 larg) (numericIsBi128 rarg) larg rarg
  else bi64div64 larg rarg

/-- The loop of `select_div_scale` over the digits of an operand. -/
def varWeightDigit : Int → List Nat → Int × Nat
  | _, [] => (0, 0)
  | weight, digit :: rest => if digit ≠ 0 then (weight, digit) else varWeightDigit (weight - 1) rest

/-- `NUMERIC_MAX_DISPLAY_SCALE`. -/
def numericMaxDisplayScale : Int := 1000

/-- `select_div_scale`. -/
def selectDivScale (var1 var2 : NumericVar) : Int :=
  let (weight1, firstdigit1) := varWeightDigit var1.weight var1.digits
  let (weight2, firstdigit2) := varWeightDigit var2.weight var2.digits
  let rscale := quotientScale (quotientWeight weight1 firstdigit1 weight2 firstdigit2)
    var1.dscale var2.dscale
  min (max rscale 0) numericMaxDisplayScale

/-- `numeric_div` for ordinary numerics. The function that divides their digits (`div_var`) is a
parameter; `DivVarRounds` says what is used of it. -/
def numericDiv (divVar : NumericVar → NumericVar → Nat → NumericVar) (num1 num2 : NumericVar) :
    NumericVar :=
  divVar num1 num2 (selectDivScale num1 num2).toNat

end Functions

section Weights

/-- The weight and the first digit of a number to the base 10000; zero has none. -/
def LeadingDigit (number : ℚ) (weight : Int) (digit : Nat) : Prop :=
  (number = 0 ∧ weight = 0 ∧ digit = 0) ∨
    (1 ≤ digit ∧ digit < 10000 ∧ digit * (10000 : ℚ) ^ weight ≤ number ∧
      number < (digit + 1) * (10000 : ℚ) ^ weight)

/-- A number has one leading digit. -/
theorem LeadingDigit.unique {number : ℚ} {weight weight' : Int} {digit digit' : Nat}
    (first : LeadingDigit number weight digit) (second : LeadingDigit number weight' digit') :
    weight = weight' ∧ digit = digit' := by
  have order (weight weight' : Int) (digit digit' : Nat) (small : digit < 10000)
      (most : number < (digit + 1) * (10000 : ℚ) ^ weight) (low' : 1 ≤ digit')
      (least' : digit' * (10000 : ℚ) ^ weight' ≤ number) : weight' ≤ weight := by
    by_contra less
    have reach : (digit + 1) * (10000 : ℚ) ^ weight ≤ (10000 : ℚ) ^ (weight + 1) := by
      rw [zpow_add_one₀ (by norm_num), mul_comm]
      have cast : (digit : ℚ) + 1 ≤ 10000 := by exact_mod_cast small
      exact mul_le_mul_of_nonneg_left cast (by positivity)
    have step : (10000 : ℚ) ^ (weight + 1) ≤ (10000 : ℚ) ^ weight' :=
      zpow_le_zpow_right₀ (by norm_num) (by omega)
    have front : (10000 : ℚ) ^ weight' ≤ digit' * (10000 : ℚ) ^ weight' :=
      le_mul_of_one_le_left (by positivity) (by exact_mod_cast low')
    linarith
  have positive (weight : Int) (digit : Nat) (low : 1 ≤ digit)
      (least : digit * (10000 : ℚ) ^ weight ≤ number) : 0 < number := by
    exact lt_of_lt_of_le (by positivity) least
  rcases first with ⟨zero, rfl, rfl⟩ | ⟨low, small, least, most⟩
  · rcases second with ⟨-, rfl, rfl⟩ | ⟨low', -, least', -⟩
    · exact ⟨rfl, rfl⟩
    · exact absurd zero (positive weight' digit' low' least').ne'
  · rcases second with ⟨zero, -, -⟩ | ⟨low', small', least', most'⟩
    · exact absurd zero (positive weight digit low least).ne'
    · have same : weight = weight' := le_antisymm
        (order weight' weight digit' digit small' most' low least)
        (order weight weight' digit digit' small most low' least')
      subst same
      have unit : (0 : ℚ) < (10000 : ℚ) ^ weight := by positivity
      have one := lt_of_mul_lt_mul_right (lt_of_le_of_lt least most') unit.le
      have other := lt_of_mul_lt_mul_right (lt_of_le_of_lt least' most) unit.le
      norm_cast at one other
      exact ⟨rfl, by omega⟩

/-- The loop finds the leading digit in front of the point. -/
theorem preWeight_spec (room preData digits : Nat) (positive : 0 < preData)
    (fits : preData < 10000 ^ room) :
    ∃ more digit, preWeight room preData digits = some (((digits + more : Nat) : Int), digit) ∧ 1 ≤ digit ∧
      digit < 10000 ∧ digit * 10000 ^ more ≤ preData ∧ preData < (digit + 1) * 10000 ^ more := by
  induction room generalizing preData digits with
  | zero =>
    omega
  | succ room ih =>
    rw [preWeight]
    split
    · refine ⟨0, preData % 10000, rfl, ?_, Nat.mod_lt _ (by decide), ?_, ?_⟩ <;> lia
    · obtain ⟨rest, digit, result, low, high, least, most⟩ := ih (preData / 10000) (digits + 1)
        (by lia) (by omega)
      refine ⟨rest + 1, digit, ?_, low, high, ?_, ?_⟩
      · lia
      · rw [Nat.pow_succ, ← Nat.mul_assoc]
        exact (Nat.le_div_iff_mul_le (by decide)).mp least
      · rw [Nat.pow_succ, ← Nat.mul_assoc]
        exact (Nat.div_lt_iff_lt_mul (by decide)).mp most

/-- The loop behind the decimal point finds the first digit. -/
theorem postWeight_spec (room postData resultScale digits : Nat) (positive : 0 < postData)
    (fits : postData < 10 ^ resultScale) (small : resultScale ≤ 38)
    (enough : resultScale < 4 * room) : ∃ more digit, postWeight room postData resultScale digits =
        some (-(((digits + more : Nat) : Int) + 1), digit) ∧ 1 ≤ digit ∧ digit < 10000 ∧
      digit * 10 ^ resultScale ≤ postData * 10000 ^ (more + 1) ∧
      postData * 10000 ^ (more + 1) < (digit + 1) * 10 ^ resultScale := by
  induction room generalizing postData resultScale digits with
  | zero => omega
  | succ room ih =>
    rw [postWeight]
    by_cases whole : 4 ≤ resultScale
    · obtain ⟨rest, rfl⟩ := Nat.exists_eq_add_of_le' whole
      have index : ((rest + 4 : Nat) : Int) - 4 = (rest : Nat) := by omega
      have power : ((10 : Int) ^ rest).toNat = 10 ^ rest := by
        have cast : (10 : Int) ^ rest = ((10 ^ rest : Nat) : Int) := by push_cast; rfl
        rw [cast, Int.toNat_natCast]
      have scale : 10 ^ (rest + 4) = 10 ^ rest * 10000 := Nat.pow_add 10 rest 4
      rw [scale] at fits ⊢
      rw [if_pos ⟨by omega, whole⟩, index, getScaleMultiplier_of_le rest (by omega), bind_some,
        power]
      have unit : 0 < 10 ^ rest := Nat.pow_pos (by decide)
      by_cases found : postData / 10 ^ rest = 0
      · have below : postData < 10 ^ rest := Nat.lt_of_div_eq_zero unit found
        rw [Nat.mod_eq_of_lt below]
        obtain ⟨more, digit, result, low, high, least, most⟩ := ih postData rest (digits + 1) positive
          below (by omega) (by lia)
        refine ⟨more + 1, digit, ?_, low, high, ?_, ?_⟩
        · lia
        · rw [Nat.pow_succ 10000 (more + 1), ← Nat.mul_assoc, ← Nat.mul_assoc]
          exact Nat.mul_le_mul_right 10000 least
        · rw [Nat.pow_succ 10000 (more + 1), ← Nat.mul_assoc, ← Nat.mul_assoc]
          exact Nat.mul_lt_mul_of_pos_right most (by decide)
      · rw [if_pos found]
        refine ⟨0, postData / 10 ^ rest, rfl, Nat.pos_of_ne_zero found, Nat.div_lt_of_lt_mul fits, ?_, ?_⟩
        · rw [← Nat.mul_assoc]
          exact Nat.mul_le_mul_right 10000 (Nat.div_mul_le_self _ _)
        · rw [← Nat.mul_assoc]
          apply Nat.mul_lt_mul_of_pos_right _ (by decide)
          rw [Nat.add_mul, Nat.one_mul]
          exact Nat.lt_div_mul_add unit
    · obtain ⟨pad, isPad⟩ := Nat.exists_eq_add_of_lt (Nat.lt_of_not_le whole)
      have index : (4 : Int) - resultScale = ((pad + 1 : Nat) : Int) := by lia
      have power : ((10 : Int) ^ (pad + 1)).toNat = 10 ^ (pad + 1) := by
        have cast : (10 : Int) ^ (pad + 1) = ((10 ^ (pad + 1) : Nat) : Int) := by push_cast; rfl
        rw [cast, Int.toNat_natCast]
      have scale : 10 ^ (pad + 1) * 10 ^ resultScale = 10000 := by
        rw [← Nat.pow_add, show pad + 1 + resultScale = 4 by lia]
      have unit : 0 < 10 ^ (pad + 1) := Nat.pow_pos (by decide)
      have product : postData * 10 ^ (pad + 1) * 10 ^ resultScale = postData * 10000 := by
        rw [Nat.mul_assoc, scale]
      rw [if_neg (by lia), index, scaleMultipler_of_le (pad + 1) (by lia)]
      refine ⟨0, postData * 10 ^ (pad + 1), rfl, ?_, ?_, ?_, ?_⟩
      · exact Nat.mul_pos positive unit
      · calc postData * 10 ^ (pad + 1) < 10 ^ resultScale * 10 ^ (pad + 1) :=
              Nat.mul_lt_mul_of_pos_right fits unit
          _ = 10000 := by rw [Nat.mul_comm, scale]
      · rw [product, Nat.pow_one]
      · rw [Nat.add_mul, product, Nat.one_mul]
        exact Nat.lt_add_of_pos_right (Nat.pow_pos (by decide))

theorem toNat_ten_pow (scale : Nat) : ((10 : Int) ^ scale).toNat = 10 ^ scale := by
  have cast : (10 : Int) ^ scale = ((10 ^ scale : Nat) : Int) := by
    rfl
  rw [cast, Int.toNat_natCast]

/-- The leading digit of a fast numeric. -/
theorem getBiWeightDigit_spec (val scale : Nat) (fits : val < 2 ^ 128) (small : scale ≤ 38) :
    ∃ weight digit, getBiWeightDigit val scale = some (weight, digit) ∧
      LeadingDigit ((val : ℚ) / 10 ^ scale) weight digit := by
  have unit : 0 < 10 ^ scale := Nat.pow_pos (by decide)
  have unitCast : (0 : ℚ) < 10 ^ scale := by positivity
  rw [getBiWeightDigit, getScaleMultiplier_of_le scale small, bind_some, toNat_ten_pow]
  by_cases whole : val / 10 ^ scale = 0
  · rw [if_neg (by rw [whole]; simp), Nat.mod_eq_of_lt (Nat.lt_of_div_eq_zero unit whole)]
    have below : val < 10 ^ scale := Nat.lt_of_div_eq_zero unit whole
    by_cases zero : val = 0
    · rw [if_neg (by rw [zero]; simp)]
      exact ⟨0, 0, rfl, .inl ⟨by rw [zero, Nat.cast_zero, zero_div], rfl, rfl⟩⟩
    · rw [if_pos zero]
      obtain ⟨more, digit, result, low, high, least, most⟩ := postWeight_spec 10 val scale 0
        (Nat.pos_of_ne_zero zero) below small (by omega)
      rw [Nat.zero_add] at result
      refine ⟨_, digit, result, .inr ⟨low, high, ?_, ?_⟩⟩
      · rw [zpow_neg, ← div_eq_mul_inv, div_le_div_iff₀ (by positivity) unitCast]
        exact_mod_cast least
      · rw [zpow_neg, ← div_eq_mul_inv, div_lt_div_iff₀ unitCast (by positivity)]
        exact_mod_cast most
  · rw [if_pos whole]
    have bound : val / 10 ^ scale < 10000 ^ 10 :=
      lt_of_le_of_lt (Nat.div_le_self _ _) (lt_trans fits (by norm_num))
    obtain ⟨more, digit, result, low, high, least, most⟩ := preWeight_spec 10 (val / 10 ^ scale) 0
      (Nat.pos_of_ne_zero whole) bound
    rw [Nat.zero_add] at result
    have least' : digit * 10000 ^ more * 10 ^ scale ≤ val :=
      le_trans (Nat.mul_le_mul_right _ least) (Nat.div_mul_le_self _ _)
    have most' : val < (digit + 1) * 10000 ^ more * 10 ^ scale :=
      (Nat.div_lt_iff_lt_mul unit).mp most
    refine ⟨_, digit, result, .inr ⟨low, high, ?_, ?_⟩⟩
    · rw [le_div_iff₀ unitCast]
      exact_mod_cast least'
    · rw [div_lt_iff₀ unitCast]
      exact_mod_cast most'

/-- The size of a number is computed without a sign. -/
theorem unsignedSize_eq {bits : Nat} {value : Int} (least : -2 ^ bits ≤ value)
    (most : value < 2 ^ bits) :
    unsignedSize (fun value => (value + 2 ^ bits) % 2 ^ (bits + 1) - 2 ^ bits) (2 ^ (bits + 1))
      value = value.natAbs := by
  have double : (2 : Int) ^ (bits + 1) = 2 ^ bits * 2 := pow_succ _ _
  rw [unsignedSize]
  generalize (2 : Int) ^ bits = half at *
  rw [double]
  split
  · rw [Int.emod_eq_of_lt (by omega) (by lia)]
    lia
  · by_cases edge : -value = half
    · have wraps : (-value + half) % (half * 2) = 0 := by
        rw [edge, ← mul_two, Int.emod_self]
      have read : (0 - half) % (half * 2) = half := by
        rw [← Int.add_emod_right (0 - half) (half * 2)]
        rw [Int.emod_eq_of_lt (by lia) (by lia)]
        omega
      grind
    · have inner : (-value + half) % (half * 2) = -value + half :=
        Int.emod_eq_of_lt (by lia) (by lia)
      rw [Int.emod_eq_of_lt (by lia) (by lia)]
      lia

/-- The leading digit of an ordinary numeric. -/
theorem varWeightDigit_spec {var : NumericVar} (canonical : var.Canonical) :
    LeadingDigit |var.value| (varWeightDigit var.weight var.digits).1
      (varWeightDigit var.weight var.digits).2 := by
  have sign : |(var.sign.factor : ℚ)| = 1 := by
    rcases var.sign.factor_cases with positive | negative
    · rw [positive, Int.cast_one, abs_one]
    · rw [negative, Int.cast_neg, Int.cast_one, abs_neg, abs_one]
  have size : |var.value| = digitsValue 10000 var.digits *
      (10000 : ℚ) ^ (var.weight + 1 - var.digits.length) := by
    have nonnegative : (0 : ℚ) ≤ digitsValue 10000 var.digits *
        (10000 : ℚ) ^ (var.weight + 1 - var.digits.length) := by positivity
    rw [NumericVar.value, mul_assoc, abs_mul, sign, one_mul, abs_of_nonneg nonnegative]
  rw [size]
  cases digits : var.digits with
  | nil =>
    left
    rw [digitsValue, List.foldl_nil, Nat.cast_zero, zero_mul]
    exact ⟨rfl, rfl, rfl⟩
  | cons digit rest =>
    have head := canonical.head
    have small := canonical.small
    rw [digits] at head small
    rw [List.head?_cons, ne_eq, some.injEq] at head
    have below := digitsValue_lt 10000 (by decide) rest
      (fun other member => small other (List.mem_cons_of_mem _ member))
    right
    rw [varWeightDigit, if_pos head, digitsValue_cons, List.length_cons]
    have unit : (0 : ℚ) < (10000 : ℚ) ^ (var.weight - rest.length) := by positivity
    have place : var.weight + 1 - ((rest.length + 1 : Nat) : Int) = var.weight - rest.length := by
      push_cast
      ring
    have split : (10000 : ℚ) ^ var.weight =
        10000 ^ rest.length * (10000 : ℚ) ^ (var.weight - rest.length) := by
      rw [← zpow_natCast, ← zpow_add₀ (by norm_num)]
      congr 1
      ring
    rw [place, split, ← mul_assoc, ← mul_assoc]
    refine ⟨Nat.pos_of_ne_zero head, small digit List.mem_cons_self, ?_, ?_⟩
    · apply mul_le_mul_of_nonneg_right _ unit.le
      push_cast
      linarith [Nat.cast_nonneg (α := ℚ) (digitsValue 10000 rest)]
    · apply mul_lt_mul_of_pos_right _ unit
      have cast : ((digitsValue 10000 rest : Nat) : ℚ) < 10000 ^ rest.length := by
        exact_mod_cast below
      push_cast
      linarith

end Weights

section Results

/-- What is used of `div_var`, the division of digit arrays, which is not embedded: it gives the
quotient with the decimals it is asked for, rounded at the last of them. -/
def DivVarRounds (divVar : NumericVar → NumericVar → Nat → NumericVar) : Prop :=
  ∀ (left right : NumericVar) (rscale : Nat), left.Canonical → right.Canonical → right.value ≠ 0 →
    (divVar left right rscale).Canonical ∧
      (divVar left right rscale).value = roundHalfAway rscale (left.value / right.value) ∧
      (divVar left right rscale).dscale = rscale

/-- What is said of a fast result. -/
structure FastQuotient (divVar : NumericVar → NumericVar → Nat → NumericVar) (larg rarg : Numeric)
    (left : Int) (lscale : Nat) (right : Int) (rscale : Nat) (result : Numeric) : Prop where
  valid : result.Valid
  /-- The weights and first digits of the operands tell the scale, and the result is the quotient rounded
  to it. -/
  rounded : ∃ weight1 digit1 weight2 digit2,
    LeadingDigit |(left : ℚ) / 10 ^ lscale| weight1 digit1 ∧
    LeadingDigit |(right : ℚ) / 10 ^ rscale| weight2 digit2 ∧
    (result.scale : Int) =
      max (max (16 - 4 * quotientWeight weight1 digit1 weight2 digit2) lscale) rscale ∧
    result.denotes =
      some (roundHalfAway result.scale ((left : ℚ) / 10 ^ lscale / (right / 10 ^ rscale)))
  ordinary : ∃ leftShort rightShort, makeNumericNormal larg = some leftShort ∧
    makeNumericNormal rarg = some rightShort ∧
    result.denotes = some (numericDiv divVar leftShort.var rightShort.var).value ∧
    result.scale = (numericDiv divVar leftShort.var rightShort.var).dscale

theorem quotientScale_ge (qweight : Int) (scale1 scale2 : Nat) :
    (scale1 : Int) ≤ quotientScale qweight scale1 scale2 ∧
      (scale2 : Int) ≤ quotientScale qweight scale1 scale2 := by
  rw [quotientScale]
  omega

theorem selectDivScale_eq {leftVar rightVar : NumericVar} {left right : ℚ}
    (leftCanonical : leftVar.Canonical) (rightCanonical : rightVar.Canonical)
    (leftValue : leftVar.value = left) (rightValue : rightVar.value = right)
    {weight1 weight2 : Int} {digit1 digit2 : Nat} (leading1 : LeadingDigit |left| weight1 digit1)
    (leading2 : LeadingDigit |right| weight2 digit2) : selectDivScale leftVar rightVar =
      min (max (quotientScale (quotientWeight weight1 digit1 weight2 digit2)
        leftVar.dscale rightVar.dscale) 0) numericMaxDisplayScale := by
  have one := varWeightDigit_spec leftCanonical
  have two := varWeightDigit_spec rightCanonical
  rw [leftValue] at one
  rw [rightValue] at two
  obtain ⟨same1, digits1⟩ := one.unique leading1
  obtain ⟨same2, digits2⟩ := two.unique leading2
  rw [selectDivScale, ← same1, ← digits1, ← same2, ← digits2]

theorem makeQuotient_spec {result : Int} (rscale : Nat) (fits : InInt128 result)
    (small : rscale ≤ 38) : (makeQuotient result rscale).Valid ∧
      (makeQuotient result rscale).denotes = some ((result : ℚ) / 10 ^ rscale) ∧
      (makeQuotient result rscale).scale = rscale := by
  rw [makeQuotient]
  split
  · rename_i short
    exact ⟨⟨short.2, by omega⟩, rfl, rfl⟩
  · exact ⟨⟨fits, small⟩, rfl, rfl⟩

theorem roundLastDigit_inInt128 (value : Int) (fits : InInt128 value) :
    InInt128 (roundLastDigit value) := by
  obtain ⟨least, most⟩ := fits
  rcases Int.natAbs_eq value with positive | negative
  · rw [positive, roundLastDigit_natCast]
    exact ⟨by lia, by lia⟩
  · rw [negative, roundLastDigit_neg]
    exact ⟨by lia, by lia⟩

theorem tdiv_inInt128 (leftval rightval : Int) {more : Nat}
    (fits : InInt128 (leftval * 10 ^ (more + 1))) :
    InInt128 ((leftval * 10 ^ (more + 1)).tdiv rightval) := by
  obtain ⟨least, most⟩ := fits
  have multiple : leftval * 10 ^ (more + 1) = leftval * 10 ^ more * 10 := by
    rw [pow_succ, mul_assoc]
  have size : ((leftval * 10 ^ (more + 1)).tdiv rightval).natAbs ≤
      (leftval * 10 ^ (more + 1)).natAbs := by
    rw [Int.natAbs_tdiv]
    exact Nat.div_le_self _ _
  generalize leftval * 10 ^ more = factor at *
  exact ⟨by omega, by omega⟩

/-- The dividend is scaled by a power of ten. -/
theorem scaledDividend_some {leftval : Int} {lscale rscale rvalscale : Nat} {divnum : Int}
    (order : lscale ≤ rscale)
    (scaled : scaledDividend leftval (rscale + 1) (rscale + 1 + rvalscale - lscale) = some divnum) :
    rscale + 1 ≤ 38 ∧ divnum = leftval * 10 ^ (rscale + rvalscale - lscale + 1) ∧ InInt128 divnum := by
  have index : (rscale : Int) + 1 + rvalscale - lscale =
      ((rscale + rvalscale - lscale + 1 : Nat) : Int) := by lia
  rw [scaledDividend, index] at scaled
  split at scaled
  · rw [getScaleMultiplier_of_le _ (by omega), bind_some, int128Exact] at scaled
    split at scaled
    · rename_i fits
      rw [some.injEq] at scaled
      exact ⟨by lia, scaled.symm, by rw [← scaled]; exact fits⟩
    · exact absurd scaled (by simp)
  · exact absurd scaled (by simp)

/-- A division gives a result for all operands, and a fast result is the rounded quotient. -/
theorem biDivide_spec {divVar : NumericVar → NumericVar → Nat → NumericVar}
    (rounds : DivVarRounds divVar) {size : Int → Nat} {larg rarg : Numeric} {left : Int}
    {lscale : Nat} {right : Int} {rscale : Nat} (isLeft : FastOf larg left lscale)
    (isRight : FastOf rarg right rscale) (leftSize : size left = left.natAbs)
    (rightSize : size right = right.natAbs) :
    ∃ quotient, biDivide size left lscale right rscale larg rarg = some quotient ∧
      (quotient = .divisionByZero ↔ right = 0) ∧ ∀ result, quotient = .fast result →
        FastQuotient divVar larg rarg left lscale right rscale result := by
  obtain ⟨-, -, leftFits, lsmall, leftShort, leftNormal, leftRestores⟩ :=
    FastOf.read isLeft
  obtain ⟨-, -, rightFits, rsmall, rightShort, rightNormal, rightRestores⟩ :=
    FastOf.read isRight
  rw [biDivide]
  by_cases zero : right = 0
  · rw [if_pos zero]
    exact ⟨_, rfl, ⟨fun _ => zero, fun _ => rfl⟩, fun result no => Quotient.noConfusion no⟩
  rw [if_neg zero, leftSize, rightSize]
  have abs_value (value : Int) (scale : Nat) :
      (value.natAbs : ℚ) / 10 ^ scale = |(value : ℚ) / 10 ^ scale| := by
    rw [Nat.cast_natAbs, abs_div, Int.cast_abs, abs_of_pos (a := (10 : ℚ) ^ scale) (by positivity)]
  obtain ⟨weight1, digit1, found1, leading1⟩ := getBiWeightDigit_spec left.natAbs lscale
    (by obtain ⟨least, most⟩ := leftFits; lia) lsmall
  obtain ⟨weight2, digit2, found2, leading2⟩ := getBiWeightDigit_spec right.natAbs rscale
    (by obtain ⟨least, most⟩ := rightFits; omega) rsmall
  rw [abs_value] at leading1 leading2
  rw [found1, bind_some]
  dsimp only
  rw [found2, bind_some]
  obtain ⟨leftLow, rightLow⟩ :=
    quotientScale_ge (quotientWeight weight1 digit1 weight2 digit2) lscale rscale
  obtain ⟨scale, isScale⟩ := Int.eq_ofNat_of_zero_le (le_trans (Int.natCast_nonneg lscale) leftLow)
  rw [isScale] at leftLow rightLow ⊢
  rw [Int.ofNat_le] at leftLow rightLow
  have back : ((scale : Nat) : Int) + 1 - 1 = scale := by omega
  cases scaled : scaledDividend left (((scale : Nat) : Int) + 1)
      (((scale : Nat) : Int) + 1 + rscale - lscale) with
  | none =>
    rw [leftNormal, rightNormal]
    exact ⟨_, rfl, ⟨fun no => Quotient.noConfusion no, fun isZero => absurd isZero zero⟩,
      fun result no => Quotient.noConfusion no⟩
  | some divnum =>
    obtain ⟨small, rfl, fits⟩ := scaledDividend_some leftLow scaled
    have quotientFits := tdiv_inInt128 left right fits
    dsimp only
    rw [int128Exact, if_pos quotientFits, back]
    refine ⟨_, rfl, ⟨fun no => Quotient.noConfusion no, fun isZero => absurd isZero zero⟩,
      fun result same => ?_⟩
    obtain ⟨valid, denotes, isResultScale⟩ := makeQuotient_spec scale
      (roundLastDigit_inInt128 _ quotientFits) (by lia)
    rw [Quotient.fast.injEq] at same
    subst same
    have value : ((left * 10 ^ (scale + rscale - lscale + 1) : Int) : ℚ) / right / 10 ^ (scale + 1) =
        (left : ℚ) / 10 ^ lscale / (right / 10 ^ rscale) := by
      have powers : (10 : ℚ) ^ (scale + rscale - lscale + 1) * 10 ^ lscale =
          10 ^ (scale + 1) * 10 ^ rscale := by
        rw [← pow_add, ← pow_add]
        congr 1
        lia
      push_cast
      rw [div_div, div_div_div_eq, div_eq_div_iff (by positivity) (by positivity)]
      linear_combination (left : ℚ) * right * powers
    rw [roundLastDigit_tdiv scale _ right zero, value] at denotes
    refine ⟨valid, ⟨weight1, digit1, weight2, digit2, leading1, leading2, ?_, ?_⟩, ?_⟩
    · rw [isResultScale, ← isScale, quotientScale, numericMinSigDigits, mul_comm]
    · rw [denotes, isResultScale]
    · refine ⟨leftShort, rightShort, leftNormal, rightNormal, ?_⟩
      have selected := selectDivScale_eq leftRestores.canonical
        rightRestores.canonical leftRestores.value rightRestores.value
        leading1 leading2
      rw [leftRestores.dscale, rightRestores.dscale, numericMaxDisplayScale] at selected
      have toScale : (selectDivScale leftShort.var rightShort.var).toNat = scale := by
        lia
      have divisor : rightShort.var.value ≠ 0 := by
        rw [rightRestores.value]
        positivity
      obtain ⟨-, ordinaryValue, ordinaryScale⟩ := rounds leftShort.var rightShort.var scale
        leftRestores.canonical rightRestores.canonical divisor
      rw [leftRestores.value, rightRestores.value] at ordinaryValue
      rw [numericDiv, toScale, ordinaryValue, ordinaryScale]
      exact ⟨denotes, isResultScale⟩

/-- Division of fast numerics is exact up to the rounding. The weight and the first digit of every number
with every scale are found; a division of fast numerics of all widths and scales ends with an error for
a divisor of zero, a call of the division of ordinary numerics or a fast result; and a fast result is
the quotient rounded half away from zero at the scale that the operands select, which is what the
division of ordinary numerics gives. -/
theorem fast_division_rounds (divVar : NumericVar → NumericVar → Nat → NumericVar)
    (rounds : DivVarRounds divVar) : (∀ val scale : Nat, val < 2 ^ 128 → scale ≤ 38 →
      ∃ weight digit, getBiWeightDigit val scale = some (weight, digit) ∧
        LeadingDigit ((val : ℚ) / 10 ^ scale) weight digit) ∧
    ∀ (larg rarg : Numeric) (left : Int) (lscale : Nat) (right : Int) (rscale : Nat),
      FastOf larg left lscale → FastOf rarg right rscale →
      ∃ quotient, bipickdiv larg rarg = some quotient ∧ (quotient = .divisionByZero ↔ right = 0) ∧
        ∀ result, quotient = .fast result →
          FastQuotient divVar larg rarg left lscale right rscale result := by
  refine ⟨getBiWeightDigit_spec, fun larg rarg left lscale right rscale isLeft isRight => ?_⟩
  obtain ⟨leftScale, leftVal, leftFits, -, -⟩ := FastOf.read isLeft
  obtain ⟨rightScale, rightVal, rightFits, -, -⟩ := FastOf.read isRight
  have wide (value : Int) (fits : InInt128 value) :
      unsignedSize wrap128 (2 ^ 128) value = value.natAbs :=
    unsignedSize_eq fits.1 fits.2
  have narrow (value : Int) (fits : InInt64 value) :
      unsignedSize wrap64 (2 ^ 64) value = value.natAbs :=
    unsignedSize_eq fits.1 fits.2
  rw [bipickdiv]
  split
  · rw [bi128div128, leftScale, rightScale, leftVal,
      rightVal]
    exact biDivide_spec rounds isLeft isRight (wide left leftFits) (wide right rightFits)
  · rename_i short
    rcases isLeft with ⟨rfl, leftShort, lsmall⟩ | ⟨rfl, -, -⟩
    · rcases isRight with ⟨rfl, rightShort, rsmall⟩ | ⟨rfl, -, -⟩
      · exact biDivide_spec rounds
          (.inl ⟨rfl, leftShort, lsmall⟩) (.inl ⟨rfl, rightShort, rsmall⟩)
          (narrow left leftShort) (narrow right rightShort)
      · exact absurd (Bool.or_true _) short
    · exact absurd (Bool.true_or _) short

/-- The division of ordinary numerics as what it computes. -/
def roundedDivVar (left right : NumericVar) (rscale : Nat) : NumericVar :=
  ordinaryNumeric (roundHalfAway rscale (left.value / right.value) * 10 ^ rscale).num rscale

theorem roundHalfAway_whole (scale : Nat) (number : ℚ) :
    ∃ whole : Int, roundHalfAway scale number * 10 ^ scale = whole := by
  have positive : (10 : ℚ) ^ scale ≠ 0 := by positivity
  rw [roundHalfAway, div_mul_cancel₀ _ positive]
  split
  · exact ⟨-⌊|number| * 10 ^ scale + 1 / 2⌋, by rw [Int.cast_neg]⟩
  · exact ⟨⌊|number| * 10 ^ scale + 1 / 2⌋, rfl⟩

theorem roundedDivVar_rounds : DivVarRounds roundedDivVar := by
  intro left right rscale leftCanonical rightCanonical divisor
  have positive : (10 : ℚ) ^ rscale ≠ 0 := by positivity
  obtain ⟨whole, isWhole⟩ := roundHalfAway_whole rscale (left.value / right.value)
  obtain ⟨canonical, value, dscale⟩ := ordinaryNumeric_spec whole rscale
  rw [roundedDivVar, isWhole, Rat.num_intCast]
  refine ⟨canonical, ?_, dscale⟩
  rw [value, ← isWhole, mul_div_assoc, div_self positive, mul_one]

/-- One third is a fast result. -/
theorem fast_division_rounds_third : ∃ result,
    bipickdiv (.bi64 1 0) (.bi64 3 0) = some (.fast result) ∧
      FastQuotient roundedDivVar (.bi64 1 0) (.bi64 3 0) 1 0 3 0 result := by
  have third : bipickdiv (.bi64 1 0) (.bi64 3 0) =
      some (.fast (.bi128 33333333333333333333 20)) := by decide
  obtain ⟨quotient, found, -, fast⟩ :=
    (fast_division_rounds roundedDivVar roundedDivVar_rounds).2 (.bi64 1 0) (.bi64 3 0) 1 0 3 0
      (.inl ⟨rfl, by decide, by decide⟩) (.inl ⟨rfl, by decide, by decide⟩)
  rw [third, some.injEq] at found
  exact ⟨_, third, fast _ found.symm⟩

end Results

end OpenGauss.Numerics
