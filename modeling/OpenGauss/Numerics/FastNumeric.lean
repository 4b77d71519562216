import OpenGauss.Base.Digits

/-!
# Fast numerics

An ordinary numeric has a sign, digits to the base 10000 with the weight of the first one, and the
number of decimals to display. Short ones are kept as one machine integer with a decimal scale
instead: 64 bits with up to 19 decimals or 128 bits with up to 38. The module has both forms, the
tables of powers of ten, and the conversions of `numeric.cpp` from one to the other. An index outside
of a table or of a buffer of digits gives no result.
-/
namespace OpenGauss.Numerics

open OpenGauss.Base

/-- The sign of a numeric. -/
inductive Sign
  | pos
  | neg
  deriving DecidableEq

/-- The factor of a sign. -/
def Sign.factor : Sign → Int
  | .pos => 1
  | .neg => -1

/-- An ordinary numeric, as it is read into memory (`NumericVar`). -/
@[ext]
structure NumericVar where
  sign : Sign
  weight : Int
  dscale : Nat
  digits : List Nat
  deriving DecidableEq

/-- The number that a numeric stands for. -/
def NumericVar.value (var : NumericVar) : ℚ :=
  var.sign.factor * digitsValue 10000 var.digits *
    (10000 : ℚ) ^ (var.weight + 1 - var.digits.length)

/-- A numeric as the server stores it: without zeros in front and behind, with one form of zero, and
with no digit that the decimals to display would hide. -/
structure NumericVar.Canonical (var : NumericVar) : Prop where
  small : ∀ digit ∈ var.digits, digit < 10000
  head : var.digits.head? ≠ some 0
  last : var.digits.getLast? ≠ some 0
  zero : var.digits = [] → var.sign = .pos ∧ var.weight = 0
  shown : ∃ whole : Int, var.value * 10 ^ var.dscale = whole

/-- A number of 64 bits. -/
def InInt64 (value : Int) : Prop := -2 ^ 63 ≤ value ∧ value < 2 ^ 63

/-- A number of 128 bits. -/
def InInt128 (value : Int) : Prop := -2 ^ 127 ≤ value ∧ value < 2 ^ 127

instance (value : Int) : Decidable (InInt64 value) := inferInstanceAs (Decidable (_ ∧ _))

instance (value : Int) : Decidable (InInt128 value) := inferInstanceAs (Decidable (_ ∧ _))

/-- The number of 64 bits with the same low bits. -/
def wrap64 (value : Int) : Int := (value + 2 ^ 63) % 2 ^ 64 - 2 ^ 63

/-- The number of 128 bits with the same low bits. -/
def wrap128 (value : Int) : Int := (value + 2 ^ 127) % 2 ^ 128 - 2 ^ 127

/-- A value of 64 bits does not wrap. -/
theorem wrap64_of_in (value : Int) (fits : InInt64 value) : wrap64 value = value := by
  obtain ⟨least, most⟩ := fits
  rw [wrap64]
  omega

/-- A value of 128 bits does not wrap. -/
theorem wrap128_of_in (value : Int) (fits : InInt128 value) : wrap128 value = value := by
  obtain ⟨least, most⟩ := fits
  rw [wrap128]
  omega

/-- A numeric in one of its forms. -/
inductive Numeric
  | nan
  | bi64 (value : Int) (scale : Nat)
  | bi128 (value : Int) (scale : Nat)
  | normal (var : NumericVar)
  deriving DecidableEq

/-- A numeric whose parts have the ranges of its form. -/
def Numeric.Valid : Numeric → Prop
  | .nan => True
  | .bi64 value scale => InInt64 value ∧ scale ≤ 19
  | .bi128 value scale => InInt128 value ∧ scale ≤ 38
  | .normal var => var.Canonical

/-- The number that a numeric stands for, if it is one. -/
def Numeric.denotes : Numeric → Option ℚ
  | .nan => none
  | .bi64 value scale => some (value / 10 ^ scale)
  | .bi128 value scale => some (value / 10 ^ scale)
  | .normal var => some var.value

/-- The powers of ten that 64 bits hold; the entry behind them is 0 (`ScaleMultipler`). -/
def scaleMultipler (index : Int) : Option Int :=
  if 0 ≤ index ∧ index ≤ 18 then some (10 ^ index.toNat) else if index = 19 then some 0 else none

/-- The least number whose product with a power of ten has 64 bits (`Int64MultiOutOfBound`). -/
def int64MultiOutOfBound (index : Int) : Option Int :=
  if 0 ≤ index ∧ index ≤ 18 then some ((-2 ^ 63 : Int).tdiv (10 ^ index.toNat))
  else if index = 19 then some 0 else none

/-- The powers of ten that 128 bits hold. -/
def getScaleMultiplier (scale : Int) : Option Int :=
  if 0 ≤ scale ∧ scale ≤ 38 then some (10 ^ scale.toNat) else none

/-- The least number whose product with a power of ten has 128 bits. -/
def getScaleQuotient (scale : Int) : Option Int :=
  if 0 ≤ scale ∧ scale ≤ 38 then some ((-2 ^ 127 : Int).tdiv (10 ^ scale.toNat)) else none

/-- The decimal digits of a numeric with its decimals. -/
def getWholeScale (numVar : NumericVar) : Int :=
  match numVar.digits with
  | [] => numVar.dscale
  | firstDigit :: _ =>
    if 0 ≤ numVar.weight then
      numVar.weight * 4 + numVar.dscale +
        (if 1000 ≤ firstDigit then 4 else if 100 ≤ firstDigit then 3
          else if 10 ≤ firstDigit then 2 else 1)
    else numVar.dscale

/-- The number of at most six digits (`encode_digits`). -/
def encodeDigits (digits : List Nat) : Int :=
  if digits.length ≤ 6 then digitsValue 10000 digits else 0

/-- The number of 64 bits for a numeric with some decimals. -/
def convertShortNumericToInt64Byscale (n : NumericVar) (scale : Nat) : Option Int :=
  let ndigits := n.digits.length
  let ascale : Int := if 0 < ndigits then ndigits - n.weight - 1 else 0
  let scaleDiff := (scale : Int) - ascale * 4
  let result := encodeDigits n.digits
  let adjusted := if 0 < scaleDiff then (scaleMultipler scaleDiff).map (wrap128 <| result * ·)
    else (scaleMultipler (-scaleDiff)).bind fun divisor =>
      if divisor = 0 then none else some (result.tdiv divisor)
  adjusted.map fun value => wrap64 (n.sign.factor * value)

/-- Add up digits with their powers of ten. -/
def sumDigits : Int → List Nat → Option Int
  | result, [] => some result
  | result, digit :: rest =>
    (getScaleMultiplier (rest.length * 4)).bind fun multiplier =>
      sumDigits (wrap128 (result + wrap128 (digit * multiplier))) rest

/-- The number of 128 bits for a numeric with some decimals. The last digit is cut where only some of
its decimals count. -/
def convertShortNumericToInt128Byscale (n : NumericVar) (dscale : Nat) : Option Int :=
  let ndigits := n.digits.length
  if ndigits = 0 then some 0
  else
    let remainder := dscale % 4
    let ascale : Int := ndigits - (n.weight + 1)
    let specialDo := 0 < ascale ∧ remainder ≠ 0 ∧ (dscale / 4 : Nat) + 1 = ascale
    let endIndex := if specialDo then ndigits - 1 else ndigits
    (sumDigits 0 (n.digits.take endIndex)).bind fun sum =>
      let valid :=
        if specialDo then
          (getScaleMultiplier remainder).bind fun multiplier =>
            (getScaleMultiplier (4 - remainder)).map fun divisor =>
              wrap128 (wrap128 (sum * multiplier) +
                ((n.digits.getLastD 0 : Nat) : Int).tdiv divisor)
        else some sum
      let diffScale :=
        if specialDo then (dscale : Int) - (ascale - 1) * 4 - dscale % 4 else dscale - ascale * 4
      valid.bind fun value =>
        (getScaleMultiplier diffScale).map fun multiplier =>
          wrap128 (n.sign.factor * wrap128 (value * multiplier))

/-- Try to turn an ordinary numeric into a fast one; it stays as it is if that is switched off or it
has too many digits. -/
def tryConvertNumericNormalToFast (enableFastNumeric : Bool) (val : Numeric) : Option Numeric :=
  match val with
  | .normal numVar =>
    if enableFastNumeric then
      if getWholeScale numVar ≤ 18 then
        (convertShortNumericToInt64Byscale numVar numVar.dscale).map (.bi64 · numVar.dscale)
      else if getWholeScale numVar ≤ 38 then
        (convertShortNumericToInt128Byscale numVar numVar.dscale).map (.bi128 · numVar.dscale)
      else some val
    else some val
  | _ => some val

/-- A numeric in the short form: a header of 16 bits and the digits (`NumericShort`). -/
structure NumericShort where
  header : Nat
  digits : List Nat
  deriving DecidableEq

/-- The header of the short form. -/
def shortHeader (sign : Sign) (dscale : Nat) (weight : Int) : Nat :=
  (if sign = .neg then 0x8000 ||| 0x2000 else 0x8000) ||| dscale * 2 ^ 7 |||
    (if weight < 0 then 0x0040 else 0) ||| (weight % 2 ^ 6).toNat

/-- Read the short form (`NUMERIC_SIGN`, `NUMERIC_DSCALE`, `NUMERIC_WEIGHT`, `NUMERIC_DIGITS`). -/
def NumericShort.var (short : NumericShort) : NumericVar where
  sign := if short.header &&& 0x2000 ≠ 0 then .neg else .pos
  weight := if short.header &&& 0x0040 ≠ 0 then (short.header &&& 0x003F : Nat) - 2 ^ 6
    else (short.header &&& 0x003F : Nat)
  dscale := (short.header &&& 0x1F80) / 2 ^ 7
  digits := short.digits

/-- The digits in front of the decimal point, written from the end of a buffer with some room. -/
def preLoop : Nat → Nat → List Nat → Option (List Nat)
  | 0, _, _ => none
  | room + 1, preData, digits =>
    if preData / 10000 = 0 then some (preData % 10000 :: digits)
    else preLoop room (preData / 10000) (preData % 10000 :: digits)

/-- The digits behind the decimal point, written into a buffer with some room. The last one is filled
up with zeros. -/
def postLoop (multiplier : Int → Option Int) : Nat → Nat → Nat → Option (List Nat)
  | 0, postData, _ => if postData = 0 then some [] else none
  | room + 1, postData, resultScale =>
    if postData = 0 then some []
    else if 4 ≤ resultScale then
      (multiplier ((resultScale : Int) - 4)).bind fun power =>
        (postLoop multiplier room (postData % power.toNat) (resultScale - 4)).map
          (postData / power.toNat :: ·)
    else (scaleMultipler (4 - resultScale)).map fun power => [postData * power.toNat]

/-- Take zeros from the end of digits. -/
def trimEnd (digits : List Nat) : List Nat := (digits.reverse.dropWhile (· = 0)).reverse

/-- Put the digits around the decimal point together, without zeros in front and behind. -/
def joinDigits (sign : Sign) (scale : Nat) (preDigits postDigits : List Nat) : NumericShort :=
  if preDigits ≠ [] then
    let weight : Int := preDigits.length - 1
    if postDigits ≠ [] then ⟨shortHeader sign scale weight, preDigits ++ postDigits⟩
    else ⟨shortHeader sign scale weight, trimEnd preDigits⟩
  else
    let digits := postDigits.dropWhile (· = 0)
    let tmpLoc := postDigits.length - digits.length
    ⟨shortHeader sign scale (-((tmpLoc : Int) + 1)), digits⟩

/-- Turn an integer with decimals into the short form, with buffers of some digits. -/
def convertIntToNumeric (multiplier : Int → Option Int) (room : Nat) (data : Int) (scale : Nat) :
    Option NumericShort :=
  let uval := data.natAbs
  if uval = 0 then some ⟨0x8000 ||| scale * 2 ^ 7, []⟩
  else
    (getScaleMultiplier scale).bind fun power =>
      let preData := uval / power.toNat
      let postData := uval % power.toNat
      (if preData = 0 then some [] else preLoop room preData []).bind fun preDigits =>
        (postLoop multiplier room postData scale).map fun postDigits =>
          joinDigits (if data < 0 then .neg else .pos) scale preDigits postDigits

/-- Turn a number of 64 bits into the short form. -/
def convertInt64ToNumeric (data : Int) (scale : Nat) : Option NumericShort :=
  convertIntToNumeric scaleMultipler 5 data scale

/-- Turn a number of 128 bits into the short form. -/
def convertInt128ToNumeric (data : Int) (scale : Nat) : Option NumericShort :=
  convertIntToNumeric getScaleMultiplier 10 data scale

/-- Turn a fast numeric into the ordinary form. -/
def makeNumericNormal (val : Numeric) : Option NumericShort :=
  match val with
  | .bi64 value scale => convertInt64ToNumeric value scale
  | .bi128 value scale => convertInt128ToNumeric value scale
  | _ => none

end OpenGauss.Numerics
