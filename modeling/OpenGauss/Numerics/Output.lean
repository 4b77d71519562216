import OpenGauss.Base.Decimal
import OpenGauss.Numerics.Arithmetic

/-!
# Output of fast numerics

A fast numeric is printed with its sign, the whole part, a point and as many decimals as it has. The
least number of a width has no opposite, so its digits are stored as a text into which the point is
put. A session may want the zero in front of the point, or not; the stored text of the least number of
64 bits has none where all of its digits are decimals.
-/
namespace OpenGauss.Numerics

open Option List OpenGauss.Base

section Functions

/-- Print into a buffer (`sprintf_s`), with room for the zero byte. -/
def sprintfS (room : Nat) (text : List UInt8) : Option (List UInt8) :=
  if text.length < room then some text else none

/-- `MAXBI64LEN`. -/
def maxBi64Len : Nat := 25

/-- `MAXBI128LEN`. -/
def maxBi128Len : Nat := 45

/-- `int64_min_str`. -/
def int64MinStr : List UInt8 :=
  "-9223372036854775808".toList.map fun char => UInt8.ofNat char.toNat

/-- `int128_min_str`. -/
def int128MinStr : List UInt8 :=
  "-170141183460469231731687303715884105728".toList.map fun char => UInt8.ofNat char.toNat

/-- Print the least number of a width: the point is put into its stored text. -/
def minOut (room : Nat) (minStr : List UInt8) (scale : Nat) : Option (List UInt8) :=
  if 0 < scale then
    let len := minStr.length - scale
    if len ≤ room ∧ scale + 1 ≤ room - len - 1 then some (minStr.take len ++ 46 :: minStr.drop len)
    else none
  else if minStr.length + 1 ≤ room then some minStr else none

/-- The sign of a number. -/
def signText (data : Int) : List UInt8 := if 0 ≤ data then [] else [45]

/-- Print a number of 64 bits with its decimals. -/
def bi64Out (displayLeadingZero : Bool) (data : Int) (scale : Nat) : Option (List UInt8) :=
  if data = -2 ^ 63 then minOut maxBi64Len int64MinStr scale
  else
    (getScaleMultiplier scale).bind fun power =>
      let valU64 := data.natAbs
      let preVal := valU64 / (power % 2 ^ 64).toNat
      let postVal := valU64 % (power % 2 ^ 64).toNat
      if 0 < scale then
        -- The zero in front of the point is left out.
        if preVal = 0 ∧ postVal ≠ 0 ∧ displayLeadingZero = false then
          sprintfS maxBi64Len (signText data ++ 46 :: paddedText scale postVal)
        else
          sprintfS maxBi64Len (signText data ++ decimalText preVal ++ 46 :: paddedText scale postVal)
      else sprintfS maxBi64Len (signText data ++ decimalText preVal)

/-- Print a number of up to 128 bits in parts of 64 bits, with a width or without. -/
def int128ToString (precedingZero : Bool) (data len scale : Nat) : Option (List UInt8) :=
  let front (width value : Nat) := if precedingZero then paddedText width value else decimalText value
  if data < 2 ^ 63 then sprintfS len (front scale data)
  else
    let trailing := data % 10 ^ 18
    let num := data / 10 ^ 18
    if num < 2 ^ 63 then sprintfS len (front (scale - 18) num ++ paddedText 18 trailing)
    else
      let middle := num % 10 ^ 18
      let leading := num / 10 ^ 18
      sprintfS len (front (scale - 36) leading ++ paddedText 18 middle ++ paddedText 18 trailing)

/-- Print a number of 128 bits with its decimals. -/
def bi128Out (displayLeadingZero : Bool) (data : Int) (scale : Nat) : Option (List UInt8) :=
  if data = -2 ^ 127 then minOut maxBi128Len int128MinStr scale
  else
    (getScaleMultiplier scale).bind fun power =>
      let sign := signText data
      let preVal := data.natAbs / power.toNat
      let postVal := data.natAbs % power.toNat
      let room := maxBi128Len - sign.length
      if 0 < scale then
        if preVal = 0 ∧ postVal ≠ 0 ∧ displayLeadingZero = false then
          (int128ToString true postVal (room - 1) scale).map fun fraction => sign ++ 46 :: fraction
        else
          (int128ToString false preVal room 0).bind fun whole =>
            (int128ToString true postVal (maxBi128Len - (sign ++ whole).length - 1) scale).map
              fun fraction => sign ++ whole ++ 46 :: fraction
      else (int128ToString false preVal room 0).map fun whole => sign ++ whole

end Functions

section Texts

/-- A text prints a number with its decimals: the sign, the whole part, and behind a point as many
digits as there are decimals. The whole part is left out only where it is zero, the decimals are not,
and leading zeros are not displayed. -/
def Prints (displayLeadingZero : Bool) (data : Int) (scale : Nat) (text : List UInt8) : Prop :=
  ∃ whole fraction, text = signText data ++ whole ++ (if scale = 0 then [] else 46 :: fraction) ∧
    FixedText scale (data.natAbs % 10 ^ scale) fraction ∧
    (PlainText (data.natAbs / 10 ^ scale) whole ∨
      (whole = [] ∧ data.natAbs / 10 ^ scale = 0 ∧ data.natAbs % 10 ^ scale ≠ 0 ∧
        displayLeadingZero = false)) ∧
    (if 0 ≤ data then 1 else -1) *
      ((decimalValue whole : ℚ) + (decimalValue fraction : ℚ) / 10 ^ scale) = data / 10 ^ scale

/-- The whole part and the fraction make the number. -/
theorem parts_denote (data : Int) (scale wholeValue fractionValue : Nat)
    (isWhole : wholeValue = data.natAbs / 10 ^ scale)
    (isFraction : fractionValue = data.natAbs % 10 ^ scale) :
    (if 0 ≤ data then 1 else -1) * ((wholeValue : ℚ) + (fractionValue : ℚ) / 10 ^ scale) =
      data / 10 ^ scale := by
  have sum : ((10 ^ scale * wholeValue + fractionValue : Nat) : ℚ) = data.natAbs := by
    rw [isWhole, isFraction, Nat.div_add_mod]
  have parts : (wholeValue : ℚ) + (fractionValue : ℚ) / 10 ^ scale = data.natAbs / 10 ^ scale := by
    rw [← sum]
    push_cast
    field_simp
  rw [parts]
  split
  · rename_i least
    rw [one_mul, ← Int.cast_natCast, Int.natAbs_of_nonneg least]
  · rw [← Int.cast_natCast, Int.ofNat_natAbs_of_nonpos (by omega)]
    push_cast
    ring

variable (displayLeadingZero : Bool) (data : Int) (scale : Nat)

theorem prints_of_parts (whole fraction : List UInt8)
    (isWhole : PlainText (data.natAbs / 10 ^ scale) whole)
    (isFraction : FixedText scale (data.natAbs % 10 ^ scale) fraction) :
    Prints displayLeadingZero data scale
      (signText data ++ whole ++ (if scale = 0 then [] else 46 :: fraction)) :=
  ⟨whole, fraction, rfl, isFraction, .inl isWhole,
    parts_denote data scale _ _ isWhole.value isFraction.value⟩

theorem prints_of_fraction (fraction : List UInt8) (some : 0 < scale)
    (none : data.natAbs / 10 ^ scale = 0) (rest : data.natAbs % 10 ^ scale ≠ 0)
    (hidden : displayLeadingZero = false)
    (isFraction : FixedText scale (data.natAbs % 10 ^ scale) fraction) :
    Prints displayLeadingZero data scale (signText data ++ 46 :: fraction) := by
  refine ⟨[], fraction, ?_, isFraction, .inr ⟨rfl, none, rest, hidden⟩,
    parts_denote data scale _ _ none.symm isFraction.value⟩
  rw [append_nil, if_neg (by omega)]

theorem fixedText_nil (value : Nat) : FixedText 0 (value % 10 ^ 0) [] :=
  ⟨by simp, rfl, by rw [Nat.pow_zero, Nat.mod_one]; rfl⟩

theorem signText_length : (signText data).length ≤ 1 := by
  rw [signText]
  split <;> decide

theorem sprintfS_some {room : Nat} {text : List UInt8} (fits : text.length < room) :
    sprintfS room text = some text := if_pos fits

/-- The text of 128 bits is made of three parts. -/
theorem int128ToString_parts (data : Nat) (precedingZero : Bool) (len : Nat)
    (isText : List UInt8 → Prop)
    (narrow : isText (if precedingZero then paddedText scale data else decimalText data))
    (two : 2 ^ 63 ≤ data → ∀ high low, data = high * 10 ^ 18 + low → low < 10 ^ 18 →
      isText ((if precedingZero then paddedText (scale - 18) high else decimalText high) ++
        paddedText 18 low))
    (three : 2 ^ 63 * 10 ^ 18 ≤ data → ∀ high mid low, data = (high * 10 ^ 18 + mid) * 10 ^ 18 + low →
      mid < 10 ^ 18 → low < 10 ^ 18 →
      isText ((if precedingZero then paddedText (scale - 36) high else decimalText high) ++
        paddedText 18 mid ++ paddedText 18 low)) (room : ∀ text, isText text → text.length < len) :
    ∃ text, int128ToString precedingZero data len scale = some text ∧ isText text := by
  have divided := Nat.div_add_mod' data (10 ^ 18)
  have low := Nat.mod_lt data (by decide : 0 < 10 ^ 18)
  rw [int128ToString]
  by_cases small : data < 2 ^ 63
  · simp only [if_pos small]
    exact ⟨_, sprintfS_some (room _ narrow), narrow⟩
  · simp only [if_neg small]
    by_cases medium : data / 10 ^ 18 < 2 ^ 63
    · have printed := two (by omega) _ _ divided.symm low
      simp only [if_pos medium]
      exact ⟨_, sprintfS_some (room _ printed), printed⟩
    · have again := Nat.div_add_mod' (data / 10 ^ 18) (10 ^ 18)
      have middle := Nat.mod_lt (data / 10 ^ 18) (by decide : 0 < 10 ^ 18)
      have printed := three (by omega) (data / 10 ^ 18 / 10 ^ 18) (data / 10 ^ 18 % 10 ^ 18)
        (data % 10 ^ 18) (by rw [again, divided]) middle low
      simp only [if_neg medium]
      exact ⟨_, sprintfS_some (room _ printed), printed⟩

theorem int128ToString_plain (data len width : Nat) (fits : data < 10 ^ 39) (room : 39 < len) :
    ∃ text, int128ToString false data len width = some text ∧ PlainText data text := by
  apply int128ToString_parts
  · exact decimalText_plain data
  · intro large high low same small
    rw [same]
    exact (decimalText_plain high).append _ _ (by lia) (paddedText_fixed low 18 (by decide) small)
  · intro large high mid low same small1 small2
    rw [same]
    exact ((decimalText_plain high).append _ _ (by lia)
      (paddedText_fixed mid 18 (by decide) small1)).append _ _ (by lia)
        (paddedText_fixed low 18 (by decide) small2)
  · intro text plain
    exact lt_of_le_of_lt (plain.length_le _ 39 data (by decide) fits) room

/-- The text of a fraction has its width. -/
theorem int128ToString_fixed (data len : Nat) (positive : 0 < scale) (fits : data < 10 ^ scale)
    (room : scale < len) :
    ∃ text, int128ToString true data len scale = some text ∧ FixedText scale data text := by
  have wide (bound : Nat) (least : 10 ^ bound ≤ data) : bound < scale :=
    (Nat.pow_lt_pow_iff_right (by decide)).mp (lt_of_le_of_lt least fits)
  have power (more : Nat) (inside : more ≤ scale) : 10 ^ scale = 10 ^ (scale - more) * 10 ^ more := by
    rw [← Nat.pow_add, Nat.sub_add_cancel inside]
  apply int128ToString_parts
  · exact paddedText_fixed data scale positive fits
  · intro large high low same small
    have width := wide 18 (by lia)
    have below : high < 10 ^ (scale - 18) := by
      rw [power 18 (by omega)] at fits
      exact Nat.lt_of_mul_lt_mul_right (a := 10 ^ 18) (by lia)
    have printed := (paddedText_fixed high (scale - 18) (by omega) below).append _ _
      (paddedText_fixed low 18 (by decide) small)
    rw [Nat.sub_add_cancel (by omega), ← same] at printed
    exact printed
  · intro large high mid low same small1 small2
    have width := wide 36 (by lia)
    have below : high < 10 ^ (scale - 36) := by
      rw [power 36 (by omega)] at fits
      exact Nat.lt_of_mul_lt_mul_right (a := 10 ^ 36) (by lia)
    have printed := ((paddedText_fixed high (scale - 36) (by omega) below).append _ _
      (paddedText_fixed mid 18 (by decide) small1)).append _ _
        (paddedText_fixed low 18 (by decide) small2)
    rw [show scale - 36 + 18 + 18 = scale by lia, ← same] at printed
    exact printed
  · intro text fixed
    rw [fixed.length]
    exact room

end Texts

section Results

/-- An output function prints a number. -/
def Output (displayLeadingZero : Bool) (printed : Option (List UInt8)) (data : Int) (scale : Nat) :
    Prop :=
  ∃ text, printed = some text ∧ Prints displayLeadingZero data scale text

variable (displayLeadingZero : Bool) (data : Int) (scale : Nat)

/-- The parts of a stored text around the point. -/
def storedParts (minStr : List UInt8) : List UInt8 × List UInt8 :=
  ((minStr.drop 1).take (minStr.length - 1 - scale), minStr.drop (minStr.length - scale))

theorem minOut_parts {room : Nat} {digits : List UInt8} (inside : scale ≤ digits.length)
    (fits : digits.length + 3 ≤ room) :
    minOut room (45 :: digits) scale = some ([45] ++ (storedParts scale (45 :: digits)).1 ++
      (if scale = 0 then [] else 46 :: (storedParts scale (45 :: digits)).2)) := by
  rw [minOut, storedParts, length_cons, drop_succ_cons, drop_zero, Nat.add_sub_cancel]
  by_cases some : 0 < scale
  · have index : digits.length + 1 - scale = digits.length - scale + 1 := by lia
    rw [if_pos some, if_neg (by omega : ¬scale = 0), index, if_pos (by omega)]
    rfl
  · obtain rfl : scale = 0 := by omega
    rw [if_neg some, if_pos (by omega), if_pos rfl, Nat.sub_zero, take_length, append_nil]
    rfl

/-- Where the parts of a stored text are right. -/
def PartsRight (size : Nat) (minStr : List UInt8) : Prop :=
  let parts := storedParts scale minStr
  (∀ byte ∈ parts.1, isDigit byte = true) ∧ (∀ byte ∈ parts.2, isDigit byte = true) ∧
    parts.2.length = scale ∧ decimalValue parts.1 = size / 10 ^ scale ∧
    decimalValue parts.2 = size % 10 ^ scale ∧ parts.1.head? ≠ some 48

instance (size : Nat) (minStr : List UInt8) : Decidable (PartsRight scale size minStr) :=
  -- A byte of a list, not each of the 256 bytes.
  have : ∀ bytes : List UInt8, Decidable (∀ byte ∈ bytes, isDigit byte = true) :=
    List.decidableBAll _
  inferInstanceAs (Decidable (_ ∧ _))

/-- The least value is printed. -/
theorem minOut_prints (room : Nat) (digits : List UInt8) (inside : scale ≤ digits.length)
    (fits : digits.length + 3 ≤ room) (negative : data < 0)
    (right : PartsRight scale data.natAbs (45 :: digits))
    (shown : scale < digits.length ∨ displayLeadingZero = false) (large : 10 ^ scale ∣ data.natAbs →
      scale < digits.length) :
    Output displayLeadingZero (minOut room (45 :: digits) scale) data scale := by
  obtain ⟨digits1, digits2, length, value1, value2, head⟩ := right
  have sign : signText data = [45] := if_neg (by omega)
  refine ⟨_, minOut_parts scale inside fits, ?_⟩
  rw [← sign]
  have fraction : FixedText scale (data.natAbs % 10 ^ scale) (storedParts scale (45 :: digits)).2 :=
    ⟨digits2, length, value2⟩
  by_cases whole : scale < digits.length
  · refine prints_of_parts displayLeadingZero data scale _ _ ⟨digits1, ?_, .inr head, value1⟩ fraction
    rw [storedParts, length_cons, drop_succ_cons, drop_zero]
    intro none
    have short := congrArg List.length none
    rw [length_take, length_nil] at short
    lia
  · have none : (storedParts scale (45 :: digits)).1 = [] := by
      rw [storedParts, length_cons, show digits.length + 1 - 1 - scale = 0 by lia, take_zero]
    have zero : data.natAbs / 10 ^ scale = 0 := by
      rw [← value1, none]
      rfl
    have hidden := shown.resolve_left whole
    refine ⟨_, _, rfl, fraction, .inr ⟨none, zero, fun divides => ?_, hidden⟩,
      parts_denote data scale _ _ value1 value2⟩
    exact whole (large (Nat.dvd_of_mod_eq_zero divides))

/-- 64 bits are printed. -/
theorem bi64Out_prints (fits : InInt64 data) (other : data ≠ -2 ^ 63) (small : scale ≤ 19) :
    Output displayLeadingZero (bi64Out displayLeadingZero data scale) data scale := by
  obtain ⟨least, most⟩ := fits
  have power : ((10 : Int) ^ scale % 2 ^ 64).toNat = 10 ^ scale := by
    have below : 10 ^ scale < 2 ^ 64 :=
      lt_of_le_of_lt (Nat.pow_le_pow_right (by decide) small) (by decide : 10 ^ 19 < 2 ^ 64)
    have cast : (10 : Int) ^ scale = ((10 ^ scale : Nat) : Int) := by
      rfl
    rw [cast, Int.emod_eq_of_lt (Int.natCast_nonneg _) (by exact_mod_cast below), Int.toNat_natCast]
  have positive : 0 < 10 ^ scale := Nat.pow_pos (by decide)
  have plain := decimalText_plain (data.natAbs / 10 ^ scale)
  have sign := signText_length data
  rw [bi64Out, if_neg other, getScaleMultiplier_of_le scale (by omega), bind_some]
  simp only [power]
  by_cases some : 0 < scale
  · have fraction := paddedText_fixed (data.natAbs % 10 ^ scale) scale some (Nat.mod_lt _ positive)
    have length := fraction.length
    rw [if_pos some]
    split
    · rename_i hidden
      refine ⟨_, sprintfS_some ?_, prints_of_fraction displayLeadingZero data scale _ some hidden.1
        hidden.2.1 hidden.2.2 fraction⟩
      rw [length_append, length_cons, maxBi64Len]
      lia
    · have printed := prints_of_parts displayLeadingZero data scale _ _ plain fraction
      rw [if_neg (by lia : ¬scale = 0)] at printed
      refine ⟨_, sprintfS_some ?_, printed⟩
      have short : (decimalText (data.natAbs / 10 ^ scale)).length ≤ max 1 (20 - scale) := by
        apply plain.length_le _ _ _ (by omega)
        have digits : 10 ^ (max 1 (20 - scale)) * 10 ^ scale ≥ 10 ^ 20 := by
          rw [← Nat.pow_add]
          exact Nat.pow_le_pow_right (by decide) (by lia)
        rw [Nat.div_lt_iff_lt_mul positive]
        omega
      rw [length_append, length_append, length_cons, maxBi64Len]
      lia
  · obtain rfl : scale = 0 := by omega
    have printed := prints_of_parts displayLeadingZero data 0 _ _ plain (fixedText_nil _)
    rw [if_pos rfl, append_nil] at printed
    refine ⟨_, sprintfS_some ?_, printed⟩
    have short := plain.length_le _ 19 _ (by decide) (by rw [Nat.pow_zero]; omega)
    rw [length_append, maxBi64Len]
    omega

/-- 128 bits are printed. -/
theorem bi128Out_prints (fits : InInt128 data) (other : data ≠ -2 ^ 127) (small : scale ≤ 38) :
    Output displayLeadingZero (bi128Out displayLeadingZero data scale) data scale := by
  obtain ⟨least, most⟩ := fits
  have power : ((10 : Int) ^ scale).toNat = 10 ^ scale := by
    have cast : (10 : Int) ^ scale = ((10 ^ scale : Nat) : Int) := by
      rfl
    rw [cast, Int.toNat_natCast]
  have positive : 0 < 10 ^ scale := Nat.pow_pos (by decide)
  have below := Nat.div_le_self data.natAbs (10 ^ scale)
  have sign := signText_length data
  rw [bi128Out, if_neg other, getScaleMultiplier_of_le scale small, bind_some]
  simp only [power]
  obtain ⟨whole, isWhole, plain⟩ := int128ToString_plain (data.natAbs / 10 ^ scale)
    (maxBi128Len - (signText data).length) 0 (by omega) (by rw [maxBi128Len]; omega)
  by_cases some : 0 < scale
  · have inside : data.natAbs % 10 ^ scale < 10 ^ scale := Nat.mod_lt _ positive
    rw [if_pos some]
    split
    · rename_i hidden
      obtain ⟨fraction, isFraction, fixed⟩ := int128ToString_fixed scale (data.natAbs % 10 ^ scale)
        (maxBi128Len - (signText data).length - 1) some inside (by rw [maxBi128Len]; lia)
      rw [isFraction]
      exact ⟨_, rfl, prints_of_fraction displayLeadingZero data scale _ some hidden.1 hidden.2.1
        hidden.2.2 fixed⟩
    · have short : whole.length ≤ max 1 (39 - scale) := by
        apply plain.length_le _ _ _ (by omega)
        have digits : 10 ^ (max 1 (39 - scale)) * 10 ^ scale ≥ 10 ^ 39 := by
          rw [← Nat.pow_add]
          exact Nat.pow_le_pow_right (by decide) (by lia)
        rw [Nat.div_lt_iff_lt_mul positive]
        omega
      obtain ⟨fraction, isFraction, fixed⟩ := int128ToString_fixed scale (data.natAbs % 10 ^ scale)
        (maxBi128Len - (signText data ++ whole).length - 1) some inside
        (by rw [length_append, maxBi128Len]; lia)
      have printed := prints_of_parts displayLeadingZero data scale _ _ plain fixed
      rw [if_neg (by omega : ¬scale = 0)] at printed
      rw [isWhole, bind_some, isFraction]
      exact ⟨_, rfl, printed⟩
  · obtain rfl : scale = 0 := by omega
    have printed := prints_of_parts displayLeadingZero data 0 _ _ plain (fixedText_nil _)
    rw [if_pos rfl, append_nil] at printed
    rw [isWhole]
    exact ⟨_, rfl, printed⟩

theorem bi64Out_least_hidden : ¬Output true (bi64Out true (-2 ^ 63) 19) (-2 ^ 63) 19 := by
  rintro ⟨text, printed, whole, fraction, isText, -, shown, -⟩
  have start : bi64Out true (-2 ^ 63) 19 = some (45 :: 46 :: int64MinStr.drop 1) := by decide
  rcases shown with plain | ⟨-, -, -, hidden⟩
  · obtain ⟨byte, rest, rfl⟩ := exists_cons_of_ne_nil plain.filled
    rw [start, some.injEq] at printed
    have digit := plain.digits byte mem_cons_self
    rw [← printed, show signText (-2 ^ 63) = [45] by decide, cons_append, cons_append,
      List.cons.injEq, nil_append, cons_append, List.cons.injEq] at isText
    rw [← isText.2.1] at digit
    exact absurd digit (by decide)
  · exact Bool.noConfusion hidden

/-- The output of fast numerics is the exact decimal. Numbers of 128 bits are printed with all scales,
and numbers of 64 bits are, except that the least one with all of its digits behind the point lacks the
zero in front of it where a session wants it. -/
theorem numeric_output_exact_iff : (InInt64 data → scale ≤ 19 →
      (Output displayLeadingZero (bi64Out displayLeadingZero data scale) data scale ↔
        ¬(data = -2 ^ 63 ∧ scale = 19 ∧ displayLeadingZero = true))) ∧ (InInt128 data → scale ≤ 38 →
      Output displayLeadingZero (bi128Out displayLeadingZero data scale) data scale) := by
  have stored64 : ∀ scale < 20, PartsRight scale (-2 ^ 63 : Int).natAbs int64MinStr := by
    decide
  have stored128 : ∀ scale < 39, PartsRight scale (-2 ^ 127 : Int).natAbs int128MinStr := by
    decide
  have text64 : int64MinStr = 45 :: decimalText (2 ^ 63) := by decide
  have text128 : int128MinStr = 45 :: decimalText (2 ^ 127) := by decide
  rw [text64] at stored64
  rw [text128] at stored128
  have length64 : (decimalText (2 ^ 63)).length = 19 := by decide
  have length128 : (decimalText (2 ^ 127)).length = 39 := by decide
  constructor
  · intro fits small
    by_cases same : data = -2 ^ 63
    · subst same
      by_cases shown : scale = 19 ∧ displayLeadingZero = true
      · obtain ⟨rfl, rfl⟩ := shown
        exact ⟨fun printed => absurd printed bi64Out_least_hidden, fun no => absurd ⟨rfl, rfl, rfl⟩ no⟩
      · refine ⟨fun _ all => shown all.2, fun _ => ?_⟩
        have either : scale < 19 ∨ displayLeadingZero = false := by
          rw [not_and, Bool.not_eq_true] at shown
          by_cases last : scale = 19
          · exact .inr (shown last)
          · exact .inl (by omega)
        apply minOut_prints displayLeadingZero (-2 ^ 63) scale _ (decimalText (2 ^ 63)) (by omega)
          (by rw [length64]; decide)
          (by decide) (stored64 scale (by omega)) (by rw [length64]; exact either)
        intro divides
        by_contra large
        obtain rfl : scale = 19 := by omega
        exact absurd divides (by decide)
    · exact ⟨fun _ all => same all.1,
        fun _ => bi64Out_prints displayLeadingZero data scale fits same small⟩
  · intro fits small
    by_cases same : data = -2 ^ 127
    · subst same
      exact minOut_prints displayLeadingZero (-2 ^ 127) scale _ (decimalText (2 ^ 127)) (by omega)
        (by rw [length128]; decide)
        (by decide) (stored128 scale (by omega)) (.inl (by omega)) (fun _ => by omega)
    · exact bi128Out_prints displayLeadingZero data scale fits same small

/-- A number with decimals is printed in both widths. -/
theorem numeric_output_exact_small :
    Output true (bi64Out true (-1) 3) (-1) 3 ∧ Output true (bi128Out true (-1) 3) (-1) 3 :=
  ⟨((numeric_output_exact_iff true (-1) 3).1 (by decide) (by decide)).mpr (by decide),
    (numeric_output_exact_iff true (-1) 3).2 (by decide) (by decide)⟩

/-- The least number of 64 bits with nineteen decimals is printed without the zero. -/
theorem numeric_output_drops_zero :
    bi64Out true (-2 ^ 63) 19 = some (45 :: 46 :: int64MinStr.drop 1) ∧
      ¬Output true (bi64Out true (-2 ^ 63) 19) (-2 ^ 63) 19 :=
  ⟨by decide, bi64Out_least_hidden⟩

end Results

end OpenGauss.Numerics
