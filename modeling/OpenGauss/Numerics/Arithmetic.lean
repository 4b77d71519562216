import OpenGauss.Numerics.Conversion

/-!
# Arithmetic of fast numerics

Sums and differences are taken after both operands have got the larger scale, products directly. A
table tells whether the operand still has its width after that. Where a result leaves 64 bits it is
computed with 128, and where it leaves these the operands are turned into ordinary numerics. An
operation on machine integers whose exact result leaves the width gives no result here, so a result
says that nothing was wrapped on the way, and it is always the exact one.
-/
namespace OpenGauss.Numerics

open Option OpenGauss.Base

/-- The operators of fast numerics whose results are numerics without rounding. -/
inductive BiOperator
  | add
  | sub
  | mul
  deriving DecidableEq

/-- How two operands are brought to one scale (`BiAdjustScale`). -/
inductive BiAdjustScale
  | ajustTrue
  | rightOutOfBound
  | leftOutOfBound
  deriving DecidableEq

/-- Two operands with one scale. -/
structure Adjusted where
  overflow : BiAdjustScale
  resultScale : Nat
  xScaled : Int
  yScaled : Int

/-- The result of an operation on 64 bits. -/
def int64Exact (value : Int) : Option Int := if InInt64 value then some value else none

/-- The result of an operation on 128 bits. -/
def int128Exact (value : Int) : Option Int := if InInt128 value then some value else none

/-- Bring two numbers to the larger scale, with the table of powers and that of the least operands for
them. The comparison takes negative numbers, as the least number has no opposite. -/
def adjustBiToSameScale (exact multiplier outOfBound : Int → Option Int) (x : Int) (xScale : Nat)
    (y : Int) (yScale : Nat) : Option Adjusted :=
  let deltaScale : Int := xScale - yScale
  if 0 ≤ deltaScale then
    (if y < 0 then some y else exact (-y)).bind fun tmpval =>
      (outOfBound deltaScale).bind fun bound =>
        if bound ≤ tmpval then
          (multiplier deltaScale).bind fun power =>
            (exact (y * power)).map fun yScaled => ⟨.ajustTrue, xScale, x, yScaled⟩
        else some ⟨.rightOutOfBound, xScale, x, 0⟩
  else
    (if x < 0 then some x else exact (-x)).bind fun tmpval =>
      (outOfBound (-deltaScale)).bind fun bound =>
        if bound ≤ tmpval then
          (multiplier (-deltaScale)).bind fun power =>
            (exact (x * power)).map fun xScaled => ⟨.ajustTrue, yScale, xScaled, y⟩
        else some ⟨.leftOutOfBound, yScale, 0, y⟩

/-- Bring two numbers of 64 bits to the larger scale. -/
def adjustBi64ToSameScale (x : Int) (xScale : Nat) (y : Int) (yScale : Nat) : Option Adjusted :=
  adjustBiToSameScale int64Exact scaleMultipler int64MultiOutOfBound x xScale y yScale

/-- Bring two numbers of 128 bits to the larger scale. -/
def adjustBi128ToSameScale (x : Int) (xScale : Nat) (y : Int) (yScale : Nat) : Option Adjusted :=
  adjustBiToSameScale int128Exact getScaleMultiplier getScaleQuotient x xScale y yScale

/-- The value of a fast numeric, read with the width that the caller expects (`Int128GetVal`). -/
def int128GetVal (isInt128 : Bool) : Numeric → Option Int
  | .bi64 value _ => if isInt128 then none else some value
  | .bi128 value _ => if isInt128 then some value else none
  | _ => none

/-- The scale of a fast numeric (`NUMERIC_BI_SCALE`). -/
def numericBiScale : Numeric → Option Nat
  | .bi64 _ scale => some scale
  | .bi128 _ scale => some scale
  | _ => none

/-- The functions for ordinary numerics that take over where 128 bits are not enough. -/
structure NumericFallback where
  /-- `numeric_add`. -/
  numericAdd : NumericVar → NumericVar → NumericVar
  /-- `numeric_sub`. -/
  numericSub : NumericVar → NumericVar → NumericVar
  /-- `numeric_mul`. -/
  numericMul : NumericVar → NumericVar → NumericVar

/-- Call a function for ordinary numerics with fast ones. -/
def callNumeric (function : NumericVar → NumericVar → NumericVar) (larg rarg : Numeric) :
    Option Numeric :=
  (makeNumericNormal larg).bind fun left =>
    (makeNumericNormal rarg).map fun right => .normal (function left.var right.var)

/-- Add or subtract two numbers of 64 bits. A result that leaves 64 bits is computed with 128. -/
def bi64AddSub64 (operation : Int → Int → Int) (larg rarg : Numeric) : Option Numeric :=
  (numericBiScale larg).bind fun lvalscale => (numericBiScale rarg).bind fun rvalscale =>
  (int128GetVal false larg).bind fun leftval => (int128GetVal false rarg).bind fun rightval =>
  (adjustBi64ToSameScale leftval lvalscale rightval rvalscale).bind fun adjusted =>
    let resScale := adjusted.resultScale
    match adjusted.overflow with
    | .ajustTrue =>
      let result := operation adjusted.xScaled adjusted.yScaled
      if InInt64 result then some (.bi64 result resScale)
      else (int128Exact result).map (.bi128 · resScale)
    | .rightOutOfBound =>
      (getScaleMultiplier (resScale - rvalscale)).bind fun power =>
        (int128Exact (rightval * power)).bind fun rightScaled =>
          (int128Exact (operation leftval rightScaled)).map (.bi128 · resScale)
    | .leftOutOfBound =>
      (getScaleMultiplier (resScale - lvalscale)).bind fun power =>
        (int128Exact (leftval * power)).bind fun leftScaled =>
          (int128Exact (operation leftScaled rightval)).map (.bi128 · resScale)

/-- Add two numbers of 64 bits. -/
def bi64add64 (larg rarg : Numeric) : Option Numeric := bi64AddSub64 (· + ·) larg rarg

/-- Subtract two numbers of 64 bits. -/
def bi64sub64 (larg rarg : Numeric) : Option Numeric := bi64AddSub64 (· - ·) larg rarg

/-- Add or subtract two numbers, at least one of them of 128 bits. A result that leaves 128 bits is
computed with ordinary numerics. -/
def bi128AddSub128 (operation : Int → Int → Int) (numericFunction : NumericVar → NumericVar →
    NumericVar) (largIsInt128 rargIsInt128 : Bool) (larg rarg : Numeric) : Option Numeric :=
  (numericBiScale larg).bind fun lvalscale => (numericBiScale rarg).bind fun rvalscale =>
  (int128GetVal largIsInt128 larg).bind fun leftval =>
  (int128GetVal rargIsInt128 rarg).bind fun rightval =>
  (adjustBi128ToSameScale leftval lvalscale rightval rvalscale).bind fun adjusted =>
    match adjusted.overflow with
    | .ajustTrue =>
      let result := operation adjusted.xScaled adjusted.yScaled
      if InInt128 result then some (.bi128 result adjusted.resultScale)
      else callNumeric numericFunction larg rarg
    | _ => callNumeric numericFunction larg rarg

/-- Add two numbers, at least one of them of 128 bits. -/
def bi128add128 (fallback : NumericFallback) (largIsInt128 rargIsInt128 : Bool)
    (larg rarg : Numeric) : Option Numeric :=
  bi128AddSub128 (· + ·) fallback.numericAdd largIsInt128 rargIsInt128 larg rarg

/-- Subtract two numbers, at least one of them of 128 bits. -/
def bi128sub128 (fallback : NumericFallback) (largIsInt128 rargIsInt128 : Bool)
    (larg rarg : Numeric) : Option Numeric :=
  bi128AddSub128 (· - ·) fallback.numericSub largIsInt128 rargIsInt128 larg rarg

/-- Multiply two numbers of 64 bits. -/
def bi64mul64 (larg rarg : Numeric) : Option Numeric :=
  (int128GetVal false larg).bind fun leftval => (int128GetVal false rarg).bind fun rightval =>
  (numericBiScale larg).bind fun lvalscale => (numericBiScale rarg).bind fun rvalscale =>
    let resScale := lvalscale + rvalscale
    if resScale ≤ 19 ∧ InInt64 (leftval * rightval) then some (.bi64 (leftval * rightval) resScale)
    else (int128Exact (leftval * rightval)).map (.bi128 · resScale)

/-- Multiply two numbers, at least one of them of 128 bits. -/
def bi128mul128 (fallback : NumericFallback) (largIsInt128 rargIsInt128 : Bool)
    (larg rarg : Numeric) : Option Numeric :=
  (numericBiScale larg).bind fun lvalscale => (numericBiScale rarg).bind fun rvalscale =>
  (int128GetVal largIsInt128 larg).bind fun leftval =>
  (int128GetVal rargIsInt128 rarg).bind fun rightval =>
    let resScale := lvalscale + rvalscale
    if resScale ≤ 38 ∧ InInt128 (leftval * rightval) then
      some (.bi128 (leftval * rightval) resScale)
    else callNumeric fallback.numericMul larg rarg

/-- The functions for an operator and the widths of the operands. -/
def biFunMatrix (fallback : NumericFallback) (op : BiOperator) (leftIs128 rightIs128 : Bool) :
    Numeric → Numeric → Option Numeric :=
  match op with
  | .add => if leftIs128 || rightIs128 then bi128add128 fallback leftIs128 rightIs128 else bi64add64
  | .sub => if leftIs128 || rightIs128 then bi128sub128 fallback leftIs128 rightIs128 else bi64sub64
  | .mul => if leftIs128 || rightIs128 then bi128mul128 fallback leftIs128 rightIs128 else bi64mul64

/-- Whether a numeric has 128 bits (`NUMERIC_IS_BI128`). -/
def numericIsBi128 : Numeric → Bool
  | .bi128 _ _ => true
  | _ => false

/-- Compute with fast numerics through the function for their widths. -/
def bipickfun (fallback : NumericFallback) (op : BiOperator) (larg rarg : Numeric) : Option Numeric :=
  biFunMatrix fallback op (numericIsBi128 larg) (numericIsBi128 rarg) larg rarg

/-- The exact result of an operator. -/
def BiOperator.result : BiOperator → ℚ → ℚ → ℚ
  | .add, left, right => left + right
  | .sub, left, right => left - right
  | .mul, left, right => left * right

/-- The scale of the result of an operator. -/
def BiOperator.scale : BiOperator → Nat → Nat → Nat
  | .mul, left, right => left + right
  | _, left, right => max left right

/-- The decimals of a numeric. -/
def Numeric.scale : Numeric → Nat
  | .nan => 0
  | .bi64 _ scale => scale
  | .bi128 _ scale => scale
  | .normal var => var.dscale

/-- A function for ordinary numerics that gives the exact result of an operator. -/
def ExactFunction (function : NumericVar → NumericVar → NumericVar) (op : BiOperator) : Prop :=
  ∀ left right : NumericVar, left.Canonical → right.Canonical → (function left right).Canonical ∧
      (function left right).value = op.result left.value right.value ∧
      (function left right).dscale = op.scale left.dscale right.dscale

/-- The functions for ordinary numerics are exact. -/
structure NumericFallback.Exact (fallback : NumericFallback) : Prop where
  add : ExactFunction fallback.numericAdd .add
  sub : ExactFunction fallback.numericSub .sub
  mul : ExactFunction fallback.numericMul .mul

/-- A number in one of two widths. -/
def Within (limit : Nat) (value : Int) : Prop := -(limit : Int) ≤ value ∧ value < limit

/-- The bound of the table tells for both signs whether a number keeps its width. -/
theorem within_of_quotient_le {limit index : Nat} {value : Int} (odd : ¬10 ∣ limit)
    (fits : Within limit value)
    (bound : (-(limit : Int)).tdiv (10 ^ index) ≤ if value < 0 then value else -value) :
    Within limit (value * 10 ^ index) := by
  obtain ⟨least, most⟩ := fits
  have cast : (10 : Int) ^ index = ((10 ^ index : Nat) : Int) := by
    rfl
  have positive : 0 < 10 ^ index := Nat.pow_pos (by decide)
  have quotient : (-(limit : Int)).tdiv (10 ^ index) = -((limit / 10 ^ index : Nat) : Int) := by
    rw [Int.neg_tdiv]
    rfl
  have size : value.natAbs ≤ limit / 10 ^ index := by
    split at bound <;> lia
  have product : value.natAbs * 10 ^ index ≤ limit := (Nat.le_div_iff_mul_le positive).mp size
  have signed : value * 10 ^ index = if value < 0 then -((value.natAbs * 10 ^ index : Nat) : Int)
      else ((value.natAbs * 10 ^ index : Nat) : Int) := by
    split
    · rw [Nat.cast_mul, Int.ofNat_natAbs_of_nonpos (by omega), cast, Int.neg_mul, Int.neg_neg]
    · rw [Nat.cast_mul, Int.natAbs_of_nonneg (by omega), cast]
  by_cases negative : value < 0
  · exact ⟨by omega, by omega⟩
  · refine ⟨by omega, ?_⟩
    cases index with
    | zero =>
      lia
    | succ index =>
      have different : value.natAbs * 10 ^ (index + 1) ≠ limit := by
        intro same
        exact odd ⟨value.natAbs * 10 ^ index, by rw [← same]; ring⟩
      omega

/-- The tables of a width: a power for each index, and the least operand for it. -/
def ScaleTables (limit most : Nat) (exact multiplier outOfBound : Int → Option Int) : Prop :=
  (∀ value, Within limit value → exact value = some value) ∧
    ∀ index : Nat, index ≤ most → ∃ power bound, multiplier index = some power ∧
      outOfBound index = some bound ∧ ∀ value, Within limit value →
        bound ≤ (if value < 0 then value else -value) →
        value * power = value * 10 ^ index ∧ Within limit (value * 10 ^ index)

/-- The tables for 64 bits are powers of ten. -/
theorem scaleTables_int64 : ScaleTables (2 ^ 63) 19 int64Exact scaleMultipler int64MultiOutOfBound := by
  constructor
  · intro value fits
    exact if_pos fits
  · intro index small
    by_cases last : index = 19
    · subst last
      refine ⟨0, 0, rfl, rfl, fun value _ bound => ?_⟩
      have zero : value = 0 := by
        split at bound <;> omega
      subst zero
      exact ⟨by rw [Int.zero_mul, Int.zero_mul], by rw [Int.zero_mul]; exact ⟨by omega, by omega⟩⟩
    · refine ⟨10 ^ index, (-2 ^ 63 : Int).tdiv (10 ^ index), scaleMultipler_of_le index (by omega),
        ?_, fun value fits bound => ⟨rfl, ?_⟩⟩
      · rw [int64MultiOutOfBound, if_pos (by lia), Int.toNat_natCast]
      · exact within_of_quotient_le (by decide) fits bound

theorem scaleTables_int128 :
    ScaleTables (2 ^ 127) 38 int128Exact getScaleMultiplier getScaleQuotient := by
  constructor
  · intro value fits
    exact if_pos fits
  · intro index small
    refine ⟨10 ^ index, (-2 ^ 127 : Int).tdiv (10 ^ index), getScaleMultiplier_of_le index small,
      ?_, fun value fits bound => ⟨rfl, ?_⟩⟩
    · rw [getScaleQuotient, if_pos (by omega), Int.toNat_natCast]
    · exact within_of_quotient_le (by decide) fits bound

/-- What bringing two numbers to one scale gives. -/
structure AdjustedSpec (limit : Nat) (x : Int) (xScale : Nat) (y : Int) (yScale : Nat)
    (adjusted : Adjusted) : Prop where
  scale : adjusted.resultScale = max xScale yScale
  both : adjusted.overflow = .ajustTrue →
    adjusted.xScaled = x * 10 ^ (adjusted.resultScale - xScale) ∧
      adjusted.yScaled = y * 10 ^ (adjusted.resultScale - yScale) ∧
      Within limit adjusted.xScaled ∧ Within limit adjusted.yScaled
  right : adjusted.overflow = .rightOutOfBound → adjusted.resultScale = xScale
  left : adjusted.overflow = .leftOutOfBound → adjusted.resultScale = yScale

/-- Making a number negative does not leave its width. -/
theorem negated_eq {limit : Nat} {exact : Int → Option Int}
    (exacts : ∀ value, Within limit value → exact value = some value) {value : Int}
    (fits : Within limit value) :
    (if value < 0 then some value else exact (-value)) =
      some (if value < 0 then value else -value) := by
  obtain ⟨least, below⟩ := fits
  by_cases negative : value < 0
  · rw [if_pos negative, if_pos negative]
  · rw [if_neg negative, if_neg negative, exacts _ ⟨by omega, by omega⟩]

/-- Two values are brought to one scale, or one is out of bound. -/
theorem adjustBiToSameScale_spec {limit most : Nat} {exact multiplier outOfBound : Int → Option Int}
    (tables : ScaleTables limit most exact multiplier outOfBound) {x : Int} {xScale : Nat} {y : Int}
    {yScale : Nat} (xFits : Within limit x) (yFits : Within limit y) (xSmall : xScale ≤ most)
    (ySmall : yScale ≤ most) :
    ∃ adjusted, adjustBiToSameScale exact multiplier outOfBound x xScale y yScale = some adjusted ∧
      AdjustedSpec limit x xScale y yScale adjusted := by
  obtain ⟨exacts, entries⟩ := tables
  rw [adjustBiToSameScale]
  by_cases order : 0 ≤ (xScale : Int) - yScale
  · have index : (xScale : Int) - yScale = ((xScale - yScale : Nat) : Int) := by omega
    obtain ⟨power, bound, isPower, isBound, scaled⟩ := entries (xScale - yScale) (by omega)
    rw [negated_eq exacts yFits, bind_some, index, isBound, bind_some]
    by_cases small : bound ≤ if y < 0 then y else -y
    · obtain ⟨product, fits⟩ := scaled y yFits small
      rw [if_pos small, isPower, bind_some, product, exacts _ fits]
      refine ⟨_, rfl, ⟨by dsimp only; lia, fun _ => ⟨?_, rfl, xFits, fits⟩, nofun, nofun⟩⟩
      rw [Nat.sub_self, pow_zero, mul_one]
    · rw [if_neg small]
      exact ⟨_, rfl, ⟨by dsimp only; lia, nofun, fun _ => rfl, nofun⟩⟩
  · have index : -((xScale : Int) - yScale) = ((yScale - xScale : Nat) : Int) := by lia
    obtain ⟨power, bound, isPower, isBound, scaled⟩ := entries (yScale - xScale) (by omega)
    rw [if_neg order, negated_eq exacts xFits, bind_some, index, isBound, bind_some]
    by_cases small : bound ≤ if x < 0 then x else -x
    · obtain ⟨product, fits⟩ := scaled x xFits small
      rw [if_pos small, isPower, bind_some, product, exacts _ fits]
      refine ⟨_, rfl, ⟨by dsimp only; lia, fun _ => ⟨rfl, ?_, fits, yFits⟩, nofun, nofun⟩⟩
      rw [Nat.sub_self, pow_zero, mul_one]
    · rw [if_neg small]
      exact ⟨_, rfl, ⟨by dsimp only; lia, nofun, nofun, fun _ => rfl⟩⟩

/-- An operation on numbers of one scale that belongs to an operator. -/
structure SameScale (operation : Int → Int → Int) (op : BiOperator) : Prop where
  scale : ∀ left right, op.scale left right = max left right
  size : ∀ left right, (operation left right).natAbs ≤ left.natAbs + right.natAbs
  result : ∀ left right scale : ℚ, ∀ x y : Int, scale ≠ 0 → (x : ℚ) = left * scale →
    (y : ℚ) = right * scale → ((operation x y : Int) : ℚ) / scale = op.result left right

theorem sameScale_add : SameScale (· + ·) .add where
  scale _ _ := rfl
  size left right := Int.natAbs_add_le left right
  result left right scale x y nonzero isX isY := by
    rw [Int.cast_add, isX, isY, ← add_mul, mul_div_assoc, div_self nonzero, mul_one]
    rfl

theorem sameScale_sub : SameScale (· - ·) .sub where
  scale _ _ := rfl
  size left right := by omega
  result left right scale x y nonzero isX isY := by
    rw [Int.cast_sub, isX, isY, ← sub_mul, mul_div_assoc, div_self nonzero, mul_one]
    rfl

variable (left : Int) (lscale : Nat) (right : Int) (rscale : Nat) (value : Int)
  (function : NumericVar → NumericVar → NumericVar) (operation : Int → Int → Int) (op : BiOperator)

theorem rescaled_value {scale larger : Nat} (order : scale ≤ larger) :
    ((value * 10 ^ (larger - scale) : Int) : ℚ) = value / 10 ^ scale * 10 ^ larger := by
  obtain ⟨more, rfl⟩ := Nat.exists_eq_add_of_le order
  rw [Nat.add_sub_cancel_left, pow_add]
  push_cast
  field_simp

/-- What an operator has to give. -/
structure ExactResult (op : BiOperator) (left : Int) (lscale : Nat) (right : Int) (rscale : Nat)
    (result : Numeric) : Prop where
  valid : result.Valid
  denotes : result.denotes = some (op.result (left / 10 ^ lscale) (right / 10 ^ rscale))
  scale : result.scale = op.scale lscale rscale

variable {op operation}

theorem sameScale_denotes
    (same : SameScale operation op) (left : Int) (lscale : Nat) (right : Int) (rscale : Nat) :
    ((operation (left * 10 ^ (max lscale rscale - lscale))
      (right * 10 ^ (max lscale rscale - rscale)) : Int) : ℚ) / 10 ^ max lscale rscale =
      op.result (left / 10 ^ lscale) (right / 10 ^ rscale) :=
  same.result _ _ _ _ _ (by positivity) (rescaled_value left (Nat.le_max_left _ _))
    (rescaled_value right (Nat.le_max_right _ _))

theorem rescaled_size (more : Nat) (fits : InInt64 value) (small : more ≤ 19) :
    (value * 10 ^ more).natAbs ≤ 2 ^ 63 * 10 ^ 19 := by
  obtain ⟨least, most⟩ := fits
  have size : value.natAbs ≤ 2 ^ 63 := by omega
  rw [Int.natAbs_mul]
  exact Nat.mul_le_mul size (Nat.pow_le_pow_right (by decide) small)

/-- Sums and differences of numbers of 64 bits are exact. -/
theorem bi64AddSub64_exact
    (same : SameScale operation op) {left : Int} {lscale : Nat} {right : Int} {rscale : Nat}
    (leftFits : InInt64 left) (rightFits : InInt64 right) (lsmall : lscale ≤ 19)
    (rsmall : rscale ≤ 19) :
    ∃ result, bi64AddSub64 operation (.bi64 left lscale) (.bi64 right rscale) = some result ∧
      ExactResult op left lscale right rscale result := by
  obtain ⟨adjusted, isAdjusted, spec⟩ := adjustBiToSameScale_spec
     scaleTables_int64 leftFits rightFits
    lsmall rsmall
  have value := sameScale_denotes same left lscale right rscale
  have scales : adjusted.resultScale ≤ 19 := by
    rw [spec.scale]
    omega
  have isScale : adjusted.resultScale = op.scale lscale rscale := spec.scale.trans (same.scale _ _).symm
  have leftSize := rescaled_size left (adjusted.resultScale - lscale) leftFits (by omega)
  have rightSize := rescaled_size right (adjusted.resultScale - rscale) rightFits (by lia)
  rw [← spec.scale] at value
  have leftOf : (adjusted.resultScale : Int) - lscale = ((adjusted.resultScale - lscale : Nat) : Int) := by
    have larger := spec.scale
    omega
  have rightOf : (adjusted.resultScale : Int) - rscale =
      ((adjusted.resultScale - rscale : Nat) : Int) := by
    have larger := spec.scale
    lia
  rw [bi64AddSub64]
  simp only [numericBiScale, int128GetVal, bind_some, Bool.false_eq_true, if_false,
    adjustBi64ToSameScale, isAdjusted]
  cases overflow : adjusted.overflow with
  | ajustTrue =>
    obtain ⟨isX, isY, xFits, yFits⟩ := spec.both overflow
    have size := same.size adjusted.xScaled adjusted.yScaled
    obtain ⟨xLeast, xMost⟩ := xFits
    rw [← isX, ← isY] at value
    by_cases short : InInt64 (operation adjusted.xScaled adjusted.yScaled)
    · simp only [if_pos short]
      exact ⟨_, rfl, ⟨⟨short, scales⟩, congrArg some value, isScale⟩⟩
    · have wide : InInt128 (operation adjusted.xScaled adjusted.yScaled) := ⟨by lia, by lia⟩
      simp only [if_neg short, int128Exact, if_pos wide]
      exact ⟨_, rfl, ⟨⟨wide, by omega⟩, congrArg some value, isScale⟩⟩
  | rightOutOfBound =>
    have isLeft : left * 10 ^ (adjusted.resultScale - lscale) = left := by
      rw [spec.right overflow, Nat.sub_self, pow_zero, mul_one]
    rw [isLeft] at value
    have size := same.size left (right * 10 ^ (adjusted.resultScale - rscale))
    obtain ⟨least, most⟩ := leftFits
    have rightWide : InInt128 (right * 10 ^ (adjusted.resultScale - rscale)) := ⟨by lia, by lia⟩
    have wide : InInt128 (operation left (right * 10 ^ (adjusted.resultScale - rscale))) :=
      ⟨by omega, by omega⟩
    simp only [rightOf, getScaleMultiplier_of_le (adjusted.resultScale - rscale) (by lia),
      bind_some, int128Exact, if_pos rightWide, if_pos wide]
    exact ⟨_, rfl, ⟨⟨wide, by omega⟩, congrArg some value, isScale⟩⟩
  | leftOutOfBound =>
    have isRight : right * 10 ^ (adjusted.resultScale - rscale) = right := by
      rw [spec.left overflow, Nat.sub_self, pow_zero, mul_one]
    rw [isRight] at value
    have size := same.size (left * 10 ^ (adjusted.resultScale - lscale)) right
    obtain ⟨least, most⟩ := rightFits
    have leftWide : InInt128 (left * 10 ^ (adjusted.resultScale - lscale)) := ⟨by lia, by lia⟩
    have wide : InInt128 (operation (left * 10 ^ (adjusted.resultScale - lscale)) right) :=
      ⟨by omega, by omega⟩
    simp only [leftOf, getScaleMultiplier_of_le (adjusted.resultScale - lscale) (by lia),
      bind_some, int128Exact, if_pos leftWide, if_pos wide]
    exact ⟨_, rfl, ⟨⟨wide, by omega⟩, congrArg some value, isScale⟩⟩

/-- A fast numeric with its value and scale. -/
def FastOf (fast : Numeric) (value : Int) (scale : Nat) : Prop :=
  (fast = .bi64 value scale ∧ InInt64 value ∧ scale ≤ 19) ∨
    (fast = .bi128 value scale ∧ InInt128 value ∧ scale ≤ 38)

theorem FastOf.read {fast : Numeric} {value : Int} {scale : Nat}
    (isFast : FastOf fast value scale) :
    numericBiScale fast = some scale ∧ int128GetVal (numericIsBi128 fast) fast = some value ∧
      InInt128 value ∧ scale ≤ 38 ∧
      ∃ short, makeNumericNormal fast = some short ∧ Restores short value scale := by
  rcases isFast with ⟨rfl, fits, small⟩ | ⟨rfl, fits, small⟩
  · have wide : InInt128 value := by
      obtain ⟨least, most⟩ := fits
      exact ⟨by omega, by omega⟩
    exact ⟨rfl, rfl, wide, by omega, convertInt64ToNumeric_restores fits small⟩
  · exact ⟨rfl, rfl, fits, small, convertInt128ToNumeric_restores fits small⟩

theorem callNumeric_exact
    (exact : ExactFunction function op) {larg rarg : Numeric} {left : Int} {lscale : Nat}
    {right : Int} {rscale : Nat} (isLeft : FastOf larg left lscale)
    (isRight : FastOf rarg right rscale) : ∃ result, callNumeric function larg rarg = some result ∧
      ExactResult op left lscale right rscale result := by
  obtain ⟨-, -, -, -, leftShort, leftNormal, leftRestores⟩ := FastOf.read isLeft
  obtain ⟨-, -, -, -, rightShort, rightNormal, rightRestores⟩ := FastOf.read isRight
  obtain ⟨canonical, value, dscale⟩ := exact leftShort.var rightShort.var leftRestores.canonical
    rightRestores.canonical
  rw [leftRestores.value, rightRestores.value] at value
  rw [leftRestores.dscale, rightRestores.dscale] at dscale
  refine ⟨.normal (function leftShort.var rightShort.var), ?_, canonical, congrArg some value, dscale⟩
  rw [callNumeric, leftNormal, bind_some, rightNormal, map_some]

/-- Addition and subtraction of 128 bits are exact. -/
theorem bi128AddSub128_exact
    (same : SameScale operation op) {function : NumericVar → NumericVar → NumericVar}
    (exact : ExactFunction function op) {larg rarg : Numeric} {left : Int} {lscale : Nat}
    {right : Int} {rscale : Nat} (isLeft : FastOf larg left lscale)
    (isRight : FastOf rarg right rscale) :
    ∃ result, bi128AddSub128 operation function (numericIsBi128 larg) (numericIsBi128 rarg) larg rarg
        = some result ∧ ExactResult op left lscale right rscale result := by
  obtain ⟨leftScale, leftVal, leftFits, lsmall, -⟩ := FastOf.read isLeft
  obtain ⟨rightScale, rightVal, rightFits, rsmall, -⟩ := FastOf.read isRight
  have fallback := callNumeric_exact function exact isLeft isRight
  obtain ⟨adjusted, isAdjusted, spec⟩ := adjustBiToSameScale_spec
     scaleTables_int128 leftFits rightFits
    lsmall rsmall
  rw [bi128AddSub128, leftScale, bind_some, rightScale, bind_some, leftVal,
    bind_some, rightVal, bind_some, adjustBi128ToSameScale, isAdjusted, bind_some]
  cases overflow : adjusted.overflow with
  | ajustTrue =>
    obtain ⟨isX, isY, -, -⟩ := spec.both overflow
    by_cases wide : InInt128 (operation adjusted.xScaled adjusted.yScaled)
    · have value := sameScale_denotes same left lscale right rscale
      rw [← spec.scale, ← isX, ← isY] at value
      have scales : adjusted.resultScale ≤ 38 := by
        rw [spec.scale]
        omega
      rw [if_pos wide]
      exact ⟨_, rfl, ⟨⟨wide, scales⟩, congrArg some value, spec.scale.trans (same.scale _ _).symm⟩⟩
    · rw [if_neg wide]
      exact fallback
  | rightOutOfBound | leftOutOfBound => exact fallback

theorem product_value : ((left * right : Int) : ℚ) / 10 ^ (lscale + rscale) =
      BiOperator.mul.result (left / 10 ^ lscale) (right / 10 ^ rscale) := by
  show _ = (left : ℚ) / 10 ^ lscale * (right / 10 ^ rscale)
  rw [div_mul_div_comm, pow_add, Int.cast_mul]

/-- Multiplication of 64 bits is exact. -/
theorem bi64mul64_exact (leftFits : InInt64 left) (rightFits : InInt64 right) (lsmall : lscale ≤ 19)
    (rsmall : rscale ≤ 19) :
    ∃ result, bi64mul64 (.bi64 left lscale) (.bi64 right rscale) = some result ∧
      ExactResult .mul left lscale right rscale result := by
  have value := product_value left lscale right rscale
  simp only [bi64mul64, numericBiScale, int128GetVal, bind_some, Bool.false_eq_true, if_false]
  by_cases short : lscale + rscale ≤ 19 ∧ InInt64 (left * right)
  · rw [if_pos short]
    exact ⟨_, rfl, ⟨⟨short.2, short.1⟩, congrArg some value, rfl⟩⟩
  · have size : (left * right).natAbs ≤ 2 ^ 63 * 2 ^ 63 := by
      obtain ⟨leftLeast, leftMost⟩ := leftFits
      obtain ⟨rightLeast, rightMost⟩ := rightFits
      rw [Int.natAbs_mul]
      exact Nat.mul_le_mul (by omega) (by omega)
    have wide : InInt128 (left * right) := ⟨by omega, by omega⟩
    rw [if_neg short, int128Exact, if_pos wide]
    exact ⟨_, rfl, ⟨⟨wide, by omega⟩, congrArg some value, rfl⟩⟩

theorem bi128mul128_exact {fallback : NumericFallback} (exact : fallback.Exact)
    {larg rarg : Numeric} {left : Int} {lscale : Nat} {right : Int} {rscale : Nat}
    (isLeft : FastOf larg left lscale) (isRight : FastOf rarg right rscale) :
    ∃ result, bi128mul128 fallback (numericIsBi128 larg) (numericIsBi128 rarg) larg rarg =
        some result ∧ ExactResult .mul left lscale right rscale result := by
  obtain ⟨leftScale, leftVal, -, -, -⟩ := FastOf.read isLeft
  obtain ⟨rightScale, rightVal, -, -, -⟩ := FastOf.read isRight
  rw [bi128mul128, leftScale, bind_some, rightScale, bind_some, leftVal,
    bind_some, rightVal, bind_some]
  by_cases wide : lscale + rscale ≤ 38 ∧ InInt128 (left * right)
  · rw [if_pos wide]
    exact ⟨_, rfl, ⟨⟨wide.2, wide.1⟩, congrArg some (product_value left lscale right rscale), rfl⟩⟩
  · rw [if_neg wide]
    exact callNumeric_exact _ exact.mul isLeft isRight

/-- Fast arithmetic is exact. For all fast numerics of each width and scale, the function that the
matrix has for addition, subtraction and multiplication gives a numeric of the exact value with the
scale of the operator, and no operation on the way leaves its width. -/
theorem fast_arithmetic_is_exact (fallback : NumericFallback) (exact : fallback.Exact)
    (op : BiOperator) (larg rarg : Numeric) (left : Int) (lscale : Nat) (right : Int) (rscale : Nat)
    (isLeft : FastOf larg left lscale) (isRight : FastOf rarg right rscale) :
    ∃ result, bipickfun fallback op larg rarg = some result ∧ result.Valid ∧
      result.denotes = some (op.result (left / 10 ^ lscale) (right / 10 ^ rscale)) ∧
      result.scale = op.scale lscale rscale := by
  have assembled (computed : ∃ result, bipickfun fallback op larg rarg = some result ∧
      ExactResult op left lscale right rscale result) :
      ∃ result, bipickfun fallback op larg rarg = some result ∧ result.Valid ∧
        result.denotes = some (op.result (left / 10 ^ lscale) (right / 10 ^ rscale)) ∧
        result.scale = op.scale lscale rscale := by
    obtain ⟨result, isResult, spec⟩ := computed
    exact ⟨result, isResult, spec.valid, spec.denotes, spec.scale⟩
  apply assembled
  by_cases wide : (numericIsBi128 larg || numericIsBi128 rarg) = true
  · cases op with
    | add =>
      rw [bipickfun, biFunMatrix, if_pos wide]
      exact bi128AddSub128_exact sameScale_add exact.add isLeft isRight
    | sub =>
      rw [bipickfun, biFunMatrix, if_pos wide]
      exact bi128AddSub128_exact sameScale_sub exact.sub isLeft isRight
    | mul =>
      rw [bipickfun, biFunMatrix, if_pos wide]
      exact bi128mul128_exact exact isLeft isRight
  · rcases isLeft with ⟨rfl, leftFits, lsmall⟩ | ⟨rfl, -, -⟩
    · rcases isRight with ⟨rfl, rightFits, rsmall⟩ | ⟨rfl, -, -⟩
      · cases op with
        | add =>
          exact bi64AddSub64_exact sameScale_add leftFits rightFits lsmall rsmall
        | sub =>
          exact bi64AddSub64_exact sameScale_sub leftFits rightFits lsmall rsmall
        | mul => exact bi64mul64_exact left lscale right rscale leftFits rightFits lsmall rsmall
      · exact absurd rfl wide
    · exact absurd rfl wide

/-- The ordinary numeric of a whole number with some decimals. -/
def ordinaryNumeric (number : Int) (scale : Nat) : NumericVar :=
  let groups := (scale + 3) / 4
  let digits := (Nat.digits 10000 (number.natAbs * 10 ^ (4 * groups - scale))).reverse
  if number = 0 then ⟨.pos, 0, scale, []⟩
  else ⟨if number < 0 then .neg else .pos, digits.length - 1 - groups, scale, trimEnd digits⟩

/-- An ordinary numeric of a decimal has its value. -/
theorem ordinaryNumeric_spec (number : Int) (scale : Nat) :
    (ordinaryNumeric number scale).Canonical ∧
      (ordinaryNumeric number scale).value = number / 10 ^ scale ∧
      (ordinaryNumeric number scale).dscale = scale := by
  have positive : (10 : ℚ) ^ scale ≠ 0 := by positivity
  rw [ordinaryNumeric]
  by_cases zero : number = 0
  · subst zero
    rw [if_pos rfl]
    have value : NumericVar.value ⟨.pos, 0, scale, []⟩ = 0 := by
      rw [NumericVar.value, show digitsValue 10000 [] = 0 from rfl]
      ring
    exact ⟨⟨fun _ member => absurd member List.not_mem_nil, (fun none => by cases none),
      (fun none => by cases none), fun _ => ⟨rfl, rfl⟩,
      0, by rw [value]; push_cast; ring⟩, by rw [value, Int.cast_zero, zero_div], rfl⟩
  · rw [if_neg zero]
    generalize isGroups : (scale + 3) / 4 = groups
    generalize isPad : 4 * groups - scale = pad
    have total : scale + pad = 4 * groups := by omega
    have nonzero : number.natAbs * 10 ^ pad ≠ 0 :=
      Nat.mul_ne_zero (Int.natAbs_ne_zero.mpr zero) (Nat.pow_pos (by decide)).ne'
    have whole : digitsValue 10000 (Nat.digits 10000 (number.natAbs * 10 ^ pad)).reverse =
        number.natAbs * 10 ^ pad := by
      rw [digitsValue_eq_ofDigits, List.reverse_reverse, Nat.ofDigits_digits]
    have small : ∀ digit ∈ (Nat.digits 10000 (number.natAbs * 10 ^ pad)).reverse, digit < 10000 :=
      fun digit member => Nat.digits_lt_base (by decide) (List.mem_reverse.mp member)
    have head : (Nat.digits 10000 (number.natAbs * 10 ^ pad)).reverse.head? ≠ some 0 := by
      rw [List.head?_reverse, List.getLast?_eq_some_getLast (Nat.digits_ne_nil_iff_ne_zero.mpr nonzero)]
      intro isZero
      exact Nat.getLast_digit_ne_zero 10000 nonzero (some.inj isZero)
    generalize (Nat.digits 10000 (number.natAbs * 10 ^ pad)).reverse = digits at whole small head
    rw [← whole] at nonzero
    obtain ⟨zeros, trimmed⟩ := trimEnd_spec digits small head nonzero
    have lengths := trimmed.length
    have shifted := whole.symm.trans trimmed.value
    have signed := factor_natAbs number
    generalize (if number < 0 then Sign.neg else .pos) = sign at signed ⊢
    have value : NumericVar.value ⟨sign, digits.length - 1 - groups, scale, trimEnd digits⟩ =
        number / 10 ^ scale := by
      have exponent : (digits.length : Int) - 1 - groups + 1 - (trimEnd digits).length =
          zeros - groups := by lia
      have base : (10000 : ℚ) ^ groups = 10 ^ scale * 10 ^ pad := by
        rw [← pow_add, total, pow_mul]
        norm_num
      have cast : (number.natAbs : ℚ) * 10 ^ pad =
          digitsValue 10000 (trimEnd digits) * 10000 ^ zeros := by exact_mod_cast shifted
      have isNumber : (number : ℚ) = sign.factor * number.natAbs := by
        rw [← Int.cast_natCast (R := ℚ) number.natAbs, ← Int.cast_mul, signed]
      rw [NumericVar.value]
      rw [exponent, zpow_sub₀ (by norm_num), zpow_natCast, zpow_natCast, base, isNumber, mul_div_assoc',
        mul_assoc, ← cast, div_eq_div_iff (by positivity) positive]
      ring
    exact ⟨⟨trimmed.small, trimmed.head, trimmed.last, fun none => absurd none trimmed.nonempty, number,
      by rw [value]; exact div_mul_cancel₀ _ positive⟩, value, rfl⟩

variable (op)

/-- The functions for ordinary numerics as what they compute. -/
def exactFallback : NumericFallback :=
  let exactly (op : BiOperator) (left right : NumericVar) : NumericVar :=
    let scale := op.scale left.dscale right.dscale
    ordinaryNumeric (op.result left.value right.value * 10 ^ scale).num scale
  ⟨exactly .add, exactly .sub, exactly .mul⟩

/-- A result is whole at its scale. -/
theorem result_whole {left right : NumericVar} (leftCanonical : left.Canonical)
    (rightCanonical : right.Canonical) :
    ∃ whole : Int, op.result left.value right.value * 10 ^ op.scale left.dscale right.dscale =
      whole := by
  have rescaled (value : ℚ) (scale larger : Nat) (whole : Int) (shown : value * 10 ^ scale = whole)
      (order : scale ≤ larger) : value * 10 ^ larger = ((whole * 10 ^ (larger - scale) : Int) : ℚ) := by
    obtain ⟨more, rfl⟩ := Nat.exists_eq_add_of_le order
    rw [Nat.add_sub_cancel_left, pow_add, ← mul_assoc, shown]
    push_cast
    rfl
  obtain ⟨wholeLeft, shownLeft⟩ := leftCanonical.shown
  obtain ⟨wholeRight, shownRight⟩ := rightCanonical.shown
  have leftLarger := rescaled left.value left.dscale (max left.dscale right.dscale) wholeLeft shownLeft
    (Nat.le_max_left _ _)
  have rightLarger := rescaled right.value right.dscale (max left.dscale right.dscale) wholeRight
    shownRight (Nat.le_max_right _ _)
  cases op with
  | add =>
    refine ⟨wholeLeft * 10 ^ (max left.dscale right.dscale - left.dscale) +
      wholeRight * 10 ^ (max left.dscale right.dscale - right.dscale), ?_⟩
    show (left.value + right.value) * 10 ^ max left.dscale right.dscale = _
    rw [add_mul, leftLarger, rightLarger, ← Int.cast_add]
  | sub =>
    refine ⟨wholeLeft * 10 ^ (max left.dscale right.dscale - left.dscale) -
      wholeRight * 10 ^ (max left.dscale right.dscale - right.dscale), ?_⟩
    show (left.value - right.value) * 10 ^ max left.dscale right.dscale = _
    rw [sub_mul, leftLarger, rightLarger, ← Int.cast_sub]
  | mul =>
    refine ⟨wholeLeft * wholeRight, ?_⟩
    show left.value * right.value * 10 ^ (left.dscale + right.dscale) = _
    rw [Int.cast_mul, ← shownLeft, ← shownRight]
    ring

theorem exactFallback_exact : exactFallback.Exact := by
  have each (op : BiOperator) : ExactFunction (fun left right => ordinaryNumeric
      (op.result left.value right.value * 10 ^ op.scale left.dscale right.dscale).num
      (op.scale left.dscale right.dscale)) op := by
    intro left right leftCanonical rightCanonical
    obtain ⟨whole, isWhole⟩ := result_whole op leftCanonical rightCanonical
    obtain ⟨canonical, value, dscale⟩ := ordinaryNumeric_spec whole
      (op.scale left.dscale right.dscale)
    have positive : (10 : ℚ) ^ op.scale left.dscale right.dscale ≠ 0 := by positivity
    dsimp only
    rw [isWhole, Rat.num_intCast]
    refine ⟨canonical, ?_, dscale⟩
    rw [value, ← isWhole, mul_div_assoc, div_self positive, mul_one]
  exact ⟨each .add, each .sub, each .mul⟩

/-- The largest number of 128 bits and one more, at another scale. -/
theorem fast_arithmetic_is_exact_largest :
    ∃ result, bipickfun exactFallback .add (.bi128 (2 ^ 127 - 1) 0) (.bi64 1 2) = some result ∧
      result.denotes = some (((2 ^ 127 - 1 : Int) : ℚ) / 10 ^ 0 + ((1 : Int) : ℚ) / 10 ^ 2) ∧
      result.scale = 2 := by
  obtain ⟨result, isResult, -, denotes, scale⟩ := fast_arithmetic_is_exact exactFallback
    exactFallback_exact .add (.bi128 (2 ^ 127 - 1) 0) (.bi64 1 2) (2 ^ 127 - 1) 0 1 2
    (.inr ⟨rfl, by decide, by decide⟩) (.inl ⟨rfl, by decide, by decide⟩)
  exact ⟨result, isResult, denotes, scale⟩

end OpenGauss.Numerics
