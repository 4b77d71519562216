import OpenGauss.Base.DigitOrder
import OpenGauss.Numerics.Arithmetic

/-!
# Comparison of fast numerics

Two fast numerics are compared after both have got the larger scale. Where the number that is
multiplied leaves its width, the two are not equal; numbers of 64 bits are then compared with 128, and
wider ones as ordinary numerics, digit by digit from the highest weight on.
-/
namespace OpenGauss.Numerics

open Option OpenGauss.Base

section Functions

/-- The comparisons of fast numerics. -/
inductive BiComparison
  | bieq
  | bineq
  | bile
  | bilt
  | bige
  | bigt
  | bicmp
  deriving DecidableEq

/-- The result of a comparison. -/
def BiComparison.compare {α : Type*} [LinearOrder α] : BiComparison → α → α → Int
  | .bieq, left, right => if left = right then 1 else 0
  | .bineq, left, right => if left ≠ right then 1 else 0
  | .bile, left, right => if left ≤ right then 1 else 0
  | .bilt, left, right => if left < right then 1 else 0
  | .bige, left, right => if left ≥ right then 1 else 0
  | .bigt, left, right => if left > right then 1 else 0
  | .bicmp, left, right => if left > right then 1 else if left < right then -1 else 0

/-- The result of a comparison of numbers that are known to be different. -/
def BiComparison.apart (op : BiComparison) (compared : Option Int) : Option Int :=
  match op with
  | .bieq => some 0
  | .bineq => some 1
  | _ => compared

/-- Compare two numbers of 64 bits. A number that leaves them is compared with 128. -/
def bi64cmp64 (op : BiComparison) (larg rarg : Numeric) : Option Int :=
  (numericBiScale larg).bind fun lvalscale => (numericBiScale rarg).bind fun rvalscale =>
  (int128GetVal false larg).bind fun leftval => (int128GetVal false rarg).bind fun rightval =>
  (adjustBi64ToSameScale leftval lvalscale rightval rvalscale).bind fun adjusted =>
    let resScale := adjusted.resultScale
    match adjusted.overflow with
    | .ajustTrue => some (op.compare adjusted.xScaled adjusted.yScaled)
    | .rightOutOfBound =>
      op.apart ((getScaleMultiplier (resScale - rvalscale)).bind fun power =>
        (int128Exact (rightval * power)).map fun rightScaled => op.compare leftval rightScaled)
    | .leftOutOfBound =>
      op.apart ((getScaleMultiplier (resScale - lvalscale)).bind fun power =>
        (int128Exact (leftval * power)).map fun leftScaled => op.compare leftScaled rightval)

/-- The digits of a number behind the weight of the other one; nothing if one of those in front is not
zero. -/
def digitsBefore (weight other : Int) : List Nat → Option (Int × List Nat)
  | [] => some (weight, [])
  | digit :: rest =>
    if other < weight then
      if digit ≠ 0 then none else digitsBefore (weight - 1) other rest
    else some (weight, digit :: rest)

/-- The result when the digits of a number have run out. -/
def remainingDigits (digits1 digits2 : List Nat) : Int :=
  if digits1.any (· ≠ 0) then 1 else if digits2.any (· ≠ 0) then -1 else 0

/-- Compare digits with the same weight. -/
def commonDigits : List Nat → List Nat → Int
  | digit1 :: rest1, digit2 :: rest2 =>
    let stat := (digit1 : Int) - digit2
    if stat ≠ 0 then (if 0 < stat then 1 else -1) else commonDigits rest1 rest2
  | digits1, digits2 => remainingDigits digits1 digits2

/-- Compare the sizes of ordinary numerics (`cmp_abs_common`). -/
def cmpAbsCommon (digits1 : List Nat) (weight1 : Int) (digits2 : List Nat) (weight2 : Int) : Int :=
  match digitsBefore weight1 weight2 digits1 with
  | none => 1
  | some (weight1, rest1) =>
    match digitsBefore weight2 weight1 digits2 with
    | none => -1
    | some (weight2, rest2) =>
      if weight1 = weight2 then commonDigits rest1 rest2 else remainingDigits rest1 rest2

/-- Compare ordinary numerics (`cmp_var_common`). -/
def cmpVarCommon (var1 var2 : NumericVar) : Int :=
  if var1.digits = [] then
    if var2.digits = [] then 0 else if var2.sign = .neg then 1 else -1
  else if var2.digits = [] then
    if var1.sign = .pos then 1 else -1
  else if var1.sign = .pos then
    if var2.sign = .neg then 1 else cmpAbsCommon var1.digits var1.weight var2.digits var2.weight
  else if var2.sign = .pos then -1
  else cmpAbsCommon var2.digits var2.weight var1.digits var1.weight

/-- The ordinary form of a numeric that may be fast. -/
def ordinaryForm (num : Numeric) : Option Numeric :=
  match num with
  | .bi64 _ _ => (makeNumericNormal num).map fun short => .normal short.var
  | .bi128 _ _ => (makeNumericNormal num).map fun short => .normal short.var
  | _ => some num

/-- Compare numerics in any form; everything that is not a number is the same and larger than all
numbers (`cmp_numerics`). -/
def cmpNumerics (num1 num2 : Numeric) : Option Int :=
  (ordinaryForm num1).bind fun leftarg => (ordinaryForm num2).bind fun rightarg =>
    match leftarg, rightarg with
    | .nan, .nan => some 0
    | .nan, _ => some 1
    | _, .nan => some (-1)
    | .normal var1, .normal var2 => some (cmpVarCommon var1 var2)
    | _, _ => none

/-- The result of a comparison that was made with three results. -/
def BiComparison.ofCmp (op : BiComparison) (cmp : Int) : Int :=
  match op with
  | .bicmp => cmp
  | _ => op.compare cmp 0

/-- Compare two numbers, at least one of them of 128 bits. A number that leaves them is compared as an
ordinary numeric. -/
def bi128cmp128 (op : BiComparison) (largIsInt128 rargIsInt128 : Bool) (larg rarg : Numeric) :
    Option Int :=
  (numericBiScale larg).bind fun lvalscale => (numericBiScale rarg).bind fun rvalscale =>
  (int128GetVal largIsInt128 larg).bind fun leftval =>
  (int128GetVal rargIsInt128 rarg).bind fun rightval =>
  (adjustBi128ToSameScale leftval lvalscale rightval rvalscale).bind fun adjusted =>
    match adjusted.overflow with
    | .ajustTrue => some (op.compare adjusted.xScaled adjusted.yScaled)
    | _ =>
      op.apart ((makeNumericNormal larg).bind fun num1 => (makeNumericNormal rarg).bind fun num2 =>
        (cmpNumerics (.normal num1.var) (.normal num2.var)).map op.ofCmp)

/-- Compare through the function for the widths of the operands. -/
def bipickcmp (op : BiComparison) (larg rarg : Numeric) : Option Int :=
  if numericIsBi128 larg || numericIsBi128 rarg then
    bi128cmp128 op (numericIsBi128 larg) (numericIsBi128 rarg) larg rarg
  else bi64cmp64 op larg rarg

end Functions

section Ordinary

variable (weight other : Int) (digits : List Nat) (var : NumericVar)

theorem NumericVar.value_eq :
    var.value = var.sign.factor * weightedDigits 10000 var.weight var.digits := by
  rw [NumericVar.value, weightedDigits_eq 10000 (by decide), mul_assoc]
  rfl

theorem any_ne_zero_iff (weight : Int) (digits : List Nat) :
    digits.any (· ≠ 0) = true ↔ 0 < weightedDigits 10000 weight digits := by
  rw [weightedDigits_pos_iff 10000 (by decide), List.any_eq_true]
  constructor
  · rintro ⟨digit, member, nonzero⟩
    exact ⟨digit, member, of_decide_eq_true nonzero⟩
  · rintro ⟨digit, member, nonzero⟩
    exact ⟨digit, member, decide_eq_true nonzero⟩

/-- Behind one number the digits of the other decide. -/
theorem remainingDigits_eq (digits1 digits2 : List Nat) (weight1 weight2 : Int)
    (short : digits1 = [] ∨ digits2 = []) : remainingDigits digits1 digits2 =
      threeWay (weightedDigits 10000 weight1 digits1) (weightedDigits 10000 weight2 digits2) := by
  have least1 := weightedDigits_nonneg 10000 (by decide) weight1 digits1
  have least2 := weightedDigits_nonneg 10000 (by decide) weight2 digits2
  rw [remainingDigits]
  rcases short with rfl | rfl
  · rw [List.any_nil, if_neg Bool.false_ne_true]
    by_cases more : digits2.any (· ≠ 0) = true
    · rw [if_pos more, threeWay_of_lt]
      exact (any_ne_zero_iff weight2 digits2).mp more
    · have zero := le_antisymm (not_lt.mp fun positive =>
        more ((any_ne_zero_iff weight2 digits2).mpr positive)) least2
      rw [if_neg more, zero]
      exact (threeWay_self (0 : ℚ)).symm
  · by_cases more : digits1.any (· ≠ 0) = true
    · rw [if_pos more, threeWay_of_gt]
      exact (any_ne_zero_iff weight1 digits1).mp more
    · have zero := le_antisymm (not_lt.mp fun positive =>
        more ((any_ne_zero_iff weight1 digits1).mpr positive)) least1
      rw [if_neg more, zero]
      exact (threeWay_self (0 : ℚ)).symm

/-- Digits of one weight compare as their numbers. -/
theorem commonDigits_eq (weight : Int) (digits1 digits2 : List Nat)
    (small1 : ∀ digit ∈ digits1, digit < 10000) (small2 : ∀ digit ∈ digits2, digit < 10000) :
    commonDigits digits1 digits2 =
      threeWay (weightedDigits 10000 weight digits1) (weightedDigits 10000 weight digits2) := by
  induction digits1 generalizing weight digits2 with
  | nil =>
    exact remainingDigits_eq [] digits2 weight weight (.inl rfl)
  | cons digit1 rest1 ih =>
    cases digits2 with
    | nil =>
      exact remainingDigits_eq _ [] weight weight (.inr rfl)
    | cons digit2 rest2 =>
      have tail1 : ∀ digit ∈ rest1, digit < 10000 :=
        fun digit member => small1 digit (List.mem_cons_of_mem _ member)
      have tail2 : ∀ digit ∈ rest2, digit < 10000 :=
        fun digit member => small2 digit (List.mem_cons_of_mem _ member)
      rw [commonDigits]
      rcases Nat.lt_trichotomy digit1 digit2 with less | rfl | greater
      · rw [if_pos (by omega), if_neg (by omega), threeWay_of_lt]
        exact weightedDigits_lt_of_digit 10000 (by decide) weight _ _ tail1 less
      · rw [if_neg (by omega), ih (weight - 1) rest2 tail1 tail2]
        simp only [threeWay, weightedDigits, add_lt_add_iff_left]
      · rw [if_pos (by omega), if_pos (by omega), threeWay_of_gt]
        exact weightedDigits_lt_of_digit 10000 (by decide) weight _ _ tail2 greater

/-- What the digits behind the weight of another number are. -/
structure BehindWeight (weight other : Int) (digits : List Nat) (found : Int × List Nat) : Prop where
  value : weightedDigits 10000 found.1 found.2 = weightedDigits 10000 weight digits
  small : ∀ digit ∈ found.2, digit < 10000
  reached : found.1 ≤ other ∨ found.2 = []
  least : min weight other ≤ found.1

/-- A digit in front makes a number larger. -/
theorem digitsBefore_none (large : digitsBefore weight other digits = none) :
    (10000 : ℚ) ^ (other + 1) ≤ weightedDigits 10000 weight digits := by
  induction digits generalizing weight with
  | nil => exact absurd large (by simp [digitsBefore])
  | cons digit rest ih =>
    rw [digitsBefore] at large
    split at large
    · split at large
      · rename_i nonzero
        have least := le_weightedDigits 10000 (by decide) weight rest nonzero
        have powers : (10000 : ℚ) ^ (other + 1) ≤ (10000 : ℚ) ^ weight :=
          zpow_le_zpow_right₀ (by norm_num) (by omega)
        exact le_trans powers (by exact_mod_cast least)
      · rename_i zero
        have tail := ih (weight - 1) large
        rw [weightedDigits, not_not.mp zero, Nat.cast_zero, zero_mul, zero_add]
        exact tail
    · exact absurd large (by simp)

/-- What is left when only zeros are in front. -/
theorem digitsBefore_some (found : Int × List Nat) (small : ∀ digit ∈ digits, digit < 10000)
    (behind : digitsBefore weight other digits = some found) :
    BehindWeight weight other digits found := by
  induction digits generalizing weight with
  | nil =>
    rw [digitsBefore, some.injEq] at behind
    subst behind
    exact ⟨rfl, small, .inr rfl, min_le_left _ _⟩
  | cons digit rest ih =>
    rw [digitsBefore] at behind
    split at behind
    · split at behind
      · exact absurd behind (by simp)
      · rename_i zero
        have tail := ih (weight - 1) (fun digit member => small digit (List.mem_cons_of_mem _ member))
          behind
        refine ⟨?_, tail.small, tail.reached, ?_⟩
        · rw [tail.value, weightedDigits, not_not.mp zero, Nat.cast_zero, zero_mul, zero_add]
        · have least := tail.least
          omega
    · rename_i below
      rw [some.injEq] at behind
      subst behind
      exact ⟨rfl, small, .inl (not_lt.mp below), min_le_left _ _⟩

/-- The sizes compare as the numbers. -/
theorem cmpAbsCommon_eq {digits1 : List Nat} (weight1 : Int) {digits2 : List Nat} (weight2 : Int)
    (small1 : ∀ digit ∈ digits1, digit < 10000) (small2 : ∀ digit ∈ digits2, digit < 10000) :
    cmpAbsCommon digits1 weight1 digits2 weight2 =
      threeWay (weightedDigits 10000 weight1 digits1) (weightedDigits 10000 weight2 digits2) := by
  rw [cmpAbsCommon]
  cases first : digitsBefore weight1 weight2 digits1 with
  | none =>
    have least := digitsBefore_none weight1 weight2 digits1 first
    have most := weightedDigits_lt 10000 (by decide) weight2 digits2 small2
    exact (threeWay_of_gt _ _ (lt_of_lt_of_le (by exact_mod_cast most) least)).symm
  | some found1 =>
    obtain ⟨place1, rest1⟩ := found1
    have behind1 := digitsBefore_some weight1 weight2 digits1 _ small1 first
    dsimp only
    rw [← behind1.value]
    cases second : digitsBefore weight2 place1 digits2 with
    | none =>
      have least := digitsBefore_none weight2 place1 digits2 second
      have most := weightedDigits_lt 10000 (by decide) place1 rest1 behind1.small
      exact (threeWay_of_lt _ _ (lt_of_lt_of_le (by exact_mod_cast most) least)).symm
    | some found2 =>
      obtain ⟨place2, rest2⟩ := found2
      have behind2 := digitsBefore_some weight2 place1 digits2 _ small2 second
      dsimp only
      rw [← behind2.value]
      by_cases same : place1 = place2
      · rw [if_pos same, ← same]
        exact commonDigits_eq place1 rest1 rest2 behind1.small behind2.small
      · rw [if_neg same]
        apply remainingDigits_eq
        -- A weight that is still above the other one belongs to digits that ran out.
        rcases behind1.reached with low1 | short1
        · rcases behind2.reached with low2 | short2
          · have least2 := behind2.least
            lia
          · exact .inr short2
        · exact .inl short1

theorem NumericVar.Canonical.positive (canonical : var.Canonical)
    (some : var.digits ≠ []) : 0 < weightedDigits 10000 var.weight var.digits := by
  obtain ⟨digit, rest, isDigits⟩ := List.exists_cons_of_ne_nil some
  have head := canonical.head
  rw [isDigits] at head
  rw [isDigits, weightedDigits_pos_iff 10000 (by decide)]
  exact ⟨digit, List.mem_cons_self, fun zero => head (congrArg _ zero)⟩

/-- Two ordinary numerics compare as their values. -/
theorem cmpVarCommon_eq {var1 var2 : NumericVar} (canonical1 : var1.Canonical)
    (canonical2 : var2.Canonical) : cmpVarCommon var1 var2 = threeWay var1.value var2.value := by
  have size1 := canonical1.positive
  have size2 := canonical2.positive
  have sizes := cmpAbsCommon_eq var1.weight var2.weight canonical1.small canonical2.small
  have sizes' := cmpAbsCommon_eq var2.weight var1.weight canonical2.small canonical1.small
  have empty (weight : Int) : weightedDigits 10000 weight [] = 0 := rfl
  rw [var1.value_eq, var2.value_eq, cmpVarCommon]
  by_cases none1 : var1.digits = []
  · rw [if_pos none1, none1, empty, mul_zero]
    by_cases none2 : var2.digits = []
    · rw [if_pos none2, none2, empty, mul_zero, threeWay_self]
    · have positive := size2 none2
      rw [if_neg none2]
      cases var2.sign with
      | pos =>
        rw [if_neg (by decide), threeWay_of_lt]
        simpa [Sign.factor] using positive
      | neg =>
        rw [if_pos rfl, threeWay_of_gt]
        simpa [Sign.factor] using positive
  · have positive1 := size1 none1
    rw [if_neg none1]
    by_cases none2 : var2.digits = []
    · rw [if_pos none2, none2, empty]
      cases var1.sign with
      | pos =>
        rw [if_pos rfl, threeWay_of_gt]
        simpa [Sign.factor] using positive1
      | neg =>
        rw [if_neg (by decide), threeWay_of_lt]
        simpa [Sign.factor] using positive1
    · have positive2 := size2 none2
      rw [if_neg none2]
      cases var1.sign with
      | pos =>
        rw [if_pos rfl]
        cases var2.sign with
        | pos => simpa [Sign.factor] using sizes
        | neg =>
          rw [if_pos rfl, threeWay_of_gt]
          simp only [Sign.factor, Int.cast_neg, Int.cast_one]
          linarith
      | neg =>
        rw [if_neg (by decide)]
        cases var2.sign with
        | pos =>
          rw [if_pos rfl, threeWay_of_lt]
          simp only [Sign.factor, Int.cast_neg, Int.cast_one]
          linarith
        | neg =>
          rw [if_neg (by decide), sizes']
          simp only [Sign.factor, Int.cast_neg, Int.cast_one, neg_one_mul, threeWay_opposite]

end Ordinary

section Results

theorem BiComparison.compare_congr {α β : Type*} [LinearOrder α] [LinearOrder β]
    (op : BiComparison) {x y : α} {a b : β} (less : x < y ↔ a < b) (greater : y < x ↔ b < a) :
    op.compare x y = op.compare a b := by
  have equal : x = y ↔ a = b := by
    rw [eq_iff_le_not_lt, eq_iff_le_not_lt, ← not_lt, ← not_lt, less, greater]
  cases op with
  | bieq => simp only [compare, equal]
  | bineq => simp only [compare, ne_eq, equal]
  | bile => simp only [compare, ← not_lt, greater]
  | bilt => simp only [compare, less]
  | bige => simp only [compare, ← not_lt, less]
  | bigt => simp only [compare, greater]
  | bicmp => simp only [compare, less, greater]

variable {α : Type*} [LinearOrder α] (op : BiComparison) (left right : α)

theorem BiComparison.apart_of_ne (different : left ≠ right) :
    op.apart (some (op.compare left right)) = some (op.compare left right) := by
  cases op with
  | bieq => rw [apart, compare, if_neg different]
  | bineq => rw [apart, compare, if_pos different]
  | _ => rfl

theorem BiComparison.ofCmp_threeWay : op.ofCmp (threeWay left right) = op.compare left right := by
  have same (op : BiComparison) : op.compare (threeWay left right) 0 = op.compare left right :=
    op.compare_congr (threeWay_neg_iff left right) (threeWay_pos_iff left right)
  cases op with
  | bicmp => rfl
  | bieq => exact same .bieq
  | bineq => exact same .bineq
  | bile => exact same .bile
  | bilt => exact same .bilt
  | bige => exact same .bige
  | bigt => exact same .bigt

theorem compare_rescaled (left : Int) (lscale : Nat) (right : Int)
    (rscale larger : Nat) (leftOrder : lscale ≤ larger) (rightOrder : rscale ≤ larger) :
    op.compare (left * 10 ^ (larger - lscale)) (right * 10 ^ (larger - rscale)) =
      op.compare ((left : ℚ) / 10 ^ lscale) ((right : ℚ) / 10 ^ rscale) := by
  have leftValue := rescaled_value left leftOrder
  have rightValue := rescaled_value right rightOrder
  have positive : (0 : ℚ) < 10 ^ larger := by positivity
  apply BiComparison.compare_congr
  · rw [← Int.cast_lt (R := ℚ), leftValue, rightValue, mul_lt_mul_iff_left₀ positive]
  · rw [← Int.cast_lt (R := ℚ), leftValue, rightValue, mul_lt_mul_iff_left₀ positive]

/-- The operands that a table rejects leave the width. -/
def TightTable (limit most : Nat) (outOfBound : Int → Option Int) : Prop :=
  ∀ (index : Nat) (bound value : Int), index ≤ most → outOfBound index = some bound →
    ¬bound ≤ (if value < 0 then value else -value) → limit < (value * 10 ^ index).natAbs

theorem exceeds_of_quotient_lt {limit index : Nat} {value : Int}
    (bound : ¬(-(limit : Int)).tdiv (10 ^ index) ≤ if value < 0 then value else -value) :
    limit < (value * 10 ^ index).natAbs := by
  have cast : (10 : Int) ^ index = ((10 ^ index : Nat) : Int) := by
    rfl
  have quotient : (-(limit : Int)).tdiv (10 ^ index) = -((limit / 10 ^ index : Nat) : Int) := by
    rw [Int.neg_tdiv]
    rfl
  have size : limit / 10 ^ index < value.natAbs := by
    split at bound <;> omega
  rw [Int.natAbs_mul]
  exact (Nat.div_lt_iff_lt_mul (Nat.pow_pos (by decide))).mp size

theorem tightTable_int64 : TightTable (2 ^ 63) 19 int64MultiOutOfBound := by
  intro index bound value small entry rejected
  by_cases last : index = 19
  · subst last
    have isZero : bound = 0 := some.inj (entry.symm.trans rfl)
    have nonzero : 1 ≤ value.natAbs := by
      split at rejected <;> omega
    rw [Int.natAbs_mul]
    exact lt_of_lt_of_le (by decide) (Nat.le_mul_of_pos_left _ nonzero)
  · rw [int64MultiOutOfBound, if_pos (by lia), some.injEq] at entry
    subst entry
    exact exceeds_of_quotient_lt rejected

theorem tightTable_int128 : TightTable (2 ^ 127) 38 getScaleQuotient := by
  intro index bound value small entry rejected
  rw [getScaleQuotient, if_pos (by omega), some.injEq] at entry
  subst entry
  exact exceeds_of_quotient_lt rejected

/-- A value out of bound exceeds the limit. -/
theorem adjustBiToSameScale_exceeds {limit most : Nat}
    {exact multiplier outOfBound : Int → Option Int}
    (tight : TightTable limit most outOfBound) {x : Int} {xScale : Nat} {y : Int} {yScale : Nat}
    (xFits : Within limit x) (yFits : Within limit y) (xSmall : xScale ≤ most) (ySmall : yScale ≤ most)
    (exacts : ∀ value, Within limit value → exact value = some value) {adjusted : Adjusted}
    (isAdjusted : adjustBiToSameScale exact multiplier outOfBound x xScale y yScale = some adjusted) :
    (adjusted.overflow = .rightOutOfBound →
        limit < (y * 10 ^ (adjusted.resultScale - yScale)).natAbs) ∧
      (adjusted.overflow = .leftOutOfBound →
        limit < (x * 10 ^ (adjusted.resultScale - xScale)).natAbs) := by
  rw [adjustBiToSameScale] at isAdjusted
  split at isAdjusted
  · have index : (xScale : Int) - yScale = ((xScale - yScale : Nat) : Int) := by omega
    rw [negated_eq exacts yFits, bind_some, index] at isAdjusted
    obtain ⟨bound, isBound, rest⟩ := Option.bind_eq_some_iff.mp isAdjusted
    by_cases rejected : bound ≤ if y < 0 then y else -y
    · rw [if_pos rejected] at rest
      obtain ⟨power, -, scaled⟩ := Option.bind_eq_some_iff.mp rest
      obtain ⟨yScaled, -, rfl⟩ := Option.map_eq_some_iff.mp scaled
      exact ⟨(fun absent => by cases absent), (fun absent => by cases absent)⟩
    · rw [if_neg rejected, some.injEq] at rest
      subst rest
      exact ⟨fun _ => tight (xScale - yScale) bound y (by omega) isBound rejected,
        (fun absent => by cases absent)⟩
  · have index : -((xScale : Int) - yScale) = ((yScale - xScale : Nat) : Int) := by lia
    rw [negated_eq exacts xFits, bind_some, index] at isAdjusted
    obtain ⟨bound, isBound, rest⟩ := Option.bind_eq_some_iff.mp isAdjusted
    by_cases rejected : bound ≤ if x < 0 then x else -x
    · rw [if_pos rejected] at rest
      obtain ⟨power, -, scaled⟩ := Option.bind_eq_some_iff.mp rest
      obtain ⟨xScaled, -, rfl⟩ := Option.map_eq_some_iff.mp scaled
      exact ⟨(fun absent => by cases absent), (fun absent => by cases absent)⟩
    · rw [if_neg rejected, some.injEq] at rest
      subst rest
      exact ⟨(fun absent => by cases absent),
        fun _ => tight (yScale - xScale) bound x (by omega) isBound rejected⟩

/-- A value that exceeds the limit differs from the other. -/
theorem different_of_exceeds {limit : Nat} {x : Int} {xScale : Nat} {y : Int} {yScale : Nat}
    (xFits : Within limit x) (yFits : Within limit y) {adjusted : Adjusted}
    (spec : AdjustedSpec limit x xScale y yScale adjusted)
    (exceeds : (adjusted.overflow = .rightOutOfBound →
        limit < (y * 10 ^ (adjusted.resultScale - yScale)).natAbs) ∧
      (adjusted.overflow = .leftOutOfBound →
        limit < (x * 10 ^ (adjusted.resultScale - xScale)).natAbs))
    (out : adjusted.overflow ≠ .ajustTrue) :
    x * 10 ^ (adjusted.resultScale - xScale) ≠ y * 10 ^ (adjusted.resultScale - yScale) := by
  obtain ⟨xLeast, xMost⟩ := xFits
  obtain ⟨yLeast, yMost⟩ := yFits
  intro same
  cases overflow : adjusted.overflow with
  | ajustTrue => exact out overflow
  | rightOutOfBound =>
    have large := exceeds.1 overflow
    rw [← same, spec.right overflow, Nat.sub_self] at large
    omega
  | leftOutOfBound =>
    have large := exceeds.2 overflow
    rw [same, spec.left overflow, Nat.sub_self] at large
    omega

/-- The comparison of 64 bits is right. -/
theorem bi64cmp64_eq {left : Int} {lscale : Nat} {right : Int} {rscale : Nat}
    (leftFits : InInt64 left) (rightFits : InInt64 right) (lsmall : lscale ≤ 19)
    (rsmall : rscale ≤ 19) : bi64cmp64 op (.bi64 left lscale) (.bi64 right rscale) =
      some (op.compare ((left : ℚ) / 10 ^ lscale) ((right : ℚ) / 10 ^ rscale)) := by
  obtain ⟨adjusted, isAdjusted, spec⟩ := adjustBiToSameScale_spec
     scaleTables_int64 leftFits rightFits
    lsmall rsmall
  have exceeds := adjustBiToSameScale_exceeds tightTable_int64 leftFits rightFits lsmall rsmall
    scaleTables_int64.1 isAdjusted
  have different := different_of_exceeds leftFits rightFits spec exceeds
  have larger := spec.scale
  have value := compare_rescaled op left lscale right rscale adjusted.resultScale (by omega) (by omega)
  have leftSize := rescaled_size left (adjusted.resultScale - lscale) leftFits (by omega)
  have rightSize := rescaled_size right (adjusted.resultScale - rscale) rightFits (by omega)
  have leftOf : (adjusted.resultScale : Int) - lscale =
      ((adjusted.resultScale - lscale : Nat) : Int) := by omega
  have rightOf : (adjusted.resultScale : Int) - rscale =
      ((adjusted.resultScale - rscale : Nat) : Int) := by lia
  rw [bi64cmp64]
  simp only [numericBiScale, int128GetVal, bind_some, Bool.false_eq_true, if_false,
    adjustBi64ToSameScale, isAdjusted]
  rw [← value]
  cases overflow : adjusted.overflow with
  | ajustTrue =>
    obtain ⟨isX, isY, -, -⟩ := spec.both overflow
    rw [isX, isY]
  | rightOutOfBound =>
    have apart := different (by rw [overflow]; decide)
    have isLeft : left * 10 ^ (adjusted.resultScale - lscale) = left := by
      rw [spec.right overflow, Nat.sub_self, pow_zero, mul_one]
    have wide : InInt128 (right * 10 ^ (adjusted.resultScale - rscale)) := ⟨by grind, by grind⟩
    rw [isLeft] at apart ⊢
    simp only [rightOf, getScaleMultiplier_of_le (adjusted.resultScale - rscale) (by lia),
      bind_some, int128Exact, if_pos wide]
    exact op.apart_of_ne _ _ apart
  | leftOutOfBound =>
    have apart := different (by rw [overflow]; decide)
    have isRight : right * 10 ^ (adjusted.resultScale - rscale) = right := by
      rw [spec.left overflow, Nat.sub_self, pow_zero, mul_one]
    have wide : InInt128 (left * 10 ^ (adjusted.resultScale - lscale)) := ⟨by grind, by grind⟩
    rw [isRight] at apart ⊢
    simp only [leftOf, getScaleMultiplier_of_le (adjusted.resultScale - lscale) (by lia),
      bind_some, int128Exact, if_pos wide]
    exact op.apart_of_ne _ _ apart

/-- The comparison of 128 bits is right. -/
theorem bi128cmp128_eq {larg rarg : Numeric} {left : Int} {lscale : Nat}
    {right : Int} {rscale : Nat} (isLeft : FastOf larg left lscale)
    (isRight : FastOf rarg right rscale) :
    bi128cmp128 op (numericIsBi128 larg) (numericIsBi128 rarg) larg rarg =
      some (op.compare ((left : ℚ) / 10 ^ lscale) ((right : ℚ) / 10 ^ rscale)) := by
  obtain ⟨leftScale, leftVal, leftFits, lsmall, leftShort, leftNormal, leftRestores⟩ :=
    FastOf.read isLeft
  obtain ⟨rightScale, rightVal, rightFits, rsmall, rightShort, rightNormal, rightRestores⟩ :=
    FastOf.read isRight
  obtain ⟨adjusted, isAdjusted, spec⟩ := adjustBiToSameScale_spec
     scaleTables_int128 leftFits rightFits
    lsmall rsmall
  have exceeds := adjustBiToSameScale_exceeds tightTable_int128 leftFits rightFits lsmall rsmall
    scaleTables_int128.1 isAdjusted
  have different := different_of_exceeds leftFits rightFits spec exceeds
  have larger := spec.scale
  have value := compare_rescaled op left lscale right rscale adjusted.resultScale (by omega) (by omega)
  have ordinary (out : adjusted.overflow ≠ .ajustTrue) :
      op.apart ((makeNumericNormal larg).bind fun num1 => (makeNumericNormal rarg).bind fun num2 =>
        (cmpNumerics (.normal num1.var) (.normal num2.var)).map op.ofCmp) =
      some (op.compare ((left : ℚ) / 10 ^ lscale) ((right : ℚ) / 10 ^ rscale)) := by
    have compared : cmpNumerics (.normal leftShort.var) (.normal rightShort.var) =
        some (threeWay ((left : ℚ) / 10 ^ lscale) ((right : ℚ) / 10 ^ rscale)) := by
      rw [← leftRestores.value, ← rightRestores.value,
        ← cmpVarCommon_eq leftRestores.canonical rightRestores.canonical]
      rfl
    rw [leftNormal, bind_some, rightNormal, bind_some, compared, map_some,
      op.ofCmp_threeWay, ← value]
    exact op.apart_of_ne _ _ (different out)
  rw [bi128cmp128, leftScale, bind_some, rightScale, bind_some, leftVal,
    bind_some, rightVal, bind_some, adjustBi128ToSameScale, isAdjusted, bind_some]
  cases overflow : adjusted.overflow with
  | ajustTrue =>
    obtain ⟨isX, isY, -, -⟩ := spec.both overflow
    rw [isX, isY, value]
  | rightOutOfBound | leftOutOfBound => exact ordinary (by rw [overflow]; decide)

/-- Fast numerics are compared as what they stand for. Every comparison of fast numerics of all widths
and scales gives the result for their exact values, also where a number leaves its width at the larger
scale. -/
theorem fast_comparison_agrees (op : BiComparison) (larg rarg : Numeric) (left : Int) (lscale : Nat)
    (right : Int) (rscale : Nat) (isLeft : FastOf larg left lscale)
    (isRight : FastOf rarg right rscale) : bipickcmp op larg rarg =
      some (op.compare ((left : ℚ) / 10 ^ lscale) ((right : ℚ) / 10 ^ rscale)) := by
  rw [bipickcmp]
  split
  · exact bi128cmp128_eq op isLeft isRight
  · rename_i short
    rcases isLeft with ⟨rfl, leftFits, lsmall⟩ | ⟨rfl, -, -⟩
    · rcases isRight with ⟨rfl, rightFits, rsmall⟩ | ⟨rfl, -, -⟩
      · exact bi64cmp64_eq op leftFits rightFits lsmall rsmall
      · exact absurd rfl short
    · exact absurd rfl short

/-- The least number of 64 bits and a number with many decimals. -/
theorem fast_comparison_agrees_least : bipickcmp .bicmp (.bi64 (-2 ^ 63) 0) (.bi64 1 19) =
      some (BiComparison.bicmp.compare (((-2 ^ 63 : Int) : ℚ) / 10 ^ 0) (((1 : Int) : ℚ) / 10 ^ 19)) :=
  fast_comparison_agrees .bicmp _ _ (-2 ^ 63) 0 1 19
    (.inl ⟨rfl, by decide, by decide⟩) (.inl ⟨rfl, by decide, by decide⟩)

end Results

end OpenGauss.Numerics
