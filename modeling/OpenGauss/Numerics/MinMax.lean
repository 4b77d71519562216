import OpenGauss.Numerics.Comparison

/-!
# The least and the largest fast numeric

An aggregate keeps the least or the largest number that it has seen. It is compared with each further
one, which is written over it where it is the better one. A state of 128 bits keeps its width, a state
of 64 bits is replaced by a number of 128 bits, and where a number leaves its width at the larger
scale, the state becomes the ordinary form of the better number.
-/
namespace OpenGauss.Numerics

open Option List OpenGauss.Base

section Functions

/-- The two aggregates. -/
inductive BiAggregate
  | smaller
  | larger
  deriving DecidableEq

/-- Whether the state is kept when it meets a number. -/
def BiAggregate.Keeps {α : Type*} [LinearOrder α] : BiAggregate → α → α → Prop
  | .smaller, left, right => left ≤ right
  | .larger, left, right => left ≥ right

instance {α : Type*} [LinearOrder α] (agg : BiAggregate) (left right : α) :
    Decidable (agg.Keeps left right) :=
  match agg with
  | .smaller => inferInstanceAs (Decidable (left ≤ right))
  | .larger => inferInstanceAs (Decidable (left ≥ right))

/-- The better one of a state and a number, both of 64 bits; the number is written over the state. -/
def bi64cmp64Aggregate (agg : BiAggregate) (larg rarg : Numeric) : Option Numeric :=
  (numericBiScale larg).bind fun lvalscale => (numericBiScale rarg).bind fun rvalscale =>
  (int128GetVal false larg).bind fun leftval => (int128GetVal false rarg).bind fun rightval =>
  (adjustBi64ToSameScale leftval lvalscale rightval rvalscale).bind fun adjusted =>
    let resScale := adjusted.resultScale
    match adjusted.overflow with
    | .ajustTrue =>
      some (if agg.Keeps adjusted.xScaled adjusted.yScaled then larg else .bi64 rightval rvalscale)
    | .rightOutOfBound =>
      (getScaleMultiplier (resScale - rvalscale)).bind fun power =>
        (int128Exact (rightval * power)).map fun rightScaled =>
          if agg.Keeps leftval rightScaled then larg else .bi64 rightval rvalscale
    | .leftOutOfBound =>
      (getScaleMultiplier (resScale - lvalscale)).bind fun power =>
        (int128Exact (leftval * power)).map fun leftScaled =>
          if agg.Keeps leftScaled rightval then larg else .bi64 rightval rvalscale

/-- The smaller one of two numbers of 64 bits. -/
def bi64cmp64Smaller (larg rarg : Numeric) : Option Numeric := bi64cmp64Aggregate .smaller larg rarg

/-- The larger one of two numbers of 64 bits. -/
def bi64cmp64Larger (larg rarg : Numeric) : Option Numeric := bi64cmp64Aggregate .larger larg rarg

/-- The smaller one of two numerics in any form, as an ordinary numeric. -/
def numericSmaller (num1 num2 : Numeric) : Option Numeric :=
  (ordinaryForm num1).bind fun num1 => (ordinaryForm num2).bind fun num2 =>
    (cmpNumerics num1 num2).map fun result => if result < 0 then num1 else num2

/-- The larger one of two numerics in any form, as an ordinary numeric. -/
def numericLarger (num1 num2 : Numeric) : Option Numeric :=
  (ordinaryForm num1).bind fun num1 => (ordinaryForm num2).bind fun num2 =>
    (cmpNumerics num1 num2).map fun result => if 0 < result then num1 else num2

/-- The function of an aggregate for ordinary numerics. -/
def BiAggregate.numericFunction : BiAggregate → Numeric → Numeric → Option Numeric
  | .smaller => numericSmaller
  | .larger => numericLarger

/-- The better one of a state and a number, at least one of them of 128 bits. A state of 128 bits is
written over, and one of 64 bits is replaced by the number. -/
def bi128cmp128Aggregate (agg : BiAggregate) (largIsInt128 rargIsInt128 : Bool)
    (larg rarg : Numeric) : Option Numeric :=
  (numericBiScale larg).bind fun lvalscale => (numericBiScale rarg).bind fun rvalscale =>
  (int128GetVal largIsInt128 larg).bind fun leftval =>
  (int128GetVal rargIsInt128 rarg).bind fun rightval =>
  (adjustBi128ToSameScale leftval lvalscale rightval rvalscale).bind fun adjusted =>
    match adjusted.overflow with
    | .ajustTrue =>
      some (if agg.Keeps adjusted.xScaled adjusted.yScaled then larg
        else if largIsInt128 then .bi128 rightval rvalscale else rarg)
    | _ => agg.numericFunction larg rarg

/-- The smaller one of two numbers, at least one of them of 128 bits. -/
def bi128cmp128Smaller (largIsInt128 rargIsInt128 : Bool) (larg rarg : Numeric) : Option Numeric :=
  bi128cmp128Aggregate .smaller largIsInt128 rargIsInt128 larg rarg

/-- The larger one of two numbers, at least one of them of 128 bits. -/
def bi128cmp128Larger (largIsInt128 rargIsInt128 : Bool) (larg rarg : Numeric) : Option Numeric :=
  bi128cmp128Aggregate .larger largIsInt128 rargIsInt128 larg rarg

/-- The functions for an aggregate and the widths of the state and the number. -/
def biAggFunMatrix (agg : BiAggregate) (leftIs128 rightIs128 : Bool) :
    Numeric → Numeric → Option Numeric :=
  match agg with
  | .smaller =>
    if leftIs128 || rightIs128 then bi128cmp128Smaller leftIs128 rightIs128 else bi64cmp64Smaller
  | .larger =>
    if leftIs128 || rightIs128 then bi128cmp128Larger leftIs128 rightIs128 else bi64cmp64Larger

/-- Whether a numeric is fast (`NUMERIC_IS_BI`). -/
def numericIsBi : Numeric → Bool
  | .bi64 _ _ => true
  | .bi128 _ _ => true
  | _ => false

/-- One turn of `vnumeric_min_max` with the state of a group. -/
def minMaxStep (agg : BiAggregate) (state val : Numeric) : Option Numeric :=
  if numericIsBi state && numericIsBi val then
    biAggFunMatrix agg (numericIsBi128 state) (numericIsBi128 val) state val
  else agg.numericFunction state val

/-- The further numbers of a group; the first one has become the state (`vnumeric_min_max`). -/
def vnumericMinMax (agg : BiAggregate) : Numeric → List Numeric → Option Numeric
  | state, [] => some state
  | state, val :: rest => (minMaxStep agg state val).bind fun next => vnumericMinMax agg next rest

end Functions

section Steps

/-- A numeric that may be the state for an input: the input, the input with 128 bits, or an ordinary
numeric with its value and its decimals. -/
inductive StateOf : Numeric → Numeric → Prop
  | same (input : Numeric) : StateOf input input
  | wider (value : Int) (scale : Nat) : StateOf (.bi64 value scale) (.bi128 value scale)
  | ordinary (input : Numeric) (var : NumericVar) (canonical : var.Canonical)
    (value : input.denotes = some var.value) (scale : input.scale = var.dscale) :
    StateOf input (.normal var)

theorem FastOf.number (fast : Numeric) (value : Int) (scale : Nat) (isFast : FastOf fast value scale) :
    fast.denotes = some ((value : ℚ) / 10 ^ scale) ∧ fast.scale = scale := by
  rcases isFast with ⟨rfl, -, -⟩ | ⟨rfl, -, -⟩
  · exact ⟨rfl, rfl⟩
  · exact ⟨rfl, rfl⟩

theorem StateOf.number (input state : Numeric) (form : StateOf input state) :
    state.denotes = input.denotes ∧ state.scale = input.scale := by
  cases form with
  | same | wider value scale => exact ⟨rfl, rfl⟩
  | ordinary _ var canonical value scale => exact ⟨value.symm, scale.symm⟩

/-- A state is the fast form of an input or its ordinary one. -/
theorem StateOf.fast_or_ordinary {input state : Numeric} {value : Int} {scale : Nat}
    (isFast : FastOf input value scale) (form : StateOf input state) :
    FastOf state value scale ∨ ∃ var, state = .normal var ∧ var.Canonical ∧
      var.value = (value : ℚ) / 10 ^ scale ∧ var.dscale = scale := by
  cases form with
  | same => exact .inl isFast
  | wider value' scale' =>
    rcases isFast with ⟨same, fits, small⟩ | ⟨different, -, -⟩
    · obtain ⟨rfl, rfl⟩ := same
      obtain ⟨least, most⟩ := fits
      exact .inl (.inr ⟨rfl, ⟨by omega, by omega⟩, by omega⟩)
    · exact absurd different (by simp)
  | ordinary _ var canonical denotes shown =>
    have number := isFast.number
    rw [number.1, some.injEq] at denotes
    exact .inr ⟨var, rfl, canonical, denotes.symm, shown.symm.trans number.2⟩

variable {α : Type*} [LinearOrder α] (agg : BiAggregate) (input state val : Numeric) (left : Int)
  (lscale : Nat) (right : Int) (rscale : Nat)

theorem BiAggregate.keeps_of_not {left right : α}
    (loses : ¬agg.Keeps left right) : agg.Keeps right left := by
  cases agg with
  | smaller | larger => exact (not_le.mp loses).le

theorem BiAggregate.keeps_trans (first second third : α)
    (before : agg.Keeps first second) (behind : agg.Keeps second third) : agg.Keeps first third := by
  cases agg with
  | smaller => exact le_trans before behind
  | larger => exact le_trans behind before

theorem BiAggregate.keeps_self (number : α) : agg.Keeps number number := by
  cases agg with
  | smaller | larger => exact le_refl number

/-- The comparison that tells whether the state is kept. -/
def BiAggregate.comparison : BiAggregate → BiComparison
  | .smaller => .bile
  | .larger => .bige

theorem BiAggregate.comparison_eq (left right : α) :
    agg.comparison.compare left right = if agg.Keeps left right then 1 else 0 := by
  cases agg with
  | smaller | larger => rfl

/-- The better one of two numbers: a state for one of them that is kept against the other. -/
def Better (agg : BiAggregate) (left right : ℚ) (input val next : Numeric) : Prop :=
  (agg.Keeps left right ∧ StateOf input next) ∨ (agg.Keeps right left ∧ StateOf val next)

/-- The aggregate keeps the better one. -/
theorem bi64cmp64Aggregate_eq (larg : Numeric) (right : Int) (rscale : Nat) :
    bi64cmp64Aggregate agg larg (.bi64 right rscale) =
      (bi64cmp64 agg.comparison larg (.bi64 right rscale)).map fun result =>
        if result = 1 then larg else .bi64 right rscale := by
  have choose (left right' : Int) :
      (if agg.comparison.compare left right' = 1 then larg else .bi64 right rscale) =
        if agg.Keeps left right' then larg else .bi64 right rscale := by
    rw [agg.comparison_eq]
    by_cases keeps : agg.Keeps left right'
    · rw [if_pos keeps, if_pos rfl, if_pos keeps]
    · rw [if_neg keeps, if_neg (by decide), if_neg keeps]
  have apart (compared : Option Int) : agg.comparison.apart compared = compared := by
    cases agg with
    | smaller | larger => rfl
  rw [bi64cmp64Aggregate, bi64cmp64]
  simp only [Option.map_bind, Function.comp_def, int128GetVal, numericBiScale, bind_some]
  congr 1
  funext lvalscale
  congr 1
  funext leftval
  simp only [Bool.false_eq_true, if_false, bind_some]
  congr 1
  funext adjusted
  cases adjusted.overflow with
  | ajustTrue => exact congrArg some (choose _ _).symm
  | rightOutOfBound | leftOutOfBound =>
    simp only [apart, Option.map_bind, Option.map_map, Function.comp_def, choose]

/-- The ordinary function keeps the better one. -/
theorem numericFunction_better {num1 num2 : Numeric} {var1 var2 : NumericVar}
    (isVar1 : ordinaryForm num1 = some (.normal var1))
    (isVar2 : ordinaryForm num2 = some (.normal var2)) (canonical1 : var1.Canonical)
    (canonical2 : var2.Canonical) : (agg.Keeps var1.value var2.value ∧
        agg.numericFunction num1 num2 = some (.normal var1)) ∨ (agg.Keeps var2.value var1.value ∧
        agg.numericFunction num1 num2 = some (.normal var2)) := by
  have compared : cmpNumerics (.normal var1) (.normal var2) =
      some (threeWay var1.value var2.value) := by
    rw [← cmpVarCommon_eq canonical1 canonical2]
    rfl
  cases agg with
  | smaller =>
    rw [BiAggregate.numericFunction, numericSmaller, isVar1, bind_some, isVar2,
      bind_some, compared, map_some]
    by_cases less : threeWay var1.value var2.value < 0
    · rw [if_pos less]
      exact .inl ⟨((threeWay_neg_iff _ _).mp less).le, rfl⟩
    · rw [if_neg less]
      rw [threeWay_neg_iff] at less
      exact .inr ⟨not_lt.mp less, rfl⟩
  | larger =>
    rw [BiAggregate.numericFunction, numericLarger, isVar1, bind_some, isVar2,
      bind_some, compared, map_some]
    by_cases greater : 0 < threeWay var1.value var2.value
    · rw [if_pos greater]
      exact .inl ⟨((threeWay_pos_iff _ _).mp greater).le, rfl⟩
    · rw [if_neg greater]
      rw [threeWay_pos_iff] at greater
      exact .inr ⟨not_lt.mp greater, rfl⟩

/-- The ordinary form of a state is one of the input. -/
theorem StateOf.ordinaryForm {input state : Numeric} {value : Int} {scale : Nat}
    (isFast : FastOf input value scale) (form : StateOf input state) :
    ∃ var, Numerics.ordinaryForm state = some (.normal var) ∧ var.Canonical ∧
      var.value = (value : ℚ) / 10 ^ scale ∧ StateOf input (.normal var) := by
  have number := isFast.number
  rcases form.fast_or_ordinary isFast with fast | ordinary
  · obtain ⟨-, -, -, -, short, normal, restores⟩ := FastOf.read fast
    refine ⟨short.var, ?_, restores.canonical, restores.value, ?_⟩
    · rcases fast with ⟨rfl, -, -⟩ | ⟨rfl, -, -⟩
      · rw [Numerics.ordinaryForm, normal, map_some]
      · rw [Numerics.ordinaryForm, normal, map_some]
    · exact .ordinary input short.var restores.canonical (by rw [number.1, restores.value])
        (by rw [number.2, restores.dscale])
  · obtain ⟨var, rfl, canonical, isValue, shown⟩ := ordinary
    exact ⟨var, rfl, canonical, isValue,
      .ordinary input var canonical (by rw [number.1, isValue]) (by rw [number.2, shown])⟩

variable {input state rscale}

theorem numericFunction_step (isLeft : FastOf input left lscale)
    (form : StateOf input state) (isRight : FastOf val right rscale) :
    ∃ next, agg.numericFunction state val = some next ∧
      Better agg (left / 10 ^ lscale) (right / 10 ^ rscale) input val next := by
  obtain ⟨var1, isVar1, canonical1, value1, form1⟩ := form.ordinaryForm isLeft
  obtain ⟨var2, isVar2, canonical2, value2, form2⟩ :=
    (StateOf.same val).ordinaryForm isRight
  have better := numericFunction_better agg isVar1 isVar2 canonical1 canonical2
  rw [value1, value2] at better
  rcases better with ⟨keeps, result⟩ | ⟨keeps, result⟩
  · exact ⟨_, result, .inl ⟨keeps, form1⟩⟩
  · exact ⟨_, result, .inr ⟨keeps, form2⟩⟩

theorem keeps_rescaled
    (rscale larger : Nat) (leftOrder : lscale ≤ larger) (rightOrder : rscale ≤ larger) :
    agg.Keeps (left * 10 ^ (larger - lscale)) (right * 10 ^ (larger - rscale)) ↔
      agg.Keeps ((left : ℚ) / 10 ^ lscale) ((right : ℚ) / 10 ^ rscale) := by
  have leftValue := rescaled_value left leftOrder
  have rightValue := rescaled_value right rightOrder
  have positive : (0 : ℚ) < 10 ^ larger := by positivity
  have order (x y : Int) (a b : ℚ) (isX : (x : ℚ) = a * 10 ^ larger)
      (isY : (y : ℚ) = b * 10 ^ larger) : x ≤ y ↔ a ≤ b := by
    rw [← Int.cast_le (R := ℚ), isX, isY, mul_le_mul_iff_left₀ positive]
  cases agg with
  | smaller => exact order _ _ _ _ leftValue rightValue
  | larger => exact order _ _ _ _ rightValue leftValue

variable {lscale}

theorem bi64cmp64Aggregate_step (leftFits : InInt64 left) (rightFits : InInt64 right) (lsmall : lscale ≤ 19)
    (rsmall : rscale ≤ 19) {input : Numeric} (form : StateOf input (.bi64 left lscale)) :
    ∃ next, bi64cmp64Aggregate agg (.bi64 left lscale) (.bi64 right rscale) = some next ∧
      Better agg (left / 10 ^ lscale) (right / 10 ^ rscale) input (.bi64 right rscale) next := by
  rw [bi64cmp64Aggregate_eq, bi64cmp64_eq _ leftFits rightFits lsmall rsmall,
    map_some, agg.comparison_eq]
  refine ⟨_, rfl, ?_⟩
  by_cases keeps : agg.Keeps ((left : ℚ) / 10 ^ lscale) ((right : ℚ) / 10 ^ rscale)
  · rw [if_pos keeps]
    exact .inl ⟨keeps, form⟩
  · rw [if_neg keeps]
    exact .inr ⟨agg.keeps_of_not keeps, .same _⟩

/-- A step on 128 bits keeps the better one. -/
theorem bi128cmp128Aggregate_step (isInput : FastOf input left lscale)
    (form : StateOf input state) (isLeft : FastOf state left lscale)
    (isRight : FastOf val right rscale) :
    ∃ next, bi128cmp128Aggregate agg (numericIsBi128 state) (numericIsBi128 val) state val =
        some next ∧ Better agg (left / 10 ^ lscale) (right / 10 ^ rscale) input val next := by
  obtain ⟨leftScale, leftVal, leftFits, lsmall, -⟩ := FastOf.read isLeft
  obtain ⟨rightScale, rightVal, rightFits, rsmall, -⟩ := FastOf.read isRight
  obtain ⟨adjusted, isAdjusted, spec⟩ := adjustBiToSameScale_spec
     scaleTables_int128 leftFits rightFits
    lsmall rsmall
  have ordinary := numericFunction_step agg val left lscale right isInput form isRight
  have larger := spec.scale
  have same := keeps_rescaled agg left lscale right rscale adjusted.resultScale (by omega) (by omega)
  rw [bi128cmp128Aggregate, leftScale, bind_some, rightScale, bind_some, leftVal,
    bind_some, rightVal, bind_some, adjustBi128ToSameScale, isAdjusted, bind_some]
  cases overflow : adjusted.overflow with
  | rightOutOfBound | leftOutOfBound => exact ordinary
  | ajustTrue =>
    obtain ⟨isX, isY, -, -⟩ := spec.both overflow
    rw [← isX, ← isY] at same
    refine ⟨_, rfl, ?_⟩
    by_cases keeps : agg.Keeps adjusted.xScaled adjusted.yScaled
    · rw [if_pos keeps]
      exact .inl ⟨same.mp keeps, form⟩
    · have other := agg.keeps_of_not (fun kept => keeps (same.mpr kept))
      rw [if_neg keeps]
      refine .inr ⟨other, ?_⟩
      split
      · rcases isRight with ⟨rfl, -, -⟩ | ⟨rfl, -, -⟩
        · exact .wider right rscale
        · exact .same _
      · exact .same val

/-- A step keeps the better one. -/
theorem minMaxStep_spec (isInput : FastOf input left lscale) (form : StateOf input state)
    (isRight : FastOf val right rscale) : ∃ next, minMaxStep agg state val = some next ∧
      Better agg (left / 10 ^ lscale) (right / 10 ^ rscale) input val next := by
  have isBi (fast : Numeric) (value : Int) (scale : Nat) (isFast : FastOf fast value scale) :
      numericIsBi fast = true := by
    rcases isFast with ⟨rfl, -, -⟩ | ⟨rfl, -, -⟩
    · rfl
    · rfl
  rw [minMaxStep]
  rcases form.fast_or_ordinary isInput with isLeft | ⟨var, isVar, -⟩
  · rw [isBi state left lscale isLeft, isBi val right rscale isRight]
    have wide := bi128cmp128Aggregate_step agg val left right isInput form isLeft isRight
    by_cases short : (numericIsBi128 state || numericIsBi128 val) = true
    · cases agg with
      | smaller | larger =>
        rw [biAggFunMatrix, if_pos short]
        exact wide
    · rcases isLeft with ⟨rfl, leftFits, lsmall⟩ | ⟨rfl, -, -⟩
      · rcases isRight with ⟨rfl, rightFits, rsmall⟩ | ⟨rfl, -, -⟩
        · have narrow := bi64cmp64Aggregate_step agg left right leftFits rightFits
            lsmall rsmall form
          cases agg with
          | smaller | larger => exact narrow
        · exact absurd rfl short
      · exact absurd rfl short
  · have ordinary : numericIsBi state = false := by
      rw [isVar]
      rfl
    rw [ordinary]
    exact numericFunction_step agg val left lscale right isInput form isRight

end Steps

section Results

/-- A state for the best one of some inputs. -/
def BestOf (agg : BiAggregate) (inputs : List Numeric) (state : Numeric) : Prop :=
  ∃ input ∈ inputs, StateOf input state ∧ ∃ best, state.denotes = some best ∧
    ∀ other ∈ inputs, ∃ number, other.denotes = some number ∧ agg.Keeps best number

/-- The inputs are fast numerics. -/
def AllFast (inputs : List Numeric) : Prop := ∀ input ∈ inputs, ∃ value scale, FastOf input value scale

/-- A step keeps the best one. -/
theorem BestOf.step (agg : BiAggregate) (inputs : List Numeric) (state val : Numeric)
    (fast : AllFast (inputs ++ [val])) (best : BestOf agg inputs state) :
    ∃ next, minMaxStep agg state val = some next ∧ BestOf agg (inputs ++ [val]) next := by
  obtain ⟨input, member, form, number, isNumber, bound⟩ := best
  obtain ⟨left, lscale, isInput⟩ := fast input (mem_append_left _ member)
  obtain ⟨right, rscale, isRight⟩ := fast val (mem_append_right _ (mem_singleton_self val))
  obtain ⟨next, isNext, better⟩ := minMaxStep_spec agg val left right isInput form isRight
  have inputNumber := isInput.number.1
  have valNumber := isRight.number.1
  have isLeft : number = (left : ℚ) / 10 ^ lscale := by
    have same := isNumber.symm.trans (form.number.1.trans inputNumber)
    exact some.inj same
  subst isLeft
  refine ⟨next, isNext, ?_⟩
  rcases better with ⟨keeps, nextForm⟩ | ⟨keeps, nextForm⟩
  · refine ⟨input, mem_append_left _ member, nextForm, _, nextForm.number.1.trans inputNumber, ?_⟩
    intro other inside
    rcases mem_append.mp inside with before | last
    · exact bound other before
    · rw [mem_singleton.mp last]
      exact ⟨_, valNumber, keeps⟩
  · refine ⟨val, mem_append_right _ (mem_singleton_self val), nextForm, _,
      nextForm.number.1.trans valNumber, ?_⟩
    intro other inside
    rcases mem_append.mp inside with before | last
    · obtain ⟨otherNumber, isOther, kept⟩ := bound other before
      exact ⟨otherNumber, isOther, agg.keeps_trans _ _ _ keeps kept⟩
    · rw [mem_singleton.mp last]
      exact ⟨_, valNumber, agg.keeps_self _⟩

/-- A run keeps the best one. -/
theorem BestOf.run (agg : BiAggregate) (inputs rest : List Numeric) (state : Numeric)
    (fast : AllFast (inputs ++ rest)) (best : BestOf agg inputs state) :
    ∃ final, vnumericMinMax agg state rest = some final ∧ BestOf agg (inputs ++ rest) final := by
  induction rest generalizing inputs state with
  | nil =>
    rw [append_nil]
    exact ⟨state, rfl, best⟩
  | cons val rest ih =>
    have split : inputs ++ val :: rest = inputs ++ [val] ++ rest := by
      rw [append_assoc, singleton_append]
    rw [split] at fast ⊢
    obtain ⟨next, isNext, nextBest⟩ := BestOf.step agg inputs state val
      (fun input member => fast input (mem_append_left _ member)) best
    rw [vnumericMinMax, isNext]
    exact ih (inputs ++ [val]) next fast nextBest

/-- The aggregates leave the best number. For every sequence of fast numerics of both widths and all
scales that is not empty, the turns end with a state for one of the inputs, with its number and its
decimals, and this number is the least or the largest one of the sequence. -/
theorem min_max_is_extreme (agg : BiAggregate) (first : Numeric) (rest : List Numeric)
    (fast : AllFast (first :: rest)) : ∃ state, vnumericMinMax agg first rest = some state ∧
      ∃ input ∈ first :: rest, StateOf input state ∧ state.denotes = input.denotes ∧
        state.scale = input.scale ∧ ∃ best, state.denotes = some best ∧
          ∀ other ∈ first :: rest, ∃ number, other.denotes = some number ∧
            agg.Keeps best number := by
  obtain ⟨value, scale, isFirst⟩ := fast first mem_cons_self
  have start : BestOf agg [first] first := by
    refine ⟨first, mem_singleton_self first, .same first, _, isFirst.number.1, ?_⟩
    intro other member
    rw [mem_singleton.mp member]
    exact ⟨_, isFirst.number.1, agg.keeps_self _⟩
  obtain ⟨state, isState, input, member, form, best⟩ := BestOf.run agg [first] rest first fast start
  exact ⟨state, isState, input, member, form, form.number.1, form.number.2, best⟩

theorem allFast_mixed : AllFast [.bi128 7 0, .bi64 5 1, .bi128 (2 ^ 127 - 1) 0, .bi64 1 2] := by
  intro input member
  rw [mem_cons, mem_cons, mem_cons, mem_singleton] at member
  rcases member with rfl | rfl | rfl | rfl
  · exact ⟨7, 0, .inr ⟨rfl, by decide, by decide⟩⟩
  · exact ⟨5, 1, .inl ⟨rfl, by decide, by decide⟩⟩
  · exact ⟨2 ^ 127 - 1, 0, .inr ⟨rfl, by decide, by decide⟩⟩
  · exact ⟨1, 2, .inl ⟨rfl, by decide, by decide⟩⟩

/-- A sequence of numbers of both widths. -/
theorem min_max_is_extreme_mixed : ∃ state, vnumericMinMax .smaller (.bi128 7 0)
        [.bi64 5 1, .bi128 (2 ^ 127 - 1) 0, .bi64 1 2] = some state ∧
      ∃ input ∈ [.bi128 7 0, .bi64 5 1, .bi128 (2 ^ 127 - 1) 0, .bi64 1 2], StateOf input state ∧
        state.denotes = input.denotes ∧ state.scale = input.scale ∧
          ∃ best, state.denotes = some best ∧
            ∀ other ∈ [Numeric.bi128 7 0, .bi64 5 1, .bi128 (2 ^ 127 - 1) 0, .bi64 1 2],
              ∃ number, other.denotes = some number ∧ BiAggregate.smaller.Keeps best number :=
  min_max_is_extreme .smaller (.bi128 7 0) [.bi64 5 1, .bi128 (2 ^ 127 - 1) 0, .bi64 1 2] allFast_mixed

/-- The state need not be one of the inputs as it was given: a state of 128 bits keeps its width for a
number of 64 bits, and it becomes an ordinary numeric where a number leaves its width. -/
theorem min_max_changes_form :
    ∃ short wide : Numeric, vnumericMinMax .smaller (.bi128 7 0) [.bi64 5 1] = some short ∧
      short ∉ [.bi128 7 0, .bi64 5 1] ∧
      vnumericMinMax .larger (.bi128 (2 ^ 127 - 1) 0) [.bi64 1 2] = some wide ∧
      wide ∉ [.bi128 (2 ^ 127 - 1) 0, .bi64 1 2] ∧ numericIsBi wide = false := by
  have short : vnumericMinMax .smaller (.bi128 7 0) [.bi64 5 1] = some (.bi128 5 1) := by
    decide
  have wide : vnumericMinMax .larger (.bi128 (2 ^ 127 - 1) 0) [.bi64 1 2] = some (.normal
      ⟨.pos, 9, 0, [170, 1411, 8346, 469, 2317, 3168, 7303, 7158, 8410, 5727]⟩) := by
    decide
  exact ⟨_, _, short, by decide, wide, by decide, rfl⟩

end Results

end OpenGauss.Numerics
