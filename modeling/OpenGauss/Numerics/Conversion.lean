import OpenGauss.Numerics.FastNumeric
import Mathlib.Tactic.NormNum
import Mathlib.Data.List.TakeWhile

/-!
# From fast numerics to the ordinary form

A fast numeric that is turned into the ordinary form stands for the same number, with the same
decimals to display and digits without zeros around them. No index leaves its table or buffer on the
way.
-/
namespace OpenGauss.Numerics

open Option List OpenGauss.Base

theorem scaleMultipler_of_le (index : Nat) (small : index ≤ 18) :
    scaleMultipler index = some (10 ^ index) := by
  rw [scaleMultipler, if_pos (by omega), Int.toNat_natCast]

variable (digits : List Nat) (sign : Sign) (dscale : Nat) (multiplier : Int → Option Int)
  (data : Int) (scale : Nat) (weight : Int)

theorem getScaleMultiplier_of_le (small : scale ≤ 38) :
    getScaleMultiplier scale = some (10 ^ scale) := by
  rw [getScaleMultiplier, if_pos (by omega), Int.toNat_natCast]

theorem scaleBits (small : dscale < 64) :
    dscale * 2 ^ 7 &&& 0x2000 = 0 ∧ dscale * 2 ^ 7 &&& 0x0040 = 0 ∧
      dscale * 2 ^ 7 &&& 0x003F = 0 ∧ dscale * 2 ^ 7 &&& 0x1F80 = dscale * 2 ^ 7 := by
  have all : ∀ scale : Fin 64, (scale : Nat) * 2 ^ 7 &&& 0x2000 = 0 ∧
      (scale : Nat) * 2 ^ 7 &&& 0x0040 = 0 ∧ (scale : Nat) * 2 ^ 7 &&& 0x003F = 0 ∧
      (scale : Nat) * 2 ^ 7 &&& 0x1F80 = (scale : Nat) * 2 ^ 7 := by decide
  exact all ⟨dscale, small⟩

theorem weightBits (low : Nat) (small : low < 64) :
    low &&& 0x2000 = 0 ∧ low &&& 0x0040 = 0 ∧ low &&& 0x003F = low ∧ low &&& 0x1F80 = 0 := by
  have all : ∀ bits : Fin 64, (bits : Nat) &&& 0x2000 = 0 ∧ (bits : Nat) &&& 0x0040 = 0 ∧
      (bits : Nat) &&& 0x003F = bits ∧ (bits : Nat) &&& 0x1F80 = 0 := by decide
  exact all ⟨low, small⟩

theorem shortHeader_read (digits : List Nat)
    (scales : dscale < 64) (least : -64 ≤ weight) (most : weight < 64) :
    (NumericShort.mk (shortHeader sign dscale weight) digits).var =
      ⟨sign, weight, dscale, digits⟩ := by
  obtain ⟨scale1, scale2, scale3, scale4⟩ := scaleBits dscale scales
  obtain ⟨weight1, weight2, weight3, weight4⟩ := weightBits (weight % 2 ^ 6).toNat (by lia)
  simp only [NumericShort.var, shortHeader, Nat.and_or_distrib_right, scale1, scale2, scale3, scale4,
    weight1, weight2, weight3, weight4, NumericVar.mk.injEq, and_true]
  refine ⟨?_, ?_, ?_⟩
  · cases sign <;> by_cases negative : weight < 0 <;> simp [negative]
  · cases sign <;> by_cases negative : weight < 0 <;> simp [negative] <;> lia
  · cases sign <;> by_cases negative : weight < 0 <;> simp [negative]

/-- The loop writes the digits in front of the point. -/
theorem preLoop_spec (room preData : Nat) (after : List Nat) (positive : 0 < preData)
    (fits : preData < 10000 ^ room) :
    ∃ digits, preLoop room preData after = some (digits ++ after) ∧
      digitsValue 10000 digits = preData ∧ (∀ digit ∈ digits, digit < 10000) ∧
      digits.head? ≠ some 0 ∧ digits ≠ [] ∧ digits.length ≤ room := by
  induction room generalizing preData after with
  | zero =>
    rw [Nat.pow_zero] at fits
    omega
  | succ room ih =>
    rw [preLoop]
    by_cases last : preData / 10000 = 0
    · rw [if_pos last]
      have small : preData % 10000 = preData := by lia
      refine ⟨[preData % 10000], rfl, ?_, ?_, ?_, cons_ne_nil _ _, ?_⟩
      · rw [digitsValue_singleton, small]
      · intro digit member
        rw [mem_singleton.mp member]
        exact Nat.mod_lt _ (by decide)
      · rw [head?_cons, small]
        intro zero
        have isZero := some.inj zero
        omega
      · rw [length_singleton]
        omega
    · rw [if_neg last]
      have less : preData / 10000 < 10000 ^ room := by
        rw [Nat.div_lt_iff_lt_mul (by decide), ← Nat.pow_succ]
        exact fits
      obtain ⟨digits, result, value, small, head, some, length⟩ := ih (preData / 10000)
        (preData % 10000 :: after) (Nat.pos_of_ne_zero last) less
      refine ⟨digits ++ [preData % 10000], ?_, ?_, ?_, ?_, ?_, ?_⟩
      · rw [result, append_assoc]
        rfl
      · rw [digitsValue_concat, value]
        lia
      · intro digit member
        rcases mem_append.mp member with front | back
        · exact small digit front
        · rw [mem_singleton.mp back]
          exact Nat.mod_lt _ (by decide)
      · rw [head?_append_of_ne_nil _ some]
        exact head
      · exact append_ne_nil_of_left_ne_nil some _
      · rw [length_append, length_singleton]
        omega

/-- What the digits behind the decimal point are. -/
structure PostDigits (postData scale room : Nat) (digits : List Nat) : Prop where
  value : digitsValue 10000 digits * 10 ^ scale = postData * 10000 ^ digits.length
  small : ∀ digit ∈ digits, digit < 10000
  last : digits.getLast? ≠ some 0
  none : postData = 0 → digits = []
  some : postData ≠ 0 → digits ≠ []
  length : digits.length ≤ room

/-- The digits behind the decimal point. -/
theorem postLoop_spec (bound room postData scale : Nat)
    (table : ∀ index : Nat, index ≤ bound → multiplier index = some (10 ^ index))
    (within : scale ≤ bound + 4) (enough : scale ≤ 4 * room) (fraction : postData < 10 ^ scale) :
    ∃ digits, postLoop multiplier room postData scale = some digits ∧
      PostDigits postData scale room digits := by
  have whole (room scale : Nat) : PostDigits 0 scale room [] :=
    ⟨by rw [Nat.zero_mul]; exact Nat.zero_mul _, fun _ member => absurd member not_mem_nil,
      nofun, fun _ => rfl, fun nonzero => absurd rfl nonzero, Nat.zero_le _⟩
  induction room generalizing postData scale with
  | zero =>
    obtain rfl : scale = 0 := by omega
    obtain rfl : postData = 0 := by omega
    exact ⟨[], rfl, whole 0 0⟩
  | succ room ih =>
    rw [postLoop]
    by_cases zero : postData = 0
    · subst zero
      exact ⟨[], if_pos rfl, whole _ _⟩
    · rw [if_neg zero]
      by_cases more : 4 ≤ scale
      · obtain ⟨less, rfl⟩ : ∃ less, scale = less + 4 := ⟨scale - 4, by omega⟩
        have index : ((less + 4 : Nat) : Int) - 4 = (less : Nat) := by omega
        have power : ((10 : Int) ^ less).toNat = 10 ^ less := by
          rw [show (10 : Int) ^ less = ((10 ^ less : Nat) : Int) by push_cast; rfl, Int.toNat_natCast]
        have positive : 0 < 10 ^ less := Nat.pow_pos (by decide)
        obtain ⟨digits, result, spec⟩ := ih (postData % 10 ^ less) less (by omega) (by lia)
          (Nat.mod_lt _ positive)
        rw [if_pos more, index, table less (by omega), bind_some, power, Nat.add_sub_cancel,
          result, map_some]
        refine ⟨_, rfl, ?_, ?_, ?_, fun isZero => absurd isZero zero,
          fun _ => cons_ne_nil _ _, ?_⟩
        · have parts := Nat.div_add_mod postData (10 ^ less)
          have value := spec.value
          rw [digitsValue_cons, length_cons]
          calc (postData / 10 ^ less * 10000 ^ digits.length + digitsValue 10000 digits) *
                10 ^ (less + 4)
              = (10 ^ less * (postData / 10 ^ less) * 10000 ^ digits.length +
                  digitsValue 10000 digits * 10 ^ less) * 10000 := by ring
            _ = (10 ^ less * (postData / 10 ^ less) + postData % 10 ^ less) *
                  10000 ^ (digits.length + 1) := by rw [value]; ring
            _ = postData * 10000 ^ (digits.length + 1) := by rw [parts]
        · intro digit member
          rcases mem_cons.mp member with first | rest
          · rw [first, Nat.div_lt_iff_lt_mul positive]
            rw [Nat.pow_add] at fraction
            lia
          · exact spec.small digit rest
        · by_cases done : postData % 10 ^ less = 0
          · rw [spec.none done, getLast?_singleton]
            intro isZero
            have quotient := some.inj isZero
            have parts := Nat.div_add_mod postData (10 ^ less)
            rw [quotient, done, Nat.mul_zero] at parts
            exact zero parts.symm
          · rw [getLast?_cons_of_ne_nil (spec.some done)]
            exact spec.last
        · rw [length_cons]
          have length := spec.length
          omega
      · have index : (4 : Int) - (scale : Int) = ((4 - scale : Nat) : Int) := by omega
        have power : ((10 : Int) ^ (4 - scale)).toNat = 10 ^ (4 - scale) := by
          rw [show (10 : Int) ^ (4 - scale) = ((10 ^ (4 - scale) : Nat) : Int) by push_cast; rfl,
            Int.toNat_natCast]
        rw [if_neg more, index, scaleMultipler_of_le _ (by lia), map_some, power]
        have split : 10 ^ (4 - scale) * 10 ^ scale = 10000 := by
          rw [← Nat.pow_add, Nat.sub_add_cancel (by lia)]
        have positive : 0 < 10 ^ (4 - scale) := Nat.pow_pos (by decide)
        refine ⟨_, rfl, ?_, ?_, ?_, fun isZero => absurd isZero zero,
          fun _ => cons_ne_nil _ _, ?_⟩
        · rw [digitsValue_singleton, length_singleton, Nat.mul_assoc, split, Nat.pow_one]
        · intro digit member
          rw [mem_singleton.mp member]
          have scaled := Nat.mul_lt_mul_of_pos_right fraction positive
          rw [Nat.mul_comm (10 ^ scale), split] at scaled
          exact scaled
        · rw [getLast?_singleton]
          intro isZero
          exact absurd (some.inj isZero) (Nat.mul_ne_zero zero (by omega))
        · rw [length_singleton]
          omega

/-- A numeric in the short form that stands for a whole number with decimals. -/
structure Restores (short : NumericShort) (data : Int) (scale : Nat) : Prop where
  canonical : short.var.Canonical
  value : short.var.value = data / 10 ^ scale
  dscale : short.var.dscale = scale

/-- Digits without their zeros at the end. -/
structure Trimmed (digits trimmed : List Nat) (zeros : Nat) : Prop where
  length : digits.length = trimmed.length + zeros
  value : digitsValue 10000 digits = digitsValue 10000 trimmed * 10000 ^ zeros
  small : ∀ digit ∈ trimmed, digit < 10000
  head : trimmed.head? ≠ some 0
  last : trimmed.getLast? ≠ some 0
  nonempty : trimmed ≠ []

/-- Only zeros are trimmed. -/
theorem trimEnd_append : ∃ zeros, digits = trimEnd digits ++ List.replicate zeros 0 := by
  refine ⟨(digits.reverse.takeWhile (· = 0)).length, ?_⟩
  have parts := takeWhile_append_dropWhile (p := fun digit => decide (digit = 0))
    (l := digits.reverse)
  have zeros : digits.reverse.takeWhile (· = 0) =
      List.replicate (digits.reverse.takeWhile (· = 0)).length 0 := by
    rw [eq_replicate_iff]
    refine ⟨rfl, fun digit member => ?_⟩
    simpa using mem_takeWhile_imp member
  have whole := congrArg List.reverse parts
  rw [reverse_append, reverse_reverse] at whole
  rw [trimEnd]
  conv_lhs => rw [← whole]
  congr 1
  conv_lhs => rw [zeros]
  rw [reverse_replicate]

/-- The trimmed digits do not end in a zero. -/
theorem trimEnd_spec (small : ∀ digit ∈ digits, digit < 10000)
    (head : digits.head? ≠ some 0) (nonzero : digitsValue 10000 digits ≠ 0) :
    ∃ zeros, Trimmed digits (trimEnd digits) zeros := by
  obtain ⟨zeros, split⟩ := trimEnd_append digits
  have shifted : digitsValue 10000 digits = digitsValue 10000 (trimEnd digits) * 10000 ^ zeros := by
    rw [← digitsValue_append_zeros, ← split]
  have nonempty : trimEnd digits ≠ [] := by
    intro all
    rw [all, show digitsValue 10000 [] = 0 from rfl, Nat.zero_mul] at shifted
    exact nonzero shifted
  refine ⟨zeros, ⟨?_, shifted, ?_, ?_, ?_, nonempty⟩⟩
  · conv_lhs => rw [split]
    rw [length_append, length_replicate]
  · intro digit member
    apply small
    rw [split]
    exact mem_append_left _ member
  · have same : digits.head? = (trimEnd digits).head? := by
      conv_lhs => rw [split]
      rw [head?_append_of_ne_nil _ nonempty]
    rw [← same]
    exact head
  · rw [trimEnd, getLast?_reverse]
    intro zero
    have some := head?_dropWhile_not (fun digit : Nat => decide (digit = 0)) digits.reverse
    rw [zero] at some
    simp at some

/-- Digits with the value of a decimal restore it. -/
theorem restores_of_digits (digits : List Nat)
    (data : Int) (scales : scale < 64) (least : -64 ≤ weight) (most : weight < 64)
    (small : ∀ digit ∈ digits, digit < 10000) (head : digits.head? ≠ some 0)
    (last : digits.getLast? ≠ some 0) (nonempty : digits ≠ [])
    (value : NumericVar.value ⟨sign, weight, scale, digits⟩ = data / 10 ^ scale) :
    Restores ⟨shortHeader sign scale weight, digits⟩ data scale := by
  have read := shortHeader_read sign scale weight digits scales least most
  have positive : (10 : ℚ) ^ scale ≠ 0 := by positivity
  have canonical : NumericVar.Canonical ⟨sign, weight, scale, digits⟩ :=
    ⟨small, head, last, fun none => absurd none nonempty,
      ⟨data, by rw [value]; exact div_mul_cancel₀ _ positive⟩⟩
  constructor
  · rw [read]
    exact canonical
  · rw [read]
    exact value
  · rw [read]

theorem factor_natAbs :
    (if data < 0 then Sign.neg else .pos).factor * (data.natAbs : Int) = data := by
  by_cases negative : data < 0
  · rw [if_pos negative]
    show -1 * (data.natAbs : Int) = data
    omega
  · rw [if_neg negative]
    show 1 * (data.natAbs : Int) = data
    lia

variable {data}

/-- The digits around the decimal point restore the number. -/
theorem joinDigits_restores {scale room preData postData : Nat}
    {preDigits postDigits : List Nat} (scales : scale < 64) (rooms : room < 64)
    (parts : data.natAbs = preData * 10 ^ scale + postData) (nonzero : data ≠ 0)
    (value : digitsValue 10000 preDigits = preData) (small : ∀ digit ∈ preDigits, digit < 10000)
    (head : preDigits.head? ≠ some 0) (empty : preDigits = [] ↔ preData = 0)
    (length : preDigits.length ≤ room) (post : PostDigits postData scale room postDigits) :
    Restores (joinDigits (if data < 0 then .neg else .pos) scale preDigits postDigits) data scale := by
  have signed := factor_natAbs data
  generalize (if data < 0 then Sign.neg else .pos) = sign at signed ⊢
  have fraction : (digitsValue 10000 postDigits : ℚ) * (10000 : ℚ) ^ (-(postDigits.length : Int)) =
      postData / 10 ^ scale := by
    have cast : (digitsValue 10000 postDigits : ℚ) * 10 ^ scale =
        postData * 10000 ^ postDigits.length := by exact_mod_cast post.value
    rw [zpow_neg, zpow_natCast, ← div_eq_mul_inv, div_eq_div_iff (by positivity) (by positivity)]
    exact cast
  have number : (data : ℚ) / 10 ^ scale = sign.factor * (preData + postData / 10 ^ scale) := by
    have cast : (data : ℚ) = sign.factor * (preData * 10 ^ scale + postData) := by
      rw [parts] at signed
      exact_mod_cast signed.symm
    rw [cast]
    field_simp
  have posts := post.length
  rw [joinDigits]
  by_cases whole : preDigits = []
  · have none : preData = 0 := empty.mp whole
    have digits : postDigits ≠ [] := by
      apply post.some
      intro zero
      rw [none, zero, Nat.zero_mul] at parts
      exact nonzero (Int.natAbs_eq_zero.mp parts)
    obtain ⟨zeros, zerosEq⟩ : ∃ zeros : Nat, zeros = postDigits.length -
        (postDigits.dropWhile (· = 0)).length := ⟨_, rfl⟩
    have shorter : (postDigits.dropWhile (· = 0)).length ≤ postDigits.length :=
      (dropWhile_sublist _).length_le
    have dropped := digitsValue_dropWhile 10000 postDigits
    have nonempty : postDigits.dropWhile (· = 0) ≠ [] := by
      intro all
      rw [all] at dropped
      have zero := post.value
      rw [← dropped] at zero
      have power : 0 < 10000 ^ postDigits.length := Nat.pow_pos (by decide)
      have product : postData * 10000 ^ postDigits.length = 0 := by
        rw [← zero]
        exact Nat.zero_mul _
      have isZero : postData = 0 := by
        rcases Nat.mul_eq_zero.mp product with left | right
        · exact left
        · omega
      exact digits (post.none isZero)
    rw [if_neg (not_not.mpr whole)]
    dsimp only
    rw [← zerosEq]
    apply restores_of_digits
    · exact scales
    · lia
    · lia
    · exact fun digit member => post.small digit ((dropWhile_sublist _).mem member)
    · intro zero
      have first := head?_dropWhile_not (fun digit : Nat => decide (digit = 0)) postDigits
      rw [zero] at first
      simp at first
    · obtain ⟨front, split⟩ := dropWhile_suffix (fun digit : Nat => decide (digit = 0))
        (l := postDigits)
      have same : (postDigits.dropWhile (· = 0)).getLast? = postDigits.getLast? := by
        conv_rhs => rw [← split]
        rw [getLast?_append_of_ne_nil _ nonempty]
      rw [same]
      exact post.last
    · exact nonempty
    · have exponent : -((zeros : Int) + 1) + 1 - ((postDigits.dropWhile (· = 0)).length : Int) =
          -(postDigits.length : Int) := by grind
      rw [NumericVar.value, number, none]
      dsimp only
      rw [exponent, dropped, mul_assoc, fraction]
      push_cast
      ring
  · rw [if_pos whole]
    dsimp only
    by_cases integral : postDigits = []
    · rw [if_neg (not_not.mpr integral)]
      have nonzero : digitsValue 10000 preDigits ≠ 0 := by
        rw [value]
        exact fun isZero => whole (empty.mpr isZero)
      obtain ⟨zeros, trimmed⟩ := trimEnd_spec preDigits small head nonzero
      have lengths := trimmed.length
      have shifted := value.symm.trans trimmed.value
      apply restores_of_digits
      · exact scales
      · lia
      · lia
      · exact trimmed.small
      · exact trimmed.head
      · exact trimmed.last
      · exact trimmed.nonempty
      · have exponent : (preDigits.length : Int) - 1 + 1 - ((trimEnd preDigits).length : Int) =
            zeros := by lia
        have zero : postData = 0 := by
          by_contra isSome
          exact post.some isSome integral
        rw [NumericVar.value, number, zero, shifted]
        dsimp only
        rw [exponent, zpow_natCast]
        push_cast
        ring
    · rw [if_pos integral]
      apply restores_of_digits
      · exact scales
      · omega
      · lia
      · intro digit member
        rcases mem_append.mp member with front | back
        · exact small digit front
        · exact post.small digit back
      · rw [head?_append_of_ne_nil _ whole]
        exact head
      · rw [getLast?_append_of_ne_nil _ integral]
        exact post.last
      · exact append_ne_nil_of_left_ne_nil whole _
      · have exponent : (preDigits.length : Int) - 1 + 1 - ((preDigits ++ postDigits).length : Int) =
            -(postDigits.length : Int) := by
          rw [length_append]
          lia
        rw [NumericVar.value, number]
        dsimp only
        rw [exponent, digitsValue_append, value, ← fraction]
        push_cast
        rw [zpow_neg, zpow_natCast]
        field_simp

variable {multiplier}

/-- An integer with decimals comes into the short form as what it is, if the table and the buffers are
large enough. -/
theorem convertIntToNumeric_restores {bound room : Nat} {data : Int}
    {scale : Nat} (table : ∀ index : Nat, index ≤ bound → multiplier index = some (10 ^ index))
    (within : scale ≤ bound + 4) (enough : scale ≤ 4 * room) (scales : scale ≤ 38)
    (rooms : room < 64) (fits : data.natAbs < 10000 ^ room) :
    ∃ short, convertIntToNumeric multiplier room data scale = some short ∧
      Restores short data scale := by
  rw [convertIntToNumeric]
  by_cases zero : data.natAbs = 0
  · have isZero : data = 0 := Int.natAbs_eq_zero.mp zero
    refine ⟨_, if_pos zero, ?_⟩
    have header : (0x8000 ||| scale * 2 ^ 7) = shortHeader .pos scale 0 := by
      have low : ((0 : Int) % 2 ^ 6).toNat = 0 := rfl
      rw [shortHeader, if_neg (by decide), if_neg (by decide), low, Nat.or_zero, Nat.or_zero]
    have read := shortHeader_read .pos scale 0 [] (by omega) (by decide) (by decide)
    have value : NumericVar.value ⟨.pos, 0, scale, []⟩ = 0 := by
      rw [NumericVar.value, show digitsValue 10000 [] = 0 from rfl]
      push_cast
      ring
    rw [header, isZero]
    constructor
    · rw [read]
      exact ⟨fun _ member => absurd member not_mem_nil, nofun, nofun, fun _ => ⟨rfl, rfl⟩,
        0, by rw [value]; push_cast; ring⟩
    · rw [read, value]
      push_cast
      ring
    · rw [read]
  · have power : ((10 : Int) ^ scale).toNat = 10 ^ scale := by
      rw [show (10 : Int) ^ scale = ((10 ^ scale : Nat) : Int) by push_cast; rfl, Int.toNat_natCast]
    have positive : 0 < 10 ^ scale := Nat.pow_pos (by decide)
    have parts := Nat.div_add_mod data.natAbs (10 ^ scale)
    rw [Nat.mul_comm] at parts
    obtain ⟨postDigits, posts, post⟩ := postLoop_spec multiplier bound room
      (data.natAbs % 10 ^ scale) scale table within enough (Nat.mod_lt _ positive)
    dsimp only
    rw [if_neg zero, getScaleMultiplier_of_le scale scales, bind_some, power, posts]
    by_cases pre : data.natAbs / 10 ^ scale = 0
    · rw [if_pos pre, bind_some, map_some]
      refine ⟨_, rfl, ?_⟩
      exact joinDigits_restores (by omega) rooms parts.symm
        (fun none => zero (by rw [none]; rfl)) (by rw [pre]; rfl)
        (fun _ member => absurd member not_mem_nil) nofun (by simp only [pre])
        (Nat.zero_le _) post
    · have less : data.natAbs / 10 ^ scale < 10000 ^ room :=
        Nat.lt_of_le_of_lt (Nat.div_le_self _ _) fits
      obtain ⟨preDigits, pres, value, small, head, nonempty, length⟩ := preLoop_spec room
        (data.natAbs / 10 ^ scale) [] (Nat.pos_of_ne_zero pre) less
      rw [append_nil] at pres
      rw [if_neg pre, pres, bind_some, map_some]
      refine ⟨_, rfl, ?_⟩
      exact joinDigits_restores (by omega) rooms parts.symm
        (fun none => zero (by rw [none]; rfl)) value small head
        ⟨fun none => absurd none nonempty, fun none => absurd none pre⟩ length post

variable {scale}

theorem convertInt64ToNumeric_restores (fits : InInt64 data) (scales : scale ≤ 19) :
    ∃ short, convertInt64ToNumeric data scale = some short ∧ Restores short data scale := by
  obtain ⟨least, most⟩ := fits
  exact convertIntToNumeric_restores scaleMultipler_of_le
    (by omega) (by omega) (by omega) (by decide) (by omega)

theorem convertInt128ToNumeric_restores (fits : InInt128 data) (scales : scale ≤ 38) :
    ∃ short, convertInt128ToNumeric data scale = some short ∧ Restores short data scale := by
  obtain ⟨least, most⟩ := fits
  exact convertIntToNumeric_restores getScaleMultiplier_of_le
    (by omega) (by omega) scales (by decide) (by omega)

end OpenGauss.Numerics
