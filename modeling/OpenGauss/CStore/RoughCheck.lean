import Mathlib.Data.List.DropRight
import OpenGauss.CStore.MinMax
/-!
# Rough check of a compression unit

Before a compression unit is read, its minimum and maximum are tested against a scan key, and a
unit that cannot hold a matching row is skipped. The test compares in its own way: characters as
signed bytes and strings as raw bytes over a common length. The rows are compared by the operators
of their type: characters as unsigned bytes, blank-padded strings without their trailing blanks.
The main result says for every type and operator exactly which batches and arguments let the
difference skip a unit with a matching row.
-/
namespace OpenGauss.CStore

open List OpenGauss.Base

/-- The comparison of a scan key. -/
inductive Strategy where
  | less
  | lessEqual
  | equal
  | greaterEqual
  | greater
deriving DecidableEq

/-- The comparison of two integers. -/
def Strategy.Holds (strategy : Strategy) (left right : Int) : Prop :=
  match strategy with
  | .less => left < right
  | .lessEqual => left ≤ right
  | .equal => left = right
  | .greaterEqual => left ≥ right
  | .greater => left > right

/-- The comparison, given how the two sides are ordered. -/
def Strategy.Accepts (strategy : Strategy) (order : Ordering) : Prop :=
  match strategy with
  | .less => order = .lt
  | .lessEqual => order ≠ .gt
  | .equal => order = .eq
  | .greaterEqual => order ≠ .lt
  | .greater => order = .gt

/-- The column types with a rough check of their own; for any other type no unit is skipped. -/
inductive ColumnType where
  | char
  | int2
  | int4
  | int8
  | oid
  | date
  | time
  | timestamp
  | timestamptz
  | bpchar
  | varchar
  | text

/-- The collation of a string column: the C collation, or any other with its order. -/
inductive Collation where
  | c
  | other (order : List UInt8 → List UInt8 → Ordering)

/-- The values of a column. -/
@[reducible]
def ColumnType.Value : ColumnType → Type
  | .char => Int8
  | .int2 => Int16
  | .int4 | .date => Int32
  | .int8 | .time | .timestamp | .timestamptz => Int64
  | .oid => UInt32
  | .bpchar | .varchar | .text => VarStr

/-- The argument of a scan key, as the rough check receives it: integers and object identifiers are
passed as 64-bit values. -/
@[reducible]
def ColumnType.Arg : ColumnType → Type
  | .char => Int8
  | .int2 | .int4 | .int8 | .oid | .time | .timestamp | .timestamptz => Int64
  | .date => Int32
  | .bpchar | .varchar | .text => VarStr

/-- The minimum and maximum of a unit of the column. -/
@[reducible]
def ColumnType.Desc : ColumnType → Type
  | .bpchar | .varchar | .text => CuStrings
  | type => CuFixed type.Value

/-- The descriptor of a batch, gathered by the compare function of the type. -/
def cuDesc : (type : ColumnType) → List type.Value → type.Desc
  | .char, batch => fixedBatch compareChar batch
  | .int2, batch => fixedBatch compareInt16 batch
  | .int4, batch => fixedBatch compareInt32 batch
  | .int8, batch => fixedBatch compareInt64 batch
  | .oid, batch => fixedBatch compareUint32 batch
  | .date, batch => fixedBatch compareDate batch
  | .time, batch => fixedBatch compareTime batch
  | .timestamp, batch => fixedBatch compareTimestamp batch
  | .timestamptz, batch => fixedBatch compareTimestamptz batch
  | .bpchar, batch => varStrBatch batch
  | .varchar, batch => varStrBatch batch
  | .text, batch => varStrBatch batch

section Check

variable {τ : Type} [LT τ] [LE τ] [DecidableLT τ] [DecidableLE τ]

/-- `RoughCheckIntCU`: whether a unit between the two bounds can hold a match. -/
def roughCheckIntCU (strategy : Strategy) (min max arg : τ) : Bool :=
  match strategy with
  | .less => !decide (min ≥ arg)
  | .lessEqual => !decide (min > arg)
  | .equal => !(decide (arg < min) || decide (arg > max))
  | .greaterEqual => !decide (max < arg)
  | .greater => !decide (max ≤ arg)

end Check

/-- `RoughCheckCharCU`. -/
def roughCheckCharCU (strategy : Strategy) (cudesc : CuFixed Int8) (arg : Int8) : Bool :=
  roughCheckIntCU strategy cudesc.cuMin cudesc.cuMax arg

/-- `RoughCheckInt16CU`: the comparison is one of 64-bit integers. -/
def roughCheckInt16CU (strategy : Strategy) (cudesc : CuFixed Int16) (arg : Int64) : Bool :=
  roughCheckIntCU strategy cudesc.cuMin.toInt64 cudesc.cuMax.toInt64 arg

/-- `RoughCheckInt32CU`: the comparison is one of 64-bit integers. -/
def roughCheckInt32CU (strategy : Strategy) (cudesc : CuFixed Int32) (arg : Int64) : Bool :=
  roughCheckIntCU strategy cudesc.cuMin.toInt64 cudesc.cuMax.toInt64 arg

/-- `RoughCheckInt64CU`. -/
def roughCheckInt64CU (strategy : Strategy) (cudesc : CuFixed Int64) (arg : Int64) : Bool :=
  roughCheckIntCU strategy cudesc.cuMin cudesc.cuMax arg

/-- `RoughCheckUInt32CU`: the bounds are widened to 64 bits and compared as signed integers. -/
def roughCheckUInt32CU (strategy : Strategy) (cudesc : CuFixed UInt32) (arg : Int64) : Bool :=
  roughCheckIntCU strategy cudesc.cuMin.toUInt64.toInt64 cudesc.cuMax.toUInt64.toInt64 arg

/-- `RoughCheckDateCU`. -/
def roughCheckDateCU (strategy : Strategy) (cudesc : CuFixed Int32) (arg : Int32) : Bool :=
  roughCheckIntCU strategy cudesc.cuMin cudesc.cuMax arg

/-- `RoughCheckTimeCU`. -/
def roughCheckTimeCU (strategy : Strategy) (cudesc : CuFixed Int64) (arg : Int64) : Bool :=
  roughCheckIntCU strategy cudesc.cuMin cudesc.cuMax arg

/-- `RoughCheckTimestampCU`. -/
def roughCheckTimestampCU (strategy : Strategy) (cudesc : CuFixed Int64) (arg : Int64) : Bool :=
  roughCheckIntCU strategy cudesc.cuMin cudesc.cuMax arg

/-- `RoughCheckTimestampTzCU`. -/
def roughCheckTimestampTzCU (strategy : Strategy) (cudesc : CuFixed Int64) (arg : Int64) : Bool :=
  roughCheckIntCU strategy cudesc.cuMin cudesc.cuMax arg

/-- `RoughCheckStringCU`: the bounds and the argument are compared over their common length only. -/
def roughCheckStringCU (strategy : Strategy) (cudesc : CuStrings) (arg : VarStr) : Bool :=
  let argLen := arg.dat.length
  let minLen := cudesc.cuMin.len
  let maxLen := cudesc.cuMax.len
  let cmpMinLen := if minLen > argLen then argLen else minLen
  let cmpMaxLen := if maxLen > argLen then argLen else maxLen
  let minOrder := memcmp cudesc.cuMin.value arg.dat cmpMinLen
  let maxOrder := memcmp cudesc.cuMax.value arg.dat cmpMaxLen
  match strategy with
  | .less | .lessEqual => !decide (minOrder = .gt)
  | .equal => !(decide (minOrder = .gt) || decide (maxOrder = .lt))
  | .greaterEqual | .greater => !decide (maxOrder = .lt)

/-- `RoughCheckAllThrough`: the unit is read. -/
def roughCheckAllThrough (_cudesc : CuStrings) (_arg : VarStr) : Bool := true

/-- The rough check of the string types: only equality is tested outside the C collation. -/
def roughCheckStringFunc (strategy : Strategy) (collation : Collation) :
    CuStrings → VarStr → Bool :=
  match collation, strategy with
  | .c, strategy => roughCheckStringCU strategy
  | .other _, .equal => roughCheckStringCU .equal
  | .other _, _ => roughCheckAllThrough

/-- `GetRoughCheckFunc`: the rough check of a type, a strategy and a collation. -/
def getRoughCheckFunc : (type : ColumnType) → Strategy → Collation → type.Desc → type.Arg → Bool
  | .char, strategy, _ => roughCheckCharCU strategy
  | .int2, strategy, _ => roughCheckInt16CU strategy
  | .int4, strategy, _ => roughCheckInt32CU strategy
  | .int8, strategy, _ => roughCheckInt64CU strategy
  | .oid, strategy, _ => roughCheckUInt32CU strategy
  | .date, strategy, _ => roughCheckDateCU strategy
  | .time, strategy, _ => roughCheckTimeCU strategy
  | .timestamp, strategy, _ => roughCheckTimestampCU strategy
  | .timestamptz, strategy, _ => roughCheckTimestampTzCU strategy
  | .bpchar, strategy, collation => roughCheckStringFunc strategy collation
  | .varchar, strategy, collation => roughCheckStringFunc strategy collation
  | .text, strategy, collation => roughCheckStringFunc strategy collation

/-- `bcTruelen`: the length of a blank-padded string without its trailing blanks. -/
def bcTruelen (s : List UInt8) : Nat := (s.rdropWhile (· == 0x20)).length

/-- `varstr_cmp`: the common length decides, then the lengths; other collations have their order. -/
def varstrCmp (collation : Collation) (left right : List UInt8) : Ordering :=
  match collation with
  | .c =>
    let result := memcmp left right (min left.length right.length)
    if result = .eq ∧ left.length ≠ right.length then
      if left.length < right.length then .lt else .gt
    else result
  | .other order => order left right

/-- `bpcharcase`: blank-padded strings are compared without their trailing blanks. -/
def bpcharcase (collation : Collation) (left right : List UInt8) : Ordering :=
  varstrCmp collation (left.take (bcTruelen left)) (right.take (bcTruelen right))

/-- A string comparison under a given order. Equality is that of the raw bytes for every string type,
also for blank-padded ones, whose `bpchareq` ignores trailing blanks besides. -/
def stringMatches (order : List UInt8 → List UInt8 → Ordering) (strategy : Strategy)
    (value arg : VarStr) : Prop :=
  match strategy with
  | .equal => value.dat = arg.dat
  | strategy => strategy.Accepts (order value.dat arg.dat)

/-- The operator of the type that a row has to pass. Characters are compared as unsigned bytes, as
`charlt` and its siblings do. -/
def Matches : (type : ColumnType) → Strategy → Collation → type.Value → type.Arg → Prop
  | .char, strategy, _, value, arg => strategy.Holds value.toUInt8.toNat arg.toUInt8.toNat
  | .int2, strategy, _, value, arg => strategy.Holds value.toInt arg.toInt
  | .int4, strategy, _, value, arg => strategy.Holds value.toInt arg.toInt
  | .int8, strategy, _, value, arg => strategy.Holds value.toInt arg.toInt
  | .oid, strategy, _, value, arg => strategy.Holds value.toNat arg.toInt
  | .date, strategy, _, value, arg => strategy.Holds value.toInt arg.toInt
  | .time, strategy, _, value, arg => strategy.Holds value.toInt arg.toInt
  | .timestamp, strategy, _, value, arg => strategy.Holds value.toInt arg.toInt
  | .timestamptz, strategy, _, value, arg => strategy.Holds value.toInt arg.toInt
  | .bpchar, strategy, collation, value, arg =>
    stringMatches (bpcharcase collation) strategy value arg
  | .varchar, strategy, collation, value, arg =>
    stringMatches (varstrCmp collation) strategy value arg
  | .text, strategy, collation, value, arg =>
    stringMatches (varstrCmp collation) strategy value arg

section Integers

theorem roughCheckIntCU_key {τ : Type} [LT τ] [LE τ] [DecidableLT τ] [DecidableLE τ]
    (key : τ → Int) (less : ∀ a b : τ, a < b ↔ key a < key b)
    (atMost : ∀ a b : τ, a ≤ b ↔ key a ≤ key b) (strategy : Strategy) (min max arg : τ) :
    roughCheckIntCU strategy min max arg =
      roughCheckIntCU strategy (key min) (key max) (key arg) := by
  cases strategy <;> simp only [roughCheckIntCU, less, atMost]

theorem roughCheckIntCU_of_holds {strategy : Strategy} {low high value arg : Int}
    (above : low ≤ value) (below : value ≤ high) (holds : strategy.Holds value arg) :
    roughCheckIntCU strategy low high arg = true := by
  cases strategy <;> simp only [Strategy.Holds] at holds <;>
    simp only [roughCheckIntCU, Bool.not_eq_true', decide_eq_false_iff_not, Bool.or_eq_false_iff]
      <;> omega

/-- What passes is met by a bound, or is an equality. -/
theorem roughCheckIntCU_bound {strategy : Strategy} {low high arg : Int}
    (through : roughCheckIntCU strategy low high arg = true) :
    strategy = .equal ∨ strategy.Holds low arg ∨ strategy.Holds high arg := by
  cases strategy with
  | equal => exact .inl rfl
  | less | lessEqual =>
    simp only [roughCheckIntCU, Bool.not_eq_true', decide_eq_false_iff_not] at through
    exact .inr (.inl (by simp only [Strategy.Holds]; omega))
  | greaterEqual | greater =>
    simp only [roughCheckIntCU, Bool.not_eq_true', decide_eq_false_iff_not] at through
    exact .inr (.inr (by simp only [Strategy.Holds]; omega))

/-- A match in the batch lets the unit through, when the check compares the same integers as the
operator. -/
theorem fixedBatch_through {α : Type} [LT α] [DecidableLT α] [OfNat α 0] {key : α → Int}
    (ordered : ∀ a b : α, a < b ↔ key a < key b) {strategy : Strategy} {batch : List α} {arg : Int}
    (some : ∃ v ∈ batch, strategy.Holds (key v) arg) :
    roughCheckIntCU strategy (key (fixedBatch compareFixed batch).cuMin)
      (key (fixedBatch compareFixed batch).cuMax) arg = true := by
  obtain ⟨v, member, holds⟩ := some
  obtain ⟨range, encloses, desc⟩ :=
    fixedBatch_encloses key ordered (ne_nil_of_mem member)
  have above : key range.low ≤ key v := Int.isLE_compare.mp (encloses.low_le v member)
  have below : key v ≤ key range.high := Int.isLE_compare.mp (encloses.le_high v member)
  rw [desc]
  exact roughCheckIntCU_of_holds above below holds

end Integers

section Characters

theorem char_unsigned (c : Int8) :
    (0 ≤ c.toInt ∧ c.toInt ≤ 127 ∧ (c.toUInt8.toNat : Int) = c.toInt) ∨
      (c.toInt < 0 ∧ -128 ≤ c.toInt ∧ (c.toUInt8.toNat : Int) = c.toInt + 256) := by
  have cond := BitVec.toInt_eq_toNat_cond c.toBitVec
  have bound := c.toBitVec.isLt
  have signed : c.toInt = c.toBitVec.toInt := rfl
  have unsigned : c.toUInt8.toNat = c.toBitVec.toNat := rfl
  rw [signed, cond]
  split <;> lia

variable (strategy : Strategy)

theorem holds_of_same_sign {v arg : Int8} (same : v.toInt < 0 ↔ arg.toInt < 0) :
    strategy.Holds v.toInt arg.toInt ↔ strategy.Holds v.toUInt8.toNat arg.toUInt8.toNat := by
  rcases char_unsigned v with value | value <;> rcases char_unsigned arg with bound | bound <;>
    cases strategy <;> simp only [Strategy.Holds] <;> lia

/-- Where a character of the other sign passes an inequality as a signed byte, only ones of the same
sign pass as unsigned bytes. -/
theorem same_sign_of_signed_match {other v arg : Int8}
    (inequality : strategy ≠ .equal) (differs : ¬ (other.toInt < 0 ↔ arg.toInt < 0))
    (signed : strategy.Holds other.toInt arg.toInt)
    (unsigned : strategy.Holds v.toUInt8.toNat arg.toUInt8.toNat) :
    v.toInt < 0 ↔ arg.toInt < 0 := by
  rcases char_unsigned v with value | value <;> rcases char_unsigned arg with bound | bound <;>
    cases strategy <;> simp only [Strategy.Holds] at signed unsigned <;> first
      | exact absurd rfl inequality
      | lia

/-- No character is missed exactly if one of the argument's sign matches. -/
theorem charBatch_through_iff (batch : List Int8) (arg : Int8) :
    ((∃ v ∈ batch, strategy.Holds v.toUInt8.toNat arg.toUInt8.toNat) →
      roughCheckCharCU strategy (fixedBatch compareChar batch) arg = true) ↔
    ((∃ v ∈ batch, strategy.Holds v.toUInt8.toNat arg.toUInt8.toNat) →
      ∃ v ∈ batch, (v.toInt < 0 ↔ arg.toInt < 0) ∧
        strategy.Holds v.toUInt8.toNat arg.toUInt8.toNat) := by
  have signedCheck : roughCheckCharCU strategy (fixedBatch compareChar batch) arg =
      roughCheckIntCU strategy (fixedBatch compareFixed batch).cuMin.toInt
        (fixedBatch compareFixed batch).cuMax.toInt arg.toInt :=
    roughCheckIntCU_key Int8.toInt (fun a b => Int8.lt_iff_toInt_lt)
      (fun a b => Int8.le_iff_toInt_le) strategy _ _ _
  rw [signedCheck]
  constructor
  · intro sound some
    have through := sound some
    obtain ⟨w, member, unsigned⟩ := some
    obtain ⟨range, encloses, desc⟩ :=
      fixedBatch_encloses Int8.toInt (fun a b => Int8.lt_iff_toInt_lt) (ne_nil_of_mem member)
    rw [desc] at through
    by_cases equality : strategy = .equal
    · refine ⟨w, member, ?_, unsigned⟩
      rw [equality] at unsigned
      simp only [Strategy.Holds] at unsigned
      rcases char_unsigned w with value | value <;> rcases char_unsigned arg with bound | bound <;>
        omega
    · have bound : ∃ x ∈ batch, strategy.Holds x.toInt arg.toInt := by
        rcases roughCheckIntCU_bound through with equal | low | high
        · exact absurd equal equality
        · exact ⟨range.low, encloses.low_mem, low⟩
        · exact ⟨range.high, encloses.high_mem, high⟩
      obtain ⟨x, inside, signed⟩ := bound
      by_cases same : x.toInt < 0 ↔ arg.toInt < 0
      · exact ⟨x, inside, same, (holds_of_same_sign strategy same).mp signed⟩
      · have sign := same_sign_of_signed_match strategy equality same signed unsigned
        exact ⟨w, member, sign, unsigned⟩
  · intro kept some
    obtain ⟨v, member, same, unsigned⟩ := kept some
    apply fixedBatch_through (fun a b => Int8.lt_iff_toInt_lt)
    exact ⟨v, member, (holds_of_same_sign strategy same).mpr unsigned⟩

end Characters

section Strings

/-- A string without its trailing blanks. -/
def stripped (s : List UInt8) : List UInt8 := s.take (bcTruelen s)

variable (s : List UInt8) (v : VarStr) (arg : List UInt8) (front : List UInt8) (c : UInt8)
  (rest : List UInt8)

theorem stripped_eq : stripped s = s.rdropWhile (· == 0x20) := by
  have within := rdropWhile_prefix (· == (0x20 : UInt8)) s
  exact (prefix_iff_eq_take.mp within).symm

theorem stripped_isPrefix : stripped s <+: s := take_prefix _ _

theorem stripped_append_blanks (front blanks : List UInt8) (allBlank : ∀ b ∈ blanks, b = 0x20) :
    stripped (front ++ blanks) = stripped front := by
  induction blanks using List.reverseRecOn with
  | nil => rw [append_nil]
  | append_singleton blanks last ih =>
    have lastBlank : last = 0x20 := allBlank last (by simp)
    rw [← append_assoc, stripped_eq, rdropWhile_concat_pos _ _ _ (by simp [lastBlank]),
      ← stripped_eq]
    exact ih fun b member => allBlank b (mem_append_left _ member)

theorem blank_or_solid : (∀ b ∈ s, b = 0x20) ∨ ∃ b ∈ s, b ≠ 0x20 := by
  by_cases solid : ∃ b ∈ s, b ≠ 0x20
  · exact .inr solid
  · left
    intro b member
    by_contra notBlank
    exact solid ⟨b, member, notBlank⟩

/-- A text is not stripped in front of what is not blank. -/
theorem stripped_append_cons (solid : ∃ b ∈ c :: rest, b ≠ 0x20) :
    ∃ kept, stripped (front ++ c :: rest) = front ++ c :: kept := by
  induction rest using List.reverseRecOn with
  | nil =>
    obtain ⟨b, member, notBlank⟩ := solid
    rw [mem_singleton.mp member] at notBlank
    rw [stripped_eq, rdropWhile_concat_neg _ _ _ (by simp [notBlank])]
    exact ⟨[], rfl⟩
  | append_singleton rest last ih =>
    have whole : front ++ c :: (rest ++ [last]) = (front ++ c :: rest) ++ [last] := by simp
    by_cases blank : last = 0x20
    · have dropped := stripped_append_blanks (front ++ c :: rest) [last] (by simpa using blank)
      rw [whole, dropped]
      apply ih
      obtain ⟨b, member, notBlank⟩ := solid
      rw [← cons_append, mem_append, mem_singleton] at member
      rcases member with inside | rfl
      · exact ⟨b, inside, notBlank⟩
      · exact absurd blank notBlank
    · refine ⟨rest ++ [last], ?_⟩
      rw [whole, stripped_eq, rdropWhile_concat_neg _ _ _ (by simp [blank])]

/-- A blank-padded string that stays longer than a common front comes after one that is blank from
there on. -/
theorem stripped_lt_of_blank (kept : List UInt8) :
    compare (stripped front) (front ++ c :: kept) = .lt := by
  have within := compare_isLE_of_isPrefix (stripped_isPrefix front)
  exact Std.TransCmp.lt_of_isLE_of_lt within (compare_append_cons front c kept)

theorem varstrCmp_c (left right : List UInt8) : varstrCmp .c left right = compare left right := by
  have common : memcmp left right (min left.length right.length) = firstDifference left right :=
    firstDifference_take_take _ _ _ (Nat.le_refl _)
  simp only [varstrCmp, common]
  rw [← firstDifference_then_length]
  cases firstDifference left right with
  | lt | gt => rfl
  | eq =>
    simp only [Nat.compare_eq_ite_lt, true_and]
    split_ifs <;> first
      | rfl
      | omega

theorem blank_gt_iff {c : UInt8} : compare (0x20 : UInt8) c = .gt ↔ c < 0x20 :=
  Std.OrientedCmp.gt_iff_lt.trans compareOfLessAndEq_eq_lt

/-- A blank-padded string is blank from some place in the first 31 bytes on, and another string
agrees with it up to there and goes on with a byte below the blank. Without its blanks the padded
string is a front of the other and comes first; byte by byte it comes last. -/
def Masked (padded other : List UInt8) : Prop :=
  ∃ front blanks c rest, padded = front ++ 0x20 :: blanks ∧ (∀ b ∈ blanks, b = 0x20) ∧
    other = front ++ c :: rest ∧ c < 0x20 ∧ front.length < minMaxLen - 1

theorem Masked.stripped_lt (padded other : List UInt8) (masked : Masked padded other) :
    compare (stripped padded) (stripped other) = .lt := by
  obtain ⟨front, blanks, c, rest, rfl, allBlank, rfl, below, _⟩ := masked
  have notBlank : c ≠ 0x20 := by
    rintro rfl
    exact absurd below (by decide)
  have ofPadded : stripped (front ++ 0x20 :: blanks) = stripped front :=
    stripped_append_blanks front _ (by simpa using allBlank)
  obtain ⟨kept, ofOther⟩ := stripped_append_cons front c rest ⟨c, mem_cons_self, notBlank⟩
  rw [ofPadded, ofOther]
  exact stripped_lt_of_blank front c kept

/-- What is above only unstripped is masked. -/
theorem masked_of_above {x y : UInt8} {values others : List UInt8}
    (short : front.length < minMaxLen - 1) (greater : compare x y = .gt)
    (ordered : compare (stripped (front ++ x :: values)) (stripped (front ++ y :: others)) ≠ .gt) :
    Masked (front ++ x :: values) (front ++ y :: others) := by
  rcases blank_or_solid (x :: values) with blank | solid
  · have isBlank : x = 0x20 := blank x mem_cons_self
    have below : y < 0x20 := by
      rw [isBlank] at greater
      exact blank_gt_iff.mp greater
    refine ⟨front, values, y, others, by rw [isBlank], ?_, rfl, below, short⟩
    exact fun b member => blank b (mem_cons_of_mem _ member)
  · exfalso
    apply ordered
    obtain ⟨kept, ofValue⟩ := stripped_append_cons front x values solid
    rw [ofValue]
    rcases blank_or_solid (y :: others) with otherBlank | otherSolid
    · rw [stripped_append_blanks front _ otherBlank]
      exact Std.OrientedCmp.gt_of_lt (stripped_lt_of_blank front x kept)
    · obtain ⟨kept', ofOther⟩ := stripped_append_cons front y others otherSolid
      rw [ofOther]
      apply compare_of_firstDifference_gt
      exact (firstDifference_gt_iff _ _).mpr ⟨front, x, y, kept, kept', rfl, rfl, greater⟩

theorem VarStr.cut_isPrefix : v.cut <+: v.dat := take_prefix _ _

theorem VarStr.front_lt (located : v.cut = front ++ c :: rest) : front.length < minMaxLen - 1 := by
  have length := VarStr.cut_length v
  rw [located, length_append, length_cons] at length
  lia

theorem masked_of_cut_above (differ : firstDifference v.cut arg = .gt)
    (ordered : compare (stripped v.dat) (stripped arg) ≠ .gt) : Masked v.dat arg := by
  obtain ⟨front, x, y, values, others, ofCut, rfl, greater⟩ :=
    (firstDifference_gt_iff _ _).mp differ
  obtain ⟨rest, ofValue⟩ := VarStr.cut_isPrefix v
  rw [ofCut, append_assoc] at ofValue
  rw [← ofValue] at ordered ⊢
  exact masked_of_above front (v.front_lt front x values ofCut) greater ordered

/-- Where the greatest string of a batch differs downwards from the argument but some value does
not, the argument is masked by it. -/
theorem masked_of_cut_below {v greatest : VarStr} {arg : List UInt8}
    (under : (compare v.cut greatest.cut).isLE) (differ : firstDifference greatest.cut arg = .lt)
    (ordered : compare (stripped v.dat) (stripped arg) ≠ .lt) : Masked arg greatest.dat := by
  have turned : firstDifference arg greatest.cut = .gt := by
    rw [firstDifference_swap, differ]
    rfl
  obtain ⟨front, x, y, others, values, rfl, ofCut, greater⟩ :=
    (firstDifference_gt_iff _ _).mp turned
  obtain ⟨rest, ofValue⟩ := VarStr.cut_isPrefix greatest
  have short := greatest.front_lt front y values ofCut
  rcases blank_or_solid (x :: others) with blank | solid
  · have isBlank : x = 0x20 := blank x mem_cons_self
    have below : y < 0x20 := by
      rw [isBlank] at greater
      exact blank_gt_iff.mp greater
    rw [ofCut, append_assoc] at ofValue
    refine ⟨front, others, y, values ++ rest, by rw [isBlank], ?_, ofValue.symm, below, short⟩
    exact fun b member => blank b (mem_cons_of_mem _ member)
  · exfalso
    apply ordered
    obtain ⟨kept, ofArg⟩ := stripped_append_cons front x others solid
    have cutLength : greatest.cut.length ≤ minMaxLen - 1 := by
      rw [VarStr.cut_length]
      exact Nat.min_le_right _ _
    have cutUnder : (compare ((stripped v.dat).take (minMaxLen - 1)) greatest.cut).isLE := by
      have within : (stripped v.dat).take (minMaxLen - 1) <+: v.cut := by
        obtain ⟨blanks, whole⟩ := stripped_isPrefix v.dat
        refine ⟨blanks.take (minMaxLen - 1 - (stripped v.dat).length), ?_⟩
        rw [← take_append, whole]
        rfl
      exact Std.TransCmp.isLE_trans (compare_isLE_of_isPrefix within) under
    apply compare_lt_of_firstDifference_lt (minMaxLen - 1) _ greatest.cut _ cutLength cutUnder
    rw [firstDifference_swap, ofArg, ofCut]
    rw [(firstDifference_gt_iff _ _).mpr ⟨front, x, y, kept, values, rfl, rfl, greater⟩]
    rfl

theorem Masked.cut_below (masked : Masked arg v.dat) : firstDifference v.cut arg = .lt := by
  obtain ⟨front, blanks, c, rest, rfl, _, ofValue, below, short⟩ := masked
  obtain ⟨room, ofRoom⟩ : ∃ room, minMaxLen - 1 - front.length = room + 1 :=
    Nat.exists_eq_succ_of_ne_zero (by omega)
  have ofCut : v.cut = front ++ c :: rest.take room := by
    rw [VarStr.cut, ofValue, take_append, take_of_length_le (Nat.le_of_lt short),
      ofRoom, take_succ_cons]
  have greater : compare (0x20 : UInt8) c = .gt := blank_gt_iff.mpr below
  rw [firstDifference_swap, ofCut]
  rw [(firstDifference_gt_iff _ _).mpr ⟨front, 0x20, c, blanks, rest.take room, rfl, rfl, greater⟩]
  rfl

theorem CuString.Holds.memcmp_arg {cu : CuString} (held arg : List UInt8) (holds : cu.Holds held) :
    memcmp cu.value arg (if cu.len > arg.length then arg.length else cu.len) =
      firstDifference held arg := by
  have count : (if cu.len > arg.length then arg.length else cu.len) =
      min held.length arg.length := by
    rw [holds.2]
    split <;> lia
  have ofHeld : ∀ size ≤ cu.len, cu.value.take size = held.take size := by
    intro size fits
    rw [← holds.1, CuString.stored, take_take, Nat.min_eq_left fits]
  rw [count, memcmp, ofHeld _ (by rw [← holds.2]; exact Nat.min_le_left _ _)]
  exact firstDifference_take_take _ _ _ (Nat.le_refl _)

theorem roughCheckStringCU_iff (strategy : Strategy) {cu : CuStrings}
    {range : Extremes (List UInt8)} (arg : VarStr) (describes : cu.Describes range) :
    roughCheckStringCU strategy cu arg = true ↔
      match strategy with
      | .less | .lessEqual => firstDifference range.low arg.dat ≠ .gt
      | .equal =>
        firstDifference range.low arg.dat ≠ .gt ∧ firstDifference range.high arg.dat ≠ .lt
      | .greaterEqual | .greater => firstDifference range.high arg.dat ≠ .lt := by
  have minOrder := describes.cuMin.memcmp_arg _ arg.dat
  have maxOrder := describes.cuMax.memcmp_arg _ arg.dat
  cases strategy <;> simp [roughCheckStringCU, minOrder, maxOrder]

end Strings

section Batches

variable (batch : List VarStr) (arg : VarStr) (range : Extremes (List UInt8))
  (encloses : range.Encloses compare (batch.map VarStr.cut))
include encloses

theorem cut_above_of_low (above : firstDifference range.low arg.dat = .gt) (v : VarStr)
    (member : v ∈ batch) : firstDifference v.cut arg.dat = .gt :=
  firstDifference_gt_mono _ _ _ (encloses.low_le v.cut (mem_map_of_mem member)) above

variable (v : VarStr) (accepts : VarStr → Prop)

theorem low_not_above (member : v ∈ batch)
    (ordered : compare v.dat arg.dat ≠ .gt) : firstDifference range.low arg.dat ≠ .gt := by
  intro above
  apply ordered
  apply compare_of_firstDifference_gt
  exact firstDifference_gt_of_take _ _ _ (cut_above_of_low batch arg range encloses above v member)

theorem high_not_below (member : v ∈ batch)
    (ordered : compare v.dat arg.dat ≠ .lt) : firstDifference range.high arg.dat ≠ .lt := by
  intro below
  apply ordered
  obtain ⟨greatest, _, isGreatest⟩ := mem_map.mp encloses.high_mem
  have length : range.high.length ≤ minMaxLen - 1 := by
    rw [← isGreatest, VarStr.cut_length]
    exact Nat.min_le_right _ _
  have under := encloses.le_high v.cut (mem_map_of_mem member)
  exact compare_lt_of_firstDifference_lt (minMaxLen - 1) _ range.high _ length under below

variable {batch range}

/-- With upper bounds on blank-padded strings, a match keeps the least string from differing upwards
exactly when blanks do not mislead. -/
theorem bpchar_upper_iff
    (before : ∀ v, compare (stripped v.dat) (stripped arg.dat) = .lt → accepts v)
    (notAfter : ∀ v, accepts v → compare (stripped v.dat) (stripped arg.dat) ≠ .gt) :
    ((∃ v ∈ batch, accepts v) → firstDifference range.low arg.dat ≠ .gt) ↔
      ¬ ((∃ v ∈ batch, Masked v.dat arg.dat) ∧
        ∀ v ∈ batch, firstDifference v.cut arg.dat = .gt) := by
  constructor
  · rintro sound ⟨⟨v, member, masked⟩, above⟩
    obtain ⟨least, inside, isLeast⟩ := mem_map.mp encloses.low_mem
    apply sound ⟨v, member, before v masked.stripped_lt⟩
    rw [← isLeast]
    exact above least inside
  · rintro clear ⟨v, member, accepted⟩ above
    have all := cut_above_of_low batch arg range encloses above
    apply clear
    exact ⟨⟨v, member, masked_of_cut_above v _ (all v member) (notAfter v accepted)⟩, all⟩

/-- With lower bounds on blank-padded strings, a match keeps the greatest string from differing
downwards exactly when blanks do not mislead. -/
theorem bpchar_lower_iff
    (after : ∀ v, compare (stripped v.dat) (stripped arg.dat) = .gt → accepts v)
    (notBefore : ∀ v, accepts v → compare (stripped v.dat) (stripped arg.dat) ≠ .lt) :
    ((∃ v ∈ batch, accepts v) → firstDifference range.high arg.dat ≠ .lt) ↔
      ¬ ∃ v ∈ batch, Masked arg.dat v.dat ∧ ∀ w ∈ batch, (compare w.cut v.cut).isLE := by
  constructor
  · rintro sound ⟨v, member, masked, greatest⟩
    apply sound ⟨v, member, after v (Std.OrientedCmp.gt_of_lt masked.stripped_lt)⟩
    have isHigh : range.high = v.cut := by
      obtain ⟨w, inside, isHigh⟩ := mem_map.mp encloses.high_mem
      apply Std.LawfulEqOrd.eq_of_compare
      apply Std.OrientedCmp.isLE_antisymm
      · rw [← isHigh]
        exact greatest w inside
      · exact encloses.le_high v.cut (mem_map_of_mem member)
    rw [isHigh]
    exact masked.cut_below
  · rintro clear ⟨v, member, accepted⟩ below
    obtain ⟨greatest, inside, isHigh⟩ := mem_map.mp encloses.high_mem
    have under : ∀ w ∈ batch, (compare w.cut greatest.cut).isLE := by
      intro w within
      rw [isHigh]
      exact encloses.le_high w.cut (mem_map_of_mem within)
    rw [← isHigh] at below
    apply clear
    refine ⟨greatest, inside, ?_, under⟩
    exact masked_of_cut_below (under v member) below (notBefore v accepted)

end Batches

section Results

/-- The strings on which a blank-padded comparison and the rough check part: for an upper bound,
some value is masked by the argument and every value differs upwards from it; for a lower bound, a
greatest value masks the argument. -/
def BlanksMislead (strategy : Strategy) (batch : List VarStr) (arg : VarStr) : Prop :=
  match strategy with
  | .less | .lessEqual =>
    (∃ v ∈ batch, Masked v.dat arg.dat) ∧ ∀ v ∈ batch, firstDifference v.cut arg.dat = .gt
  | .equal => False
  | .greaterEqual | .greater =>
    ∃ v ∈ batch, Masked arg.dat v.dat ∧ ∀ w ∈ batch, (compare w.cut v.cut).isLE

/-- The batches and arguments for which a rough check keeps every unit with a match. -/
def KeepsMatches :
    (type : ColumnType) → Strategy → Collation → List type.Value → type.Arg → Prop
  | .char, strategy, collation, batch, arg =>
    (∃ v ∈ batch, Matches .char strategy collation v arg) →
      ∃ v ∈ batch, (v.toInt < 0 ↔ arg.toInt < 0) ∧ Matches .char strategy collation v arg
  | .bpchar, strategy, .c, batch, arg => ¬ BlanksMislead strategy batch arg
  | _, _, _, _, _ => True

variable (strategy : Strategy) (batch : List VarStr) (arg : VarStr)

/-- A string that matches bytewise is not missed. -/
theorem varStrBatch_through (some : ∃ v ∈ batch, stringMatches (varstrCmp .c) strategy v arg) :
    roughCheckStringCU strategy (varStrBatch batch) arg = true := by
  obtain ⟨v, member, holds⟩ := some
  obtain ⟨range, encloses, describes, _⟩ :=
    stringBatch_describes batch (ne_nil_of_mem member)
  rw [roughCheckStringCU_iff strategy arg describes]
  have low := low_not_above batch arg range encloses v member
  have high := high_not_below batch arg range encloses v member
  cases strategy with
  | less =>
    simp only [stringMatches, Strategy.Accepts, varstrCmp_c] at holds
    exact low (by simp [holds])
  | lessEqual =>
    simp only [stringMatches, varstrCmp_c] at holds
    exact low holds
  | equal =>
    have same : compare v.dat arg.dat = .eq := by
      rw [show v.dat = arg.dat from holds]
      exact Std.ReflOrd.compare_self
    exact ⟨low (by simp [same]), high (by simp [same])⟩
  | greaterEqual =>
    simp only [stringMatches, varstrCmp_c] at holds
    exact high holds
  | greater =>
    simp only [stringMatches, Strategy.Accepts, varstrCmp_c] at holds
    exact high (by simp [holds])

/-- Under the C collation, a unit of blank-padded strings with a match is kept exactly when blanks
do not mislead. -/
theorem bpcharBatch_through_iff : ((∃ v ∈ batch, stringMatches (bpcharcase .c) strategy v arg) →
      roughCheckStringCU strategy (varStrBatch batch) arg = true) ↔
      ¬ BlanksMislead strategy batch arg := by
  have order : ∀ v : VarStr, bpcharcase .c v.dat arg.dat =
      compare (stripped v.dat) (stripped arg.dat) := fun v => varstrCmp_c _ _
  by_cases filled : batch = []
  · rw [filled]
    cases strategy <;> simp [BlanksMislead]
  · obtain ⟨range, encloses, describes, _⟩ := stringBatch_describes batch filled
    have check := roughCheckStringCU_iff strategy arg describes
    cases strategy with
    | less =>
      rw [check]
      apply bpchar_upper_iff arg encloses (stringMatches (bpcharcase .c) .less · arg)
      · intro v before
        exact (order v).trans before
      · intro v accepted
        rw [← order v, show bpcharcase .c v.dat arg.dat = .lt from accepted]
        decide
    | lessEqual =>
      rw [check]
      apply bpchar_upper_iff arg encloses (stringMatches (bpcharcase .c) .lessEqual · arg)
      · intro v before
        show bpcharcase .c v.dat arg.dat ≠ .gt
        rw [order v, before]
        decide
      · intro v accepted
        rw [← order v]
        exact accepted
    | equal =>
      constructor
      · intro _ misled
        exact misled
      · rintro _ ⟨v, member, same⟩
        exact varStrBatch_through .equal batch arg ⟨v, member, same⟩
    | greaterEqual =>
      rw [check]
      apply bpchar_lower_iff arg encloses (stringMatches (bpcharcase .c) .greaterEqual · arg)
      · intro v after
        show bpcharcase .c v.dat arg.dat ≠ .lt
        rw [order v, after]
        decide
      · intro v accepted
        rw [← order v]
        exact accepted
    | greater =>
      rw [check]
      apply bpchar_lower_iff arg encloses (stringMatches (bpcharcase .c) .greater · arg)
      · intro v after
        exact (order v).trans after
      · intro v accepted
        rw [← order v, show bpcharcase .c v.dat arg.dat = .gt from accepted]
        decide

theorem roughCheckStringFunc_other (order orderOf : List UInt8 → List UInt8 → Ordering)
    {strategy : Strategy} {batch : List VarStr} {arg : VarStr}
    (some : ∃ v ∈ batch, stringMatches orderOf strategy v arg) :
    roughCheckStringFunc strategy (.other order) (varStrBatch batch) arg = true := by
  cases strategy with
  | equal => exact varStrBatch_through .equal batch arg some
  | _ => rfl

theorem fixedBatch_kept {α τ : Type} [LT α] [DecidableLT α] [OfNat α 0] [LT τ] [LE τ]
    [DecidableLT τ] [DecidableLE τ] (key : α → Int) (ordered : ∀ a b : α, a < b ↔ key a < key b)
    (keyArg : τ → Int) (less : ∀ a b : τ, a < b ↔ keyArg a < keyArg b)
    (atMost : ∀ a b : τ, a ≤ b ↔ keyArg a ≤ keyArg b) {widen : α → τ}
    (widened : ∀ a, keyArg (widen a) = key a) {strategy : Strategy} {batch : List α} {arg : τ}
    (some : ∃ v ∈ batch, strategy.Holds (key v) (keyArg arg)) :
    roughCheckIntCU strategy (widen (fixedBatch compareFixed batch).cuMin)
      (widen (fixedBatch compareFixed batch).cuMax) arg = true := by
  rw [roughCheckIntCU_key keyArg less atMost, widened, widened]
  exact fixedBatch_through ordered some

theorem oid_widened (oid : UInt32) : oid.toUInt64.toInt64.toInt = (oid.toNat : Int) := by
  have bound := oid.toNat_lt
  have natural : oid.toUInt64.toInt64.toBitVec.toNat = oid.toNat := by
    exact UInt32.toNat_toUInt64 oid
  have signed : oid.toUInt64.toInt64.toInt = oid.toUInt64.toInt64.toBitVec.toInt := rfl
  rw [signed, BitVec.toInt_eq_toNat_cond, natural]
  rw [if_pos (by lia)]

/-- The batches and arguments for which a rough check keeps a unit with a match are exactly those
where no character match has only the other sign and no trailing blank misleads. For every batch of
strings, the fold through pointers and the fold through copies store the same bounds. -/
theorem rough_check_keeps_matching_unit (type : ColumnType) (strategy : Strategy)
    (collation : Collation) (batch : List type.Value) (arg : type.Arg) :
    (((∃ v ∈ batch, Matches type strategy collation v arg) →
        getRoughCheckFunc type strategy collation (cuDesc type batch) arg = true) ↔
      KeepsMatches type strategy collation batch arg) ∧ ∀ strings : List VarStr,
      ((varStrBatch strings).cuMin.len = (copiedBatch strings).cuMin.len ∧
        (varStrBatch strings).cuMin.stored = (copiedBatch strings).cuMin.stored) ∧
      ((varStrBatch strings).cuMax.len = (copiedBatch strings).cuMax.len ∧
        (varStrBatch strings).cuMax.stored = (copiedBatch strings).cuMax.stored) := by
  refine ⟨?_, stringBatch_same⟩
  cases type with
  | char => exact charBatch_through_iff strategy batch arg
  | int2 =>
    refine iff_of_true ?_ trivial
    exact fixedBatch_kept Int16.toInt (fun a b => Int16.lt_iff_toInt_lt) Int64.toInt
      (fun a b => Int64.lt_iff_toInt_lt) (fun a b => Int64.le_iff_toInt_le)
      Int16.toInt_toInt64
  | int4 =>
    refine iff_of_true ?_ trivial
    exact fixedBatch_kept Int32.toInt (fun a b => Int32.lt_iff_toInt_lt) Int64.toInt
      (fun a b => Int64.lt_iff_toInt_lt) (fun a b => Int64.le_iff_toInt_le)
      Int32.toInt_toInt64
  | oid =>
    refine iff_of_true ?_ trivial
    exact fixedBatch_kept (fun oid : UInt32 => (oid.toNat : Int))
      (fun a b => UInt32.lt_iff_toNat_lt.trans Int.ofNat_lt.symm) Int64.toInt
      (fun a b => Int64.lt_iff_toInt_lt) (fun a b => Int64.le_iff_toInt_le)
      oid_widened
  | date =>
    refine iff_of_true ?_ trivial
    exact fixedBatch_kept Int32.toInt (fun a b => Int32.lt_iff_toInt_lt) Int32.toInt
      (fun a b => Int32.lt_iff_toInt_lt) (fun a b => Int32.le_iff_toInt_le)
      (fun a => rfl)
  | int8 | time | timestamp | timestamptz =>
    refine iff_of_true ?_ trivial
    exact fixedBatch_kept Int64.toInt (fun a b => Int64.lt_iff_toInt_lt) Int64.toInt
      (fun a b => Int64.lt_iff_toInt_lt) (fun a b => Int64.le_iff_toInt_le)
      (fun a => rfl)
  | bpchar =>
    cases collation with
    | c => exact bpcharBatch_through_iff strategy batch arg
    | other order =>
      refine iff_of_true ?_ trivial
      exact roughCheckStringFunc_other order _
  | varchar | text =>
    refine iff_of_true ?_ trivial
    cases collation with
    | c => exact varStrBatch_through strategy batch arg
    | other order => exact roughCheckStringFunc_other order _

/-- A unit that holds only the character `0xFF` is skipped by a search for characters above `a`,
although `0xFF` is above `a` as the operator compares. -/
theorem rough_check_skips_matching_unit :
    ¬ ∀ (type : ColumnType) (strategy : Strategy) (collation : Collation)
        (batch : List type.Value) (arg : type.Arg),
      (∃ v ∈ batch, Matches type strategy collation v arg) →
        getRoughCheckFunc type strategy collation (cuDesc type batch) arg = true := by
  intro sound
  have found : ∃ v ∈ ([-1] : List Int8), Matches .char .greater .c v (0x61 : Int8) :=
    ⟨-1, mem_singleton_self _, by
      show ((0x61 : Int8).toUInt8.toNat : Int) < ((-1 : Int8).toUInt8.toNat : Int)
      decide⟩
  have skipped : getRoughCheckFunc .char .greater .c (cuDesc .char ([-1] : List Int8))
      (0x61 : Int8) = false := by decide
  rw [sound .char .greater .c ([-1] : List Int8) (0x61 : Int8) found] at skipped
  cases skipped

end Results

end OpenGauss.CStore
