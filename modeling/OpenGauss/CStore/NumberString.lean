import OpenGauss.Base.BitArray
import OpenGauss.Base.Decimal
import OpenGauss.Ustore.TupleForm

/-!
# Strings of digits stored as integers

A column of strings may be stored as a column of integers when all its strings are decimal numbers.
The module has the forming of such a unit (`FormNumberStringCU`), with its test of every string and
its map of the nulls, the writing of the strings from the integers (`DeFormNumberStringCU`) and the
reading of the rows from what was written. A string comes back with all its bytes, the blanks of a
string of fixed length among them, behind a length header of four bytes.
-/
namespace OpenGauss.CStore
open Option List OpenGauss.Base OpenGauss.Ustore

section Insert

/-- `MAX_LEN_CHAR_TO_BIGINT`. -/
def maxLenCharToBigint : Nat := 19

/-- `MAX_LEN_CHAR_TO_BIGINT_BUF`. -/
def maxLenCharToBigintBuf : Nat := 24

/-- `BPCHAROID`. -/
def bpcharOid : Nat := 1042

/-- `VARSIZE_ANY_EXHDR`. -/
def varsizeAnyExhdr (object : List UInt8) : Nat :=
  if varattIsExternal object then varsizeExternal object - 2
  else if Ustore.varattIsShort object then varsizeShort object - varhdrszShort
  else varsize object - varhdrsz

/-- `VARDATA_ANY`. -/
def vardataAny (object : List UInt8) : List UInt8 :=
  object.drop (if Ustore.varattIsShort object then varhdrszShort else varhdrsz)

/-- The characters of a string, without its header. -/
def characters (object : List UInt8) : List UInt8 := (vardataAny object).take (varsizeAnyExhdr object)

/-- The loop over the characters behind the first: the digits, with those taken before them, and the
characters that are left; nothing where the string is refused. -/
def takeDigits (bpcharType : Bool) (taken : List UInt8) :
    List UInt8 → Option (List UInt8 × List UInt8)
  | [] => some (taken, [])
  | byte :: rest =>
    if byte > 57 ∨ byte < 48 then
      if bpcharType then some (taken, byte :: rest) else none
    else if bpcharType ∧ maxLenCharToBigint ≤ taken.length then none
    else takeDigits bpcharType (taken ++ [byte]) rest

/-- The digits that one row of `FormNumberStringCU` puts in its buffer. -/
def numberDigits (bpcharType : Bool) (object : List UInt8) : Option (List UInt8) :=
  if varsizeAnyExhdr object = 0 then none
  else if bpcharType = false ∧ maxLenCharToBigint < varsizeAnyExhdr object then none
  else
    match characters object with
    | [] => none
    | byte :: rest =>
      if byte > 57 ∨ byte < 49 then none
      else
        match takeDigits bpcharType [byte] rest with
        | none => none
        | some (digits, left) =>
          -- a string of fixed length may have blanks behind the digits, and nothing else
          if bpcharType ∧ left.any (· ≠ 32) then none else some digits

/-- `str_to_uint64`. -/
def strToUint64 (text : List UInt8) : Option UInt64 :=
  if text = [] then none
  else if text.all isDigit ∧ decimalValue text < 2 ^ 64 then some (UInt64.ofNat (decimalValue text))
  else none

/-- What the loop over the rows has gathered. -/
structure FormState where
  /-- The map of the nulls (`m_nulls`). -/
  nulls : Nat → UInt8
  /-- The digits of the values (`data_buf`). -/
  numbers : List (List UInt8)
  /-- The length of the values without their headers (`total_len`). -/
  totalLen : UInt32

/-- The loop over the rows. -/
def formRows (bpcharType : Bool) : Nat → List (Option (List UInt8)) → FormState → Option FormState
  | _, [], state => some state
  | row, none :: rest, state =>
    formRows bpcharType (row + 1) rest
      { state with nulls := orByte state.nulls (BitCursor.of 0 row) }
  | row, some object :: rest, state =>
    match numberDigits bpcharType object with
    | none => none
    | some digits =>
      formRows bpcharType (row + 1) rest
        { state with
          numbers := state.numbers ++ [digits]
          totalLen := state.totalLen + UInt32.ofNat (varsizeAnyExhdr object) }

/-- A unit of integers. -/
structure NumberCU where
  /-- The map of the nulls (`m_nulls`). -/
  nulls : Nat → UInt8
  /-- Its bytes (`m_bpNullRawSize`). -/
  bpNullRawSize : Nat
  /-- The data (`m_srcData`, `m_srcDataSize` bytes). -/
  srcData : List UInt8

/-- `bitmap_size`. -/
def bitmapSize (rows : Nat) : Nat := (rows + 7) / 8

/-- `FormNumberStringCU`, over the memory that `FormCUTInitMem` has cleared. -/
def formNumberStringCU (bpcharType : Bool) (batch : List (Option (List UInt8))) : Option NumberCU := do
  let state ← formRows bpcharType 0 batch ⟨fun _ => 0, [], 0⟩
  let values ← state.numbers.mapM strToUint64
  some
    { nulls := state.nulls
      bpNullRawSize := if batch.any Option.isNone then bitmapSize batch.length else 0
      srcData := leBytes 8 state.numbers.length ++
        (values.flatMap fun value => leBytes 8 value.toNat) ++ leBytes 8 state.totalLen.toNat }

/-- `TryFormNumberStringCU`. -/
def tryFormNumberStringCU (compress : Bool) (atttypid : Nat) (atttypmod : Int)
    (batch : List (Option (List UInt8))) : Option NumberCU :=
  if compress = false then none
  else if atttypid = bpcharOid then
    if atttypmod = -1 then none else formNumberStringCU true batch
  else formNumberStringCU false batch

end Insert

section Deform

/-- A unit of strings. -/
structure StringCU where
  /-- The memory (`m_srcBuf`). -/
  srcBuf : Nat → UInt8
  /-- Its bytes (`m_srcBufSize`). -/
  srcBufSize : Nat
  /-- The bytes of the map of the nulls, which comes first (`m_bpNullRawSize`). -/
  bpNullRawSize : Nat
  /-- The bytes of the data behind the map (`m_srcDataSize`). -/
  srcDataSize : Nat

/-- `uint64_to_str`. -/
def uint64ToStr (value : UInt64) : List UInt8 := (digitStack maxLenCharToBigintBuf value.toNat).reverse

/-- `SET_VARSIZE`: the four bytes of a header. -/
def setVarsize (size : Nat) : List UInt8 := leBytes 4 (4 * size)

/-- The loop of `DeFormNumberStringCU` over the integers left; nothing where a position passes the
end of the memory, which the source asserts. -/
def deformNumbers (bpcharType : Bool) (typeMode : Int) (tmpSrcBufSize : Nat) :
    Nat → List UInt8 → (Nat → UInt8) → Nat → Option ((Nat → UInt8) × Nat)
  | 0, _, memory, pos => some (memory, pos)
  | count + 1, tmpSrcData, memory, pos =>
    let text := uint64ToStr (UInt64.ofNat (leNat (tmpSrcData.take 8)))
    let size := if bpcharType then typeMode.toNat else text.length + varhdrsz
    let memory := pwrite (pwrite memory (pos + varhdrsz) text) pos (setVarsize size)
    if pos + size ≤ tmpSrcBufSize then
      deformNumbers bpcharType typeMode tmpSrcBufSize count (tmpSrcData.drop 8) memory (pos + size)
    else none

/-- `DeFormNumberStringCU`, with the contents of newly allocated memory. -/
def deFormNumberStringCU (bpcharType : Bool) (fresh : Nat → UInt8) (typeMode : Int) (cu : NumberCU) :
    Option StringCU :=
  let dataCount := leNat (slice cu.srcData 0 8) % 2 ^ 32
  let origTotalSize := leNat (slice cu.srcData (8 * ((dataCount + 1) % 2 ^ 32)) 8) % 2 ^ 32
  let tmpSrcBufSize := (origTotalSize + dataCount * varhdrsz + cu.bpNullRawSize) % 2 ^ 32
  let blanked :=
    if bpcharType then pwrite fresh 0 (List.replicate tmpSrcBufSize 32) else fresh
  let started := pwrite (pwrite blanked tmpSrcBufSize [0]) 0 (pread cu.nulls 0 cu.bpNullRawSize)
  match deformNumbers bpcharType typeMode tmpSrcBufSize dataCount (cu.srcData.drop 8) started
      cu.bpNullRawSize with
  | none => none
  | some (memory, pos) =>
    some
      { srcBuf := memory
        srcBufSize := tmpSrcBufSize + 1
        bpNullRawSize := cu.bpNullRawSize
        srcDataSize := pos - cu.bpNullRawSize }

/-- The end of `UnCompressData`: which strings the integers of a column are. -/
def deFormStrings (fresh : Nat → UInt8) (atttypid : Nat) (typeMode : Int) (cu : NumberCU) :
    Option StringCU :=
  if atttypid = bpcharOid ∧ (varhdrsz : Int) < typeMode then
    deFormNumberStringCU true fresh typeMode cu
  else deFormNumberStringCU false fresh typeMode cu

/-- `CU::IsNull`. -/
def StringCU.isNull (cu : StringCU) (row : Nat) : Bool :=
  decide (cu.bpNullRawSize ≠ 0) && bitOf cu.srcBuf 0 row

/-- The values of the rows from one on, where the offset of its value is known (`FormValuesOffset`
and `GetValue`): nothing for a null. -/
def StringCU.values (cu : StringCU) : Nat → Nat → Nat → List (Option (List UInt8))
  | 0, _, _ => []
  | count + 1, row, offset =>
    let start := cu.bpNullRawSize + offset
    if cu.isNull row then none :: cu.values count (row + 1) offset
    else
      let size := Ustore.varsizeAny (pread cu.srcBuf start varhdrsz)
      some (pread cu.srcBuf start size) :: cu.values count (row + 1) (offset + size)

end Deform

section Accepted

/-- A string as it is inside a row: with a header of one byte or of four, all its bytes there, and
neither compressed nor stored elsewhere. -/
structure InlineString (object : List UInt8) : Prop where
  complete : VarlenaComplete object
  inside : varattIsExternal object = false
  plain : Ustore.varattIsShort object = true ∨ varattIs4BU object = true

/-- The string behind a header of four bytes. -/
def withLongHeader (object : List UInt8) : List UInt8 :=
  setVarsize (varsizeAnyExhdr object + varhdrsz) ++ characters object

/-- The length of the header of a string. -/
def headerSize (object : List UInt8) : Nat :=
  if Ustore.varattIsShort object then varhdrszShort else varhdrsz

variable (text : List UInt8) (bpcharType : Bool) (object : List UInt8)

section

variable (string : InlineString object)
include string

/-- A string is its header and its characters. -/
theorem InlineString.size :
    headerSize object + varsizeAnyExhdr object = object.length := by
  have sized := string.complete.sized
  have headed := length_pos_of_ne_nil string.complete.headed
  have long := string.complete.long
  rw [Ustore.varsizeAny, if_neg (by simp [string.inside])] at sized
  rw [varsizeAnyExhdr, if_neg (by simp [string.inside]), headerSize]
  cases short : Ustore.varattIsShort object with
  | true =>
    rw [short, if_pos rfl] at sized
    rw [if_pos rfl, if_pos rfl, varhdrszShort]
    omega
  | false =>
    rw [short, if_neg Bool.false_ne_true] at sized
    have enough := long short
    rw [if_neg Bool.false_ne_true, if_neg Bool.false_ne_true]
    omega

theorem InlineString.characters_length :
    (characters object).length = varsizeAnyExhdr object := by
  have whole := string.size object
  rw [headerSize] at whole
  rw [characters, vardataAny, length_take, length_drop]
  lia

/-- The size of a string fits its header. -/
theorem InlineString.size_lt :
    varsizeAnyExhdr object + varhdrsz < 2 ^ 30 := by
  rw [varsizeAnyExhdr, if_neg (by simp [string.inside])]
  have byte := (vaHeader object).toNat_lt
  have word := leNat_lt (object.take 4)
  have width : (object.take 4).length ≤ 4 := length_take_le 4 object
  have bound : 256 ^ (object.take 4).length ≤ 256 ^ 4 := Nat.pow_le_pow_right (by decide) width
  have four := string.complete.long
  have sized := string.complete.sized
  rw [Ustore.varsizeAny, if_neg (by simp [string.inside])] at sized
  split
  · rw [varsizeShort, varhdrsz]
    lia
  · rename_i long
    rw [if_neg long] at sized
    have enough := four (by simpa using long)
    rw [← sized] at enough
    rw [Nat.sub_add_cancel enough, varsize]
    lia

/-- A string with a long header is left alone. -/
theorem withLongHeader_same
    (long : varattIs4BU object = true) : withLongHeader object = object := by
  have notShort : Ustore.varattIsShort object = false := by
    rw [varattIs4BU, beq_iff_eq] at long
    exact beq_eq_false_iff_ne.mpr (by omega)
  have whole := string.size object
  have sized := string.complete.sized
  rw [Ustore.varsizeAny, if_neg (by simp [string.inside])] at sized
  rw [headerSize, notShort, if_neg (by decide)] at whole
  have four : (object.take 4).length = 4 := by
    rw [length_take]
    rw [varhdrsz] at whole
    lia
  have header : 4 * (varsizeAnyExhdr object + varhdrsz) = leNat (object.take 4) := by
    have multiple : leNat (object.take 4) % 4 = 0 := by
      cases object with
      | nil => simp at four
      | cons byte rest =>
        rw [varattIs4BU] at long
        rw [take_succ_cons, leNat]
        have first : (vaHeader (byte :: rest)).toNat = byte.toNat := rfl
        lia
    rw [Nat.add_comm, whole, ← sized, varsize]
    lia
  have front := leBytes_leNat (object.take 4)
  rw [four] at front
  have behind : (object.drop varhdrsz).take (varsizeAnyExhdr object) = object.drop varhdrsz :=
    take_of_length_le (by rw [length_drop]; omega)
  rw [withLongHeader, setVarsize, header, front, characters, vardataAny, notShort,
    if_neg (by decide), behind]
  exact take_append_drop 4 object

end

/-- The digits that are taken are a front of the text. -/
theorem takeDigits_spec (taken left digits after : List UInt8)
    (good : ∀ byte ∈ taken, isDigit byte = true)
    (short : bpcharType = true → taken.length ≤ maxLenCharToBigint)
    (result : takeDigits bpcharType taken left = some (digits, after)) :
    (∃ more, digits = taken ++ more ∧ left = more ++ after) ∧
      (∀ byte ∈ digits, isDigit byte = true) ∧
      (bpcharType = true → digits.length ≤ maxLenCharToBigint) ∧
      (bpcharType = false → after = []) := by
  induction left generalizing taken with
  | nil =>
    rw [takeDigits, some.injEq, Prod.mk.injEq] at result
    obtain ⟨rfl, rfl⟩ := result
    exact ⟨⟨[], (append_nil taken).symm, rfl⟩, good, short, fun _ => rfl⟩
  | cons byte rest ih =>
    rw [takeDigits] at result
    by_cases other : byte > 57 ∨ byte < 48
    · rw [if_pos other] at result
      cases bpcharType with
      | false =>
        exact absurd result (by simp)
      | true =>
        rw [if_pos rfl, some.injEq, Prod.mk.injEq] at result
        obtain ⟨rfl, rfl⟩ := result
        exact ⟨⟨[], (append_nil taken).symm, rfl⟩, good, short, fun no => Bool.noConfusion no⟩
    · rw [if_neg other] at result
      by_cases full : bpcharType ∧ maxLenCharToBigint ≤ taken.length
      · rw [if_pos full] at result
        exact absurd result (by simp)
      · rw [if_neg full] at result
        have digit : isDigit byte = true := by
          rw [not_or, UInt8.not_lt, UInt8.not_lt] at other
          rw [isDigit, Bool.and_eq_true, decide_eq_true_eq, decide_eq_true_eq]
          exact ⟨other.2, other.1⟩
        have more : ∀ byte' ∈ taken ++ [byte], isDigit byte' = true := by
          intro byte' member
          obtain before | last := mem_append.mp member
          · exact good byte' before
          · rw [mem_singleton.mp last]
            exact digit
        have room : bpcharType = true → (taken ++ [byte]).length ≤ maxLenCharToBigint := by
          intro fixed
          have less : ¬maxLenCharToBigint ≤ taken.length := fun reached => full ⟨fixed, reached⟩
          rw [length_append, length_singleton]
          omega
        obtain ⟨⟨others, whole, split⟩, later⟩ := ih (taken ++ [byte]) more room result
        refine ⟨⟨byte :: others, ?_, ?_⟩, later⟩
        · rw [whole, append_assoc, singleton_append]
        · rw [split, cons_append]

/-- An accepted string is a decimal number of at most nineteen digits, with blanks behind it only
where it has a fixed length. -/
theorem numberDigits_spec {object digits : List UInt8}
    (string : InlineString object) (result : numberDigits bpcharType object = some digits) :
    Decimal digits ∧ digits ≠ [] ∧ digits.length ≤ maxLenCharToBigint ∧
      ∃ blanks, characters object = digits ++ List.replicate blanks 32 ∧
        (bpcharType = false → blanks = 0) := by
  rw [numberDigits] at result
  have length := string.characters_length object
  by_cases empty : varsizeAnyExhdr object = 0
  · rw [if_pos empty] at result
    exact absurd result (by simp)
  rw [if_neg empty] at result
  by_cases long : bpcharType = false ∧ maxLenCharToBigint < varsizeAnyExhdr object
  · rw [if_pos long] at result
    exact absurd result (by simp)
  rw [if_neg long] at result
  cases text : characters object with
  | nil =>
    rw [text] at result
    exact absurd result (by simp)
  | cons byte rest =>
    rw [text] at result length
    dsimp only at result
    by_cases other : byte > 57 ∨ byte < 49
    · rw [if_pos other] at result
      exact absurd result (by simp)
    rw [if_neg other] at result
    rw [not_or, UInt8.not_lt, UInt8.not_lt] at other
    have digit : isDigit byte = true := by
      rw [isDigit, Bool.and_eq_true, decide_eq_true_eq, decide_eq_true_eq]
      exact ⟨Nat.le_trans (by decide) other.2, other.1⟩
    cases loop : takeDigits bpcharType [byte] rest with
    | none =>
      rw [loop] at result
      exact absurd result (by simp)
    | some found =>
      obtain ⟨taken, left⟩ := found
      rw [loop] at result
      dsimp only at result
      by_cases refused : bpcharType ∧ left.any (· ≠ 32)
      · rw [if_pos refused] at result
        exact absurd result (by simp)
      rw [if_neg refused, some.injEq] at result
      subst result
      obtain ⟨⟨more, whole, split⟩, digits, fixed, varying⟩ :=
        takeDigits_spec bpcharType [byte] rest taken left (by
            intro first member
            rw [mem_singleton.mp member]
            exact digit)
          (fun _ => by rw [length_singleton]; decide) loop
      have blank : left = List.replicate left.length 32 := by
        cases bpcharType with
        | false =>
          rw [varying rfl]
          rfl
        | true =>
          apply eq_replicate_iff.mpr
          refine ⟨rfl, fun byte' member => ?_⟩
          by_contra unlike
          exact refused ⟨rfl, any_eq_true.mpr ⟨byte', member, by simpa using unlike⟩⟩
      refine ⟨⟨digits, ?_⟩, ?_, ?_, left.length, ?_, ?_⟩
      · rw [whole]
        intro zero
        rw [some.inj zero] at other
        exact absurd other.2 (by decide)
      · rw [whole]
        exact cons_ne_nil _ _
      · cases bpcharType with
        | true => exact fixed rfl
        | false =>
          have none_left := varying rfl
          rw [none_left, append_nil] at split
          rw [whole, length_append, ← split]
          rw [length_cons] at length
          have within : ¬maxLenCharToBigint < varsizeAnyExhdr object := fun more => long ⟨rfl, more⟩
          rw [length_singleton]
          omega
      · rw [← blank, whole, split, singleton_append, cons_append]
      · intro varies
        rw [varying varies]
        rfl

theorem strToUint64_decimal (decimal : Decimal text) (some_digit : text ≠ [])
    (short : text.length ≤ maxLenCharToBigint) :
    strToUint64 text = some (UInt64.ofNat (decimalValue text)) ∧ decimalValue text < 2 ^ 64 := by
  have below := decimalValue_lt text decimal.digits
  have bound : 10 ^ text.length ≤ 10 ^ 19 := Nat.pow_le_pow_right (by decide) short
  have fits : decimalValue text < 2 ^ 64 :=
    lt_of_lt_of_le (lt_of_lt_of_le below bound) (by norm_num)
  refine ⟨?_, fits⟩
  rw [strToUint64, if_neg some_digit, if_pos ⟨all_eq_true.mpr decimal.digits, fits⟩]

theorem uint64ToStr_decimal (decimal : Decimal text)
    (short : text.length ≤ maxLenCharToBigint) (fits : decimalValue text < 2 ^ 64) :
    uint64ToStr (UInt64.ofNat (decimalValue text)) = text := by
  rw [uint64ToStr, UInt64.toNat_ofNat_of_lt' fits]
  exact digitStack_decimalValue _ text decimal (Nat.le_trans short (by decide))

end Accepted

section Formed

/-- The nulls of a batch, row by row. -/
theorem null_cons (head : Option (List UInt8)) (rest : List (Option (List UInt8)))
    (row index : Nat) : (row ≤ index ∧ (head :: rest)[index - row]? = some none) ↔
      (index = row ∧ head = none) ∨ (row + 1 ≤ index ∧ rest[index - (row + 1)]? = some none) := by
  rcases Nat.lt_trichotomy index row with before | same | behind
  · constructor
    · intro both
      omega
    · rintro (⟨here, _⟩ | ⟨there, _⟩) <;> omega
  · subst same
    simp
  · obtain ⟨skip, rfl⟩ := Nat.exists_eq_add_of_lt behind
    have first : row + skip + 1 - row = skip + 1 := by lia
    have second : row + skip + 1 - (row + 1) = skip := by lia
    have low : row ≤ row + skip + 1 := by lia
    have high : row + 1 ≤ row + skip + 1 := by lia
    have apart : ¬row + skip + 1 = row := by lia
    rw [first, second, getElem?_cons_succ]
    simp only [low, high, apart, false_and, false_or]

/-- The loop over the rows collects numbers, sizes and nulls. -/
theorem formRows_spec (bpcharType : Bool) (row : Nat) (batch : List (Option (List UInt8)))
    (state final : FormState) (formed : formRows bpcharType row batch state = some final) :
    ∃ texts, final.numbers = state.numbers ++ texts ∧
      List.Forall₂ (fun object text => numberDigits bpcharType object = some text)
        (batch.filterMap id) texts ∧ final.totalLen.toNat =
        (state.totalLen.toNat + ((batch.filterMap id).map varsizeAnyExhdr).sum) % 2 ^ 32 ∧
      ∀ index, bitOf final.nulls 0 index =
        (bitOf state.nulls 0 index || decide (row ≤ index ∧ batch[index - row]? = some none)) := by
  induction batch generalizing row state with
  | nil =>
    rw [formRows, some.injEq] at formed
    subst formed
    refine ⟨[], (append_nil _).symm, List.Forall₂.nil, ?_, fun index => by simp⟩
    have small := state.totalLen.toNat_lt
    rw [filterMap_nil, map_nil, sum_nil, Nat.add_zero, Nat.mod_eq_of_lt small]
  | cons value rest ih =>
    cases value with
    | none =>
      obtain ⟨texts, numbers, taken, total, nulls⟩ := ih _ _ formed
      refine ⟨texts, numbers, taken, total, fun index => ?_⟩
      rw [nulls index, bitOf_orByte, Bool.or_assoc]
      congr 1
      rw [Bool.eq_iff_iff, Bool.or_eq_true, decide_eq_true_eq, decide_eq_true_eq,
        decide_eq_true_eq, null_cons]
      simp
    | some object =>
      rw [formRows] at formed
      cases digits : numberDigits bpcharType object with
      | none =>
        rw [digits] at formed
        exact absurd formed (by simp)
      | some text =>
        rw [digits] at formed
        obtain ⟨texts, numbers, taken, total, nulls⟩ := ih _ _ formed
        refine ⟨text :: texts, ?_, List.Forall₂.cons digits taken, ?_, fun index => ?_⟩
        · rw [numbers, append_assoc, singleton_append]
        · rw [total, UInt32.toNat_add, UInt32.toNat_ofNat']
          simp only [filterMap_cons, id_eq, map_cons, sum_cons]
          lia
        · rw [nulls index]
          congr 1
          rw [decide_eq_decide, null_cons]
          simp

theorem mapM_strToUint64 (texts : List (List UInt8))
    (good : ∀ text ∈ texts, strToUint64 text = some (UInt64.ofNat (decimalValue text))) :
    texts.mapM strToUint64 = some (texts.map fun text => UInt64.ofNat (decimalValue text)) := by
  induction texts with
  | nil => rfl
  | cons text rest ih =>
    rw [mapM_cons, good text mem_cons_self,
      ih fun other member => good other (mem_cons_of_mem _ member)]
    rfl

end Formed

section Restored

/-- The size of what is written for a text. -/
def entrySize (bpcharType : Bool) (typeMode : Int) (text : List UInt8) : Nat :=
  if bpcharType then typeMode.toNat else text.length + varhdrsz

/-- What is written for a text: its header, its digits and the blanks of a fixed length. -/
def entry (bpcharType : Bool) (typeMode : Int) (text : List UInt8) : List UInt8 :=
  setVarsize (entrySize bpcharType typeMode text) ++
    (text ++ List.replicate (entrySize bpcharType typeMode text - varhdrsz - text.length) 32)

theorem setVarsize_length (size : Nat) : (setVarsize size).length = varhdrsz := leBytes_length 4 _

variable (bpcharType : Bool) (typeMode : Int) (text : List UInt8) (memory : Nat → UInt8)

variable {bpcharType typeMode text}

theorem entrySize_le (fixed : bpcharType = true → text.length + varhdrsz ≤ typeMode.toNat) :
    text.length + varhdrsz ≤ entrySize bpcharType typeMode text := by
  cases bpcharType with
  | false => exact le_rfl
  | true => exact fixed rfl

theorem entry_length (fixed : bpcharType = true → text.length + varhdrsz ≤ typeMode.toNat) :
    (entry bpcharType typeMode text).length = entrySize bpcharType typeMode text := by
  have fits := entrySize_le fixed
  rw [entry, length_append, length_append, setVarsize_length, length_replicate]
  omega

/-- Text and header are written as one entry. -/
theorem entry_written (pos : Nat)
    (fixed : bpcharType = true → text.length + varhdrsz ≤ typeMode.toNat)
    (blank : bpcharType = true → ∀ position, pos ≤ position →
      position < pos + entrySize bpcharType typeMode text → memory position = 32) :
    pread (pwrite (pwrite memory (pos + varhdrsz) text) pos
        (setVarsize (entrySize bpcharType typeMode text))) pos (entrySize bpcharType typeMode text) =
      entry bpcharType typeMode text := by
  have fits := entrySize_le fixed
  have header := setVarsize_length (entrySize bpcharType typeMode text)
  obtain ⟨blanks, size⟩ := Nat.exists_eq_add_of_le fits
  have left : entrySize bpcharType typeMode text - varhdrsz - text.length = blanks := by grind
  have parts : entrySize bpcharType typeMode text = varhdrsz + (text.length + blanks) := by lia
  have front := pread_pwrite (pwrite memory (pos + varhdrsz) text) pos
    (setVarsize (entrySize bpcharType typeMode text))
  rw [header] at front
  have middle : pread (pwrite (pwrite memory (pos + varhdrsz) text) pos
      (setVarsize (entrySize bpcharType typeMode text))) (pos + varhdrsz) text.length = text := by
    rw [pread_pwrite_apart _ (.inr (by rw [header])), pread_pwrite]
  have back : pread (pwrite (pwrite memory (pos + varhdrsz) text) pos
      (setVarsize (entrySize bpcharType typeMode text))) (pos + varhdrsz + text.length) blanks =
        List.replicate blanks 32 := by
    rw [pread_pwrite_apart _ (.inr (by rw [header]; omega)), pread_pwrite_apart _ (.inr le_rfl)]
    apply eq_replicate_iff.mpr
    refine ⟨pread_length _ _ _, fun byte member => ?_⟩
    obtain ⟨index, low, rfl⟩ := mem_map.mp member
    rw [mem_range] at low
    cases bpcharType with
    | false =>
      rw [entrySize, if_neg Bool.false_ne_true] at size
      omega
    | true => exact blank rfl _ (by lia) (by lia)
  rw [entry, left]
  conv_lhs => rw [parts, pread_add, pread_add]
  rw [← parts, front, middle, back]

variable (bpcharType typeMode)

/-- The texts are written one behind the other, and what is before them stays. -/
theorem deformNumbers_spec (tmpSrcBufSize : Nat)
    (texts : List (List UInt8)) (tail : List UInt8) (memory : Nat → UInt8) (pos : Nat)
    (good : ∀ text ∈ texts, uint64ToStr (UInt64.ofNat (decimalValue text)) = text)
    (fixed : ∀ text ∈ texts, bpcharType = true → text.length + varhdrsz ≤ typeMode.toNat)
    (room : pos + (texts.flatMap (entry bpcharType typeMode)).length ≤ tmpSrcBufSize)
    (blank : bpcharType = true → ∀ position, pos ≤ position → position < tmpSrcBufSize →
      memory position = 32) : ∃ written,
      deformNumbers bpcharType typeMode tmpSrcBufSize texts.length
          ((texts.flatMap fun text => leBytes 8 (UInt64.ofNat (decimalValue text)).toNat) ++ tail)
          memory pos = some (written, pos + (texts.flatMap (entry bpcharType typeMode)).length) ∧
      pread written pos (texts.flatMap (entry bpcharType typeMode)).length =
        texts.flatMap (entry bpcharType typeMode) ∧
      ∀ position < pos, written position = memory position := by
  induction texts generalizing memory pos with
  | nil => exact ⟨memory, rfl, rfl, fun _ _ => rfl⟩
  | cons text rest ih =>
    have textGood := good text mem_cons_self
    have textFixed := fixed text mem_cons_self
    have size := entry_length textFixed
    rw [flatMap_cons, length_append] at room
    have number : leNat (((leBytes 8 (UInt64.ofNat (decimalValue text)).toNat) ++
        ((rest.flatMap fun text => leBytes 8 (UInt64.ofNat (decimalValue text)).toNat) ++
          tail)).take 8) = (UInt64.ofNat (decimalValue text)).toNat := by
      rw [take_left' (leBytes_length 8 _), leNat_leBytes _ _ (UInt64.toNat_lt _)]
    let one := pwrite (pwrite memory (pos + varhdrsz) text) pos
      (setVarsize (entrySize bpcharType typeMode text))
    have textFits := entrySize_le textFixed
    have header := setVarsize_length (entrySize bpcharType typeMode text)
    have untouched (position : Nat)
        (apart : position < pos ∨ pos + entrySize bpcharType typeMode text ≤ position) :
        one position = memory position := by
      have first : ¬(pos ≤ position ∧
          position < pos + (setVarsize (entrySize bpcharType typeMode text)).length) := by
        lia
      have second : ¬(pos + varhdrsz ≤ position ∧ position < pos + varhdrsz + text.length) := by
        lia
      change pwrite _ _ _ position = _
      rw [pwrite, if_neg first, pwrite, if_neg second]
    have here : pread one pos (entrySize bpcharType typeMode text) = entry bpcharType typeMode text :=
      entry_written memory pos textFixed
        (fun fixedLength position low high => blank fixedLength position low (by lia))
    obtain ⟨written, result, behind, before⟩ :=
      ih one (pos + entrySize bpcharType typeMode text)
        (fun other member => good other (mem_cons_of_mem _ member))
        (fun other member => fixed other (mem_cons_of_mem _ member))
        (by lia)
        (fun fixedLength position low high => by
          rw [untouched position (.inr low)]
          exact blank fixedLength position (by lia) high)
    refine ⟨written, ?_, ?_, fun position low => ?_⟩
    · rw [flatMap_cons, flatMap_cons, append_assoc, length_cons, deformNumbers,
        number, UInt64.ofNat_toNat, textGood, drop_left' (leBytes_length 8 _)]
      change (if pos + entrySize bpcharType typeMode text ≤ tmpSrcBufSize then
        deformNumbers bpcharType typeMode tmpSrcBufSize rest.length _ one
          (pos + entrySize bpcharType typeMode text) else none) = _
      rw [if_pos (by lia), result, length_append, size, Nat.add_assoc]
    · rw [flatMap_cons, length_append, size, pread_add]
      congr 1
      rw [← here]
      apply pread_congr
      intro position _ high
      exact before position high
    · rw [before position (by lia), untouched position (.inl low)]

theorem pread_parts {start : Nat} {first second : List UInt8}
    (both : pread memory start (first ++ second).length = first ++ second) :
    pread memory start first.length = first ∧
      pread memory (start + first.length) second.length = second := by
  rw [length_append, pread_add] at both
  exact append_inj both (by rw [pread_length])

/-- The values of a unit are read back from its bytes. -/
theorem StringCU.values_spec (cu : StringCU) {batch : List (Option (List UInt8))} (row offset : Nat)
    (nulls : ∀ index, ∀ value ∈ batch[index]?, cu.isNull (row + index) = value.isNone)
    (sized : ∀ object ∈ batch.filterMap id,
      varhdrsz ≤ object.length ∧ Ustore.varsizeAny (object.take varhdrsz) = object.length)
    (bytes : pread cu.srcBuf (cu.bpNullRawSize + offset) (batch.filterMap id).flatten.length =
      (batch.filterMap id).flatten) : cu.values batch.length row offset = batch := by
  induction batch generalizing row offset with
  | nil => rfl
  | cons value rest ih =>
    have later (index : Nat) (value : Option (List UInt8)) (member : value ∈ rest[index]?) :
        cu.isNull (row + 1 + index) = value.isNone := by
      have moved : row + 1 + index = row + (index + 1) := by omega
      rw [moved]
      exact nulls (index + 1) value (by rw [getElem?_cons_succ]; exact member)
    have first : cu.isNull row = value.isNone := nulls 0 value rfl
    rw [length_cons, StringCU.values]
    dsimp only
    rw [first]
    cases value with
    | none =>
      rw [isNone_none, if_pos rfl, ih (row + 1) offset later sized bytes]
    | some object =>
      have objects : (some object :: rest).filterMap id = object :: rest.filterMap id := rfl
      obtain ⟨here, behind⟩ := pread_parts _ bytes
      obtain ⟨long, size⟩ := sized object (by rw [objects]; exact mem_cons_self)
      have head : pread cu.srcBuf (cu.bpNullRawSize + offset) varhdrsz = object.take varhdrsz := by
        obtain ⟨more, split⟩ := Nat.exists_eq_add_of_le long
        rw [← here]
        conv_rhs => rw [split, pread_add, take_left' (pread_length _ _ _)]
      rw [head, size, here]
      rw [Nat.add_assoc] at behind
      rw [ih (row + 1) (offset + object.length) later
        (fun other member => sized other (by rw [objects]; exact mem_cons_of_mem _ member))
        behind]
      rfl

/-- The long header has the size. -/
theorem withLongHeader_sized {object : List UInt8} (string : InlineString object) :
    varhdrsz ≤ (withLongHeader object).length ∧
      Ustore.varsizeAny ((withLongHeader object).take varhdrsz) = (withLongHeader object).length := by
  have header := setVarsize_length (varsizeAnyExhdr object + varhdrsz)
  have below := string.size_lt object
  have length : (withLongHeader object).length = varhdrsz + varsizeAnyExhdr object := by
    rw [withLongHeader, length_append, header, string.characters_length]
  have first : (vaHeader (setVarsize (varsizeAnyExhdr object + varhdrsz))).toNat % 4 = 0 := by
    have byte : vaHeader (setVarsize (varsizeAnyExhdr object + varhdrsz)) =
        UInt8.ofNat (4 * (varsizeAnyExhdr object + varhdrsz)) := rfl
    rw [byte, UInt8.toNat_ofNat']
    lia
  have notExternal : varattIsExternal (setVarsize (varsizeAnyExhdr object + varhdrsz)) = false := by
    apply beq_eq_false_iff_ne.mpr
    intro one
    rw [one] at first
    exact absurd first (by decide)
  have notShort : Ustore.varattIsShort (setVarsize (varsizeAnyExhdr object + varhdrsz)) = false := by
    exact beq_eq_false_iff_ne.mpr (by omega)
  have whole : (setVarsize (varsizeAnyExhdr object + varhdrsz)).take 4 =
      setVarsize (varsizeAnyExhdr object + varhdrsz) := take_of_length_le (Nat.le_of_eq header)
  refine ⟨by omega, ?_⟩
  rw [length, withLongHeader, take_left' header, Ustore.varsizeAny, notExternal, notShort,
    varsize, whole, setVarsize,
    leNat_leBytes _ _ (by lia)]
  lia

/-- The entry of a text is the string it was taken from. -/
theorem entry_eq {object text : List UInt8}
    (string : InlineString object) (accepted : numberDigits bpcharType object = some text)
    (padded : bpcharType = true → typeMode = varsizeAnyExhdr object + varhdrsz) :
    entry bpcharType typeMode text = withLongHeader object ∧
      (bpcharType = true → text.length + varhdrsz ≤ typeMode.toNat) := by
  obtain ⟨-, -, -, blanks, split, varying⟩ := numberDigits_spec bpcharType string accepted
  have length := string.characters_length object
  rw [split, length_append, length_replicate] at length
  have size : entrySize bpcharType typeMode text = varsizeAnyExhdr object + varhdrsz := by
    rw [entrySize]
    cases bpcharType with
    | false =>
      lia
    | true =>
      rw [if_pos rfl, padded rfl]
      omega
  have left : varsizeAnyExhdr object + varhdrsz - varhdrsz - text.length = blanks := by omega
  refine ⟨?_, fun fixed => ?_⟩
  · rw [entry, size, left, withLongHeader, split]
  · lia

/-- The strings of a batch. -/
def stringsOf (batch : List (Option (List UInt8))) : List (List UInt8) := batch.filterMap id

/-- The bytes of strings with headers of four bytes. -/
def longSizes (objects : List (List UInt8)) : Nat :=
  (objects.map fun object => varsizeAnyExhdr object + varhdrsz).sum

theorem longSizes_eq (objects : List (List UInt8)) :
    longSizes objects = (objects.map varsizeAnyExhdr).sum + objects.length * varhdrsz := by
  induction objects with
  | nil => rfl
  | cons object rest ih =>
    rw [longSizes] at ih ⊢
    rw [map_cons, sum_cons, map_cons, sum_cons, length_cons]
    lia

variable {bpcharType}

/-- All entries are the strings, and their numbers fit. -/
theorem entries_eq {objects texts : List (List UInt8)}
    (strings : ∀ object ∈ objects, InlineString object)
    (padded : bpcharType = true → ∀ object ∈ objects, typeMode = varsizeAnyExhdr object + varhdrsz)
    (taken : List.Forall₂ (fun object text => numberDigits bpcharType object = some text)
      objects texts) : texts.flatMap (entry bpcharType typeMode) = objects.flatMap withLongHeader ∧
      (texts.flatMap (entry bpcharType typeMode)).length = longSizes objects ∧
      ∀ text ∈ texts, strToUint64 text = some (UInt64.ofNat (decimalValue text)) ∧
        uint64ToStr (UInt64.ofNat (decimalValue text)) = text ∧
        (bpcharType = true → text.length + varhdrsz ≤ typeMode.toNat) := by
  induction taken with
  | nil => exact ⟨rfl, rfl, fun text member => absurd member (by simp)⟩
  | @cons object text objects texts accepted _ ih =>
    have string := strings object mem_cons_self
    obtain ⟨same, size, good⟩ := ih
      (fun other member => strings other (mem_cons_of_mem _ member))
      (fun fixed other member => padded fixed other (mem_cons_of_mem _ member))
    obtain ⟨here, fixed⟩ := entry_eq bpcharType typeMode string accepted
      (fun fixedLength => padded fixedLength object mem_cons_self)
    obtain ⟨decimal, digit, short, -⟩ := numberDigits_spec bpcharType string accepted
    obtain ⟨converted, small⟩ := strToUint64_decimal text decimal digit short
    have written := uint64ToStr_decimal text decimal short small
    refine ⟨?_, ?_, ?_⟩
    · rw [flatMap_cons, flatMap_cons, here, same]
    · rw [flatMap_cons, length_append, size, here, withLongHeader, length_append,
        setVarsize_length, string.characters_length, longSizes, longSizes, map_cons,
        sum_cons, Nat.add_comm varhdrsz]
    · intro other member
      obtain same | later := mem_cons.mp member
      · rw [same]
        exact ⟨converted, written, fixed⟩
      · exact good other later

/-- The unit ends with the number and the size of its texts. -/
theorem srcData_parts {texts : List (List UInt8)} {total : Nat} (few : texts.length + 1 < 2 ^ 32)
    (small : total < 2 ^ 32) {data : List UInt8} (formed : data = leBytes 8 texts.length ++
      ((texts.flatMap fun text => leBytes 8 (UInt64.ofNat (decimalValue text)).toNat) ++
        leBytes 8 total)) : leNat (slice data 0 8) % 2 ^ 32 = texts.length ∧
      leNat (slice data (8 * ((texts.length + 1) % 2 ^ 32)) 8) % 2 ^ 32 = total := by
  have integers : (texts.flatMap fun text =>
      leBytes 8 (UInt64.ofNat (decimalValue text)).toNat).length = 8 * texts.length := by
    clear formed few
    induction texts with
    | nil => rfl
    | cons text rest ih =>
      rw [flatMap_cons, length_append, leBytes_length, length_cons]
      lia
  subst formed
  constructor
  · rw [slice, drop_zero, take_left' (leBytes_length 8 _), leNat_leBytes _ _ (by omega),
      Nat.mod_eq_of_lt (by omega)]
  · have front : (leBytes 8 texts.length ++ (texts.flatMap fun text =>
        leBytes 8 (UInt64.ofNat (decimalValue text)).toNat)).length = 8 * (texts.length + 1) := by
      rw [length_append, leBytes_length]
      lia
    rw [Nat.mod_eq_of_lt few, slice, ← append_assoc, drop_left' front,
      take_of_length_le (Nat.le_of_eq (leBytes_length 8 _)), leNat_leBytes _ _ (by omega),
      Nat.mod_eq_of_lt small]

/-- A unit that is formed has the numbers of all strings. -/
theorem formNumberStringCU_spec {batch : List (Option (List UInt8))} {cu : NumberCU}
    (strings : ∀ object ∈ stringsOf batch, InlineString object)
    (padded : bpcharType = true → ∀ object ∈ stringsOf batch,
      typeMode = varsizeAnyExhdr object + varhdrsz) (fits : longSizes (stringsOf batch) < 2 ^ 32)
    (formed : formNumberStringCU bpcharType batch = some cu) :
    ∃ texts : List (List UInt8), texts.length = (stringsOf batch).length ∧
      cu.srcData = leBytes 8 texts.length ++
        ((texts.flatMap fun text => leBytes 8 (UInt64.ofNat (decimalValue text)).toNat) ++
          leBytes 8 ((stringsOf batch).map varsizeAnyExhdr).sum) ∧
      cu.bpNullRawSize = (if batch.any Option.isNone then bitmapSize batch.length else 0) ∧
      (∀ index, bitOf cu.nulls 0 index = decide (batch[index]? = some none)) ∧
      texts.flatMap (entry bpcharType typeMode) = (stringsOf batch).flatMap withLongHeader ∧
      (texts.flatMap (entry bpcharType typeMode)).length = longSizes (stringsOf batch) ∧
      ∀ text ∈ texts, uint64ToStr (UInt64.ofNat (decimalValue text)) = text ∧
        (bpcharType = true → text.length + varhdrsz ≤ typeMode.toNat) := by
  obtain ⟨state, rows, rest⟩ := Option.bind_eq_some_iff.mp formed
  obtain ⟨values, converted, same⟩ := Option.bind_eq_some_iff.mp rest
  obtain ⟨texts, numbers, taken, total, nulls⟩ := formRows_spec bpcharType 0 batch _ state rows
  obtain ⟨entries, size, good⟩ := entries_eq typeMode strings padded taken
  rw [nil_append] at numbers
  rw [numbers, mapM_strToUint64 texts fun text member => (good text member).1,
    some.injEq] at converted
  rw [longSizes_eq] at fits
  have whole : state.totalLen.toNat = ((stringsOf batch).map varsizeAnyExhdr).sum := by
    rw [total]
    change (0 + _) % 2 ^ 32 = _
    rw [Nat.zero_add]
    exact Nat.mod_eq_of_lt (Nat.lt_of_le_of_lt (Nat.le_add_right _ _) fits)
  rw [some.injEq] at same
  subst same
  refine ⟨texts, taken.length_eq.symm, ?_, rfl, fun index => ?_, entries, size,
    fun text member => (good text member).2⟩
  · rw [numbers, ← converted, whole, append_assoc, flatMap_map]
  · rw [nulls index]
    simp [bitOf]

/-- A unit formed from strings is deformed into the strings with long headers. -/
theorem deFormNumberStringCU_spec (fresh : Nat → UInt8) {typeMode : Int}
    {batch : List (Option (List UInt8))} {cu : NumberCU}
    (strings : ∀ object ∈ stringsOf batch, InlineString object)
    (padded : bpcharType = true → ∀ object ∈ stringsOf batch,
      typeMode = varsizeAnyExhdr object + varhdrsz)
    (fits : bitmapSize batch.length + longSizes (stringsOf batch) < 2 ^ 32)
    (formed : formNumberStringCU bpcharType batch = some cu) :
    ∃ restored, deFormNumberStringCU bpcharType fresh typeMode cu = some restored ∧
      restored.srcDataSize = longSizes (stringsOf batch) ∧
      restored.values batch.length 0 0 = batch.map (Option.map withLongHeader) := by
  obtain ⟨texts, count, data, bitmap, nulls, entries, size, good⟩ :=
    formNumberStringCU_spec typeMode strings padded (by omega) formed
  have sizes := longSizes_eq (stringsOf batch)
  rw [varhdrsz] at sizes
  obtain ⟨counted, total⟩ := srcData_parts (by lia) (by lia) data
  have bufSize : (((stringsOf batch).map varsizeAnyExhdr).sum + texts.length * varhdrsz +
      cu.bpNullRawSize) % 2 ^ 32 = longSizes (stringsOf batch) + cu.bpNullRawSize := by
    rw [varhdrsz, count, ← sizes]
    exact Nat.mod_eq_of_lt (by lia)
  let blanked :=
    if bpcharType then
      pwrite fresh 0 (List.replicate (longSizes (stringsOf batch) + cu.bpNullRawSize) 32)
    else fresh
  let started := pwrite (pwrite blanked (longSizes (stringsOf batch) + cu.bpNullRawSize) [0]) 0
    (pread cu.nulls 0 cu.bpNullRawSize)
  have blank (fixed : bpcharType = true) (position : Nat) (low : cu.bpNullRawSize ≤ position)
      (high : position < longSizes (stringsOf batch) + cu.bpNullRawSize) : started position = 32 := by
    subst fixed
    change pwrite _ _ _ position = 32
    rw [pwrite_apart _ (.inr (by rw [pread_length]; lia)), pwrite_apart _ (.inl high)]
    change pwrite _ _ _ position = 32
    rw [pwrite, if_pos ⟨Nat.zero_le _, by rw [length_replicate]; lia⟩,
      getD_eq_getElem _ _ (by rw [length_replicate]; omega), getElem_replicate]
  obtain ⟨written, result, behind, before⟩ := deformNumbers_spec bpcharType typeMode
    (longSizes (stringsOf batch) + cu.bpNullRawSize) texts
    (leBytes 8 ((stringsOf batch).map varsizeAnyExhdr).sum) started cu.bpNullRawSize
    (fun text member => (good text member).1) (fun text member => (good text member).2)
    (by lia) blank
  rw [size] at result behind
  let restored : StringCU :=
    { srcBuf := written
      srcBufSize := longSizes (stringsOf batch) + cu.bpNullRawSize + 1
      bpNullRawSize := cu.bpNullRawSize
      srcDataSize := cu.bpNullRawSize + longSizes (stringsOf batch) - cu.bpNullRawSize }
  have deformed : deFormNumberStringCU bpcharType fresh typeMode cu = some restored := by
    have skipped : cu.srcData.drop 8 = (texts.flatMap fun text =>
        leBytes 8 (UInt64.ofNat (decimalValue text)).toNat) ++
          leBytes 8 ((stringsOf batch).map varsizeAnyExhdr).sum := by
      rw [data, drop_left' (leBytes_length 8 _)]
    rw [deFormNumberStringCU, counted, total, bufSize, skipped]
    rw [result]
  refine ⟨restored, deformed, Nat.add_sub_cancel_left _ _, ?_⟩
  have marked (index : Nat) (value : Option (List UInt8))
      (member : value ∈ (batch.map (Option.map withLongHeader))[index]?) :
      restored.isNull (0 + index) = value.isNone := by
    rw [getElem?_map] at member
    obtain ⟨stored, found, same⟩ := Option.map_eq_some_iff.mp member
    have inside := (List.getElem?_eq_some_iff.mp found).1
    have isNone : value.isNone = stored.isNone := by
      rw [← same]
      cases stored <;> rfl
    rw [Nat.zero_add, isNone]
    change (decide (cu.bpNullRawSize ≠ 0) && bitOf written 0 index) = stored.isNone
    by_cases any : batch.any Option.isNone = true
    · rw [bitmapSize] at bitmap
      have agree : written (0 + index / 8) = cu.nulls (0 + index / 8) := by
        rw [Nat.zero_add, before (index / 8) (by lia)]
        change pwrite _ _ _ (index / 8) = _
        rw [pwrite_pread _ _ _ _ _ _ (Nat.zero_le _) (by lia)]
        lia
      rw [bitOf_congr agree, nulls index, found, decide_eq_true (by lia)]
      cases stored <;> simp
    · have present : stored.isNone = false := by
        rw [Bool.eq_false_iff]
        intro isNull
        exact any (any_eq_true.mpr ⟨stored, mem_of_getElem? found, isNull⟩)
      rw [if_neg any] at bitmap
      rw [present, bitmap]
      rfl
  have long : (batch.map (Option.map withLongHeader)).filterMap id =
      (stringsOf batch).map withLongHeader := by
    rw [filterMap_map, stringsOf, map_filterMap]
    congr 1
  have read := restored.values_spec 0 0 marked (by
      rw [long]
      intro object member
      obtain ⟨original, inBatch, rfl⟩ := mem_map.mp member
      exact withLongHeader_sized (strings original inBatch))
    (by
      rw [long, ← flatMap_def, ← entries, size]
      exact behind)
  rw [length_map] at read
  exact read

end Restored

section RoundTrip

/-- An empty string is not formed. -/
theorem formNumberStringCU_filled {bpcharType : Bool} {batch : List (Option (List UInt8))}
    {cu : NumberCU} (formed : formNumberStringCU bpcharType batch = some cu) :
    ∀ object ∈ stringsOf batch, varsizeAnyExhdr object ≠ 0 := by
  obtain ⟨state, rows, -⟩ := Option.bind_eq_some_iff.mp formed
  obtain ⟨texts, -, taken, -, -⟩ := formRows_spec bpcharType 0 batch _ state rows
  rw [stringsOf]
  generalize batch.filterMap id = objects at taken ⊢
  induction taken with
  | nil => simp
  | @cons object text objects texts accepted _ ih =>
    intro other member
    obtain same | later := mem_cons.mp member
    · intro empty
      rw [← same, numberDigits, if_pos empty] at accepted
      exact absurd accepted (by simp)
    · exact ih other later

theorem formRows_nulls (row : Nat) (batch : List (Option (List UInt8))) (state : FormState)
    (bare : stringsOf batch = []) :
    formRows true row batch state = formRows false row batch state := by
  induction batch generalizing row state with
  | nil => rfl
  | cons value rest ih =>
    cases value with
    | none => exact ih (row + 1) _ bare
    | some object => exact absurd bare (cons_ne_nil object (stringsOf rest))

/-- A batch that the insert path stores as integers comes back with every null, and with every string
behind a header of four bytes: the string itself where that is its header. -/
theorem number_string_round_trip (compress : Bool) (atttypid : Nat) (atttypmod : Int)
    (fresh : Nat → UInt8) (batch : List (Option (List UInt8))) (cu : NumberCU)
    (strings : ∀ object ∈ stringsOf batch, InlineString object)
    (padded : atttypid = bpcharOid → atttypmod ≠ -1 → ∀ object ∈ stringsOf batch,
      atttypmod = varsizeAnyExhdr object + varhdrsz)
    (fits : bitmapSize batch.length + longSizes (stringsOf batch) < 2 ^ 32)
    (accepted : tryFormNumberStringCU compress atttypid atttypmod batch = some cu) :
    ∃ restored, deFormStrings fresh atttypid atttypmod cu = some restored ∧
      restored.srcDataSize = longSizes (stringsOf batch) ∧
      restored.values batch.length 0 0 = batch.map (Option.map withLongHeader) ∧
      ∀ object ∈ stringsOf batch, varattIs4BU object = true → withLongHeader object = object := by
  have same (object : List UInt8) (member : object ∈ stringsOf batch)
      (long : varattIs4BU object = true) : withLongHeader object = object :=
    withLongHeader_same object (strings object member) long
  have finish (bpcharType : Bool) (fixed : bpcharType = true → ∀ object ∈ stringsOf batch,
        atttypmod = varsizeAnyExhdr object + varhdrsz)
      (formed : formNumberStringCU bpcharType batch = some cu)
      (chosen : deFormStrings fresh atttypid atttypmod cu =
        deFormNumberStringCU bpcharType fresh atttypmod cu) :
      ∃ restored, deFormStrings fresh atttypid atttypmod cu = some restored ∧
        restored.srcDataSize = longSizes (stringsOf batch) ∧
        restored.values batch.length 0 0 = batch.map (Option.map withLongHeader) ∧
        ∀ object ∈ stringsOf batch, varattIs4BU object = true → withLongHeader object = object := by
    obtain ⟨restored, deformed, size, values⟩ := deFormNumberStringCU_spec fresh
       strings fixed fits formed
    exact ⟨restored, chosen.trans deformed, size, values, same⟩
  rw [tryFormNumberStringCU] at accepted
  cases compress with
  | false => exact absurd accepted (by simp)
  | true =>
    by_cases bpchar : atttypid = bpcharOid
    · rw [if_pos bpchar] at accepted
      by_cases unknown : atttypmod = -1
      · rw [if_pos unknown] at accepted
        exact absurd accepted (by simp)
      · rw [if_neg unknown] at accepted
        by_cases positive : (varhdrsz : Int) < atttypmod
        · exact finish true (fun _ => padded bpchar unknown) accepted
            (by rw [deFormStrings, if_pos ⟨bpchar, positive⟩])
        · -- no string has this length, so the two kinds of strings do not differ
          have bare : stringsOf batch = [] := by
            apply eq_nil_iff_forall_not_mem.mpr
            intro object member
            have length := padded bpchar unknown object member
            have filled := formNumberStringCU_filled accepted object member
            omega
          rw [formNumberStringCU, formRows_nulls 0 batch _ bare] at accepted
          exact finish false (fun no => Bool.noConfusion no) accepted
            (by rw [deFormStrings, if_neg fun both => positive both.2])
    · rw [if_neg bpchar] at accepted
      exact finish false (fun no => Bool.noConfusion no) accepted
        (by rw [deFormStrings, if_neg fun both => bpchar both.1])

/-- A batch of a column of fixed length three: the strings 7, a null and 12, each with its blanks. -/
def paddedBatch : List (Option (List UInt8)) :=
  [some [28, 0, 0, 0, 55, 32, 32], none, some [28, 0, 0, 0, 49, 50, 32]]

/-- The strings with their blanks come back. -/
theorem number_string_round_trip_padded : ∃ cu restored,
    tryFormNumberStringCU true bpcharOid 7 paddedBatch = some cu ∧
      deFormStrings (fun _ => 0) bpcharOid 7 cu = some restored ∧
      restored.values 3 0 0 = paddedBatch := by
  have strings : ∀ object ∈ stringsOf paddedBatch, InlineString object := by
    intro object member
    obtain rfl | rfl : object = [28, 0, 0, 0, 55, 32, 32] ∨ object = [28, 0, 0, 0, 49, 50, 32] := by
      simpa [stringsOf, paddedBatch] using member
    · exact ⟨⟨by decide, by decide, by decide⟩, by decide, .inr (by decide)⟩
    · exact ⟨⟨by decide, by decide, by decide⟩, by decide, .inr (by decide)⟩
  cases formed : tryFormNumberStringCU true bpcharOid 7 paddedBatch with
  | none => exact absurd formed (by decide)
  | some cu =>
    obtain ⟨restored, deformed, -, values, -⟩ := number_string_round_trip true bpcharOid 7
      (fun _ => 0) paddedBatch cu strings (fun _ _ => by decide) (by decide) formed
    refine ⟨cu, restored, rfl, deformed, ?_⟩
    exact values.trans (by decide)

/-- The string 7 behind a header of one byte comes back behind another header, and strings of a
column whose length counts characters are not written inside the memory. -/
theorem number_string_round_trip_short :
    ((tryFormNumberStringCU true 1043 (-1) [some [5, 55]]).bind fun cu =>
        (deFormStrings (fun _ => 0) 1043 (-1) cu).map fun restored => restored.values 1 0 0) =
      some [some [20, 0, 0, 0, 55]] ∧
    ((tryFormNumberStringCU true bpcharOid (0x40000000 + 3 + 4) paddedBatch).map fun cu =>
        (deFormStrings (fun _ => 0) bpcharOid (0x40000000 + 3 + 4) cu).isNone) = some true := by
  decide

end RoundTrip

end OpenGauss.CStore
