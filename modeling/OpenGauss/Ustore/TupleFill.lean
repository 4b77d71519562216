import OpenGauss.Ustore.TupleForm

/-!
# How the data of a tuple is laid out

For every attribute the bytes it takes and the place where they start are stated once: the value
itself or its short form, aligned or not, and the space that is reserved for a null. The size that
is computed and the data that is written both follow this description. Every step of the loop that
writes lays out one column and leaves alone what the steps before wrote.
-/
namespace OpenGauss.Ustore

open Option List OpenGauss.Base

section Placement

/-- What stands in a column. -/
inductive Column.Kind (column : Column) : Prop where
  | null (absent : column.value = none)
  | word (value : Nat) (present : column.value = some (.word value))
      (byval : column.attr.attbyval = true)
  | fixed (object : List UInt8) (present : column.value = some (.pointer object))
      (byref : column.attr.attbyval = false) (positive : 0 < column.attr.attlen)
      (sized : (object.length : Int) = column.attr.attlen)
  | varlena (object : List UInt8) (present : column.value = some (.pointer object))
      (byref : column.attr.attbyval = false) (varying : column.attr.attlen = -1)
      (complete : VarlenaComplete object)
  | string (object : List UInt8) (present : column.value = some (.pointer object))
      (byref : column.attr.attbyval = false) (varying : column.attr.attlen = -2)
      (packed : column.attr.attalign = .char) (complete : strlen object + 1 = object.length)

variable (object : List UInt8) (column : Column) (position : Nat) (align : AttAlign)

theorem Column.kind : column.Kind := by
  have typed := column.typed
  cases value : column.value with
  | none => exact .null value
  | some datum =>
    have admitted := typed datum value
    cases datum with
    | word word => exact .word word value admitted
    | pointer object =>
      obtain ⟨byref, fixed, varlena, string⟩ := admitted
      rcases column.attr.object byref with positive | varying | ⟨varying, packed⟩
      · exact .fixed object value byref positive (fixed positive)
      · exact .varlena object value byref varying (varlena varying)
      · exact .string object value byref varying packed (string varying)

/-- The value gets a short header. -/
def Column.shortens (column : Column) : Bool :=
  decide (column.attr.attlen = -1 ∧ column.attr.attstorage ≠ .plain ∧
    varattCanMakeShort column.object)

/-- The bytes that are stored for a column. -/
def Column.stored (column : Column) : List UInt8 :=
  if column.isNull then []
  else if column.attr.attbyval then leBytes column.attr.attlen.toNat column.word
  else if column.shortens then
    UInt8.ofNat (varattConvertedShortSize column.object * 2 + 1) :: column.object.drop varhdrsz
  else column.object

/-- Where the bytes of a column start when there is room from a position on. -/
def Column.start (column : Column) (position : Nat) : Nat :=
  if column.isNull || column.attr.attbyval then position
  else if column.attr.attlen = -1 ∧ (varattIsShort column.object || column.shortens) then position
  else attAlignNominal position column.attr.attalign

/-- The space that is reserved for a null. -/
def Column.reserved (column : Column) (enableReserve : Bool) : Nat :=
  if column.isNull && column.isReserved enableReserve then column.attr.attlen.toNat else 0

/-- Where a column ends. -/
def Column.finish (enableReserve : Bool) (position : Nat) (column : Column) : Nat :=
  column.start position + column.stored.length + column.reserved enableReserve

/-- Alignment adds at most seven bytes. -/
theorem attAlignNominal_bounds :
    position ≤ attAlignNominal position align ∧ attAlignNominal position align ≤ position + 7 := by
  cases align <;> simp only [attAlignNominal] <;> omega

/-- Alignment of a 32-bit position. -/
theorem attAlignNominal_mod (length : Nat) :
    (attAlignNominal (position % 2 ^ 32) align + length) % 2 ^ 32 =
      (attAlignNominal position align + length) % 2 ^ 32 := by
  cases align <;> simp only [attAlignNominal] <;> lia

theorem Column.isNull_of_absent (absent : column.value = none) : column.isNull = true := by
  rw [Column.isNull, absent]
  rfl

variable {object}

theorem Column.object_of_pointer (here : column.value = some (.pointer object)) :
    column.object = object := by
  rw [Column.object, here]

theorem Column.shortens_of_attlen (unlike : column.attr.attlen ≠ -1) : column.shortens = false := by
  simp [Column.shortens, unlike]

/-- What is not shortened is stored whole. -/
theorem Column.stored_whole (here : column.value = some (.pointer object))
    (byref : column.attr.attbyval = false) (keeps : column.shortens = false) :
    column.stored = object := by
  simp [Column.stored, Column.isNull, Column.object, here, byref, keeps]

/-- A null is stored as no byte. -/
theorem Column.null_place (isNull : column.isNull = true) :
    column.start position = position ∧ column.stored = [] := by
  simp [Column.start, Column.stored, isNull]

/-- Space is reserved for values passed by value only. -/
theorem Column.isReserved_spec {enableReserve : Bool}
    (reserved : column.isReserved enableReserve = true) :
    enableReserve = true ∧ column.attr.attbyval = true := by
  simp only [Column.isReserved, Bool.not_or, Bool.not_not, Bool.and_eq_true] at reserved
  exact reserved.1

theorem Column.reserved_of_present {enableReserve : Bool} (present : column.isNull = false) :
    column.reserved enableReserve = 0 := by
  simp [Column.reserved, present]

/-- A column starts at most seven bytes behind the one before. -/
theorem Column.start_bounds :
    position ≤ column.start position ∧ column.start position ≤ position + 7 := by
  unfold Column.start
  split_ifs
  · omega
  · omega
  · exact attAlignNominal_bounds _ _

theorem Column.le_finish (enableReserve : Bool) (position : Nat) :
    position ≤ column.finish enableReserve position := by
  have bounds := column.start_bounds position
  unfold Column.finish
  lia

variable (object)

theorem varattIsShort_of_external (external : varattIsExternal object = true) :
    varattIsShort object = true := by
  rw [varattIsExternal, beq_iff_eq] at external
  rw [varattIsShort, external]
  rfl

theorem varattIsShort_of_4BU (long : varattIs4BU object = true) : varattIsShort object = false := by
  rw [varattIs4BU, beq_iff_eq] at long
  rw [varattIsShort, beq_eq_false_iff_ne]
  omega

theorem varsizeAny_long (long : varattIsShort object = false) :
    varsizeAny object = varsize object := by
  have internal : varattIsExternal object = false := by
    by_contra external
    rw [varattIsShort_of_external object (by simpa using external)] at long
    exact absurd long (by decide)
  rw [varsizeAny, internal, long]
  rfl

/-- What is shortened is a varlena with a four byte header. -/
theorem Column.shortens_spec (shortens : column.shortens = true) :
    column.attr.attlen = -1 ∧ column.attr.attstorage ≠ .plain ∧
      varattIs4BU column.object = true ∧ varattConvertedShortSize column.object ≤ 0x7F := by
  rw [Column.shortens, decide_eq_true_iff] at shortens
  obtain ⟨varying, storage, short⟩ := shortens
  rw [varattCanMakeShort, Bool.and_eq_true, decide_eq_true_iff] at short
  exact ⟨varying, storage, short.1, short.2⟩

theorem Column.shortens_of_short (here : column.value = some (.pointer object))
    (short : varattIsShort object = true) : column.shortens = false := by
  by_contra shortens
  obtain ⟨_, _, long, _⟩ := column.shortens_spec (by simpa using shortens)
  rw [column.object_of_pointer here] at long
  rw [varattIsShort_of_4BU object long] at short
  exact absurd short (by decide)

theorem VarlenaComplete.length_long {object : List UInt8} (complete : VarlenaComplete object)
    (long : varattIsShort object = false) : varsize object = object.length ∧ 4 ≤ object.length := by
  have sized := complete.sized
  rw [varsizeAny_long object long] at sized
  exact ⟨sized, complete.long long⟩

/-- A shortened value is as long as its short form. -/
theorem Column.stored_length_short (present : column.isNull = false)
    (byref : column.attr.attbyval = false) (shortens : column.shortens = true)
    (complete : VarlenaComplete column.object) :
    column.stored.length = varattConvertedShortSize column.object := by
  obtain ⟨_, _, long, _⟩ := column.shortens_spec shortens
  have sized := complete.length_long (varattIsShort_of_4BU _ long)
  rw [Column.stored, if_neg (by simp [present]), if_neg (by simp [byref]), if_pos shortens,
    varattConvertedShortSize, sized.1, length_cons, length_drop, varhdrszShort]

end Placement

section Size

variable (enableReserve : Bool) (position : Nat) (columns : List Column)

/-- The size calculation finds the end of a column. -/
theorem calcAttr_finish (column : Column) : calcAttr enableReserve (position % 2 ^ 32) column =
      column.finish enableReserve position % 2 ^ 32 := by
  cases column.kind with
  | null absent =>
    have isNull := column.isNull_of_absent absent
    cases reserved : column.isReserved enableReserve with
    | false =>
      simp [calcAttr, Column.finish, Column.start, Column.stored, Column.reserved, isNull, reserved]
    | true =>
      have byval := (column.isReserved_spec reserved).2
      simp [calcAttr, Column.finish, Column.start, Column.stored, Column.reserved, isNull, reserved,
        byval]
  | word value present byval =>
    have isNull : column.isNull = false := by rw [Column.isNull, present]; rfl
    simp [calcAttr, Column.finish, Column.start, Column.stored, Column.reserved, isNull, byval]
  | fixed object present byref positive sized =>
    have isNull : column.isNull = false := by rw [Column.isNull, present]; rfl
    have here := column.object_of_pointer present
    have unlike : column.attr.attlen ≠ -1 := by omega
    have short := column.shortens_of_attlen unlike
    have length : column.attr.attlen.toNat = object.length := by lia
    simp [calcAttr, Column.finish, Column.start, Column.stored, Column.reserved, isNull, byref,
      unlike, short, here, attAlignDatum, attAddlength, positive, length]
    exact attAlignNominal_mod _ _ _
  | varlena object present byref varying complete =>
    have isNull : column.isNull = false := by rw [Column.isNull, present]; rfl
    have here := column.object_of_pointer present
    cases shortens : column.shortens with
    | true =>
      have length := column.stored_length_short isNull byref shortens (by rw [here]; exact complete)
      have condition := shortens
      rw [Column.shortens, decide_eq_true_iff] at condition
      rw [calcAttr,
        if_pos condition, Column.finish, length]
      simp [Column.start, Column.reserved, isNull, byref, varying, shortens]
    | false =>
      have condition := shortens
      rw [Column.shortens, decide_eq_false_iff_not] at condition
      have stored := column.stored_whole present byref shortens
      rw [calcAttr,
        if_neg condition, Column.finish, stored, attAddlength,
        here, complete.sized]
      cases short : varattIsShort object with
      | true =>
        simp [attAlignDatum, Column.start, Column.reserved, isNull, byref, varying, here, short]
      | false =>
        have small : varattIsHugeToastPointer object = false := by
          cases external : varattIsExternal object with
          | true => rw [varattIsShort_of_external object external] at short; simp at short
          | false => simp [varattIsHugeToastPointer, external]
        simp [attAlignDatum, Column.start, Column.reserved, isNull, byref, varying, here, short,
          shortens, small]
        exact attAlignNominal_mod _ _ _
  | string object present byref varying packed complete =>
    have isNull : column.isNull = false := by rw [Column.isNull, present]; rfl
    have here := column.object_of_pointer present
    have unlike : column.attr.attlen ≠ -1 := by omega
    have short := column.shortens_of_attlen unlike
    simp [calcAttr, Column.finish, Column.start, Column.stored, Column.reserved, isNull, byref,
      short, here, attAlignDatum, attAddlength, varying, complete]
    exact attAlignNominal_mod _ _ _

/-- The end of the data that starts at a position. -/
def columnsEnd (enableReserve : Bool) (position : Nat) (columns : List Column) : Nat :=
  columns.foldl (Column.finish enableReserve) position

theorem le_columnsEnd : position ≤ columnsEnd enableReserve position columns := by
  induction columns generalizing position with
  | nil => exact le_rfl
  | cons column rest ih =>
    exact le_trans (column.le_finish enableReserve position) (ih _)

/-- The size calculation finds the end of all columns. -/
theorem foldl_calcAttr : columns.foldl (calcAttr enableReserve) (position % 2 ^ 32) =
      columnsEnd enableReserve position columns % 2 ^ 32 := by
  induction columns generalizing position with
  | nil => rfl
  | cons column rest ih =>
    rw [foldl_cons, calcAttr_finish, ih, columnsEnd, columnsEnd, foldl_cons]

/-- The data size is the distance to the end of the columns. -/
theorem uheapCalcTupleDataSize_eq (hoff : Nat) (enableReserve : Bool) (small : hoff < 2 ^ 32) :
    uheapCalcTupleDataSize columns hoff enableReserve =
      (columnsEnd enableReserve hoff columns - hoff) % 2 ^ 32 := by
  have after := le_columnsEnd enableReserve hoff columns
  have folded := foldl_calcAttr enableReserve hoff columns
  rw [Nat.mod_eq_of_lt small] at folded
  rw [uheapCalcTupleDataSize]
  lia

end Size

section Fill

/-- Only flags of a tuple were set. -/
structure Flagged (before after : Nat → UInt8) : Prop where
  apart : ∀ position, position ≠ 6 → position ≠ 7 → after position = before position
  kept : ∀ bit, (tupleFlag before 0).testBit bit = true → (tupleFlag after 0).testBit bit = true
  nulls : (tupleFlag after 0).testBit 0 = (tupleFlag before 0).testBit 0

variable (memory : Nat → UInt8) (mask : Nat)

theorem Flagged.refl : Flagged memory memory :=
  ⟨fun _ _ _ => rfl, fun _ set => set, rfl⟩

theorem Flagged.trans {first second third : Nat → UInt8} (before : Flagged first second)
    (after : Flagged second third) : Flagged first third where
  apart position low high := (after.apart position low high).trans (before.apart position low high)
  kept bit set := after.kept bit (before.kept bit set)
  nulls := after.nulls.trans before.nulls

/-- A flag is set in the flags. -/
theorem tupleFlag_orTupleFlag :
    tupleFlag (orTupleFlag memory mask) 0 = (tupleFlag memory 0 ||| mask) % 2 ^ 16 := by
  have image := pread_pwrite memory (0 + 6) (leBytes 2 (tupleFlag memory 0 ||| mask))
  rw [leBytes_length] at image
  rw [tupleFlag, orTupleFlag, setTupleFlag, image, leNat_leBytes_mod]
  rfl

theorem orTupleFlag_flagged
    (clear : mask.testBit 0 = false) : Flagged memory (orTupleFlag memory mask) where
  apart position low high := by
    rw [orTupleFlag, setTupleFlag, pwrite]
    rw [leBytes_length]
    lia
  kept bit set := by
    have small : tupleFlag memory 0 < 2 ^ 16 := by
      have bound := leNat_lt (pread memory (0 + 6) 2)
      rw [pread_length] at bound
      exact bound
    have inside : bit < 16 := by
      by_contra beyond
      have clear := Nat.testBit_lt_two_pow
        (lt_of_lt_of_le small (Nat.pow_le_pow_right (by decide) (not_lt.mp beyond)))
      rw [clear] at set
      exact absurd set (by decide)
    rw [tupleFlag_orTupleFlag, Nat.testBit_mod_two_pow, Nat.testBit_or, set, decide_eq_true inside]
    rfl
  nulls := by
    rw [tupleFlag_orTupleFlag, Nat.testBit_mod_two_pow, Nat.testBit_or, clear, Bool.or_false,
      decide_eq_true (by decide), Bool.true_and]

/-- A flag that is set is seen. -/
theorem testBit_orTupleFlag (mask bit : Nat) (inside : bit < 16) (set : mask.testBit bit = true) :
    (tupleFlag (orTupleFlag memory mask) 0).testBit bit = true := by
  rw [tupleFlag_orTupleFlag, Nat.testBit_mod_two_pow, Nat.testBit_or, set, Bool.or_true,
    decide_eq_true inside]
  rfl

/-- A copy of a given length would not be made. -/
def CopyFails (remainingLen count : Nat) : Prop :=
  remainingLen = 0 ∨ securecMemMaxLen < remainingLen ∨ remainingLen < count

instance (remainingLen count : Nat) : Decidable (CopyFails remainingLen count) := by
  unfold CopyFails
  infer_instance

/-- A copy fails, or writes the whole source. -/
theorem FillState.copy_eq (state : FillState) (dest destMax : Nat) {source : List UInt8}
    {count : Nat} (whole : source.length = count) :
    state.copy dest destMax source count = if CopyFails destMax count then none
      else some { state with memory := pwrite state.memory dest source, data := dest + count } := by
  by_cases fails : CopyFails destMax count
  · rw [FillState.copy, memcpyS, if_pos (by exact fails), if_pos fails]
    rfl
  · rw [FillState.copy, memcpyS, if_neg (by exact fails), if_neg fails, ← whole, take_length]
    rfl

/-- The bytes of a value that the library copies. -/
def Column.copied (column : Column) : Nat :=
  if column.shortens then column.stored.length - 1 else column.stored.length

/-- A value is stored where it belongs, unless the copy of an object fails. -/
theorem fillValue_eq (remainingLen : Nat) (state : FillState) {column : Column}
    (present : column.isNull = false) :
    ∃ flagged, Flagged state.memory flagged ∧
      (column.attr.attlen < 0 → (tupleFlag flagged 0).testBit 1 = true) ∧
      fillValue remainingLen state column =
        if column.attr.attbyval = false ∧ CopyFails remainingLen column.copied then none
        else some { state with
          memory := pwrite flagged (column.start state.data) column.stored
          data := column.start state.data + column.stored.length } := by
  have varying := orTupleFlag_flagged state.memory uheapHasVarWidth (by decide)
  have set := testBit_orTupleFlag state.memory uheapHasVarWidth 1 (by decide) (by decide)
  cases column.kind with
  | null absent => exact absurd (column.isNull_of_absent absent) (by simp [present])
  | word value here byval =>
    have positive := column.attr.word byval
    have stored : column.stored = leBytes column.attr.attlen.toNat column.word := by
      simp [Column.stored, present, byval]
    have start : column.start state.data = state.data := by simp [Column.start, byval]
    refine ⟨state.memory, .refl _, fun negative => by lia, ?_⟩
    rw [fillValue, if_pos byval, if_neg (by simp [byval]), stored, start, leBytes_length]
  | fixed object here byref positive sized =>
    have same := column.object_of_pointer here
    have unlike : column.attr.attlen ≠ -1 := by omega
    have short := column.shortens_of_attlen unlike
    have stored := column.stored_whole here byref short
    have start : column.start state.data = attAlignNominal state.data column.attr.attalign := by
      simp [Column.start, present, byref, unlike]
    have length : object.length = column.attr.attlen.toNat := by lia
    refine ⟨state.memory, .refl _, fun negative => by omega, ?_⟩
    rw [fillValue, if_neg (by simp [byref]), if_neg unlike, if_neg (by omega), same,
      FillState.copy_eq _ _ _ length, Column.copied, short, stored, start, length]
    simp [byref]
  | varlena object here byref unsized complete =>
    have same := column.object_of_pointer here
    cases external : varattIsExternal object with
    | true =>
      have short := varattIsShort_of_external object external
      have keeps := column.shortens_of_short object here short
      have length : object.length = varsizeExternal object := by
        rw [← complete.sized, varsizeAny, if_pos external]
      have stored := column.stored_whole here byref keeps
      have start : column.start state.data = state.data := by
        simp [Column.start, unsized, same, short]
      refine ⟨orTupleFlag (orTupleFlag state.memory uheapHasVarWidth) heapHasExternal,
        varying.trans (orTupleFlag_flagged _ _ (by decide)),
        fun _ => (orTupleFlag_flagged _ _ (by decide)).kept 1 set, ?_⟩
      rw [fillValue, if_pos unsized, same, if_pos external,
        FillState.copy_eq _ _ _ length, Column.copied, keeps, stored, start, length]
      simp [byref]
    | false =>
      refine ⟨orTupleFlag state.memory uheapHasVarWidth, varying, fun _ => set, ?_⟩
      rw [fillValue, if_neg (by simp [byref]), if_pos unsized, same, if_neg (by simp [external])]
      cases short : varattIsShort object with
      | true =>
        have keeps := column.shortens_of_short object here short
        have length : object.length = varsizeShort object := by
          rw [← complete.sized, varsizeAny, external, if_neg (by decide), if_pos short]
        have stored := column.stored_whole here byref keeps
        have start : column.start state.data = state.data := by
          simp [Column.start, unsized, same, short]
        rw [FillState.copy_eq _ _ _ length, Column.copied, keeps, stored, start, length]
        simp [byref]
      | false =>
        rw [if_neg (by decide)]
        obtain ⟨size, four⟩ := complete.length_long short
        cases shortens : column.shortens with
        | true =>
          have condition := shortens
          rw [Column.shortens, decide_eq_true_iff, same] at condition
          have stored : column.stored =
              UInt8.ofNat (varattConvertedShortSize object * 2 + 1) :: object.drop varhdrsz := by
            simp [Column.stored, present, byref, shortens, same]
          have start : column.start state.data = state.data := by
            simp [Column.start, unsized, shortens]
          have length : (object.drop varhdrsz).length = varattConvertedShortSize object - 1 := by
            rw [length_drop, varattConvertedShortSize, size]
            rfl
          rw [if_pos condition.2, FillState.copy_eq _ _ _ length, Column.copied, stored, length_cons,
            length, Nat.add_sub_cancel]
          simp only [byref, true_and]
          split_ifs
          · rfl
          · rw [show UInt8.ofNat (varattConvertedShortSize object * 2 + 1) :: object.drop varhdrsz =
              [UInt8.ofNat (varattConvertedShortSize object * 2 + 1)] ++ object.drop varhdrsz
              from rfl, pwrite_append]
            simp only [length_singleton]
            lia
        | false =>
          have condition := shortens
          rw [Column.shortens, decide_eq_false_iff_not, same] at condition
          have stored := column.stored_whole here byref shortens
          have start : column.start state.data =
              attAlignNominal state.data column.attr.attalign := by
            simp [Column.start, present, byref, same, short, shortens]
          rw [if_neg (fun both => condition ⟨unsized, both⟩),
            FillState.copy_eq _ _ _ size.symm, Column.copied, shortens, stored, start, size]
          simp [byref]
  | string object here byref unsized packed complete =>
    have same := column.object_of_pointer here
    have unlike : column.attr.attlen ≠ -1 := by omega
    have short := column.shortens_of_attlen unlike
    have stored := column.stored_whole here byref short
    have start : column.start state.data = state.data := by
      simp [Column.start, packed, attAlignNominal]
    refine ⟨orTupleFlag state.memory uheapHasVarWidth, varying, fun _ => set, ?_⟩
    rw [fillValue, if_neg unlike, if_pos unsized, same,
      FillState.copy_eq _ _ _ complete.symm, Column.copied, short, stored, start, complete]
    simp [byref]

end Fill

section Step

variable (hasnull enableReserve : Bool) (natts hoff : Nat)

/-- What the memory of a tuple says about a column, its nulls before and its position. -/
structure ColumnLaid (memory : Nat → UInt8) (column : Column) (index nulls position : Nat) :
    Prop where
  bit : hasnull = true → bitOf memory sizeOfUHeapDiskTupleData index = !column.isNull
  reserve : hasnull = true → column.isNull = true →
    sizeOfUHeapDiskTupleData + (natts + nulls) / 8 < hoff →
      bitOf memory sizeOfUHeapDiskTupleData (natts + nulls) = column.isReserved enableReserve
  stored : pread memory (column.start position) column.stored.length = column.stored
  padding : ∀ byte, position ≤ byte → byte < column.start position → memory byte = 0

/-- What a step of the loop leaves alone. -/
structure Untouched (index nulls data : Nat) (before after : Nat → UInt8) : Prop where
  written : ∀ byte, hoff ≤ byte → byte < data → after byte = before byte
  bits : hasnull = true → ∀ bit < index, bitOf after sizeOfUHeapDiskTupleData bit =
    bitOf before sizeOfUHeapDiskTupleData bit
  reserves : hasnull = true → ∀ bit, natts ≤ bit → bit < natts + nulls →
    sizeOfUHeapDiskTupleData + bit / 8 < hoff →
      bitOf after sizeOfUHeapDiskTupleData bit = bitOf before sizeOfUHeapDiskTupleData bit
  header : ∀ byte, 8 ≤ byte → byte < sizeOfUHeapDiskTupleData → after byte = before byte
  flags : ∀ bit, (tupleFlag before 0).testBit bit = true → (tupleFlag after 0).testBit bit = true
  hasNulls : (tupleFlag after 0).testBit 0 = (tupleFlag before 0).testBit 0

/-- The state before a column: the cursors stand where they belong, and what is written later is
zero. -/
structure Fresh (state : FillState) (index nulls : Nat) : Prop where
  bit : hasnull = true → state.bit = BitCursor.of (sizeOfUHeapDiskTupleData - 1) (index + 7)
  reserve : hasnull = true → state.reserve = BitCursor.of sizeOfUHeapDiskTupleData (natts + nulls)
  behind : hoff ≤ state.data
  zeros : ∀ byte, state.data ≤ byte → state.memory byte = 0
  clear : hasnull = true → ∀ bit, index ≤ bit → bit < natts →
    bitOf state.memory sizeOfUHeapDiskTupleData bit = false
  clearReserves : hasnull = true → ∀ bit, natts + nulls ≤ bit →
    sizeOfUHeapDiskTupleData + bit / 8 < hoff →
      bitOf state.memory sizeOfUHeapDiskTupleData bit = false

/-- The nulls after a column. -/
def nullsAfter (column : Column) (nulls : Nat) : Nat := if column.isNull then nulls + 1 else nulls

variable {hasnull enableReserve natts hoff}

/-- What two steps do not touch. -/
theorem Untouched.trans {index nulls data later laterNulls laterData : Nat}
    {first second third : Nat → UInt8}
    (before : Untouched hasnull natts hoff index nulls data first second)
    (after : Untouched hasnull natts hoff later laterNulls laterData second third)
    (indices : index ≤ later) (nullsLe : nulls ≤ laterNulls) (dataLe : data ≤ laterData) :
    Untouched hasnull natts hoff index nulls data first third where
  written byte low high := (after.written byte low (by omega)).trans (before.written byte low high)
  bits nullable bit below :=
    (after.bits nullable bit (by omega)).trans (before.bits nullable bit below)
  reserves nullable bit low high inside :=
    (after.reserves nullable bit low (by lia) inside).trans
      (before.reserves nullable bit low high inside)
  header byte low high := (after.header byte low high).trans (before.header byte low high)
  flags bit set := after.flags bit (before.flags bit set)
  hasNulls := after.hasNulls.trans before.hasNulls

/-- A column stays laid while the bytes up to its end are kept. -/
theorem ColumnLaid.kept {before after : Nat → UInt8} {column : Column} {index nulls position : Nat}
    (laid : ColumnLaid hasnull enableReserve natts hoff before column index nulls position)
    (behind : hoff ≤ position)
    (untouched : Untouched hasnull natts hoff (index + 1) (nullsAfter column nulls)
      (column.finish enableReserve position) before after) :
    ColumnLaid hasnull enableReserve natts hoff after column index nulls position where
  bit nullable := (untouched.bits nullable index (by omega)).trans (laid.bit nullable)
  reserve nullable isNull inside := by
    have counted : nullsAfter column nulls = nulls + 1 := by rw [nullsAfter, if_pos isNull]
    rw [untouched.reserves nullable _ (by omega) (by omega) inside]
    exact laid.reserve nullable isNull inside
  stored := by
    have low := column.start_bounds position
    have same := laid.stored
    rw [pread_congr after before]
    · exact same
    · intro byte above below
      exact untouched.written byte (by lia) (by unfold Column.finish; omega)
  padding := by
    intro byte low high
    rw [untouched.written byte (by omega) (by unfold Column.finish; omega)]
    exact laid.padding byte low high

variable (dataSize dataStart : Nat) (state next : FillState) (column : Column) (index nulls : Nat)

/-- Filling a null sets its bits and reserves its space. -/
theorem fillAttr_null (fresh : Fresh true natts hoff state index nulls)
    (inside : index < natts) (isNull : column.isNull = true)
    (room : column.isReserved enableReserve = true →
      sizeOfUHeapDiskTupleData + (natts + nulls) / 8 < hoff)
    (done : fillAttr true enableReserve dataSize dataStart state column = some next) :
    next.data = column.finish enableReserve state.data ∧
      Fresh true natts hoff next (index + 1) (nulls + 1) ∧
      Untouched true natts hoff index nulls state.data state.memory next.memory ∧
      ColumnLaid true enableReserve natts hoff next.memory column index nulls state.data := by
  have eleven : sizeOfUHeapDiskTupleData = 11 := rfl
  obtain ⟨start, stored⟩ := column.null_place state.data isNull
  have bitNext : state.bit.next = BitCursor.of (sizeOfUHeapDiskTupleData - 1) (index + 1 + 7) := by
    rw [fresh.bit rfl, BitCursor.next_of]
  have reserveNext : state.reserve.next =
      BitCursor.of sizeOfUHeapDiskTupleData (natts + (nulls + 1)) := by
    rw [fresh.reserve rfl, BitCursor.next_of, Nat.add_assoc]
  have off : bitOf state.memory sizeOfUHeapDiskTupleData index = false :=
    fresh.clear rfl index le_rfl inside
  cases reserved : column.isReserved enableReserve with
  | false =>
    simp only [fillAttr, isNull, reserved, if_true,
      some.injEq] at done
    subst done
    refine ⟨?_, ⟨fun _ => bitNext, fun _ => reserveNext, fresh.behind, fresh.zeros,
      fun _ bit low => fresh.clear rfl bit (by omega),
      fun _ bit low => fresh.clearReserves rfl bit (by omega)⟩,
      ⟨fun _ _ _ => rfl, fun _ _ _ => rfl, fun _ _ _ _ _ => rfl, fun _ _ _ => rfl,
        fun _ set => set, rfl⟩,
      ⟨fun _ => by rw [isNull]; exact off,
        fun _ _ within => by rw [reserved]; exact fresh.clearReserves rfl _ le_rfl within,
        by rw [stored]; rfl, fun byte low high => by omega⟩⟩
    simp [Column.finish, start, stored, Column.reserved, reserved]
  | true =>
    have byte : (BitCursor.of sizeOfUHeapDiskTupleData (natts + nulls)).byte =
        sizeOfUHeapDiskTupleData + (natts + nulls) / 8 := rfl
    have others := orByte_apart state.memory (BitCursor.of sizeOfUHeapDiskTupleData (natts + nulls))
    have bits := bitOf_orByte state.memory sizeOfUHeapDiskTupleData (natts + nulls)
    simp only [fillAttr, isNull, reserved, if_true, some.injEq] at done
    subst done
    rw [fresh.reserve rfl]
    have flags : tupleFlag (orByte state.memory
        (BitCursor.of sizeOfUHeapDiskTupleData (natts + nulls))) 0 = tupleFlag state.memory 0 := by
      unfold tupleFlag
      rw [pread_congr _ state.memory]
      intro byte low high
      exact others byte (by lia)
    refine ⟨?_, ⟨fun _ => bitNext, fun _ => ?_, ?_, ?_, ?_, ?_⟩, ⟨?_, ?_, ?_, ?_, ?_, ?_⟩,
      ⟨fun _ => ?_, fun _ _ _ => ?_, ?_, fun byte low high => ?_⟩⟩
    · simp [Column.finish, start, stored, Column.reserved, reserved, isNull]
    · exact (fresh.reserve rfl) ▸ reserveNext
    · exact le_trans fresh.behind (Nat.le_add_right _ _)
    · intro byte low
      have behind := fresh.behind
      dsimp only at low ⊢
      rw [others byte (by lia)]
      exact fresh.zeros byte (by lia)
    · intro _ bit low high
      rw [bits, fresh.clear rfl bit (by omega) high, decide_eq_false (by omega)]
      rfl
    · intro _ bit low high
      rw [bits, fresh.clearReserves rfl bit (by lia) high, decide_eq_false (by omega)]
      rfl
    · intro byte low high
      exact others byte (by lia)
    · intro _ bit below
      rw [bits, decide_eq_false (by lia), Bool.or_false]
    · intro _ bit low high _
      rw [bits, decide_eq_false (by omega), Bool.or_false]
    · intro byte low high
      exact others byte (by lia)
    · intro bit set
      rw [flags]
      exact set
    · rw [flags]
    · rw [bits, off, isNull, decide_eq_false (by omega)]
      rfl
    · rw [bits, decide_eq_true rfl, reserved, Bool.or_true]
    · rw [stored]
      rfl
    · omega

theorem stored_apart {base flagged : Nat → UInt8} (flags : Flagged base flagged)
    {start position : Nat} {stored : List UInt8} {byte : Nat} (low : byte ≠ 6) (high : byte ≠ 7)
    (outside : byte < position ∨ start + stored.length ≤ byte) (after : position ≤ start) :
    pwrite flagged start stored byte = base byte := by
  rw [pwrite_apart _ (by omega)]
  exact flags.apart byte low high

/-- The state in which a value is written: its bit is set when there is a bitmap. -/
def FillState.marked (hasnull : Bool) (state : FillState) : FillState :=
  if hasnull then
    { state with bit := state.bit.next, memory := orByte state.memory state.bit.next }
  else state

/-- What a value leaves to be written in. -/
def remaining (dataSize dataStart data : Nat) : Nat :=
  (dataSize + 2 ^ 64 - (data - dataStart)) % 2 ^ 64

/-- Filling a value marks it and writes it. -/
theorem fillAttr_present (state : FillState) {column : Column} (present : column.isNull = false) :
    fillAttr hasnull enableReserve dataSize dataStart state column =
      fillValue (remaining dataSize dataStart state.data) (state.marked hasnull) column := by
  cases hasnull <;> simp only [fillAttr, present, FillState.marked, remaining, Bool.false_eq_true,
    if_false, if_true]

/-- Marking changes one byte of the bitmap. -/
structure Marked (before after : FillState) (index : Nat) : Prop where
  data : after.data = before.data
  reserve : after.reserve = before.reserve
  bit : hasnull = true → after.bit = BitCursor.of sizeOfUHeapDiskTupleData index
  others : ∀ byte, (hasnull = true → byte ≠ sizeOfUHeapDiskTupleData + index / 8) →
    after.memory byte = before.memory byte
  bits : hasnull = true → ∀ bit, bitOf after.memory sizeOfUHeapDiskTupleData bit =
    (bitOf before.memory sizeOfUHeapDiskTupleData bit || decide (bit = index))

theorem Fresh.marked {state : FillState} {index nulls : Nat}
    (fresh : Fresh hasnull natts hoff state index nulls) :
    @Marked hasnull state (state.marked hasnull) index := by
  cases hasnull with
  | false =>
    exact ⟨rfl, rfl, fun absurdity => absurd absurdity (by decide), fun _ _ => rfl,
      fun absurdity => absurd absurdity (by decide)⟩
  | true =>
    have cursor : state.bit.next = BitCursor.of sizeOfUHeapDiskTupleData index := by
      rw [fresh.bit rfl, BitCursor.next_of, BitCursor.of,
        show index + 7 + 1 = index + 1 * 8 by omega,
        Nat.add_mul_mod_self_right]
      congr 1
      have eleven : sizeOfUHeapDiskTupleData = 11 := rfl
      lia
    refine ⟨rfl, rfl, fun _ => cursor, fun byte apart => ?_, fun _ bit => ?_⟩
    · rw [FillState.marked, cursor]
      exact orByte_apart _ _ _ (apart rfl)
    · rw [FillState.marked, cursor]
      exact bitOf_orByte _ _ _ _

/-- Filling a value lays the column. -/
theorem fillAttr_value (fresh : Fresh hasnull natts hoff state index nulls)
    (inside : index < natts) (header : sizeOfUHeapDiskTupleData ≤ hoff)
    (bitmap : hasnull = true → sizeOfUHeapDiskTupleData + (natts + 7) / 8 ≤ hoff)
    (present : column.isNull = false)
    (done : fillAttr hasnull enableReserve dataSize dataStart state column = some next) :
    next.data = column.finish enableReserve state.data ∧
      Fresh hasnull natts hoff next (index + 1) nulls ∧
      Untouched hasnull natts hoff index nulls state.data state.memory next.memory ∧
      ColumnLaid hasnull enableReserve natts hoff next.memory column index nulls state.data ∧
      (column.attr.attlen < 0 → (tupleFlag next.memory 0).testBit 1 = true) := by
  have eleven : sizeOfUHeapDiskTupleData = 11 := rfl
  have low := column.start_bounds state.data
  have behind := fresh.behind
  have marked := fresh.marked
  rw [fillAttr_present dataSize dataStart state present] at done
  generalize state.marked hasnull = mark at marked done
  obtain ⟨flagged, flags, wide, equation⟩ := fillValue_eq _ mark present
  rw [equation] at done
  split_ifs at done with fails
  rw [some.injEq, marked.data] at done
  subst done
  have apart : ∀ byte, byte ≠ 6 → byte ≠ 7 →
      (byte < state.data ∨ column.start state.data + column.stored.length ≤ byte) →
        pwrite flagged (column.start state.data) column.stored byte = mark.memory byte :=
    fun byte six seven outside => stored_apart flags six seven outside low.1
  have others : ∀ byte, byte ≠ 6 → byte ≠ 7 →
      (byte < state.data ∨ column.start state.data + column.stored.length ≤ byte) →
        (byte < sizeOfUHeapDiskTupleData ∨ hoff ≤ byte) →
          pwrite flagged (column.start state.data) column.stored byte = state.memory byte := by
    intro byte six seven outside region
    rw [apart byte six seven outside]
    refine marked.others byte (fun nullable => ?_)
    lia
  have bits : ∀ bit, sizeOfUHeapDiskTupleData + bit / 8 < hoff →
      bitOf (pwrite flagged (column.start state.data) column.stored) sizeOfUHeapDiskTupleData bit =
        bitOf mark.memory sizeOfUHeapDiskTupleData bit := by
    intro bit within
    exact bitOf_congr (apart _ (by lia) (by lia) (by omega))
  have flagBytes : tupleFlag (pwrite flagged (column.start state.data) column.stored) 0 =
      tupleFlag flagged 0 := by
    unfold tupleFlag
    rw [pread_pwrite_apart _ (by lia)]
  have flagBase : tupleFlag mark.memory 0 = tupleFlag state.memory 0 := by
    unfold tupleFlag
    rw [pread_congr _ state.memory]
    intro byte above below
    exact marked.others byte (fun _ => by lia)
  have reservedNone : column.reserved enableReserve = 0 := column.reserved_of_present present
  refine ⟨?_, ⟨?_, ?_, ?_, ?_, ?_, ?_⟩, ⟨?_, ?_, ?_, ?_, ?_, ?_⟩, ⟨?_, ?_, ?_, ?_⟩, ?_⟩
  · rw [Column.finish, reservedNone, Nat.add_zero]
  · intro nullable
    rw [marked.bit nullable, BitCursor.of, BitCursor.of,
      show index + 1 + 7 = index + 1 * 8 by lia,
      Nat.add_mul_mod_self_right]
    congr 1
    lia
  · intro nullable
    rw [marked.reserve, fresh.reserve nullable]
  · lia
  · intro byte above
    dsimp only at above ⊢
    rw [others byte (by lia) (by lia) (by omega) (by lia)]
    exact fresh.zeros byte (by lia)
  · intro nullable bit above below
    rw [bits bit (by lia), marked.bits nullable, fresh.clear nullable bit (by omega) below,
      decide_eq_false (by omega)]
    rfl
  · intro nullable bit above within
    rw [bits bit within, marked.bits nullable, fresh.clearReserves nullable bit above within,
      decide_eq_false (by lia)]
    rfl
  · intro byte above below
    exact others byte (by omega) (by omega) (by omega) (by omega)
  · intro nullable bit below
    rw [bits bit (by lia), marked.bits nullable, decide_eq_false (by omega), Bool.or_false]
  · intro nullable bit above below within
    rw [bits bit within, marked.bits nullable, decide_eq_false (by omega), Bool.or_false]
  · intro byte above below
    exact others byte (by lia) (by lia) (by lia) (by lia)
  · intro bit set
    rw [flagBytes]
    exact flags.kept bit (by rw [flagBase]; exact set)
  · rw [flagBytes, flags.nulls, flagBase]
  · intro nullable
    rw [bits index (by lia), marked.bits nullable, decide_eq_true rfl, Bool.or_true, present]
    rfl
  · intro _ isNull
    rw [present] at isNull
    exact absurd isNull (by decide)
  · exact pread_pwrite _ _ _
  · intro byte above below
    dsimp only
    rw [pwrite_apart _ (by omega), flags.apart byte (by lia) (by lia),
      marked.others byte (fun nullable => by have room := bitmap nullable; lia)]
    exact fresh.zeros byte above
  · intro negative
    rw [flagBytes]
    exact wide negative

end Step

section Bounds

variable (hasnull enableReserve : Bool) (dataSize dataStart : Nat)

variable (column : Column) (columns : List Column) (state next : FillState)

theorem Column.reserved_le : column.reserved enableReserve ≤ 8 := by
  unfold Column.reserved
  split_ifs with reserved
  · rw [Bool.and_eq_true] at reserved
    have lengths := column.attr.word (column.isReserved_spec reserved.2).2
    lia
  · omega

theorem Column.stored_pos (present : column.isNull = false) : 0 < column.stored.length := by
  unfold Column.stored
  rw [if_neg (by simp [present])]
  cases column.kind with
  | null absent => exact absurd (column.isNull_of_absent absent) (by simp [present])
  | word value here byval =>
    have lengths := column.attr.word byval
    rw [if_pos byval, leBytes_length]
    lia
  | fixed object here byref positive sized | string object here byref varying packed complete =>
    have same := column.object_of_pointer here
    rw [if_neg (by simp [byref]), same]
    split_ifs
    · exact Nat.succ_pos _
    · omega
  | varlena object here byref varying complete =>
    have same := column.object_of_pointer here
    rw [if_neg (by simp [byref]), same]
    split_ifs
    · exact Nat.succ_pos _
    · exact length_pos_iff.mpr complete.headed

/-- Filling a column fails at a refused copy, or goes on at its end. -/
theorem fillAttr_data (state : FillState) (column : Column)
    (nullable : hasnull = false → column.isNull = false) :
    (fillAttr hasnull enableReserve dataSize dataStart state column).map FillState.data =
      if column.isNull = false ∧ column.attr.attbyval = false ∧
          CopyFails (remaining dataSize dataStart state.data) column.copied then none
      else some (column.finish enableReserve state.data) := by
  cases isNull : column.isNull with
  | true =>
    have hasNull : hasnull = true := by
      by_contra without
      rw [nullable (by simpa using without)] at isNull
      exact absurd isNull (by decide)
    rw [hasNull]
    obtain ⟨start, stored⟩ := column.null_place state.data isNull
    cases reserved : column.isReserved enableReserve <;>
      simp [fillAttr, isNull, Column.finish, start, stored, Column.reserved, reserved]
  | false =>
    have marked : (state.marked hasnull).data = state.data := by
      cases hasnull <;> rfl
    obtain ⟨flagged, _, _, equation⟩ :=
      fillValue_eq (remaining dataSize dataStart state.data) (state.marked hasnull) isNull
    rw [fillAttr_present dataSize dataStart state isNull, equation, marked]
    have reserved : column.reserved enableReserve = 0 := column.reserved_of_present isNull
    by_cases fails : column.attr.attbyval = false ∧
        CopyFails (remaining dataSize dataStart state.data) column.copied
    · rw [if_pos fails, if_pos ⟨rfl, fails⟩]
      rfl
    · rw [if_neg fails, if_neg (fun all => fails all.2), Column.finish, reserved]
      rfl

/-- At most one byte of a stored value is not copied. -/
theorem Column.copied_bounds :
    column.copied ≤ column.stored.length ∧ column.stored.length ≤ column.copied + 1 := by
  unfold Column.copied
  split_ifs <;> omega

theorem Column.finish_near (position : Nat)
    (light : column.isNull = false → column.attr.attbyval = true) :
    column.finish enableReserve position ≤ position + 8 := by
  have reserved := column.reserved_le enableReserve
  rw [Column.finish]
  cases isNull : column.isNull with
  | true =>
    obtain ⟨start, stored⟩ := column.null_place position isNull
    rw [stored, length_nil]
    omega
  | false =>
    have byval := light isNull
    have unreserved : column.reserved enableReserve = 0 := column.reserved_of_present isNull
    have start : column.start position = position := by simp [Column.start, byval]
    have stored : column.stored.length = column.attr.attlen.toNat := by
      simp [Column.stored, isNull, byval]
    have lengths := column.attr.word byval
    lia

/-- Filling goes column by column. -/
theorem fill_cons (nullable : hasnull = false → ∀ other ∈ column :: columns, other.isNull = false)
    (done : (column :: columns).foldlM (fillAttr hasnull enableReserve dataSize dataStart) state =
      some next) :
    ∃ middle, columns.foldlM (fillAttr hasnull enableReserve dataSize dataStart) middle =
        some next ∧ middle.data = column.finish enableReserve state.data ∧
      (column.isNull = false → column.attr.attbyval = false →
        ¬CopyFails (remaining dataSize dataStart state.data) column.copied) := by
  obtain ⟨middle, step, run⟩ := Option.bind_eq_some_iff.mp done
  have data := fillAttr_data hasnull enableReserve dataSize dataStart state column
    (fun without => nullable without column mem_cons_self)
  rw [step, map_some] at data
  split_ifs at data with fails
  rw [some.injEq] at data
  exact ⟨middle, run, data, fun present byref copy => fails ⟨present, byref, copy⟩⟩

variable {hasnull columns}

/-- Filling succeeds where the columns fit. -/
theorem fill_succeeds (state : FillState)
    (nullable : hasnull = false → ∀ column ∈ columns, column.isNull = false)
    (small : dataSize ≤ securecMemMaxLen) (behind : dataStart ≤ state.data)
    (fits : columnsEnd enableReserve state.data columns ≤ dataStart + dataSize) :
    ∃ next, columns.foldlM (fillAttr hasnull enableReserve dataSize dataStart) state =
      some next := by
  induction columns generalizing state with
  | nil => exact ⟨state, rfl⟩
  | cons column rest ih =>
    have data := fillAttr_data hasnull enableReserve dataSize dataStart state column
      (fun without => nullable without column mem_cons_self)
    have inside : column.finish enableReserve state.data ≤ dataStart + dataSize :=
      le_trans (le_columnsEnd enableReserve _ rest) fits
    rw [if_neg] at data
    · obtain ⟨next, step, place⟩ := Option.map_eq_some_iff.mp data
      have later := column.le_finish enableReserve state.data
      obtain ⟨last, run⟩ := ih next
        (fun without other member => nullable without other (mem_cons_of_mem _ member))
        (by omega) (by rw [place]; exact fits)
      exact ⟨last, by rw [foldlM_cons, step]; exact run⟩
    · rintro ⟨present, _, fails⟩
      have positive := column.stored_pos present
      have copied := column.copied_bounds
      have start := column.start_bounds state.data
      unfold Column.finish at inside
      unfold CopyFails remaining at fails
      rw [securecMemMaxLen] at small fails
      omega

variable {enableReserve}

/-- While all copies are small, the position does not wrap. -/
theorem fill_bounded (slack : Nat)
    (nullable : hasnull = false → ∀ column ∈ columns, column.isNull = false)
    (small : dataSize < 2 ^ 32) (behind : dataStart ≤ state.data)
    (within : state.data ≤ dataStart + dataSize + slack) (few : slack + 8 * columns.length < 2 ^ 32)
    (done : columns.foldlM (fillAttr hasnull enableReserve dataSize dataStart) state = some next) :
    next.data = columnsEnd enableReserve state.data columns ∧
      next.data ≤ dataStart + dataSize + slack + 8 * columns.length := by
  induction columns generalizing state slack with
  | nil =>
    simp only [foldlM_nil, Option.pure_def, some.injEq] at done
    subst done
    exact ⟨rfl, by simpa using within⟩
  | cons column rest ih =>
    obtain ⟨middle, run, data, copies⟩ := fill_cons hasnull enableReserve dataSize dataStart column
      rest state next nullable done
    have later := column.le_finish enableReserve state.data
    have length : (column :: rest).length = rest.length + 1 := rfl
    have bound : middle.data ≤ dataStart + dataSize + (slack + 8) := by
      rw [data]
      by_cases copied : column.isNull = false ∧ column.attr.attbyval = false
      · have copies := copies copied.1 copied.2
        unfold CopyFails remaining at copies
        rw [securecMemMaxLen] at copies
        have copiedBounds := column.copied_bounds
        have start := column.start_bounds state.data
        have reserved : column.reserved enableReserve = 0 := column.reserved_of_present copied.1
        rw [Column.finish]
        omega
      · have near := column.finish_near enableReserve state.data (by simpa using copied)
        lia
    have rest := ih middle (slack + 8)
      (fun without other member => nullable without other (mem_cons_of_mem _ member))
      (by omega) bound (by omega) run
    refine ⟨?_, by omega⟩
    rw [rest.1, data]
    rfl

/-- The data grow little, or the size is within the limit of a copy. -/
theorem fill_small (nullable : hasnull = false → ∀ column ∈ columns, column.isNull = false)
    (word : dataSize < 2 ^ 32)
    (done : columns.foldlM (fillAttr hasnull enableReserve dataSize dataStart) state = some next) :
    next.data ≤ state.data + 8 * columns.length ∨
      dataSize ≤ securecMemMaxLen + (state.data - dataStart) + 8 * columns.length := by
  induction columns generalizing state with
  | nil =>
    simp only [foldlM_nil, Option.pure_def, some.injEq] at done
    subst done
    exact .inl (Nat.le_add_right _ _)
  | cons column rest ih =>
    obtain ⟨middle, run, data, copies⟩ := fill_cons hasnull enableReserve dataSize dataStart column
      rest state next nullable done
    have length : (column :: rest).length = rest.length + 1 := rfl
    by_cases copied : column.isNull = false ∧ column.attr.attbyval = false
    · unfold CopyFails remaining at copies
      right
      lia
    · have near := column.finish_near enableReserve state.data (by simpa using copied)
      have later := ih middle
        (fun without other member => nullable without other (mem_cons_of_mem _ member)) run
      lia

end Bounds

end OpenGauss.Ustore
