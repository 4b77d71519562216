import OpenGauss.Ustore.TupleDeform
import OpenGauss.Ustore.TupleFill

/-!
# A tuple gives its values back

The loop that writes a tuple leaves every column where the description of its layout says, with its
bit in the bitmap and, for a null, with the bit that tells whether space is reserved. The walk that
reads the tuple meets the columns at the same places, so a tuple that was formed gives the values
back from which it was formed.
-/
namespace OpenGauss.Ustore

open Option List OpenGauss.Base

section Run

variable (hasnull enableReserve : Bool) (natts hoff : Nat)

/-- What the memory of a tuple says about all columns from one on. -/
def Laid (memory : Nat → UInt8) : List Column → Nat → Nat → Nat → Prop
  | [], _, _, _ => True
  | column :: rest, index, nulls, position =>
    ColumnLaid hasnull enableReserve natts hoff memory column index nulls position ∧
      Laid memory rest (index + 1) (nullsAfter column nulls)
        (column.finish enableReserve position)

/-- There is room for the columns from one on: in the bitmap, in its second half, and for nulls at
all. -/
structure Room (columns : List Column) (index nulls : Nat) : Prop where
  inside : index + columns.length ≤ natts
  header : sizeOfUHeapDiskTupleData ≤ hoff
  bitmap : hasnull = true → sizeOfUHeapDiskTupleData + (natts + 7) / 8 ≤ hoff
  reserves : hasnull = true → enableReserve = true →
    sizeOfUHeapDiskTupleData + (natts + nulls + nullCount columns + 7) / 8 ≤ hoff
  nullable : hasnull = false → ∀ column ∈ columns, column.isNull = false

variable {hasnull enableReserve natts hoff}

variable (dataSize dataStart : Nat) (state next : FillState) (column : Column) (rest : List Column)

theorem nullCount_cons (nulls : Nat) :
    nulls + nullCount (column :: rest) = nullsAfter column nulls + nullCount rest := by
  unfold nullCount nullsAfter
  rw [countP_cons]
  split_ifs <;> omega

/-- The rest has room. -/
theorem Room.tail {column : Column} {rest : List Column} {index nulls : Nat}
    (room : Room hasnull enableReserve natts hoff (column :: rest) index nulls) :
    Room hasnull enableReserve natts hoff rest (index + 1) (nullsAfter column nulls) :=
  { room with
    inside := by
      have inside := room.inside
      rw [length_cons] at inside
      omega
    reserves nullable reserve := by
      have reserves := room.reserves nullable reserve
      have counted := nullCount_cons column rest nulls
      rw [show natts + nullsAfter column nulls + nullCount rest =
        natts + nulls + nullCount (column :: rest) by lia]
      exact reserves
    nullable without other member := room.nullable without other (mem_cons_of_mem _ member) }

/-- One more column is laid. -/
theorem fillAttr_step (index nulls : Nat) (fresh : Fresh hasnull natts hoff state index nulls)
    (room : Room hasnull enableReserve natts hoff (column :: rest) index nulls)
    (done : fillAttr hasnull enableReserve dataSize dataStart state column = some next) :
    next.data = column.finish enableReserve state.data ∧
      Fresh hasnull natts hoff next (index + 1) (nullsAfter column nulls) ∧
      Untouched hasnull natts hoff index nulls state.data state.memory next.memory ∧
      ColumnLaid hasnull enableReserve natts hoff next.memory column index nulls state.data ∧
      (column.isNull = false → column.attr.attlen < 0 →
        (tupleFlag next.memory 0).testBit 1 = true) := by
  have inside := room.inside
  rw [length_cons] at inside
  cases isNull : column.isNull with
  | true =>
    have hasNull : hasnull = true := by
      by_contra without
      have present := room.nullable (by simpa using without) column mem_cons_self
      rw [isNull] at present
      exact absurd present (by decide)
    subst hasNull
    have counted : nullsAfter column nulls = nulls + 1 := by rw [nullsAfter, if_pos isNull]
    have bits : column.isReserved enableReserve = true →
        sizeOfUHeapDiskTupleData + (natts + nulls) / 8 < hoff := by
      intro reserved
      have space := room.reserves rfl (column.isReserved_spec reserved).1
      have total := nullCount_cons column rest nulls
      lia
    obtain ⟨data, later, untouched, laid⟩ := fillAttr_null dataSize dataStart state next column
      index nulls fresh (by omega) isNull bits done
    rw [counted]
    exact ⟨data, later, untouched, laid, fun present => absurd present (by decide)⟩
  | false =>
    have counted : nullsAfter column nulls = nulls := by
      rw [nullsAfter, if_neg (by simp [isNull])]
    obtain ⟨data, later, untouched, laid, wide⟩ := fillAttr_value dataSize dataStart state next
      column index nulls fresh (by omega) room.header room.bitmap isNull done
    rw [counted]
    exact ⟨data, later, untouched, laid, fun _ => wide⟩

/-- All columns are laid. -/
theorem fill_laid (columns : List Column) (state next : FillState)
    (index nulls : Nat) (fresh : Fresh hasnull natts hoff state index nulls)
    (room : Room hasnull enableReserve natts hoff columns index nulls)
    (done : columns.foldlM (fillAttr hasnull enableReserve dataSize dataStart) state = some next) :
    Untouched hasnull natts hoff index nulls state.data state.memory next.memory ∧
      Laid hasnull enableReserve natts hoff next.memory columns index nulls state.data ∧
      ∀ column ∈ columns, column.isNull = false → column.attr.attlen < 0 →
        (tupleFlag next.memory 0).testBit 1 = true := by
  induction columns generalizing state index nulls with
  | nil =>
    simp only [foldlM_nil, Option.pure_def, some.injEq] at done
    subst done
    exact ⟨⟨fun _ _ _ => rfl, fun _ _ _ => rfl, fun _ _ _ _ _ => rfl, fun _ _ _ => rfl,
      fun _ set => set, rfl⟩, trivial, fun column absent => absurd absent not_mem_nil⟩
  | cons column rest ih =>
    rw [foldlM_cons] at done
    obtain ⟨middle, step, run⟩ := Option.bind_eq_some_iff.mp done
    obtain ⟨data, later, untouched, laid, wide⟩ := fillAttr_step dataSize dataStart state middle
      column rest index nulls fresh room step
    obtain ⟨kept, others, wides⟩ := ih middle (index + 1) (nullsAfter column nulls) later
      room.tail run
    have grows : nulls ≤ nullsAfter column nulls := by
      unfold nullsAfter
      split_ifs <;> omega
    refine ⟨untouched.trans kept (by omega) grows ?_, ⟨?_, ?_⟩, ?_⟩
    · rw [data]
      exact column.le_finish enableReserve _
    · rw [data] at kept
      exact laid.kept fresh.behind kept
    · rw [← data]
      exact others
    · intro other member present negative
      rcases mem_cons.mp member with rfl | behind
      · exact kept.flags 1 (wide present negative)
      · exact wides other behind present negative

end Run

section Start

/-- The header of a tuple in its memory. -/
structure Headed (memory : Nat → UInt8) (natts hoff : Nat) (hasnull : Bool) : Prop where
  hoff : tHoff memory 0 = hoff
  natts : headerGetNatts memory = natts
  hasnull : (tupleFlag memory 0).testBit 0 = hasnull

/-- A header depends on its bytes. -/
theorem Headed.congr {before after : Nat → UInt8} {natts hoff : Nat} {hasnull other : Bool}
    (headed : Headed before natts hoff hasnull)
    (same : ∀ byte, 8 ≤ byte → byte < sizeOfUHeapDiskTupleData → after byte = before byte)
    (nulls : (tupleFlag after 0).testBit 0 = other) : Headed after natts hoff other where
  hoff := by
    have same := same 10 (by decide) (by decide)
    have hoff := headed.hoff
    rw [tHoff] at hoff ⊢
    rw [same, hoff]
  natts := by
    have natts := headed.natts
    rw [headerGetNatts, tupleFlag2] at natts ⊢
    rw [pread_congr after before]
    · exact natts
    · intro byte low high
      exact same byte (by omega) (lt_of_lt_of_le high (by decide))
  hasnull := nulls

theorem headerLen_le {attrNum nullcount : Nat} (few : attrNum ≤ maxTupleAttributeNumber)
    (fewer : nullcount ≤ attrNum) :
    sizeOfUHeapDiskTupleData ≤ headerLen attrNum nullcount ∧ headerLen attrNum nullcount ≤ 255 := by
  rw [maxTupleAttributeNumber] at few
  unfold headerLen bitmapLen nattrsReserveSpace
  rw [sizeOfUHeapDiskTupleData]
  split_ifs with some reserve
  · lia
  · lia
  · omega

theorem nullCount_le (columns : List Column) : nullCount columns ≤ columns.length :=
  countP_le_length

/-- A new header. -/
theorem formHeader_headed {attrNum hoff : Nat} (few : attrNum ≤ maxTupleAttributeNumber)
    (short : hoff ≤ 255) : Headed (formHeader attrNum hoff) attrNum hoff false ∧
      tupleFlag (formHeader attrNum hoff) 0 = 0 ∧
      ∀ byte, sizeOfUHeapDiskTupleData ≤ byte → formHeader attrNum hoff byte = 0 := by
  rw [maxTupleAttributeNumber] at few
  have zero : tupleFlag2 (fun _ => 0) 0 &&& uheapFlag2Mask ||| attrNum = attrNum := by
    rw [show tupleFlag2 (fun _ => 0) 0 = 0 from rfl, Nat.zero_and, Nat.zero_or]
  have low : ∀ byte, byte < 8 → formHeader attrNum hoff byte = 0 := by
    intro byte below
    rw [formHeader, pwrite_apart _ (by rw [length_singleton]; omega), setTupleFlag2,
      pwrite_apart _ (by rw [leBytes_length]; omega)]
  have high : ∀ byte, sizeOfUHeapDiskTupleData ≤ byte → formHeader attrNum hoff byte = 0 := by
    intro byte above
    rw [sizeOfUHeapDiskTupleData] at above
    rw [formHeader, pwrite_apart _ (by rw [length_singleton]; omega), setTupleFlag2,
      pwrite_apart _ (by rw [leBytes_length]; omega)]
  have flags : tupleFlag (formHeader attrNum hoff) 0 = 0 := by
    rw [tupleFlag, pread_congr _ (fun _ => 0)]
    · rfl
    · intro byte _ below
      exact low byte (by omega)
  refine ⟨⟨?_, ?_, ?_⟩, flags, high⟩
  · rw [tHoff, formHeader, pwrite, if_pos (by simp)]
    rw [getD_cons_zero, UInt8.toNat_ofNat']
    lia
  · rw [headerGetNatts, tupleFlag2, formHeader, pread_pwrite_apart _ (by simp), setTupleFlag2, zero]
    have image := pread_pwrite (fun _ => 0) (0 + 8) (leBytes 2 attrNum)
    rw [leBytes_length] at image
    rw [image, leNat_leBytes _ _ (by omega), uheapNattsMask,
      show (0x07FF : Nat) = 2 ^ 11 - 1 from rfl, Nat.and_two_pow_sub_one_eq_mod,
      Nat.mod_eq_of_lt (by omega)]
  · rw [flags]
    rfl

/-- The loop starts behind a zeroed bitmap, with the flag of a tuple that has nulls. -/
theorem uheapFillDiskTuple_start {columns : List Column} (enableReserve : Bool) (dataSize : Nat)
    (few : columns.length ≤ maxTupleAttributeNumber) : ∃ state : FillState,
      Fresh (decide (0 < nullCount columns)) columns.length
          (headerLen columns.length (nullCount columns)) state 0 0 ∧
        state.data = headerLen columns.length (nullCount columns) ∧
        Headed state.memory columns.length (headerLen columns.length (nullCount columns))
          (decide (0 < nullCount columns)) ∧
        uheapFillDiskTuple (decide (0 < nullCount columns)) columns
            (formHeader columns.length (headerLen columns.length (nullCount columns))) dataSize
            (nattrsReserveSpace columns.length) enableReserve =
          columns.foldlM (fillAttr (decide (0 < nullCount columns)) enableReserve dataSize
            (headerLen columns.length (nullCount columns))) state := by
  have bounds := headerLen_le few (nullCount_le columns)
  obtain ⟨headed, flags, zeros⟩ := formHeader_headed few bounds.2
  by_cases some : 0 < nullCount columns
  · have eleven : sizeOfUHeapDiskTupleData = 11 := rfl
    have length : headerLen columns.length (nullCount columns) = sizeOfUHeapDiskTupleData +
        bitmapLen (if nattrsReserveSpace columns.length then
          columns.length + nullCount columns else columns.length) := by
      rw [headerLen, if_pos some]
    generalize header : headerLen columns.length (nullCount columns) = hoff at *
    have orFlags := tupleFlag_orTupleFlag (formHeader columns.length hoff) uheapHasNull
    rw [flags] at orFlags
    have cleared : ∀ byte, sizeOfUHeapDiskTupleData ≤ byte →
        punch (orTupleFlag (formHeader columns.length hoff) uheapHasNull)
          sizeOfUHeapDiskTupleData (hoff - sizeOfUHeapDiskTupleData) byte = 0 := by
      intro byte above
      rw [punch]
      split_ifs
      · rfl
      · rw [orTupleFlag, setTupleFlag, pwrite_apart _ (by rw [leBytes_length]; omega)]
        exact zeros byte above
    have clearBits : ∀ bit, bitOf (punch (orTupleFlag (formHeader columns.length hoff)
        uheapHasNull) sizeOfUHeapDiskTupleData (hoff - sizeOfUHeapDiskTupleData))
          sizeOfUHeapDiskTupleData bit = false := by
      intro bit
      rw [bitOf, cleared _ (Nat.le_add_right _ _)]
      exact Nat.zero_testBit _
    refine ⟨{
      memory := punch (orTupleFlag (formHeader columns.length hoff) uheapHasNull)
        sizeOfUHeapDiskTupleData (hoff - sizeOfUHeapDiskTupleData)
      bit := ⟨sizeOfUHeapDiskTupleData - 1, 0x80⟩
      reserve := ⟨sizeOfUHeapDiskTupleData + columns.length / 8, 1 <<< (columns.length % 8)⟩
      data := hoff }, ⟨fun _ => rfl, fun _ => ?_, le_rfl, fun byte above => ?_,
        fun _ bit _ _ => clearBits bit, fun _ bit _ _ => clearBits bit⟩, rfl, ?_, ?_⟩
    · rw [BitCursor.of, Nat.add_zero, Nat.shiftLeft_eq, Nat.one_mul]
    · exact cleared byte (le_trans bounds.1 above)
    · rw [decide_eq_true some]
      refine headed.congr (fun byte low high => ?_) ?_
      · dsimp only
        rw [punch, if_neg (by lia), orTupleFlag, setTupleFlag,
          pwrite_apart _ (by rw [leBytes_length]; lia)]
      · have same : tupleFlag (punch (orTupleFlag (formHeader columns.length hoff) uheapHasNull)
            sizeOfUHeapDiskTupleData (hoff - sizeOfUHeapDiskTupleData)) 0 =
            tupleFlag (orTupleFlag (formHeader columns.length hoff) uheapHasNull) 0 := by
          unfold tupleFlag
          rw [pread_punch_apart _ (by omega)]
        rw [same, orFlags]
        rfl
    · rw [decide_eq_true some, uheapFillDiskTuple, headed.natts, if_pos rfl]
      dsimp only
      rw [← length, show bitmapLen (if nattrsReserveSpace columns.length = true then
        columns.length + nullCount columns else columns.length) =
          hoff - sizeOfUHeapDiskTupleData by grind]
  · have length : headerLen columns.length (nullCount columns) = sizeOfUHeapDiskTupleData := by
      rw [headerLen, if_neg some]
      rfl
    rw [decide_eq_false some]
    rw [length] at headed zeros ⊢
    refine ⟨{ memory := formHeader columns.length sizeOfUHeapDiskTupleData
              bit := ⟨0, 0⟩, reserve := ⟨0, 0⟩, data := sizeOfUHeapDiskTupleData },
      ⟨?_, ?_, le_rfl, zeros, ?_, ?_⟩, rfl, headed, rfl⟩
    · exact fun absurdity => absurd absurdity (by decide)
    · exact fun absurdity => absurd absurdity (by decide)
    · exact fun absurdity => absurd absurdity (by decide)
    · exact fun absurdity => absurd absurdity (by decide)

end Start

section Objects

/-- What an object of variable length says. -/
inductive VarlenaContent where
  | plain (bytes : List UInt8)
  | compressed (object : List UInt8)
  | external (object : List UInt8)
  deriving DecidableEq

/-- The value of an object, whatever its header is. -/
def varlenaContent (object : List UInt8) : VarlenaContent :=
  if varattIsExternal object then .external object
  else if varattIsShort object then .plain (object.drop varhdrszShort)
  else if varattIs4BU object then .plain (object.drop varhdrsz)
  else .compressed object

/-- Two values of an attribute are the same: words of its length, the contents of objects of
variable length, and the bytes of other objects. -/
def Attribute.Same (attr : Attribute) : Option Datum → Option Datum → Prop
  | none, none => True
  | some (.word first), some (.word second) =>
    first % 256 ^ attr.attlen.toNat = second % 256 ^ attr.attlen.toNat
  | some (.pointer first), some (.pointer second) =>
    if attr.attlen = -1 then varlenaContent first = varlenaContent second else first = second
  | _, _ => False

theorem vaHeader_append (object rest : List UInt8) (headed : object ≠ []) :
    vaHeader (object ++ rest) = vaHeader object := by
  cases object with
  | nil => exact absurd rfl headed
  | cons first others => rfl

/-- The size of a varlena is read from its own bytes. -/
theorem VarlenaComplete.varsizeAny_append {object : List UInt8} (complete : VarlenaComplete object)
    (rest : List UInt8) : varsizeAny (object ++ rest) = object.length := by
  have header := vaHeader_append object rest complete.headed
  have external : varattIsExternal (object ++ rest) = varattIsExternal object := by
    rw [varattIsExternal, header, varattIsExternal]
  have short : varattIsShort (object ++ rest) = varattIsShort object := by
    rw [varattIsShort, header, varattIsShort]
  have sized := complete.sized
  rw [varsizeAny, external, short]
  rw [varsizeAny] at sized
  cases isExternal : varattIsExternal object with
  | true =>
    rw [isExternal, if_pos rfl] at sized
    have two : 2 ≤ object.length := by
      rw [← sized, varsizeExternal]
      omega
    have tag : vartag (object ++ rest) = vartag object := by
      rw [vartag, vartag, getD_append _ _ _ _ (by omega)]
    rw [varsizeExternal, tag]
    exact sized
  | false =>
    rw [isExternal] at sized
    cases isShort : varattIsShort object with
    | true =>
      rw [isShort] at sized
      rw [varsizeShort, header]
      exact sized
    | false =>
      rw [isShort] at sized
      rw [varsize, take_append_of_le_length
        (show 4 ≤ object.length from complete.long isShort)]
      exact sized

theorem strlen_append (object rest : List UInt8) (complete : strlen object + 1 = object.length) :
    strlen (object ++ rest) = strlen object := by
  induction object with
  | nil => simp [strlen] at complete
  | cons first others ih =>
    unfold strlen at complete ih ⊢
    rw [cons_append, takeWhile_cons, takeWhile_cons] at *
    cases zero : decide (first ≠ 0) with
    | false => rfl
    | true =>
      rw [zero, if_pos rfl, length_cons, length_cons] at complete
      rw [if_pos rfl, if_pos rfl, length_cons, length_cons, ih (by lia)]

/-- The short form has the same content. -/
theorem shortForm_spec {object : List UInt8} (complete : VarlenaComplete object)
    (long : varattIs4BU object = true) (small : varattConvertedShortSize object ≤ 0x7F) :
    VarlenaComplete
        (UInt8.ofNat (varattConvertedShortSize object * 2 + 1) :: object.drop varhdrsz) ∧
      varattIsShort
        (UInt8.ofNat (varattConvertedShortSize object * 2 + 1) :: object.drop varhdrsz) = true ∧
      varlenaContent
          (UInt8.ofNat (varattConvertedShortSize object * 2 + 1) :: object.drop varhdrsz) =
        varlenaContent object := by
  obtain ⟨size, four⟩ := complete.length_long (varattIsShort_of_4BU object long)
  have header : (UInt8.ofNat (varattConvertedShortSize object * 2 + 1)).toNat =
      varattConvertedShortSize object * 2 + 1 := by
    rw [UInt8.toNat_ofNat']
    lia
  have positive : 1 ≤ varattConvertedShortSize object := by
    rw [varattConvertedShortSize, varhdrszShort]
    omega
  have unlike : UInt8.ofNat (varattConvertedShortSize object * 2 + 1) ≠ 1 := by
    intro same
    rw [same] at header
    lia
  have converted : varattConvertedShortSize object = object.length - 4 + 1 := by
    rw [varattConvertedShortSize, size]
    rfl
  generalize varattConvertedShortSize object = length at *
  have external : varattIsExternal (UInt8.ofNat (length * 2 + 1) :: object.drop varhdrsz) =
      false := by
    rw [varattIsExternal, beq_eq_false_iff_ne]
    exact unlike
  have short : varattIsShort (UInt8.ofNat (length * 2 + 1) :: object.drop varhdrsz) = true := by
    rw [varattIsShort, vaHeader, getD_cons_zero]
    lia
  refine ⟨⟨cons_ne_nil _ _, fun absurdity => ?_, ?_⟩, short, ?_⟩
  · rw [short] at absurdity
    exact absurd absurdity (by decide)
  · rw [varsizeAny, external, if_pos short, varsizeShort, vaHeader,
      getD_cons_zero, length_cons, length_drop, varhdrsz]
    lia
  · have notShort := varattIsShort_of_4BU object long
    have internal : varattIsExternal object = false := by
      by_contra isExternal
      rw [varattIsShort_of_external object (by simpa using isExternal)] at notShort
      exact absurd notShort (by decide)
    rw [varlenaContent, external, if_pos short, varlenaContent, internal,
      notShort, if_pos long]
    rfl

end Objects

section Walk

variable {hasnull enableReserve : Bool} {natts hoff : Nat}

theorem Headed.hasNulls {tuple : DiskTuple} (headed : Headed tuple.memory natts hoff hasnull) :
    tuple.hasNulls = hasnull := by
  have flag := headed.hasnull
  rw [Nat.testBit_zero] at flag
  rw [DiskTuple.hasNulls, uheapHasNull, Nat.and_one_is_mod, ← flag]
  exact decide_eq_decide.mpr (by lia)

variable (tuple : DiskTuple) (column : Column) (index nulls position : Nat)

theorem bytesAt_stored {start : Nat} {stored : List UInt8}
    (here : pread tuple.memory start stored.length = stored)
    (fits : start + stored.length ≤ tuple.diskTupleSize) :
    ∃ rest, tuple.bytesAt start = stored ++ rest := by
  refine ⟨pread tuple.memory (start + stored.length)
    (tuple.diskTupleSize - (start + stored.length)), ?_⟩
  rw [DiskTuple.bytesAt, show tuple.diskTupleSize - start =
    stored.length + (tuple.diskTupleSize - (start + stored.length)) by lia, pread_add, here]

variable {position}

/-- The walk over a null. -/
theorem walkAttr_null (headed : Headed tuple.memory natts hoff true)
    (laid : ColumnLaid true enableReserve natts hoff tuple.memory column index nulls position)
    (reserves : enableReserve = true → nattrsReserveSpace natts = true)
    (within : nattrsReserveSpace natts = true →
      sizeOfUHeapDiskTupleData + (natts + nulls) / 8 < hoff) (isNull : column.isNull = true) :
    tuple.walkAttr column.attr index ⟨position, nulls⟩ =
      (⟨column.finish enableReserve position, nulls + 1⟩, none) := by
  have bit := laid.bit rfl
  rw [isNull] at bit
  have natts := headed.natts
  obtain ⟨start, stored⟩ := column.null_place position isNull
  rw [DiskTuple.walkAttr, headed.hasNulls, DiskTuple.attIsnull, bit, if_pos (by decide),
    DiskTuple.skipNull, DiskTuple.natts, natts, DiskTuple.attIsnull]
  cases space : nattrsReserveSpace _ with
  | false =>
    have unreserved : column.isReserved enableReserve = false := by
      cases reserve : enableReserve with
      | false => rfl
      | true =>
        rw [reserves reserve] at space
        exact absurd space (by decide)
    simp [Column.finish, start, stored, Column.reserved, unreserved]
  | true =>
    have second := laid.reserve rfl isNull (within space)
    rw [second]
    cases reserved : column.isReserved enableReserve with
    | false => simp [Column.finish, start, stored, Column.reserved, reserved]
    | true =>
      have lengths := column.attr.word (column.isReserved_spec reserved).2
      simp only [Column.finish, stored, Column.reserved, reserved,
        length_nil, Bool.and_true, Prod.mk.injEq, Walk.mk.injEq]
      lia

/-- The walk finds the start of a column. -/
theorem attStart_eq
    (laid : ColumnLaid hasnull enableReserve natts hoff tuple.memory column index nulls position)
    (present : column.isNull = false)
    (fits : column.finish enableReserve position ≤ tuple.diskTupleSize) :
    tuple.attStart column.attr position = column.start position := by
  have positive := column.stored_pos present
  unfold Column.finish at fits
  cases column.kind with
  | null absent => exact absurd (column.isNull_of_absent absent) (by simp [present])
  | word value here byval =>
    have lengths := column.attr.word byval
    rw [DiskTuple.attStart, if_neg (by lia)]
    simp [Column.start, byval]
  | fixed object here byref fixed sized | string object here byref varying packed complete =>
    have unlike : column.attr.attlen ≠ -1 := by omega
    rw [DiskTuple.attStart]
    simp [Column.start, present, unlike]
  | varlena object here byref varying complete =>
    have same := column.object_of_pointer here
    rw [DiskTuple.attStart, if_pos varying, attAlignPointer]
    by_cases packed : (varattIsShort column.object || column.shortens) = true
    · -- The first byte is that of a short header, which is not zero.
      have start : column.start position = position := by simp [Column.start, varying, packed]
      have header : varattIsShort column.stored = true := by
        cases shortens : column.shortens with
        | true =>
          obtain ⟨_, _, long, small⟩ := column.shortens_spec shortens
          have form := shortForm_spec (by rw [same]; exact complete) long small
          simp only [Column.stored, present, byref, shortens]
          exact form.2.1
        | false =>
          simpa [Column.stored, present, byref, shortens] using packed
      obtain ⟨rest, bytes⟩ := bytesAt_stored tuple laid.stored (by lia)
      rw [start] at bytes
      rw [start, bytes, vaHeader_append _ _ (length_pos_iff.mp positive), if_pos]
      intro zero
      rw [varattIsShort, zero] at header
      exact absurd header (by decide)
    · have start : column.start position = attAlignNominal position column.attr.attalign := by
        simp only [Column.start, present, byref, Bool.or_self, Bool.false_eq_true, if_false,
          varying, true_and, if_neg packed]
      have bounds := attAlignNominal_bounds position column.attr.attalign
      rw [start]
      by_cases aligned : attAlignNominal position column.attr.attalign = position
      · rw [aligned, ite_self]
      · -- A byte of padding is zero.
        have padding := laid.padding position le_rfl (by rw [start]; lia)
        rw [if_neg]
        rw [not_not, DiskTuple.bytesAt, pread,
          show tuple.diskTupleSize - position = tuple.diskTupleSize - position - 1 + 1 by lia,
          range_succ_eq_map]
        exact padding

/-- The walk finds the end of a column. -/
theorem attAddlength_stored (present : column.isNull = false) (offset : Nat) (rest : List UInt8) :
    attAddlength offset column.attr.attlen (column.stored ++ rest) =
      offset + column.stored.length := by
  cases column.kind with
  | null absent => exact absurd (column.isNull_of_absent absent) (by simp [present])
  | word value here byval =>
    have lengths := column.attr.word byval
    have stored : column.stored.length = column.attr.attlen.toNat := by
      simp [Column.stored, present, byval]
    rw [attAddlength, if_pos (by lia), stored]
  | fixed object here byref positive sized =>
    have unlike : column.attr.attlen ≠ -1 := by omega
    have short := column.shortens_of_attlen unlike
    have stored := column.stored_whole here byref short
    rw [attAddlength]
    lia
  | string object here byref varying packed complete =>
    have unlike : column.attr.attlen ≠ -1 := by omega
    have short := column.shortens_of_attlen unlike
    have stored := column.stored_whole here byref short
    rw [attAddlength, if_neg (by omega), if_neg unlike, stored, strlen_append _ _ complete,
      complete]
  | varlena object here byref varying complete =>
    have same := column.object_of_pointer here
    have whole : VarlenaComplete column.stored := by
      cases shortens : column.shortens with
      | true =>
        obtain ⟨_, _, long, small⟩ := column.shortens_spec shortens
        have form := shortForm_spec (by rw [same]; exact complete) long small
        simpa [Column.stored, present, byref, shortens] using form.1
      | false => simpa [Column.stored, present, byref, shortens, same] using complete
    rw [attAddlength, if_neg (by omega), if_pos varying, whole.varsizeAny_append]

/-- A stored value is fetched. -/
theorem fetchatt_stored (present : column.isNull = false) (rest : List UInt8) :
    column.attr.Same column.value (some (fetchatt column.attr (column.stored ++ rest))) := by
  have length := attAddlength_stored column present 0 rest
  rw [Nat.zero_add] at length
  cases column.kind with
  | null absent => exact absurd (column.isNull_of_absent absent) (by simp [present])
  | word value here byval =>
    have word : column.word = value := by rw [Column.word, here]
    have stored : column.stored = leBytes column.attr.attlen.toNat value := by
      simp [Column.stored, present, byval, word]
    rw [fetchatt, if_pos byval, here, stored, take_left' (leBytes_length _ _), leNat_leBytes_mod]
    exact (Nat.mod_mod _ _).symm
  | fixed object here byref positive sized | string object here byref varying packed complete =>
    have unlike : column.attr.attlen ≠ -1 := by omega
    have short := column.shortens_of_attlen unlike
    have stored := column.stored_whole here byref short
    rw [fetchatt, if_neg (by simp [byref]), length, here, stored]
    simp [Attribute.Same]
  | varlena object here byref varying complete =>
    have same := column.object_of_pointer here
    rw [fetchatt, if_neg (by simp [byref]), length, take_left' rfl, here]
    simp only [Attribute.Same, if_pos varying]
    cases shortens : column.shortens with
    | true =>
      obtain ⟨_, _, long, small⟩ := column.shortens_spec shortens
      have form := shortForm_spec (by rw [same]; exact complete) long small
      simp only [Column.stored, present, byref, shortens, Bool.false_eq_true, if_false, if_true]
      rw [form.2.2, same]
    | false => rw [column.stored_whole here byref shortens]

/-- The walk over a value. -/
theorem walkAttr_value (headed : Headed tuple.memory natts hoff hasnull)
    (laid : ColumnLaid hasnull enableReserve natts hoff tuple.memory column index nulls position)
    (present : column.isNull = false)
    (fits : column.finish enableReserve position ≤ tuple.diskTupleSize) :
    ∃ value, tuple.walkAttr column.attr index ⟨position, nulls⟩ =
        (⟨column.finish enableReserve position, nulls⟩, value) ∧
      column.attr.Same column.value value := by
  have visible : (tuple.hasNulls && tuple.attIsnull index) = false := by
    rw [headed.hasNulls, DiskTuple.attIsnull]
    cases nullable : hasnull with
    | false => rfl
    | true =>
      rw [laid.bit nullable, present]
      rfl
  have reserved : column.reserved enableReserve = 0 := column.reserved_of_present present
  have start := attStart_eq tuple column index nulls laid present fits
  have inside : column.start position + column.stored.length ≤ tuple.diskTupleSize := by
    unfold Column.finish at fits
    lia
  obtain ⟨rest, bytes⟩ := bytesAt_stored tuple laid.stored inside
  refine ⟨some (fetchatt column.attr (column.stored ++ rest)), ?_,
    fetchatt_stored column present rest⟩
  rw [DiskTuple.walkAttr, visible, if_neg (by decide)]
  dsimp only
  rw [start, bytes, attAddlength_stored column present, Column.finish, reserved, Nat.add_zero]

/-- The walk over all columns gives their values. -/
theorem walkAttrs_laid (columns : List Column) (index nulls position : Nat)
    (headed : Headed tuple.memory natts hoff hasnull)
    (laid : Laid hasnull enableReserve natts hoff tuple.memory columns index nulls position)
    (reserves : enableReserve = true → nattrsReserveSpace natts = true)
    (within : hasnull = true → nattrsReserveSpace natts = true →
      sizeOfUHeapDiskTupleData + (natts + nulls + nullCount columns + 7) / 8 ≤ hoff)
    (nullable : hasnull = false → ∀ column ∈ columns, column.isNull = false)
    (fits : columnsEnd enableReserve position columns ≤ tuple.diskTupleSize) :
    List.Forall₂ (fun column value => column.attr.Same column.value value) columns
      (tuple.walkAttrs (columns.map Column.attr) index ⟨position, nulls⟩).2 := by
  induction columns generalizing index nulls position with
  | nil => exact .nil
  | cons column rest ih =>
    have counted := nullCount_cons column rest nulls
    have finish : column.finish enableReserve position ≤ tuple.diskTupleSize :=
      le_trans (le_columnsEnd enableReserve _ rest) fits
    have first : ∃ value, tuple.walkAttr column.attr index ⟨position, nulls⟩ =
        (⟨column.finish enableReserve position, nullsAfter column nulls⟩, value) ∧
          column.attr.Same column.value value := by
      cases isNull : column.isNull with
      | true =>
        have hasNull : hasnull = true := by
          by_contra without
          have present := nullable (by simpa using without) column mem_cons_self
          rw [isNull] at present
          exact absurd present (by decide)
        have after : nullsAfter column nulls = nulls + 1 := by rw [nullsAfter, if_pos isNull]
        have absent : column.value = none := by
          rwa [Column.isNull, isNone_iff_eq_none] at isNull
        subst hasNull
        refine ⟨none, ?_, by rw [absent]; trivial⟩
        rw [after]
        exact walkAttr_null tuple column index nulls headed laid.1 reserves
          (fun space => by have room := within rfl space; lia) isNull
      | false =>
        have after : nullsAfter column nulls = nulls := by
          rw [nullsAfter, if_neg (by simp [isNull])]
        rw [after]
        exact walkAttr_value tuple column index nulls headed laid.1 isNull finish
    obtain ⟨value, step, same⟩ := first
    rw [map_cons, DiskTuple.walkAttrs, step]
    refine .cons same (ih (index + 1) _ _ laid.2 (fun nulls space => ?_)
      (fun without other member => nullable without other (mem_cons_of_mem _ member)) fits)
    lia

end Walk

section RoundTrip

/-- What is known of the memory that was filled from the columns of a row. -/
structure FilledTuple (columns : List Column) (enableReserve : Bool) (filled : FillState) :
    Prop where
  headed : Headed filled.memory columns.length (headerLen columns.length (nullCount columns))
    (decide (0 < nullCount columns))
  laid : Laid (decide (0 < nullCount columns)) enableReserve columns.length
    (headerLen columns.length (nullCount columns)) filled.memory columns 0 0
    (headerLen columns.length (nullCount columns))
  ends : filled.data =
    columnsEnd enableReserve (headerLen columns.length (nullCount columns)) columns
  exact : filled.data = headerLen columns.length (nullCount columns) +
    uheapCalcTupleDataSize columns (headerLen columns.length (nullCount columns)) enableReserve
  word : filled.data < 2 ^ 32
  wide : ∀ column ∈ columns, column.isNull = false → column.attr.attlen < 0 →
    (tupleFlag filled.memory 0).testBit 1 = true

theorem headerLen_room (attrNum nullcount : Nat) (some : 0 < nullcount) :
    sizeOfUHeapDiskTupleData + (attrNum + 7) / 8 ≤ headerLen attrNum nullcount ∧
      (nattrsReserveSpace attrNum = true →
        sizeOfUHeapDiskTupleData + (attrNum + nullcount + 7) / 8 ≤
          headerLen attrNum nullcount) := by
  rw [headerLen, if_pos some, bitmapLen]
  constructor
  · split_ifs <;> omega
  · intro reverse
    rw [if_pos reverse]

theorem isNull_of_nullCount (columns : List Column) (without : decide (0 < nullCount columns) = false)
    (column : Column) (member : column ∈ columns) : column.isNull = false := by
  rw [decide_eq_false_iff_not, nullCount, countP_pos_iff] at without
  by_contra isNull
  exact without ⟨column, member, by simpa using isNull⟩

/-- A tuple is filled. -/
theorem uheapFillDiskTuple_filled {columns : List Column} {enableReserve : Bool}
    {filled : FillState} (few : columns.length ≤ maxTupleAttributeNumber)
    (reserves : enableReserve = true → nattrsReserveSpace columns.length = true)
    (done : uheapFillDiskTuple (decide (0 < nullCount columns)) columns
      (formHeader columns.length (headerLen columns.length (nullCount columns)))
      (uheapCalcTupleDataSize columns (headerLen columns.length (nullCount columns))
        enableReserve) (nattrsReserveSpace columns.length) enableReserve = some filled) :
    FilledTuple columns enableReserve filled := by
  have bounds := headerLen_le few (nullCount_le columns)
  have rooms := headerLen_room columns.length (nullCount columns)
  have nullable := isNull_of_nullCount columns
  obtain ⟨state, fresh, data, headed, equation⟩ :=
    uheapFillDiskTuple_start enableReserve (uheapCalcTupleDataSize columns
      (headerLen columns.length (nullCount columns)) enableReserve) few
  have room : Room (decide (0 < nullCount columns)) enableReserve columns.length
      (headerLen columns.length (nullCount columns)) columns 0 0 := by
    refine ⟨by omega, bounds.1, fun some => (rooms (of_decide_eq_true some)).1,
      fun some reserve => ?_, nullable⟩
    exact (rooms (of_decide_eq_true some)).2 (reserves reserve)
  have computed := uheapCalcTupleDataSize_eq columns
    (headerLen columns.length (nullCount columns)) enableReserve (by omega)
  have low := le_columnsEnd enableReserve (headerLen columns.length (nullCount columns)) columns
  rw [maxTupleAttributeNumber] at few
  rw [equation] at done
  obtain ⟨untouched, laid, wide⟩ := fill_laid _ _ columns state filled 0 0 fresh room done
  obtain ⟨ends, bound⟩ := fill_bounded _ _ state filled 0
    nullable (by omega) (by omega) (by lia) (by lia) done
  have small := fill_small _ _ state filled nullable (by omega) done
  rw [data] at laid ends small
  rw [securecMemMaxLen] at small
  exact ⟨headed.congr untouched.header (untouched.hasNulls.trans headed.hasnull), laid, ends,
    by grind, by lia, wide⟩

/-- What a tuple that was formed says: its header length fits a byte, its data has exactly the
computed length, and reading it gives the null flags and the values of the row. -/
structure RoundTrip (columns : List Column) (enableReserve : Bool) (tuple : DiskTuple) : Prop where
  short : headerLen columns.length (nullCount columns) ≤ 255
  hoff : tuple.hoff = headerLen columns.length (nullCount columns)
  exact : ∃ filled, uheapFillDiskTuple (decide (0 < nullCount columns)) columns
      (formHeader columns.length (headerLen columns.length (nullCount columns)))
      (uheapCalcTupleDataSize columns (headerLen columns.length (nullCount columns))
        enableReserve) (nattrsReserveSpace columns.length) enableReserve = some filled ∧
    filled.memory = tuple.memory ∧
    filled.data = headerLen columns.length (nullCount columns) +
      uheapCalcTupleDataSize columns (headerLen columns.length (nullCount columns)) enableReserve
  size : tuple.diskTupleSize = headerLen columns.length (nullCount columns) +
    uheapCalcTupleDataSize columns (headerLen columns.length (nullCount columns)) enableReserve
  values : ∀ initDefVal, List.Forall₂ (fun column value => column.attr.Same column.value value)
    columns (uheapDeformTuple tuple ⟨columns.map Column.attr, initDefVal⟩)

/-- A filled tuple is deformed to its values. -/
theorem FilledTuple.roundTrip {columns : List Column} {enableReserve : Bool} {filled : FillState}
    (tuple : FilledTuple columns enableReserve filled)
    (reserves : enableReserve = true → nattrsReserveSpace columns.length = true)
    (initDefVal : Nat → Option Datum) :
    List.Forall₂ (fun column value => column.attr.Same column.value value) columns
      (uheapDeformTuple ⟨filled.memory, filled.data⟩ ⟨columns.map Column.attr, initDefVal⟩) := by
  have rooms := headerLen_room columns.length (nullCount columns)
  have nullable := isNull_of_nullCount columns
  have walked := walkAttrs_laid ⟨filled.memory, filled.data⟩ columns 0 0 _ tuple.headed tuple.laid
    reserves (fun some space => (rooms (of_decide_eq_true some)).2 space) nullable
    (le_of_eq tuple.ends.symm)
  have hoff : DiskTuple.hoff ⟨filled.memory, filled.data⟩ =
      headerLen columns.length (nullCount columns) := tuple.headed.hoff
  have natts : DiskTuple.natts ⟨filled.memory, filled.data⟩ = columns.length := tuple.headed.natts
  have whole : (columns.map Column.attr).take columns.length = columns.map Column.attr :=
    take_of_length_le (by rw [length_map])
  unfold uheapDeformTuple uheapDeformTupleGuts
  dsimp only
  rw [hoff, natts, length_map, Nat.min_self, whole, Nat.sub_self, range'_zero, map_nil, append_nil]
  exact walked

theorem Column.flattened_isNull (flattening : Flattening) (column : Column) :
    (column.flattened flattening).isNull = column.isNull := by
  unfold Column.flattened
  split_ifs with composite
  · unfold Column.mayBeComposite at composite
    simp only [Bool.and_eq_true, Bool.not_eq_true'] at composite
    rw [composite.1]
    rfl
  · rfl

/-- Forming a tuple and reading it gives the null flags and the values of the row back, for every
row and with or without space for nulls. The size that is computed is the size that is written,
and the length of the header fits its byte. Only a row with too many columns, a pointer to too large
a value or too much data is refused. -/
theorem uheapFormTuple_round_trip (flattening : Flattening) (columns : List Column)
    (reserveSpaceForNullableAtts : Bool) :
    match uheapFormTuple flattening columns reserveSpaceForNullableAtts with
    | .ok (values, tuple) =>
      values = columns.map (Column.flattened flattening) ∧
        RoundTrip values (reserveSpaceForNullableAtts && nattrsReserveSpace columns.length) tuple
    | .error .tooManyColumns => maxTupleAttributeNumber < columns.length
    | .error .hugePointer => ∃ column ∈ columns, column.isHuge = true
    | .error .allocSize =>
      maxAllocSize < columnsEnd (reserveSpaceForNullableAtts && nattrsReserveSpace columns.length)
        (headerLen columns.length (nullCount columns))
        (columns.map (Column.flattened flattening)) + sizeOfUHeapTupleData
    | .error .copy =>
      2 ^ 32 ≤ columnsEnd (reserveSpaceForNullableAtts && nattrsReserveSpace columns.length)
        (headerLen columns.length (nullCount columns))
        (columns.map (Column.flattened flattening)) := by
  have length : (columns.map (Column.flattened flattening)).length = columns.length :=
    length_map _
  have nulls : nullCount (columns.map (Column.flattened flattening)) = nullCount columns := by
    rw [nullCount, countP_map]
    exact countP_congr fun column _ => by
      rw [Function.comp_apply, Column.flattened_isNull]
  have reserves : (reserveSpaceForNullableAtts && nattrsReserveSpace columns.length) = true →
      nattrsReserveSpace columns.length = true := fun both => (Bool.and_eq_true _ _ ▸ both).2
  unfold uheapFormTuple
  dsimp only
  by_cases many : maxTupleAttributeNumber < columns.length
  · rw [if_pos many]
    exact many
  · rw [if_neg many]
    by_cases huge : columns.any Column.isHuge = true
    · rw [if_pos huge]
      exact any_eq_true.mp huge
    · rw [if_neg huge]
      generalize columns.map (Column.flattened flattening) = values at length nulls ⊢
      generalize (reserveSpaceForNullableAtts && nattrsReserveSpace columns.length) =
        enableReserve at reserves ⊢
      rw [← length] at many reserves ⊢
      rw [← nulls]
      have few := not_lt.mp many
      have bounds := headerLen_le few (nullCount_le values)
      have computed := uheapCalcTupleDataSize_eq values
        (headerLen values.length (nullCount values)) enableReserve (by omega)
      have low := le_columnsEnd enableReserve (headerLen values.length (nullCount values)) values
      by_cases large : maxAllocSize <
          (headerLen values.length (nullCount values) + uheapCalcTupleDataSize values
            (headerLen values.length (nullCount values)) enableReserve) % 2 ^ 32 +
              sizeOfUHeapTupleData
      · rw [if_pos large]
        dsimp only
        omega
      · rw [if_neg large]
        cases done : uheapFillDiskTuple (decide (0 < nullCount values)) values
            (formHeader values.length (headerLen values.length (nullCount values)))
            (uheapCalcTupleDataSize values (headerLen values.length (nullCount values))
              enableReserve) (nattrsReserveSpace values.length) enableReserve with
        | some filled =>
          have facts := uheapFillDiskTuple_filled few reserves done
          have exact := facts.exact
          have word := facts.word
          have size : (headerLen values.length (nullCount values) + uheapCalcTupleDataSize values
              (headerLen values.length (nullCount values)) enableReserve) % 2 ^ 32 =
                filled.data := by
            rw [← exact, Nat.mod_eq_of_lt word]
          rw [size]
          exact ⟨rfl, bounds.2, facts.headed.hoff, ⟨filled, done, rfl, exact⟩, exact,
            facts.roundTrip reserves⟩
        | none =>
          dsimp only
          obtain ⟨state, _, data, _, equation⟩ := uheapFillDiskTuple_start enableReserve
            (uheapCalcTupleDataSize values (headerLen values.length (nullCount values))
              enableReserve) few
          by_contra short
          rw [maxAllocSize] at large
          obtain ⟨next, filled⟩ := fill_succeeds enableReserve
            (uheapCalcTupleDataSize values (headerLen values.length (nullCount values))
              enableReserve) (headerLen values.length (nullCount values)) state
            (isNull_of_nullCount values) (by rw [securecMemMaxLen]; omega) (by omega)
            (by rw [data]; omega)
          rw [equation, filled] at done
          exact absurd done (by simp)

/-- A number in four bytes. -/
def int4Attribute : Attribute :=
  ⟨4, true, .int, .plain, false, 0, 23, by decide, by decide⟩

/-- A text. -/
def textAttribute : Attribute :=
  ⟨-1, false, .int, .extended, false, 0, 25, by decide, by decide⟩

/-- A null number, a text of two letters and a number. -/
def sampleRow : List Column :=
  [⟨int4Attribute, none, fun _ absent => by simp at absent⟩,
    ⟨textAttribute, some (.pointer [24, 0, 0, 0, 104, 105]), fun _ same => by
      rw [mem_some_iff] at same
      subst same
      exact ⟨rfl, by decide, fun _ => ⟨by decide, by decide, by decide⟩, by decide⟩⟩,
    ⟨int4Attribute, some (.word 70000), fun _ same => by
      rw [mem_some_iff] at same
      subst same
      rfl⟩]

/-- A row with a null for which space is reserved and a text that gets a short header. -/
theorem uheapFormTuple_round_trip_sample : ∃ values tuple,
      uheapFormTuple ⟨fun _ object => object, fun _ _ complete => complete⟩ sampleRow true =
        .ok (values, tuple) ∧ RoundTrip values true tuple := by
  have trip := uheapFormTuple_round_trip
    ⟨fun _ object => object, fun _ _ complete => complete⟩ sampleRow true
  have formed : (uheapFormTuple ⟨fun _ object => object, fun _ _ complete => complete⟩ sampleRow
      true).isOk = true := by decide
  cases form : uheapFormTuple ⟨fun _ object => object, fun _ _ complete => complete⟩ sampleRow
      true with
  | ok result =>
    rw [form] at trip
    exact ⟨result.1, result.2, rfl, trip.2⟩
  | error reason =>
    rw [form] at formed
    exact Bool.noConfusion formed

end RoundTrip

end OpenGauss.Ustore
