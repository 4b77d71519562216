import OpenGauss.Base.BitArray
import OpenGauss.Ustore.InplaceUndo

/-!
# Forming a tuple of the in-place update store

`UHeapFormTuple` puts the values of a row into a tuple. Values that are passed by value are stored
unaligned; a variable length value gets a short header when it is small enough, and others are
aligned as their type says. A null takes no bytes, unless space is reserved for it: then the bitmap
of the tuple has a second half, with one bit for every null. The size of the data is computed first
(`UHeapCalcTupleDataSize`) and the data is written afterwards (`UHeapFillDiskTuple`).

The memory of a tuple is zeroed when it is allocated, and the tuple starts at an address that is
aligned for every type, which is address zero here.
-/
namespace OpenGauss.Ustore

open OpenGauss.Base

/-- The alignment of a type (`attalign`). -/
inductive AttAlign where
  /-- `c`. -/
  | char
  /-- `s`. -/
  | short
  /-- `i`. -/
  | int
  /-- `d`. -/
  | double
  deriving DecidableEq

/-- How values of a type may be stored (`attstorage`). -/
inductive AttStorage where
  /-- `p`. -/
  | plain
  /-- `e`. -/
  | external
  /-- `m`. -/
  | main
  /-- `x`. -/
  | extended
  deriving DecidableEq

/-- What a tuple descriptor says of an attribute. The catalog has types of these kinds only: those
passed by value fit a machine word, and C strings are not aligned. -/
structure Attribute where
  /-- The length, `-1` for variable length values and `-2` for C strings. -/
  attlen : Int
  attbyval : Bool
  attalign : AttAlign
  attstorage : AttStorage
  attisdropped : Bool
  attndims : Nat
  atttypid : Nat
  word : attbyval = true → attlen = 1 ∨ attlen = 2 ∨ attlen = 4 ∨ attlen = 8
  object : attbyval = false → 0 < attlen ∨ attlen = -1 ∨ attlen = -2 ∧ attalign = .char

/-- A value: a word, or a pointer to an object. -/
inductive Datum where
  | word (value : Nat)
  | pointer (object : List UInt8)
  deriving DecidableEq

section Varlena

/-- The first byte of a variable length object. -/
def vaHeader (object : List UInt8) : UInt8 := object.getD 0 0

/-- `VARATT_IS_1B`. -/
def varattIsShort (object : List UInt8) : Bool := (vaHeader object).toNat % 2 == 1

/-- `VARATT_IS_1B_E`. -/
def varattIsExternal (object : List UInt8) : Bool := vaHeader object == 1

/-- `VARATT_IS_4B_U`. -/
def varattIs4BU (object : List UInt8) : Bool := (vaHeader object).toNat % 4 == 0

/-- The type of an external object (`VARTAG_EXTERNAL`). -/
def vartag (object : List UInt8) : Nat := (object.getD 1 0).toNat

/-- `VARATT_IS_HUGE_TOAST_POINTER`. -/
def varattIsHugeToastPointer (object : List UInt8) : Bool :=
  varattIsExternal object && vartag object / 128 == 1

/-- `VARTAG_SIZE`; the trap for an unknown tag has the value one. -/
def vartagSize (tag : Nat) : Nat :=
  if tag / 128 = 0 then
    if tag = 1 then 8 else if tag = 18 then 16 else if tag = 8 then 18 else if tag = 28 then 16
    else 1
  else
    if tag % 128 = 1 then 8 else if tag % 128 = 18 then 16 else if tag % 128 = 8 then 18
    else if tag % 128 = 28 then 16 else 1

/-- `VARSIZE_EXTERNAL`. -/
def varsizeExternal (object : List UInt8) : Nat := 2 + vartagSize (vartag object)

/-- `VARSIZE_1B`. -/
def varsizeShort (object : List UInt8) : Nat := (vaHeader object).toNat / 2

/-- `VARSIZE_4B`. -/
def varsize (object : List UInt8) : Nat := leNat (object.take 4) / 4

/-- `VARSIZE_ANY`. -/
def varsizeAny (object : List UInt8) : Nat :=
  if varattIsExternal object then varsizeExternal object
  else if varattIsShort object then varsizeShort object
  else varsize object

/-- `VARHDRSZ`. -/
def varhdrsz : Nat := 4

/-- `VARHDRSZ_SHORT`. -/
def varhdrszShort : Nat := 1

/-- `VARATT_SHORT_MAX`. -/
def varattShortMax : Nat := 0x7F

/-- `VARATT_CONVERTED_SHORT_SIZE`. -/
def varattConvertedShortSize (object : List UInt8) : Nat :=
  varsize object - varhdrsz + varhdrszShort

/-- `VARATT_CAN_MAKE_SHORT`. -/
def varattCanMakeShort (object : List UInt8) : Bool :=
  varattIs4BU object && decide (varattConvertedShortSize object ≤ varattShortMax)

/-- A variable length object with all its bytes. -/
structure VarlenaComplete (object : List UInt8) : Prop where
  headed : object ≠ []
  long : varattIsShort object = false → varhdrsz ≤ object.length
  sized : varsizeAny object = object.length

end Varlena

/-- The length of a C string (`strlen`). -/
def strlen (object : List UInt8) : Nat := (object.takeWhile (· ≠ 0)).length

/-- The values an attribute has. -/
def Attribute.Admits (attr : Attribute) : Datum → Prop
  | .word _ => attr.attbyval = true
  | .pointer object => attr.attbyval = false ∧
      (0 < attr.attlen → (object.length : Int) = attr.attlen) ∧
      (attr.attlen = -1 → VarlenaComplete object) ∧
      (attr.attlen = -2 → strlen object + 1 = object.length)

/-- An attribute of a row, with its value there; a null has none. -/
structure Column where
  attr : Attribute
  value : Option Datum
  typed : ∀ datum ∈ value, attr.Admits datum

/-- `is_nulls`. -/
def Column.isNull (column : Column) : Bool := column.value.isNone

/-- The word of a value that is passed by value. -/
def Column.word (column : Column) : Nat :=
  match column.value with
  | some (.word value) => value
  | _ => 0

/-- The object of a value that is a pointer (`DatumGetPointer`). -/
def Column.object (column : Column) : List UInt8 :=
  match column.value with
  | some (.pointer object) => object
  | _ => []

/-- `att_align_nominal`. -/
def attAlignNominal (offset : Nat) : AttAlign → Nat
  | .char => offset
  | .short => (offset + 1) / 2 * 2
  | .int => (offset + 3) / 4 * 4
  | .double => (offset + 7) / 8 * 8

/-- `att_align_datum`. -/
def attAlignDatum (offset : Nat) (attr : Attribute) (object : List UInt8) : Nat :=
  if attr.attlen = -1 ∧ (varattIsShort object || varattIsHugeToastPointer object) then offset
  else attAlignNominal offset attr.attalign

/-- `att_addlength_pointer`. -/
def attAddlength (offset : Nat) (attlen : Int) (object : List UInt8) : Nat :=
  if 0 < attlen then offset + attlen.toNat
  else if attlen = -1 then offset + varsizeAny object
  else offset + (strlen object + 1)

/-- The bytes of a bitmap (`BITMAPLEN`). -/
def bitmapLen (natts : Nat) : Nat := (natts + 7) / 8

/-- Tuples with so many attributes have room for a second half of the bitmap. -/
def nattrsReserveSpace (nattrs : Nat) : Bool :=
  decide (nattrs ≤ (255 - sizeOfUHeapDiskTupleData) * 8 / 2)

/-- Space for a null is reserved in the data. -/
def Column.isReserved (column : Column) (enableReserve : Bool) : Bool :=
  !(!enableReserve || !column.attr.attbyval || column.attr.attisdropped)

section Size

/-- The size after one attribute; sizes are words of 32 bits. -/
def calcAttr (enableReserve : Bool) (size : Nat) (column : Column) : Nat :=
  let attr := column.attr
  if column.isNull && !column.isReserved enableReserve then size
  else if attr.attbyval then (size + attr.attlen.toNat) % 2 ^ 32
  else if attr.attlen = -1 ∧ attr.attstorage ≠ .plain ∧ varattCanMakeShort column.object then
    (size + varattConvertedShortSize column.object) % 2 ^ 32
  else
    attAddlength (attAlignDatum size attr column.object) attr.attlen column.object % 2 ^ 32

/-- The size of the data of a tuple with a header of the given length. -/
def uheapCalcTupleDataSize (columns : List Column) (hoff : Nat) (enableReserve : Bool) : Nat :=
  (columns.foldl (calcAttr enableReserve) hoff + 2 ^ 32 - hoff) % 2 ^ 32

end Size

section Fill

/-- The longest copy that the library makes (`SECUREC_MEM_MAX_LEN`). -/
def securecMemMaxLen : Nat := 0x7FFFFFFF

/-- `memcpy_s`; no result when the copy does not fit. -/
def memcpyS (memory : Nat → UInt8) (dest destMax : Nat) (source : List UInt8) (count : Nat) :
    Option (Nat → UInt8) :=
  if destMax = 0 ∨ securecMemMaxLen < destMax ∨ destMax < count then none
  else some (pwrite memory dest (source.take count))

/-- Set flags of a tuple. -/
def orTupleFlag (memory : Nat → UInt8) (mask : Nat) : Nat → UInt8 :=
  setTupleFlag memory 0 (tupleFlag memory 0 ||| mask)

/-- `UHEAP_HAS_NULL`. -/
def uheapHasNull : Nat := 0x0001

/-- `UHEAP_HASVARWIDTH`. -/
def uheapHasVarWidth : Nat := 0x0002

/-- `HEAP_HASEXTERNAL`. -/
def heapHasExternal : Nat := 0x0004

/-- The state of the loop that writes the data. -/
structure FillState where
  memory : Nat → UInt8
  /-- The bit of the attribute before (`bitP` and `bitmask`). -/
  bit : BitCursor
  /-- The bit of the next null (`bitPReserve` and `bitmaskReserve`). -/
  reserve : BitCursor
  /-- Where the next value goes (`data`). -/
  data : Nat

/-- Copy an object to its place and move on behind it. -/
def FillState.copy (state : FillState) (dest destMax : Nat) (source : List UInt8) (count : Nat) :
    Option FillState :=
  (memcpyS state.memory dest destMax source count).map fun memory =>
    { state with memory := memory, data := dest + count }

/-- Write a value. -/
def fillValue (remainingLen : Nat) (state : FillState) (column : Column) : Option FillState :=
  let attr := column.attr
  let object := column.object
  if attr.attbyval then
    some { state with
      memory := pwrite state.memory state.data (leBytes attr.attlen.toNat column.word)
      data := state.data + attr.attlen.toNat }
  else if attr.attlen = -1 then
    let varying := { state with memory := orTupleFlag state.memory uheapHasVarWidth }
    if varattIsExternal object then
      let flagged := { varying with memory := orTupleFlag varying.memory heapHasExternal }
      flagged.copy flagged.data remainingLen object (varsizeExternal object)
    else if varattIsShort object then
      varying.copy varying.data remainingLen object (varsizeShort object)
    else if attr.attstorage ≠ .plain ∧ varattCanMakeShort object then
      let attrLength := varattConvertedShortSize object
      let headed := { varying with
        memory := pwrite varying.memory varying.data [UInt8.ofNat (attrLength * 2 + 1)] }
      headed.copy (headed.data + 1) remainingLen (object.drop varhdrsz) (attrLength - 1)
    else
      varying.copy (attAlignNominal varying.data attr.attalign) remainingLen object
        (varsize object)
  else if attr.attlen = -2 then
    let varying := { state with memory := orTupleFlag state.memory uheapHasVarWidth }
    varying.copy varying.data remainingLen object (strlen object + 1)
  else
    state.copy (attAlignNominal state.data attr.attalign) remainingLen object attr.attlen.toNat

/-- Write one attribute: its bit, and its value or the space that is reserved for it. -/
def fillAttr (hasnull enableReserve : Bool) (dataSize dataStart : Nat) (state : FillState)
    (column : Column) : Option FillState :=
  let remainingLen := (dataSize + 2 ^ 64 - (state.data - dataStart)) % 2 ^ 64
  if hasnull then
    let walked := { state with bit := state.bit.next }
    if column.isNull then
      let skipped :=
        if column.isReserved enableReserve then
          { walked with
            memory := orByte walked.memory walked.reserve
            data := walked.data + column.attr.attlen.toNat }
        else walked
      some { skipped with reserve := skipped.reserve.next }
    else
      fillValue remainingLen { walked with memory := orByte walked.memory walked.bit } column
  else fillValue remainingLen state column

/-- `UHeapTupleHeaderGetNatts`. -/
def headerGetNatts (memory : Nat → UInt8) : Nat := tupleFlag2 memory 0 &&& uheapNattsMask

/-- The nulls of a row. -/
def nullCount (columns : List Column) : Nat := columns.countP Column.isNull

/-- Write the bitmap and the data of a tuple whose header has the number of attributes. -/
def uheapFillDiskTuple (hasnull : Bool) (columns : List Column) (memory : Nat → UInt8)
    (dataSize : Nat) (enableReverseBitmap enableReserve : Bool) : Option FillState :=
  let tupleAttrs := headerGetNatts memory
  if hasnull then
    let bitmapBytes := bitmapLen
      (if enableReverseBitmap then tupleAttrs + nullCount columns else tupleAttrs)
    let cleared := punch (orTupleFlag memory uheapHasNull) sizeOfUHeapDiskTupleData bitmapBytes
    let dataStart := sizeOfUHeapDiskTupleData + bitmapBytes
    columns.foldlM (fillAttr true enableReserve dataSize dataStart)
      { memory := cleared
        bit := ⟨sizeOfUHeapDiskTupleData - 1, 0x80⟩
        reserve := ⟨sizeOfUHeapDiskTupleData + tupleAttrs / 8, 1 <<< (tupleAttrs % 8)⟩
        data := dataStart }
  else
    columns.foldlM (fillAttr false enableReserve dataSize sizeOfUHeapDiskTupleData)
      { memory := memory, bit := ⟨0, 0⟩, reserve := ⟨0, 0⟩, data := sizeOfUHeapDiskTupleData }

end Fill

section Form

/-- `MaxTupleAttributeNumber`. -/
def maxTupleAttributeNumber : Nat := 1664

/-- `MaxAllocSize`. -/
def maxAllocSize : Nat := 0x3FFFFFFF

/-- `sizeof(UHeapTupleData)`. -/
def sizeOfUHeapTupleData : Nat := 72

/-- `BLOBOID` and `CLOBOID`. -/
def lobTypes : List Nat := [88, 90]

/-- What goes wrong with a row. -/
inductive FormError where
  | tooManyColumns
  | hugePointer
  | allocSize
  | copy
  deriving DecidableEq

/-- A tuple in its own memory. -/
structure DiskTuple where
  memory : Nat → UInt8
  /-- The length of the tuple (`disk_tuple_size`). -/
  diskTupleSize : Nat

/-- How external parts of a composite value are fetched (`toast_flatten_tuple_attribute`): the
result is a variable length object too. -/
structure Flattening where
  flatten : Attribute → List UInt8 → List UInt8
  complete : ∀ attr object, VarlenaComplete object → VarlenaComplete (flatten attr object)

/-- A value that may be composite. -/
def Column.mayBeComposite (column : Column) : Bool :=
  !column.isNull && (column.attr.attlen == -1 && column.attr.attalign == .double &&
    column.attr.attndims == 0 && varattIs4BU column.object)

/-- A pointer to more than a gigabyte in an attribute that may not have one. -/
def Column.isHuge (column : Column) : Bool :=
  !column.isNull && (column.attr.attlen == -1 && column.attr.attalign == .int &&
    varattIsHugeToastPointer column.object && !lobTypes.contains column.attr.atttypid)

/-- A composite is a whole varlena. -/
theorem Column.mayBeComposite_spec (column : Column) (composite : column.mayBeComposite = true) :
    column.attr.attlen = -1 ∧ column.attr.attbyval = false ∧ VarlenaComplete column.object := by
  simp only [Column.mayBeComposite, Bool.and_eq_true, beq_iff_eq] at composite
  obtain ⟨present, ⟨⟨varying, _⟩, _⟩, _⟩ := composite
  have typed := column.typed
  unfold Column.isNull at present
  unfold Column.object
  cases value : column.value with
  | none => simp [value] at present
  | some datum =>
    cases datum with
    | word word =>
      have word := column.attr.word (typed _ value)
      lia
    | pointer object =>
      obtain ⟨reference, _, complete, _⟩ := typed _ value
      exact ⟨varying, reference, complete varying⟩

/-- A column whose value has no external parts any more, if it may be composite. -/
def Column.flattened (flattening : Flattening) (column : Column) : Column :=
  if composite : column.mayBeComposite = true then
    { attr := column.attr
      value := some (.pointer (flattening.flatten column.attr column.object))
      typed := by
        intro datum same
        obtain ⟨varying, reference, complete⟩ := column.mayBeComposite_spec composite
        rw [Option.mem_def, Option.some.injEq] at same
        subst same
        exact ⟨reference, fun fixed => by omega,
          fun _ => flattening.complete _ _ complete, fun string => by omega⟩ }
  else column

/-- The length of the header of a tuple. -/
def headerLen (attrNum nullcount : Nat) : Nat :=
  sizeOfUHeapDiskTupleData +
    if 0 < nullcount then
      bitmapLen (if nattrsReserveSpace attrNum then attrNum + nullcount else attrNum)
    else 0

/-- The zeroed memory of a tuple with its number of attributes and the length of its header. -/
def formHeader (attrNum hoff : Nat) : Nat → UInt8 :=
  let zeroed : Nat → UInt8 := fun _ => 0
  let counted := setTupleFlag2 zeroed 0 (tupleFlag2 zeroed 0 &&& uheapFlag2Mask ||| attrNum)
  pwrite counted 10 [UInt8.ofNat hoff]

/-- Form a tuple. The values are returned too, since composite ones are replaced. -/
def uheapFormTuple (flattening : Flattening) (columns : List Column)
    (reserveSpaceForNullableAtts : Bool) : Except FormError (List Column × DiskTuple) :=
  let attrNum := columns.length
  let enableReverseBitmap := nattrsReserveSpace attrNum
  let enableReserve := reserveSpaceForNullableAtts && enableReverseBitmap
  if maxTupleAttributeNumber < attrNum then .error .tooManyColumns
  else if columns.any Column.isHuge then .error .hugePointer
  else
    let values := columns.map (Column.flattened flattening)
    let nullcount := nullCount columns
    let hoff := headerLen attrNum nullcount
    let dataSize := uheapCalcTupleDataSize values hoff enableReserve
    let diskTupleSize := (hoff + dataSize) % 2 ^ 32
    if maxAllocSize < diskTupleSize + sizeOfUHeapTupleData then .error .allocSize
    else
      match uheapFillDiskTuple (decide (0 < nullcount)) values (formHeader attrNum hoff) dataSize
          enableReverseBitmap enableReserve with
      | none => .error .copy
      | some filled => .ok (values, ⟨filled.memory, diskTupleSize⟩)

end Form

end OpenGauss.Ustore
