import OpenGauss.Ustore.TupleForm

/-!
# Reading the attributes of a tuple

A tuple is read from its first attribute on, since the place of an attribute depends on the values
before it. `UHeapDeformTupleGuts` reads a number of attributes at once, `SlotDeformUTuple` goes on
where it stopped before, and `UHeapNoCacheGetAttr` reads one attribute, which it finds at once when
its offset is known: the offsets of attributes that only values of a fixed length stand before are
kept in the descriptor.
-/
namespace OpenGauss.Ustore

open OpenGauss.Base

/-- The memory of a tuple from an offset on. -/
def DiskTuple.bytesAt (tuple : DiskTuple) (offset : Nat) : List UInt8 :=
  pread tuple.memory offset (tuple.diskTupleSize - offset)

/-- `t_hoff`. -/
def DiskTuple.hoff (tuple : DiskTuple) : Nat := tHoff tuple.memory 0

/-- `UHeapDiskTupHasNulls`. -/
def DiskTuple.hasNulls (tuple : DiskTuple) : Bool :=
  decide (tupleFlag tuple.memory 0 &&& uheapHasNull ≠ 0)

/-- `UHeapDiskTupHasVarWidth`. -/
def DiskTuple.hasVarWidth (tuple : DiskTuple) : Bool :=
  decide (tupleFlag tuple.memory 0 &&& uheapHasVarWidth ≠ 0)

/-- `UHeapTupleHeaderGetNatts`. -/
def DiskTuple.natts (tuple : DiskTuple) : Nat := headerGetNatts tuple.memory

/-- `att_isnull`. -/
def DiskTuple.attIsnull (tuple : DiskTuple) (att : Nat) : Bool :=
  !bitOf tuple.memory sizeOfUHeapDiskTupleData att

/-- `att_align_pointer`: the first byte of an object of variable length tells whether it is aligned. -/
def attAlignPointer (offset : Nat) (attalign : AttAlign) (object : List UInt8) : Nat :=
  if vaHeader object ≠ 0 then offset else attAlignNominal offset attalign

/-- `fetchatt`: a word, or the object at a place. -/
def fetchatt (attr : Attribute) (place : List UInt8) : Datum :=
  if attr.attbyval then .word (leNat (place.take attr.attlen.toNat))
  else .pointer (place.take (attAddlength 0 attr.attlen place))

/-- Where a walk over the attributes is. -/
structure Walk where
  /-- The offset in the tuple (`off`). -/
  off : Nat
  /-- The nulls that were met (`nullcount`). -/
  nullcount : Nat
  deriving DecidableEq

/-- The offset behind the space for a null, if there is any. -/
def DiskTuple.skipNull (tuple : DiskTuple) (attr : Attribute) (walk : Walk) : Nat :=
  if nattrsReserveSpace tuple.natts && !tuple.attIsnull (tuple.natts + walk.nullcount) then
    ((walk.off : Int) + attr.attlen).toNat
  else walk.off

/-- Where the value of an attribute starts. -/
def DiskTuple.attStart (tuple : DiskTuple) (attr : Attribute) (off : Nat) : Nat :=
  if attr.attlen = -1 then attAlignPointer off attr.attalign (tuple.bytesAt off)
  else if attr.attbyval then off
  else attAlignNominal off attr.attalign

/-- Read one attribute; the result of a null is none. -/
def DiskTuple.walkAttr (tuple : DiskTuple) (attr : Attribute) (attnum : Nat) (walk : Walk) :
    Walk × Option Datum :=
  if tuple.hasNulls && tuple.attIsnull attnum then
    (⟨tuple.skipNull attr walk, walk.nullcount + 1⟩, none)
  else
    let start := tuple.attStart attr walk.off
    (⟨attAddlength start attr.attlen (tuple.bytesAt start), walk.nullcount⟩,
      some (fetchatt attr (tuple.bytesAt start)))

/-- Read attributes one after the other. -/
def DiskTuple.walkAttrs (tuple : DiskTuple) :
    List Attribute → Nat → Walk → Walk × List (Option Datum)
  | [], _, walk => (walk, [])
  | attr :: rest, attnum, walk =>
    let first := tuple.walkAttr attr attnum walk
    let others := tuple.walkAttrs rest (attnum + 1) first.1
    (others.1, first.2 :: others.2)

/-- A tuple descriptor: its attributes, and the values of those that a tuple does not have. -/
structure TupleDesc where
  attrs : List Attribute
  /-- The default of an attribute (`heapGetInitDefVal`). -/
  initDefVal : Nat → Option Datum

/-- Read the first attributes of a tuple. -/
def uheapDeformTupleGuts (tuple : DiskTuple) (rowDesc : TupleDesc) (unatts : Nat) :
    List (Option Datum) :=
  let natts := min tuple.natts unatts
  (tuple.walkAttrs (rowDesc.attrs.take natts) 0 ⟨tuple.hoff, 0⟩).2 ++
    (List.range' natts (unatts - natts)).map rowDesc.initDefVal

/-- Read all attributes of a tuple. -/
def uheapDeformTuple (tuple : DiskTuple) (rowDesc : TupleDesc) : List (Option Datum) :=
  uheapDeformTupleGuts tuple rowDesc rowDesc.attrs.length

section Slot

/-- A slot with the values that were read already; their number is `tts_nvalid`. -/
structure Slot where
  /-- The values (`tts_values` and `tts_isnull`). -/
  values : List (Option Datum)
  /-- The offset behind the last value (`tts_off`). -/
  off : Nat
  deriving DecidableEq

/-- A slot with a tuple of which nothing was read. -/
def Slot.fresh : Slot := ⟨[], 0⟩

/-- Read attributes up to a number, from where the slot stopped. The walk starts to count the nulls
again. -/
def slotDeformUTuple (tuple : DiskTuple) (tupleDesc : TupleDesc) (slot : Slot) (natts : Nat) :
    Slot :=
  let nattsAvailable := min tuple.natts natts
  let attnum := slot.values.length
  let off := if attnum ≠ 0 then slot.off else tuple.hoff
  let walked := tuple.walkAttrs ((tupleDesc.attrs.drop attnum).take (nattsAvailable - attnum))
    attnum ⟨off, 0⟩
  let available := slot.values ++ walked.2
  { values := available ++
      (List.range' available.length (natts - available.length)).map tupleDesc.initDefVal
    off := walked.1.off }

end Slot

section NoCache

/-- The offsets that a descriptor keeps (`attcacheoff`). -/
abbrev OffsetCache := Nat → Int

/-- A descriptor that keeps no offsets yet. -/
def OffsetCache.empty : OffsetCache := fun _ => -1

/-- Keep an offset. -/
def OffsetCache.keep (cache : OffsetCache) (attnum : Nat) (offset : Int) : OffsetCache :=
  fun other => if other = attnum then offset else cache other

/-- A walk that may keep offsets. -/
structure CachingWalk where
  /-- The offset (`off`). -/
  off : Nat
  /-- The nulls that were met (`nullcount`). -/
  nullcount : Nat
  /-- Offsets may still be kept (`usecache`). -/
  usecache : Bool
  cache : OffsetCache

/-- One turn of the loop that walks to an attribute; at the attribute it stops before its value. -/
def DiskTuple.cachingStep (tuple : DiskTuple) (attr : Attribute) (attnum : Nat) (last : Bool)
    (walk : CachingWalk) : CachingWalk :=
  if tuple.hasNulls && tuple.attIsnull attnum then
    { walk with
      off := tuple.skipNull attr ⟨walk.off, walk.nullcount⟩
      nullcount := walk.nullcount + 1
      usecache := false }
  else
    let aligned :=
      if attr.attlen = -1 then
        { walk with off := attAlignPointer walk.off attr.attalign (tuple.bytesAt walk.off) }
      else if attr.attbyval = false then
        { walk with off := attAlignNominal walk.off attr.attalign }
      else if walk.usecache && !tuple.hasNulls then
        { walk with cache := walk.cache.keep attnum (walk.off - tuple.hoff) }
      else walk
    if last then aligned
    else
      { aligned with
        off := attAddlength aligned.off attr.attlen (tuple.bytesAt aligned.off)
        usecache := aligned.usecache && decide (0 < attr.attlen) }

/-- The loop that walks to an attribute. -/
def DiskTuple.cachingWalk (tuple : DiskTuple) (target : Nat) :
    List Attribute → Nat → CachingWalk → CachingWalk
  | [], _, walk => walk
  | attr :: rest, attnum, walk =>
    if attnum = target then tuple.cachingStep attr attnum true walk
    else tuple.cachingWalk target rest (attnum + 1) (tuple.cachingStep attr attnum false walk)

/-- How many of the next offsets are kept already. -/
def keptRun (cache : OffsetCache) : List Attribute → Nat → Nat
  | [], _ => 0
  | _ :: rest, attnum => if 0 < cache attnum then keptRun cache rest (attnum + 1) + 1 else 0

/-- Keep the offsets of the leading attributes of fixed length. -/
def keepLeading (hoff : Nat) : List Attribute → Nat → Nat → OffsetCache → OffsetCache
  | [], _, _, cache => cache
  | attr :: rest, attnum, off, cache =>
    if attr.attlen ≤ 0 then cache
    else
      let start := if attr.attbyval then off else attAlignNominal off attr.attalign
      keepLeading hoff rest (attnum + 1) (start + attr.attlen.toNat)
        (cache.keep attnum (start - hoff))

/-- The attribute must be walked to. -/
def DiskTuple.slow (tuple : DiskTuple) (tupleDesc : TupleDesc) (attnum : Nat) : Bool :=
  tuple.hasNulls ||
    (tuple.hasVarWidth && (tupleDesc.attrs.take (attnum + 1)).any fun attr =>
      decide (attr.attlen ≤ 0)) ||
    tupleDesc.attrs.head?.any fun attr => decide (attr.attlen ≤ 0)

/-- The offsets that are kept when no attribute must be walked to. -/
def DiskTuple.keepOffsets (tuple : DiskTuple) (tupleDesc : TupleDesc) (cache : OffsetCache) :
    OffsetCache :=
  match tupleDesc.attrs with
  | [] => cache
  | first :: rest =>
    let start := if first.attbyval then tuple.hoff else attAlignNominal tuple.hoff first.attalign
    let started := cache.keep 0 (start - tuple.hoff)
    let run := keptRun started rest 1
    let before := (first :: rest).getD run first
    let off := (started run + before.attlen + tuple.hoff).toNat
    keepLeading tuple.hoff (rest.drop run) (1 + run) off started

/-- Read one attribute that is not null; attributes are counted from zero here. The offsets that the
descriptor keeps afterwards are returned too. -/
def uheapNoCacheGetAttr (tuple : DiskTuple) (tupleDesc : TupleDesc) (cache : OffsetCache)
    (attnum : Nat) : Option Datum × OffsetCache :=
  if tuple.slow tupleDesc attnum then
    let walk := tuple.cachingWalk attnum tupleDesc.attrs 0 ⟨tuple.hoff, 0, true, cache⟩
    (tupleDesc.attrs[attnum]?.map fun attr => fetchatt attr (tuple.bytesAt walk.off), walk.cache)
  else
    let kept := tuple.keepOffsets tupleDesc cache
    let off := (kept attnum + tuple.hoff).toNat
    (tupleDesc.attrs[attnum]?.map fun attr => fetchatt attr (tuple.bytesAt off), kept)

end NoCache

end OpenGauss.Ustore
