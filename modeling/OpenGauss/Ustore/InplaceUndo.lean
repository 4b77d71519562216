import OpenGauss.Base.Bytes
import OpenGauss.Base.Scatter
import OpenGauss.Ustore.Page

/-!
# Undoing an update in place

`UHeapUpdate` may write a new tuple over an old one. Before, it saves the header of the old tuple
and the middle of its data in an undo record: what the two tuples share at both ends stays on the
page and is not saved, when the tuples have one size and the relation is not decoded logically.
`CopyTupleFromUndoRecord` puts the old tuple together again from the record and from what is left of
it under the new tuple, whose header may have another length.

A tuple stands somewhere in a memory, which is the page for the old one. The header starts with the
transaction id in four bytes; the transaction slot follows, the flags, the number of attributes and
the length of the header, at byte 10.
-/

namespace OpenGauss.Ustore

open List OpenGauss.Base

/-- The bytes of a transaction id in a tuple (`OffsetTdId`). -/
def offsetTdId : Nat := 4

/-- The transaction id of a tuple that everyone sees (`FrozenTransactionId`). -/
def frozenTransactionId : Nat := 2

/-- The length from which on shared bytes are left out (`MIN_SAVING_LEN`). -/
def minSavingLen : Nat := 3

/-- The bits of a tuple's flags that tell its visibility (`UHEAP_VIS_STATUS_MASK`). -/
def uheapVisStatusMask : Nat := 0xFFF0

/-- The other bits. -/
def uheapKeptMask : Nat := 0x000F

/-- The updater holds an exclusive lock and the tuple was updated in place
(`UHEAP_XID_EXCL_LOCK | UHEAP_INPLACE_UPDATED`). -/
def infomaskInplace : Nat := 0x0420

/-- The id of a tuple is that of a transaction (`SINGLE_LOCKER_XID_IS_TRANS`). -/
def singleLockerXidIsTrans : Nat := 0x8000

/-- The bits of the number of attributes (`UHEAP_NATTS_MASK`). -/
def uheapNattsMask : Nat := 0x07FF

/-- The other bits of the second flags. -/
def uheapFlag2Mask : Nat := 0xF800

/-- The length of the header of a tuple (`t_hoff`). -/
def tHoff (memory : Nat → UInt8) (tuple : Nat) : Nat := (memory (tuple + 10)).toNat

/-- The flags of a tuple (`flag`). -/
def tupleFlag (memory : Nat → UInt8) (tuple : Nat) : Nat := leNat (pread memory (tuple + 6) 2)

/-- Set the flags. -/
def setTupleFlag (memory : Nat → UInt8) (tuple flag : Nat) : Nat → UInt8 :=
  pwrite memory (tuple + 6) (leBytes 2 flag)

/-- The second flags of a tuple (`flag2`). -/
def tupleFlag2 (memory : Nat → UInt8) (tuple : Nat) : Nat := leNat (pread memory (tuple + 8) 2)

/-- Set the second flags. -/
def setTupleFlag2 (memory : Nat → UInt8) (tuple flag2 : Nat) : Nat → UInt8 :=
  pwrite memory (tuple + 8) (leBytes 2 flag2)

/-- Set the transaction slot (`UHeapTupleHeaderSetTDSlot`). -/
def setTDSlot (memory : Nat → UInt8) (tuple slot : Nat) : Nat → UInt8 :=
  pwrite memory (tuple + offsetTdId) (leBytes 1 slot)

/-- Set the transaction id. -/
def setTupleXid (memory : Nat → UInt8) (tuple xid : Nat) : Nat → UInt8 :=
  pwrite memory tuple (leBytes offsetTdId xid)

/-- A tuple in a memory (`UHeapTuple`). -/
structure UHeapTuple where
  memory : Nat → UInt8
  /-- Where the tuple stands (`disk_tuple`). -/
  diskTuple : Nat
  /-- The length of the tuple (`disk_tuple_size`). -/
  diskTupleSize : Nat
  fixed : sizeOfUHeapDiskTupleData ≤ tHoff memory diskTuple
  headed : tHoff memory diskTuple ≤ diskTupleSize
  onPage : diskTupleSize ≤ blockSize

/-- The length of the header of a tuple. -/
def UHeapTuple.tHoff (tuple : UHeapTuple) : Nat := Ustore.tHoff tuple.memory tuple.diskTuple

/-- The bytes of a tuple. -/
def UHeapTuple.bytes (tuple : UHeapTuple) : List UInt8 :=
  pread tuple.memory tuple.diskTuple tuple.diskTupleSize

/-- The data of a tuple. -/
def UHeapTuple.data (tuple : UHeapTuple) : List UInt8 :=
  pread tuple.memory (tuple.diskTuple + tuple.tHoff) (tuple.diskTupleSize - tuple.tHoff)

/-- How many bytes two runs share at their start. -/
def sharedLen : List UInt8 → List UInt8 → Nat
  | old :: olds, new :: news => if old = new then sharedLen olds news + 1 else 0
  | _, _ => 0

/-- Short runs of shared bytes do not count. -/
def savedLen (length : Nat) : Nat := if length < minSavingLen then 0 else length

/-- What two tuples share at the ends of their data. -/
structure XorDelta where
  prefixlen : Nat
  suffixlen : Nat
  deriving DecidableEq

/-- Compare the data of the old and the new tuple. -/
def xorDelta (old new : UHeapTuple) (logicallyLogged : Bool) : XorDelta :=
  if new.diskTupleSize = old.diskTupleSize ∧ logicallyLogged = false then
    let prefixlen := savedLen (sharedLen old.data new.data)
    ⟨prefixlen, savedLen (sharedLen (old.data.drop prefixlen).reverse
      (new.data.drop prefixlen).reverse)⟩
  else ⟨0, 0⟩

/-- Which of the two are there (`xorDeltaFlags`). -/
def XorDelta.flags (delta : XorDelta) : Nat :=
  (if 0 < delta.prefixlen then 1 else 0) + if 0 < delta.suffixlen then 2 else 0

/-- The length of a shared end in the record, if there is one. -/
def lengthField (length : Nat) : List UInt8 := if 0 < length then leBytes 2 length else []

/-- The bytes that are reserved for the old tuple (`undoXorDeltaSize`). -/
def undoXorDeltaSize (old : UHeapTuple) (delta : XorDelta) : Nat :=
  (if 0 < delta.prefixlen then 2 else 0) + (if 0 < delta.suffixlen then 2 else 0) +
    (1 + (old.tHoff - offsetTdId) + 1) +
    (old.diskTupleSize - old.tHoff - delta.prefixlen - delta.suffixlen)

/-- The size of the id of a subtransaction. -/
def sizeOfSubTransactionId : Nat := 8

/-- A subtransaction that runs; its id is not the invalid one. -/
structure SubTransaction where
  subxid : Nat
  valid : subxid ≠ 0

/-- The id of the subtransaction, or the invalid one. -/
def subxidOf (sub : Option SubTransaction) : Nat := (sub.map SubTransaction.subxid).getD 0

/-- The bytes that are reserved for the raw data of the record (`UHeapPrepareUndoUpdate`). -/
def reservedLen (old : UHeapTuple) (delta : XorDelta) (sub : Option SubTransaction) : Nat :=
  undoXorDeltaSize old delta + if subxidOf sub ≠ 0 then sizeOfSubTransactionId else 0

/-- The undo record of an update in place. -/
structure InplaceRecord where
  rawdata : List UInt8
  /-- Whether the id of a subtransaction is at its end (`UNDO_UREC_INFO_CONTAINS_SUBXACT`). -/
  containSubXact : Bool
  deriving DecidableEq

/-- The header of the old tuple on the page is changed: its slot, its flags and its id. -/
def markOldTuple (page : Nat → UInt8) (tuple slot tupleXid : Nat) : Nat → UInt8 :=
  let slotted := setTDSlot page tuple slot
  let cleared := setTupleFlag slotted tuple (tupleFlag slotted tuple &&& uheapKeptMask)
  let locked := setTupleFlag cleared tuple (tupleFlag cleared tuple ||| infomaskInplace)
  let named := setTupleXid locked tuple tupleXid
  setTupleFlag named tuple (tupleFlag named tuple ||| singleLockerXidIsTrans)

/-- The header of the new tuple is changed. -/
def markNewTuple (memory : Nat → UInt8) (tuple slot rawXid : Nat) : Nat → UInt8 :=
  let slotted := setTDSlot memory tuple slot
  let cleared := setTupleFlag slotted tuple (tupleFlag slotted tuple &&& uheapKeptMask)
  let locked := setTupleFlag cleared tuple (tupleFlag cleared tuple ||| infomaskInplace)
  let flagged := setTupleFlag locked tuple (tupleFlag locked tuple ||| singleLockerXidIsTrans)
  setTupleXid flagged tuple rawXid

/-- Write the new tuple over the old one (`PutInplaceUpdateTuple`). -/
def putInplaceUpdateTuple (page : Nat → UInt8) (tuple : Nat) (memory : Nat → UInt8)
    (newTuple newSize : Nat) : Nat → UInt8 :=
  let copied := pwrite page (tuple + sizeOfUHeapDiskTupleData)
    (pread memory (newTuple + sizeOfUHeapDiskTupleData) (newSize - sizeOfUHeapDiskTupleData))
  let visible := setTupleFlag copied tuple (tupleFlag copied tuple &&& uheapVisStatusMask)
  let flagged := setTupleFlag visible tuple
    (tupleFlag visible tuple ||| tupleFlag memory newTuple &&& uheapKeptMask)
  let counted := setTupleFlag2 flagged tuple
    (tupleFlag2 flagged tuple &&& uheapFlag2Mask ||| tupleFlag2 memory newTuple &&& uheapNattsMask)
  pwrite counted (tuple + 10) [memory (newTuple + 10)]

/-- The page, the line pointer and the record after an update in place. -/
structure InplaceUpdate where
  page : Nat → UInt8
  row : RowPtr
  record : InplaceRecord

/-- Update a tuple in place (`UHeapUpdate` from the size of the undo data on); no result if the raw
data has another size than was computed. The old tuple is the one of a line pointer. -/
def uheapUpdateInplace (row : RowPtr) (old new : UHeapTuple) (logicallyLogged : Bool)
    (slot tupleXid rawXid : Nat) (sub : Option SubTransaction) : Option InplaceUpdate :=
  let delta := xorDelta old new logicallyLogged
  let header := UInt8.ofNat old.tHoff ::
    pread old.memory (old.diskTuple + offsetTdId) (old.tHoff - offsetTdId) ++
      [UInt8.ofNat delta.flags]
  let marked := markOldTuple old.memory old.diskTuple slot tupleXid
  let newMemory := markNewTuple new.memory new.diskTuple slot rawXid
  let lengths := lengthField delta.prefixlen ++ lengthField delta.suffixlen
  let middle := pread marked (old.diskTuple + old.tHoff + delta.prefixlen)
    (old.diskTupleSize - old.tHoff - delta.prefixlen - delta.suffixlen)
  let rawdata := header ++ lengths ++ middle
  if rawdata.length ≠ undoXorDeltaSize old delta then none
  else
    some {
      page := putInplaceUpdateTuple marked old.diskTuple newMemory new.diskTuple new.diskTupleSize
      row := if row.len < new.diskTupleSize then { row with len := new.diskTupleSize } else row
      record := {
        rawdata := rawdata ++
          if sub.isSome then leBytes sizeOfSubTransactionId (subxidOf sub) else []
        containSubXact := sub.isSome } }

/-- Put the old tuple together from an undo record and the page (the branch of
`CopyTupleFromUndoRecord` for updates in place); no result for a line pointer without a tuple. -/
def copyTupleFromUndoRecord (record : InplaceRecord) (page : Nat → UInt8) (row : RowPtr) :
    Option ((Nat → UInt8) × RowPtr) :=
  if row.flags ≠ .normal then none
  else
    let diskTuple := row.offset
    let undoData := record.rawdata
    let subxidSize := if record.containSubXact then sizeOfSubTransactionId else 0
    let hoff := (undoData.getD 0 0).toNat
    let flagsAt := 1 + hoff - offsetTdId
    let flags := (undoData.getD flagsAt 0).toNat
    let prefixAt := flagsAt + 1
    let prefixlen := if flags &&& 1 ≠ 0 then leNat (slice undoData prefixAt 2) else 0
    let suffixAt := if flags &&& 1 ≠ 0 then prefixAt + 2 else prefixAt
    let suffixlen := if flags &&& 2 ≠ 0 then leNat (slice undoData suffixAt 2) else 0
    let readSize := if flags &&& 2 ≠ 0 then suffixAt + 2 else suffixAt
    let header := leBytes offsetTdId frozenTransactionId ++ slice undoData 1 (hoff - offsetTdId)
    let start := if flags &&& 1 ≠ 0 then
      pread page (diskTuple + tHoff page diskTuple) prefixlen else []
    let newp := diskTuple + tHoff page diskTuple + prefixlen
    let oldlen := undoData.length - readSize - subxidSize + prefixlen + suffixlen
    let newlen := row.len - tHoff page diskTuple
    let oldDataLen := oldlen - prefixlen - suffixlen
    let middle := slice undoData readSize oldDataLen
    let finish := if flags &&& 2 ≠ 0 then
      pread page (newp + newlen - prefixlen - suffixlen) suffixlen else []
    let oldDiskTuple := header ++ start ++ middle ++ finish
    let newTupleLength := oldlen + hoff
    some (pwrite page diskTuple (oldDiskTuple.take newTupleLength),
      { row with len := newTupleLength })

section Sharing

theorem sharedLen_spec : ∀ old new : List UInt8, sharedLen old new ≤ old.length ∧
      old.take (sharedLen old new) = new.take (sharedLen old new)
  | [], new => by simp [sharedLen]
  | old :: olds, [] => by simp [sharedLen]
  | old :: olds, new :: news => by
    obtain ⟨short, same⟩ := sharedLen_spec olds news
    rw [sharedLen]
    split_ifs with equal
    · rw [take_succ_cons, take_succ_cons, same, equal]
      exact ⟨by rw [length_cons]; omega, rfl⟩
    · simp

theorem savedLen_spec (old new : List UInt8) : savedLen (sharedLen old new) ≤ old.length ∧
      old.take (savedLen (sharedLen old new)) = new.take (savedLen (sharedLen old new)) := by
  obtain ⟨short, same⟩ := sharedLen_spec old new
  unfold savedLen
  split_ifs
  · simp
  · exact ⟨short, same⟩

theorem drop_of_take_reverse {old new : List UInt8} {count : Nat}
    (same : old.reverse.take count = new.reverse.take count) :
    old.drop (old.length - count) = new.drop (new.length - count) := by
  rw [take_reverse, take_reverse] at same
  exact reverse_injective same

/-- What the ends of an old and a new tuple have in common. -/
structure XorDelta.Shares (delta : XorDelta) (old new : UHeapTuple) : Prop where
  apart : delta.prefixlen + delta.suffixlen ≤ old.data.length
  start : old.data.take delta.prefixlen = new.data.take delta.prefixlen
  finish : old.data.drop (old.data.length - delta.suffixlen) =
    new.data.drop (new.data.length - delta.suffixlen)
  sized : 0 < delta.suffixlen → new.diskTupleSize = old.diskTupleSize
  within : delta.prefixlen + delta.suffixlen ≤ new.data.length

/-- The delta is taken between what both tuples share. -/
theorem xorDelta_shares (old new : UHeapTuple) (logicallyLogged : Bool) :
    (xorDelta old new logicallyLogged).Shares old new := by
  unfold xorDelta
  split_ifs with compared
  · dsimp only
    obtain ⟨short, start⟩ := savedLen_spec old.data new.data
    generalize savedLen (sharedLen old.data new.data) = length at short start ⊢
    obtain ⟨rest, finish⟩ := savedLen_spec (old.data.drop length).reverse
      (new.data.drop length).reverse
    generalize savedLen (sharedLen (old.data.drop length).reverse
      (new.data.drop length).reverse) = count at rest finish ⊢
    have lengths := congrArg List.length start
    have counts := congrArg List.length finish
    simp only [length_take, length_reverse, length_drop] at lengths counts rest
    have ends := drop_of_take_reverse finish
    rw [drop_drop, drop_drop] at ends
    refine ⟨?_, start, ?_, fun _ => compared.1, ?_⟩
    · dsimp only
      omega
    · grind
    · lia
  · exact ⟨by simp, by simp, by simp, fun positive => absurd positive (by simp), by simp⟩

theorem XorDelta.flags_spec (delta : XorDelta) :
    delta.flags < 256 ∧ (delta.flags &&& 1 ≠ 0 ↔ 0 < delta.prefixlen) ∧
      (delta.flags &&& 2 ≠ 0 ↔ 0 < delta.suffixlen) := by
  unfold XorDelta.flags
  split_ifs <;> simp_all

end Sharing

section Updating

theorem markOldTuple_apart (page : Nat → UInt8) (tuple slot tupleXid position : Nat)
    (apart : position < tuple ∨ tuple + 10 ≤ position) :
    markOldTuple page tuple slot tupleXid position = page position := by
  unfold markOldTuple setTupleXid setTupleFlag setTDSlot offsetTdId
  iterate 5 rw [pwrite_apart _ (by rw [leBytes_length]; lia)]

theorem markNewTuple_apart (memory : Nat → UInt8) (tuple slot rawXid position : Nat)
    (apart : position < tuple ∨ tuple + 10 ≤ position) :
    markNewTuple memory tuple slot rawXid position = memory position := by
  unfold markNewTuple setTupleXid setTupleFlag setTDSlot offsetTdId
  iterate 5 rw [pwrite_apart _ (by rw [leBytes_length]; lia)]

/-- The new tuple is copied from its data on. -/
theorem putInplaceUpdateTuple_body (page : Nat → UInt8) (tuple : Nat) (memory : Nat → UInt8)
    (newTuple newSize offset : Nat) (low : 10 ≤ offset) (high : offset < newSize) :
    putInplaceUpdateTuple page tuple memory newTuple newSize (tuple + offset) =
      memory (newTuple + offset) := by
  unfold putInplaceUpdateTuple
  by_cases length : offset = 10
  · subst length
    unfold pwrite
    simp
  · rw [pwrite_apart _ (by rw [length_singleton]; lia)]
    unfold setTupleFlag2 setTupleFlag
    iterate 3 rw [pwrite_apart _ (by rw [leBytes_length]; lia)]
    unfold sizeOfUHeapDiskTupleData
    rw [pwrite_pread _ _ _ _ _ _ (by lia) (by omega)]
    congr 1
    lia

end Updating

section Restoring

theorem slice_between (left middle right : List UInt8) :
    slice (left ++ middle ++ right) left.length middle.length = middle := by
  unfold slice
  rw [append_assoc, drop_left, take_left]

theorem slice_lengthField (left right : List UInt8) {length : Nat} (short : length < 65536) :
    (if 0 < length then leNat (slice (left ++ lengthField length ++ right) left.length 2) else 0) =
        length ∧ (if 0 < length then left.length + 2 else left.length) =
        (left ++ lengthField length).length := by
  unfold lengthField
  split_ifs with positive
  · have part := slice_between left (leBytes 2 length) right
    rw [leBytes_length] at part
    rw [part, leNat_leBytes 2 length short, length_append]
    exact ⟨rfl, rfl⟩
  · rw [append_nil]
    exact ⟨by omega, rfl⟩

/-- A record with its parts: the header of the old tuple, the lengths of the shared ends, the middle
of the data and the id of the subtransaction. -/
structure Recorded (record : InplaceRecord) (hoff : Nat) (saved : List UInt8) (delta : XorDelta)
    (middle : List UInt8) : Prop where
  parts : ∃ ending, record.rawdata = UInt8.ofNat hoff :: saved ++ [UInt8.ofNat delta.flags] ++
      lengthField delta.prefixlen ++ lengthField delta.suffixlen ++ middle ++ ending ∧
    ending.length = if record.containSubXact then sizeOfSubTransactionId else 0
  saved : saved.length = hoff - offsetTdId
  named : offsetTdId ≤ hoff
  byte : hoff < 256
  short : delta.prefixlen < 65536
  brief : delta.suffixlen < 65536

/-- The old tuple is put together from the parts of the record and the ends of the tuple on the
page. -/
theorem copyTupleFromUndoRecord_recorded {record : InplaceRecord} {hoff : Nat} {saved : List UInt8}
    {delta : XorDelta} {middle : List UInt8} (recorded : Recorded record hoff saved delta middle)
    (page : Nat → UInt8) {row : RowPtr} (normal : row.flags = .normal) :
    copyTupleFromUndoRecord record page row =
      some (pwrite page row.offset (leBytes offsetTdId frozenTransactionId ++ saved ++
          pread page (row.offset + tHoff page row.offset) delta.prefixlen ++ middle ++
          pread page (row.offset + tHoff page row.offset + (row.len - tHoff page row.offset) -
            delta.suffixlen) delta.suffixlen),
        { row with len := middle.length + delta.prefixlen + delta.suffixlen + hoff }) := by
  obtain ⟨⟨ending, raw, ends⟩, length, named, byte, short, brief⟩ := recorded
  obtain ⟨flagged, first, second⟩ := delta.flags_spec
  have hoffByte : (record.rawdata.getD 0 0).toNat = hoff := by
    rw [raw]
    simpa using byte
  have flagByte : (record.rawdata.getD (1 + hoff - offsetTdId) 0).toNat = delta.flags := by
    rw [show 1 + hoff - offsetTdId = (UInt8.ofNat hoff :: saved).length by
      grind, raw]
    simpa [getD_eq_getElem?_getD] using flagged
  have savedBytes : slice record.rawdata 1 (hoff - offsetTdId) = saved := by
    have part := slice_between [UInt8.ofNat hoff] saved
      ([UInt8.ofNat delta.flags] ++ lengthField delta.prefixlen ++ lengthField delta.suffixlen ++
        middle ++ ending)
    rw [← length, raw]
    simpa using part
  have front : 1 + hoff - offsetTdId + 1 =
      (UInt8.ofNat hoff :: saved ++ [UInt8.ofNat delta.flags]).length := by
    grind
  obtain ⟨startLen, startEnd⟩ := slice_lengthField
    (UInt8.ofNat hoff :: saved ++ [UInt8.ofNat delta.flags])
    (lengthField delta.suffixlen ++ middle ++ ending) short
  obtain ⟨finishLen, finishEnd⟩ := slice_lengthField
    (UInt8.ofNat hoff :: saved ++ [UInt8.ofNat delta.flags] ++ lengthField delta.prefixlen)
    (middle ++ ending) brief
  have middleBytes := slice_between
    (UInt8.ofNat hoff :: saved ++ [UInt8.ofNat delta.flags] ++ lengthField delta.prefixlen ++
      lengthField delta.suffixlen) middle ending
  simp only [← append_assoc] at startLen finishLen
  rw [← raw] at startLen finishLen middleBytes
  have total := congrArg List.length raw
  unfold copyTupleFromUndoRecord
  rw [if_neg (by rw [normal]; simp)]
  simp only [hoffByte, flagByte, first, second, savedBytes, front, startLen, startEnd, finishLen,
    finishEnd]
  have kept : record.rawdata.length - (UInt8.ofNat hoff :: saved ++ [UInt8.ofNat delta.flags] ++
      lengthField delta.prefixlen ++ lengthField delta.suffixlen).length -
      (if record.containSubXact = true then sizeOfSubTransactionId else 0) = middle.length := by
    rw [total, length_append, length_append]
    lia
  have optional : ∀ place count, (if 0 < count then pread page place count else []) =
      pread page place count := by
    intro place count
    split_ifs with positive
    · rfl
    · rw [show count = 0 by lia]
      rfl
  rw [kept, show middle.length + delta.prefixlen + delta.suffixlen - delta.prefixlen -
    delta.suffixlen = middle.length by omega, middleBytes, optional, optional,
    show row.offset + tHoff page row.offset + delta.prefixlen +
      (row.len - tHoff page row.offset) - delta.prefixlen =
      row.offset + tHoff page row.offset + (row.len - tHoff page row.offset) by lia,
    take_of_length_le]
  simp only [length_append, leBytes_length, pread_length]
  lia

/-- The line pointer of a tuple on the page. -/
structure OnRow (tuple : UHeapTuple) (row : RowPtr) : Prop where
  normal : row.flags = .normal
  offset : tuple.diskTuple = row.offset
  len : tuple.diskTupleSize = row.len

/-- A page that still has the tuple of an update, possibly in another place. -/
structure Holds (updated : InplaceUpdate) (page : Nat → UInt8) (row : RowPtr) : Prop where
  normal : row.flags = .normal
  len : row.len = updated.row.len
  bytes : pread page row.offset row.len = pread updated.page updated.row.offset updated.row.len

theorem Holds.byte {updated : InplaceUpdate} {page : Nat → UInt8} {row : RowPtr}
    (holds : Holds updated page row) (index : Nat) (low : index < updated.row.len) :
    page (row.offset + index) = updated.page (updated.row.offset + index) := by
  have same := congrArg (fun bytes => bytes[index]?) holds.bytes
  rw [holds.len] at same
  rw [getElem?_eq_getElem (by rwa [pread_length]),
    getElem?_eq_getElem (by rwa [pread_length])] at same
  simpa [pread] using same

theorem slice_pread (file : Nat → UInt8) (offset count inner length : Nat)
    (inside : inner + length ≤ count) :
    slice (pread file offset count) inner length = pread file (offset + inner) length := by
  obtain ⟨rest, rfl⟩ : ∃ rest, count = inner + length + rest := ⟨count - inner - length, by omega⟩
  have part := slice_between (pread file offset inner) (pread file (offset + inner) length)
    (pread file (offset + (inner + length)) rest)
  rw [pread_length, pread_length, ← pread_add, ← pread_add] at part
  exact part

theorem lengthField_length (length : Nat) :
    (lengthField length).length = if 0 < length then 2 else 0 := by
  unfold lengthField
  split_ifs
  · exact leBytes_length 2 length
  · rfl

/-- The raw data of the record are the header of the old tuple, the lengths of the shared ends and
the middle of the data. -/
theorem uheapUpdateInplace_recorded {row : RowPtr} (old new : UHeapTuple) (onRow : OnRow old row)
    (logicallyLogged : Bool) (slot tupleXid rawXid : Nat) (sub : Option SubTransaction) :
    ∃ updated, uheapUpdateInplace row old new logicallyLogged slot tupleXid rawXid sub =
        some updated ∧
      updated.record.rawdata.length = reservedLen old (xorDelta old new logicallyLogged) sub ∧
      updated.row.offset = row.offset ∧ new.diskTupleSize ≤ updated.row.len ∧
      (new.diskTupleSize = old.diskTupleSize → updated.row.len = new.diskTupleSize) ∧
      (∀ index, 10 ≤ index → index < new.diskTupleSize →
        updated.page (row.offset + index) = new.memory (new.diskTuple + index)) ∧
      Recorded updated.record old.tHoff
        (pread old.memory (old.diskTuple + offsetTdId) (old.tHoff - offsetTdId))
        (xorDelta old new logicallyLogged)
        (slice old.data (xorDelta old new logicallyLogged).prefixlen
          (old.data.length - (xorDelta old new logicallyLogged).prefixlen -
            (xorDelta old new logicallyLogged).suffixlen)) := by
  have shares := xorDelta_shares old new logicallyLogged
  generalize delta_eq : xorDelta old new logicallyLogged = delta at shares
  have dataLen : old.data.length = old.diskTupleSize - old.tHoff := pread_length _ _ _
  have fixed : 11 ≤ old.tHoff := old.fixed
  have onPage : old.diskTupleSize ≤ 8192 := old.onPage
  have apart := shares.apart
  have middle : pread (markOldTuple old.memory old.diskTuple slot tupleXid)
      (old.diskTuple + old.tHoff + delta.prefixlen)
      (old.diskTupleSize - old.tHoff - delta.prefixlen - delta.suffixlen) =
      slice old.data delta.prefixlen
        (old.data.length - delta.prefixlen - delta.suffixlen) := by
    rw [UHeapTuple.data, slice_pread _ _ _ _ _ (by rw [pread_length]; omega), pread_length]
    apply pread_congr
    intro position low high
    exact markOldTuple_apart _ _ _ _ _ (by lia)
  have lengths : ∀ ending, (UInt8.ofNat old.tHoff ::
      pread old.memory (old.diskTuple + offsetTdId) (old.tHoff - offsetTdId) ++
      [UInt8.ofNat delta.flags] ++ (lengthField delta.prefixlen ++ lengthField delta.suffixlen) ++
      slice old.data delta.prefixlen (old.data.length - delta.prefixlen - delta.suffixlen) ++
      ending).length = undoXorDeltaSize old delta + ending.length := by
    intro ending
    simp only [length_append, length_cons, pread_length,
      lengthField_length, undoXorDeltaSize]
    rw [slice_length _ _ _ (by omega)]
    grind
  unfold uheapUpdateInplace
  simp only [delta_eq, middle]
  have size := lengths []
  rw [append_nil] at size
  rw [if_neg (by rw [size]; simp)]
  refine ⟨_, rfl, ?_, ?_, ?_, ?_, ?_, ?_⟩
  · rw [lengths]
    congr 1
    cases sub with
    | none => rfl
    | some sub =>
      rw [if_pos (show subxidOf (some sub) ≠ 0 from sub.valid)]
      exact leBytes_length _ _
  · split_ifs <;> rfl
  · dsimp only
    split_ifs
    · exact le_rfl
    · omega
  · intro same
    rw [if_neg (by rw [same, onRow.len]; omega), same, onRow.len]
  · intro index low high
    dsimp only
    rw [← onRow.offset, putInplaceUpdateTuple_body _ _ _ _ _ _ low high,
      markNewTuple_apart _ _ _ _ _ (by lia)]
  · refine ⟨⟨if sub.isSome then leBytes sizeOfSubTransactionId (subxidOf sub) else [], ?_, ?_⟩,
      pread_length _ _ _, ?_, (old.memory (old.diskTuple + 10)).toNat_lt, ?_, ?_⟩
    · simp only [append_assoc]
    · split_ifs
      · exact leBytes_length _ _
      · rfl
    · unfold offsetTdId
      omega
    · lia
    · lia

/-- The old tuple: its header with the id of a tuple that everyone sees, and its data. -/
def UHeapTuple.frozenBytes (tuple : UHeapTuple) : List UInt8 :=
  leBytes offsetTdId frozenTransactionId ++ tuple.bytes.drop offsetTdId

theorem UHeapTuple.drop_bytes (tuple : UHeapTuple) :
    pread tuple.memory (tuple.diskTuple + offsetTdId) (tuple.tHoff - offsetTdId) ++ tuple.data =
      tuple.bytes.drop offsetTdId := by
  have fixed : 11 ≤ tuple.tHoff := tuple.fixed
  have headed : tuple.tHoff ≤ tuple.diskTupleSize := tuple.headed
  have split : tuple.diskTupleSize = offsetTdId +
      (tuple.tHoff - offsetTdId + (tuple.diskTupleSize - tuple.tHoff)) := by
    unfold offsetTdId
    lia
  have place : tuple.diskTuple + offsetTdId + (tuple.tHoff - offsetTdId) =
      tuple.diskTuple + tuple.tHoff := by
    lia
  rw [UHeapTuple.bytes, split, pread_add, pread_add, place]
  rfl

theorem XorDelta.Shares.join {delta : XorDelta} {old new : UHeapTuple}
    (shares : delta.Shares old new) : new.data.take delta.prefixlen ++
      slice old.data delta.prefixlen (old.data.length - delta.prefixlen - delta.suffixlen) ++
      new.data.drop (new.data.length - delta.suffixlen) = old.data := by
  have apart := shares.apart
  rw [← shares.start, ← shares.finish]
  have tail : old.data.drop (old.data.length - delta.suffixlen) =
      (old.data.drop delta.prefixlen).drop
        (old.data.length - delta.prefixlen - delta.suffixlen) := by
    rw [drop_drop]
    congr 1
    lia
  unfold slice
  rw [tail, append_assoc, take_append_drop, take_append_drop]

/-- Updating a tuple in place fills the record with as many bytes as were reserved, and the record
restores the old tuple, with the id of a tuple that everyone sees, on every page that still has the
tuple of the update. Other bytes of the page stay. -/
theorem inplace_update_is_undone (row : RowPtr) (old new : UHeapTuple) (onRow : OnRow old row)
    (logicallyLogged : Bool) (slot tupleXid rawXid : Nat) (sub : Option SubTransaction) :
    ∃ updated, uheapUpdateInplace row old new logicallyLogged slot tupleXid rawXid sub =
        some updated ∧
      updated.record.rawdata.length = reservedLen old (xorDelta old new logicallyLogged) sub ∧
      ∀ page place, Holds updated page place →
        ∃ restored, copyTupleFromUndoRecord updated.record page place =
            some (restored, { place with len := old.diskTupleSize }) ∧
          pread restored place.offset old.diskTupleSize = old.frozenBytes ∧
          ∀ position, position < place.offset ∨ place.offset + old.diskTupleSize ≤ position →
            restored position = page position := by
  obtain ⟨updated, ran, size, offset, fits, sized, body, recorded⟩ :=
    uheapUpdateInplace_recorded old new onRow logicallyLogged slot tupleXid rawXid sub
  refine ⟨updated, ran, size, fun page place holds => ?_⟩
  have shares := xorDelta_shares old new logicallyLogged
  generalize xorDelta old new logicallyLogged = delta at shares recorded
  have fixed : 11 ≤ new.tHoff := new.fixed
  have headed : new.tHoff ≤ new.diskTupleSize := new.headed
  have dataLen : new.data.length = new.diskTupleSize - new.tHoff := pread_length _ _ _
  have oldLen : old.data.length = old.diskTupleSize - old.tHoff := pread_length _ _ _
  have oldHeaded : old.tHoff ≤ old.diskTupleSize := old.headed
  have apart := shares.apart
  have within := shares.within
  have here : ∀ index, 10 ≤ index → index < new.diskTupleSize →
      page (place.offset + index) = new.memory (new.diskTuple + index) := by
    intro index low high
    rw [holds.byte index (by omega), offset, body index low high]
  have hoff : tHoff page place.offset = new.tHoff := by
    rw [tHoff, here 10 (by omega) (by omega)]
    rfl
  have reads : ∀ index count, index + count ≤ new.data.length →
      pread page (place.offset + new.tHoff + index) count = slice new.data index count := by
    intro index count inside
    rw [UHeapTuple.data, slice_pread _ _ _ _ _ (by omega)]
    apply map_congr_left
    intro step member
    have low := mem_range.mp member
    have byte := here (new.tHoff + index + step) (by omega) (by omega)
    rwa [← Nat.add_assoc, ← Nat.add_assoc, ← Nat.add_assoc, ← Nat.add_assoc] at byte
  have start : pread page (place.offset + new.tHoff) delta.prefixlen =
      new.data.take delta.prefixlen := by
    have read := reads 0 delta.prefixlen (by omega)
    rwa [Nat.add_zero] at read
  have finish : pread page (place.offset + new.tHoff + (place.len - new.tHoff) - delta.suffixlen)
      delta.suffixlen = new.data.drop (new.data.length - delta.suffixlen) := by
    by_cases positive : 0 < delta.suffixlen
    · have read := reads (new.data.length - delta.suffixlen) delta.suffixlen (by omega)
      have len : place.len = new.diskTupleSize := by rw [holds.len, sized (shares.sized positive)]
      rw [slice, take_of_length_le (by rw [length_drop]; omega)] at read
      rw [← read]
      congr 1
      omega
    · rw [show delta.suffixlen = 0 by omega, Nat.sub_zero, Nat.sub_zero, drop_length]
      rfl
  have bytes : leBytes offsetTdId frozenTransactionId ++
      pread old.memory (old.diskTuple + offsetTdId) (old.tHoff - offsetTdId) ++
      new.data.take delta.prefixlen ++
      slice old.data delta.prefixlen (old.data.length - delta.prefixlen - delta.suffixlen) ++
      new.data.drop (new.data.length - delta.suffixlen) = old.frozenBytes := by
    rw [UHeapTuple.frozenBytes, ← old.drop_bytes]
    nth_rewrite 3 [← shares.join]
    simp only [append_assoc]
  have length : old.frozenBytes.length = old.diskTupleSize := by
    have total : (old.bytes.drop offsetTdId).length = old.diskTupleSize - offsetTdId := by
      rw [length_drop, UHeapTuple.bytes, pread_length]
    have long : 11 ≤ old.tHoff := old.fixed
    rw [UHeapTuple.frozenBytes, length_append, leBytes_length, total]
    unfold offsetTdId
    omega
  have middle : (slice old.data delta.prefixlen
      (old.data.length - delta.prefixlen - delta.suffixlen)).length +
      delta.prefixlen + delta.suffixlen + old.tHoff = old.diskTupleSize := by
    rw [slice_length _ _ _ (by omega)]
    omega
  have copied := copyTupleFromUndoRecord_recorded recorded page holds.normal
  rw [hoff, start, finish, bytes, middle] at copied
  refine ⟨_, copied, ?_, fun position outside => ?_⟩
  · have read := pread_pwrite page place.offset old.frozenBytes
    rwa [length] at read
  · exact pwrite_apart _ (by rw [length]; exact outside)

/-- A tuple of eleven bytes of data behind a header of twelve. -/
def middleTuple (middle : UInt8) : UHeapTuple where
  memory position :=
    [7, 0, 0, 0, 1, 0, 0, 0, 2, 0, 12, 0, 1, 2, 3, 4, 5, middle, 6, 7, 8, 9, 10].getD position 0
  diskTuple := 0
  diskTupleSize := 23
  fixed := by
    show 11 ≤ 12
    omega
  headed := by
    show 12 ≤ 23
    omega
  onPage := by decide

/-- The line pointer of the tuple. -/
def middleRow : RowPtr := ⟨.normal, 0, 23⟩

/-- A subtransaction updates a tuple in place, which keeps five bytes at each end. -/
theorem inplace_update_is_undone_middle :
    xorDelta (middleTuple 1) (middleTuple 2) false = ⟨5, 5⟩ ∧
      ∃ updated, uheapUpdateInplace middleRow (middleTuple 1) (middleTuple 2) false 2 9 9
          (some ⟨4, by decide⟩) = some updated ∧
        updated.record.rawdata.length = reservedLen (middleTuple 1)
          (xorDelta (middleTuple 1) (middleTuple 2) false) (some ⟨4, by decide⟩) ∧
        ∀ page place, Holds updated page place →
          ∃ restored, copyTupleFromUndoRecord updated.record page place =
              some (restored, { place with len := 23 }) ∧
            pread restored place.offset 23 = (middleTuple 1).frozenBytes ∧
            ∀ position, position < place.offset ∨ place.offset + 23 ≤ position →
              restored position = page position :=
  ⟨by decide, inplace_update_is_undone middleRow (middleTuple 1) (middleTuple 2) ⟨rfl, rfl, rfl⟩
    false 2 9 9 (some ⟨4, by decide⟩)⟩

/-- The bytes of the tuple after an update in place and its undo. -/
def undone (row : RowPtr) (old new : UHeapTuple) : Option (List UInt8) :=
  (uheapUpdateInplace row old new false 2 9 9 none).bind fun updated =>
    (copyTupleFromUndoRecord updated.record updated.page updated.row).map fun restored =>
      pread restored.1 restored.2.offset restored.2.len

/-- The id in the header of the old tuple is not restored. -/
theorem inplace_update_is_undone_xid :
    undone middleRow (middleTuple 1) (middleTuple 2) = some (middleTuple 1).frozenBytes ∧
      (middleTuple 1).frozenBytes ≠ (middleTuple 1).bytes := by
  decide

end Restoring

end OpenGauss.Ustore
