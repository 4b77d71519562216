import OpenGauss.Base.Bytes
import OpenGauss.Base.Step
import OpenGauss.Undo.Pointer

/-!
# Undo records on pages

The record of `knl_uundorecord.cpp`: seven packed headers, five of them optional
by a bit of `uinfo`, and a payload. `append` and `readUndoRecord` move one record
to and from one page and keep their progress in counters, so that a record may
continue on later pages. The page loops are those of `InsertPreparedUndo` and
`UndoRecord::Load`.
-/
namespace OpenGauss.Undo

open OpenGauss.Base

/-- A payload follows its length header. -/
def undoUrecInfoPayload : UInt8 := 0x01

/-- A transaction header is present. -/
def undoUrecInfoTransac : UInt8 := 0x02

/-- An old transaction directory header is present. -/
def undoUrecInfoOldtd : UInt8 := 0x08

/-- A partition header is present. -/
def undoUrecInfoHasPartoid : UInt8 := 0x20

/-- A tablespace header is present. -/
def undoUrecInfoHasTablespaceoid : UInt8 := 0x40

/-- The fixed header; its `uinfo` decides which optional headers follow. -/
structure UndoRecordHeader where
  xid : UInt64
  cid : UInt32
  reloid : UInt32
  relfilenode : UInt32
  utype : UInt8
  uinfo : UInt8
deriving DecidableEq

/-- The block header, always present. -/
structure UndoRecordBlock where
  blkprev : UInt64
  blkno : UInt32
  offset : UInt16
deriving DecidableEq

/-- The packed image of the fixed header. -/
def UndoRecordHeader.layout : Layout UndoRecordHeader :=
  (u64.pair (u32.pair (u32.pair (u32.pair (u8.pair u8))))).iso
    (fun fields => ⟨fields.1, fields.2.1, fields.2.2.1, fields.2.2.2.1, fields.2.2.2.2.1,
      fields.2.2.2.2.2⟩)
    (fun header => (header.xid, header.cid, header.reloid, header.relfilenode, header.utype,
      header.uinfo))
    (by intro value; rfl) (by intro value; rfl)

/-- The packed image of the block header. -/
def UndoRecordBlock.layout : Layout UndoRecordBlock :=
  (u64.pair (u32.pair u16)).iso (fun fields => ⟨fields.1, fields.2.1, fields.2.2⟩)
    (fun block => (block.blkprev, block.blkno, block.offset))
    (by intro value; rfl) (by intro value; rfl)

/-- Payload memory: a pointer that may be null and the length kept beside it. -/
structure RawData where
  /-- Bytes behind the data pointer; `none` is the null pointer. -/
  data : Option (List UInt8)
  len : Nat
deriving DecidableEq

/-- Bytes behind the data pointer, none for the null pointer. -/
def RawData.bytes (rawdata : RawData) : List UInt8 := rawdata.data.getD []

/-- The length field describes the memory behind the pointer. -/
def RawData.Intact (rawdata : RawData) : Prop := rawdata.bytes.length = rawdata.len

instance (rawdata : RawData) : Decidable rawdata.Intact :=
  inferInstanceAs (Decidable (rawdata.bytes.length = rawdata.len))

/-- One undo record in memory (`UndoRecord`). -/
structure UndoRecord where
  whdr : UndoRecordHeader
  wblk : UndoRecordBlock
  /-- Transaction header: the previous record of the transaction. -/
  prevurp : UInt64
  oldxactid : UInt64
  partitionoid : UInt32
  tablespace : UInt32
  payloadlen : UInt16
  rawdata : RawData
  isCopy : Bool
deriving DecidableEq

/-- The record after `UndoRecord()` or `Reset`. -/
def UndoRecord.reset : UndoRecord where
  whdr := ⟨0, 0xFFFFFFFF, 0, 0, 0, 0⟩
  wblk := ⟨0, 0xFFFFFFFF, 0⟩
  prevurp := 0
  oldxactid := 2
  partitionoid := 0
  tablespace := 0
  payloadlen := 0
  rawdata := ⟨none, 0⟩
  isCopy := true

namespace UndoRecord

/-- Test of one presence bit. -/
def has (record : UndoRecord) (flag : UInt8) : Bool := record.whdr.uinfo &&& flag != 0

/-- Stored size, accumulated in the 16-bit `UndoRecordSize` (`UndoRecord::RecordSize`). -/
def recordSize (record : UndoRecord) : UInt16 :=
  let size : UInt16 := 22 + 14 + 2
  let size := if record.has undoUrecInfoPayload
    then size + 2 + UInt16.ofNat record.rawdata.len else size
  let size := if record.has undoUrecInfoTransac then size + 8 else size
  let size := if record.has undoUrecInfoOldtd then size + 8 else size
  let size := if record.has undoUrecInfoHasPartoid then size + 4 else size
  if record.has undoUrecInfoHasTablespaceoid then size + 4 else size

end UndoRecord

/-- The pieces a record is copied in. -/
inductive UndoPart where
  | header
  | block
  | transaction
  | oldTd
  | partition
  | tablespace
  | payload
  | rawdata
deriving DecidableEq

namespace UndoRecord

/-- The memory of one piece of a record. -/
def image (record : UndoRecord) : UndoPart → List UInt8
  | .header => UndoRecordHeader.layout.write record.whdr
  | .block => UndoRecordBlock.layout.write record.wblk
  | .transaction => u64.write record.prevurp
  | .oldTd => u64.write record.oldxactid
  | .partition => u32.write record.partitionoid
  | .tablespace => u32.write record.tablespace
  | .payload => u16.write record.payloadlen
  | .rawdata => record.rawdata.bytes

/-- The record after the memory of one piece was replaced. -/
def assign (record : UndoRecord) : UndoPart → List UInt8 → UndoRecord
  | .header, bytes => { record with whdr := UndoRecordHeader.layout.read bytes }
  | .block, bytes => { record with wblk := UndoRecordBlock.layout.read bytes }
  | .transaction, bytes => { record with prevurp := u64.read bytes }
  | .oldTd, bytes => { record with oldxactid := u64.read bytes }
  | .partition, bytes => { record with partitionoid := u32.read bytes }
  | .tablespace, bytes => { record with tablespace := u32.read bytes }
  | .payload, bytes => { record with payloadlen := u16.read bytes }
  | .rawdata, bytes => { record with rawdata := { record.rawdata with data := some bytes } }

/-- `wpay_.payloadlen = rawdata_.len`, a 16-bit assignment. -/
def notePayloadLen (record : UndoRecord) : UndoRecord :=
  { record with payloadlen := UInt16.ofNat record.rawdata.len }

end UndoRecord

/-- Progress of one copy: place in the page, bytes of earlier calls still to skip, total. -/
structure UndoCursor where
  ptr : Nat
  /-- Bytes that earlier calls moved and this call has not skipped yet. -/
  myBytes : Nat
  already : Nat
deriving DecidableEq

/-- Bytes of a piece that the rest of the page can take. -/
def UndoCursor.room (cursor : UndoCursor) (length : Nat) : Nat :=
  min (length - cursor.myBytes) (blcksz - cursor.ptr)

/-- The cursor after `count` bytes were moved. -/
def UndoCursor.advance (cursor : UndoCursor) (count : Nat) : UndoCursor :=
  ⟨cursor.ptr + count, 0, cursor.already + count⟩

/-- State of a running `Append`: the record, the page and the progress. -/
structure AppendState where
  record : UndoRecord
  page : List UInt8
  cursor : UndoCursor
deriving DecidableEq

/-- Copy what is left of a piece onto the page (`InsertUndoBytes`). -/
def insertUndoBytes (source : AppendState → List UInt8) : Step AppendState := fun state =>
  let src := source state
  let cursor := state.cursor
  if src.length ≤ cursor.myBytes then
    (true, { state with cursor := { cursor with myBytes := cursor.myBytes - src.length } })
  else
    let canWrite := cursor.room src.length
    if canWrite = 0 then (false, state)
    else
      (canWrite = src.length - cursor.myBytes, { state with
          page := overwrite state.page cursor.ptr (slice src cursor.myBytes canWrite)
          cursor := cursor.advance canWrite })

/-- Write one piece of the record. -/
def insertPart (part : UndoPart) : Step AppendState :=
  insertUndoBytes (fun state => state.record.image part)

/-- Write one piece that a presence bit announces. -/
def insertOptional (flag : UInt8) (part : UndoPart) : Step AppendState :=
  Step.onlyIf (fun state => state.record.has flag) (insertPart part)

/-- The body of `UndoRecord::Append`. -/
def appendSteps (undoLen : UInt16) : Step AppendState :=
  Step.andThen (insertPart .header) <|
  Step.andThen (insertPart .block) <|
  Step.andThen (insertOptional undoUrecInfoTransac .transaction) <|
  Step.andThen (insertOptional undoUrecInfoOldtd .oldTd) <|
  Step.andThen (insertOptional undoUrecInfoHasPartoid .partition) <|
  Step.andThen (insertOptional undoUrecInfoHasTablespaceoid .tablespace) <|
  Step.andThen
    (Step.onlyIf (fun state => state.record.has undoUrecInfoPayload) <|
      Step.andThen
        (Step.assign fun state => { state with record := state.record.notePayloadLen }) <|
      Step.andThen (insertPart .payload) <|
      Step.onlyIf (fun state => 0 < state.record.payloadlen) (insertPart .rawdata)) <|
  insertUndoBytes (fun _ => u16.write undoLen)

/-- Write as much of the record as one page takes (`UndoRecord::Append`). -/
def append (record : UndoRecord) (page : List UInt8) (startingByte alreadyWritten : Nat)
    (undoLen : UInt16) : Bool × AppendState :=
  appendSteps undoLen ⟨record, page, ⟨startingByte, alreadyWritten, alreadyWritten⟩⟩

/-- State of a running `ReadUndoRecord`. -/
structure ReadState where
  record : UndoRecord
  cursor : UndoCursor
deriving DecidableEq

/-- Copy from the page into what is left of a piece (`ReadUndoBytes`). -/
def readUndoBytes (page : List UInt8) (part : UndoPart) : Step ReadState := fun state =>
  let dest := state.record.image part
  let cursor := state.cursor
  if dest.length ≤ cursor.myBytes then
    (true, { state with cursor := { cursor with myBytes := cursor.myBytes - dest.length } })
  else
    let canRead := cursor.room dest.length
    if canRead = 0 then (false, state)
    else
      (canRead = dest.length - cursor.myBytes,
        { record := state.record.assign part
            (overwrite dest cursor.myBytes (slice page cursor.ptr canRead))
          cursor := cursor.advance canRead })

/-- Read one piece that a presence bit announces. -/
def readOptional (page : List UInt8) (flag : UInt8) (part : UndoPart) : Step ReadState :=
  Step.onlyIf (fun state => state.record.has flag) (readUndoBytes page part)

/-- `rawdata_.len = wpay_.payloadlen`. -/
def adoptPayloadLen (state : ReadState) : ReadState :=
  { state with record :=
    { state.record with rawdata :=
      { state.record.rawdata with len := state.record.payloadlen.toNat } } }

/-- Zeroed payload memory, allocated only where the pointer is still null. -/
def allocPayload (state : ReadState) : ReadState :=
  match state.record.rawdata.data with
  | some _ => state
  | none =>
    { state with record :=
      { state.record with rawdata :=
        { state.record.rawdata with data := some (List.replicate state.record.rawdata.len 0) } } }

/-- Point the payload into the page instead of copying it. -/
def borrowPayload (page : List UInt8) (state : ReadState) : ReadState :=
  { state with record :=
    { state.record with
      rawdata := { state.record.rawdata with
        data := some (slice page state.cursor.ptr state.record.rawdata.len) }
      isCopy := false } }

/-- The payload fits the page and nothing forces a copy. -/
def canBorrow (copyData isUndoSplited : Bool) (state : ReadState) : Bool :=
  !copyData && !isUndoSplited && decide (state.record.rawdata.len ≤ blcksz - state.cursor.ptr)

/-- The payload branch of `ReadUndoRecord`, behind its length header. -/
def readPayload (page : List UInt8) (copyData isUndoSplited : Bool) : Step ReadState :=
  fun state =>
    if canBorrow copyData isUndoSplited state then (true, borrowPayload page state)
    else readUndoBytes page .rawdata (allocPayload state)

/-- The body of `UndoRecord::ReadUndoRecord`. -/
def readSteps (page : List UInt8) (copyData isUndoSplited : Bool) : Step ReadState :=
  Step.andThen (readUndoBytes page .header) <|
  Step.andThen (readUndoBytes page .block) <|
  Step.andThen (readOptional page undoUrecInfoTransac .transaction) <|
  Step.andThen (readOptional page undoUrecInfoOldtd .oldTd) <|
  Step.andThen (readOptional page undoUrecInfoHasPartoid .partition) <|
  Step.andThen (readOptional page undoUrecInfoHasTablespaceoid .tablespace) <|
  Step.onlyIf (fun state => state.record.has undoUrecInfoPayload) <|
    Step.andThen (readUndoBytes page .payload) <|
    Step.andThen (Step.assign adoptPayloadLen) <|
    Step.onlyIf (fun state => decide (0 < state.record.rawdata.len))
      (readPayload page copyData isUndoSplited)

/-- Read as much of the record as one page holds (`UndoRecord::ReadUndoRecord`). -/
def readUndoRecord (record : UndoRecord) (page : List UInt8) (startingByte alreadyRead : Nat)
    (copyData : Bool) : Bool × ReadState :=
  readSteps page copyData (decide (0 < alreadyRead))
    ⟨record, ⟨startingByte, alreadyRead, alreadyRead⟩⟩

/-- The page loop of `InsertPreparedUndo`: later pages start behind their header. -/
def appendPages (undoLen : UInt16) :
    UndoRecord → List (List UInt8) → Nat → Nat → Option (List (List UInt8) × Nat)
  | _, [], _, _ => none
  | record, page :: rest, startingByte, alreadyWritten =>
    let result := append record page startingByte alreadyWritten undoLen
    if result.1 then some (result.2.page :: rest, result.2.cursor.already)
    else
      (appendPages undoLen result.2.record rest undoLogBlockHeaderSize
        result.2.cursor.already).map fun tail => (result.2.page :: tail.1, tail.2)

/-- The page loop around `ReadUndoRecord` in `UndoRecord::Load`. There is no record when the pages
end, or when more than a page was read before the next one ("undo record exceeds max size"). -/
def readPages (copyData : Bool) :
    UndoRecord → List (List UInt8) → Nat → Nat → Option UndoRecord
  | _, [], _, _ => none
  | record, page :: rest, startingByte, alreadyRead =>
    let result := readUndoRecord record page startingByte alreadyRead copyData
    if blcksz < alreadyRead then none
    else if result.1 then some result.2.record
    else readPages copyData result.2.record rest undoLogBlockHeaderSize result.2.cursor.already

end OpenGauss.Undo
