import OpenGauss.Undo.Pointer

/-!
# Undo zones

The state of one undo zone (`knl_uundozone.h`): how far records and transaction
slots were allocated and discarded, the two segment spaces behind them, and the log
position of the last change. Offsets are kept without the zone number; the setters
mask it off and the getters put it back.
-/
namespace OpenGauss.Undo

/-- Segment files of one zone (`UndoSpace`). -/
structure UndoSpace where
  head : Nat
  /-- Start of the first segment that standby readers may still use. -/
  headExrto : Nat
  tail : Nat
  lsn : Nat
  /-- Whether the space changed since its last checkpoint. -/
  dirty : Bool
deriving DecidableEq

/-- `UndoPersistence`. -/
inductive UndoPersistence where
  | permanent
  | unlogged
  | temp
  | butt
deriving DecidableEq

/-- One undo zone (`UndoZone`). -/
structure UndoZone where
  zid : Nat
  pLevel : UndoPersistence
  allocateTSlotPtr : Nat
  recycleTSlotPtr : Nat
  /-- Slot up to which every transaction is known to be finished, as a full pointer. -/
  frozenSlotPtr : Nat
  insertURecPtr : Nat
  /-- End of the undo that was discarded in the normal way. -/
  discardURecPtr : Nat
  forceDiscardURecPtr : Nat
  recycleXid : Nat
  frozenXid : Nat
  lsn : Nat
  /-- Whether the zone changed since its last checkpoint. -/
  dirty : Bool
  undoSpace : UndoSpace
  slotSpace : UndoSpace
deriving DecidableEq

/-- A space without segments. -/
def UndoSpace.empty : UndoSpace := ⟨0, 0, 0, 0, false⟩

namespace UndoZone

/-- A zone as its constructor and `InitZone` leave it. -/
def init (zid : Nat) (pLevel : UndoPersistence) : UndoZone where
  zid := zid
  pLevel := pLevel
  allocateTSlotPtr := undoLogBlockHeaderSize
  recycleTSlotPtr := undoLogBlockHeaderSize
  frozenSlotPtr := invalidUndoRecPtr
  insertURecPtr := undoLogBlockHeaderSize
  discardURecPtr := undoLogBlockHeaderSize
  forceDiscardURecPtr := undoLogBlockHeaderSize
  recycleXid := 0
  frozenXid := 0
  lsn := 0
  dirty := false
  undoSpace := .empty
  slotSpace := .empty

/-- `GetInsertURecPtr`. -/
def getInsertURecPtr (zone : UndoZone) : Nat := makeUndoPtr zone.zid zone.insertURecPtr

/-- `GetDiscardURecPtr`. -/
def getDiscardURecPtr (zone : UndoZone) : Nat := makeUndoPtr zone.zid zone.discardURecPtr

/-- `GetForceDiscardURecPtr`. -/
def getForceDiscardURecPtr (zone : UndoZone) : Nat :=
  makeUndoPtr zone.zid zone.forceDiscardURecPtr

/-- `GetAllocateTSlotPtr`. -/
def getAllocateTSlotPtr (zone : UndoZone) : Nat := makeUndoPtr zone.zid zone.allocateTSlotPtr

/-- `GetRecycleTSlotPtr`. -/
def getRecycleTSlotPtr (zone : UndoZone) : Nat := makeUndoPtr zone.zid zone.recycleTSlotPtr

/-- Some undo of the zone is not discarded (`Used`). -/
def used (zone : UndoZone) : Bool := zone.insertURecPtr != zone.forceDiscardURecPtr

/-- Move the insertion pointer. -/
def moveInsert (zone : UndoZone) (offset : Nat) : UndoZone :=
  { zone with insertURecPtr := offset }

/-- Move the slot allocation pointer. -/
def moveAllocate (zone : UndoZone) (offset : Nat) : UndoZone :=
  { zone with allocateTSlotPtr := offset }

/-- Move the normal discard pointer. -/
def moveDiscard (zone : UndoZone) (offset : Nat) : UndoZone :=
  { zone with discardURecPtr := offset }

/-- Note the recycled transaction and the ends of its undo and of its slots. -/
def moveRecycle (zone : UndoZone) (forceDiscard recycleSlot xid : Nat) : UndoZone :=
  { zone with
    forceDiscardURecPtr := forceDiscard
    recycleTSlotPtr := recycleSlot
    recycleXid := xid }

/-- Mark a logged change: the zone is dirty and carries the log position (`SetLSN`). -/
def stamp (zone : UndoZone) (position : Nat) : UndoZone :=
  { zone with dirty := true, lsn := position }

/-- `AdvanceInsertURecPtr`. -/
def advanceInsertURecPtr (zone : UndoZone) (oldInsert size : Nat) : UndoZone :=
  zone.moveInsert (undoLogOffsetPlusUsableBytes oldInsert size)

/-- Whether the undo between two pointers may be recycled now (`CheckRecycle`). -/
def checkRecycle (zone : UndoZone) (starturp endurp : Nat) (isexrto : Bool) : Bool :=
  let startZid := undoPtrGetZoneId starturp
  let endZid := undoPtrGetZoneId endurp
  let start := undoPtrGetOffset starturp
  let finish := undoPtrGetOffset endurp
  let inOrder := startZid == endZid && decide (zone.forceDiscardURecPtr ≤ zone.insertURecPtr) &&
    decide (finish ≤ zone.insertURecPtr) && decide (start < finish)
  if isexrto && inOrder then true
  else if !isexrto && inOrder && start == zone.forceDiscardURecPtr then true
  else decide (zone.forceDiscardURecPtr < start)

end UndoZone

/-- One run of slots a recycle pass gives back at once. -/
structure RecycleBatch where
  start : Nat
  recyclePtr : Nat
  startUndoPtr : Nat
  endUndoPtr : Nat
  /-- End of the undo of the last slot that was not forced, or the invalid pointer. -/
  oldestEndUndoPtr : Nat
  recycleXid : Nat
  recycleXmin : Nat
  recycleLoops : Nat
deriving DecidableEq

/-- Where the normal discard pointer goes, kept inside the zone of the run. -/
def RecycleBatch.discardTo (batch : RecycleBatch) : Nat :=
  if undoPtrGetZoneId batch.startUndoPtr = undoPtrGetZoneId batch.oldestEndUndoPtr then
    batch.oldestEndUndoPtr
  else makeUndoPtr (undoPtrGetZoneId batch.startUndoPtr) undoLogMaxSize

namespace UndoZone

/-- The `if (undoRecycled)` part of `RecycleUndoSpace`, without its log record. -/
def applyBatch (zone : UndoZone) (batch : RecycleBatch) : UndoZone :=
  let zone := if isValidUndoRecPtr batch.oldestEndUndoPtr then
    zone.moveDiscard (undoPtrGetOffset batch.discardTo) else zone
  zone.moveRecycle (undoPtrGetOffset batch.endUndoPtr) (undoPtrGetOffset batch.recyclePtr)
    batch.recycleXid

/-- The same with its check; `none` is the PANIC of a failed check. -/
def recycleBatch (zone : UndoZone) (batch : RecycleBatch) : Option UndoZone :=
  if zone.checkRecycle batch.startUndoPtr batch.endUndoPtr false then some (zone.applyBatch batch)
  else none

end UndoZone

end OpenGauss.Undo
