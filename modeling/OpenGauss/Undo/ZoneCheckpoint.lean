import OpenGauss.Base.Run
import OpenGauss.Undo.Redo
import OpenGauss.Undo.SpaceCheckpoint

/-!
# Checkpoints of undo zones

`CheckPointUndoZone` stores the pointers of the persistent zones as 44-bit offsets, and
`RecoveryUndoZone` reads them back; a zone whose stored insertion pointer is that of a
fresh zone is not restored at all. The system here is the zones in memory together with
the metadata file, and its runs are insertions, recycled batches, zone switches,
checkpoints and restarts in any order.
-/
namespace OpenGauss.Undo

open Option Function OpenGauss.Base

namespace UndoZone

/-- `PrepareSwitch`: a permanent zone is retired with an insertion pointer behind its end. -/
def prepareSwitch (zone : UndoZone) : UndoZone :=
  if zone.pLevel = .permanent then { zone with dirty := true, insertURecPtr := undoLogMaxSize }
  else zone

/-- `CheckNeedSwitch`, for a limit of undo bytes for each transaction. -/
def checkNeedSwitch (zone : UndoZone) (transUndoThresholdSize : Nat) : Bool :=
  if zone.insertURecPtr < zone.forceDiscardURecPtr ∨
      zone.allocateTSlotPtr < zone.recycleTSlotPtr ∨
      zone.undoSpace.tail < zone.undoSpace.head ∨ zone.slotSpace.tail < zone.slotSpace.head then
    true
  else
    let newInsert := undoLogOffsetPlusUsableBytes zone.insertURecPtr transUndoThresholdSize
    decide (undoLogMaxSize < newInsert + usegSize .undo ∨
      undoLogMaxSize < zone.undoSpace.tail + usegSize .undo ∨
      undoLogMaxSize < zone.slotSpace.tail + usegSize .slot)

/-- `GetMetaFromUzone`. -/
def getMeta (zone : UndoZone) : UndoZoneMetaInfo where
  version := undoZoneMetaVersion
  padding := 0
  lsn := UInt64.ofNat zone.lsn
  insertURecPtr := UInt64.ofNat (undoPtrGetOffset zone.getInsertURecPtr)
  discardURecPtr := UInt64.ofNat (undoPtrGetOffset zone.getDiscardURecPtr)
  forceDiscardURecPtr := UInt64.ofNat (undoPtrGetOffset zone.getForceDiscardURecPtr)
  recycleXid := UInt64.ofNat zone.recycleXid
  allocateTSlotPtr := UInt64.ofNat (undoPtrGetOffset zone.getAllocateTSlotPtr)
  recycleTSlotPtr := UInt64.ofNat (undoPtrGetOffset zone.getRecycleTSlotPtr)

/-- `RecoveryZone`; the setters mask every pointer. -/
def recoveryZone (zone : UndoZone) (info : UndoZoneMetaInfo) (zoneId : Nat) : UndoZone :=
  { zone with
    zid := zoneId
    pLevel := .permanent
    lsn := info.lsn.toNat
    insertURecPtr := undoPtrGetOffset info.insertURecPtr.toNat
    discardURecPtr := undoPtrGetOffset info.discardURecPtr.toNat
    forceDiscardURecPtr := undoPtrGetOffset info.forceDiscardURecPtr.toNat
    allocateTSlotPtr := undoPtrGetOffset info.allocateTSlotPtr.toNat
    recycleTSlotPtr := undoPtrGetOffset info.recycleTSlotPtr.toNat
    recycleXid := info.recycleXid.toNat }

end UndoZone

/-- The entry `CheckPointUndoZone` builds for a zone. -/
def zoneMeta (nodeCount : Nat) (zoneId : Nat) : Option UndoZone → UndoZoneMetaInfo
  | some zone => if zoneId < zoneCountPerLevels nodeCount then zone.getMeta else emptyZoneMeta
  | none => emptyZoneMeta

/-- How zones are stored in the metadata file. -/
def zoneTable (nodeCount : Nat) : MetaTable UndoZone where
  kind := .zone
  base := 0
  entry zoneId zone := undoZoneMetaInfo.write (zoneMeta nodeCount zoneId zone)
  dirty zone := zone.dirty
  clean zone := { zone with dirty := false }
  entry_length := by
    intro zoneId zone
    exact undoZoneMetaInfo.write_length _

/-- `CheckPointUndoZone`: the file and the zones afterwards. -/
def checkPointUndoZone (crc : List UInt8 → UInt32) (nodeCount : Nat) (file : List UInt8)
    (zones : Nat → Option UndoZone) : List UInt8 × (Nat → Option UndoZone) :=
  checkPointTable crc (zoneTable nodeCount) file zones

/-- Restore one zone from its entry. -/
def restoreZone (transUndoThresholdSize : Nat) (zoneId : Nat) (entry : List UInt8)
    (context : UndoContext) : UndoContext :=
  let info := undoZoneMetaInfo.read entry
  if info.insertURecPtr ≠ UInt64.ofNat undoLogBlockHeaderSize then
    let zone := (getUndoZone context.uZones zoneId).recoveryZone info zoneId
    { context with
      uZones := update context.uZones zoneId (some zone)
      uZoneBitmap :=
        if zone.checkNeedSwitch transUndoThresholdSize then
          update context.uZoneBitmap zoneId false
        else context.uZoneBitmap }
  else context

/-- `GET_UPERSISTENCE`. -/
def getUPersistence (zoneId : Nat) : UndoPersistence :=
  match zoneId / persistZoneCount with
  | 0 => .permanent
  | 1 => .unlogged
  | 2 => .temp
  | _ => .butt

/-- `RecoveryUndoZone`: zones of the other levels start over, the persistent ones are restored;
an error of the source is `none`. -/
def recoveryUndoZone (crc : List UInt8 → UInt32) (transUndoThresholdSize : Nat)
    (file : List UInt8) (context : UndoContext) : Option UndoContext :=
  let metaSize := MetaKind.zone.pageCount * undoMetaPageSize / blcksz
  recoverTable crc .zone file (restoreZone transUndoThresholdSize) 0
    { context with
      uZones := fun zoneId =>
        if persistZoneCount ≤ zoneId ∧ zoneId < undoZoneCount then
          (context.uZones zoneId).map fun _ => UndoZone.init zoneId (getUPersistence zoneId)
        else context.uZones zoneId
      undoMetaSize := (context.undoMetaSize + metaSize) % 2 ^ 32 }

/-- What the metadata file is meant to keep of a zone. -/
structure ZoneValues where
  lsn : Nat
  insertURecPtr : Nat
  /-- End of the undo that was discarded in the normal way. -/
  discardURecPtr : Nat
  forceDiscardURecPtr : Nat
  recycleXid : Nat
  allocateTSlotPtr : Nat
  recycleTSlotPtr : Nat
deriving DecidableEq

/-- The values of a zone. -/
def UndoZone.values (zone : UndoZone) : ZoneValues :=
  ⟨zone.lsn, zone.insertURecPtr, zone.discardURecPtr, zone.forceDiscardURecPtr, zone.recycleXid,
    zone.allocateTSlotPtr, zone.recycleTSlotPtr⟩

/-- The values of a fresh zone. -/
def ZoneValues.fresh : ZoneValues :=
  ⟨0, undoLogBlockHeaderSize, undoLogBlockHeaderSize, undoLogBlockHeaderSize, 0,
    undoLogBlockHeaderSize, undoLogBlockHeaderSize⟩

/-- The values the masked setters take from an entry. -/
def UndoZoneMetaInfo.values (info : UndoZoneMetaInfo) : ZoneValues :=
  ⟨info.lsn.toNat, undoPtrGetOffset info.insertURecPtr.toNat,
    undoPtrGetOffset info.discardURecPtr.toNat, undoPtrGetOffset info.forceDiscardURecPtr.toNat,
    info.recycleXid.toNat, undoPtrGetOffset info.allocateTSlotPtr.toNat,
    undoPtrGetOffset info.recycleTSlotPtr.toNat⟩

/-- The zones in memory and the metadata file. -/
structure UndoSystem where
  file : List UInt8
  zones : Nat → Option UndoZone

/-- What happens to the persistent zones. -/
inductive ZoneEvent where
  | attach (zoneId : Nat)
  | insert (zoneId : Nat) (op : InsertOp) (recEnd : Nat)
  | recycle (zoneId : Nat) (batch : RecycleBatch) (recEnd : Nat)
  | prepareSwitch (zoneId : Nat)
  | checkPoint
  | restart

section System

variable (crc : List UInt8 → UInt32) (nodeCount transUndoThresholdSize : Nat)

/-- The system with what a recovery gave; after an error it does not come up. -/
def UndoSystem.comeUp (system : UndoSystem) : Option UndoContext → UndoSystem
  | some context => ⟨system.file, context.uZones⟩
  | none => system

/-- The system after a restart: memory is lost and read back from the file. -/
def UndoSystem.restart (system : UndoSystem) : UndoSystem :=
  system.comeUp (recoveryUndoZone crc transUndoThresholdSize system.file noZones)

/-- One event. A failed recycle check is a PANIC, so the system restarts. -/
def UndoSystem.step (system : UndoSystem) : ZoneEvent → UndoSystem
  | .attach zoneId => ⟨system.file, update system.zones zoneId
      (some (getUndoZone system.zones zoneId))⟩
  | .insert zoneId op recEnd => ⟨system.file, update system.zones zoneId
      ((system.zones zoneId).map fun zone => zone.insertUndo op recEnd)⟩
  | .recycle zoneId batch recEnd =>
    match (system.zones zoneId).bind fun zone => zone.discardUndo batch recEnd with
    | some zone => ⟨system.file, update system.zones zoneId (some zone)⟩
    | none => system.restart crc transUndoThresholdSize
  | .prepareSwitch zoneId => ⟨system.file, update system.zones zoneId
      ((system.zones zoneId).map UndoZone.prepareSwitch)⟩
  | .checkPoint =>
    let result := checkPointUndoZone crc nodeCount system.file system.zones
    ⟨result.1, result.2⟩
  | .restart => system.restart crc transUndoThresholdSize

/-- What the callers promise: zones of the permanent level, records that fit the zone, batches
of undo that was written, and words that fit their fields. -/
def ZoneEvent.Allowed (system : UndoSystem) : ZoneEvent → Prop
  | .attach zoneId => zoneId < zoneCountPerLevels nodeCount
  | .insert zoneId op recEnd => zoneId < zoneCountPerLevels nodeCount ∧ recEnd < 2 ^ 64 ∧
      undoLogBlockHeaderSize <
        undoLogOffsetPlusUsableBytes (undoPtrGetOffset op.lastRecord) op.lastRecordSize ∧
      undoLogOffsetPlusUsableBytes (undoPtrGetOffset op.lastRecord) op.lastRecordSize <
        undoLogMaxSize
  | .recycle zoneId batch recEnd => zoneId < zoneCountPerLevels nodeCount ∧ recEnd < 2 ^ 64 ∧
      batch.recycleXid < 2 ^ 64 ∧
      undoPtrGetOffset batch.startUndoPtr < undoPtrGetOffset batch.endUndoPtr ∧
      ∀ zone, system.zones zoneId = some zone →
        undoPtrGetOffset batch.endUndoPtr ≤ zone.insertURecPtr
  | .prepareSwitch zoneId => zoneId < zoneCountPerLevels nodeCount
  | .checkPoint => True
  | .restart => True

/-- The system of a fresh cluster. -/
def UndoSystem.fresh : UndoSystem := ⟨initUndoMeta crc, fun _ => none⟩

/-- A checkpoint now followed by a restart gives every zone of the permanent level its values
back, and a recycle check that succeeds now succeeds then. -/
def ZonesSurvive (system : UndoSystem) : Prop :=
  ∃ context, recoveryUndoZone crc transUndoThresholdSize
      (checkPointUndoZone crc nodeCount system.file system.zones).1 noZones = some context ∧
    ∀ zoneId < zoneCountPerLevels nodeCount,
      (getUndoZone context.uZones zoneId).values = (getUndoZone system.zones zoneId).values ∧
      ∀ starturp endurp,
        (getUndoZone system.zones zoneId).checkRecycle starturp endurp false = true →
        (getUndoZone context.uZones zoneId).checkRecycle starturp endurp false = true

/-- The zone was retired by `PrepareSwitch`. -/
def UndoZone.Retired (zone : UndoZone) : Prop := zone.insertURecPtr = undoLogMaxSize

end System

/-- The bounds a zone keeps, retired or not. -/
structure ZoneFits (values : ZoneValues) : Prop where
  lsn : values.lsn < 2 ^ 64
  insertURecPtr : values.insertURecPtr ≤ undoLogMaxSize
  discardURecPtr : values.discardURecPtr < undoLogMaxSize
  forceDiscardURecPtr : values.forceDiscardURecPtr < undoLogMaxSize
  recycleXid : values.recycleXid < 2 ^ 64
  allocateTSlotPtr : values.allocateTSlotPtr < undoLogMaxSize
  recycleTSlotPtr : values.recycleTSlotPtr < undoLogMaxSize
  fresh : values.insertURecPtr = undoLogBlockHeaderSize → values = .fresh

/-- What the mask makes of the values: a retired zone starts over at offset zero. -/
def ZoneValues.masked (values : ZoneValues) : ZoneValues :=
  { values with insertURecPtr := values.insertURecPtr % undoLogMaxSize }

/-- An offset comes back from a pointer. -/
theorem offset_roundTrip (zid offset : Nat) :
    undoPtrGetOffset (UInt64.ofNat (undoPtrGetOffset (makeUndoPtr zid offset))).toNat =
      offset % undoLogMaxSize := by
  rw [undoPtrGetOffset_makeUndoPtr]
  have small : offset % 2 ^ 44 < 2 ^ 44 := Nat.mod_lt _ (by decide)
  rw [UInt64.toNat_ofNat_of_lt' (lt_trans small (by decide)), undoPtrGetOffset_of_lt _ small]
  rfl

variable (zone : UndoZone)

/-- The stored entry keeps the values of a zone, cut to their widths. -/
theorem values_getMeta (fits : ZoneFits zone.values) :
    zone.getMeta.values = zone.values.masked := by
  have lsn : (UInt64.ofNat zone.lsn).toNat = zone.lsn := UInt64.toNat_ofNat_of_lt' fits.lsn
  have xid : (UInt64.ofNat zone.recycleXid).toNat = zone.recycleXid :=
    UInt64.toNat_ofNat_of_lt' fits.recycleXid
  have discard := Nat.mod_eq_of_lt fits.discardURecPtr
  have forceDiscard := Nat.mod_eq_of_lt fits.forceDiscardURecPtr
  have allocate := Nat.mod_eq_of_lt fits.allocateTSlotPtr
  have recycle := Nat.mod_eq_of_lt fits.recycleTSlotPtr
  simp only [UndoZone.values] at discard forceDiscard allocate recycle
  simp only [UndoZoneMetaInfo.values, UndoZone.getMeta, UndoZone.getInsertURecPtr,
    UndoZone.getDiscardURecPtr, UndoZone.getForceDiscardURecPtr, UndoZone.getAllocateTSlotPtr,
    UndoZone.getRecycleTSlotPtr, offset_roundTrip, lsn, xid, discard, forceDiscard, allocate,
    recycle, UndoZone.values, ZoneValues.masked]

/-- The stored entry depends on the values only. -/
theorem getMeta_congr (left right : UndoZone)
    (same : left.values.masked = right.values.masked) : left.getMeta = right.getMeta := by
  simp only [ZoneValues.masked, UndoZone.values, ZoneValues.mk.injEq] at same
  obtain ⟨lsn, insert, discard, forceDiscard, xid, allocate, recycle⟩ := same
  simp only [UndoZone.getMeta, UndoZone.getInsertURecPtr, UndoZone.getDiscardURecPtr,
    UndoZone.getForceDiscardURecPtr, UndoZone.getAllocateTSlotPtr, UndoZone.getRecycleTSlotPtr,
    undoPtrGetOffset_makeUndoPtr, lsn, discard, forceDiscard, xid, allocate, recycle]
  simp only [undoLogMaxSize] at insert
  rw [insert]

theorem values_recoveryZone (info : UndoZoneMetaInfo) (zoneId : Nat) :
    (zone.recoveryZone info zoneId).values = info.values := rfl

/-- A fresh zone is stored as an empty entry. -/
theorem getMeta_fresh (isFresh : zone.values = .fresh) : zone.getMeta = emptyZoneMeta := by
  simp only [UndoZone.values, ZoneValues.fresh, ZoneValues.mk.injEq] at isFresh
  obtain ⟨lsn, insert, discard, forceDiscard, xid, allocate, recycle⟩ := isFresh
  simp only [UndoZone.getMeta, UndoZone.getInsertURecPtr, UndoZone.getDiscardURecPtr,
    UndoZone.getForceDiscardURecPtr, UndoZone.getAllocateTSlotPtr, UndoZone.getRecycleTSlotPtr,
    undoPtrGetOffset_makeUndoPtr, lsn, insert, discard, forceDiscard, xid, allocate, recycle]
  rfl

theorem zoneFits_init (zoneId : Nat) (pLevel : UndoPersistence) :
    ZoneFits (UndoZone.init zoneId pLevel).values := by
  constructor <;> simp [UndoZone.init, UndoZone.values, ZoneValues.fresh, undoLogBlockHeaderSize,
    undoLogMaxSize]

/-- What an insertion does to the values. -/
def ZoneValues.inserted (values : ZoneValues) (allocates : Bool) (insert slot position : Nat) :
    ZoneValues :=
  { values with
    lsn := position
    insertURecPtr := insert
    allocateTSlotPtr := if allocates then slot else values.allocateTSlotPtr }

/-- What a recycled batch does to the values. -/
def ZoneValues.recycled (values : ZoneValues) (discard : Option Nat)
    (forceDiscard slot xid position : Nat) : ZoneValues :=
  { values with
    lsn := position
    discardURecPtr := discard.getD values.discardURecPtr
    forceDiscardURecPtr := forceDiscard
    recycleTSlotPtr := slot
    recycleXid := xid }

namespace UndoZone

variable (zone : UndoZone) (op : InsertOp) (recEnd : Nat) (allocates : Bool)
  (insert slot position : Nat)

theorem values_inserted : ((if allocates = true then (zone.moveInsert insert).moveAllocate slot
        else zone.moveInsert insert).stamp position).values =
      zone.values.inserted allocates insert slot position := by
  cases allocates <;> rfl

/-- The values after a record is inserted. -/
theorem values_insertUndo : (zone.insertUndo op recEnd).values = zone.values.inserted op.allocates
      (undoLogOffsetPlusUsableBytes (undoPtrGetOffset op.lastRecord) op.lastRecordSize)
      (undoPtrGetOffset (getNextSlotPtr op.slotPtr)) recEnd :=
  zone.values_inserted op.allocates _ _ recEnd

theorem pLevel_inserted : ((if allocates = true then (zone.moveInsert insert).moveAllocate slot
        else zone.moveInsert insert).stamp position).pLevel = zone.pLevel := by
  cases allocates <;> rfl

theorem pLevel_insertUndo : (zone.insertUndo op recEnd).pLevel = zone.pLevel :=
  zone.pLevel_inserted op.allocates _ _ recEnd

theorem values_recycled (valid : Bool) (discard force slot xid position : Nat) :
    (((if valid = true then zone.moveDiscard discard else zone).moveRecycle force slot
        xid).stamp position).values =
      zone.values.recycled (if valid then some discard else none) force slot xid position := by
  cases valid <;> rfl

/-- The values after a batch is recycled. -/
theorem values_applyBatch (batch : RecycleBatch) (recEnd : Nat) :
    ((zone.applyBatch batch).stamp recEnd).values = zone.values.recycled
      (if isValidUndoRecPtr batch.oldestEndUndoPtr then
        some (undoPtrGetOffset batch.discardTo) else none)
      (undoPtrGetOffset batch.endUndoPtr) (undoPtrGetOffset batch.recyclePtr) batch.recycleXid
      recEnd :=
  zone.values_recycled (isValidUndoRecPtr batch.oldestEndUndoPtr) _ _ _ _ recEnd

end UndoZone

/-- An insert keeps the values in their widths. -/
theorem ZoneFits.inserted {values : ZoneValues} (allocates : Bool) {insert slot position : Nat}
    (fits : ZoneFits values) (word : position < 2 ^ 64) (written : undoLogBlockHeaderSize < insert)
    (room : insert < undoLogMaxSize) (slotFits : slot < undoLogMaxSize) :
    ZoneFits (values.inserted allocates insert slot position) := by
  refine ⟨word, room.le, fits.discardURecPtr, fits.forceDiscardURecPtr, fits.recycleXid, ?_,
    fits.recycleTSlotPtr, ?_⟩
  · cases allocates
    · exact fits.allocateTSlotPtr
    · exact slotFits
  · intro untouched
    exact absurd untouched (Nat.ne_of_gt written)

/-- Recycling keeps the values in their widths. -/
theorem ZoneFits.recycled {values : ZoneValues} {discard : Option Nat}
    {forceDiscard slot xid position : Nat} (fits : ZoneFits values) (word : position < 2 ^ 64)
    (xidFits : xid < 2 ^ 64) (discardFits : ∀ offset ∈ discard, offset < undoLogMaxSize)
    (forceFits : forceDiscard < undoLogMaxSize) (slotFits : slot < undoLogMaxSize)
    (used : values.insertURecPtr ≠ undoLogBlockHeaderSize) :
    ZoneFits (values.recycled discard forceDiscard slot xid position) := by
  refine ⟨word, fits.insertURecPtr, ?_, forceFits, xidFits, fits.allocateTSlotPtr, slotFits, ?_⟩
  · cases discard with
    | none => exact fits.discardURecPtr
    | some offset => exact discardFits offset rfl
  · intro untouched
    exact absurd untouched used

/-- A zone of which something is recycled has been written to. -/
theorem used_of_checkRecycle {zone : UndoZone} {starturp endurp : Nat}
    (fits : ZoneFits zone.values) (checked : zone.checkRecycle starturp endurp false = true)
    (ordered : undoPtrGetOffset starturp < undoPtrGetOffset endurp)
    (written : undoPtrGetOffset endurp ≤ zone.insertURecPtr) :
    zone.values.insertURecPtr ≠ undoLogBlockHeaderSize := by
  intro untouched
  have isFresh := fits.fresh untouched
  have force : zone.forceDiscardURecPtr = undoLogBlockHeaderSize :=
    congrArg ZoneValues.forceDiscardURecPtr isFresh
  have insert : zone.insertURecPtr = undoLogBlockHeaderSize := untouched
  unfold UndoZone.checkRecycle at checked
  generalize undoPtrGetOffset starturp = start at *
  generalize undoPtrGetOffset endurp = finish at *
  simp only [force] at checked
  split at checked
  · rename_i impossible
    cases impossible
  · split at checked
    · rename_i inOrder
      simp only [Bool.and_eq_true, beq_iff_eq] at inOrder
      omega
    · lia

section Recovery

variable (crc : List UInt8 → UInt32) (transUndoThresholdSize : Nat) (file : List UInt8)

/-- What an entry makes of a zone. -/
def restoredZone (zoneId : Nat) (entry : List UInt8) (zone : Option UndoZone) : Option UndoZone :=
  let info := undoZoneMetaInfo.read entry
  if info.insertURecPtr ≠ UInt64.ofNat undoLogBlockHeaderSize then
    some ((zone.getD (UndoZone.init zoneId .permanent)).recoveryZone info zoneId)
  else zone

variable (zoneId : Nat) (entry : List UInt8) (context : UndoContext)

theorem restoreZone_self : (restoreZone transUndoThresholdSize zoneId entry context).uZones zoneId =
      restoredZone zoneId entry (context.uZones zoneId) := by
  simp only [restoreZone, restoredZone]
  split
  · exact update_self _ _ _
  · rfl

theorem restoreZone_other (distinct : Nat) (apart : distinct ≠ zoneId) :
    (restoreZone transUndoThresholdSize zoneId entry context).uZones distinct =
      context.uZones distinct := by
  simp only [restoreZone]
  split
  · exact update_of_ne apart _ _
  · rfl

/-- Recovery restores each persistent zone from its entry. -/
theorem recoveryUndoZone_zones (valid : AreaValid crc .zone file 0) :
    ∃ context, recoveryUndoZone crc transUndoThresholdSize file noZones = some context ∧
      ∀ zoneId, context.uZones zoneId = if zoneId < persistZoneCount then
        restoredZone zoneId (entryAt .zone file 0 zoneId) none else none := by
  refine ⟨_, recoverTable_eq (restoreZone transUndoThresholdSize) 0 _ valid, ?_⟩
  intro zoneId
  rw [restore_fold
    (restoreZone_self transUndoThresholdSize) (restoreZone_other transUndoThresholdSize)
    (entryAt .zone file 0)]
  simp [noZones]

end Recovery

/-- An entry that a checkpoint wrote at some time. -/
def StoredMeta (info : UndoZoneMetaInfo) : Prop :=
  info = emptyZoneMeta ∨ ∃ zone : UndoZone, ZoneFits zone.values ∧ info = zone.getMeta

variable (values : ZoneValues) (nodeCount zoneId : Nat) (info : UndoZoneMetaInfo)

theorem ZoneFits.fresh_of_masked (fits : ZoneFits values)
    (untouched : values.masked.insertURecPtr = undoLogBlockHeaderSize) : values = .fresh := by
  apply fits.fresh
  change values.insertURecPtr % undoLogMaxSize = undoLogBlockHeaderSize at untouched
  rcases Nat.lt_or_eq_of_le fits.insertURecPtr with inside | ended
  · exact (Nat.mod_eq_of_lt inside).symm.trans untouched
  · rw [ended] at untouched
    exact absurd untouched (by decide)

theorem ZoneFits.masked (fits : ZoneFits values) : ZoneFits values.masked := by
  refine ⟨fits.lsn, (Nat.mod_lt _ (by decide)).le, fits.discardURecPtr, fits.forceDiscardURecPtr,
    fits.recycleXid, fits.allocateTSlotPtr, fits.recycleTSlotPtr, ?_⟩
  intro untouched
  rw [fits.fresh_of_masked values untouched]
  rfl

theorem masked_masked : values.masked.masked = values.masked := by
  unfold ZoneValues.masked
  simp only [Nat.mod_mod]

/-- An entry is at the first header exactly if its offset is. -/
theorem insert_eq_header_iff (small : info.insertURecPtr.toNat < 2 ^ 44) :
    info.insertURecPtr = UInt64.ofNat undoLogBlockHeaderSize ↔
      info.values.insertURecPtr = undoLogBlockHeaderSize := by
  rw [← UInt64.toNat_inj]
  change _ ↔ undoPtrGetOffset info.insertURecPtr.toNat = undoLogBlockHeaderSize
  rw [undoPtrGetOffset_of_lt _ small]
  rfl

theorem stored_insert_lt (stored : StoredMeta info) : info.insertURecPtr.toNat < 2 ^ 44 := by
  rcases stored with rfl | ⟨zone, -, rfl⟩
  · decide
  · have small := undoPtrGetOffset_lt zone.getInsertURecPtr
    change (UInt64.ofNat (undoPtrGetOffset zone.getInsertURecPtr)).toNat < 2 ^ 44
    rw [UInt64.toNat_ofNat_of_lt' (lt_trans small (by decide))]
    exact small

/-- An entry at the first header is the empty one. -/
theorem stored_header (stored : StoredMeta info)
    (untouched : info.insertURecPtr = UInt64.ofNat undoLogBlockHeaderSize) :
    info = emptyZoneMeta := by
  have header := (insert_eq_header_iff info (stored_insert_lt info stored)).mp untouched
  rcases stored with rfl | ⟨zone, fits, rfl⟩
  · rfl
  · rw [values_getMeta zone fits] at header
    exact getMeta_fresh zone (fits.fresh_of_masked zone.values header)

variable {nodeCount zoneId}

theorem zoneMeta_some (zone : UndoZone) (level : zoneId < zoneCountPerLevels nodeCount) :
    zoneMeta nodeCount zoneId (some zone) = zone.getMeta := if_pos level

theorem restoredZone_untouched (zoneId : Nat) (info : UndoZoneMetaInfo)
    (untouched : info.insertURecPtr = UInt64.ofNat undoLogBlockHeaderSize) :
    restoredZone zoneId (undoZoneMetaInfo.write info) none = none := by
  simp only [restoredZone, undoZoneMetaInfo.read_write, untouched, ne_eq, not_true_eq_false,
    if_false]

/-- What is restored from an entry is stored as that entry. -/
theorem restored_getMeta
    (stored : StoredMeta info) (level : zoneId < zoneCountPerLevels nodeCount) :
    let zone := restoredZone zoneId (undoZoneMetaInfo.write info) none
    zoneMeta nodeCount zoneId zone = info ∧
      ∀ found, zone = some found → ZoneFits found.values ∧ found.dirty = false := by
  intro zone
  have read : undoZoneMetaInfo.read (undoZoneMetaInfo.write info) = info :=
    undoZoneMetaInfo.read_write info
  by_cases untouched : info.insertURecPtr = UInt64.ofNat undoLogBlockHeaderSize
  · have missing : zone = none := restoredZone_untouched zoneId info untouched
    rw [missing, stored_header info stored untouched]
    refine ⟨rfl, ?_⟩
    intro found present
    cases present
  · have present : zone = some ((UndoZone.init zoneId .permanent).recoveryZone info zoneId) := by
      simp only [zone, restoredZone, read, untouched, ne_eq, not_false_eq_true, if_true,
        getD_none]
    rcases stored with rfl | ⟨source, fits, rfl⟩
    · exact absurd rfl untouched
    · have values : ((UndoZone.init zoneId .permanent).recoveryZone source.getMeta zoneId).values =
          source.values.masked := by
        rw [values_recoveryZone, values_getMeta source fits]
      rw [present]
      refine ⟨?_, ?_⟩
      · rw [zoneMeta_some _ level]
        apply getMeta_congr
        rw [values, masked_masked]
      · intro found isFound
        rw [some.injEq] at isFound
        rw [← isFound, values]
        exact ⟨fits.masked, rfl⟩

section Invariant

variable (crc : List UInt8 → UInt32) (nodeCount transUndoThresholdSize : Nat)

variable (zoneId)

/-- What every run keeps. -/
structure SystemInv (system : UndoSystem) : Prop where
  valid : AreaValid crc .zone system.file 0
  stored : ∀ zoneId < persistZoneCount, ∃ info, StoredMeta info ∧
    entryAt .zone system.file 0 zoneId = undoZoneMetaInfo.write info
  zones : ∀ zoneId zone, system.zones zoneId = some zone →
    zoneId < zoneCountPerLevels nodeCount ∧ ZoneFits zone.values
  current : ∀ zoneId < persistZoneCount,
    (system.zones zoneId).any (fun zone => zone.dirty) = false →
    entryAt .zone system.file 0 zoneId =
      undoZoneMetaInfo.write (zoneMeta nodeCount zoneId (system.zones zoneId))

variable (system : UndoSystem) (file : List UInt8) (zones : Nat → Option UndoZone) (zoneId : Nat)
  (zone : UndoZone)

/-- A file of empty entries has the invariant without zones. -/
theorem systemInv_empty (valid : AreaValid crc .zone file 0) (empty : ∀ zoneId < persistZoneCount,
      entryAt .zone file 0 zoneId = undoZoneMetaInfo.write emptyZoneMeta) :
    SystemInv crc nodeCount ⟨file, fun _ => none⟩ := by
  refine ⟨valid, ?_, ?_, ?_⟩
  · intro zoneId inside
    exact ⟨emptyZoneMeta, .inl rfl, empty zoneId inside⟩
  · intro zoneId zone present
    cases present
  · intro zoneId inside _
    exact empty zoneId inside

/-- A new system has the invariant. -/
theorem systemInv_fresh : SystemInv crc nodeCount (UndoSystem.fresh crc) :=
  systemInv_empty crc nodeCount (initUndoMeta crc) (initUndoMeta_zone_valid crc)
    (initUndoMeta_zone_entry crc)

variable {nodeCount}

/-- A dirty zone keeps the invariant. -/
theorem SystemInv.dirtied
    (invariant : SystemInv crc nodeCount system) (level : zoneId < zoneCountPerLevels nodeCount)
    (fits : ZoneFits zone.values) (dirty : zone.dirty = true) :
    SystemInv crc nodeCount ⟨system.file, update system.zones zoneId (some zone)⟩ := by
  refine ⟨invariant.valid, invariant.stored, ?_, ?_⟩
  · intro other found present
    by_cases here : other = zoneId
    · subst here
      simp only [update_self, some.injEq] at present
      rw [← present]
      exact ⟨level, fits⟩
    · simp only [update_of_ne here] at present
      exact invariant.zones other found present
  · intro other inside clean
    by_cases here : other = zoneId
    · subst here
      simp only [update_self, any_some, dirty] at clean
      cases clean
    · simp only [update_of_ne here] at clean ⊢
      exact invariant.current other inside clean

/-- Attaching to a zone keeps the invariant. -/
theorem SystemInv.attached
    (invariant : SystemInv crc nodeCount system) (level : zoneId < zoneCountPerLevels nodeCount) :
    SystemInv crc nodeCount ⟨system.file, update system.zones zoneId
      (some (getUndoZone system.zones zoneId))⟩ := by
  cases present : system.zones zoneId with
  | some zone =>
    have same : update system.zones zoneId (some (getUndoZone system.zones zoneId)) =
        system.zones := by
      unfold getUndoZone
      rw [present, getD_some, ← present, update_eq_self]
    rw [same]
    exact invariant
  | none =>
    have isNew : getUndoZone system.zones zoneId = UndoZone.init zoneId .permanent := by
      unfold getUndoZone
      rw [present, getD_none]
    rw [isNew]
    refine ⟨invariant.valid, invariant.stored, ?_, ?_⟩
    · intro other found isFound
      by_cases here : other = zoneId
      · subst here
        simp only [update_self, some.injEq] at isFound
        rw [← isFound]
        exact ⟨level, zoneFits_init other .permanent⟩
      · simp only [update_of_ne here] at isFound
        exact invariant.zones other found isFound
    · intro other inside clean
      by_cases here : other = zoneId
      · subst here
        have empty := invariant.current other inside (by rw [present]; rfl)
        rw [present] at empty
        simp only [update_self]
        rw [empty, zoneMeta_some _ level, getMeta_fresh _ rfl]
        rfl
      · simp only [update_of_ne here] at clean ⊢
        exact invariant.current other inside clean

/-- A restart keeps the invariant. -/
theorem SystemInv.restarted {system : UndoSystem} (invariant : SystemInv crc nodeCount system) :
    SystemInv crc nodeCount (system.restart crc transUndoThresholdSize) := by
  obtain ⟨context, recovered, zones⟩ :=
    recoveryUndoZone_zones crc transUndoThresholdSize system.file invariant.valid
  have restarted : system.restart crc transUndoThresholdSize = system.comeUp (some context) :=
    congrArg system.comeUp recovered
  have level (zoneId : Nat) (zone : UndoZone) (present : context.uZones zoneId = some zone) :
      zoneId < zoneCountPerLevels nodeCount := by
    by_contra beyond
    rw [zones zoneId] at present
    split at present
    · rename_i inside
      have missing : system.zones zoneId = none := by
        cases found : system.zones zoneId with
        | none => rfl
        | some old => exact absurd (invariant.zones zoneId old found).1 beyond
      have empty := invariant.current zoneId inside (by rw [missing]; rfl)
      rw [empty, missing, restoredZone_untouched zoneId (zoneMeta nodeCount zoneId none) rfl] at present
      cases present
    · cases present
  rw [restarted, UndoSystem.comeUp]
  refine ⟨invariant.valid, invariant.stored, ?_, ?_⟩
  · intro zoneId zone present
    change context.uZones zoneId = some zone at present
    have here := level zoneId zone present
    have inside : zoneId < persistZoneCount := lt_of_lt_of_le here (Nat.div_mul_le_self _ _)
    obtain ⟨info, stored, entry⟩ := invariant.stored zoneId inside
    rw [zones zoneId, if_pos inside, entry] at present
    exact ⟨here, ((restored_getMeta info stored here).2 zone present).1⟩
  · intro zoneId inside _
    obtain ⟨info, stored, entry⟩ := invariant.stored zoneId inside
    simp only
    by_cases here : zoneId < zoneCountPerLevels nodeCount
    · rw [zones zoneId, if_pos inside, entry, (restored_getMeta info stored here).1]
    · have missing : context.uZones zoneId = none := by
        cases found : context.uZones zoneId with
        | none => rfl
        | some zone => exact absurd (level zoneId zone found) here
      have wasMissing : system.zones zoneId = none := by
        cases found : system.zones zoneId with
        | none => rfl
        | some old => exact absurd (invariant.zones zoneId old found).1 here
      have empty := invariant.current zoneId inside (by rw [wasMissing]; rfl)
      rw [missing, empty, wasMissing]

theorem zone_covered (page : Nat) (inside : page < MetaKind.zone.pageCount) :
    MetaKind.zone.covered page := by
  change page < 49933 at inside
  change page % 8 * 512 + 512 ≤ MetaKind.zone.writeSize (page / 8 * 56)
  unfold MetaKind.writeSize
  by_cases last : 349525 - page / 8 * 56 < 56
  · have size : (if persistZoneCount - page / 8 * 56 < MetaKind.zone.perWrite then
        ((persistZoneCount - page / 8 * 56) / MetaKind.zone.lastWriteUnit + 1) *
          undoMetaPageSize else undoWriteSize) =
        ((349525 - page / 8 * 56) / 7 + 1) * 512 := if_pos last
    lia
  · have size : (if persistZoneCount - page / 8 * 56 < MetaKind.zone.perWrite then
        ((persistZoneCount - page / 8 * 56) / MetaKind.zone.lastWriteUnit + 1) *
          undoMetaPageSize else undoWriteSize) = 4096 := if_neg last
    lia

variable (nodeCount)

/-- A checkpoint goes through all units of the zone table. -/
theorem checkPointUndoZone_flushed (valid : AreaValid crc .zone file 0) :
    Flushed crc (zoneTable nodeCount) file zones MetaKind.zone.unitCount
      (checkPointUndoZone crc nodeCount file zones).1
      (checkPointUndoZone crc nodeCount file zones).2 :=
  checkPointTable_flushed crc zones valid.room

theorem zoneMeta_clean (zone : Option UndoZone) :
    zoneMeta nodeCount zoneId (zone.map (zoneTable nodeCount).clean) =
      zoneMeta nodeCount zoneId zone := by
  cases zone <;> rfl

theorem SystemInv.storedMeta (invariant : SystemInv crc nodeCount system) :
    StoredMeta (zoneMeta nodeCount zoneId (system.zones zoneId)) := by
  cases present : system.zones zoneId with
  | none => exact .inl rfl
  | some zone =>
    obtain ⟨level, fits⟩ := invariant.zones zoneId zone present
    rw [zoneMeta_some zone level]
    exact .inr ⟨zone, fits, rfl⟩

/-- After a checkpoint the file has the entry of each zone. -/
theorem SystemInv.checkPoint_entry
    (invariant : SystemInv crc nodeCount system) (inside : zoneId < persistZoneCount) :
    entryAt .zone (checkPointUndoZone crc nodeCount system.file system.zones).1 0 zoneId =
      undoZoneMetaInfo.write (zoneMeta nodeCount zoneId (system.zones zoneId)) := by
  have flushed := checkPointUndoZone_flushed crc nodeCount system.file system.zones invariant.valid
  have covered := zone_covered _ (MetaKind.zone.zone_place inside).1
  by_cases dirty : (zoneTable nodeCount).DirtyUnit system.zones (zoneId / MetaKind.zone.perWrite)
  · exact flushed.entry_written inside dirty covered
  · have kept := flushed.entry_kept inside (fun isDirty => absurd isDirty dirty)
    refine Eq.trans kept (invariant.current zoneId inside ?_)
    rw [← Bool.not_eq_true]
    intro isDirty
    exact dirty ⟨zoneId, inside, rfl, isDirty⟩

/-- A file with all entries keeps the invariant. -/
theorem SystemInv.saved
    (invariant : SystemInv crc nodeCount system) (valid : AreaValid crc .zone file 0)
    (entries : ∀ zoneId < persistZoneCount, entryAt .zone file 0 zoneId =
      undoZoneMetaInfo.write (zoneMeta nodeCount zoneId (system.zones zoneId)))
    (cleaned : ∀ zoneId, zones zoneId = (system.zones zoneId).map (zoneTable nodeCount).clean ∨
      zones zoneId = system.zones zoneId) : SystemInv crc nodeCount ⟨file, zones⟩ := by
  refine ⟨valid, ?_, ?_, ?_⟩
  · intro zoneId inside
    exact ⟨_, invariant.storedMeta crc nodeCount system zoneId, entries zoneId inside⟩
  · intro zoneId zone present
    change zones zoneId = some zone at present
    rcases cleaned zoneId with clean | same
    · rw [clean, map_eq_some_iff] at present
      obtain ⟨old, wasThere, rfl⟩ := present
      exact invariant.zones zoneId old wasThere
    · rw [same] at present
      exact invariant.zones zoneId zone present
  · intro zoneId inside _
    change entryAt .zone file 0 zoneId =
      undoZoneMetaInfo.write (zoneMeta nodeCount zoneId (zones zoneId))
    rw [entries zoneId inside]
    rcases cleaned zoneId with clean | same
    · rw [clean, zoneMeta_clean]
    · rw [same]

theorem checkPointUndoZone_zones (valid : AreaValid crc .zone file 0) :
    (checkPointUndoZone crc nodeCount file zones).2 zoneId =
        (zones zoneId).map (zoneTable nodeCount).clean ∨
      (checkPointUndoZone crc nodeCount file zones).2 zoneId = zones zoneId := by
  have flushed := checkPointUndoZone_flushed crc nodeCount file zones valid
  by_cases written : zoneId < persistZoneCount ∧
      zoneId / MetaKind.zone.perWrite < MetaKind.zone.unitCount ∧
      (zoneTable nodeCount).DirtyUnit zones (zoneId / MetaKind.zone.perWrite)
  · exact .inl (flushed.cleaned zoneId written.1 written.2.1 written.2.2)
  · exact .inr (flushed.untouched zoneId (fun inside unit dirty => written ⟨inside, unit, dirty⟩))

variable {file}

theorem checkPointUndoZone_valid (valid : AreaValid crc .zone file 0) :
    AreaValid crc .zone (checkPointUndoZone crc nodeCount file zones).1 0 :=
  (checkPointUndoZone_flushed crc nodeCount file zones valid).area_valid valid

/-- A checkpoint keeps the invariant. -/
theorem SystemInv.checkPointed (invariant : SystemInv crc nodeCount system) :
    SystemInv crc nodeCount ⟨(checkPointUndoZone crc nodeCount system.file system.zones).1,
      (checkPointUndoZone crc nodeCount system.file system.zones).2⟩ :=
  invariant.saved crc nodeCount system _ _
    (checkPointUndoZone_valid crc nodeCount system.zones invariant.valid)
    (fun zoneId inside => invariant.checkPoint_entry crc nodeCount system zoneId inside)
    (fun zoneId => checkPointUndoZone_zones crc nodeCount system.file system.zones zoneId
      invariant.valid)

variable {nodeCount crc system}

/-- A change that marks the zone dirty keeps the invariant. -/
theorem SystemInv.changed {change : UndoZone → UndoZone}
    (invariant : SystemInv crc nodeCount system) (level : zoneId < zoneCountPerLevels nodeCount)
    (keeps : ∀ zone, system.zones zoneId = some zone → change zone = zone ∨
      ZoneFits (change zone).values ∧ (change zone).dirty = true) : SystemInv crc nodeCount
      ⟨system.file, update system.zones zoneId ((system.zones zoneId).map change)⟩ := by
  cases present : system.zones zoneId with
  | none =>
    rw [map_none, ← present, update_eq_self]
    exact invariant
  | some zone =>
    rw [map_some]
    rcases keeps zone present with same | ⟨fits, dirty⟩
    · rw [same, ← present, update_eq_self]
      exact invariant
    · exact invariant.dirtied crc system zoneId (change zone) level fits dirty

theorem prepareSwitch_fits (fits : ZoneFits zone.values) : zone.prepareSwitch = zone ∨
      ZoneFits zone.prepareSwitch.values ∧ zone.prepareSwitch.dirty = true := by
  unfold UndoZone.prepareSwitch
  split
  · refine .inr ⟨⟨fits.lsn, le_rfl, fits.discardURecPtr, fits.forceDiscardURecPtr,
      fits.recycleXid, fits.allocateTSlotPtr, fits.recycleTSlotPtr, ?_⟩, rfl⟩
    intro untouched
    change undoLogMaxSize = undoLogBlockHeaderSize at untouched
    exact absurd untouched (by decide)
  · exact .inl rfl

/-- A permanent zone is retired by the switch. -/
theorem prepareSwitch_retired (permanent : zone.pLevel = .permanent) :
    zone.prepareSwitch.Retired := by
  unfold UndoZone.prepareSwitch UndoZone.Retired
  rw [if_pos permanent]

/-- A discard keeps the widths and marks the zone. -/
theorem discardUndo_fits {zone changed : UndoZone} {batch : RecycleBatch} {recEnd : Nat}
    (fits : ZoneFits zone.values) (word : recEnd < 2 ^ 64) (xid : batch.recycleXid < 2 ^ 64)
    (ordered : undoPtrGetOffset batch.startUndoPtr < undoPtrGetOffset batch.endUndoPtr)
    (written : undoPtrGetOffset batch.endUndoPtr ≤ zone.insertURecPtr)
    (recycled : zone.discardUndo batch recEnd = some changed) :
    ZoneFits changed.values ∧ changed.dirty = true := by
  unfold UndoZone.discardUndo UndoZone.recycleBatch at recycled
  by_cases checked : zone.checkRecycle batch.startUndoPtr batch.endUndoPtr false = true
  · rw [if_pos checked, map_some, some.injEq] at recycled
    have used := used_of_checkRecycle fits checked ordered written
    rw [← recycled, UndoZone.values_applyBatch]
    refine ⟨?_, rfl⟩
    apply fits.recycled word xid _ (undoPtrGetOffset_lt _) (undoPtrGetOffset_lt _) used
    intro offset isOffset
    split at isOffset
    · rw [mem_some_iff] at isOffset
      rw [← isOffset]
      exact undoPtrGetOffset_lt _
    · cases isOffset
  · rw [if_neg checked] at recycled
    cases recycled

/-- Every step keeps the invariant. -/
theorem systemInv_step (event : ZoneEvent)
    (invariant : SystemInv crc nodeCount system) (allowed : event.Allowed nodeCount system) :
    SystemInv crc nodeCount (system.step crc nodeCount transUndoThresholdSize event) := by
  cases event with
  | attach zoneId => exact invariant.attached crc system zoneId allowed
  | insert zoneId op recEnd =>
    obtain ⟨level, word, written, room⟩ := allowed
    apply invariant.changed zoneId level
    intro zone present
    refine .inr ⟨?_, rfl⟩
    rw [UndoZone.values_insertUndo]
    exact (invariant.zones zoneId zone present).2.inserted _ word written room
      (undoPtrGetOffset_lt _)
  | recycle zoneId batch recEnd =>
    obtain ⟨level, word, xid, ordered, inZone⟩ := allowed
    simp only [UndoSystem.step]
    split
    · rename_i changed isChanged
      obtain ⟨zone, present, recycled⟩ := Option.bind_eq_some_iff.mp isChanged
      obtain ⟨fits, dirty⟩ := discardUndo_fits
        (invariant.zones zoneId zone present).2 word xid ordered (inZone zone present) recycled
      exact invariant.dirtied crc system zoneId changed level fits dirty
    · exact invariant.restarted crc transUndoThresholdSize
  | prepareSwitch zoneId =>
    apply invariant.changed zoneId allowed
    intro zone present
    exact prepareSwitch_fits zone (invariant.zones zoneId zone present).2
  | checkPoint => exact invariant.checkPointed crc nodeCount system
  | restart => exact invariant.restarted crc transUndoThresholdSize

/-- What is recovered has the values, cut to their widths. -/
theorem SystemInv.recovered_values {context : UndoContext} {zoneId : Nat}
    (invariant : SystemInv crc nodeCount system) (level : zoneId < zoneCountPerLevels nodeCount)
    (zones : context.uZones zoneId = restoredZone zoneId
      (undoZoneMetaInfo.write (zoneMeta nodeCount zoneId (system.zones zoneId))) none) :
    (getUndoZone context.uZones zoneId).values =
      (getUndoZone system.zones zoneId).values.masked := by
  have fresh : (UndoZone.init zoneId .permanent).values.masked =
      (UndoZone.init zoneId .permanent).values := rfl
  unfold getUndoZone
  rw [zones]
  cases present : system.zones zoneId with
  | none =>
    rw [restoredZone_untouched zoneId (zoneMeta nodeCount zoneId none) rfl]
    exact fresh.symm
  | some zone =>
    have fits := (invariant.zones zoneId zone present).2
    rw [zoneMeta_some zone level, getD_some, ← values_getMeta zone fits]
    by_cases untouched : zone.getMeta.insertURecPtr = UInt64.ofNat undoLogBlockHeaderSize
    · have header := stored_header zone.getMeta (.inr ⟨zone, fits, rfl⟩) untouched
      rw [header]
      rfl
    · have restored : restoredZone zoneId (undoZoneMetaInfo.write zone.getMeta) none =
          some ((UndoZone.init zoneId .permanent).recoveryZone zone.getMeta zoneId) := by
        simp only [restoredZone, undoZoneMetaInfo.read_write, untouched, ne_eq, not_false_eq_true,
          if_true, getD_none]
      rw [restored, getD_some, values_recoveryZone]

theorem checkRecycle_congr (left right : UndoZone) (starturp endurp : Nat) (isexrto : Bool)
    (same : left.values = right.values) :
    left.checkRecycle starturp endurp isexrto = right.checkRecycle starturp endurp isexrto := by
  have insert : left.insertURecPtr = right.insertURecPtr :=
    congrArg ZoneValues.insertURecPtr same
  have force : left.forceDiscardURecPtr = right.forceDiscardURecPtr :=
    congrArg ZoneValues.forceDiscardURecPtr same
  unfold UndoZone.checkRecycle
  rw [insert, force]

/-- All zones survive a crash exactly if none is retired. -/
theorem SystemInv.survive_iff (invariant : SystemInv crc nodeCount system) :
    ZonesSurvive crc nodeCount transUndoThresholdSize system ↔
      ∀ zoneId zone, system.zones zoneId = some zone → ¬ zone.Retired := by
  obtain ⟨context, recovered, zones⟩ := recoveryUndoZone_zones crc transUndoThresholdSize _
    (checkPointUndoZone_valid crc nodeCount system.zones invariant.valid)
  have values (zoneId : Nat) (level : zoneId < zoneCountPerLevels nodeCount) :
      (getUndoZone context.uZones zoneId).values =
        (getUndoZone system.zones zoneId).values.masked := by
    have inside : zoneId < persistZoneCount := lt_of_lt_of_le level (Nat.div_mul_le_self _ _)
    have here := zones zoneId
    rw [if_pos inside, invariant.checkPoint_entry crc nodeCount system zoneId inside] at here
    exact invariant.recovered_values level here
  constructor
  · rintro ⟨found, isFound, survives⟩ zoneId zone present retired
    rw [recovered, some.injEq] at isFound
    have level := (invariant.zones zoneId zone present).1
    have same := (survives zoneId level).1
    rw [← isFound, values zoneId level] at same
    have insert := congrArg ZoneValues.insertURecPtr same
    unfold getUndoZone at insert
    rw [present] at insert
    change zone.insertURecPtr % undoLogMaxSize = zone.insertURecPtr at insert
    rw [retired] at insert
    exact absurd insert (by decide)
  · intro active
    refine ⟨context, recovered, ?_⟩
    intro zoneId level
    have same : (getUndoZone context.uZones zoneId).values =
        (getUndoZone system.zones zoneId).values := by
      rw [values zoneId level]
      unfold getUndoZone
      cases present : system.zones zoneId with
      | none => rfl
      | some zone =>
        have bound := (invariant.zones zoneId zone present).2.insertURecPtr
        have inside := lt_of_le_of_ne bound (active zoneId zone present)
        rw [getD_some]
        unfold ZoneValues.masked
        rw [Nat.mod_eq_of_lt inside]
    refine ⟨same, ?_⟩
    intro starturp endurp checked
    rw [checkRecycle_congr _ _ starturp endurp false same]
    exact checked

variable (nodeCount crc)

/-- In every state that a run from a fresh cluster reaches, the zones survive a checkpoint and
a restart exactly when none of them is retired. -/
theorem zone_checkpoint_survives_iff (events : List ZoneEvent)
    (run : Along (UndoSystem.step crc nodeCount transUndoThresholdSize)
      (fun system event => event.Allowed nodeCount system) (UndoSystem.fresh crc) events) :
    ZonesSurvive crc nodeCount transUndoThresholdSize
        (events.foldl (UndoSystem.step crc nodeCount transUndoThresholdSize)
          (UndoSystem.fresh crc)) ↔
      ∀ zoneId zone, (events.foldl (UndoSystem.step crc nodeCount transUndoThresholdSize)
        (UndoSystem.fresh crc)).zones zoneId = some zone → ¬ zone.Retired := by
  have invariant := along_invariant (UndoSystem.step crc nodeCount transUndoThresholdSize)
    (fun system event => event.Allowed nodeCount system) (SystemInv crc nodeCount)
    (fun system event => systemInv_step transUndoThresholdSize event)
    (UndoSystem.fresh crc) events (systemInv_fresh crc nodeCount) run
  exact invariant.survive_iff transUndoThresholdSize

end Invariant

/-- One record of 100 bytes at the start of zone 5, with a transaction slot. -/
def firstInsert : InsertOp where
  lastRecord := makeUndoPtr 5 24
  lastRecordSize := 100
  newXid := true
  switchZone := false
  slotPtr := makeUndoPtr 5 24

/-- A run that attaches zone 5 and writes its first record. -/
def attachAndInsert : List ZoneEvent := [.attach 5, .insert 5 firstInsert 200]

theorem attachAndInsert_allowed (crc : List UInt8 → UInt32) :
    Along (UndoSystem.step crc 1 0) (fun system event => event.Allowed 1 system)
      (UndoSystem.fresh crc) attachAndInsert := by
  have level : 5 < zoneCountPerLevels 1 := by decide
  exact ⟨level, ⟨level, by decide, by decide, by decide⟩, trivial⟩

theorem attachAndInsert_zones (crc : List UInt8 → UInt32) (zoneId : Nat) :
    (attachAndInsert.foldl (UndoSystem.step crc 1 0) (UndoSystem.fresh crc)).zones zoneId =
      if zoneId = 5 then some ((UndoZone.init 5 .permanent).insertUndo firstInsert 200)
      else none := by
  simp only [attachAndInsert, List.foldl_cons, List.foldl_nil, UndoSystem.step, UndoSystem.fresh,
    update_self, map_some, getUndoZone, getD_none]
  by_cases here : zoneId = 5
  · rw [if_pos here, here, update_self]
  · rw [if_neg here, update_of_ne here, update_of_ne here]

/-- A zone in use survives. -/
theorem zone_checkpoint_survives_in_use : ZonesSurvive crc32c 1 0
      (attachAndInsert.foldl (UndoSystem.step crc32c 1 0) (UndoSystem.fresh crc32c)) := by
  refine (zone_checkpoint_survives_iff crc32c 1 0 attachAndInsert
    (attachAndInsert_allowed crc32c)).mpr ?_
  intro zoneId zone present
  rw [attachAndInsert_zones crc32c zoneId] at present
  split at present
  · rw [some.injEq] at present
    rw [← present]
    unfold UndoZone.Retired
    decide
  · cases present

/-- The same zone retired by `PrepareSwitch` comes back with its insertion pointer at zero. -/
theorem retired_zone_not_restored :
    ¬ ZonesSurvive crc32c 1 0 ((attachAndInsert ++ [ZoneEvent.prepareSwitch 5]).foldl
      (UndoSystem.step crc32c 1 0) (UndoSystem.fresh crc32c)) := by
  have before := along_invariant (UndoSystem.step crc32c 1 0)
    (fun system event => event.Allowed 1 system) (SystemInv crc32c 1)
    (fun system event => systemInv_step 0 event) (UndoSystem.fresh crc32c)
    attachAndInsert (systemInv_fresh crc32c 1) (attachAndInsert_allowed crc32c)
  have zones := attachAndInsert_zones crc32c 5
  rw [List.foldl_append]
  generalize attachAndInsert.foldl (UndoSystem.step crc32c 1 0) (UndoSystem.fresh crc32c) =
    system at *
  have invariant := systemInv_step 0 (.prepareSwitch 5) before (by
    simp only [ZoneEvent.Allowed]
    decide)
  intro survives
  have retired := prepareSwitch_retired
    ((UndoZone.init 5 .permanent).insertUndo firstInsert 200) (UndoZone.pLevel_insertUndo _ _ _)
  have active := (invariant.survive_iff 0).mp survives 5
    ((UndoZone.init 5 .permanent).insertUndo firstInsert 200).prepareSwitch (by
      simp only [UndoSystem.step, zones, if_true, map_some, update_self])
  exact active retired

end OpenGauss.Undo
