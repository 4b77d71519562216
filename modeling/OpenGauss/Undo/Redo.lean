import OpenGauss.Base.Replay
import OpenGauss.Undo.Zone

/-!
# Redo of undo zone changes

On the primary a permanent zone changes in two ways: a statement inserts undo records
(`PrepareUndoMeta`, `UpdateTransactionSlot`, `SetUndoMetaLSN`), and a recycle pass
discards the undo of finished transactions (`RecycleUndoSpace`). Both write a log record
and set the zone's LSN to the record's end. Redo guards both by the zone LSN, but
`UndoXlogRedo` hands `XlogUndoDiscardReplay` the record's start where every other replay
function gets its end. The results say when redo still reaches the primary's state.
-/
namespace OpenGauss.Undo

open Option OpenGauss.Base

/-- The zone's share of one undo insertion, as the primary performs it. -/
structure InsertOp where
  lastRecord : Nat
  lastRecordSize : Nat
  /-- The transaction uses the zone for the first time (`xid != prevXid`). -/
  newXid : Bool
  switchZone : Bool
  slotPtr : Nat
deriving DecidableEq

/-- The zone metadata in the log record of an insertion (`XlogUndoMeta`). -/
structure XlogUndoMeta where
  /-- `XLOG_UNDOMETA_INFO_SLOT`. -/
  isTranslot : Bool
  /-- `XLOG_UNDOMETA_INFO_SWITCH`. -/
  isSwitchZone : Bool
  slotPtr : Nat
deriving DecidableEq

/-- The log record of a discard (`XlogUndoDiscard`). -/
structure XlogUndoDiscard where
  endSlot : Nat
  startSlot : Nat
  recycleLoops : Nat
  endUndoPtr : Nat
  recycledXid : Nat
  oldestXmin : Nat
deriving DecidableEq

/-- The insertion takes a new transaction slot (`UpdateTransactionSlot`). -/
def InsertOp.allocates (op : InsertOp) : Bool := op.newXid || op.switchZone

/-- The metadata the primary logs for an insertion. -/
def InsertOp.undoMeta (op : InsertOp) : XlogUndoMeta where
  isTranslot := op.allocates
  isSwitchZone := op.switchZone
  slotPtr := undoPtrGetOffset op.slotPtr

/-- The record the primary logs for a discard. -/
def RecycleBatch.xlrec (batch : RecycleBatch) : XlogUndoDiscard where
  endSlot := batch.recyclePtr
  startSlot := batch.start
  recycleLoops := batch.recycleLoops
  endUndoPtr := batch.endUndoPtr
  recycledXid := batch.recycleXid
  oldestXmin := batch.recycleXmin

namespace UndoZone

/-- The zone's share of `AllocTransactionSlot`. -/
def allocTransactionSlot (zone : UndoZone) (slotPtr : Nat) : UndoZone :=
  zone.moveAllocate (undoPtrGetOffset (getNextSlotPtr slotPtr))

/-- `PrepareUndoMeta`, `UpdateTransactionSlot` and `SetUndoMetaLSN` on a permanent zone. -/
def insertUndo (zone : UndoZone) (op : InsertOp) (recEnd : Nat) : UndoZone :=
  let zone := zone.advanceInsertURecPtr (undoPtrGetOffset op.lastRecord) op.lastRecordSize
  let zone := if op.allocates then zone.allocTransactionSlot op.slotPtr else zone
  zone.stamp recEnd

/-- A recycled run on a permanent zone, with the log record it writes. -/
def discardUndo (zone : UndoZone) (batch : RecycleBatch) (recEnd : Nat) : Option UndoZone :=
  (zone.recycleBatch batch).map fun zone => zone.stamp recEnd

/-- The guarded part of `RedoUndoMeta`. -/
def applyUndoMeta (zone : UndoZone) (undoMeta : XlogUndoMeta) (lastRecord lastRecordSize : Nat)
    (endRecPtr : Nat) : UndoZone :=
  let zone := zone.advanceInsertURecPtr (undoPtrGetOffset lastRecord) lastRecordSize
  let zone := if undoMeta.isTranslot || undoMeta.isSwitchZone then
    zone.moveAllocate (undoPtrGetOffset (getNextSlotPtr undoMeta.slotPtr)) else zone
  zone.stamp endRecPtr

/-- The zone's share of `RedoUndoMeta`; the slot page has an LSN of its own. -/
def redoUndoMeta (zone : UndoZone) (undoMeta : XlogUndoMeta) (lastRecord lastRecordSize : Nat)
    (endRecPtr : Nat) : UndoZone :=
  if zone.lsn < endRecPtr then zone.applyUndoMeta undoMeta lastRecord lastRecordSize endRecPtr
  else zone

/-- The guarded part of `XlogUndoDiscardReplay`. -/
def applyUndoDiscard (zone : UndoZone) (xlrec : XlogUndoDiscard) (lsn : Nat) : UndoZone :=
  let zone := zone.moveDiscard (undoPtrGetOffset xlrec.endUndoPtr)
  let zone := zone.moveRecycle (undoPtrGetOffset xlrec.endUndoPtr)
    (undoPtrGetOffset xlrec.endSlot) xlrec.recycledXid
  zone.stamp lsn

/-- The zone's share of `XlogUndoDiscardReplay`. -/
def xlogUndoDiscardReplay (zone : UndoZone) (xlrec : XlogUndoDiscard) (lsn : Nat) : UndoZone :=
  if zone.lsn < lsn then zone.applyUndoDiscard xlrec lsn else zone

end UndoZone

/-- One logged change of a zone. -/
inductive ZoneOp where
  | insert (op : InsertOp)
  | discard (batch : RecycleBatch)
deriving DecidableEq

/-- A change with the place of its log record. -/
structure Logged where
  /-- Start of the record (`ReadRecPtr`). -/
  readRecPtr : Nat
  /-- End of the record (`EndRecPtr`). -/
  endRecPtr : Nat
  op : ZoneOp
deriving DecidableEq

/-- The change on the primary; `none` is a PANIC. -/
def Logged.execute (record : Logged) (zone : UndoZone) : Option UndoZone :=
  match record.op with
  | .insert op => some (zone.insertUndo op record.endRecPtr)
  | .discard batch => zone.discardUndo batch record.endRecPtr

/-- The redo of a record, with the position each redo function is called with. -/
def Logged.redo (zone : UndoZone) (record : Logged) : UndoZone :=
  match record.op with
  | .insert op => zone.redoUndoMeta op.undoMeta op.lastRecord op.lastRecordSize record.endRecPtr
  | .discard batch => zone.xlogUndoDiscardReplay batch.xlrec record.readRecPtr

/-- A run of changes on the primary. -/
def executeLog (zone : UndoZone) (log : List Logged) : Option UndoZone :=
  log.foldlM (fun zone record => record.execute zone) zone

/-- A run of records through redo. -/
def redoLog (zone : UndoZone) (log : List Logged) : UndoZone := log.foldl Logged.redo zone

/-- Records lie behind `position` and behind each other; two of them may touch. -/
def Laid : Nat → List Logged → Prop
  | _, [] => True
  | position, record :: rest =>
    position ≤ record.readRecPtr ∧ record.readRecPtr < record.endRecPtr ∧ Laid record.endRecPtr rest

/-- No discard starts exactly where the zone's record before it ends. -/
def Apart : Nat → List Logged → Prop
  | _, [] => True
  | position, record :: rest =>
    (∀ batch, record.op = .discard batch → position ≠ record.readRecPtr) ∧
      Apart record.endRecPtr rest

/-- The zone state redo has to restore. -/
structure RedoMeta where
  insertURecPtr : Nat
  forceDiscardURecPtr : Nat
  allocateTSlotPtr : Nat
  recycleTSlotPtr : Nat
  recycleXid : Nat
deriving DecidableEq

/-- The state after an insertion, which may take a new slot. -/
def RedoMeta.inserted (redoMeta : RedoMeta) (allocates : Bool) (insert slot : Nat) : RedoMeta :=
  { redoMeta with
    insertURecPtr := insert
    allocateTSlotPtr := if allocates then slot else redoMeta.allocateTSlotPtr }

/-- The state redo has to restore, taken out of a zone. -/
def UndoZone.redoMeta (zone : UndoZone) : RedoMeta :=
  ⟨zone.insertURecPtr, zone.forceDiscardURecPtr, zone.allocateTSlotPtr, zone.recycleTSlotPtr,
    zone.recycleXid⟩

/-- Zone states that hold the effect of a front part of the log: a checkpoint of the
primary, or any such state replayed from an earlier record on, as often as it restarts. -/
inductive Recovered (zone : UndoZone) : List Logged → UndoZone → Prop
  | checkpoint (log : List Logged) (state : UndoZone) (ran : executeLog zone log = some state) :
    Recovered zone log state
  | replayed (before again later : List Logged) (state : UndoZone)
    (held : Recovered zone (before ++ again) state) :
    Recovered zone (before ++ again ++ later) (redoLog state (again ++ later))

/-- The position a record's redo compares the zone by and leaves in it. -/
def Logged.stamp (record : Logged) : Nat :=
  match record.op with
  | .insert _ => record.endRecPtr
  | .discard _ => record.readRecPtr

/-- What redo does to a zone that does not hold the record's effect. -/
def Logged.effect (record : Logged) (zone : UndoZone) : UndoZone :=
  match record.op with
  | .insert op =>
    zone.applyUndoMeta op.undoMeta op.lastRecord op.lastRecordSize record.endRecPtr
  | .discard batch => zone.applyUndoDiscard batch.xlrec record.readRecPtr

/-- Zone redo is a replay guarded by the zone LSN. -/
def zoneReplay : Replay UndoZone Logged where
  position := UndoZone.lsn
  stamp := Logged.stamp
  effect := Logged.effect
  position_effect := by
    rintro ⟨readRecPtr, endRecPtr, op⟩ zone
    cases op <;> rfl

theorem redo_eq_step (zone : UndoZone) (record : Logged) :
    Logged.redo zone record = zoneReplay.step zone record := by
  obtain ⟨readRecPtr, endRecPtr, op⟩ := record
  cases op <;> rfl

theorem redoLog_eq_run (zone : UndoZone) (log : List Logged) :
    redoLog zone log = zoneReplay.run zone log := by
  unfold redoLog Replay.run
  congr 1
  funext state record
  exact redo_eq_step state record

namespace UndoZone

variable (zone : UndoZone)

@[simp] theorem redoMeta_moveDiscard (offset : Nat) :
    (zone.moveDiscard offset).redoMeta = zone.redoMeta := rfl

@[simp] theorem redoMeta_moveRecycle (forceDiscard recycleSlot xid : Nat) :
    (zone.moveRecycle forceDiscard recycleSlot xid).redoMeta = { zone.redoMeta with
        forceDiscardURecPtr := forceDiscard
        recycleTSlotPtr := recycleSlot
        recycleXid := xid } := rfl

@[simp] theorem redoMeta_stamp (position : Nat) :
    (zone.stamp position).redoMeta = zone.redoMeta := rfl

variable (op : InsertOp) (batch : RecycleBatch)

theorem redoMeta_inserted (allocates : Bool) (insert slot position : Nat) :
    ((if allocates = true then (zone.moveInsert insert).moveAllocate slot
        else zone.moveInsert insert).stamp position).redoMeta =
      zone.redoMeta.inserted allocates insert slot := by
  cases allocates <;> rfl

theorem redoMeta_insertUndo (recEnd : Nat) :
    (zone.insertUndo op recEnd).redoMeta = zone.redoMeta.inserted op.allocates
      (undoLogOffsetPlusUsableBytes (undoPtrGetOffset op.lastRecord) op.lastRecordSize)
      (undoPtrGetOffset (getNextSlotPtr op.slotPtr)) :=
  zone.redoMeta_inserted op.allocates _ _ recEnd

theorem redoMeta_applyUndoMeta (endRecPtr : Nat) :
    (zone.applyUndoMeta op.undoMeta op.lastRecord op.lastRecordSize endRecPtr).redoMeta =
      zone.redoMeta.inserted op.allocates
        (undoLogOffsetPlusUsableBytes (undoPtrGetOffset op.lastRecord) op.lastRecordSize)
        (undoPtrGetOffset (getNextSlotPtr op.slotPtr)) := by
  have flags : (op.undoMeta.isTranslot || op.undoMeta.isSwitchZone) = op.allocates := by
    cases fresh : op.newXid <;> cases switched : op.switchZone <;>
      simp [InsertOp.undoMeta, InsertOp.allocates]
  have moved := zone.redoMeta_inserted op.allocates
    (undoLogOffsetPlusUsableBytes (undoPtrGetOffset op.lastRecord) op.lastRecordSize)
    (undoPtrGetOffset (getNextSlotPtr (undoPtrGetOffset op.slotPtr))) endRecPtr
  rw [← flags] at moved ⊢
  rw [← undoPtrGetOffset_getNextSlotPtr op.slotPtr]
  exact moved

theorem redoMeta_applyBatch : (zone.applyBatch batch).redoMeta = { zone.redoMeta with
        forceDiscardURecPtr := undoPtrGetOffset batch.endUndoPtr
        recycleTSlotPtr := undoPtrGetOffset batch.recyclePtr
        recycleXid := batch.recycleXid } := by
  unfold applyBatch
  split <;> simp only [redoMeta_moveRecycle, redoMeta_moveDiscard]

theorem redoMeta_applyUndoDiscard (lsn : Nat) : (zone.applyUndoDiscard batch.xlrec lsn).redoMeta =
      { zone.redoMeta with
        forceDiscardURecPtr := undoPtrGetOffset batch.endUndoPtr
        recycleTSlotPtr := undoPtrGetOffset batch.recyclePtr
        recycleXid := batch.recycleXid } := by
  unfold applyUndoDiscard
  simp only [redoMeta_stamp, redoMeta_moveRecycle, redoMeta_moveDiscard, RecycleBatch.xlrec]

end UndoZone

/-- A recovered zone against the primary after the same part of the log. -/
structure Synced (log : List Logged) (primary state : UndoZone) : Prop where
  same : state.redoMeta = primary.redoMeta
  behind : state.lsn ≤ primary.lsn
  covered : ∀ record ∈ log, zoneReplay.stamp record ≤ zoneReplay.position state

variable (position : Nat) (first second : List Logged) (log : List Logged)
  (primary state next : UndoZone) (record : Logged)

/-- Executing a record has its effect. -/
theorem execute_effect
    (same : state.redoMeta = primary.redoMeta) (ran : record.execute primary = some next) :
    (record.effect state).redoMeta = next.redoMeta ∧ next.lsn = record.endRecPtr := by
  obtain ⟨readRecPtr, endRecPtr, op⟩ := record
  cases op with
  | insert op =>
    have executed : primary.insertUndo op endRecPtr = next := some.inj ran
    subst executed
    refine ⟨?_, ?_⟩
    · unfold Logged.effect
      rw [UndoZone.redoMeta_applyUndoMeta, UndoZone.redoMeta_insertUndo, same]
    · rfl
  | discard batch =>
    unfold Logged.execute UndoZone.discardUndo UndoZone.recycleBatch at ran
    simp only at ran
    split at ran
    · have executed : (primary.applyBatch batch).stamp endRecPtr = next := some.inj ran
      subst executed
      refine ⟨?_, ?_⟩
      · unfold Logged.effect
        rw [UndoZone.redoMeta_applyUndoDiscard, UndoZone.redoMeta_stamp,
          UndoZone.redoMeta_applyBatch, same]
      · rfl
    · simp at ran

/-- A record that is executed is replayed. -/
theorem synced_step (held : Synced log primary state) (later : primary.lsn ≤ record.readRecPtr)
    (ordered : record.readRecPtr < record.endRecPtr)
    (apart : ∀ batch, record.op = .discard batch → primary.lsn ≠ record.readRecPtr)
    (ran : record.execute primary = some next) :
    Synced (log ++ [record]) next (zoneReplay.step state record) ∧ next.lsn = record.endRecPtr := by
  obtain ⟨readRecPtr, endRecPtr, op⟩ := record
  have behind := held.behind
  have beyond : zoneReplay.position state < zoneReplay.stamp ⟨readRecPtr, endRecPtr, op⟩ := by
    cases op with
    | insert op =>
      change state.lsn < endRecPtr
      simp only at later ordered
      omega
    | discard batch =>
      change state.lsn < readRecPtr
      lia
  have result := execute_effect primary state next _ held.same ran
  have position := zoneReplay.position_effect ⟨readRecPtr, endRecPtr, op⟩ state
  rw [zoneReplay.step_beyond _ _ beyond]
  refine ⟨⟨result.1, ?_, ?_⟩, result.2⟩
  · have stamped : zoneReplay.stamp ⟨readRecPtr, endRecPtr, op⟩ ≤ endRecPtr := by
      cases op
      · exact Nat.le_refl _
      · exact Nat.le_of_lt ordered
    rw [result.2]
    change zoneReplay.position _ ≤ endRecPtr
    rw [position]
    exact stamped
  · intro other member
    rw [List.mem_append, List.mem_singleton] at member
    rw [position]
    rcases member with earlier | rfl
    · exact Nat.le_trans (held.covered other earlier) (Nat.le_of_lt beyond)
    · exact Nat.le_refl _

theorem executeLog_append (zone : UndoZone) (first second : List Logged) :
    executeLog zone (first ++ second) =
      (executeLog zone first).bind fun middle => executeLog middle second := by
  unfold executeLog
  rw [List.foldlM_append]
  rfl

/-- The log position a part of the log leaves on the primary. -/
def endOf (position : Nat) (log : List Logged) : Nat :=
  log.foldl (fun _ record => record.endRecPtr) position

theorem laid_append :
    Laid position (first ++ second) ↔ Laid position first ∧ Laid (endOf position first) second := by
  induction first generalizing position with
  | nil => simp [Laid, endOf]
  | cons record rest ih => simp [Laid, endOf, ih, and_assoc]

theorem apart_append : Apart position (first ++ second) ↔
      Apart position first ∧ Apart (endOf position first) second := by
  induction first generalizing position with
  | nil => simp [Apart, endOf]
  | cons record rest ih => simp [Apart, endOf, ih, and_assoc]

/-- A log that is executed is replayed. -/
theorem synced_run (log later : List Logged) (primary state next : UndoZone)
    (held : Synced log primary state) (laid : Laid primary.lsn later)
    (apart : Apart primary.lsn later) (ran : executeLog primary later = some next) :
    Synced (log ++ later) next (zoneReplay.run state later) := by
  induction later generalizing log primary state with
  | nil =>
    have same : primary = next := some.inj ran
    subst same
    simpa [Replay.run] using held
  | cons record rest ih =>
    obtain ⟨behind, ordered, laid⟩ := laid
    obtain ⟨gap, apart⟩ := apart
    obtain ⟨middle, first, ran⟩ := Option.bind_eq_some_iff.mp ran
    obtain ⟨synced, position⟩ := synced_step log primary state middle record held behind ordered
      gap first
    rw [← position] at laid apart
    have all := ih (log ++ [record]) middle (zoneReplay.step state record) synced laid apart ran
    rw [List.append_assoc] at all
    exact all

/-- A checkpoint is in step with its log. -/
theorem synced_checkpoint (zone primary : UndoZone) (log : List Logged)
    (laid : Laid zone.lsn log) (ran : executeLog zone log = some primary) :
    Synced log primary primary ∧ primary.lsn = endOf zone.lsn log := by
  -- Generalised over the records that were executed before.
  suffices general : ∀ before, (∀ record ∈ before, zoneReplay.stamp record ≤ zone.lsn) →
      (∀ record ∈ before ++ log, zoneReplay.stamp record ≤ primary.lsn) ∧
        primary.lsn = endOf zone.lsn log by
    obtain ⟨covered, position⟩ := general [] (by simp)
    exact ⟨⟨rfl, Nat.le_refl _, covered⟩, position⟩
  intro before stamped
  induction log generalizing zone before with
  | nil =>
    have same : zone = primary := some.inj ran
    subst same
    exact ⟨by simpa using stamped, rfl⟩
  | cons record rest ih =>
    obtain ⟨behind, ordered, laid⟩ := laid
    obtain ⟨middle, first, ran⟩ := Option.bind_eq_some_iff.mp ran
    have position : middle.lsn = record.endRecPtr :=
      (execute_effect zone zone middle record rfl first).2
    have later : zone.lsn ≤ middle.lsn := by omega
    have own : zoneReplay.stamp record ≤ middle.lsn := by
      rw [position]
      obtain ⟨readRecPtr, endRecPtr, op⟩ := record
      cases op
      · exact Nat.le_refl _
      · exact Nat.le_of_lt ordered
    rw [← position] at laid
    have all := ih middle laid ran (before ++ [record]) ?_
    · rw [List.append_assoc] at all
      refine ⟨all.1, ?_⟩
      rw [all.2, position]
      rfl
    · intro other member
      rw [List.mem_append, List.mem_singleton] at member
      rcases member with earlier | rfl
      · exact Nat.le_trans (stamped other earlier) later
      · exact own

/-- What is recovered is in step. -/
theorem recovered_synced (zone primary state : UndoZone) (log : List Logged)
    (laid : Laid zone.lsn log) (apart : Apart zone.lsn log)
    (ran : executeLog zone log = some primary) (held : Recovered zone log state) :
    Synced log primary state := by
  induction held generalizing primary with
  | checkpoint log state checkpoint =>
    have same : state = primary := some.inj (checkpoint.symm.trans ran)
    subst same
    exact (synced_checkpoint zone state log laid checkpoint).1
  | replayed before again later state held ih =>
    rw [executeLog_append] at ran
    obtain ⟨middle, first, ran⟩ := Option.bind_eq_some_iff.mp ran
    obtain ⟨laidFirst, laidLater⟩ := (laid_append _ _ _).mp laid
    obtain ⟨apartFirst, apartLater⟩ := (apart_append _ _ _).mp apart
    have synced := ih middle laidFirst apartFirst first
    have position := (synced_checkpoint zone middle _ laidFirst first).2
    rw [← position] at laidLater apartLater
    rw [redoLog_eq_run, zoneReplay.run_append, zoneReplay.run_covered state again
      (fun record member => synced.covered record (List.mem_append_right _ member))]
    exact synced_run _ later middle state primary synced laidLater apartLater ran

/-- Redo converges to the primary wherever no discard touches the zone's record before it. -/
theorem zone_redo_converges (zone primary state : UndoZone) (log : List Logged)
    (laid : Laid zone.lsn log) (apart : Apart zone.lsn log)
    (ran : executeLog zone log = some primary) (recovered : Recovered zone log state) :
    state.insertURecPtr = primary.insertURecPtr ∧
      state.forceDiscardURecPtr = primary.forceDiscardURecPtr ∧
      state.allocateTSlotPtr = primary.allocateTSlotPtr ∧
      state.recycleTSlotPtr = primary.recycleTSlotPtr ∧ state.recycleXid = primary.recycleXid ∧
      ∀ record ∈ log, Logged.redo state record = state := by
  have synced := recovered_synced zone primary state log laid apart ran recovered
  have same := synced.same
  simp only [UndoZone.redoMeta, RedoMeta.mk.injEq] at same
  obtain ⟨insert, force, allocate, recycle, xid⟩ := same
  refine ⟨insert, force, allocate, recycle, xid, fun record member => ?_⟩
  rw [redo_eq_step]
  exact zoneReplay.step_covered state record (synced.covered record member)

/-- An insertion of 100 bytes into a fresh zone, with its transaction slot. -/
def sampleInsert : InsertOp where
  lastRecord := makeUndoPtr 1 24
  lastRecordSize := 100
  newXid := true
  switchZone := false
  slotPtr := makeUndoPtr 1 24

/-- The discard of that transaction. -/
def sampleDiscard : RecycleBatch where
  start := makeUndoPtr 1 24
  recyclePtr := makeUndoPtr 1 56
  startUndoPtr := makeUndoPtr 1 24
  endUndoPtr := makeUndoPtr 1 124
  oldestEndUndoPtr := makeUndoPtr 1 124
  recycleXid := 5
  recycleXmin := 9
  recycleLoops := 1

/-- An insertion and, after other log records, its discard: replay from the start converges. -/
theorem zone_redo_converges_with_gap : (redoLog (UndoZone.init 1 .permanent)
        [⟨100, 200, .insert sampleInsert⟩, ⟨240, 300, .discard sampleDiscard⟩]).forceDiscardURecPtr
      = 124 := by
  have ran : ∃ primary, executeLog (UndoZone.init 1 .permanent)
      [⟨100, 200, .insert sampleInsert⟩, ⟨240, 300, .discard sampleDiscard⟩] = some primary ∧
      primary.forceDiscardURecPtr = 124 := ⟨_, rfl, by decide⟩
  obtain ⟨primary, ran, force⟩ := ran
  have recovered := @Recovered.replayed (UndoZone.init 1 .permanent) [] []
    [⟨100, 200, .insert sampleInsert⟩, ⟨240, 300, .discard sampleDiscard⟩] _
    (.checkpoint [] _ rfl)
  have converged := zone_redo_converges (UndoZone.init 1 .permanent) primary _ _
    (by simp [Laid, UndoZone.init]) (by simp [Apart]) ran recovered
  exact converged.2.1.trans force

/-- The same two records back to back: redo skips the discard. -/
theorem zone_redo_skips_touching_discard : ∃ primary state, Laid (UndoZone.init 1 .permanent).lsn
        [⟨100, 200, .insert sampleInsert⟩, ⟨200, 300, .discard sampleDiscard⟩] ∧
      executeLog (UndoZone.init 1 .permanent)
        [⟨100, 200, .insert sampleInsert⟩, ⟨200, 300, .discard sampleDiscard⟩] = some primary ∧
      Recovered (UndoZone.init 1 .permanent)
        [⟨100, 200, .insert sampleInsert⟩, ⟨200, 300, .discard sampleDiscard⟩] state ∧
      primary.forceDiscardURecPtr = 124 ∧ state.forceDiscardURecPtr = 24 ∧
      primary.recycleXid = 5 ∧ state.recycleXid = 0 := by
  have recovered := @Recovered.replayed (UndoZone.init 1 .permanent) [] []
    [⟨100, 200, .insert sampleInsert⟩, ⟨200, 300, .discard sampleDiscard⟩] _
    (.checkpoint [] _ rfl)
  exact ⟨_, _, by simp [Laid, UndoZone.init], rfl, recovered, by decide, by decide, by decide,
    by decide⟩

end OpenGauss.Undo
