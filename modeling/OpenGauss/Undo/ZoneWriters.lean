import Mathlib.Logic.Function.Basic
import OpenGauss.Undo.RecyclePass

/-!
# Transactions that write into a zone

A transaction that writes undo moves the insertion pointer (`PrepareUndoMeta`), takes a slot at
its first write (`AllocTransactionSlot`) and then announces its undo in the slot
(`UpdateTransactionSlot`); all of this is one critical section, so a transaction does not end in
the middle of it, but the recycler may look at the zone there. `ZoneOrdered` is what the writers
and the recycler keep of a zone, and the lemmas of this module are the writers' part.
-/
namespace OpenGauss.Undo

open Function List

/-- A write of undo that is not announced yet. -/
structure PendingWrite where
  xid : Nat
  startUndoPtr : Nat

/-- A recycled slot, with what was true of its transaction at that time. -/
structure RecycledSlot where
  slotPtr : Nat
  slot : TransactionSlot
  inProgress : Bool
  didCommit : Bool

/-- A zone with its slot pages and the history of its slots. -/
structure ZoneState where
  zone : UndoZone
  slots : Nat → TransactionSlot
  pending : Option PendingWrite
  allocated : List Nat
  recycled : List RecycledSlot

namespace XidTable

/-- A transaction gets the next number. -/
def begin (xids : XidTable) : XidTable :=
  { xids with
    running := update xids.running xids.nextXid true
    nextXid := xids.nextXid + 1 }

/-- A transaction is marked committed. -/
def commit (xids : XidTable) (xid : Nat) : XidTable :=
  { xids with committed := update xids.committed xid true }

/-- A transaction leaves the proc array. -/
def finish (xids : XidTable) (xid : Nat) : XidTable :=
  { xids with running := update xids.running xid false }

/-- Running transactions have numbers that were given out and that are not recycled. -/
structure Sound (xids : XidTable) : Prop where
  normal : firstNormalTransactionId ≤ xids.nextXid
  behind : xids.globalRecycleXid ≤ xids.nextXid
  running : ∀ xid, xids.running xid = true →
    firstNormalTransactionId ≤ xid ∧ xid < xids.nextXid ∧ xids.globalRecycleXid ≤ xid

/-- Time went on: numbers were given out, transactions ended or committed. -/
structure Later (before after : XidTable) : Prop where
  next : before.nextXid ≤ after.nextXid
  running : ∀ xid, after.running xid = true →
    before.running xid = true ∨ before.nextXid ≤ xid ∧ xid < after.nextXid
  committed : ∀ xid, before.committed xid = true → after.committed xid = true
  limit : after.globalRecycleXid = before.globalRecycleXid

variable (before after : XidTable) (xids : XidTable) (xid : Nat)

theorem begin_later : Later xids xids.begin := by
  refine ⟨Nat.le_succ _, ?_, fun _ committed => committed, rfl⟩
  intro xid running
  by_cases new : xid = xids.nextXid
  · rw [new]
    exact .inr ⟨le_rfl, Nat.lt_succ_self _⟩
  · left
    have kept : xids.begin.running xid = xids.running xid := update_of_ne new _ _
    rw [← kept]
    exact running

theorem commit_later : Later xids (xids.commit xid) := by
  refine ⟨le_rfl, fun _ running => .inl running, ?_, rfl⟩
  intro other committed
  change update xids.committed xid true other = true
  by_cases same : other = xid
  · rw [same, update_self]
  · rw [update_of_ne same]
    exact committed

theorem finish_later : Later xids (xids.finish xid) := by
  refine ⟨le_rfl, ?_, fun _ committed => committed, rfl⟩
  intro other running
  left
  have entry : update xids.running xid false other = true := running
  by_cases same : other = xid
  · rw [same, update_self] at entry
    exact absurd entry (by decide)
  · rw [update_of_ne same] at entry
    exact entry

theorem Sound.later {before after : XidTable} (sound : before.Sound) (later : Later before after) :
    after.Sound := by
  have next := later.next
  have normal := sound.normal
  have behind := sound.behind
  have limit := later.limit
  refine ⟨by omega, by omega, ?_⟩
  intro xid running
  rcases later.running xid running with old | ⟨new, given⟩
  · have known := sound.running xid old
    exact ⟨known.1, by omega, by omega⟩
  · exact ⟨by omega, given, by omega⟩

theorem Later.bound (later : Later before after) {bound : Nat}
    (next : bound ≤ before.nextXid) (running : ∀ xid, before.running xid = true → bound ≤ xid)
    (xid : Nat) (active : after.running xid = true) : bound ≤ xid := by
  rcases later.running xid active with old | ⟨new, _⟩
  · exact running xid old
  · omega

/-- What is finished stays finished. -/
theorem finished_later {slot slot' : TransactionSlot}
    (later : Later before after) (known : slot.xactId < before.nextXid)
    (same : slot'.xactId = slot.xactId)
    (rollback : slot.needRollback = false → slot'.needRollback = false)
    (concluded : before.finished slot) : after.finished slot' := by
  unfold finished at *
  rw [same]
  refine ⟨?_, concluded.2.imp (later.committed _) rollback⟩
  cases active : after.running slot.xactId with
  | false => rfl
  | true =>
    rcases later.running _ active with old | ⟨new, _⟩
    · rw [concluded.1] at old
      exact absurd old (by decide)
    · omega

end XidTable

namespace ZoneState

/-- A slot by its number. -/
def slot (state : ZoneState) (index : Nat) : TransactionSlot :=
  state.slots (slotPtr state.zone.zid index)

/-- A write begins: its records end at the new insertion pointer. -/
def startWrite (state : ZoneState) (xid insert : Nat) : ZoneState :=
  { state with
    zone := { state.zone.moveInsert insert with
      dirty := state.zone.dirty || decide (state.zone.pLevel = .permanent) }
    pending := some ⟨xid, state.zone.getInsertURecPtr⟩ }

/-- `PrepareUndoMeta`, for records that start at the insertion pointer. -/
def prepareUndoMeta (state : ZoneState) (xid lastRecord lastRecordSize : Nat) : ZoneState :=
  state.startWrite xid
    (state.zone.advanceInsertURecPtr (undoPtrGetOffset lastRecord) lastRecordSize).insertURecPtr

/-- Put a slot behind the allocated ones. -/
def addSlot (state : ZoneState) (ptr next : Nat) (slot : TransactionSlot) : ZoneState :=
  { state with
    slots := update state.slots ptr slot
    zone := state.zone.moveAllocate next
    allocated := state.allocated ++ [ptr] }

/-- `AllocTransactionSlot`: initialise the next slot for the transaction. -/
def allocTransactionSlot (state : ZoneState) (xid dbId : Nat) : ZoneState :=
  let slotPtr := state.zone.getAllocateTSlotPtr
  state.addSlot slotPtr (undoPtrGetOffset (getNextSlotPtr slotPtr))
    ((state.slots slotPtr).init xid dbId)

variable (state : ZoneState) (ptr next index : Nat) (slot : TransactionSlot)

theorem slot_addSlot_self (here : slotPtr state.zone.zid index = ptr) :
    (state.addSlot ptr next slot).slot index = slot := by
  change update state.slots ptr slot (slotPtr state.zone.zid index) = slot
  rw [here, update_self]

theorem slot_addSlot_of_ne (different : slotPtr state.zone.zid index ≠ ptr) :
    (state.addSlot ptr next slot).slot index = state.slot index := by
  change update state.slots ptr slot (slotPtr state.zone.zid index) = _
  rw [update_of_ne different]
  rfl

/-- The write in progress ends with the new contents of its slot. -/
def announce (state : ZoneState) (ptr : Nat) (slot : TransactionSlot) : ZoneState :=
  { state with slots := update state.slots ptr slot, pending := none }

variable (ptr index : Nat) (slot : TransactionSlot)

theorem slot_announce_self
    (here : slotPtr state.zone.zid index = ptr) : (state.announce ptr slot).slot index = slot := by
  change update state.slots ptr slot (slotPtr state.zone.zid index) = slot
  rw [here, update_self]

theorem slot_announce_of_ne (different : slotPtr state.zone.zid index ≠ ptr) :
    (state.announce ptr slot).slot index = state.slot index := by
  change update state.slots ptr slot (slotPtr state.zone.zid index) = _
  rw [update_of_ne different]
  rfl

/-- The end of `UpdateTransactionSlot`, with the write that it announces. -/
def updateTransactionSlot (state : ZoneState) (slotPtr : Nat) (write : PendingWrite) : ZoneState :=
  state.announce slotPtr
    ((state.slots slotPtr).update write.startUndoPtr state.zone.getInsertURecPtr)

/-- `UpdateRollbackFinish`. -/
def updateRollbackFinish (state : ZoneState) (slotPtr : Nat) : ZoneState :=
  { state with
    slots := update state.slots slotPtr (state.slots slotPtr).updateRollbackProgress }

end ZoneState

namespace ZoneState

/-- A transaction may write into the zone: no write is in progress, it is the latest transaction
of the zone, its last record stands behind the insertion pointer and ends in the zone. -/
structure MayPrepare (xids : XidTable) (state : ZoneState) (xid lastRecord lastRecordSize : Nat) :
    Prop where
  idle : state.pending = none
  running : xids.running xid = true
  latest : ∀ slotPtr ∈ state.allocated, (state.slots slotPtr).xactId ≤ xid
  behind : state.zone.insertURecPtr ≤ undoPtrGetOffset lastRecord
  behindHeader : 24 ≤ undoPtrGetOffset lastRecord % 8192
  nonempty : 0 < lastRecordSize
  /-- The zone is switched before its end (`CheckNeedSwitch`). -/
  inside : undoLogOffsetPlusUsableBytes (undoPtrGetOffset lastRecord) lastRecordSize < 2 ^ 44
  small : lastRecordSize < 2 ^ 63

/-- The write in progress may take a slot: its transaction has none, and the slot fits. -/
structure MayAllocate (state : ZoneState) (write : PendingWrite) : Prop where
  pending : state.pending = some write
  latest : ∀ slotPtr ∈ state.allocated, (state.slots slotPtr).xactId < write.xid
  /-- The zone is switched before its slots run out (`CheckNeedSwitch`). -/
  inside : state.zone.allocateTSlotPtr + 2 ^ 15 ≤ undoLogMaxSize

/-- The write in progress may be announced in the slot of its transaction. -/
structure MayUpdate (state : ZoneState) (slotPtr : Nat) (write : PendingWrite) : Prop where
  pending : state.pending = some write
  allocated : slotPtr ∈ state.allocated
  /-- It is the slot of the transaction, as `UpdateTransactionSlot` checks. -/
  own : (state.slots slotPtr).xactId = write.xid

end ZoneState

/-- What writers and recycler keep of a zone with `allocate` slots, of which the first `recycle`
are recycled and the first `frozen` are known to be finished. -/
structure ZoneOrdered (xids : XidTable) (state : ZoneState) (allocate recycle frozen : Nat) :
    Prop where
  small : state.zone.zid < 2 ^ 20
  inside : slotOffset allocate < 2 ^ 44
  allocatePtr : state.zone.allocateTSlotPtr = slotOffset allocate
  recycling : Recycling state.slots state.zone.zid recycle state.zone
  frozenPtr : state.zone.frozenSlotPtr = invalidUndoRecPtr ∨
    state.zone.frozenSlotPtr = slotPtr state.zone.zid frozen
  recycleWithin : recycle ≤ allocate
  frozenWithin : frozen ≤ allocate
  chain : SlotChain state.slots state.zone.zid allocate state.zone.insertURecPtr
  behindHeader : 24 ≤ state.zone.insertURecPtr % 8192
  insertInside : state.zone.insertURecPtr < 2 ^ 44
  normal : ∀ index, index < allocate → firstNormalTransactionId ≤ (state.slot index).xactId ∧
      (state.slot index).xactId < xids.nextXid
  kept : ∀ index, recycle ≤ index → index < allocate →
    xids.globalRecycleXid ≤ (state.slot index).xactId
  increasing : ∀ first second, first < second → second < allocate →
    (state.slot first).xactId < (state.slot second).xactId
  concluded : ∀ index, index < frozen ∨ index < recycle → xids.finished (state.slot index)
  announced : ∀ index, index < allocate → (state.slot index).startUndoPtr = invalidUndoRecPtr →
    ∃ write, state.pending = some write ∧ write.xid = (state.slot index).xactId
  /-- The transaction of the write in progress is running and is the latest of the zone, and its
  records stand behind the announced ones. -/
  writing : ∀ write, state.pending = some write → xids.running write.xid = true ∧
      (∀ index, index < allocate → (state.slot index).xactId ≤ write.xid) ∧
      (∀ count, count ≤ allocate →
        boundary state.slots state.zone.zid count < state.zone.insertURecPtr) ∧
      undoPtrGetZoneId write.startUndoPtr = state.zone.zid ∧
      write.startUndoPtr ≠ invalidUndoRecPtr
  allocatedPtrs : state.allocated = (List.range allocate).map (slotPtr state.zone.zid)
  recycledPtrs : state.recycled.map RecycledSlot.slotPtr =
    (List.range recycle).map (slotPtr state.zone.zid)
  recycledEnds : state.recycled.map (fun entry => entry.slot.endUndoPtr) =
    (List.range recycle).map (fun index => (state.slot index).endUndoPtr)
  recycledSafe : ∀ entry ∈ state.recycled, entry.inProgress = false ∧
    (entry.didCommit = true ∨ entry.slot.needRollback = false)

/-- Changes to slots that a scan in progress need not notice. -/
structure SlotsLater (xids : XidTable) (before after : ZoneState) (allocate allocate' : Nat) :
    Prop where
  longer : allocate ≤ allocate'
  same : ∀ index, index < allocate → (after.slot index).xactId = (before.slot index).xactId
  rollback : ∀ index, index < allocate → (before.slot index).needRollback = false →
    (after.slot index).needRollback = false
  fresh : ∀ index, allocate ≤ index → index < allocate' →
    xids.running (after.slot index).xactId = true

namespace ZoneOrdered

/-- A new zone is ordered. -/
theorem init (xids : XidTable) {zid : Nat} (pLevel : UndoPersistence)
    (slots : Nat → TransactionSlot) (small : zid < 2 ^ 20) :
    ZoneOrdered xids ⟨UndoZone.init zid pLevel, slots, none, [], []⟩ 0 0 0 where
  small := small
  inside := by decide
  allocatePtr := rfl
  recycling := ⟨rfl, rfl, rfl, le_rfl⟩
  frozenPtr := .inl rfl
  recycleWithin := le_rfl
  frozenWithin := le_rfl
  chain := by
    refine ⟨by omega, ?_, by omega, by omega⟩
    intro count none
    have zero : count = 0 := by omega
    rw [zero]
    exact le_rfl
  behindHeader := by
    change 24 ≤ 24 % 8192
    decide
  insertInside := by
    change 24 < 2 ^ 44
    decide
  normal := by omega
  kept := by omega
  increasing := by omega
  concluded := by omega
  announced := by omega
  writing := by
    intro write pending
    cases pending
  allocatedPtrs := rfl
  recycledPtrs := rfl
  recycledEnds := rfl
  recycledSafe := by
    intro entry member
    cases member

variable (xids : XidTable) (state : ZoneState) (allocate recycle frozen : Nat)

variable {xids state allocate recycle frozen}

/-- Later transactions keep the order. -/
theorem later {after : XidTable} (ordered : ZoneOrdered xids state allocate recycle frozen)
    (time : xids.Later after)
    (active : ∀ write, state.pending = some write → after.running write.xid = true) :
    ZoneOrdered after state allocate recycle frozen :=
  { ordered with
    normal := fun index within =>
      ⟨(ordered.normal index within).1, lt_of_lt_of_le (ordered.normal index within).2 time.next⟩
    kept := by
      intro index left within
      rw [time.limit]
      exact ordered.kept index left within
    concluded := by
      intro index passed
      have frozenWithin := ordered.frozenWithin
      have recycleWithin := ordered.recycleWithin
      exact xids.finished_later after time (ordered.normal index (by omega)).2 rfl id
        (ordered.concluded index passed)
    writing := fun write pending => ⟨active write pending, (ordered.writing write pending).2⟩ }

theorem publish (limit : Nat) (ordered : ZoneOrdered xids state allocate recycle frozen)
    (safe : ∀ index, recycle ≤ index → index < allocate → limit ≤ (state.slot index).xactId) :
    ZoneOrdered { xids with globalRecycleXid := limit } state allocate recycle frozen :=
  { ordered with kept := safe }

theorem publishFrozen (limit : Nat) (ordered : ZoneOrdered xids state allocate recycle frozen) :
    ZoneOrdered { xids with globalFrozenXid := limit } state allocate recycle frozen :=
  { ordered with }

theorem index_of_mem (ordered : ZoneOrdered xids state allocate recycle frozen) {ptr : Nat}
    (member : ptr ∈ state.allocated) :
    ∃ index, index < allocate ∧ ptr = slotPtr state.zone.zid index := by
  rw [ordered.allocatedPtrs] at member
  obtain ⟨index, inRange, same⟩ := mem_map.mp member
  exact ⟨index, mem_range.mp inRange, same.symm⟩

theorem mem_of_index (ordered : ZoneOrdered xids state allocate recycle frozen) {index : Nat}
    (within : index < allocate) : slotPtr state.zone.zid index ∈ state.allocated := by
  rw [ordered.allocatedPtrs]
  exact mem_map.mpr ⟨index, mem_range.mpr within, rfl⟩

theorem offset_lt (ordered : ZoneOrdered xids state allocate recycle frozen) {index : Nat}
    (within : index ≤ allocate) : slotOffset index < 2 ^ 44 :=
  lt_of_le_of_lt ((slotOffset_le_iff index allocate).mpr within) ordered.inside

theorem slotPtr_ne (ordered : ZoneOrdered xids state allocate recycle frozen) (first second : Nat)
    (one : first ≤ allocate) (two : second ≤ allocate) (different : first ≠ second) :
    slotPtr state.zone.zid first ≠ slotPtr state.zone.zid second := by
  intro same
  exact different (slotPtr_inj ordered.small (ordered.offset_lt one) (ordered.offset_lt two) same)

/-- A new write keeps the order. -/
theorem startWrite {xid insert : Nat} (ordered : ZoneOrdered xids state allocate recycle frozen)
    (idle : state.pending = none) (running : xids.running xid = true)
    (latest : ∀ slotPtr ∈ state.allocated, (state.slots slotPtr).xactId ≤ xid)
    (ahead : state.zone.insertURecPtr < insert) (behindHeader : 24 ≤ insert % 8192)
    (inside : insert < 2 ^ 44) :
    ZoneOrdered xids (state.startWrite xid insert) allocate recycle frozen := by
  have startOffset : undoPtrGetOffset state.zone.getInsertURecPtr = state.zone.insertURecPtr :=
    undoPtrGetOffset_make ordered.small ordered.insertInside
  have position := ordered.behindHeader
  exact { ordered with
    recycling := ⟨ordered.recycling.home, ordered.recycling.recycle, ordered.recycling.forced,
      ordered.recycling.discard⟩
    chain := ⟨ordered.chain.grows,
      fun count within => (ordered.chain.below count within).trans ahead.le,
      ordered.chain.starts, ordered.chain.ends⟩
    behindHeader := behindHeader
    insertInside := inside
    announced := by
      intro index within unset
      obtain ⟨write, pending, _⟩ := ordered.announced index within unset
      rw [idle] at pending
      cases pending
    writing := by
      rintro write started
      cases started
      refine ⟨running, ?_, ?_, ?_, ?_⟩
      · intro index within
        exact latest _ (ordered.mem_of_index within)
      · intro count within
        exact lt_of_le_of_lt (ordered.chain.below count within) ahead
      · exact undoPtrGetZoneId_make ordered.small ordered.insertInside
      · intro zero
        change state.zone.getInsertURecPtr = invalidUndoRecPtr at zero
        rw [zero] at startOffset
        have none : undoPtrGetOffset invalidUndoRecPtr = 0 := by decide
        lia }

/-- Preparing the undo keeps the order. -/
theorem prepareUndoMeta {xid lastRecord lastRecordSize : Nat}
    (ordered : ZoneOrdered xids state allocate recycle frozen)
    (allowed : state.MayPrepare xids xid lastRecord lastRecordSize) :
    ZoneOrdered xids (state.prepareUndoMeta xid lastRecord lastRecordSize) allocate recycle
      frozen := by
  have value := undoLogOffsetPlusUsableBytes_eq lastRecordSize
    (undoPtrGetOffset_lt _) allowed.behindHeader allowed.small
  have landed := undoLogOffsetPlusUsableBytes_behind lastRecordSize
    (undoPtrGetOffset_lt _) allowed.behindHeader allowed.small
  have ahead : state.zone.insertURecPtr <
      undoLogOffsetPlusUsableBytes (undoPtrGetOffset lastRecord) lastRecordSize := by
    have behind := allowed.behind
    have nonempty := allowed.nonempty
    lia
  exact ordered.startWrite allowed.idle allowed.running allowed.latest ahead landed allowed.inside

theorem open_of_running (ordered : ZoneOrdered xids state allocate recycle frozen) (index : Nat)
    (active : xids.running (state.slot index).xactId = true) :
    frozen ≤ index ∧ recycle ≤ index := by
  by_contra passed
  have concluded := ordered.concluded index (by omega)
  rw [concluded.1] at active
  exact absurd active (by decide)

theorem last_of_writing {write : PendingWrite}
    (ordered : ZoneOrdered xids state allocate recycle frozen)
    (pending : state.pending = some write) {index : Nat} (within : index < allocate)
    (own : (state.slot index).xactId = write.xid) : index + 1 = allocate := by
  by_contra earlier
  have later := ordered.increasing index (index + 1) (by omega) (by lia)
  have latest := (ordered.writing write pending).2.1 (index + 1) (by lia)
  omega

variable (xids state allocate recycle frozen)

/-- Clearing rollback flags keeps a zone in order. -/
theorem clearRollback (slots : Nat → TransactionSlot)
    (ordered : ZoneOrdered xids state allocate recycle frozen)
    (sameXid : ∀ ptr, (slots ptr).xactId = (state.slots ptr).xactId)
    (sameStart : ∀ ptr, (slots ptr).startUndoPtr = (state.slots ptr).startUndoPtr)
    (sameEnd : ∀ ptr, (slots ptr).endUndoPtr = (state.slots ptr).endUndoPtr)
    (cleared : ∀ ptr, (state.slots ptr).needRollback = false → (slots ptr).needRollback = false) :
    ZoneOrdered xids { state with slots := slots } allocate recycle frozen := by
  have bounds (count : Nat) : boundary slots state.zone.zid count =
      boundary state.slots state.zone.zid count :=
    boundary_congr state.slots state.zone.zid slots count (fun index _ => sameEnd _)
  exact { ordered with
    recycling := ⟨ordered.recycling.home, ordered.recycling.recycle,
      by rw [bounds]; exact ordered.recycling.forced,
      by rw [bounds]; exact ordered.recycling.discard⟩
    chain := by
      refine ⟨?_, ?_, ?_, ?_⟩
      · intro index within set
        rw [bounds, bounds]
        exact ordered.chain.grows index within (by rw [← sameStart]; exact set)
      · intro count within
        rw [bounds]
        exact ordered.chain.below count within
      · intro index within set
        rw [sameStart] at set ⊢
        exact ordered.chain.starts index within set
      · intro index within set
        rw [sameStart] at set
        rw [sameEnd]
        exact ordered.chain.ends index within set
    normal := by
      intro index within
      change _ ≤ (slots _).xactId ∧ (slots _).xactId < _
      rw [sameXid]
      exact ordered.normal index within
    kept := by
      intro index left within
      change _ ≤ (slots _).xactId
      rw [sameXid]
      exact ordered.kept index left within
    increasing := by
      intro first second before within
      change (slots _).xactId < (slots _).xactId
      rw [sameXid, sameXid]
      exact ordered.increasing first second before within
    concluded := by
      intro index passed
      change xids.finished (slots _)
      unfold XidTable.finished
      rw [sameXid]
      have known := ordered.concluded index passed
      exact ⟨known.1, known.2.imp id (cleared _)⟩
    announced := by
      intro index within unset
      change (slots _).startUndoPtr = _ at unset
      change ∃ write : PendingWrite, _ ∧ write.xid = (slots _).xactId
      rw [sameStart] at unset
      rw [sameXid]
      exact ordered.announced index within unset
    writing := by
      intro write pending
      obtain ⟨active, latest, ahead, home, valid⟩ := ordered.writing write pending
      refine ⟨active, ?_, ?_, home, valid⟩
      · intro index within
        change (slots _).xactId ≤ _
        rw [sameXid]
        exact latest index within
      · intro count within
        rw [bounds]
        exact ahead count within
    recycledEnds := by
      rw [ordered.recycledEnds]
      apply map_congr_left
      intro index _
      exact (sameEnd _).symm }

variable {allocate}

/-- A finished rollback keeps the order. -/
theorem updateRollbackFinish (ptr : Nat)
    (ordered : ZoneOrdered xids state allocate recycle frozen) :
    ZoneOrdered xids (state.updateRollbackFinish ptr) allocate recycle frozen := by
  have entry (other : Nat) : update state.slots ptr
      (state.slots ptr).updateRollbackProgress other = state.slots other ∨
      update state.slots ptr (state.slots ptr).updateRollbackProgress other =
        (state.slots other).updateRollbackProgress := by
    by_cases same : other = ptr
    · subst same
      exact .inr (update_self ..)
    · exact .inl (update_of_ne same ..)
  apply ordered.clearRollback
  all_goals
    intro other
    rcases entry other with same | cleared
  · rw [same]
  · rw [cleared]
    rfl
  · rw [same]
  · rw [cleared]
    rfl
  · rw [same]
  · rw [cleared]
    rfl
  · rw [same]
    exact id
  · rw [cleared]
    exact fun _ => TransactionSlot.needRollback_updateRollbackProgress _

variable (write : PendingWrite)

/-- A new slot of the writing transaction keeps a zone in order. -/
theorem addSlot {slot : TransactionSlot} (sound : xids.Sound)
    (ordered : ZoneOrdered xids state allocate recycle frozen)
    (writing : state.pending = some write)
    (latest : ∀ ptr ∈ state.allocated, (state.slots ptr).xactId < write.xid)
    (fits : slotOffset (allocate + 1) < 2 ^ 44) (own : slot.xactId = write.xid)
    (noStart : slot.startUndoPtr = invalidUndoRecPtr)
    (noEnd : slot.endUndoPtr = invalidUndoRecPtr) : ZoneOrdered xids
      (state.addSlot (slotPtr state.zone.zid allocate) (slotOffset (allocate + 1)) slot)
      (allocate + 1) recycle frozen := by
  obtain ⟨active, atMost, ahead, home, valid⟩ := ordered.writing write writing
  have begun := sound.running write.xid active
  set after := state.addSlot (slotPtr state.zone.zid allocate) (slotOffset (allocate + 1)) slot
    with afterEq
  have sameZid : after.zone.zid = state.zone.zid := rfl
  have old (index : Nat) (within : index < allocate) : after.slot index = state.slot index := by
    have different := ordered.slotPtr_ne index allocate within.le le_rfl (by omega)
    exact state.slot_addSlot_of_ne _ _ index slot different
  have new : after.slot allocate = slot := state.slot_addSlot_self _ _ allocate slot rfl
  have newEnd : boundary after.slots state.zone.zid (allocate + 1) = 0 := by
    change undoPtrGetOffset (after.slot allocate).endUndoPtr = 0
    rw [new, noEnd]
    decide
  have bounds (count : Nat) (within : count ≤ allocate) :
      boundary after.slots state.zone.zid count = boundary state.slots state.zone.zid count := by
    apply boundary_congr
    intro index upto
    exact congrArg TransactionSlot.endUndoPtr (old index (by lia))
  have recycleWithin := ordered.recycleWithin
  have frozenWithin := ordered.frozenWithin
  -- The new slot has the number `allocate`; every other index is an old slot.
  have cases (index : Nat) (within : index < allocate + 1) : index < allocate ∨ index = allocate :=
    Nat.lt_succ_iff_lt_or_eq.mp within
  exact { ordered with
    inside := fits
    allocatePtr := rfl
    recycling := ⟨ordered.recycling.home, ordered.recycling.recycle,
      by rw [sameZid, bounds recycle recycleWithin]; exact ordered.recycling.forced,
      by rw [sameZid, bounds recycle recycleWithin]; exact ordered.recycling.discard⟩
    recycleWithin := by omega
    frozenWithin := by omega
    chain := by
      refine ⟨?_, ?_, ?_, ?_⟩
      · intro index within set
        rcases cases index within with before | here
        · change boundary _ state.zone.zid _ < boundary _ state.zone.zid _
          rw [bounds index (by omega), bounds (index + 1) before]
          have entry := congrArg TransactionSlot.startUndoPtr (old index before)
          exact ordered.chain.grows index before (fun unset => set (entry.trans unset))
        · subst here
          exact absurd ((congrArg TransactionSlot.startUndoPtr new).trans noStart) set
      · intro count within
        change boundary _ state.zone.zid _ ≤ state.zone.insertURecPtr
        rcases Nat.lt_or_eq_of_le within with before | here
        · rw [bounds count (by omega)]
          exact ordered.chain.below count (by omega)
        · rw [here, newEnd]
          exact Nat.zero_le _
      · intro index within set
        rcases cases index within with before | here
        · have entry := congrArg TransactionSlot.startUndoPtr (old index before)
          exact (congrArg undoPtrGetZoneId entry).trans
            (ordered.chain.starts index before (fun unset => set (entry.trans unset)))
        · subst here
          exact absurd ((congrArg TransactionSlot.startUndoPtr new).trans noStart) set
      · intro index within set
        rcases cases index within with before | here
        · have entry := congrArg TransactionSlot.startUndoPtr (old index before)
          have entryEnd := congrArg TransactionSlot.endUndoPtr (old index before)
          exact (congrArg undoPtrGetZoneId entryEnd).trans
            (ordered.chain.ends index before (fun unset => set (entry.trans unset)))
        · subst here
          exact absurd ((congrArg TransactionSlot.startUndoPtr new).trans noStart) set
    normal := by
      intro index within
      rcases cases index within with before | here
      · rw [old index before]
        exact ordered.normal index before
      · subst here
        rw [new, own]
        exact ⟨begun.1, begun.2.1⟩
    kept := by
      intro index left within
      rcases cases index within with before | here
      · rw [old index before]
        exact ordered.kept index left before
      · subst here
        rw [new, own]
        exact begun.2.2
    increasing := by
      intro first second before within
      rw [old first (by lia)]
      rcases cases second within with earlier | here
      · rw [old second earlier]
        exact ordered.increasing first second before earlier
      · subst here
        rw [new, own]
        exact latest _ (ordered.mem_of_index before)
    concluded := by
      intro index passed
      rw [old index (by lia)]
      exact ordered.concluded index passed
    announced := by
      intro index within unset
      rcases cases index within with before | here
      · rw [old index before] at unset ⊢
        exact ordered.announced index before unset
      · subst here
        exact ⟨write, writing, by rw [new, own]⟩
    writing := by
      intro other pending
      have same : other = write := by
        have both : some other = some write := pending.symm.trans writing
        exact Option.some.inj both
      subst same
      refine ⟨active, ?_, ?_, home, valid⟩
      · intro index within
        rcases cases index within with before | here
        · rw [old index before]
          exact atMost index before
        · subst here
          rw [new, own]
      · intro count within
        change boundary _ state.zone.zid _ < state.zone.insertURecPtr
        rcases Nat.lt_or_eq_of_le within with before | here
        · rw [bounds count (by omega)]
          exact ahead count (by omega)
        · rw [here, newEnd]
          exact lt_of_le_of_lt (Nat.zero_le _) (ahead 0 (Nat.zero_le _))
    allocatedPtrs := by
      change state.allocated ++ [slotPtr state.zone.zid allocate] = _
      rw [ordered.allocatedPtrs, range_succ, map_append]
      rfl
    recycledEnds := by
      change state.recycled.map _ = _
      rw [ordered.recycledEnds]
      apply map_congr_left
      intro index inRange
      have within := mem_range.mp inRange
      rw [old index (by lia)]
    recycledSafe := ordered.recycledSafe }

/-- A new slot keeps the order. -/
theorem allocTransactionSlot (dbId : Nat) (sound : xids.Sound)
    (ordered : ZoneOrdered xids state allocate recycle frozen) (allowed : state.MayAllocate write) :
    ZoneOrdered xids (state.allocTransactionSlot write.xid dbId) (allocate + 1) recycle frozen := by
  have place : state.zone.getAllocateTSlotPtr = slotPtr state.zone.zid allocate := by
    unfold UndoZone.getAllocateTSlotPtr slotPtr
    rw [ordered.allocatePtr]
  have fits : slotOffset (allocate + 1) < 2 ^ 44 := by
    have room : state.zone.allocateTSlotPtr + 2 ^ 15 ≤ 2 ^ 44 := allowed.inside
    have step := slotOffset_succ_le allocate
    rw [ordered.allocatePtr] at room
    omega
  have next : undoPtrGetOffset (getNextSlotPtr (slotPtr state.zone.zid allocate)) =
      slotOffset (allocate + 1) := by
    rw [getNextSlotPtr_slotPtr _ _ ordered.small ordered.inside]
    exact undoPtrGetOffset_slotPtr _ _ ordered.small fits
  unfold ZoneState.allocTransactionSlot
  simp only [place, next]
  exact ordered.addSlot xids state recycle frozen write sound allowed.pending
    allowed.latest fits rfl rfl rfl

/-- Announcing the write in the last slot keeps a zone in order. -/
theorem announce (last : Nat) (slot : TransactionSlot)
    (ordered : ZoneOrdered xids state (last + 1) recycle frozen)
    (writing : state.pending = some write) (own : (state.slot last).xactId = write.xid)
    (sameXid : slot.xactId = write.xid) (starts : undoPtrGetZoneId slot.startUndoPtr = state.zone.zid)
    (valid : slot.startUndoPtr ≠ invalidUndoRecPtr)
    (ends : undoPtrGetZoneId slot.endUndoPtr = state.zone.zid)
    (finish : undoPtrGetOffset slot.endUndoPtr = state.zone.insertURecPtr) :
    ZoneOrdered xids (state.announce (slotPtr state.zone.zid last) slot) (last + 1) recycle
      frozen := by
  obtain ⟨active, atMost, ahead, _, _⟩ := ordered.writing write writing
  have unpassed := ordered.open_of_running last (by rw [own]; exact active)
  set after := state.announce (slotPtr state.zone.zid last) slot with afterEq
  have sameZid : after.zone.zid = state.zone.zid := rfl
  have old (index : Nat) (within : index < last) : after.slot index = state.slot index := by
    have different := ordered.slotPtr_ne index last (by omega) (by omega) (by omega)
    exact state.slot_announce_of_ne _ index slot different
  have new : after.slot last = slot := state.slot_announce_self _ last slot rfl
  have xactId (index : Nat) (within : index < last + 1) :
      (after.slot index).xactId = (state.slot index).xactId := by
    rcases Nat.lt_succ_iff_lt_or_eq.mp within with before | here
    · rw [old index before]
    · rw [here, new, own, sameXid]
  have bounds (count : Nat) (within : count ≤ last) :
      boundary after.slots state.zone.zid count = boundary state.slots state.zone.zid count := by
    apply boundary_congr
    intro index upto
    exact congrArg TransactionSlot.endUndoPtr (old index (by omega))
  have newEnd : boundary after.slots state.zone.zid (last + 1) = state.zone.insertURecPtr := by
    change undoPtrGetOffset (after.slot last).endUndoPtr = _
    rw [new, finish]
  have cases (index : Nat) (within : index < last + 1) : index < last ∨ index = last :=
    Nat.lt_succ_iff_lt_or_eq.mp within
  exact { ordered with
    recycling := ⟨ordered.recycling.home, ordered.recycling.recycle,
      by rw [sameZid, bounds recycle unpassed.2]; exact ordered.recycling.forced,
      by rw [sameZid, bounds recycle unpassed.2]; exact ordered.recycling.discard⟩
    chain := by
      refine ⟨?_, ?_, ?_, ?_⟩
      · intro index within set
        change boundary _ state.zone.zid _ < boundary _ state.zone.zid _
        rcases cases index within with before | here
        · rw [bounds index (by omega), bounds (index + 1) before]
          have entry := congrArg TransactionSlot.startUndoPtr (old index before)
          exact ordered.chain.grows index (by omega) (fun unset => set (entry.trans unset))
        · rw [here, bounds last le_rfl, newEnd]
          exact ahead last (by omega)
      · intro count within
        change boundary _ state.zone.zid _ ≤ state.zone.insertURecPtr
        rcases Nat.lt_or_eq_of_le within with before | here
        · rw [bounds count (by omega)]
          exact ordered.chain.below count (by omega)
        · rw [here, newEnd]
      · intro index within set
        rcases cases index within with before | here
        · have entry := congrArg TransactionSlot.startUndoPtr (old index before)
          exact (congrArg undoPtrGetZoneId entry).trans
            (ordered.chain.starts index (by omega) (fun unset => set (entry.trans unset)))
        · subst here
          change undoPtrGetZoneId (after.slot index).startUndoPtr = state.zone.zid
          rw [new]
          exact starts
      · intro index within set
        rcases cases index within with before | here
        · have entry := congrArg TransactionSlot.startUndoPtr (old index before)
          have entryEnd := congrArg TransactionSlot.endUndoPtr (old index before)
          exact (congrArg undoPtrGetZoneId entryEnd).trans
            (ordered.chain.ends index (by omega) (fun unset => set (entry.trans unset)))
        · subst here
          change undoPtrGetZoneId (after.slot index).endUndoPtr = state.zone.zid
          rw [new]
          exact ends
    normal := by
      intro index within
      rw [xactId index within]
      exact ordered.normal index within
    kept := by
      intro index left within
      rw [xactId index within]
      exact ordered.kept index left within
    increasing := by
      intro first second before within
      rw [xactId first (by lia), xactId second within]
      exact ordered.increasing first second before within
    concluded := by
      intro index passed
      rw [old index (by lia)]
      exact ordered.concluded index passed
    announced := by
      intro index within unset
      rcases cases index within with before | here
      · rw [old index before] at unset
        obtain ⟨other, pending, same⟩ := ordered.announced index (by omega) unset
        have agree : write = other := Option.some.inj (writing.symm.trans pending)
        have less := ordered.increasing index last before (by omega)
        rw [own, agree, same] at less
        exact absurd less (lt_irrefl _)
      · rw [here, new] at unset
        exact absurd unset valid
    writing := by
      intro other pending
      cases pending
    recycledEnds := by
      change state.recycled.map _ = _
      rw [ordered.recycledEnds]
      apply map_congr_left
      intro index inRange
      have within := mem_range.mp inRange
      rw [old index (by lia)]
    recycledSafe := ordered.recycledSafe }

/-- An announced slot keeps the order. -/
theorem updateTransactionSlot {ptr : Nat} {write : PendingWrite}
    (ordered : ZoneOrdered xids state allocate recycle frozen)
    (allowed : state.MayUpdate ptr write) :
    ZoneOrdered xids (state.updateTransactionSlot ptr write) allocate recycle frozen := by
  obtain ⟨last, within, rfl⟩ := ordered.index_of_mem allowed.allocated
  have final := ordered.last_of_writing allowed.pending within allowed.own
  subst final
  obtain ⟨_, _, _, home, valid⟩ := ordered.writing write allowed.pending
  have endZone : undoPtrGetZoneId state.zone.getInsertURecPtr = state.zone.zid :=
    undoPtrGetZoneId_make ordered.small ordered.insertInside
  have endOffset : undoPtrGetOffset state.zone.getInsertURecPtr = state.zone.insertURecPtr :=
    undoPtrGetOffset_make ordered.small ordered.insertInside
  apply ordered.announce xids state recycle frozen write last
    ((state.slots (slotPtr state.zone.zid last)).update write.startUndoPtr
      state.zone.getInsertURecPtr) allowed.pending allowed.own allowed.own ?_ ?_ endZone endOffset
  · rw [TransactionSlot.startUndoPtr_update]
    split
    · exact home
    · exact ordered.chain.starts last (by omega) ‹_›
  · rw [TransactionSlot.startUndoPtr_update]
    split
    · exact valid
    · exact ‹_›

end ZoneOrdered

variable (xids : XidTable) (state : ZoneState) (ptr allocate : Nat)

theorem ZoneState.zid_startWrite (xid insert : Nat) :
    (state.startWrite xid insert).zone.zid = state.zone.zid := rfl

theorem ZoneState.zid_addSlot (ptr next : Nat) (slot : TransactionSlot) :
    (state.addSlot ptr next slot).zone.zid = state.zone.zid := rfl

theorem ZoneState.startWrite_later (xid insert allocate : Nat) :
    SlotsLater xids state (state.startWrite xid insert) allocate allocate :=
  ⟨le_rfl, fun _ _ => rfl, fun _ _ concluded => concluded, by omega⟩

/-- A finished rollback changes no slot otherwise. -/
theorem ZoneState.updateRollbackFinish_later :
    SlotsLater xids state (state.updateRollbackFinish ptr) allocate allocate := by
  have entry (index : Nat) : (state.updateRollbackFinish ptr).slot index = state.slot index ∨
      (state.updateRollbackFinish ptr).slot index = (state.slot index).updateRollbackProgress := by
    change update state.slots ptr _ (slotPtr state.zone.zid index) = _ ∨
      update state.slots ptr _ (slotPtr state.zone.zid index) = _
    by_cases same : slotPtr state.zone.zid index = ptr
    · rw [same, update_self]
      exact .inr (congrArg (fun ptr => (state.slots ptr).updateRollbackProgress) same.symm)
    · rw [update_of_ne same]
      exact .inl rfl
  refine ⟨le_rfl, ?_, ?_, by omega⟩
  · intro index _
    rcases entry index with same | cleared
    · rw [same]
    · rw [cleared]
      rfl
  · intro index _ concluded
    rcases entry index with same | cleared
    · rw [same]
      exact concluded
    · rw [cleared]
      exact TransactionSlot.needRollback_updateRollbackProgress _

/-- A new slot changes no other. -/
theorem ZoneState.allocTransactionSlot_later
    {allocate recycle frozen : Nat} (dbId : Nat) {write : PendingWrite}
    (ordered : ZoneOrdered xids state allocate recycle frozen)
    (pending : state.pending = some write) :
    SlotsLater xids state (state.allocTransactionSlot write.xid dbId) allocate (allocate + 1) := by
  have place : slotPtr state.zone.zid allocate = state.zone.getAllocateTSlotPtr := by
    unfold UndoZone.getAllocateTSlotPtr slotPtr
    rw [ordered.allocatePtr]
  have old (index : Nat) (within : index < allocate) :
      (state.allocTransactionSlot write.xid dbId).slot index = state.slot index := by
    apply state.slot_addSlot_of_ne
    rw [← place]
    exact ordered.slotPtr_ne index allocate within.le le_rfl (by omega)
  refine ⟨Nat.le_succ _, ?_, ?_, ?_⟩
  · intro index within
    rw [old index within]
  · intro index within concluded
    rw [old index within]
    exact concluded
  · intro index from_ upto
    have here : index = allocate := by omega
    have new : (state.allocTransactionSlot write.xid dbId).slot allocate =
        (state.slots state.zone.getAllocateTSlotPtr).init write.xid dbId :=
      state.slot_addSlot_self _ _ allocate _ place
    rw [here, new]
    exact (ordered.writing write pending).1

/-- An announced slot changes no other. -/
theorem ZoneState.updateTransactionSlot_later (write : PendingWrite) :
    SlotsLater xids state (state.updateTransactionSlot ptr write) allocate allocate := by
  have entry (index : Nat) :
      ((state.updateTransactionSlot ptr write).slot index).xactId = (state.slot index).xactId ∧
        ((state.updateTransactionSlot ptr write).slot index).needRollback =
          (state.slot index).needRollback := by
    by_cases same : slotPtr state.zone.zid index = ptr
    · have new : (state.updateTransactionSlot ptr write).slot index = _ :=
        state.slot_announce_self ptr index _ same
      rw [new, ← same]
      exact ⟨rfl, rfl⟩
    · have old : (state.updateTransactionSlot ptr write).slot index = state.slot index :=
        state.slot_announce_of_ne ptr index _ same
      rw [old]
      exact ⟨rfl, rfl⟩
  refine ⟨le_rfl, fun index _ => (entry index).1, ?_, by omega⟩
  intro index _ concluded
  rw [(entry index).2]
  exact concluded

end OpenGauss.Undo
