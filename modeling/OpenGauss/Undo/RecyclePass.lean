import OpenGauss.Base.Step
import OpenGauss.Undo.Slot

/-!
# One recycle pass over a zone

`AdvanceFrozenXid` walks the slots of a zone up to the first transaction that may still be
rolled back, and `RecycleUndoSpace` then gives slots back in runs that end with a slot page
(`knl_uundorecycle.cpp`). Both scans are loops over slot pointers; the lemmas say which slots
a scan passed and why it stopped, over any slot memory and any table of transactions.
-/
namespace OpenGauss.Undo

open OpenGauss.Base

/-- `CheckUndoZoneMeta`: the slot allocation pointer the scans work with. -/
def checkUndoZoneMeta (allocatePtr recyclePtr : Nat) : Nat :=
  if undoPtrGetOffset allocatePtr = undoLogBlockHeaderSize ∧
      undoPtrGetOffset recyclePtr ≠ undoLogBlockHeaderSize then
    allocatePtr + 2 ^ 32
  else allocatePtr

/-- `AsyncRollback`: whether the slot still needs rollback; the request it queues is left out. -/
def asyncRollback (slot : TransactionSlot) : Bool := slot.needRollback

/-- Variables of `AdvanceFrozenXid`. -/
structure FrozenScan where
  currentSlotPtr : Nat
  /-- `*oldestFozenXid`. -/
  oldestFrozenXid : Nat
  /-- `*oldestFrozenSlotPtr`. -/
  oldestFrozenSlotPtr : Nat
  zoneFrozenXid : Nat
  panicked : Bool

/-- One slot of `AdvanceFrozenXid`. The outer loop of the source only changes the slot page. -/
def advanceFrozenSlot (xids : XidTable) (slots : Nat → TransactionSlot)
    (oldestXmin allocatePtr : Nat) : Step FrozenScan := fun scan =>
  if scan.currentSlotPtr < allocatePtr then
    let slot := slots scan.currentSlotPtr
    if !transactionIdIsValid slot.xactId then
      (false, { scan with
        oldestFrozenXid := xids.globalFrozenXid
        panicked := xids.recheckUndoRecycleXid slot })
    else if decide (slot.xactId < xids.globalFrozenXid) && xids.recheckUndoRecycleXid slot then
      (false, { scan with panicked := true })
    else if slot.startUndoPtr = invalidUndoRecPtr then
      (false, { scan with zoneFrozenXid := slot.xactId })
    else if !xids.uHeapTransactionIdDidCommit slot.xactId && decide (slot.xactId < oldestXmin) &&
        asyncRollback slot then
      (false, { scan with
        oldestFrozenXid := slot.xactId
        oldestFrozenSlotPtr := scan.currentSlotPtr
        zoneFrozenXid := slot.xactId })
    else if oldestXmin ≤ slot.xactId then
      (false, { scan with
        oldestFrozenSlotPtr := scan.currentSlotPtr
        zoneFrozenXid := oldestXmin })
    else
      (true, { scan with
        currentSlotPtr := getNextSlotPtr scan.currentSlotPtr
        oldestFrozenSlotPtr := getNextSlotPtr scan.currentSlotPtr
        zoneFrozenXid := slot.xactId })
  else (false, scan)

/-- `AdvanceFrozenXid`, called with `*oldestFozenXid` at the snapshot limit and
`*oldestFrozenSlotPtr` at the frozen slot of the zone. -/
def advanceFrozenXid (xids : XidTable) (slots : Nat → TransactionSlot) (zone : UndoZone)
    (oldestXmin : Nat) : FrozenScan :=
  let recyclePtr := zone.getRecycleTSlotPtr
  let allocatePtr := checkUndoZoneMeta zone.getAllocateTSlotPtr recyclePtr
  let currentSlotPtr :=
    if recyclePtr < zone.frozenSlotPtr then zone.frozenSlotPtr else recyclePtr
  Step.loop (advanceFrozenSlot xids slots oldestXmin allocatePtr)
    (allocatePtr - currentSlotPtr + 1)
    { currentSlotPtr := currentSlotPtr
      oldestFrozenXid := oldestXmin
      oldestFrozenSlotPtr := zone.frozenSlotPtr
      zoneFrozenXid := zone.frozenXid
      panicked := false }

/-- Limits a recycle pass works with. -/
structure RecycleLimits where
  /-- Snapshot limit for undo (`recycleXmin`). -/
  recycleXmin : Nat
  /-- Oldest transaction that may need rollback (`frozenXid`). -/
  frozenXid : Nat
  /-- Limit of the forced mode, or an invalid number (`forceRecycleXid`). -/
  forceRecycleXid : Nat
  /-- Round of the recycler (`g_recycleLoops`). -/
  recycleLoops : Nat

/-- What `RecycleUndoSpace` does with one slot. -/
inductive SlotVerdict where
  | stop
  | panic
  | take (forced : Bool)
deriving DecidableEq

/-- The checks of `RecycleUndoSpace` on one slot, in the order of the source. -/
def slotVerdict (xids : XidTable) (limits : RecycleLimits) (slot : TransactionSlot) :
    SlotVerdict :=
  if !transactionIdIsValid slot.xactId then
    if xids.recheckUndoRecycleXid slot then .panic else .stop
  else if slot.startUndoPtr = invalidUndoRecPtr then .stop
  else if decide (slot.xactId < xids.globalRecycleXid) && xids.recheckUndoRecycleXid slot then
    .panic
  else if slot.xactId < limits.recycleXmin then
    if limits.frozenXid ≤ slot.xactId then .stop else .take false
  else if !(transactionIdIsNormal limits.forceRecycleXid &&
      decide (slot.xactId < limits.forceRecycleXid)) then .stop
  else if xids.running slot.xactId then .stop
  else if !xids.uHeapTransactionIdDidCommit slot.xactId && asyncRollback slot then .stop
  else .take true

/-- Variables of `RecycleUndoSpace`. -/
structure RecycleScan where
  zone : UndoZone
  recyclePtr : Nat
  start : Nat
  startUndoPtr : Nat
  endUndoPtr : Nat
  oldestEndUndoPtr : Nat
  recycleXid : Nat
  forceRecycle : Bool
  undoRecycled : Bool
  /-- `*oldestRecycleXid`. -/
  oldestRecycleXid : Nat
  result : Bool
  panicked : Bool
  taken : List Nat
  recycled : List Nat
  records : Nat

namespace RecycleScan

/-- Take one slot. -/
def take (scan : RecycleScan) (slot : TransactionSlot) (forced : Bool) : RecycleScan :=
  let forceRecycle := scan.forceRecycle || forced
  { scan with
    forceRecycle := forceRecycle
    startUndoPtr := if scan.startUndoPtr = 0 then slot.startUndoPtr else scan.startUndoPtr
    oldestEndUndoPtr := if forceRecycle then scan.oldestEndUndoPtr else slot.endUndoPtr
    endUndoPtr := slot.endUndoPtr
    recycleXid := slot.xactId
    undoRecycled := true
    recyclePtr := getNextSlotPtr scan.recyclePtr
    taken := scan.taken ++ [scan.recyclePtr] }

/-- Begin a page run. -/
def enterPage (scan : RecycleScan) : RecycleScan :=
  { scan with
    startUndoPtr := invalidUndoRecPtr
    start := scan.recyclePtr
    undoRecycled := false
    taken := [] }

/-- The batch a page run gives back. -/
def batch (scan : RecycleScan) (limits : RecycleLimits) : RecycleBatch where
  start := scan.start
  recyclePtr := scan.recyclePtr
  startUndoPtr := scan.startUndoPtr
  endUndoPtr := scan.endUndoPtr
  oldestEndUndoPtr := scan.oldestEndUndoPtr
  recycleXid := scan.recycleXid
  recycleXmin := limits.recycleXmin
  recycleLoops := limits.recycleLoops

/-- A page run is given back; a permanent zone carries the position of its log record. -/
def finishPage (scan : RecycleScan) (zone : UndoZone) (position : Nat → Nat) : RecycleScan :=
  { scan with
    zone := if zone.pLevel = .permanent then zone.stamp (position scan.records) else zone
    oldestRecycleXid := scan.recycleXid
    result := true
    recycled := scan.recycled ++ scan.taken
    records := scan.records + 1 }

/-- What a scan did so far to the zone and to its results. -/
def settled (scan : RecycleScan) : UndoZone × List Nat × Nat :=
  (scan.zone, scan.recycled, scan.oldestRecycleXid)

end RecycleScan

/-- One slot of the inner loop of `RecycleUndoSpace`, on the slot page `block`. -/
def recycleSlot (xids : XidTable) (slots : Nat → TransactionSlot) (limits : RecycleLimits)
    (allocatePtr block : Nat) : Step RecycleScan := fun scan =>
  if block = undoPtrGetBlockNum scan.recyclePtr ∧ scan.recyclePtr < allocatePtr then
    match slotVerdict xids limits (slots scan.recyclePtr) with
    | .stop => (false, scan)
    | .panic => (false, { scan with panicked := true })
    | .take forced => (true, scan.take (slots scan.recyclePtr) forced)
  else (false, scan)

/-- One page run: the inner loop of `RecycleUndoSpace`. -/
def recyclePage (xids : XidTable) (slots : Nat → TransactionSlot) (limits : RecycleLimits)
    (allocatePtr : Nat) (scan : RecycleScan) : RecycleScan :=
  Step.loop (recycleSlot xids slots limits allocatePtr (undoPtrGetBlockNum scan.recyclePtr))
    (allocatePtr - scan.recyclePtr + 1) scan.enterPage

/-- One round of the outer loop of `RecycleUndoSpace`. -/
def recycleRound (xids : XidTable) (slots : Nat → TransactionSlot) (limits : RecycleLimits)
    (allocatePtr : Nat) (position : Nat → Nat) : Step RecycleScan := fun scan =>
  if scan.recyclePtr < allocatePtr then
    let page := recyclePage xids slots limits allocatePtr scan
    if page.panicked then (false, page)
    else if page.undoRecycled then
      match page.zone.recycleBatch (page.batch limits) with
      | none => (false, { page with panicked := true })
      | some zone => (true, page.finishPage zone position)
    else (false, page)
  else (false, scan)

/-- `RecycleUndoSpace`. The segments it releases are the concern of the undo space. -/
def recycleUndoSpace (xids : XidTable) (slots : Nat → TransactionSlot) (limits : RecycleLimits)
    (position : Nat → Nat) (zone : UndoZone) : RecycleScan :=
  let recyclePtr := zone.getRecycleTSlotPtr
  let allocatePtr := checkUndoZoneMeta zone.getAllocateTSlotPtr recyclePtr
  Step.loop (recycleRound xids slots limits allocatePtr position)
    (allocatePtr - recyclePtr + 1)
    { zone := zone
      recyclePtr := recyclePtr
      start := invalidUndoRecPtr
      startUndoPtr := invalidUndoRecPtr
      endUndoPtr := invalidUndoRecPtr
      oldestEndUndoPtr := invalidUndoRecPtr
      recycleXid := invalidTransactionId
      forceRecycle := false
      undoRecycled := false
      oldestRecycleXid :=
        if limits.recycleXmin < limits.frozenXid then limits.recycleXmin else limits.frozenXid
      result := false
      panicked := false
      taken := []
      recycled := []
      records := 0 }

variable (xids : XidTable) (limits : RecycleLimits) (slot : TransactionSlot)

/-- A slot is taken only below both limits, or by force when its transaction is over and needs no
rollback. -/
theorem slotVerdict_take {forced : Bool} (taken : slotVerdict xids limits slot = .take forced) :
    slot.startUndoPtr ≠ invalidUndoRecPtr ∧
      (slot.xactId < limits.recycleXmin ∧ slot.xactId < limits.frozenXid ∨
        limits.recycleXmin ≤ slot.xactId ∧ xids.running slot.xactId = false ∧
          (xids.uHeapTransactionIdDidCommit slot.xactId = true ∨ slot.needRollback = false)) := by
  unfold slotVerdict at taken
  split_ifs at taken with invalid recheck unset recheck below frozen normal running rollback
  · exact ⟨unset, .inl ⟨below, by omega⟩⟩
  · refine ⟨unset, .inr ⟨by omega, by simpa using running, ?_⟩⟩
    unfold asyncRollback at rollback
    cases commit : xids.uHeapTransactionIdDidCommit slot.xactId <;> simp_all

theorem slotVerdict_stop (stopped : slotVerdict xids limits slot = .stop) :
    slot.xactId = invalidTransactionId ∨ slot.startUndoPtr = invalidUndoRecPtr ∨
      limits.recycleXmin ≤ slot.xactId ∨ limits.frozenXid ≤ slot.xactId := by
  unfold slotVerdict at stopped
  split_ifs at stopped with invalid recheck unset recheck below frozen normal running rollback
  · exact .inl (by simpa [transactionIdIsValid] using invalid)
  · exact .inr (.inl unset)
  · exact .inr (.inr (.inr frozen))
  all_goals exact .inr (.inr (.inl (by omega)))

theorem checkUndoZoneMeta_eq {zid allocate recycle : Nat} (zone : zid < 2 ^ 20)
    (inside : slotOffset allocate < 2 ^ 44) (ordered : recycle ≤ allocate) :
    checkUndoZoneMeta (slotPtr zid allocate) (slotPtr zid recycle) = slotPtr zid allocate := by
  have before : slotOffset recycle ≤ slotOffset allocate :=
    (slotOffset_le_iff recycle allocate).mpr ordered
  have behind := slotOffset_ge recycle
  unfold checkUndoZoneMeta
  rw [undoPtrGetOffset_slotPtr zid _ zone inside, undoPtrGetOffset_slotPtr zid _ zone (by omega)]
  exact if_neg (by lia)

section Scans

variable (xids : XidTable) (slots : Nat → TransactionSlot) (zid allocate : Nat)

/-- Where the frozen scan stopped, and what it passed on the way. -/
structure FrozenStop (oldestXmin first initial stop : Nat) (scan : FrozenScan) : Prop where
  forward : first ≤ stop
  within : stop ≤ allocate
  passed : ∀ index, first ≤ index → index < stop → (slots (slotPtr zid index)).xactId < oldestXmin ∧
      (xids.uHeapTransactionIdDidCommit (slots (slotPtr zid index)).xactId = true ∨
        (slots (slotPtr zid index)).needRollback = false)
  cursor : scan.oldestFrozenSlotPtr = initial ∨
    ∃ index, index ≤ stop ∧ scan.oldestFrozenSlotPtr = slotPtr zid index
  /-- The frozen transaction is the snapshot limit or the transaction of the stopping slot. -/
  reason : scan.oldestFrozenXid = oldestXmin ∧
      (stop = allocate ∨ (slots (slotPtr zid stop)).startUndoPtr = invalidUndoRecPtr ∨
        oldestXmin ≤ (slots (slotPtr zid stop)).xactId) ∨
    stop < allocate ∧ scan.oldestFrozenXid = (slots (slotPtr zid stop)).xactId ∧
      scan.oldestFrozenXid < oldestXmin

/-- The state of the frozen scan before each of its slots. -/
structure FrozenWalk (oldestXmin first initial next : Nat) (scan : FrozenScan) : Prop where
  forward : first ≤ next
  within : next ≤ allocate
  current : scan.currentSlotPtr = slotPtr zid next
  calm : scan.panicked = false
  limit : scan.oldestFrozenXid = oldestXmin
  cursor : scan.oldestFrozenSlotPtr = initial ∨ scan.oldestFrozenSlotPtr = slotPtr zid next
  passed : ∀ index, first ≤ index → index < next → (slots (slotPtr zid index)).xactId < oldestXmin ∧
      (xids.uHeapTransactionIdDidCommit (slots (slotPtr zid index)).xactId = true ∨
        (slots (slotPtr zid index)).needRollback = false)

/-- One slot of the frozen scan: it passes the slot, or stops there for a known reason. -/
theorem advanceFrozenSlot_spec (oldestXmin first initial : Nat) (zone : zid < 2 ^ 20)
    (inside : slotOffset allocate < 2 ^ 44) (valid : ∀ index, index < allocate →
      transactionIdIsValid (slots (slotPtr zid index)).xactId = true) (bound : Nat) : Step.Triple
      (fun scan => (∃ next, FrozenWalk xids slots zid allocate oldestXmin first initial next scan) ∧
        slotPtr zid allocate - scan.currentSlotPtr = bound)
      (advanceFrozenSlot xids slots oldestXmin (slotPtr zid allocate))
      (fun scan => (∃ next, FrozenWalk xids slots zid allocate oldestXmin first initial next scan) ∧
        slotPtr zid allocate - scan.currentSlotPtr < bound) (fun scan => scan.panicked = true ∨
        ∃ stop, FrozenStop xids slots zid allocate oldestXmin first initial stop scan) := by
  rintro scan ⟨⟨next, walk⟩, rfl⟩
  have nextInside : slotOffset next < 2 ^ 44 :=
    lt_of_le_of_lt ((slotOffset_le_iff next allocate).mpr walk.within) inside
  have more := slotPtr_lt_iff zone nextInside inside
  have kept : scan.oldestFrozenSlotPtr = initial ∨
      ∃ index, index ≤ next ∧ scan.oldestFrozenSlotPtr = slotPtr zid index :=
    walk.cursor.imp id (fun moved => ⟨next, le_rfl, moved⟩)
  unfold advanceFrozenSlot
  simp only [walk.current]
  split_ifs with before invalid recheck unset rollback young
  · have nonzero := valid next (more.mp before)
    rw [nonzero] at invalid
    exact absurd invalid (by decide)
  · exact .inr ⟨rfl, .inl rfl⟩
  · exact .inr ⟨rfl, .inr ⟨next, walk.forward, walk.within, walk.passed, kept,
      .inl ⟨walk.limit, .inr (.inl unset)⟩⟩⟩
  · simp only [Bool.and_eq_true, decide_eq_true_eq] at rollback
    exact .inr ⟨rfl, .inr ⟨next, walk.forward, walk.within, walk.passed,
      .inr ⟨next, le_rfl, rfl⟩, .inr ⟨more.mp before, rfl, rollback.1.2⟩⟩⟩
  · exact .inr ⟨rfl, .inr ⟨next, walk.forward, walk.within, walk.passed,
      .inr ⟨next, le_rfl, rfl⟩, .inl ⟨walk.limit, .inr (.inr young)⟩⟩⟩
  · have remains := more.mp before
    have step := getNextSlotPtr_slotPtr zid next zone nextInside
    have nextStep : slotOffset (next + 1) < 2 ^ 44 :=
      lt_of_le_of_lt ((slotOffset_le_iff (next + 1) allocate).mpr remains) inside
    have further := (slotPtr_lt_iff zone nextInside nextStep).mpr (by omega)
    refine .inl ⟨rfl, ⟨next + 1, ⟨by have := walk.forward; omega, remains, step, walk.calm,
      walk.limit, .inr step, ?_⟩⟩, ?_⟩
    · intro index from_ upto
      rcases Nat.lt_succ_iff_lt_or_eq.mp upto with behind | here
      · exact walk.passed index from_ behind
      · rw [here]
        refine ⟨by omega, ?_⟩
        cases commit : xids.uHeapTransactionIdDidCommit (slots (slotPtr zid next)).xactId
        · right
          simp only [commit, Bool.not_false, Bool.true_and, Bool.and_eq_true, decide_eq_true_eq,
            not_and, Bool.not_eq_true] at rollback
          exact rollback (by omega)
        · exact .inl rfl
    · simp only [step]
      omega
  · have ended : next = allocate := by
      have := walk.within
      lia
    exact .inr ⟨rfl, .inr ⟨next, walk.forward, walk.within, walk.passed, kept,
      .inl ⟨walk.limit, .inl ended⟩⟩⟩

/-- The frozen slot stops at the first that is not done. -/
theorem advanceFrozenXid_spec {zone : UndoZone} (oldestXmin : Nat) {recycle first : Nat}
    (small : zone.zid < 2 ^ 20) (inside : slotOffset allocate < 2 ^ 44)
    (allocated : zone.allocateTSlotPtr = slotOffset allocate)
    (recycled : zone.recycleTSlotPtr = slotOffset recycle) (ordered : recycle ≤ allocate)
    (begins : (if slotPtr zone.zid recycle < zone.frozenSlotPtr then zone.frozenSlotPtr
      else slotPtr zone.zid recycle) = slotPtr zone.zid first) (within : first ≤ allocate)
    (valid : ∀ index, index < allocate →
      transactionIdIsValid (slots (slotPtr zone.zid index)).xactId = true) :
    (advanceFrozenXid xids slots zone oldestXmin).panicked = true ∨
      ∃ stop, FrozenStop xids slots zone.zid allocate oldestXmin first zone.frozenSlotPtr stop
        (advanceFrozenXid xids slots zone oldestXmin) := by
  have allocatePtr : zone.getAllocateTSlotPtr = slotPtr zone.zid allocate := by
    unfold UndoZone.getAllocateTSlotPtr slotPtr
    rw [allocated]
  have recyclePtr : zone.getRecycleTSlotPtr = slotPtr zone.zid recycle := by
    unfold UndoZone.getRecycleTSlotPtr slotPtr
    rw [recycled]
  unfold advanceFrozenXid
  simp only [allocatePtr, recyclePtr, checkUndoZoneMeta_eq small inside ordered, begins]
  apply Step.loop_rule _ _ _ _
    (advanceFrozenSlot_spec xids slots zone.zid allocate oldestXmin first zone.frozenSlotPtr small
      inside valid)
  · exact ⟨first, le_rfl, within, rfl, rfl, rfl, .inl rfl, by omega⟩
  · exact Nat.lt_succ_self _

/-- Where the undo of the first `count` slots ends. -/
def boundary (count : Nat) : Nat :=
  match count with
  | 0 => undoLogBlockHeaderSize
  | index + 1 => undoPtrGetOffset (slots (slotPtr zid index)).endUndoPtr

theorem boundary_congr (other : Nat → TransactionSlot) (count : Nat)
    (agree : ∀ index, index < count →
      (other (slotPtr zid index)).endUndoPtr = (slots (slotPtr zid index)).endUndoPtr) :
    boundary other zid count = boundary slots zid count := by
  cases count with
  | zero => rfl
  | succ index => exact congrArg undoPtrGetOffset (agree index (Nat.lt_succ_self index))

/-- The undo of the slots stands in the zone, slot behind slot, up to the insertion pointer. A slot
without a start is not announced yet and has no undo. -/
structure SlotChain (insert : Nat) : Prop where
  grows : ∀ index, index < allocate → (slots (slotPtr zid index)).startUndoPtr ≠ invalidUndoRecPtr →
      boundary slots zid index < boundary slots zid (index + 1)
  below : ∀ count, count ≤ allocate → boundary slots zid count ≤ insert
  starts : ∀ index, index < allocate →
    (slots (slotPtr zid index)).startUndoPtr ≠ invalidUndoRecPtr →
      undoPtrGetZoneId (slots (slotPtr zid index)).startUndoPtr = zid
  ends : ∀ index, index < allocate → (slots (slotPtr zid index)).startUndoPtr ≠ invalidUndoRecPtr →
      undoPtrGetZoneId (slots (slotPtr zid index)).endUndoPtr = zid

/-- The boundaries of slots are in order. -/
theorem SlotChain.boundary_le {insert : Nat} (chain : SlotChain slots zid allocate insert)
    {first last : Nat} (ordered : first ≤ last) (within : last ≤ allocate)
    (announced : ∀ index, first ≤ index → index < last →
      (slots (slotPtr zid index)).startUndoPtr ≠ invalidUndoRecPtr) :
    boundary slots zid first ≤ boundary slots zid last := by
  induction last with
  | zero =>
    have same : first = 0 := by omega
    rw [same]
  | succ last ih =>
    rcases Nat.lt_or_eq_of_le ordered with before | same
    · have shorter := ih (by omega) (by omega)
        (fun index from_ upto => announced index from_ (by omega))
      have grown := chain.grows last (by omega) (announced last (by omega) (by omega))
      omega
    · rw [same]

/-- The discard pointers of a zone whose first `count` slots are recycled. -/
structure Recycling (count : Nat) (zone : UndoZone) : Prop where
  home : zone.zid = zid
  recycle : zone.recycleTSlotPtr = slotOffset count
  forced : zone.forceDiscardURecPtr = boundary slots zid count
  discard : zone.discardURecPtr ≤ boundary slots zid count

/-- The recycler leaves alone what the writers of the zone and the frozen scan move. -/
structure Untouched (before after : UndoZone) : Prop where
  zid : after.zid = before.zid
  allocate : after.allocateTSlotPtr = before.allocateTSlotPtr
  insert : after.insertURecPtr = before.insertURecPtr
  frozen : after.frozenSlotPtr = before.frozenSlotPtr

theorem Recycling.stamp {count : Nat} {zone : UndoZone} (position : Nat)
    (recycling : Recycling slots zid count zone) :
    Recycling slots zid count (zone.stamp position) :=
  ⟨recycling.home, recycling.recycle, recycling.forced, recycling.discard⟩

/-- A batch is recycled up to its last slot. -/
theorem recycleBatch_spec {insert first next : Nat} {zone after : UndoZone} {batch : RecycleBatch}
    (inside : slotOffset next < 2 ^ 44) (small : zid < 2 ^ 20)
    (chain : SlotChain slots zid allocate insert) (recycling : Recycling slots zid first zone)
    (forward : first < next) (within : next ≤ allocate)
    (announced : ∀ index, first ≤ index → index < next →
      (slots (slotPtr zid index)).startUndoPtr ≠ invalidUndoRecPtr)
    (starts : batch.startUndoPtr = (slots (slotPtr zid first)).startUndoPtr)
    (ends : batch.endUndoPtr = (slots (slotPtr zid (next - 1))).endUndoPtr)
    (recycle : batch.recyclePtr = slotPtr zid next)
    (oldest : batch.oldestEndUndoPtr = invalidUndoRecPtr ∨
      ∃ index, index < next ∧ boundary slots zid (index + 1) ≤ boundary slots zid next ∧
        undoPtrGetZoneId (slots (slotPtr zid index)).endUndoPtr = zid ∧
          batch.oldestEndUndoPtr = (slots (slotPtr zid index)).endUndoPtr)
    (given : zone.recycleBatch batch = some after) :
    Recycling slots zid next after ∧ Untouched zone after := by
  have further := chain.boundary_le slots zid allocate forward.le within announced
  have last : undoPtrGetOffset batch.endUndoPtr = boundary slots zid next := by
    obtain ⟨index, rfl⟩ : ∃ index, next = index + 1 := ⟨next - 1, by lia⟩
    rw [ends]
    rfl
  have slot : undoPtrGetOffset batch.recyclePtr = slotOffset next := by
    rw [recycle]
    exact undoPtrGetOffset_slotPtr zid _ small inside
  have home : undoPtrGetZoneId batch.startUndoPtr = zid := by
    rw [starts]
    exact chain.starts first (by omega) (announced first le_rfl forward)
  unfold UndoZone.recycleBatch at given
  split at given
  · cases given
    refine ⟨⟨?_, slot, last, ?_⟩, ?_⟩
    · unfold UndoZone.applyBatch
      split <;> exact recycling.home
    · unfold UndoZone.applyBatch
      have behind := recycling.discard
      split
      · rename_i isValid
        rcases oldest with none | ⟨index, _, ordered, same, moved⟩
        · rw [none] at isValid
          exact absurd isValid (by decide)
        · have target : batch.discardTo = batch.oldestEndUndoPtr := by
            unfold RecycleBatch.discardTo
            rw [home, moved, same]
            exact if_pos rfl
          rw [target, moved]
          exact ordered
      · change zone.discardURecPtr ≤ _
        lia
    · unfold UndoZone.applyBatch
      split <;> exact ⟨rfl, rfl, rfl, rfl⟩
  · cases given

variable (limits : RecycleLimits)

/-- Every slot of the range was taken. -/
def AllTaken (first next : Nat) : Prop :=
  ∀ index, first ≤ index → index < next →
    ∃ forced, slotVerdict xids limits (slots (slotPtr zid index)) = .take forced

variable (first next : Nat)

theorem AllTaken.announced (taken : AllTaken xids slots zid limits first next)
    (index : Nat) (from_ : first ≤ index) (upto : index < next) :
    (slots (slotPtr zid index)).startUndoPtr ≠ invalidUndoRecPtr := by
  obtain ⟨forced, verdict⟩ := taken index from_ upto
  exact (slotVerdict_take xids limits _ verdict).1

theorem AllTaken.snoc {forced : Bool} (taken : AllTaken xids slots zid limits first next)
    (verdict : slotVerdict xids limits (slots (slotPtr zid next)) = .take forced) :
    AllTaken xids slots zid limits first (next + 1) := by
  intro index from_ upto
  rcases Nat.lt_succ_iff_lt_or_eq.mp upto with behind | here
  · exact taken index from_ behind
  · rw [here]
    exact ⟨forced, verdict⟩

theorem AllTaken.append {first middle last : Nat}
    (one : AllTaken xids slots zid limits first middle)
    (two : AllTaken xids slots zid limits middle last) :
    AllTaken xids slots zid limits first last := by
  intro index from_ upto
  rcases Nat.lt_or_ge index middle with before | behind
  · exact one index from_ before
  · exact two index behind upto

/-- The state of a page run before each of its slots. -/
structure PageWalk (first next : Nat) (entered scan : RecycleScan) : Prop where
  forward : first ≤ next
  within : next ≤ allocate
  current : scan.recyclePtr = slotPtr zid next
  calm : scan.panicked = false
  settled : scan.settled = entered.settled
  slotsTaken : scan.taken = (List.range' first (next - first)).map (slotPtr zid)
  verdicts : AllTaken xids slots zid limits first next
  noted : scan.undoRecycled = decide (first < next)
  fresh : first = next → scan.startUndoPtr = invalidUndoRecPtr
  extent : first < next → scan.startUndoPtr = (slots (slotPtr zid first)).startUndoPtr ∧
      scan.endUndoPtr = (slots (slotPtr zid (next - 1))).endUndoPtr ∧
        scan.recycleXid = (slots (slotPtr zid (next - 1))).xactId
  oldest : scan.oldestEndUndoPtr = entered.oldestEndUndoPtr ∨
    ∃ index, first ≤ index ∧ index < next ∧
      scan.oldestEndUndoPtr = (slots (slotPtr zid index)).endUndoPtr

/-- One more slot is taken. -/
theorem PageWalk.take {entered scan : RecycleScan} {forced : Bool}
    (small : zid < 2 ^ 20) (inside : slotOffset allocate < 2 ^ 44) (remains : next < allocate)
    (walk : PageWalk xids slots zid allocate limits first next entered scan)
    (verdict : slotVerdict xids limits (slots (slotPtr zid next)) = .take forced) :
    PageWalk xids slots zid allocate limits first (next + 1) entered
      (scan.take (slots (slotPtr zid next)) forced) := by
  have nextInside : slotOffset next < 2 ^ 44 :=
    lt_of_le_of_lt ((slotOffset_le_iff next allocate).mpr walk.within) inside
  have forward := walk.forward
  refine ⟨by omega, remains, ?_, walk.calm, walk.settled, ?_,
    walk.verdicts.snoc xids slots zid limits first next verdict, ?_, by omega, ?_, ?_⟩
  · change getNextSlotPtr scan.recyclePtr = _
    rw [walk.current]
    exact getNextSlotPtr_slotPtr zid next small nextInside
  · change scan.taken ++ [scan.recyclePtr] = _
    have longer : next + 1 - first = next - first + 1 := by lia
    have last : first + 1 * (next - first) = next := by omega
    rw [walk.slotsTaken, walk.current, longer, List.range'_concat, List.map_append, last]
    rfl
  · change true = _
    simp [Nat.lt_succ_of_le forward]
  · intro _
    refine ⟨?_, rfl, rfl⟩
    change (if scan.startUndoPtr = 0 then _ else _) = _
    rcases Nat.lt_or_eq_of_le forward with begun | same
    · have announced := AllTaken.announced xids slots zid limits first next walk.verdicts first
        le_rfl begun
      rw [(walk.extent begun).1]
      exact if_neg announced
    · rw [walk.fresh same, same]
      exact if_pos rfl
  · have kept : scan.oldestEndUndoPtr = entered.oldestEndUndoPtr ∨
        ∃ index, first ≤ index ∧ index < next + 1 ∧
          scan.oldestEndUndoPtr = (slots (slotPtr zid index)).endUndoPtr := by
      apply walk.oldest.imp id
      rintro ⟨index, from_, upto, same⟩
      exact ⟨index, from_, by omega, same⟩
    change (if (scan.forceRecycle || forced) = true then _ else _) = _ ∨ ∃ index, _ ∧ _ ∧
      (if (scan.forceRecycle || forced) = true then _ else _) = _
    split
    · exact kept
    · exact .inr ⟨next, forward, by omega, rfl⟩

/-- A slot is taken, or the walk stops. -/
theorem recycleSlot_spec (first block : Nat) (entered : RecycleScan) (small : zid < 2 ^ 20)
    (inside : slotOffset allocate < 2 ^ 44) (bound : Nat) : Step.Triple
      (fun scan => (∃ next, PageWalk xids slots zid allocate limits first next entered scan) ∧
        slotPtr zid allocate - scan.recyclePtr = bound)
      (recycleSlot xids slots limits (slotPtr zid allocate) block)
      (fun scan => (∃ next, PageWalk xids slots zid allocate limits first next entered scan) ∧
        slotPtr zid allocate - scan.recyclePtr < bound)
      (fun scan => scan.panicked = true ∧ scan.settled = entered.settled ∨
        ∃ next, PageWalk xids slots zid allocate limits first next entered scan ∧
          (slotVerdict xids limits (slots (slotPtr zid next)) = .stop ∨
            block ≠ undoPtrGetBlockNum (slotPtr zid next) ∨ next = allocate)) := by
  rintro scan ⟨⟨next, walk⟩, rfl⟩
  have nextInside : slotOffset next < 2 ^ 44 :=
    lt_of_le_of_lt ((slotOffset_le_iff next allocate).mpr walk.within) inside
  have more := slotPtr_lt_iff small nextInside inside
  unfold recycleSlot
  simp only [walk.current]
  split_ifs with here
  · have remains := more.mp here.2
    cases verdict : slotVerdict xids limits (slots (slotPtr zid next)) with
    | stop => exact .inr ⟨rfl, .inr ⟨next, walk, .inl verdict⟩⟩
    | panic => exact .inr ⟨rfl, .inl ⟨rfl, walk.settled⟩⟩
    | take forced =>
      have taken := walk.take xids slots zid allocate limits first next small inside remains verdict
      have nextStep : slotOffset (next + 1) < 2 ^ 44 :=
        lt_of_le_of_lt ((slotOffset_le_iff (next + 1) allocate).mpr remains) inside
      have further := (slotPtr_lt_iff small nextInside nextStep).mpr (by omega)
      refine .inl ⟨rfl, ⟨next + 1, taken⟩, ?_⟩
      simp only [taken.current]
      omega
  · have within := walk.within
    refine .inr ⟨rfl, .inr ⟨next, walk, ?_⟩⟩
    by_cases sameBlock : block = undoPtrGetBlockNum (slotPtr zid next)
    · exact .inr (.inr (by omega))
    · exact .inr (.inl sameBlock)

/-- The slots of a page are walked. -/
theorem recyclePage_spec {first : Nat} {scan : RecycleScan} (small : zid < 2 ^ 20)
    (inside : slotOffset allocate < 2 ^ 44) (remains : first < allocate)
    (current : scan.recyclePtr = slotPtr zid first) (calm : scan.panicked = false) :
    ((recyclePage xids slots limits (slotPtr zid allocate) scan).panicked = true ∧
      (recyclePage xids slots limits (slotPtr zid allocate) scan).settled = scan.settled) ∨
    ∃ next, PageWalk xids slots zid allocate limits first next scan.enterPage
        (recyclePage xids slots limits (slotPtr zid allocate) scan) ∧
      (next = first → slotVerdict xids limits (slots (slotPtr zid first)) = .stop) := by
  have page := Step.loop_rule _ _ (fun scan => slotPtr zid allocate - scan.recyclePtr) _
    (recycleSlot_spec xids slots zid allocate limits first (undoPtrGetBlockNum scan.recyclePtr)
      scan.enterPage small inside)
    (slotPtr zid allocate - scan.recyclePtr + 1) scan.enterPage
    ⟨first, le_rfl, remains.le, current, calm, rfl, by simp [RecycleScan.enterPage],
      fun index from_ upto => absurd upto (by omega), by simp [RecycleScan.enterPage],
      fun _ => rfl, fun upto => absurd upto (by omega), .inl rfl⟩
    (Nat.lt_succ_self _)
  rcases page with ⟨panicked, settled⟩ | ⟨next, walk, reason⟩
  · exact .inl ⟨panicked, settled⟩
  · refine .inr ⟨next, walk, ?_⟩
    intro same
    rw [same, current] at reason
    rcases reason with stopped | turned | ended
    · exact stopped
    · exact absurd rfl turned
    · omega

/-- What a pass that recycled the slots up to `next` did to the zone and to its results. -/
structure RecycleDone (before : UndoZone) (recycle next : Nat)
    (outcome : UndoZone × List Nat × Nat) : Prop where
  forward : recycle ≤ next
  within : next ≤ allocate
  zone : Recycling slots zid next outcome.1
  untouched : Untouched before outcome.1
  inOrder : outcome.2.1 = (List.range' recycle (next - recycle)).map (slotPtr zid)
  verdicts : AllTaken xids slots zid limits recycle next
  /-- The result is the last recycled transaction, or a limit where nothing was recycled. -/
  limit : next = recycle ∧ outcome.2.2 =
      (if limits.recycleXmin < limits.frozenXid then limits.recycleXmin else limits.frozenXid) ∨
    recycle < next ∧ outcome.2.2 = (slots (slotPtr zid (next - 1))).xactId

/-- The state of `RecycleUndoSpace` before each page run. -/
structure RecycleWalk (before : UndoZone) (recycle next : Nat) (scan : RecycleScan) : Prop where
  done : RecycleDone xids slots zid allocate limits before recycle next scan.settled
  current : scan.recyclePtr = slotPtr zid next
  calm : scan.panicked = false
  oldest : scan.oldestEndUndoPtr = invalidUndoRecPtr ∨ ∃ index, recycle ≤ index ∧ index < next ∧
      scan.oldestEndUndoPtr = (slots (slotPtr zid index)).endUndoPtr

/-- How `RecycleUndoSpace` ends: with a failed check, with all slots, or at a slot it keeps. -/
def RecycleStop (before : UndoZone) (recycle : Nat) (scan : RecycleScan) : Prop :=
  ∃ next, RecycleDone xids slots zid allocate limits before recycle next scan.settled ∧
    (scan.panicked = true ∨ next = allocate ∨
      slotVerdict xids limits (slots (slotPtr zid next)) = .stop)

variable {slots zid allocate}

/-- A page run that is given back goes on with the pass. -/
theorem RecycleWalk.finishPage {insert recycle first next : Nat} {before after : UndoZone}
    {scan page : RecycleScan} (position : Nat → Nat) (small : zid < 2 ^ 20)
    (inside : slotOffset allocate < 2 ^ 44) (chain : SlotChain slots zid allocate insert)
    (walk : RecycleWalk xids slots zid allocate limits before recycle first scan)
    (run : PageWalk xids slots zid allocate limits first next scan.enterPage page)
    (moved : first < next) (given : page.zone.recycleBatch (page.batch limits) = some after) :
    RecycleWalk xids slots zid allocate limits before recycle next
      (page.finishPage after position) := by
  have nextInside : slotOffset next < 2 ^ 44 :=
    lt_of_le_of_lt ((slotOffset_le_iff next allocate).mpr run.within) inside
  have sameZone : page.zone = scan.zone := congrArg (fun outcome => outcome.1) run.settled
  have sameList : page.recycled = scan.recycled := congrArg (fun outcome => outcome.2.1) run.settled
  obtain ⟨starts, ends, xid⟩ := run.extent moved
  have forward := walk.done.forward
  have verdicts := walk.done.verdicts.append xids slots zid limits run.verdicts
  have announced := AllTaken.announced xids slots zid limits recycle next verdicts
  have oldest : page.oldestEndUndoPtr = invalidUndoRecPtr ∨
      ∃ index, recycle ≤ index ∧ index < next ∧
        page.oldestEndUndoPtr = (slots (slotPtr zid index)).endUndoPtr := by
    rcases run.oldest with kept | ⟨index, from_, upto, same⟩
    · rcases walk.oldest with none | ⟨index, from_, upto, same⟩
      · exact .inl (kept.trans none)
      · exact .inr ⟨index, from_, by omega, kept.trans same⟩
    · exact .inr ⟨index, by omega, upto, same⟩
  have batchOldest : (page.batch limits).oldestEndUndoPtr = invalidUndoRecPtr ∨
      ∃ index, index < next ∧ boundary slots zid (index + 1) ≤ boundary slots zid next ∧
        undoPtrGetZoneId (slots (slotPtr zid index)).endUndoPtr = zid ∧
          (page.batch limits).oldestEndUndoPtr = (slots (slotPtr zid index)).endUndoPtr := by
    apply oldest.imp id
    rintro ⟨index, from_, upto, same⟩
    have within := run.within
    exact ⟨index, upto, chain.boundary_le slots zid allocate upto within
      (fun later beyond upto => announced later (by lia) upto),
      chain.ends index (by omega) (announced index from_ upto), same⟩
  rw [sameZone] at given
  have batch := recycleBatch_spec slots zid allocate
    nextInside small chain walk.done.zone moved run.within
    (fun index from_ upto => announced index (by omega) upto) starts ends run.current batchOldest
    given
  have stays := walk.done.untouched
  refine ⟨⟨by omega, run.within, ?_, ?_, ?_, verdicts, .inr ⟨by omega, xid⟩⟩, run.current,
    run.calm, oldest⟩
  · change Recycling slots zid next (if after.pLevel = .permanent then _ else _)
    split
    · exact batch.1.stamp slots zid _
    · exact batch.1
  · have kept : Untouched before after :=
      ⟨batch.2.zid.trans stays.zid, batch.2.allocate.trans stays.allocate,
        batch.2.insert.trans stays.insert, batch.2.frozen.trans stays.frozen⟩
    change Untouched before (if after.pLevel = .permanent then _ else _)
    split
    · exact ⟨kept.zid, kept.allocate, kept.insert, kept.frozen⟩
    · exact kept
  · change page.recycled ++ page.taken = _
    have front : scan.recycled = (List.range' recycle (first - recycle)).map (slotPtr zid) :=
      walk.done.inOrder
    have split : next - recycle = first - recycle + (next - first) := by grind
    have joint : recycle + 1 * (first - recycle) = first := by grind
    rw [sameList, front, run.slotsTaken, split, ← List.range'_append, List.map_append, joint]

/-- A round recycles a page. -/
theorem recycleRound_spec (insert recycle : Nat) (before : UndoZone) (position : Nat → Nat)
    (small : zid < 2 ^ 20) (inside : slotOffset allocate < 2 ^ 44)
    (chain : SlotChain slots zid allocate insert) (bound : Nat) :
    Step.Triple (fun scan =>
        (∃ next, RecycleWalk xids slots zid allocate limits before recycle next scan) ∧
          slotPtr zid allocate - scan.recyclePtr = bound)
      (recycleRound xids slots limits (slotPtr zid allocate) position)
      (fun scan =>
        (∃ next, RecycleWalk xids slots zid allocate limits before recycle next scan) ∧
          slotPtr zid allocate - scan.recyclePtr < bound)
      (RecycleStop xids slots zid allocate limits before recycle) := by
  rintro scan ⟨⟨first, walk⟩, rfl⟩
  have firstInside : slotOffset first < 2 ^ 44 :=
    lt_of_le_of_lt ((slotOffset_le_iff first allocate).mpr walk.done.within) inside
  have more := slotPtr_lt_iff small firstInside inside
  unfold recycleRound
  rw [walk.current]
  by_cases remains : first < allocate
  · have before := more.mpr remains
    rw [if_pos before]
    rcases recyclePage_spec xids slots zid allocate limits small inside remains
      walk.current walk.calm with ⟨panicked, settled⟩ | ⟨next, run, stopped⟩
    · rw [if_pos panicked]
      refine .inr ⟨rfl, first, ?_, .inl panicked⟩
      rw [settled]
      exact walk.done
    · rw [if_neg (by simp [run.calm])]
      rcases Nat.lt_or_eq_of_le run.forward with moved | same
      · rw [if_pos (by simp [run.noted, moved])]
        cases given : (recyclePage xids slots limits (slotPtr zid allocate) scan).zone.recycleBatch
            ((recyclePage xids slots limits (slotPtr zid allocate) scan).batch limits) with
        | none =>
          refine .inr ⟨rfl, first, ?_, .inl rfl⟩
          have settled := run.settled
          change RecycleDone _ _ _ _ _ _ _ _
            (recyclePage xids slots limits (slotPtr zid allocate) scan).settled
          rw [settled]
          exact walk.done
        | some after =>
          have went := walk.finishPage xids limits position small inside chain run moved given
          have nextInside : slotOffset next < 2 ^ 44 :=
            lt_of_le_of_lt ((slotOffset_le_iff next allocate).mpr run.within) inside
          have further := (slotPtr_lt_iff small firstInside nextInside).mpr moved
          refine .inl ⟨rfl, ⟨next, went⟩, ?_⟩
          simp only [went.current]
          omega
      · rw [if_neg (by simp [run.noted, same])]
        refine .inr ⟨rfl, first, ?_, .inr (.inr (stopped same.symm))⟩
        rw [run.settled]
        exact walk.done
  · rw [if_neg (by rw [more]; exact remains)]
    have within := walk.done.within
    exact .inr ⟨rfl, first, walk.done, .inr (.inl (by omega))⟩

/-- The loop recycles up to where it stops. -/
theorem recycleUndoSpace_spec {zone : UndoZone} {insert recycle : Nat} (position : Nat → Nat)
    (small : zid < 2 ^ 20) (inside : slotOffset allocate < 2 ^ 44)
    (allocated : zone.allocateTSlotPtr = slotOffset allocate) (ordered : recycle ≤ allocate)
    (chain : SlotChain slots zid allocate insert) (recycling : Recycling slots zid recycle zone) :
    RecycleStop xids slots zid allocate limits zone recycle
      (recycleUndoSpace xids slots limits position zone) := by
  have allocatePtr : zone.getAllocateTSlotPtr = slotPtr zid allocate := by
    unfold UndoZone.getAllocateTSlotPtr slotPtr
    rw [allocated, recycling.home]
  have recyclePtr : zone.getRecycleTSlotPtr = slotPtr zid recycle := by
    unfold UndoZone.getRecycleTSlotPtr slotPtr
    rw [recycling.recycle, recycling.home]
  unfold recycleUndoSpace
  simp only [allocatePtr, recyclePtr, checkUndoZoneMeta_eq small inside ordered]
  apply Step.loop_rule _ _ _ _
    (recycleRound_spec xids limits insert recycle zone position small inside chain)
  · refine ⟨recycle, ⟨le_rfl, ordered, recycling, ⟨rfl, rfl, rfl, rfl⟩, ?_, ?_, .inl ⟨rfl, rfl⟩⟩, rfl,
      rfl, .inl rfl⟩
    · simp [RecycleScan.settled]
    · intro index from_ upto
      omega
  · exact Nat.lt_succ_self _

end Scans

end OpenGauss.Undo
