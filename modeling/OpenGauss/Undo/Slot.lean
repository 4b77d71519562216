import OpenGauss.Undo.Zone

/-!
# Transaction slots and transaction states

The slots of a zone stand in pages of 255, one slot for each transaction that wrote undo
into the zone (`knl_uundotxn.h`). `slotPtr` numbers them, and `GetNextSlotPtr` is the
successor of that numbering. `XidTable` is what the recycler asks about a transaction: the
running ones of the proc array, the committed ones of the commit log, and the two shared
counters that shorten the questions.
-/
namespace OpenGauss.Undo

/-- One transaction slot (`TransactionSlot`). -/
structure TransactionSlot where
  xactId : Nat
  /-- Start of its undo, or the invalid pointer before the first record is announced. -/
  startUndoPtr : Nat
  endUndoPtr : Nat
  info : Nat
  dbId : Nat
deriving DecidableEq

namespace TransactionSlot

/-- A slot of zero bytes. -/
def zero : TransactionSlot := ⟨0, 0, 0, 0, 0⟩

/-- `Init`: the flag it sets, `TRANSLOT_ROLLBACK`, is zero. -/
def init (slot : TransactionSlot) (xid dbId : Nat) : TransactionSlot where
  xactId := xid
  startUndoPtr := invalidUndoRecPtr
  endUndoPtr := invalidUndoRecPtr
  info := slot.info ||| 0
  dbId := dbId

/-- `Update`: the end moves every time, the start is set once. -/
def update (slot : TransactionSlot) (start finish : Nat) : TransactionSlot :=
  { slot with
    endUndoPtr := finish
    startUndoPtr := if slot.startUndoPtr = invalidUndoRecPtr then start else slot.startUndoPtr }

/-- `UpdateRollbackProgress`: set `TRANSLOT_ROLLBACK_FINISH`. -/
def updateRollbackProgress (slot : TransactionSlot) : TransactionSlot :=
  { slot with info := slot.info ||| 1 }

/-- `NeedRollback`. -/
def needRollback (slot : TransactionSlot) : Bool := slot.info &&& 1 == 0

/-- Only the first update sets the start pointer. -/
theorem startUndoPtr_update (slot : TransactionSlot) (start finish : Nat) :
    (slot.update start finish).startUndoPtr =
      if slot.startUndoPtr = invalidUndoRecPtr then start else slot.startUndoPtr := rfl

/-- A finished rollback is not needed any more. -/
@[simp]
theorem needRollback_updateRollbackProgress (slot : TransactionSlot) :
    slot.updateRollbackProgress.needRollback = false := by
  unfold needRollback updateRollbackProgress
  have low : (slot.info ||| 1) &&& 1 = 1 := by
    rw [Nat.and_one_is_mod]
    have odd : (slot.info ||| 1) % 2 = 1 := by
      rw [← Nat.and_one_is_mod, Nat.and_or_distrib_right, Nat.and_one_is_mod]
      rcases Nat.mod_two_eq_zero_or_one slot.info with even | odd
      · rw [even]
        rfl
      · rw [odd]
        rfl
    exact odd
  simp [low]

end TransactionSlot

/-- Slots in one page. -/
def slotsPerPage : Nat := 255

/-- Offset of the slot with the given number. -/
def slotOffset (index : Nat) : Nat :=
  index / slotsPerPage * blcksz + undoLogBlockHeaderSize + index % slotsPerPage * transactionSlotSize

/-- Pointer to the slot with the given number. -/
@[irreducible]
def slotPtr (zid index : Nat) : Nat := makeUndoPtr zid (slotOffset index)

variable (first second : Nat) (zid index : Nat)

/-- Later slots lie at larger offsets. -/
theorem slotOffset_lt (ordered : first < second) : slotOffset first < slotOffset second := by
  unfold slotOffset slotsPerPage blcksz undoLogBlockHeaderSize transactionSlotSize
  lia

/-- A slot lies behind the header of its page. -/
theorem slotOffset_ge (index : Nat) : undoLogBlockHeaderSize ≤ slotOffset index := by
  unfold slotOffset
  omega

/-- Slots are ordered as their offsets are. -/
theorem slotOffset_le_iff : slotOffset first ≤ slotOffset second ↔ first ≤ second := by
  constructor
  · intro ordered
    by_contra backward
    have := slotOffset_lt second first (by omega)
    omega
  · intro ordered
    rcases Nat.lt_or_eq_of_le ordered with before | same
    · exact (slotOffset_lt first second before).le
    · rw [same]

/-- The next slot is at most a slot and a page header on. -/
theorem slotOffset_succ_le (index : Nat) : slotOffset (index + 1) ≤ slotOffset index + 64 := by
  unfold slotOffset slotsPerPage blcksz undoLogBlockHeaderSize transactionSlotSize
  lia

/-- A slot pointer is the zone's base plus the slot's offset. -/
theorem slotPtr_eq (zone : zid < 2 ^ 20) (inside : slotOffset index < 2 ^ 44) :
    slotPtr zid index = zid * 2 ^ 44 + slotOffset index := by
  unfold slotPtr
  exact makeUndoPtr_eq zid _ zone inside

/-- A slot pointer gives back the slot's offset. -/
theorem undoPtrGetOffset_slotPtr (zone : zid < 2 ^ 20) (inside : slotOffset index < 2 ^ 44) :
    undoPtrGetOffset (slotPtr zid index) = slotOffset index := by
  unfold slotPtr
  exact undoPtrGetOffset_make zone inside

/-- Slot pointers of a zone are ordered as the slots are. -/
theorem slotPtr_lt_iff {zid first second : Nat} (zone : zid < 2 ^ 20)
    (one : slotOffset first < 2 ^ 44) (two : slotOffset second < 2 ^ 44) :
    slotPtr zid first < slotPtr zid second ↔ first < second := by
  rw [slotPtr_eq zid first zone one, slotPtr_eq zid second zone two]
  have order := slotOffset_le_iff second first
  constructor
  · intro before
    by_contra backward
    have := order.mpr (by omega)
    omega
  · intro before
    have := slotOffset_lt first second before
    lia

/-- Slots of a zone with the same pointer are the same. -/
theorem slotPtr_inj {zid first second : Nat} (zone : zid < 2 ^ 20)
    (one : slotOffset first < 2 ^ 44) (two : slotOffset second < 2 ^ 44)
    (same : slotPtr zid first = slotPtr zid second) : first = second := by
  have forward := slotPtr_lt_iff zone one two
  have backward := slotPtr_lt_iff zone two one
  grind

/-- The pointer behind a slot is the next slot's. -/
theorem getNextSlotPtr_slotPtr (zone : zid < 2 ^ 20) (inside : slotOffset index < 2 ^ 44) :
    getNextSlotPtr (slotPtr zid index) = slotPtr zid (index + 1) := by
  have next : (if blcksz < transactionSlotSize + (slotOffset index % blcksz + transactionSlotSize)
      then (slotOffset index / blcksz % 2 ^ 32 + 1) * blcksz + undoLogBlockHeaderSize
      else slotOffset index % blcksz + transactionSlotSize +
        slotOffset index / blcksz % 2 ^ 32 * blcksz) = slotOffset (index + 1) := by
    unfold slotOffset at inside ⊢
    unfold slotsPerPage blcksz undoLogBlockHeaderSize transactionSlotSize at *
    split_ifs <;> lia
  unfold getNextSlotPtr
  simp only [slotPtr, undoPtrGetZoneId_make zone inside, undoPtrGetOffset_make zone inside, next]

/-- The first transaction number that a transaction can have (`FirstNormalTransactionId`). -/
def firstNormalTransactionId : Nat := 3

/-- `FrozenTransactionId`. -/
def frozenTransactionId : Nat := 2

/-- `InvalidTransactionId`. -/
def invalidTransactionId : Nat := 0

/-- `TransactionIdIsValid`. -/
def transactionIdIsValid (xid : Nat) : Bool := xid != invalidTransactionId

/-- `TransactionIdIsNormal`. -/
def transactionIdIsNormal (xid : Nat) : Bool := decide (firstNormalTransactionId ≤ xid)

/-- What is known about transactions. -/
structure XidTable where
  nextXid : Nat
  /-- Transactions in the proc array (`TransactionIdIsInProgress`). -/
  running : Nat → Bool
  /-- Transactions marked committed in the commit log (`TransactionIdDidCommit`). -/
  committed : Nat → Bool
  /-- Transactions below it have no undo left (`globalRecycleXid`). -/
  globalRecycleXid : Nat
  /-- Transactions below it need no rollback (`globalFrozenXid`). -/
  globalFrozenXid : Nat

namespace XidTable

/-- `UHeapTransactionIdDidCommit` outside of recovery. -/
def uHeapTransactionIdDidCommit (xids : XidTable) (xid : Nat) : Bool :=
  if xid = frozenTransactionId then true
  else if transactionIdIsNormal xid && decide (xid < xids.globalRecycleXid) then true
  else xids.committed xid

/-- A number that is kept has committed as the table says. -/
theorem uHeapTransactionIdDidCommit_eq (xids : XidTable) {xid : Nat}
    (normal : firstNormalTransactionId ≤ xid) (kept : xids.globalRecycleXid ≤ xid) :
    xids.uHeapTransactionIdDidCommit xid = xids.committed xid := by
  unfold uHeapTransactionIdDidCommit
  have other : xid ≠ frozenTransactionId := by
    unfold firstNormalTransactionId at normal
    unfold frozenTransactionId
    omega
  have late : ¬ xid < xids.globalRecycleXid := by omega
  simp [other, late]

/-- The transaction is over, and it committed or its changes are rolled back. -/
def finished (xids : XidTable) (slot : TransactionSlot) : Prop :=
  xids.running slot.xactId = false ∧ (xids.committed slot.xactId = true ∨ slot.needRollback = false)

/-- Whether `RecheckUndoRecycleXid` raises PANIC and not a warning. -/
def recheckUndoRecycleXid (xids : XidTable) (slot : TransactionSlot) : Bool :=
  decide (xids.globalFrozenXid < xids.globalRecycleXid) ||
    (transactionIdIsValid slot.xactId && decide (slot.xactId < xids.globalFrozenXid) &&
      !xids.uHeapTransactionIdDidCommit slot.xactId && slot.needRollback)

end XidTable

end OpenGauss.Undo
