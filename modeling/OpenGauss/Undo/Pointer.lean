import Mathlib.Data.Nat.Bitwise
import Mathlib.Tactic.Ring
import Mathlib.Tactic.Linarith

/-!
# Undo pointers

An undo pointer packs a 20-bit zone number over a 44-bit byte offset into one
unsigned 64-bit word. Offsets count page headers; usable byte numbers do not.
The definitions keep the word arithmetic of the macros in `knl_uundotype.h`, and
the lemmas give their values on the offsets a zone really has.
-/
namespace OpenGauss.Undo

/-- Bytes in one page (`BLCKSZ`). -/
def blcksz : Nat := 8192

/-- Unusable bytes at the start of each undo page (`UNDO_LOG_BLOCK_HEADER_SIZE`). -/
def undoLogBlockHeaderSize : Nat := 24

/-- Usable bytes of each undo page (`UNDO_LOG_USABLE_BYTES_PER_PAGE`). -/
def undoLogUsableBytesPerPage : Nat := blcksz - undoLogBlockHeaderSize

/-- Bits of an undo pointer that hold the offset (`UNDO_LOG_OFFSET_BITS`). -/
def undoLogOffsetBits : Nat := 44

/-- Bytes one zone can address (`UNDO_LOG_MAX_SIZE`). -/
def undoLogMaxSize : Nat := 2 ^ 44

/-- Zones in the instance (`UNDO_ZONE_COUNT`). -/
def undoZoneCount : Nat := 1048576

/-- Values of an unsigned 64-bit word. -/
def wordSize : Nat := 2 ^ 64

/-- Unsigned 64-bit subtraction, which wraps. -/
def wordSub (left right : Nat) : Nat := (left + (wordSize - right % wordSize)) % wordSize

/-- The invalid undo pointer (`INVALID_UNDO_REC_PTR`). -/
def invalidUndoRecPtr : Nat := 0

/-- `IS_VALID_UNDO_REC_PTR`. -/
def isValidUndoRecPtr (urp : Nat) : Bool := urp != invalidUndoRecPtr

/-- `MAKE_UNDO_PTR`. -/
def makeUndoPtr (zid offset : Nat) : Nat := (zid <<< undoLogOffsetBits ||| offset) % wordSize

/-- `UNDO_PTR_GET_ZONE_ID`. -/
def undoPtrGetZoneId (urp : Nat) : Nat := urp >>> undoLogOffsetBits

/-- `UNDO_PTR_GET_OFFSET`. -/
def undoPtrGetOffset (urp : Nat) : Nat := urp &&& (2 ^ undoLogOffsetBits - 1)

/-- `UNDO_PTR_GET_PAGE_OFFSET`. -/
def undoPtrGetPageOffset (urp : Nat) : Nat := undoPtrGetOffset urp % blcksz

/-- `UNDO_PTR_GET_BLOCK_NUM`. -/
def undoPtrGetBlockNum (urp : Nat) : Nat := undoPtrGetOffset urp / blcksz

/-- `UNDO_LOG_OFFSET_TO_USABLE_BYTE_NO`. -/
def undoLogOffsetToUsableByteNo (offset : Nat) : Nat :=
  (wordSub (offset % blcksz) undoLogBlockHeaderSize +
    offset / blcksz * undoLogUsableBytesPerPage) % wordSize

/-- `UNDO_LOG_OFFSET_FROM_USABLE_BYTE_NO`. -/
def undoLogOffsetFromUsableByteNo (i : Nat) : Nat :=
  (i / undoLogUsableBytesPerPage * blcksz + undoLogBlockHeaderSize +
    i % undoLogUsableBytesPerPage) % wordSize

/-- `UNDO_LOG_OFFSET_PLUS_USABLE_BYTES`. -/
def undoLogOffsetPlusUsableBytes (offset n : Nat) : Nat :=
  undoLogOffsetFromUsableByteNo ((undoLogOffsetToUsableByteNo offset + n) % wordSize)

/-- Step over `size` usable bytes inside the pointer's zone (`AdvanceUndoPtr`). -/
def advanceUndoPtr (undoPtr size : Nat) : Nat :=
  makeUndoPtr (undoPtrGetZoneId undoPtr)
    (undoLogOffsetPlusUsableBytes (undoPtrGetOffset undoPtr) size)

/-- Bytes of one transaction slot, already aligned (`MAXALIGN(sizeof(TransactionSlot))`). -/
def transactionSlotSize : Nat := 32

/-- The slot behind a slot, over the page header where the page is full (`GetNextSlotPtr`). -/
def getNextSlotPtr (slotPtr : Nat) : Nat :=
  let slotOffset := undoPtrGetOffset slotPtr
  let block := slotOffset / blcksz % 2 ^ 32
  let blkOffset := slotOffset % blcksz
  let offset := blkOffset + transactionSlotSize
  makeUndoPtr (undoPtrGetZoneId slotPtr)
    (if blcksz < transactionSlotSize + offset then (block + 1) * blcksz + undoLogBlockHeaderSize
    else offset + block * blcksz)

variable (urp : Nat) (zid offset : Nat)

/-- A pointer is its zone number times the zone size, plus the offset. -/
theorem makeUndoPtr_eq (zone : zid < 2 ^ 20) (inside : offset < 2 ^ 44) :
    makeUndoPtr zid offset = zid * 2 ^ 44 + offset := by
  have packed : zid <<< 44 ||| offset = zid * 2 ^ 44 + offset := by
    rw [Nat.shiftLeft_eq, Nat.mul_comm, Nat.two_pow_add_eq_or_of_lt inside]
  unfold makeUndoPtr undoLogOffsetBits wordSize
  lia

/-- The offset is the low 44 bits. -/
theorem undoPtrGetOffset_eq : undoPtrGetOffset urp = urp % 2 ^ 44 := by
  exact Nat.and_two_pow_sub_one_eq_mod urp 44

/-- The offset of a made pointer is the offset modulo the zone size. -/
theorem undoPtrGetOffset_makeUndoPtr :
    undoPtrGetOffset (makeUndoPtr zid offset) = offset % 2 ^ 44 := by
  unfold makeUndoPtr undoLogOffsetBits wordSize
  rw [undoPtrGetOffset_eq, Nat.mod_mod_of_dvd _ (by decide : 2 ^ 44 ∣ 2 ^ 64),
    Nat.or_mod_two_pow, Nat.shiftLeft_eq, Nat.mul_mod_left, Nat.zero_or]

/-- An offset is below the zone size. -/
theorem undoPtrGetOffset_lt : undoPtrGetOffset urp < 2 ^ 44 := by
  rw [undoPtrGetOffset_eq]
  omega

/-- The zone number is what is above the low 44 bits. -/
theorem undoPtrGetZoneId_eq : undoPtrGetZoneId urp = urp / 2 ^ 44 := by
  exact Nat.shiftRight_eq_div_pow urp 44

/-- An offset is its own offset. -/
theorem undoPtrGetOffset_of_lt (offset : Nat) (inside : offset < 2 ^ 44) :
    undoPtrGetOffset offset = offset := by
  rw [undoPtrGetOffset_eq]
  lia

variable {zid offset}

/-- A pointer gives back its offset. -/
theorem undoPtrGetOffset_make (zone : zid < 2 ^ 20) (inside : offset < 2 ^ 44) :
    undoPtrGetOffset (makeUndoPtr zid offset) = offset := by
  rw [makeUndoPtr_eq zid offset zone inside, undoPtrGetOffset_eq]
  lia

/-- A pointer gives back its zone. -/
theorem undoPtrGetZoneId_make (zone : zid < 2 ^ 20) (inside : offset < 2 ^ 44) :
    undoPtrGetZoneId (makeUndoPtr zid offset) = zid := by
  rw [makeUndoPtr_eq zid offset zone inside, undoPtrGetZoneId_eq]
  lia

/-- The next slot's offset depends on the slot's offset only. -/
theorem undoPtrGetOffset_getNextSlotPtr (slotPtr : Nat) :
    undoPtrGetOffset (getNextSlotPtr (undoPtrGetOffset slotPtr)) =
      undoPtrGetOffset (getNextSlotPtr slotPtr) := by
  have masked : undoPtrGetOffset (undoPtrGetOffset slotPtr) = undoPtrGetOffset slotPtr :=
    undoPtrGetOffset_of_lt _ (undoPtrGetOffset_lt slotPtr)
  unfold getNextSlotPtr
  simp only [undoPtrGetOffset_makeUndoPtr, masked]

/-- A subtraction that does not wrap is the one of numbers. -/
theorem wordSub_eq {left right : Nat} (fits : left < 2 ^ 64) (ordered : right ≤ left) :
    wordSub left right = left - right := by
  unfold wordSub wordSize
  grind

/-- The number of usable bytes in front of an offset behind a page header. -/
theorem undoLogOffsetToUsableByteNo_eq (offset : Nat) (inside : offset < 2 ^ 44)
    (behindHeader : 24 ≤ offset % 8192) :
    undoLogOffsetToUsableByteNo offset = offset % 8192 - 24 + offset / 8192 * 8168 := by
  unfold undoLogOffsetToUsableByteNo undoLogUsableBytesPerPage undoLogBlockHeaderSize blcksz
  rw [wordSub_eq (by grind) behindHeader]
  unfold wordSize
  grind

/-- Going on by some usable bytes, in terms of pages and places in them. -/
theorem undoLogOffsetPlusUsableBytes_eq {offset : Nat} (n : Nat) (inside : offset < 2 ^ 44)
    (behindHeader : 24 ≤ offset % 8192) (small : n < 2 ^ 63) :
    undoLogOffsetPlusUsableBytes offset n =
      (offset % 8192 - 24 + n) / 8168 * 8192 + offset / 8192 * 8192 + 24 +
        (offset % 8192 - 24 + n) % 8168 := by
  unfold undoLogOffsetPlusUsableBytes undoLogOffsetFromUsableByteNo
  rw [undoLogOffsetToUsableByteNo_eq offset inside behindHeader]
  unfold undoLogUsableBytesPerPage undoLogBlockHeaderSize blcksz wordSize
  generalize within : offset % 8192 - 24 + n = moved
  grind

/-- Going on by some usable bytes ends behind a page header. -/
theorem undoLogOffsetPlusUsableBytes_behind {offset : Nat} (n : Nat) (inside : offset < 2 ^ 44)
    (behindHeader : 24 ≤ offset % 8192) (small : n < 2 ^ 63) :
    24 ≤ undoLogOffsetPlusUsableBytes offset n % 8192 := by
  rw [undoLogOffsetPlusUsableBytes_eq n inside behindHeader small]
  omega

/-- A step within a page size skips at most one page header. -/
theorem undoLogOffsetPlusUsableBytes_small {offset : Nat} (n : Nat) (inside : offset < 2 ^ 44)
    (behindHeader : 24 ≤ offset % 8192) (small : n ≤ 8168) : undoLogOffsetPlusUsableBytes offset n =
      if offset % 8192 + n < 8192 then offset + n else offset + n + 24 := by
  rw [undoLogOffsetPlusUsableBytes_eq n inside behindHeader (by omega)]
  split_ifs <;> lia

/-- More bytes lead at least as far. -/
theorem undoLogOffsetPlusUsableBytes_mono {offset shorter longer : Nat} (inside : offset < 2 ^ 44)
    (behindHeader : 24 ≤ offset % 8192) (ordered : shorter ≤ longer) (small : longer < 2 ^ 63) :
    undoLogOffsetPlusUsableBytes offset shorter ≤ undoLogOffsetPlusUsableBytes offset longer := by
  rw [undoLogOffsetPlusUsableBytes_eq shorter inside behindHeader (by omega),
    undoLogOffsetPlusUsableBytes_eq longer inside behindHeader small]
  lia

/-- Two steps are one step by the sum. -/
theorem undoLogOffsetPlusUsableBytes_add {offset first : Nat} (second : Nat)
    (behindHeader : 24 ≤ offset % 8192) (inside : offset < 2 ^ 44)
    (middle : undoLogOffsetPlusUsableBytes offset first < 2 ^ 44) (one : first < 2 ^ 62)
    (two : second < 2 ^ 62) :
    undoLogOffsetPlusUsableBytes (undoLogOffsetPlusUsableBytes offset first) second =
      undoLogOffsetPlusUsableBytes offset (first + second) := by
  have landed := undoLogOffsetPlusUsableBytes_behind first inside behindHeader (by omega)
  rw [undoLogOffsetPlusUsableBytes_eq second middle landed (by omega),
    undoLogOffsetPlusUsableBytes_eq first inside behindHeader (by omega),
    undoLogOffsetPlusUsableBytes_eq (first + second) inside behindHeader (by omega)]
  lia

end OpenGauss.Undo
