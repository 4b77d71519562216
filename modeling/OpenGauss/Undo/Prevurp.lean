import OpenGauss.Base.Bytes
import OpenGauss.Undo.Pointer

/-!
# Walking undo records backwards

Records are written forwards with `AdvanceUndoPtr`, which counts usable bytes, and
each of them ends in its own 2-byte length. `GetPrevRecordLen` reads that length
backwards, over a page header where one is in the way, and decides from a single
comparison whether the record itself crosses a page header. The results say that the
backward walk visits exactly the record starts of the forward layout.
-/
namespace OpenGauss.Undo

open List OpenGauss.Base

/-- Undo pages of all zones: zone, block and byte of the page. -/
abbrev UndoStore : Type := Nat → Nat → Nat → UInt8

/-- The byte at an offset of a zone. -/
def UndoStore.byteAt (store : UndoStore) (zid offset : Nat) : UInt8 :=
  store zid (offset / blcksz) (offset % blcksz)

/-- The loop of `GetPrevRecordLen`: fill `prevLen` from its last byte to its first. -/
def prevLenLoop (store : UndoStore) (zid blk pageOffset byteToRead : Nat)
    (prevLen : List UInt8) : List UInt8 :=
  if byteToRead = 0 then prevLen
  else
    if undoLogBlockHeaderSize ≤ wordSub pageOffset 1 then
      prevLenLoop store zid blk (wordSub pageOffset 1) (byteToRead - 1)
        (store zid blk (wordSub pageOffset 1) :: prevLen)
    else prevLenLoop store zid ((blk + (2 ^ 32 - 1)) % 2 ^ 32) blcksz byteToRead prevLen
termination_by (byteToRead, if wordSub pageOffset 1 < undoLogBlockHeaderSize then 1 else 0)
decreasing_by
  · exact Prod.Lex.left _ _ (by omega)
  · refine Prod.Lex.right _ ?_
    rename_i small
    rw [if_neg (by decide), if_pos (by omega)]
    decide

/-- Length of the record that ends at a pointer; `none` is the PANIC on a zero length. -/
def getPrevRecordLen (store : UndoStore) (currUrp : Nat) : Option Nat :=
  let precRecLen := leNat (prevLenLoop store (undoPtrGetZoneId currUrp)
    (undoPtrGetBlockNum currUrp) (undoPtrGetPageOffset currUrp) 2 [])
  let precRecLen :=
    if wordSub (undoPtrGetPageOffset currUrp) undoLogBlockHeaderSize < precRecLen then
      (precRecLen + undoLogBlockHeaderSize) % 65536
    else precRecLen
  if precRecLen = 0 then none else some precRecLen

/-- `GetPrevUrp`. -/
def getPrevUrp (store : UndoStore) (currUrp : Nat) : Option Nat :=
  (getPrevRecordLen store currUrp).map fun prevLen =>
    makeUndoPtr (undoPtrGetZoneId currUrp) (wordSub (undoPtrGetOffset currUrp) prevLen)

/-- `UndoRecord::Prevurp`, for a record with the given transaction header. -/
def prevurp (store : UndoStore) (wtxnPrevurp currUrp : Nat) : Option Nat :=
  if isValidUndoRecPtr wtxnPrevurp then some wtxnPrevurp
  else
    (getPrevRecordLen store currUrp).map fun prevLen =>
      makeUndoPtr (undoPtrGetZoneId currUrp) (wordSub (undoPtrGetOffset currUrp) prevLen)

variable (store : UndoStore) (zid offset size : Nat)

theorem prevLenLoop_take (zid blk pageOffset rest : Nat)
    (prevLen : List UInt8) (behind : 25 ≤ pageOffset) (onPage : pageOffset ≤ 8192) :
    prevLenLoop store zid blk pageOffset (rest + 1) prevLen =
      prevLenLoop store zid blk (pageOffset - 1) rest
        (store zid blk (pageOffset - 1) :: prevLen) := by
  rw [prevLenLoop, if_neg (by omega), wordSub_eq (by omega) (by omega),
    if_pos (by unfold undoLogBlockHeaderSize; omega), Nat.add_sub_cancel]

theorem prevLenLoop_turn (zid blk rest : Nat) (prevLen : List UInt8)
    (later : 0 < blk) (inside : blk < 2 ^ 32) : prevLenLoop store zid blk 24 (rest + 1) prevLen =
      prevLenLoop store zid (blk - 1) 8192 (rest + 1) prevLen := by
  have previous : (blk + (2 ^ 32 - 1)) % 2 ^ 32 = blk - 1 := by lia
  rw [prevLenLoop, if_neg (by omega), if_neg (by decide), previous, blcksz]

theorem prevLenLoop_done (zid blk pageOffset : Nat) (prevLen : List UInt8) :
    prevLenLoop store zid blk pageOffset 0 prevLen = prevLen := by
  rw [prevLenLoop, if_pos rfl]

/-- A record of the forward layout whose trailing length is on its pages. -/
structure EndsInLength (store : UndoStore) (zid offset size : Nat) : Prop where
  low : store.byteAt zid (undoLogOffsetPlusUsableBytes offset (size - 2)) = UInt8.ofNat size
  high : store.byteAt zid (undoLogOffsetPlusUsableBytes offset (size - 1)) =
    UInt8.ofNat (size / 256)

/-- A record of a size the layout allows, at an offset behind its page header. -/
structure RecordAt (zid offset size : Nat) : Prop where
  zone : zid < 2 ^ 20
  behindHeader : 24 ≤ offset % 8192
  least : 2 ≤ size
  most : size ≤ 8168
  inside : undoLogOffsetPlusUsableBytes offset size < 2 ^ 44

theorem UndoStore.byteAt_eq (zid offset blk pageOffset : Nat)
    (place : offset = blk * 8192 + pageOffset) (onPage : pageOffset < 8192) :
    store.byteAt zid offset = store zid blk pageOffset := by
  have block : offset / 8192 = blk := by lia
  have rest : offset % 8192 = pageOffset := by lia
  unfold byteAt blcksz
  rw [block, rest]

section

variable (record : RecordAt zid offset size) (start : offset < 2 ^ 44)
  (length : EndsInLength store zid offset size)
include record start length

/-- The length behind a record is read backwards. -/
theorem prevLenLoop_record :
    prevLenLoop store zid (undoLogOffsetPlusUsableBytes offset size / 8192)
      (undoLogOffsetPlusUsableBytes offset size % 8192) 2 [] = leBytes 2 size := by
  obtain ⟨low, high⟩ := length
  obtain ⟨-, behind, least, most, inside⟩ := record
  have place (n : Nat) (small : n ≤ 8168) :=
    undoLogOffsetPlusUsableBytes_small n start behind small
  rw [place _ (by omega)] at low high
  rw [place size most] at inside ⊢
  have bytes : leBytes 2 size = [UInt8.ofNat size, UInt8.ofNat (size / 256)] := rfl
  rw [bytes]
  have whole := (Nat.div_add_mod' offset 8192).symm
  have onPage : offset % 8192 < 8192 := Nat.mod_lt _ (by decide)
  generalize offset / 8192 = block at whole
  generalize offset % 8192 = page at *
  subst whole
  -- The page header falls behind the record, inside it before its length, inside the
  -- length, or exactly behind the length.
  rcases Nat.lt_or_ge (page + size) 8192 with same | crosses
  · rw [if_pos (by omega)] at low high ⊢
    rw [show (block * 8192 + page + size) / 8192 = block by lia,
      show (block * 8192 + page + size) % 8192 = page + size by lia,
      prevLenLoop_take _ _ _ _ _ _ (by lia) (by omega),
      prevLenLoop_take _ _ _ _ _ _ (by omega) (by omega), prevLenLoop_done, ← low, ← high,
      store.byteAt_eq zid _ block (page + size - 1 - 1) (by lia) (by omega),
      store.byteAt_eq zid _ block (page + size - 1) (by lia) (by omega)]
  · rw [if_neg (by omega)] at inside ⊢
    have later : block + 1 < 2 ^ 32 := by lia
    rw [show (block * 8192 + page + size + 24) / 8192 = block + 1 by lia,
      show (block * 8192 + page + size + 24) % 8192 = page + size + 24 - 8192 by lia]
    rcases Nat.lt_or_ge (page + size) 8194 with split | before
    · rcases Nat.lt_or_ge (page + size) 8193 with between | inLength
      · have ends : size = 8192 - page := by lia
        subst ends
        rw [show page + (8192 - page) + 24 - 8192 = 24 by lia,
          prevLenLoop_turn _ _ _ _ _ (by omega) later, Nat.add_sub_cancel,
          prevLenLoop_take _ _ _ _ _ _ (by decide) (by decide),
          prevLenLoop_take _ _ _ _ _ _ (by decide) (by decide), prevLenLoop_done, ← low, ← high,
          store.byteAt_eq zid _ block (8192 - 1 - 1) (by lia) (by decide),
          store.byteAt_eq zid _ block (8192 - 1) (by grind) (by decide)]
      · have ends : size = 8193 - page := by lia
        subst ends
        rw [show page + (8193 - page) + 24 - 8192 = 25 by lia,
          prevLenLoop_take _ _ _ _ _ _ (by decide) (by decide),
          prevLenLoop_turn _ _ _ _ _ (by omega) later, Nat.add_sub_cancel,
          prevLenLoop_take _ _ _ _ _ _ (by decide) (by decide), prevLenLoop_done, ← low, ← high,
          store.byteAt_eq zid _ block (8192 - 1) (by grind) (by decide),
          store.byteAt_eq zid _ (block + 1) (25 - 1) (by lia) (by decide)]
    · rw [prevLenLoop_take _ _ _ _ _ _ (by omega) (by omega),
        prevLenLoop_take _ _ _ _ _ _ (by omega) (by omega), prevLenLoop_done, ← low, ← high,
        store.byteAt_eq zid _ (block + 1) (page + size + 24 - 8192 - 1 - 1) (by lia) (by omega),
        store.byteAt_eq zid _ (block + 1) (page + size + 24 - 8192 - 1) (by lia) (by omega)]

/-- The length of the previous record. -/
theorem getPrevRecordLen_record :
    getPrevRecordLen store (makeUndoPtr zid (undoLogOffsetPlusUsableBytes offset size)) =
      some (undoLogOffsetPlusUsableBytes offset size - offset) := by
  have read := prevLenLoop_record store zid offset size record start length
  obtain ⟨zone, behind, least, most, inside⟩ := record
  have ended := undoLogOffsetPlusUsableBytes_small size start behind most
  generalize final : undoLogOffsetPlusUsableBytes offset size = last at read inside ended ⊢
  have word : leNat (leBytes 2 size) = size := leNat_leBytes 2 size (by omega)
  have behindLast : 24 ≤ last % 8192 := by
    rw [← final]
    exact undoLogOffsetPlusUsableBytes_behind size start behind (by lia)
  unfold getPrevRecordLen undoPtrGetBlockNum undoPtrGetPageOffset
  simp only [undoPtrGetOffset_make zone inside, undoPtrGetZoneId_make zone inside,
    undoLogBlockHeaderSize, blcksz]
  rw [wordSub_eq (by grind) behindLast]
  -- The record crosses a header exactly where it is longer than its part of the last page.
  have crossed : (if last % 8192 - 24 < size then (size + 24) % 65536 else size) =
      last - offset := by
    split_ifs at ended ⊢ <;> lia
  split_ifs at ended <;> lia

theorem getPrevUrp_record :
    getPrevUrp store (makeUndoPtr zid (undoLogOffsetPlusUsableBytes offset size)) =
      some (makeUndoPtr zid offset) := by
  have found := getPrevRecordLen_record store zid offset size record start length
  obtain ⟨zone, behind, least, most, inside⟩ := record
  have ended := undoLogOffsetPlusUsableBytes_small size start behind most
  have later : offset ≤ undoLogOffsetPlusUsableBytes offset size := by
    rw [ended]
    split_ifs <;> omega
  unfold getPrevUrp
  rw [found, Option.map_some, undoPtrGetOffset_make zone inside,
    undoPtrGetZoneId_make zone inside, wordSub_eq (by omega) (by omega),
    Nat.sub_sub_self later]

end

theorem prevurp_eq_getPrevUrp (wtxnPrevurp currUrp : Nat)
    (invalid : isValidUndoRecPtr wtxnPrevurp = false) :
    prevurp store wtxnPrevurp currUrp = getPrevUrp store currUrp := by
  unfold prevurp getPrevUrp
  rw [if_neg (by simp [invalid])]

/-- The pointer to record `k` of a run, laid out with `AdvanceUndoPtr`. -/
def recordStart (first : Nat) (sizes : List Nat) (k : Nat) : Nat :=
  (sizes.take k).foldl advanceUndoPtr first

/-- Consecutive records from an offset of a zone, each ending in its own length. -/
structure RecordRun (store : UndoStore) (zid offset : Nat) (sizes : List Nat) : Prop where
  zone : zid < 2 ^ 20
  start : offset < 2 ^ 44
  behindHeader : 24 ≤ offset % 8192
  sized : ∀ size ∈ sizes, 2 ≤ size ∧ size ≤ 8168
  total : sizes.sum < 2 ^ 44
  inside : undoLogOffsetPlusUsableBytes offset sizes.sum < 2 ^ 44
  lengths : ∀ k (bound : k < sizes.length),
    EndsInLength store zid (undoLogOffsetPlusUsableBytes offset (sizes.take k).sum) sizes[k]

/-- Going back `count` times with `GetPrevUrp`, the pointers met on the way. -/
def walkBack (store : UndoStore) : Nat → Nat → Option (List Nat)
  | 0, _ => some []
  | count + 1, currUrp => do
    let previous ← getPrevUrp store currUrp
    let earlier ← walkBack store count previous
    some (previous :: earlier)

namespace RecordRun

variable {store : UndoStore} {zid offset : Nat} {sizes : List Nat}

theorem take_sum_le (sizes : List Nat) (k : Nat) : (sizes.take k).sum ≤ sizes.sum := by
  have parts := congrArg List.sum (take_append_drop k sizes)
  rw [sum_append] at parts
  omega

section

variable (run : RecordRun store zid offset sizes)
include run

theorem place_lt (n : Nat) (bound : n ≤ sizes.sum) :
    undoLogOffsetPlusUsableBytes offset n < 2 ^ 44 := by
  have total := run.total
  exact Nat.lt_of_le_of_lt (undoLogOffsetPlusUsableBytes_mono run.start run.behindHeader bound
      (by omega)) run.inside

theorem advance (n size : Nat)
    (bound : n + size ≤ sizes.sum) :
    advanceUndoPtr (makeUndoPtr zid (undoLogOffsetPlusUsableBytes offset n)) size =
      makeUndoPtr zid (undoLogOffsetPlusUsableBytes offset (n + size)) := by
  have middle := run.place_lt n (by omega)
  have total := run.total
  unfold advanceUndoPtr
  rw [undoPtrGetZoneId_make run.zone middle, undoPtrGetOffset_make run.zone middle,
    undoLogOffsetPlusUsableBytes_add size run.behindHeader run.start middle (by omega) (by omega)]

/-- Where a record starts. -/
theorem recordStart_eq (k : Nat) :
    recordStart (makeUndoPtr zid offset) sizes k =
      makeUndoPtr zid (undoLogOffsetPlusUsableBytes offset (sizes.take k).sum) := by
  have zero : undoLogOffsetPlusUsableBytes offset 0 = offset := by
    rw [undoLogOffsetPlusUsableBytes_small 0 run.start run.behindHeader (by omega)]
    split_ifs <;> omega
  induction k with
  | zero => simp [recordStart, zero]
  | succ k ih =>
    rcases Nat.lt_or_ge k sizes.length with bound | past
    · have grown := take_succ_eq_append_getElem bound
      have fits := take_sum_le sizes (k + 1)
      rw [grown, sum_append, sum_singleton] at fits
      unfold recordStart at ih ⊢
      rw [grown, foldl_append, ih, sum_append, sum_singleton, foldl_cons,
        foldl_nil, run.advance _ _ fits]
    · have same : sizes.take (k + 1) = sizes.take k := by
        rw [take_of_length_le (by omega), take_of_length_le past]
      unfold recordStart at ih ⊢
      rw [same, ih]

/-- A step back is one to the previous record. -/
theorem step_back (k : Nat) (bound : k < sizes.length) :
    getPrevUrp store (recordStart (makeUndoPtr zid offset) sizes (k + 1)) =
      some (recordStart (makeUndoPtr zid offset) sizes k) := by
  have grown := take_succ_eq_append_getElem bound
  have fits := take_sum_le sizes (k + 1)
  rw [grown, sum_append] at fits
  have middle := run.place_lt (sizes.take k).sum (by omega)
  have total := run.total
  obtain ⟨least, most⟩ := run.sized sizes[k] (getElem_mem bound)
  have joined := undoLogOffsetPlusUsableBytes_add sizes[k]
    run.behindHeader run.start middle (by lia) (by omega)
  have landed := undoLogOffsetPlusUsableBytes_behind (sizes.take k).sum run.start
    run.behindHeader (by lia)
  rw [run.recordStart_eq, run.recordStart_eq, grown, sum_append, sum_singleton, ← joined]
  refine getPrevUrp_record store zid _ sizes[k] ⟨run.zone, landed, least, most, ?_⟩ middle
    (run.lengths k bound)
  rw [joined]
  exact run.place_lt _ fits

theorem walkBack_eq (k : Nat) (bound : k ≤ sizes.length) :
    walkBack store k (recordStart (makeUndoPtr zid offset) sizes k) =
      some ((List.range k).reverse.map (recordStart (makeUndoPtr zid offset) sizes)) := by
  induction k with
  | zero => rfl
  | succ k ih =>
    simp only [walkBack]
    rw [run.step_back k (by omega)]
    simp only [Option.bind_eq_bind, Option.bind_some, ih (by omega), range_succ,
      reverse_append, reverse_singleton, map_cons, singleton_append]

end

end RecordRun

/-- Walking backwards inverts writing forwards, one step and all steps. -/
theorem walk_back_inverts_layout (store : UndoStore) (zid offset : Nat) (sizes : List Nat)
    (run : RecordRun store zid offset sizes) : (∀ k, k < sizes.length →
      getPrevUrp store (recordStart (makeUndoPtr zid offset) sizes (k + 1)) =
          some (recordStart (makeUndoPtr zid offset) sizes k) ∧
        ∀ wtxnPrevurp, isValidUndoRecPtr wtxnPrevurp = false →
          prevurp store wtxnPrevurp (recordStart (makeUndoPtr zid offset) sizes (k + 1)) =
            some (recordStart (makeUndoPtr zid offset) sizes k)) ∧
      walkBack store sizes.length (recordStart (makeUndoPtr zid offset) sizes sizes.length) =
        some ((List.range sizes.length).reverse.map
          (recordStart (makeUndoPtr zid offset) sizes)) := by
  refine ⟨fun k bound => ⟨run.step_back k bound, fun wtxnPrevurp invalid => ?_⟩,
    run.walkBack_eq sizes.length (Nat.le_refl _)⟩
  rw [prevurp_eq_getPrevUrp store wtxnPrevurp _ invalid]
  exact run.step_back k bound

/-- Three records of 257 bytes, the first of them over a page boundary. -/
theorem walk_back_inverts_layout_over_page : RecordRun (fun _ _ _ => 1) 5 8000 [257, 257, 257] ∧
      walkBack (fun _ _ _ => 1) 3 (recordStart (makeUndoPtr 5 8000) [257, 257, 257] 3) =
        some ((List.range 3).reverse.map (recordStart (makeUndoPtr 5 8000) [257, 257, 257])) := by
  have run : RecordRun (fun _ _ _ => 1) 5 8000 [257, 257, 257] := by
    refine ⟨by decide, by decide, by decide, by simp, by decide, by decide, ?_⟩
    intro k bound
    have same : [257, 257, 257][k] = 257 :=
      eq_of_mem_replicate (n := 3) (getElem_mem bound)
    rw [same]
    exact ⟨rfl, rfl⟩
  exact ⟨run, (walk_back_inverts_layout (fun _ _ _ => 1) 5 8000 [257, 257, 257] run).2⟩

end OpenGauss.Undo
