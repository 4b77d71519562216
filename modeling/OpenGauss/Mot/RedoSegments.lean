import OpenGauss.Base.Bytes

/-!
# Walking over redo segments

MOT serialises the redo of a transaction into buffers. A serialised buffer starts with its own
length and ends with a block that names the operation and the transaction, and the log has such
segments one after the other. Recovery walks over them in two ways: an iterator can be moved to the
next segment, and `ApplyLogSegmentData` makes a fresh iterator at the start of each one.
-/
namespace OpenGauss.Mot

open List OpenGauss.Base

/-- The end of a segment (`EndSegmentBlock`). -/
structure EndSegmentBlock where
  opCode : UInt16
  flags : UInt16
  reserved : UInt32
  csn : UInt64
  externalTransactionId : UInt64
  internalTransactionId : UInt64
  deriving DecidableEq

/-- The block as it is in memory. -/
def EndSegmentBlock.layout : Layout EndSegmentBlock :=
  (u16.pair (u16.pair (u32.pair (u64.pair (u64.pair u64))))).iso
    (fun fields => ⟨fields.1, fields.2.1, fields.2.2.1, fields.2.2.2.1, fields.2.2.2.2.1,
      fields.2.2.2.2.2⟩)
    (fun block => (block.opCode, block.flags, block.reserved, block.csn,
      block.externalTransactionId, block.internalTransactionId))
    (by intro block; rfl) (by intro fields; rfl)

/-- The size of the block. -/
def sizeOfEndSegmentBlock : Nat := 32

theorem EndSegmentBlock.write_length (block : EndSegmentBlock) :
    (EndSegmentBlock.layout.write block).length = sizeOfEndSegmentBlock :=
  EndSegmentBlock.layout.write_length block

/-- A redo buffer: what was appended behind the room for its length (`RedoLogBuffer`). -/
structure RedoLogBuffer where
  rawData : List UInt8

/-- The size of a buffer with the room for its length. -/
def RedoLogBuffer.size (buffer : RedoLogBuffer) : Nat := 4 + buffer.rawData.length

/-- Append bytes. -/
def RedoLogBuffer.append (buffer : RedoLogBuffer) (data : List UInt8) : RedoLogBuffer :=
  ⟨buffer.rawData ++ data⟩

/-- The serialised buffer: its size and what was appended. -/
def RedoLogBuffer.serialize (buffer : RedoLogBuffer) : List UInt8 :=
  leBytes 4 buffer.size ++ buffer.rawData

/-- The redo of a transaction and the block that ends it. -/
structure RedoSegment where
  entries : RedoLogBuffer
  endBlock : EndSegmentBlock
  fits : entries.size + sizeOfEndSegmentBlock < 2 ^ 32

/-- The buffer of a segment. -/
def RedoSegment.buffer (segment : RedoSegment) : RedoLogBuffer :=
  segment.entries.append (EndSegmentBlock.layout.write segment.endBlock)

/-- The segments as they are in the log. -/
def logBytes (segments : List RedoSegment) : List UInt8 :=
  segments.flatMap fun segment => segment.buffer.serialize

/-- The end block in front of some place of a buffer. -/
def endSegmentAt (buffer : List UInt8) (position : Nat) : EndSegmentBlock :=
  EndSegmentBlock.layout.read
    (slice buffer (position - sizeOfEndSegmentBlock) sizeOfEndSegmentBlock)

/-- An iterator over segments. -/
structure RedoLogTransactionIterator where
  buffer : List UInt8
  bufferLength : Nat
  position : Nat
  txnLength : Nat
  endSegment : EndSegmentBlock

/-- A fresh iterator at the start of some bytes. -/
def RedoLogTransactionIterator.new (data : List UInt8) (length : Nat) :
    RedoLogTransactionIterator where
  buffer := data
  bufferLength := length % 2 ^ 32
  position := 0
  txnLength := leNat (slice data 0 4)
  endSegment := endSegmentAt data (leNat (slice data 0 4))

/-- Move to the next segment (`Next`). The end block is looked for at the length of the segment from
the base pointer on. -/
def RedoLogTransactionIterator.next (iterator : RedoLogTransactionIterator) :
    Bool × RedoLogTransactionIterator :=
  let position := iterator.position + iterator.txnLength
  if iterator.bufferLength ≤ position then
    (false, { iterator with position := position, txnLength := 0 })
  else
    let txnLength := leNat (slice iterator.buffer position 4)
    (true, { iterator with
      position := position
      txnLength := txnLength
      endSegment := endSegmentAt iterator.buffer txnLength })

/-- A segment that is handed to recovery. -/
structure LogSegment where
  len : Nat
  data : List UInt8
  controlBlock : EndSegmentBlock
  replayLsn : Nat
  deriving DecidableEq

/-- Copy the segment of an iterator (`AllocRedoSegment`, where there is memory). -/
def RedoLogTransactionIterator.allocRedoSegment (iterator : RedoLogTransactionIterator)
    (replayLsn : Nat) : LogSegment where
  len := iterator.txnLength - 4
  data := slice iterator.buffer (iterator.position + 4) (iterator.txnLength - 4)
  controlBlock := iterator.endSegment
  replayLsn := replayLsn

/-- Move one iterator over all segments: the length and the copy of each, and where it ends. -/
def nextWalk (replayLsn : Nat) : Nat → RedoLogTransactionIterator → List (Nat × LogSegment) × Nat
  | 0, iterator => ([], iterator.position)
  | rounds + 1, iterator =>
    let one := (iterator.txnLength, iterator.allocRedoSegment replayLsn)
    if iterator.next.1 then
      let rest := nextWalk replayLsn rounds iterator.next.2
      (one :: rest.1, rest.2)
    else ([one], iterator.next.2.position)

/-- Make an iterator at the start of each segment (`ApplyLogSegmentData`): the length and the copy of
each, and where the walk ends. -/
def applyWalk (replayLsn : Nat) (data : List UInt8) (len : Nat) :
    Nat → Nat → List (Nat × LogSegment) × Nat
  | 0, curData => ([], curData)
  | rounds + 1, curData =>
    if curData < len then
      let iterator := RedoLogTransactionIterator.new (data.drop curData) len
      let rest := applyWalk replayLsn data len rounds (curData + iterator.txnLength)
      ((iterator.txnLength, iterator.allocRedoSegment replayLsn) :: rest.1, rest.2)
    else ([], curData)

/-- The two walks over a log give the same segments, and both stop at its end. -/
def WalksAgree (replayLsn : Nat) (log : List UInt8) : Prop :=
  let moved := nextWalk replayLsn log.length (RedoLogTransactionIterator.new log log.length)
  let fresh := applyWalk replayLsn log log.length log.length 0
  moved.1 = fresh.1 ∧ moved.2 = log.length ∧ fresh.2 = log.length

/-- The bytes of a segment behind its length. -/
def RedoSegment.data (segment : RedoSegment) : List UInt8 := segment.buffer.rawData

/-- What recovery gets of a segment, with some end block. -/
def RedoSegment.handed (segment : RedoSegment) (replayLsn : Nat) (endBlock : EndSegmentBlock) :
    Nat × LogSegment :=
  (segment.buffer.size, ⟨segment.buffer.size - 4, segment.data, endBlock, replayLsn⟩)

variable (replayLsn : Nat) (segment : RedoSegment) (front back : List UInt8)
  (rest : List RedoSegment)

theorem RedoSegment.size_eq :
    segment.buffer.size = segment.entries.size + sizeOfEndSegmentBlock := by
  rw [RedoSegment.buffer, RedoLogBuffer.size, RedoLogBuffer.append, length_append,
    EndSegmentBlock.write_length, RedoLogBuffer.size, Nat.add_assoc]

theorem RedoLogBuffer.serialize_length (buffer : RedoLogBuffer) :
    buffer.serialize.length = buffer.size := by
  rw [RedoLogBuffer.serialize, length_append, leBytes_length, RedoLogBuffer.size]

theorem logBytes_cons : logBytes (segment :: rest) = segment.buffer.serialize ++ logBytes rest :=
  flatMap_cons

theorem logBytes_length_cons :
    (logBytes (segment :: rest)).length = segment.buffer.size + (logBytes rest).length := by
  rw [logBytes_cons, length_append, RedoLogBuffer.serialize_length]

theorem RedoSegment.length_read :
    leNat (slice (front ++ (segment.buffer.serialize ++ back)) front.length 4) =
      segment.buffer.size := by
  have fits := segment.fits
  have size := segment.size_eq
  rw [slice, drop_left, RedoLogBuffer.serialize, append_assoc,
    take_left' (leBytes_length 4 _), leNat_leBytes 4 _ (by omega)]

theorem RedoSegment.data_read :
    slice (front ++ (segment.buffer.serialize ++ back)) (front.length + 4)
      (segment.buffer.size - 4) = segment.data := by
  have length : segment.buffer.size - 4 = segment.buffer.rawData.length := Nat.add_sub_cancel_left _ _
  rw [← slice_drop, drop_left, RedoLogBuffer.serialize, append_assoc, slice,
    drop_left' (leBytes_length 4 _), length, take_left, RedoSegment.data]

theorem RedoSegment.endBlock_read (back : List UInt8) :
    endSegmentAt (segment.buffer.serialize ++ back) segment.buffer.size = segment.endBlock := by
  have before : (leBytes 4 segment.buffer.size ++ segment.entries.rawData).length =
      segment.buffer.size - sizeOfEndSegmentBlock := by
    rw [length_append, leBytes_length, segment.size_eq, Nat.add_sub_cancel, RedoLogBuffer.size]
  have bytes : segment.buffer.serialize ++ back =
      (leBytes 4 segment.buffer.size ++ segment.entries.rawData) ++
        (EndSegmentBlock.layout.write segment.endBlock ++ back) := by
    have raw : segment.buffer.rawData =
        segment.entries.rawData ++ EndSegmentBlock.layout.write segment.endBlock := rfl
    rw [RedoLogBuffer.serialize, raw, append_assoc, append_assoc, append_assoc]
  rw [endSegmentAt, bytes, slice, drop_left' before,
    take_left' (EndSegmentBlock.write_length _), EndSegmentBlock.layout.read_write]

theorem new_reads (segment : RedoSegment) (back : List UInt8) (len replayLsn : Nat) :
    let iterator := RedoLogTransactionIterator.new (segment.buffer.serialize ++ back) len
    (iterator.txnLength, iterator.allocRedoSegment replayLsn) =
      segment.handed replayLsn segment.endBlock := by
  have length := segment.length_read [] back
  have data := segment.data_read [] back
  rw [nil_append, length_nil] at length data
  dsimp only [RedoLogTransactionIterator.new, RedoLogTransactionIterator.allocRedoSegment]
  rw [length, data, segment.endBlock_read, RedoSegment.handed]

/-- The walk of the apply path hands out all segments. -/
theorem applyWalk_spec (segments : List RedoSegment) (front : List UInt8)
    (rounds : Nat) (enough : segments.length < rounds + 1) :
    applyWalk replayLsn (front ++ logBytes segments) (front ++ logBytes segments).length rounds
        front.length = (segments.map fun segment => segment.handed replayLsn segment.endBlock,
        (front ++ logBytes segments).length) := by
  induction segments generalizing front rounds with
  | nil =>
    have nothing : logBytes [] = [] := rfl
    rw [nothing, append_nil]
    cases rounds with
    | zero => rfl
    | succ rounds => rw [applyWalk, if_neg (Nat.lt_irrefl _), map_nil]
  | cons segment rest ih =>
    cases rounds with
    | zero => exact absurd enough (by rw [length_cons]; omega)
    | succ rounds =>
      have size := segment.size_eq
      have within : front.length < (front ++ logBytes (segment :: rest)).length := by
        rw [length_append, logBytes_length_cons, size, sizeOfEndSegmentBlock]
        omega
      have one := new_reads segment (logBytes rest) (front ++ logBytes (segment :: rest)).length
        replayLsn
      have step := congrArg Prod.fst one
      have behind := ih (front ++ segment.buffer.serialize) rounds (by
        rw [length_cons] at enough
        omega)
      have position : (front ++ segment.buffer.serialize).length =
          front.length + segment.buffer.size := by
        rw [length_append, RedoLogBuffer.serialize_length]
      rw [position, append_assoc, ← logBytes_cons] at behind
      have start : (front ++ logBytes (segment :: rest)).drop front.length =
          segment.buffer.serialize ++ logBytes rest := by
        rw [drop_left, logBytes_cons]
      rw [applyWalk, if_pos within, start]
      dsimp only at one step ⊢
      rw [one, step]
      dsimp only [RedoSegment.handed]
      rw [behind]
      rfl

/-- An iterator at some segment of a log. -/
def iteratorAt (log : List UInt8) (position txnLength : Nat) : RedoLogTransactionIterator :=
  ⟨log, log.length % 2 ^ 32, position, txnLength, endSegmentAt log txnLength⟩

theorem new_at_start : RedoLogTransactionIterator.new (logBytes (segment :: rest))
        (logBytes (segment :: rest)).length =
      iteratorAt (logBytes (segment :: rest)) 0 segment.buffer.size := by
  have length := segment.length_read [] (logBytes rest)
  rw [nil_append, length_nil, ← logBytes_cons] at length
  rw [RedoLogTransactionIterator.new, length, iteratorAt]

theorem iteratorAt_reads (replayLsn : Nat)
    {log : List UInt8} (isLog : front ++ (segment.buffer.serialize ++ back) = log) :
    (segment.buffer.size,
        (iteratorAt log front.length segment.buffer.size).allocRedoSegment replayLsn) =
      segment.handed replayLsn (endSegmentAt log segment.buffer.size) := by
  have data := segment.data_read front back
  rw [isLog] at data
  dsimp only [iteratorAt, RedoLogTransactionIterator.allocRedoSegment]
  rw [data, RedoSegment.handed]

theorem next_moves {segment next : RedoSegment} {front back log : List UInt8}
    (isLog : front ++ segment.buffer.serialize ++ (next.buffer.serialize ++ back) = log)
    (inside : ¬log.length % 2 ^ 32 ≤ front.length + segment.buffer.size) :
    (iteratorAt log front.length segment.buffer.size).next =
      (true, iteratorAt log (front ++ segment.buffer.serialize).length next.buffer.size) := by
  have length := next.length_read (front ++ segment.buffer.serialize) back
  have position : (front ++ segment.buffer.serialize).length = front.length + segment.buffer.size := by
    rw [length_append, RedoLogBuffer.serialize_length]
  rw [isLog] at length
  rw [position] at length ⊢
  dsimp only [RedoLogTransactionIterator.next, iteratorAt]
  rw [if_neg inside, length]

theorem next_stops {log : List UInt8} {position txnLength : Nat}
    (outside : log.length % 2 ^ 32 ≤ position + txnLength) :
    (iteratorAt log position txnLength).next.1 = false ∧
      (iteratorAt log position txnLength).next.2.position = position + txnLength := by
  dsimp only [RedoLogTransactionIterator.next, iteratorAt]
  rw [if_pos outside]
  exact ⟨rfl, rfl⟩

/-- One iterator gives every segment with the right end block, and stops at the end of a log of less
than 4 GB. -/
theorem nextWalk_spec
    (front log : List UInt8) (isLog : front ++ logBytes (segment :: rest) = log) (rounds : Nat)
    (enough : rest.length < rounds) (small : log.length < 2 ^ 32) :
    nextWalk replayLsn rounds (iteratorAt log front.length segment.buffer.size) =
      ((segment :: rest).map fun segment =>
        segment.handed replayLsn (endSegmentAt log segment.buffer.size), log.length) := by
  induction rest generalizing segment front rounds with
  | nil =>
    obtain ⟨before, rfl⟩ := Nat.exists_eq_succ_of_ne_zero (Nat.ne_of_gt (Nat.zero_lt_of_lt enough))
    rw [logBytes_cons] at isLog
    have lengths := congrArg List.length isLog
    rw [length_append, length_append, RedoLogBuffer.serialize_length] at lengths
    have nothing : (logBytes []).length = 0 := rfl
    have total : front.length + segment.buffer.size = log.length := by lia
    have stops := next_stops (Nat.le_trans (Nat.mod_le _ _) (Nat.le_of_eq total.symm))
    have one := iteratorAt_reads segment front _ replayLsn isLog
    rw [nextWalk, stops.1, stops.2, total]
    dsimp only [iteratorAt] at one ⊢
    rw [one]
    rfl
  | cons next rest ih =>
    obtain ⟨before, rfl⟩ := Nat.exists_eq_succ_of_ne_zero (Nat.ne_of_gt (Nat.zero_lt_of_lt enough))
    rw [logBytes_cons] at isLog
    have one := iteratorAt_reads segment front _ replayLsn isLog
    rw [← append_assoc] at isLog
    have behind := ih next (front ++ segment.buffer.serialize) isLog before
      (Nat.lt_of_succ_lt_succ enough)
    have lengths := congrArg List.length isLog
    rw [length_append, length_append, RedoLogBuffer.serialize_length,
      logBytes_length_cons, next.size_eq, sizeOfEndSegmentBlock] at lengths
    have inside : ¬log.length % 2 ^ 32 ≤ front.length + segment.buffer.size := by
      omega
    have moves := next_moves isLog inside
    rw [nextWalk, moves, behind]
    dsimp only [iteratorAt] at one ⊢
    rw [one]
    rfl

/-- In a long log the walk of the iterator stops short. -/
theorem nextWalk_cut
    (front log : List UInt8) (isLog : front ++ logBytes (segment :: rest) = log) (rounds : Nat)
    (large : front.length + 2 ^ 32 ≤ log.length) :
    (nextWalk replayLsn rounds (iteratorAt log front.length segment.buffer.size)).2 < log.length := by
  have fits := segment.fits
  have size := segment.size_eq
  induction rounds generalizing segment rest front with
  | zero =>
    show front.length < log.length
    omega
  | succ rounds ih =>
    by_cases stops : log.length % 2 ^ 32 ≤ front.length + segment.buffer.size
    · have ends := next_stops stops
      rw [nextWalk]
      lia
    · have lengths := congrArg List.length isLog
      rw [length_append, logBytes_length_cons] at lengths
      cases rest with
      | nil =>
        have nothing : (logBytes []).length = 0 := rfl
        lia
      | cons next rest =>
        rw [logBytes_cons, ← append_assoc] at isLog
        have position : (front ++ segment.buffer.serialize).length =
            front.length + segment.buffer.size := by
          rw [length_append, RedoLogBuffer.serialize_length]
        have behind := ih next rest (front ++ segment.buffer.serialize) isLog (by
          lia) next.fits next.size_eq
        have moves := next_moves isLog stops
        rw [nextWalk, moves]
        exact behind

/-- Both walks over a log agree exactly if it has less than 4 GB and every segment but the first finds
its end block also in front of its length from the start of the log on. -/
theorem redo_walks_agree_iff (replayLsn : Nat) (first : RedoSegment) (rest : List RedoSegment) :
    WalksAgree replayLsn (logBytes (first :: rest)) ↔ (logBytes (first :: rest)).length < 2 ^ 32 ∧
        ∀ segment ∈ rest,
          endSegmentAt (logBytes (first :: rest)) segment.buffer.size = segment.endBlock := by
  have rounds : (first :: rest).length ≤ (logBytes (first :: rest)).length := by
    generalize first :: rest = segments
    induction segments with
    | nil => exact Nat.le_refl _
    | cons segment others ih =>
      have size := segment.size_eq
      rw [sizeOfEndSegmentBlock] at size
      rw [logBytes_length_cons, length_cons]
      omega
  have fresh := applyWalk_spec replayLsn (first :: rest) [] (logBytes (first :: rest)).length
    (by omega)
  rw [nil_append, length_nil] at fresh
  have own := first.endBlock_read (logBytes rest)
  rw [← logBytes_cons] at own
  rw [length_cons] at rounds
  simp only [WalksAgree, fresh, new_at_start]
  by_cases small : (logBytes (first :: rest)).length < 2 ^ 32
  · have moved := nextWalk_spec replayLsn first rest [] _ rfl (logBytes (first :: rest)).length
      (by omega) small
    rw [length_nil, nil_append] at moved
    rw [moved]
    simp only [small, true_and, and_true, map_inj_left, forall_mem_cons, own,
      RedoSegment.handed, Prod.mk.injEq, LogSegment.mk.injEq]
  · have cut := nextWalk_cut replayLsn first rest [] _ rfl (logBytes (first :: rest)).length (by
      rw [length_nil, nil_append]
      omega)
    constructor
    · intro agree
      exact absurd agree.2.1 (Nat.ne_of_lt cut)
    · intro condition
      exact absurd condition.1 small

/-- A transaction that removes a row by a key of one byte and commits. -/
def removingSegment (key : UInt8) (csn : UInt64) : RedoSegment where
  entries := ⟨leBytes 2 5 ++ leBytes 4 1 ++ leBytes 8 1 ++ leBytes 8 16384 ++ leBytes 2 1 ++ [key] ++
    leBytes 8 1⟩
  endBlock := ⟨20, 0, 0, csn, csn, csn⟩
  fits := by
    simp only [RedoLogBuffer.size, length_append, leBytes_length, length_singleton,
      sizeOfEndSegmentBlock]
    decide

/-- With two segments of one length the iterator gives the end block of the first one twice. -/
theorem redo_iterator_repeats_first_end :
    ¬∀ (replayLsn : Nat) (segments : List RedoSegment), segments ≠ [] →
      WalksAgree replayLsn (logBytes segments) := by
  intro agree
  have both := (agree 0 [removingSegment 65 11, removingSegment 66 12] (by simp)).1
  revert both
  decide +kernel

end OpenGauss.Mot
