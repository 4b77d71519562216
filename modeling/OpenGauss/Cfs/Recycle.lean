import OpenGauss.Cfs.PageStore

/-!
# Recycling the chunks of an extent

Shrinking a compressed relation moves the chunks of each extent together: a copy of the extent is
built in which the chunks in use are numbered from 1 in block order, the copy replaces the extent
in its file, and a hole is punched behind the chunks. The module has the copying and proves that
every block reads the same bytes afterwards.
-/
namespace OpenGauss.Cfs

open Function List OpenGauss.Base

/-- The copy of an extent while it is built (`assistBuf`). -/
structure AssistExtent where
  chunknum : Nat
  addresses : Nat → CfsExtentAddress
  bytes : Nat → UInt8

section Sorting

variable (srcExtPca : CfsExtentHeader) (srcBuf : Nat → UInt8)

/-- Copy one chunk of a block behind the last one. -/
def copyChunk (block : Nat) (assist : AssistExtent) (index : Nat) : AssistExtent :=
  let chunknum := wrap16 (assist.chunknum + 1)
  let address := assist.addresses block
  let source := (srcExtPca.cfsExtentAddress block).chunknos index
  { chunknum := chunknum
    addresses := update assist.addresses block
      { address with chunknos := update address.chunknos index chunknum }
    bytes := pwrite assist.bytes (offsetOfPageCompressChunk srcExtPca.chunkSize chunknum)
      (pread srcBuf (offsetOfPageCompressChunk srcExtPca.chunkSize source) srcExtPca.chunkSize) }

/-- Copy the chunks in use of one block. -/
def copyBlock (assist : AssistExtent) (block : Nat) : AssistExtent :=
  let nchunks := (srcExtPca.cfsExtentAddress block).nchunks
  let address := { assist.addresses block with allocatedChunks := nchunks, nchunks := nchunks }
  let begun := { assist with addresses := update assist.addresses block address }
  let copied := (List.range nchunks).foldl (copyChunk srcExtPca srcBuf block) begun
  let finished := copied.addresses block
  { copied with
    addresses := update copied.addresses block
      { finished with checksum := addrChecksum32 finished } }

/-- The copy before the first block: zeros. -/
def emptyAssist : AssistExtent where
  chunknum := 0
  addresses := fun _ => zeroAddress
  bytes := fun _ => 0

/-- Sort out the chunks of an extent: the copy's bytes and its header. -/
def cfsSortOutChunk : (Nat → UInt8) × CfsExtentHeader :=
  let assist := (List.range srcExtPca.nblocks).foldl (copyBlock srcExtPca srcBuf) emptyAssist
  (assist.bytes, { srcExtPca with
      allocatedChunks := assist.chunknum
      recycleInOrder := true
      cfsExtentAddress := assist.addresses })

end Sorting

/-- A multiple of the unit of holes (`TYPEALIGN`). -/
def alignHole (length : Nat) : Nat :=
  (length + minFallocateSize - 1) / minFallocateSize * minFallocateSize

/-- Punch a hole behind the chunks of an extent. -/
def cfsPunchHole (extentStart : Nat) (assistPca : CfsExtentHeader) (file : Nat → UInt8) :
    Nat → UInt8 :=
  let punchOffset := alignHole (wrap32 (assistPca.allocatedChunks * assistPca.chunkSize))
  let punchSize := wrap32 (logicBlocksPerExtent * blckSz + 4294967296 - punchOffset)
  if punchSize = 0 then file
  else punch file (wrap32 (extentStart * blckSz + punchOffset)) punchSize

/-- Replace an extent of a file by its sorted copy. -/
def recycleExtent (extentStart : Nat) (srcExtPca : CfsExtentHeader) (file : Nat → UInt8) :
    (Nat → UInt8) × CfsExtentHeader :=
  let sorted := cfsSortOutChunk srcExtPca fun position => file (extentStart * blckSz + position)
  let written := pwrite file (extentStart * blckSz)
    (pread sorted.1 0 (logicBlocksPerExtent * blckSz))
  (cfsPunchHole extentStart sorted.2 written, sorted.2)

/-- The chunks of an extent are numbered from 1 in block order. -/
def InOrder (header : CfsExtentHeader) : Prop :=
  (List.range logicBlocksPerExtent).flatMap (fun block => (header.cfsExtentAddress block).held) =
    List.range' 1 header.allocatedChunks

/-- The chunks in use of a block after its extent was put in order: behind those of the blocks
before it. -/
def orderedUsed (header : CfsExtentHeader) (block : Nat) : List Nat :=
  List.range' (((List.range block).map fun before =>
    (header.cfsExtentAddress before).nchunks).sum + 1) (header.cfsExtentAddress block).nchunks

/-- A header as the other operations leave it. -/
structure Sound (location : ExtentLocation) (header : CfsExtentHeader) : Prop where
  sized : header.chunkSize = location.chunkSize
  coded : header.algorithm = location.algorithm
  begins : 1 ≤ header.nblocks
  ends : header.nblocks ≤ logicBlocksPerExtent
  sums : ∀ block < logicBlocksPerExtent,
    (header.cfsExtentAddress block).checksum = addrChecksum32 (header.cfsExtentAddress block)
  few : ∀ block < logicBlocksPerExtent,
    (header.cfsExtentAddress block).allocatedChunks ≤ chunksPerBlock location.chunkSize
  used : ∀ block < logicBlocksPerExtent,
    (header.cfsExtentAddress block).nchunks ≤ (header.cfsExtentAddress block).allocatedChunks
  valid : ∀ block < logicBlocksPerExtent, ∀ number ∈ (header.cfsExtentAddress block).held,
    1 ≤ number ∧ number ≤ maxLogicChunksNumber location.chunkSize
  disjoint : ∀ first < logicBlocksPerExtent, ∀ second < logicBlocksPerExtent, first ≠ second →
    ∀ number ∈ (header.cfsExtentAddress first).held, number ∉ (header.cfsExtentAddress second).held
  beyond : ∀ block < logicBlocksPerExtent, header.nblocks ≤ block →
    (header.cfsExtentAddress block).nchunks = 0

section SortingProofs

variable (srcExtPca : CfsExtentHeader) (srcBuf : Nat → UInt8)

theorem offsetOfPageCompressChunk_sideBySide (chunkSize : Nat) :
    SideBySide chunkSize (offsetOfPageCompressChunk chunkSize) := by
  intro number positive
  have next : number = number - 1 + 1 := by omega
  rw [offsetOfPageCompressChunk, offsetOfPageCompressChunk, Nat.add_sub_cancel]
  conv_lhs => rw [next, Nat.mul_succ]

/-- The copy after some chunks of a block, compared with the copy before the block. -/
structure Copied (block : Nat) (before : AssistExtent) (count : Nat) (after : AssistExtent) :
    Prop where
  chunknum : after.chunknum = before.chunknum + count
  others : ∀ other, other ≠ block → after.addresses other = before.addresses other
  counts : (after.addresses block).nchunks = (before.addresses block).nchunks ∧
    (after.addresses block).allocatedChunks = (before.addresses block).allocatedChunks
  numbers : ∀ index < count, (after.addresses block).chunknos index = before.chunknum + 1 + index
  earlier : ∀ number, 1 ≤ number → number ≤ before.chunknum →
    pread after.bytes (offsetOfPageCompressChunk srcExtPca.chunkSize number)
        srcExtPca.chunkSize =
      pread before.bytes (offsetOfPageCompressChunk srcExtPca.chunkSize number)
        srcExtPca.chunkSize
  bytes : readPieces srcExtPca.chunkSize (offsetOfPageCompressChunk srcExtPca.chunkSize)
      after.bytes (List.range' (before.chunknum + 1) count) =
    readPieces srcExtPca.chunkSize (offsetOfPageCompressChunk srcExtPca.chunkSize) srcBuf
      ((List.range count).map (srcExtPca.cfsExtentAddress block).chunknos)

variable (limit blocks : Nat) (block count : Nat)

/-- One more chunk is copied. -/
theorem Copied.step {before after : AssistExtent}
    (copied : Copied srcExtPca srcBuf block before count after)
    (small : before.chunknum + count + 1 < 65536) : Copied srcExtPca srcBuf block before (count + 1)
      (copyChunk srcExtPca srcBuf block after count) := by
  have beside := offsetOfPageCompressChunk_sideBySide srcExtPca.chunkSize
  have next : wrap16 (after.chunknum + 1) = before.chunknum + count + 1 := by
    rw [wrap16, copied.chunknum, Nat.mod_eq_of_lt small]
  have before_next (number : Nat) (low : 1 ≤ number) (high : number ≤ before.chunknum + count) :
      pread (copyChunk srcExtPca srcBuf block after count).bytes
          (offsetOfPageCompressChunk srcExtPca.chunkSize number) srcExtPca.chunkSize =
        pread after.bytes (offsetOfPageCompressChunk srcExtPca.chunkSize number)
          srcExtPca.chunkSize := by
    apply pread_pwrite_apart
    exact .inl (beside.apart _ _ low (by omega))
  exact {
    chunknum := next
    others := by
      intro other differ
      simp only [copyChunk]
      rw [update_of_ne differ]
      exact copied.others other differ
    counts := by
      simp only [copyChunk, update_self]
      exact copied.counts
    numbers := by
      intro index inside
      simp only [copyChunk, update_self]
      by_cases last : index = count
      · rw [last, update_self]
        omega
      · rw [update_of_ne last]
        exact copied.numbers index (by omega)
    earlier := by
      intro number low high
      rw [before_next number low (by lia)]
      exact copied.earlier number low high
    bytes := by
      rw [range'_1_concat, readPieces_append, range_succ, map_append,
        readPieces_append, ← copied.bytes]
      congr 1
      · apply flatMap_congr
        intro number member
        rw [mem_range'_1] at member
        exact before_next number (by lia) (by lia)
      · simp only [readPieces, flatMap_cons, flatMap_nil, append_nil, map_cons,
          map_nil, copyChunk, next]
        have place : before.chunknum + 1 + count = before.chunknum + count + 1 := by omega
        rw [place]
        have back := pread_pwrite after.bytes
          (offsetOfPageCompressChunk srcExtPca.chunkSize (before.chunknum + count + 1))
          (pread srcBuf (offsetOfPageCompressChunk srcExtPca.chunkSize
            ((srcExtPca.cfsExtentAddress block).chunknos count)) srcExtPca.chunkSize)
        rw [pread_length] at back
        exact back }

/-- All chunks of a block are copied. -/
theorem Copied.run (before : AssistExtent) (small : before.chunknum + count < 65536) :
    Copied srcExtPca srcBuf block before count
      ((List.range count).foldl (copyChunk srcExtPca srcBuf block) before) := by
  induction count with
  | zero =>
    exact {
      chunknum := rfl
      others := fun _ _ => rfl
      counts := ⟨rfl, rfl⟩
      numbers := fun index low => absurd low (Nat.not_lt_zero index)
      earlier := fun _ _ _ => rfl
      bytes := rfl }
  | succ count ih =>
    rw [range_succ, foldl_append]
    exact Copied.step srcExtPca srcBuf block count (ih (by omega)) (by omega)

/-- The copy of the first blocks. -/
structure SortedBlocks (limit blocks : Nat) (assist : AssistExtent) : Prop where
  order : (List.range blocks).flatMap (fun block => (assist.addresses block).held) =
    List.range' 1 assist.chunknum
  counts : ∀ block < blocks,
    (assist.addresses block).nchunks = (srcExtPca.cfsExtentAddress block).nchunks ∧
      (assist.addresses block).allocatedChunks = (srcExtPca.cfsExtentAddress block).nchunks
  sums : ∀ block < blocks,
    (assist.addresses block).checksum = addrChecksum32 (assist.addresses block)
  bytes : ∀ block < blocks,
    readPieces srcExtPca.chunkSize (offsetOfPageCompressChunk srcExtPca.chunkSize) assist.bytes
        (assist.addresses block).used =
      readPieces srcExtPca.chunkSize (offsetOfPageCompressChunk srcExtPca.chunkSize) srcBuf
        (srcExtPca.cfsExtentAddress block).used
  ahead : ∀ block, blocks ≤ block → assist.addresses block = zeroAddress
  small : assist.chunknum ≤ blocks * limit
  total : assist.chunknum =
    ((List.range blocks).map fun block => (srcExtPca.cfsExtentAddress block).nchunks).sum
  used : ∀ block < blocks, (assist.addresses block).used = orderedUsed srcExtPca block

theorem Copied.held {block count : Nat} {before after : AssistExtent}
    (copied : Copied srcExtPca srcBuf block before count after)
    (all : (after.addresses block).allocatedChunks = count) :
    (after.addresses block).held = List.range' (before.chunknum + 1) count := by
  rw [CfsExtentAddress.held, all, range'_eq_map_range]
  apply map_congr_left
  intro index member
  exact copied.numbers index (mem_range.mp member)

variable {limit blocks}

/-- One more block is sorted. -/
theorem SortedBlocks.step {assist : AssistExtent} (sixteen : limit ≤ 16)
    (sorted : SortedBlocks srcExtPca srcBuf limit blocks assist)
    (few : (srcExtPca.cfsExtentAddress blocks).nchunks ≤ limit) (inside : blocks < 128) :
    SortedBlocks srcExtPca srcBuf limit (blocks + 1)
      (copyBlock srcExtPca srcBuf assist blocks) := by
  have small := sorted.small
  have bound : blocks * limit ≤ blocks * 16 := Nat.mul_le_mul_left blocks sixteen
  obtain ⟨begun, begins⟩ : ∃ begun, begun = { assist with
      addresses := update assist.addresses blocks
        { assist.addresses blocks with
          allocatedChunks := (srcExtPca.cfsExtentAddress blocks).nchunks
          nchunks := (srcExtPca.cfsExtentAddress blocks).nchunks } } := ⟨_, rfl⟩
  obtain ⟨copied, copies⟩ : ∃ copied, copied =
      (List.range (srcExtPca.cfsExtentAddress blocks).nchunks).foldl
        (copyChunk srcExtPca srcBuf blocks) begun := ⟨_, rfl⟩
  have number : begun.chunknum = assist.chunknum := by rw [begins]
  have run := Copied.run srcExtPca srcBuf blocks (srcExtPca.cfsExtentAddress blocks).nchunks begun
    (by lia)
  rw [← copies] at run
  have startCounts : (begun.addresses blocks).nchunks =
      (srcExtPca.cfsExtentAddress blocks).nchunks ∧
      (begun.addresses blocks).allocatedChunks = (srcExtPca.cfsExtentAddress blocks).nchunks := by
    rw [begins]
    simp only [update_self, and_self]
  have counts : (copied.addresses blocks).nchunks = (srcExtPca.cfsExtentAddress blocks).nchunks ∧
      (copied.addresses blocks).allocatedChunks = (srcExtPca.cfsExtentAddress blocks).nchunks :=
    ⟨run.counts.1.trans startCounts.1, run.counts.2.trans startCounts.2⟩
  have result : copyBlock srcExtPca srcBuf assist blocks = { copied with
      addresses := update copied.addresses blocks
        { copied.addresses blocks with
          checksum := addrChecksum32 (copied.addresses blocks) } } := by
    rw [copies, begins]
    rfl
  have own : ((copyBlock srcExtPca srcBuf assist blocks).addresses blocks) =
      { copied.addresses blocks with checksum := addrChecksum32 (copied.addresses blocks) } := by
    rw [result]
    exact update_self _ _ _
  have others (block : Nat) (differ : block ≠ blocks) :
      (copyBlock srcExtPca srcBuf assist blocks).addresses block = assist.addresses block := by
    rw [result]
    calc
      update copied.addresses blocks _ block
          = copied.addresses block := update_of_ne differ _ _
      _ = begun.addresses block := run.others block differ
      _ = assist.addresses block := by
        rw [begins]
        exact update_of_ne differ _ _
  have chunknum : (copyBlock srcExtPca srcBuf assist blocks).chunknum =
      assist.chunknum + (srcExtPca.cfsExtentAddress blocks).nchunks := by
    rw [result]
    exact run.chunknum.trans (by rw [number])
  have bytes : (copyBlock srcExtPca srcBuf assist blocks).bytes = copied.bytes := by rw [result]
  have held : ((copyBlock srcExtPca srcBuf assist blocks).addresses blocks).held =
      List.range' (assist.chunknum + 1) (srcExtPca.cfsExtentAddress blocks).nchunks := by
    rw [own, ← number]
    exact run.held _ _ counts.2
  have used : ((copyBlock srcExtPca srcBuf assist blocks).addresses blocks).used =
      List.range' (assist.chunknum + 1) (srcExtPca.cfsExtentAddress blocks).nchunks := by
    rw [← held, own, CfsExtentAddress.used, CfsExtentAddress.held]
    dsimp only
    rw [counts.1, counts.2]
  exact {
    order := by
      rw [range_succ, flatMap_append, flatMap_cons, flatMap_nil, append_nil, held, chunknum]
      have before : (List.range blocks).flatMap (fun block =>
          ((copyBlock srcExtPca srcBuf assist blocks).addresses block).held) =
          List.range' 1 assist.chunknum := by
        rw [← sorted.order]
        apply flatMap_congr
        intro block member
        rw [others block (by
          have low := mem_range.mp member
          omega)]
      rw [before, Nat.add_comm assist.chunknum 1, range'_append_1]
    counts := by
      intro block low
      by_cases last : block = blocks
      · rw [last, own]
        exact counts
      · rw [others block last]
        exact sorted.counts block (by lia)
    sums := by
      intro block low
      by_cases last : block = blocks
      · rw [last, own]
        rfl
      · rw [others block last]
        exact sorted.sums block (by lia)
    bytes := by
      intro block low
      by_cases last : block = blocks
      · subst last
        rw [used, bytes, ← number, run.bytes]
        rfl
      · rw [others block last, bytes, ← sorted.bytes block (by lia)]
        apply flatMap_congr
        intro piece member
        have mine : piece ∈ (assist.addresses block).held := by
          apply CfsExtentAddress.used_subset _ _ piece member
          rw [(sorted.counts block (by lia)).1, (sorted.counts block (by lia)).2]
        have ordered : piece ∈ List.range' 1 assist.chunknum := by
          rw [← sorted.order]
          exact mem_flatMap.mpr ⟨block, mem_range.mpr (by lia), mine⟩
        rw [mem_range'_1] at ordered
        have same := run.earlier piece ordered.1 (by lia)
        rw [same, begins]
    ahead := by
      intro block later
      rw [others block (by omega)]
      exact sorted.ahead block (by omega)
    small := by
      rw [chunknum]
      lia
    total := by
      rw [chunknum, sorted.total, range_succ, map_append, sum_append]
      rfl
    used := by
      intro block low
      by_cases last : block = blocks
      · rw [last, used, sorted.total, orderedUsed]
      · rw [others block last]
        exact sorted.used block (by lia) }

/-- All blocks are sorted. -/
theorem SortedBlocks.run (sixteen : limit ≤ 16)
    (few : ∀ block < blocks, (srcExtPca.cfsExtentAddress block).nchunks ≤ limit)
    (inside : blocks ≤ 128) : SortedBlocks srcExtPca srcBuf limit blocks
      ((List.range blocks).foldl (copyBlock srcExtPca srcBuf) emptyAssist) := by
  induction blocks with
  | zero =>
    exact {
      order := rfl
      counts := fun block low => absurd low (Nat.not_lt_zero block)
      sums := fun block low => absurd low (Nat.not_lt_zero block)
      bytes := fun block low => absurd low (Nat.not_lt_zero block)
      ahead := fun _ _ => rfl
      small := Nat.zero_le _
      total := rfl
      used := fun block low => absurd low (Nat.not_lt_zero block) }
  | succ blocks ih =>
    rw [range_succ, foldl_append]
    exact SortedBlocks.step srcExtPca srcBuf sixteen
      (ih (fun block low => few block (by omega)) (by omega)) (few blocks (by omega)) (by omega)

end SortingProofs

section Recycling

variable (location : ExtentLocation)

/-- Blocks whose chunks are in order share none. -/
theorem disjoint_of_order {addresses : Nat → CfsExtentAddress} {blocks count : Nat}
    (order : (List.range blocks).flatMap (fun block => (addresses block).held) =
      List.range' 1 count) {first second : Nat} (firstInside : first < blocks)
    (secondInside : second < blocks) (differ : first ≠ second) {number : Nat}
    (inFirst : number ∈ (addresses first).held) : number ∉ (addresses second).held := by
  have distinct : ((List.range blocks).flatMap fun block => (addresses block).held).Nodup := by
    rw [order]
    exact nodup_range'
  have apart := (nodup_flatMap.mp distinct).2
  have disjoint : (addresses first).held.Disjoint (addresses second).held := by
    rw [pairwise_iff_getElem] at apart
    obtain less | more := Nat.lt_or_gt_of_ne differ
    · have pair := apart first second (by simpa using firstInside) (by simpa using secondInside)
        less
      simpa using pair
    · have pair := apart second first (by simpa using secondInside) (by simpa using firstInside)
        more
      exact List.Disjoint.symm (by simpa using pair)
  exact fun inSecond => disjoint inFirst inSecond

/-- The sorted copy of a sound extent. -/
structure Recycled (extentStart : Nat) (before after : CfsExtentHeader)
    (fileBefore fileAfter : Nat → UInt8) : Prop where
  sound : Sound location after
  order : InOrder after
  flag : after.recycleInOrder = true
  counts : ∀ block < logicBlocksPerExtent, (after.cfsExtentAddress block).nchunks =
    (before.cfsExtentAddress block).nchunks
  used : ∀ block < logicBlocksPerExtent,
    (after.cfsExtentAddress block).used = orderedUsed before block
  bytes : ∀ block < logicBlocksPerExtent,
    readPieces location.chunkSize (chunkPlace extentStart location.chunkSize) fileAfter
        (after.cfsExtentAddress block).used =
      readPieces location.chunkSize (chunkPlace extentStart location.chunkSize) fileBefore
        (before.cfsExtentAddress block).used
  frame : ∀ position, position < extentStart * blckSz ∨
    (extentStart + logicBlocksPerExtent) * blckSz ≤ position →
      fileAfter position = fileBefore position

/-- The header of the sorted copy of a sound extent is sound. -/
theorem cfsSortOutChunk_sound {header : CfsExtentHeader} (sound : Sound location header)
    {srcBuf : Nat → UInt8} {assist : AssistExtent}
    (sorted : SortedBlocks header srcBuf (chunksPerBlock location.chunkSize) header.nblocks
      assist) :
    Sound location { header with
      allocatedChunks := assist.chunknum
      recycleInOrder := true
      cfsExtentAddress := assist.addresses } := by
  have numbers (block : Nat) (inside : block < header.nblocks) (number : Nat)
      (held : number ∈ (assist.addresses block).held) :
      1 ≤ number ∧ number ≤ assist.chunknum := by
    have member : number ∈ List.range' 1 assist.chunknum := by
      rw [← sorted.order]
      exact mem_flatMap.mpr ⟨block, mem_range.mpr inside, held⟩
    rw [mem_range'_1] at member
    omega
  have none (block : Nat) (outside : ¬block < header.nblocks) :
      (assist.addresses block) = zeroAddress := sorted.ahead block (Nat.le_of_not_lt outside)
  have total : assist.chunknum ≤ maxLogicChunksNumber location.chunkSize :=
    le_trans sorted.small (Nat.mul_le_mul_right _ sound.ends)
  exact { sound with
    sums := by
      intro block _
      by_cases inside : block < header.nblocks
      · exact sorted.sums block inside
      · dsimp only
        rw [none block inside]
        rfl
    few := by
      intro block within
      by_cases inside : block < header.nblocks
      · rw [(sorted.counts block inside).2]
        exact le_trans (sound.used block within) (sound.few block within)
      · dsimp only
        rw [none block inside]
        exact Nat.zero_le _
    used := by
      intro block _
      by_cases inside : block < header.nblocks
      · rw [(sorted.counts block inside).1, (sorted.counts block inside).2]
      · dsimp only
        rw [none block inside]
        exact le_rfl
    valid := by
      intro block _ number held
      by_cases inside : block < header.nblocks
      · have range := numbers block inside number held
        omega
      · dsimp only at held
        rw [none block inside] at held
        simp [zeroAddress, CfsExtentAddress.held] at held
    disjoint := by
      intro first _ second _ differ number inFirst inSecond
      by_cases firstInside : first < header.nblocks
      · by_cases secondInside : second < header.nblocks
        · exact disjoint_of_order sorted.order firstInside secondInside differ inFirst inSecond
        · dsimp only at inSecond
          rw [none second secondInside] at inSecond
          simp [zeroAddress, CfsExtentAddress.held] at inSecond
      · dsimp only at inFirst
        rw [none first firstInside] at inFirst
        simp [zeroAddress, CfsExtentAddress.held] at inFirst
    beyond := by
      intro block _ later
      dsimp only
      rw [sorted.ahead block later]
      rfl }

/-- The header of sorted blocks is in order. -/
theorem inOrder_of_sorted {header : CfsExtentHeader} {srcBuf : Nat → UInt8} {limit : Nat}
    {assist : AssistExtent} (ends : header.nblocks ≤ logicBlocksPerExtent)
    (sorted : SortedBlocks header srcBuf limit header.nblocks assist) :
    InOrder { header with
      allocatedChunks := assist.chunknum
      recycleInOrder := true
      cfsExtentAddress := assist.addresses } := by
  rw [InOrder]
  have split : List.range logicBlocksPerExtent = List.range header.nblocks ++
      (List.range (logicBlocksPerExtent - header.nblocks)).map (header.nblocks + ·) := by
    rw [← range_add]
    congr 1
    omega
  have rest : ((List.range (logicBlocksPerExtent - header.nblocks)).map
      (header.nblocks + ·)).flatMap (fun block => (assist.addresses block).held) = [] := by
    rw [flatMap_eq_nil_iff]
    intro block member
    obtain ⟨index, _, rfl⟩ := mem_map.mp member
    rw [sorted.ahead (header.nblocks + index) (Nat.le_add_right _ _)]
    rfl
  rw [split, flatMap_append, rest, append_nil]
  exact sorted.order

theorem readPieces_extent (extentStart chunkSize : Nat) (file : Nat → UInt8) (pieces : List Nat) :
    readPieces chunkSize (offsetOfPageCompressChunk chunkSize)
        (fun position => file (extentStart * blckSz + position)) pieces =
      readPieces chunkSize (chunkPlace extentStart chunkSize) file pieces := by
  apply flatMap_congr
  intro piece _
  apply map_congr_left
  intro index _
  rw [chunkPlace, Nat.add_assoc]

theorem alignHole_spec {length bound : Nat} (within : length ≤ bound)
    (aligned : bound % minFallocateSize = 0) :
    length ≤ alignHole length ∧ alignHole length ≤ bound := by
  have unit : minFallocateSize = 4096 := rfl
  rewrite [alignHole]
  rewrite [unit] at aligned
  lia

/-- The hole begins behind the chunks of the extent. -/
theorem cfsPunchHole_eq {extentStart : Nat} {header : CfsExtentHeader} (file : Nat → UInt8)
    (inFile : extentStart + 128 ≤ relSegSize)
    (within : header.allocatedChunks * header.chunkSize ≤ logicBlocksPerExtent * blckSz) :
    ∃ offset, header.allocatedChunks * header.chunkSize ≤ offset ∧
      offset ≤ logicBlocksPerExtent * blckSz ∧ cfsPunchHole extentStart header file =
        punch file (extentStart * blckSz + offset) (logicBlocksPerExtent * blckSz - offset) := by
  have extentBytes : logicBlocksPerExtent * blckSz = 1040384 := rfl
  have start : extentStart * blckSz ≤ 1073741824 - 1048576 := by
    rw [blckSz]
    rw [relSegSize] at inFile
    lia
  have small : wrap32 (header.allocatedChunks * header.chunkSize) =
      header.allocatedChunks * header.chunkSize := by
    rw [wrap32]
    lia
  obtain ⟨low, high⟩ := alignHole_spec within (by decide)
  refine ⟨_, low, high, ?_⟩
  rw [cfsPunchHole, small]
  obtain ⟨offset, value⟩ : ∃ offset,
      offset = alignHole (header.allocatedChunks * header.chunkSize) := ⟨_, rfl⟩
  rw [← value] at high ⊢
  have size : wrap32 (logicBlocksPerExtent * blckSz + 4294967296 - offset) =
      logicBlocksPerExtent * blckSz - offset := by
    rw [wrap32]
    grind
  have place : wrap32 (extentStart * blckSz + offset) = extentStart * blckSz + offset := by
    rw [wrap32]
    lia
  rw [size, place]
  split
  · funext position
    rw [punch, if_neg (by grind)]
  · rfl

/-- Recycling a sound extent puts its chunks in order and keeps its pages. -/
theorem recycleExtent_recycled (listed : location.chunkSize ∈ chunkSizeList) (extentStart : Nat)
    (inFile : extentStart + 128 ≤ relSegSize) {header : CfsExtentHeader}
    (sound : Sound location header) (file : Nat → UInt8) :
    Recycled location extentStart header (recycleExtent extentStart header file).2 file
      (recycleExtent extentStart header file).1 := by
  obtain ⟨fills, positive, _, sixteen⟩ := chunkSize_geometry listed
  have inside : header.nblocks ≤ 128 := le_trans sound.ends (by decide)
  have few (block : Nat) (low : block < header.nblocks) :
      (header.cfsExtentAddress block).nchunks ≤ chunksPerBlock location.chunkSize := by
    have within : block < logicBlocksPerExtent := lt_of_lt_of_le low sound.ends
    exact le_trans (sound.used block within) (sound.few block within)
  have sorted := SortedBlocks.run header (fun position => file (extentStart * blckSz + position))
     sixteen few inside
  obtain ⟨assist, value⟩ : ∃ assist, assist = (List.range header.nblocks).foldl
    (copyBlock header fun position => file (extentStart * blckSz + position)) emptyAssist :=
    ⟨_, rfl⟩
  rw [← value] at sorted
  obtain ⟨after, result⟩ : ∃ after, after = { header with
      allocatedChunks := assist.chunknum
      recycleInOrder := true
      cfsExtentAddress := assist.addresses } := ⟨_, rfl⟩
  have soundAfter : Sound location after := by
    rw [result]
    exact cfsSortOutChunk_sound location sound sorted
  have total : assist.chunknum ≤ maxLogicChunksNumber location.chunkSize :=
    le_trans sorted.small (Nat.mul_le_mul_right _ sound.ends)
  have room : after.allocatedChunks * after.chunkSize ≤ logicBlocksPerExtent * blckSz := by
    rw [soundAfter.sized, result]
    dsimp only
    calc
      assist.chunknum * location.chunkSize
          ≤ maxLogicChunksNumber location.chunkSize * location.chunkSize :=
        Nat.mul_le_mul_right _ total
      _ = logicBlocksPerExtent * blckSz := by
        rw [maxLogicChunksNumber, Nat.mul_assoc, Nat.mul_comm (chunksPerBlock _), fills]
  obtain ⟨offset, low, high, hole⟩ := cfsPunchHole_eq
    (pwrite file (extentStart * blckSz) (pread assist.bytes 0 (logicBlocksPerExtent * blckSz)))
    inFile room
  have computed : recycleExtent extentStart header file = (punch
      (pwrite file (extentStart * blckSz) (pread assist.bytes 0 (logicBlocksPerExtent * blckSz)))
      (extentStart * blckSz + offset) (logicBlocksPerExtent * blckSz - offset), after) := by
    rw [← hole, result, value]
    rfl
  rw [computed]
  exact {
    sound := soundAfter
    order := by
      rw [result]
      exact inOrder_of_sorted sound.ends sorted
    flag := by rw [result]
    counts := by
      intro block within
      rw [result]
      by_cases counted : block < header.nblocks
      · exact (sorted.counts block counted).1
      · dsimp only
        rw [sorted.ahead block (Nat.le_of_not_lt counted),
          sound.beyond block within (Nat.le_of_not_lt counted)]
        rfl
    used := by
      intro block within
      rw [result]
      by_cases counted : block < header.nblocks
      · exact sorted.used block counted
      · dsimp only
        rw [sorted.ahead block (Nat.le_of_not_lt counted), orderedUsed,
          sound.beyond block within (Nat.le_of_not_lt counted)]
        rfl
    bytes := by
      intro block within
      by_cases counted : block < header.nblocks
      · have before := sorted.bytes block counted
        rw [sound.sized, readPieces_extent] at before
        rw [← before, result]
        apply flatMap_congr
        intro piece used
        have held : piece ∈ (assist.addresses block).held := by
          apply CfsExtentAddress.used_subset _ _ piece used
          rw [(sorted.counts block counted).1, (sorted.counts block counted).2]
        have ordered : piece ∈ List.range' 1 assist.chunknum := by
          rw [← sorted.order]
          exact mem_flatMap.mpr ⟨block, mem_range.mpr counted, held⟩
        rw [mem_range'_1] at ordered
        have fits := (chunkPlace_le extentStart listed ordered.1 (by lia)).1
        rw [chunkPlace] at fits
        have below : piece * location.chunkSize ≤ assist.chunknum * location.chunkSize :=
          Nat.mul_le_mul_right _ (by omega)
        rw [soundAfter.sized, result] at low
        dsimp only at low
        rw [chunkPlace, pread_punch_apart _ (.inl (by omega)),
          pread_pwrite_inside _ _ _ _ _ _ (by lia)]
      · have empty : (after.cfsExtentAddress block).used = [] := by
          rw [result]
          dsimp only
          rw [sorted.ahead block (Nat.le_of_not_lt counted)]
          rfl
        have emptyBefore : (header.cfsExtentAddress block).used = [] := by
          rw [CfsExtentAddress.used, sound.beyond block within (Nat.le_of_not_lt counted)]
          rfl
        rw [empty, emptyBefore]
        rfl
    frame := by
      intro position outside
      rw [Nat.add_mul] at outside
      dsimp only
      rw [punch, if_neg (by omega), pwrite, pread_length, if_neg (by grind)] }

end Recycling

end OpenGauss.Cfs
