import OpenGauss.Cfs.ChunkAllocation
import OpenGauss.Cfs.RecycleRun

/-!
# Chunk numbers stay in the extent

A block that grows needs a run of free chunks, and if there is none it goes behind the highest
number given out. To keep numbers inside the extent, a write recycles the extent when many chunks
are free, or when the numbers have come within a page of the end and a page's worth of chunks is
free. Fewer free chunks than that can still be scattered so that no block can use them. The module
has the writes with this rule, a run of writes that leaves the extent, and the proof that runs stay
inside exactly if every block that goes behind the highest number has room there.
-/
namespace OpenGauss.Cfs

open Function List OpenGauss.Base

/-- The number of free chunks above which an extent is recycled (`RecycleChunkThreshold`). -/
def recycleChunkThreshold (header : CfsExtentHeader) : Nat :=
  wrap16 (logicBlocksPerExtent * blckSz / header.chunkSize / 4)

/-- The chunk number from which on an extent is recycled sooner (`MaxChunkNumForRecycle`). -/
def maxChunkNumForRecycle (header : CfsExtentHeader) : Nat :=
  (logicBlocksPerExtent - 1) * blckSz / header.chunkSize

/-- The number of free chunks that is then enough (`SingleBlockChunkNumForRecycle`). -/
def singleBlockChunkNumForRecycle (header : CfsExtentHeader) : Nat := blckSz / header.chunkSize

/-- Whether an extent is recycled after a write. -/
def recycleIsDue (header : CfsExtentHeader) : Bool :=
  decide (recycleChunkThreshold header < header.nFragmentChunks) ||
    (decide (maxChunkNumForRecycle header ≤ header.allocatedChunks) &&
      decide (singleBlockChunkNumForRecycle header ≤ header.nFragmentChunks))

/-- A write of a page. -/
structure PageWrite (chunkSize : Nat) where
  block : Nat
  inside : block < logicBlocksPerExtent
  needChunks : Nat
  few : needChunks ≤ chunksPerBlock chunkSize
  nchunks : Nat
  used : nchunks ≤ needChunks
  bytes : Nat → UInt8
  zeroDamagedPages : Bool

/-- The header of an extent around a write. -/
structure WriteState where
  /-- The header right after the block was given its chunks. -/
  written : CfsExtentHeader
  /-- The header after the extent was recycled, where that was due. -/
  header : CfsExtentHeader

section Writing

variable (location : ExtentLocation) (extentStart : Nat)

/-- Recycle an extent if that is due: the sorted copy replaces it, and its header is loaded again
(`CfsRecycleOneExtent`). -/
def cfsRecycleOneExtent (header : CfsExtentHeader) (bytes : Nat → UInt8)
    (zeroDamagedPages : Bool) : Option CfsExtentHeader :=
  if recycleIsDue header = true ∧ header.recycleInOrder = false then
    pcaBufLoadPage true location zeroDamagedPages (cfsSortOutChunk header bytes).2
  else some header

/-- Write a page where fragments are reused (`CfsWritePage`). There is no state where the write ends
the process on purpose, because it would start behind the extent's chunks or behind the file, where
it destroys addresses, or where the header does not load again. -/
def writePageReusing (state : Option WriteState) (write : PageWrite location.chunkSize) :
    Option WriteState :=
  state.bind fun before =>
    let chunkSize := before.header.chunkSize
    (writeBlock true before.header write.block write.needChunks write.nchunks).bind fun written =>
      let pieces := (written.2.cfsExtentAddress write.block).used
      if ∃ number ∈ runStarts pieces.length pieces,
          maxLogicChunksNumber chunkSize < number ∨
            relSegSize * blckSz < chunkPlace extentStart chunkSize number then
        none
      else
        (cfsRecycleOneExtent location written.2 write.bytes write.zeroDamagedPages).map
          fun header => { written := written.2, header := header }

/-- The state of a new extent before its first write. -/
def newWriteState : WriteState where
  written := initExtentHeader location
  header := initExtentHeader location

/-- All chunks of all blocks are chunks of the extent. -/
def InExtent (header : CfsExtentHeader) : Prop :=
  ∀ block < logicBlocksPerExtent, ∀ number ∈ (header.cfsExtentAddress block).held,
    number ≤ maxLogicChunksNumber location.chunkSize

/-- The run has a state, and all chunks are chunks of the extent. -/
def StaysInExtent (state : Option WriteState) : Prop :=
  ∃ reached, state = some reached ∧ InExtent location reached.written ∧
    InExtent location reached.header

/-- A block that goes behind the highest chunk number has room there: in the extent, and in the
bitmap or its padding. -/
def HasRoom (state : Option WriteState) (write : PageWrite location.chunkSize) : Prop :=
  ∀ before, state = some before →
    let address := before.header.cfsExtentAddress write.block
    address.allocatedChunks < write.needChunks →
      before.header.allocatedChunks + extendedBy before.header address write.needChunks ≤
          maxLogicChunksNumber location.chunkSize ∧
        before.header.allocatedChunks + extendedBy before.header address write.needChunks <
          paddedUsageBits

instance (state : Option WriteState) (write : PageWrite location.chunkSize) :
    Decidable (HasRoom location state write) :=
  inferInstanceAs (Decidable (∀ before, state = some before → (_ < _ → _ ≤ _ ∧ _ < _)))

/-- What holds of a header while its blocks have room. -/
structure Roomed (header : CfsExtentHeader) : Prop where
  kept : Kept true location header
  low : header.allocatedChunks ≤ maxLogicChunksNumber location.chunkSize
  sums : ∀ block < logicBlocksPerExtent,
    (header.cfsExtentAddress block).checksum = addrChecksum32 (header.cfsExtentAddress block)
  used : ∀ block < logicBlocksPerExtent,
    (header.cfsExtentAddress block).nchunks ≤ (header.cfsExtentAddress block).allocatedChunks
  empty : NoneBeyond header

theorem Roomed.initial : Roomed location (initExtentHeader location) where
  kept := Kept.initial true location
  low := Nat.zero_le _
  sums := fun _ _ => rfl
  used := fun _ _ => le_rfl
  empty := fun _ _ _ => rfl

variable (header : CfsExtentHeader) (block needChunks nchunks : Nat)

variable {location header}

theorem Roomed.inExtent (roomed : Roomed location header) : InExtent location header :=
  fun block inside number held => le_trans (roomed.kept.below block inside number held) roomed.low

variable (location header)

/-- A header with room is sound. -/
theorem Roomed.sound (roomed : Roomed location header)
    (begins : 1 ≤ header.nblocks) : Sound location header :=
  { roomed with
    sized := roomed.kept.sized
    coded := roomed.kept.coded
    begins := begins
    ends := roomed.kept.ends
    few := roomed.kept.few
    valid := fun block inside number held =>
      ⟨roomed.kept.positive block inside number held, roomed.inExtent block inside number held⟩
    disjoint := roomed.kept.disjoint
    beyond := by
      intro block inside behind
      have none := roomed.empty block inside behind
      have used := roomed.used block inside
      omega }

theorem writeBlock_some (written : Bool × CfsExtentHeader)
    (done : writeBlock true header block needChunks nchunks = some written) :
    written.2 = { extendChunksOfBlock header block needChunks nchunks with
      nblocks := max header.nblocks (block + 1) } := by
  rw [writeBlock] at done
  split at done
  · exact absurd done (by simp)
  · rw [Option.some.injEq] at done
    rw [← done]
    rfl

theorem extendChunksOfBlock_address :
    ∃ address, (extendChunksOfBlock header block needChunks nchunks).cfsExtentAddress =
        update header.cfsExtentAddress block address ∧
      address.checksum = addrChecksum32 address ∧ address.nchunks = nchunks :=
  ⟨_, rfl, rfl, rfl⟩

/-- What the numbers have room for fits. -/
theorem fits_of_room (block needChunks : Nat)
    (room : (header.cfsExtentAddress block).allocatedChunks < needChunks →
      header.allocatedChunks + extendedBy header (header.cfsExtentAddress block) needChunks <
        paddedUsageBits) : Fits true header block needChunks := by
  intro _ short
  have small := room short
  rw [extendedBy] at small
  by_cases atTail : isAtTail header (header.cfsExtentAddress block) = true
  · rw [if_pos atTail] at small ⊢
    exact small
  · rw [if_neg atTail] at small ⊢
    by_cases either : RoomBeside header (header.cfsExtentAddress block) needChunks ∨
        RoomFromHead header (header.cfsExtentAddress block) needChunks
    · obtain beside | atHead := either
      · exact .inl beside
      · exact .inr (.inl atHead)
    · rw [if_neg either] at small
      exact .inr (.inr small)

theorem Roomed.small (listed : location.chunkSize ∈ chunkSizeList)
    (roomed : Roomed location header) : header.allocatedChunks ≤ 2032 := by
  have few := chunksPerBlock_le location.chunkSize listed
  have low := roomed.low
  rw [maxLogicChunksNumber, logicBlocksPerExtent] at low
  omega

theorem Roomed.counted (listed : location.chunkSize ∈ chunkSizeList)
    (roomed : Roomed location header) (write : PageWrite location.chunkSize)
    (short : (header.cfsExtentAddress write.block).allocatedChunks < write.needChunks) :
    Counted header (header.cfsExtentAddress write.block) write.needChunks
      (extendReusing header (header.cfsExtentAddress write.block) write.needChunks) := by
  have small := roomed.small location header listed
  have few := chunksPerBlock_le location.chunkSize listed
  have needs := write.few
  exact extendReusing_counted header short (roomed.kept.positive write.block write.inside)
    (roomed.kept.adjacent rfl write.block write.inside) (by omega)

/-- A write that fits keeps the room. -/
theorem Roomed.write {header : CfsExtentHeader} (listed : location.chunkSize ∈ chunkSizeList)
    (roomed : Roomed location header) {write : PageWrite location.chunkSize}
    (room : (header.cfsExtentAddress write.block).allocatedChunks < write.needChunks →
      header.allocatedChunks +
          extendedBy header (header.cfsExtentAddress write.block) write.needChunks ≤
          maxLogicChunksNumber location.chunkSize ∧ header.allocatedChunks +
          extendedBy header (header.cfsExtentAddress write.block) write.needChunks <
          paddedUsageBits) :
    ∃ written, writeBlock true header write.block write.needChunks write.nchunks = some written ∧
      Roomed location written.2 ∧ 1 ≤ written.2.nblocks := by
  have fits := fits_of_room header write.block write.needChunks fun short => (room short).2
  obtain ⟨written, done, kept⟩ := Kept.write true
    write.nchunks listed roomed.kept write.inside write.few fits
  have fields := writeBlock_some header write.block write.needChunks write.nchunks written done
  obtain ⟨address, addresses, sum, uses⟩ := extendChunksOfBlock_address header write.block
    write.needChunks write.nchunks
  have blocks : written.2.nblocks = max header.nblocks (write.block + 1) := by rw [fields]
  have each : written.2.cfsExtentAddress = update header.cfsExtentAddress write.block address := by
    rw [fields]
    exact addresses
  have enough : write.needChunks ≤ address.allocatedChunks ∧
      written.2.allocatedChunks ≤ maxLogicChunksNumber location.chunkSize := by
    have own : ((extendChunksOfBlock header write.block write.needChunks
        write.nchunks).cfsExtentAddress write.block).allocatedChunks =
        address.allocatedChunks := by
      rw [addresses, update_self]
    by_cases short : (header.cfsExtentAddress write.block).allocatedChunks < write.needChunks
    · have counted := roomed.counted location header listed write short
      obtain ⟨other, others, count, _, _, allocated, _⟩ :=
        extendChunksOfBlock_short header write.block write.needChunks write.nchunks short
      rw [others, update_self, count, counted.count] at own
      refine ⟨own.le, ?_⟩
      rw [fields]
      show (extendChunksOfBlock header write.block write.needChunks
        write.nchunks).allocatedChunks ≤ _
      rw [allocated, counted.highest]
      exact (room short).1
    · obtain ⟨same, highest, _⟩ :=
        extendChunksOfBlock_enough header write.block write.needChunks write.nchunks short
      rw [same.counts] at own
      refine ⟨by omega, ?_⟩
      rw [fields]
      show (extendChunksOfBlock header write.block write.needChunks
        write.nchunks).allocatedChunks ≤ _
      rw [highest]
      exact roomed.low
  refine ⟨written, done, ?_, ?_⟩
  · exact {
      kept := kept
      low := enough.2
      sums := by
        intro other inside
        rw [each]
        by_cases same : other = write.block
        · rw [same, update_self]
          exact sum
        · rw [update_of_ne same]
          exact roomed.sums other inside
      used := by
        intro other inside
        rw [each]
        by_cases same : other = write.block
        · rw [same, update_self, uses]
          exact le_trans write.used enough.1
        · rw [update_of_ne same]
          exact roomed.used other inside
      empty := by
        intro other inside behind
        rw [blocks] at behind
        have differ : other ≠ write.block := by lia
        rw [each, update_of_ne differ]
        exact roomed.empty other inside (by lia) }
  · rw [blocks]
    grind

/-- The blocks hold no more chunks than are allocated. -/
theorem Kept.chunks_le (kept : Kept true location header)
    {blocks : Nat} (inside : blocks ≤ logicBlocksPerExtent) :
    ((List.range blocks).flatMap fun block => (header.cfsExtentAddress block).held).length ≤
      header.allocatedChunks := by
  have within (block : Nat) (member : block ∈ List.range blocks) : block < logicBlocksPerExtent :=
    lt_of_lt_of_le (mem_range.mp member) inside
  have distinct :
      ((List.range blocks).flatMap fun block => (header.cfsExtentAddress block).held).Nodup := by
    rw [nodup_flatMap]
    constructor
    · intro block member
      exact CfsExtentAddress.held_nodup _ (kept.adjacent rfl block (within block member))
    · apply List.Pairwise.imp_of_mem _ nodup_range
      intro first second inFirst inSecond differ number held
      exact kept.disjoint first (within first inFirst) second (within second inSecond) differ
        number held
  have subset : ((List.range blocks).flatMap fun block => (header.cfsExtentAddress block).held) ⊆
      List.range' 1 header.allocatedChunks := by
    intro number member
    obtain ⟨block, listed, held⟩ := mem_flatMap.mp member
    have low := kept.positive block (within block listed) number held
    have high := kept.below block (within block listed) number held
    rw [mem_range'_1]
    omega
  calc
    _ ≤ (List.range' 1 header.allocatedChunks).length := (distinct.subperm subset).length_le
    _ = header.allocatedChunks := length_range'

/-- Sorting does not raise the count of chunks. -/
theorem Roomed.sorted_le (roomed : Roomed location header)
    {srcBuf : Nat → UInt8} {assist : AssistExtent}
    (sorted : SortedBlocks header srcBuf (chunksPerBlock location.chunkSize) header.nblocks
      assist) : assist.chunknum ≤ header.allocatedChunks := by
  have length (address : CfsExtentAddress) : address.held.length = address.allocatedChunks := by
    rw [CfsExtentAddress.held, length_map, length_range]
  have number : ((List.range header.nblocks).flatMap
      fun block => (assist.addresses block).held).length = assist.chunknum := by
    rw [sorted.order, length_range']
  calc
    assist.chunknum = ((List.range header.nblocks).map
            fun block => (assist.addresses block).allocatedChunks).sum := by
      rw [← number, length_flatMap]
      simp only [length]
    _ ≤ ((List.range header.nblocks).map
            fun block => (header.cfsExtentAddress block).allocatedChunks).sum := by
      apply sum_le_sum
      intro block member
      have inside := mem_range.mp member
      rw [(sorted.counts block inside).2]
      exact roomed.used block (lt_of_lt_of_le inside roomed.kept.ends)
    _ = ((List.range header.nblocks).flatMap
            fun block => (header.cfsExtentAddress block).held).length := by
      rw [length_flatMap]
      simp only [length]
    _ ≤ header.allocatedChunks :=
      Kept.chunks_le location header roomed.kept roomed.kept.ends

/-- Chunks in order are adjacent in each block. -/
theorem adjacent_of_order {addresses : Nat → CfsExtentAddress} {blocks count : Nat}
    (order : (List.range blocks).flatMap (fun block => (addresses block).held) =
      List.range' 1 count) {block : Nat} (inside : block < blocks) {index : Nat}
    (counted : index < (addresses block).allocatedChunks) :
    (addresses block).chunknos index = (addresses block).chunknos 0 + index := by
  obtain ⟨later, split⟩ : ∃ later, List.range blocks = List.range block ++ (block :: later) := by
    refine ⟨(List.range (blocks - block - 1)).map (block + 1 + ·), ?_⟩
    have total : blocks = block + 1 + (blocks - block - 1) := by omega
    conv_lhs => rw [total, range_add, range_succ, append_assoc]
    rfl
  rw [split, flatMap_append, flatMap_cons] at order
  have rest := congrArg (List.drop ((List.range block).flatMap
    fun other => (addresses other).held).length) order
  rw [drop_left] at rest
  have place (position : Nat) (low : position < (addresses block).allocatedChunks) :
      (addresses block).chunknos position = 1 + (((List.range block).flatMap
        fun other => (addresses other).held).length + position) := by
    have length : position < (addresses block).held.length := by
      rw [CfsExtentAddress.held, length_map, length_range]
      exact low
    have entry := congrArg (fun numbers => numbers[position]?) rest
    rw [getElem?_append_left length, getElem?_drop, CfsExtentAddress.held,
      getElem?_map, getElem?_range low] at entry
    obtain ⟨_, value⟩ := List.getElem?_eq_some_iff.mp entry.symm
    rw [getElem_range', Nat.one_mul] at value
    exact value.symm
  rw [place index counted, place 0 (by omega)]
  lia

/-- Loading keeps the counters and rebuilds the bits. -/
theorem pcaBufLoadPage_counters {zeroDamagedPages : Bool} {disk page : CfsExtentHeader}
    (sized : disk.chunkSize = location.chunkSize) (coded : disk.algorithm = location.algorithm)
    (result : pcaBufLoadPage true location zeroDamagedPages disk = some page) :
    page.allocatedChunks ≤ maxChunkOfBlocks disk logicBlocksPerExtent ∧
      (∀ block < logicBlocksPerExtent, ∀ number ∈ (page.cfsExtentAddress block).held,
        number ≤ page.allocatedChunks) ∧
      ∀ block < page.nblocks, ∀ number ∈ (page.cfsExtentAddress block).held,
        page.allocatedChunkUsages number = true := by
  have unchanged : checkHeaderOfCompressAddr disk location zeroDamagedPages = disk := by
    rw [checkHeaderOfCompressAddr]
    simp [sized, coded]
  have begin : Checked disk location.chunkSize 0 (startCheck disk) := {
    shrunk := fun _ => .inr ⟨rfl, fun _ _ => rfl⟩
    ahead := fun _ _ => rfl
    highest := fun _ low => absurd low (Nat.not_lt_zero _)
    inExtent := Nat.zero_le _
    ofBlocks := Nat.zero_le _
    nonzero := Nat.zero_le _ }
  rw [pcaBufLoadPage, checkAndRepairCompressAddress, unchanged, range_eq_range'] at result
  cases checks : checkAddresses location.chunkSize zeroDamagedPages (startCheck disk)
      (List.range' 0 logicBlocksPerExtent) with
  | none => simp [checks] at result
  | some check =>
    have checked := Checked.run disk location.chunkSize zeroDamagedPages (startCheck disk) check 0
      logicBlocksPerExtent begin checks
    simp only [checks, Option.map_some, Option.some.injEq] at result
    have below := repair_below disk check checked
    rw [← result]
    refine ⟨checked.ofBlocks, below, ?_⟩
    intro block inside number held
    apply writeAll_listed
    exact mem_flatMap.mpr ⟨block, mem_range.mpr inside, held⟩

/-- Recycling keeps the room. -/
theorem Roomed.recycle (listed : location.chunkSize ∈ chunkSizeList)
    (roomed : Roomed location header) (begins : 1 ≤ header.nblocks) (bytes : Nat → UInt8)
    (zeroDamagedPages : Bool) :
    ∃ after, cfsRecycleOneExtent location header bytes zeroDamagedPages = some after ∧
      Roomed location after := by
  by_cases due : recycleIsDue header = true ∧ header.recycleInOrder = false
  · have sound := roomed.sound location header begins
    have sixteen := chunksPerBlock_le location.chunkSize listed
    have sorted := SortedBlocks.run header bytes
      sixteen (fun block low => le_trans (roomed.used block (lt_of_lt_of_le low roomed.kept.ends))
        (roomed.kept.few block (lt_of_lt_of_le low roomed.kept.ends)))
      (le_trans roomed.kept.ends (by decide))
    obtain ⟨assist, built⟩ : ∃ assist, assist = (List.range header.nblocks).foldl
        (copyBlock header bytes) emptyAssist := ⟨_, rfl⟩
    rw [← built] at sorted
    have soundCopy := cfsSortOutChunk_sound location sound sorted
    have fewer := roomed.sorted_le location header sorted
    have shape : (cfsSortOutChunk header bytes).2 = { header with
        allocatedChunks := assist.chunknum
        recycleInOrder := true
        cfsExtentAddress := assist.addresses } := by
      rw [built]
      rfl
    rw [← shape] at soundCopy
    have numbers (block : Nat) (number : Nat) (held : number ∈
        ((cfsSortOutChunk header bytes).2.cfsExtentAddress block).held) :
        number ≤ assist.chunknum := by
      rw [shape] at held
      dsimp only at held
      by_cases inside : block < header.nblocks
      · have member : number ∈ List.range' 1 assist.chunknum := by
          rw [← sorted.order]
          exact mem_flatMap.mpr ⟨block, mem_range.mpr inside, held⟩
        rw [mem_range'_1] at member
        omega
      · rw [sorted.ahead block (Nat.le_of_not_lt inside)] at held
        exact absurd held not_mem_nil
    have highest : maxChunkOfBlocks (cfsSortOutChunk header bytes).2 logicBlocksPerExtent ≤
        assist.chunknum := by
      apply (foldl_max_le_iff _ 0 _).mpr
      refine ⟨Nat.zero_le _, ?_⟩
      intro number member
      obtain ⟨block, _, held⟩ := mem_flatMap.mp member
      exact numbers block number held
    obtain ⟨page, loads, loaded⟩ := Sound.load true location zeroDamagedPages soundCopy
    have soundPage := LoadedAs.sound location _ page soundCopy loaded
    obtain ⟨ends, below, covered⟩ := pcaBufLoadPage_counters location
      soundCopy.sized soundCopy.coded loads
    have blocks : page.nblocks = header.nblocks := by
      rw [loaded.nblocks, shape]
    have address (block : Nat) (inside : block < logicBlocksPerExtent) :
        page.cfsExtentAddress block = clearBeyond (assist.addresses block) := by
      rw [loaded.addresses block inside, shape]
    have empty : NoneBeyond page := by
      intro block inside behind
      rw [address block inside, sorted.ahead block (blocks ▸ behind)]
      rfl
    refine ⟨page, ?_, ?_⟩
    · rw [cfsRecycleOneExtent, if_pos due]
      exact loads
    · exact { soundPage with
        kept := { soundPage with
          positive := fun block inside number held => (soundPage.valid block inside number held).1
          below := below
          marked := fun _ => lt_of_le_of_lt (le_trans ends (le_trans highest fewer))
            (roomed.kept.marked rfl)
          counted := fun absent => absurd absent (by decide)
          covered := by
            intro _ block inside number held
            by_cases behind : page.nblocks ≤ block
            · have none := empty block inside behind
              obtain ⟨index, counted, _⟩ := (CfsExtentAddress.mem_held _ number).mp held
              omega
            · exact covered block (Nat.lt_of_not_le behind) number held
          adjacent := by
            intro _ block inside index counted
            rw [address block inside] at counted ⊢
            have low : index < (assist.addresses block).allocatedChunks := counted
            have before : block < header.nblocks := by
              by_contra behind
              rw [sorted.ahead block (Nat.le_of_not_lt behind)] at low
              exact absurd low (Nat.not_lt_zero index)
            simp only [clearBeyond]
            rw [if_pos low, if_pos (by omega)]
            exact adjacent_of_order sorted.order before low }
        low := le_trans ends (le_trans highest (le_trans fewer roomed.low))
        sums := soundPage.sums
        used := soundPage.used
        empty := empty }
  · refine ⟨header, ?_, roomed⟩
    rw [cfsRecycleOneExtent, if_neg due]
def RoomedRun (state : Option WriteState) : Prop :=
  ∃ reached, state = some reached ∧ InExtent location reached.written ∧
    Roomed location reached.header

theorem RoomedRun.stays {state : Option WriteState} (run : RoomedRun location state) :
    StaysInExtent location state := by
  obtain ⟨reached, same, inside, roomed⟩ := run
  exact ⟨reached, same, inside, roomed.inExtent⟩

section

variable (listed : location.chunkSize ∈ chunkSizeList)
include listed

/-- A page write succeeds or runs out of numbers. -/
theorem writePageReusing_roomed (inFile : extentStart + 128 ≤ relSegSize) {before : WriteState}
    {write : PageWrite location.chunkSize} (roomed : Roomed location before.header)
    (room : HasRoom location (some before) write) :
    ∃ written, writeBlock true before.header write.block write.needChunks write.nchunks =
        some written ∧
      Roomed location written.2 ∧ 1 ≤ written.2.nblocks ∧
      writePageReusing location extentStart (some before) write =
        (cfsRecycleOneExtent location written.2 write.bytes write.zeroDamagedPages).map
          fun header => { written := written.2, header := header } := by
  obtain ⟨written, done, roomedWritten, begins⟩ := Roomed.write location listed roomed
    (room before rfl)
  have held := CfsExtentAddress.used_subset (written.2.cfsExtentAddress write.block)
    (roomedWritten.used write.block write.inside)
  have noCrash := runStarts_inside listed inFile
    (written.2.cfsExtentAddress write.block).used fun number used =>
      ⟨roomedWritten.kept.positive write.block write.inside number (held number used),
        roomedWritten.inExtent write.block write.inside number (held number used)⟩
  refine ⟨written, done, roomedWritten, begins, ?_⟩
  rw [writePageReusing, Option.bind_some]
  rw [done, Option.bind_some, roomed.kept.sized, if_neg noCrash]

theorem RoomedRun.step (inFile : extentStart + 128 ≤ relSegSize) {state : Option WriteState}
    {write : PageWrite location.chunkSize} (run : RoomedRun location state)
    (room : HasRoom location state write) :
    RoomedRun location (writePageReusing location extentStart state write) := by
  obtain ⟨before, rfl, -, roomed⟩ := run
  obtain ⟨written, _, roomedWritten, begins, result⟩ := writePageReusing_roomed location extentStart
    listed inFile roomed room
  obtain ⟨after, recycled, roomedAfter⟩ := Roomed.recycle location written.2 listed roomedWritten
    begins write.bytes write.zeroDamagedPages
  refine ⟨{ written := written.2, header := after }, ?_, roomedWritten.inExtent, roomedAfter⟩
  rw [result, recycled, Option.map_some]

/-- A write that goes on and stays in the extent had room for its block. -/
theorem RoomedRun.room (state : Option WriteState)
    (write : PageWrite location.chunkSize) (run : RoomedRun location state)
    (stays : StaysInExtent location (writePageReusing location extentStart state write)) :
    HasRoom location state write := by
  obtain ⟨before, rfl, -, roomed⟩ := run
  intro same some address short
  obtain rfl := Option.some.inj some
  obtain ⟨reached, result, inside, -⟩ := stays
  have counted := roomed.counted location before.header listed write short
  have small := roomed.small location before.header listed
  have marked := roomed.kept.marked rfl
  have few := chunksPerBlock_le location.chunkSize listed
  have needs := write.few
  have lower := extendedBy_le before.header (before.header.cfsExtentAddress write.block)
    write.needChunks
  rw [writePageReusing, Option.bind_some] at result
  dsimp only at result
  obtain ⟨written, done, rest⟩ := Option.bind_eq_some_iff.mp result
  split at rest
  · exact absurd rest (by simp)
  · obtain ⟨after, _, final⟩ := Option.map_eq_some_iff.mp rest
    have fields := writeBlock_some before.header write.block write.needChunks write.nchunks written
      done
    obtain ⟨address, addresses, count, numbers, _⟩ := extendChunksOfBlock_short before.header
      write.block write.needChunks write.nchunks short
    by_cases grows : 0 < extendedBy before.header (before.header.cfsExtentAddress write.block)
        write.needChunks
    · have last := counted.last grows
      rw [← numbers, wrap16, Nat.mod_eq_of_lt (by lia)] at last
      have own : address.allocatedChunks = write.needChunks := count.trans counted.count
      have held : before.header.allocatedChunks + extendedBy before.header
          (before.header.cfsExtentAddress write.block) write.needChunks ∈ address.held :=
        (address.mem_held _).mpr ⟨write.needChunks - 1, by omega, last⟩
      constructor
      · apply inside write.block write.inside
        rw [← final, fields]
        rw [addresses, update_self]
        exact held
      · by_contra stray
        have stops : writeBlock true before.header write.block write.needChunks write.nchunks =
            none := by
          refine if_pos ⟨rfl, short, _, ?_, Nat.le_of_not_lt stray⟩
          have same : update before.header.cfsExtentAddress write.block
              (extendChunksOfBlockCore true before.header
                (before.header.cfsExtentAddress write.block) write.needChunks
                write.nchunks).2.2 =
              update before.header.cfsExtentAddress write.block address := addresses
          have entry := congrFun same write.block
          rw [update_self, update_self] at entry
          rw [entry]
          exact held
        rw [stops] at done
        exact absurd done (by simp)
    · have stands : extendedBy before.header (before.header.cfsExtentAddress write.block)
          write.needChunks = 0 := by lia
      rw [stands]
      exact ⟨roomed.low, marked⟩

end

/-- A run of writes of a new extent stays in the extent in every state exactly if every block that
goes behind the highest chunk number has room there. -/
theorem chunk_numbers_in_extent_iff (listed : location.chunkSize ∈ chunkSizeList)
    (inFile : extentStart + 128 ≤ relSegSize) (writes : List (PageWrite location.chunkSize)) :
    Along (writePageReusing location extentStart) (fun state write => StaysInExtent location
          (writePageReusing location extentStart state write))
        (some (newWriteState location)) writes ↔
      Along (writePageReusing location extentStart) (HasRoom location)
        (some (newWriteState location)) writes := by
  have initial := Roomed.initial location
  have start : RoomedRun location (some (newWriteState location)) :=
    ⟨_, rfl, initial.inExtent, initial⟩
  constructor
  · apply along_of_invariant _ _ _ (RoomedRun location)
    · intro state write run stays
      exact RoomedRun.step location extentStart listed inFile run
        (RoomedRun.room location extentStart listed state write run stays)
    · intro state write run stays
      exact RoomedRun.room location extentStart listed state write run stays
    · exact start
  · apply along_of_invariant _ _ _ (RoomedRun location)
    · intro state write run room
      exact RoomedRun.step location extentStart listed inFile run room
    · intro state write run room
      exact RoomedRun.stays location (RoomedRun.step location extentStart listed inFile run room)
    · exact start

end Writing

/-- A write to an extent with chunks of half a page. -/
def halfWrite (block : Nat) (inside : block < logicBlocksPerExtent) (needChunks : Nat)
    (few : needChunks ≤ 2) : PageWrite halfPages.chunkSize where
  block := block
  inside := inside
  needChunks := needChunks
  few := few
  nchunks := needChunks
  used := le_rfl
  bytes := fun _ => 0
  zeroDamagedPages := false

/-- The first block is written, the second one, and the first one again with more chunks: its old
chunk is left free between them. -/
def scatteringWrites : List (PageWrite halfPages.chunkSize) :=
  [halfWrite 0 (by decide) 1 (by decide), halfWrite 1 (by decide) 2 le_rfl,
    halfWrite 0 (by decide) 2 le_rfl]

/-- The next blocks are written with two chunks each. -/
def fillingWrites : (count : Nat) → count + 2 ≤ logicBlocksPerExtent →
    List (PageWrite halfPages.chunkSize)
  | 0, _ => []
  | count + 1, fits =>
    fillingWrites count (by omega) ++ [halfWrite (count + 2) (by omega) 2 le_rfl]

/-- All blocks but the last one are written, and then the last one, with one chunk and with two. -/
def crowdingWrites : List (PageWrite halfPages.chunkSize) :=
  scatteringWrites ++ fillingWrites 124 (by decide) ++
    [halfWrite 126 (by decide) 1 (by decide), halfWrite 126 (by decide) 2 le_rfl]

/-- The scattering writes stay in the extent. -/
theorem chunk_numbers_in_extent_scattering :
    halfPages.chunkSize ∈ chunkSizeList ∧ 0 + 128 ≤ relSegSize ∧
      Along (writePageReusing halfPages 0)
        (fun state write => StaysInExtent halfPages (writePageReusing halfPages 0 state write))
        (some (newWriteState halfPages)) scatteringWrites :=
  ⟨by decide, by decide, (chunk_numbers_in_extent_iff halfPages 0 (by decide) (by decide)
    scatteringWrites).mpr (by decide +kernel)⟩

theorem crowdingWrites_leave : ∃ reached, crowdingWrites.foldl (writePageReusing halfPages 0)
        (some (newWriteState halfPages)) = some reached ∧
      (reached.written.cfsExtentAddress 126).held = [254, 255] := by
  have run : (crowdingWrites.foldl (writePageReusing halfPages 0)
      (some (newWriteState halfPages))).map (fun state =>
        (state.written.cfsExtentAddress 126).held) = some [254, 255] := by
    decide +kernel
  exact Option.map_eq_some_iff.mp run

/-- A run of writes of a new extent in which a block is given a chunk that the extent does not
have. -/
theorem chunk_numbers_leave_extent : (∃ reached, crowdingWrites.foldl (writePageReusing halfPages 0)
        (some (newWriteState halfPages)) = some reached ∧
      (reached.written.cfsExtentAddress 126).held = [254, 255]) ∧
      maxLogicChunksNumber halfPages.chunkSize = 254 ∧ ¬Along (writePageReusing halfPages 0)
        (fun state write => StaysInExtent halfPages (writePageReusing halfPages 0 state write))
        (some (newWriteState halfPages)) crowdingWrites := by
  refine ⟨crowdingWrites_leave, rfl, ?_⟩
  intro along
  obtain ⟨reached, run, held⟩ := crowdingWrites_leave
  obtain ⟨earlier, ends⟩ : ∃ earlier, crowdingWrites =
      earlier ++ [halfWrite 126 (by decide) 2 le_rfl] :=
    ⟨scatteringWrites ++ fillingWrites 124 (by decide) ++ [halfWrite 126 (by decide) 1 (by decide)],
      by rw [append_assoc _ [_] [_]]; rfl⟩
  rw [ends, along_append] at along
  rw [ends, foldl_append, foldl_cons, foldl_nil] at run
  obtain ⟨state, same, inside, -⟩ := along.2.1
  rw [run, Option.some.injEq] at same
  have member : 255 ∈ (state.written.cfsExtentAddress 126).held := by
    rw [← same, held]
    decide
  exact absurd (inside 126 (by decide) 255 member) (by decide)

end OpenGauss.Cfs
