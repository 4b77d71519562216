import OpenGauss.Base.ClearRun

/-!
# Extents of a compressed relation

A compressed relation file is cut into extents of 128 blocks. The last block of an extent is its
header: it records for each of the other 127 blocks the chunks that hold the compressed page, and
for the whole extent the highest chunk number given out and, where fragments are reused, a bitmap
of the chunks in use. The module has the header, the allocation of chunks for one block, and the
changes that truncation, recovery and loading the header from disk make to it.

The usage bitmap has 127 bytes. The three bytes behind it are padding, and the address of the
first block comes next, so a bit from number 1040 on is a bit of that address.
-/
namespace OpenGauss.Cfs

open OpenGauss.Base

/-- The size of a page (`BLCKSZ`). -/
def blckSz : Nat := 8192

/-- The blocks of an extent that hold pages (`CFS_LOGIC_BLOCKS_PER_EXTENT`). -/
def logicBlocksPerExtent : Nat := 127

/-- The bits of the usage bitmap (`ALLOCATE_CHUNK_USAGE_LEN` bytes). -/
def usageBits : Nat := 127 * 8

/-- The bits up to the address of the first block. -/
def paddedUsageBits : Nat := 130 * 8

/-- The chunk number that stands for none (`INVALID_CHUNK_NUM`). -/
def invalidChunkNum : Nat := 0

/-- The first chunk number (`CHUNK_START_NUM`). -/
def chunkStartNum : Nat := 1

/-- The chunks that a page takes without compression. -/
def chunksPerBlock (chunkSize : Nat) : Nat := blckSz / chunkSize

/-- The chunks of an extent (`CFS_MAX_LOGIC_CHUNKS_NUMBER`). -/
def maxLogicChunksNumber (chunkSize : Nat) : Nat := logicBlocksPerExtent * chunksPerBlock chunkSize

/-- The value of a number in 16 bits. -/
def wrap16 (number : Nat) : Nat := number % 65536

/-- The value of a number in 32 bits. -/
def wrap32 (number : Nat) : Nat := number % 4294967296

/-- The difference of two 16-bit numbers. -/
def sub16 (first second : Nat) : Nat := (first + 65536 - second % 65536) % 65536

/-- Where the page of one block is stored. -/
structure CfsExtentAddress where
  checksum : Nat
  nchunks : Nat
  allocatedChunks : Nat
  chunknos : Nat → Nat

/-- The header of an extent. -/
structure CfsExtentHeader where
  nblocks : Nat
  allocatedChunks : Nat
  chunkSize : Nat
  algorithm : Nat
  /-- Whether the chunks lie in block order since the last recycling. -/
  recycleInOrder : Bool
  nFragmentChunks : Nat
  allocatedChunkUsages : Nat → Bool
  cfsExtentAddress : Nat → CfsExtentAddress

/-- What the relation says about its extents. -/
structure ExtentLocation where
  chunkSize : Nat
  algorithm : Nat

/-- The chunk sizes that a relation can have (`CHUNK_SIZE_LIST`). -/
def chunkSizeList : List Nat := [blckSz / 2, blckSz / 4, blckSz / 8, blckSz / 16]

/-- The numbers of the chunks that a block has. -/
def CfsExtentAddress.held (address : CfsExtentAddress) : List Nat :=
  (List.range address.allocatedChunks).map address.chunknos

/-- An address without chunks. -/
def zeroAddress : CfsExtentAddress where
  checksum := 0
  nchunks := 0
  allocatedChunks := 0
  chunknos := fun _ => 0

/-- The header of a new extent. -/
def initExtentHeader (location : ExtentLocation) : CfsExtentHeader where
  nblocks := 0
  allocatedChunks := 0
  chunkSize := location.chunkSize
  algorithm := location.algorithm
  recycleInOrder := false
  nFragmentChunks := 0
  allocatedChunkUsages := fun _ => false
  cfsExtentAddress := fun _ => zeroAddress

/-- The sum of 32-bit words, each given by its two halves; a last half stands alone. -/
def sumWords : List Nat → Nat
  | [] => 0
  | [low] => low
  | low :: high :: rest => low + 65536 * high + sumWords rest

/-- The checksum of an address: the sum of the words behind the checksum field, which hold the two
counts and the chunk numbers. -/
def addrChecksum32 (address : CfsExtentAddress) : Nat :=
  wrap32 (sumWords ((address.nchunks + 256 * address.allocatedChunks) :: address.held))

/-- Free chunks beside those of a block: the start of a run that takes in the block's own chunks
and the wanted number of others, first those before and then those behind. -/
def cfsFindAdjacentEmptyChunkNo (freeChunkMap : Nat → Bool)
    (targetLength frontPos rearPos maxPos : Nat) : Nat :=
  let frontCount := clearBefore freeChunkMap frontPos targetLength
  let rearCount := clearAfter freeChunkMap maxPos rearPos (targetLength - frontCount)
  if targetLength ≤ frontCount + rearCount then
    if 0 < frontCount then frontPos - frontCount else frontPos
  else invalidChunkNum

/-- The first run of free chunks of the wanted length. -/
def cfsFindEmptyChunkNo (freeChunkMap : Nat → Bool) (firstCheckPos maxPos targetLength : Nat) :
    Nat :=
  (firstClearRun freeChunkMap targetLength (maxPos + 1 - firstCheckPos) firstCheckPos 0).getD
    invalidChunkNum

/-- Give a block adjacent chunks from a number on, and mark them as used. -/
def cfsAllocateChunks (header : CfsExtentHeader) (address : CfsExtentAddress)
    (chunkno needChunks : Nat) : CfsExtentHeader × CfsExtentAddress :=
  ({ header with
      allocatedChunkUsages := writeRange header.allocatedChunkUsages chunkno needChunks true },
    { address with
      chunknos := fun index =>
        if index < needChunks then wrap16 (chunkno + index) else address.chunknos index })

/-- Keep the block where it is, at the end of the chunks given out, and let it grow there. -/
def extendDeltaChunksAtTail (header : CfsExtentHeader) (address : CfsExtentAddress)
    (blockAllocateChunks needChunks : Nat) : Option (CfsExtentHeader × CfsExtentAddress) :=
  let chunkno := address.chunknos 0
  if chunkno = invalidChunkNum then none
  else
    let placed := cfsAllocateChunks header address chunkno needChunks
    some
      ({ placed.1 with nFragmentChunks := sub16 placed.1.nFragmentChunks blockAllocateChunks },
        { placed.2 with allocatedChunks := needChunks })

/-- Place the block in free chunks from a number on, unless there are none. -/
def reuseChunksAt (header : CfsExtentHeader) (address : CfsExtentAddress)
    (chunkno needChunks : Nat) : Option (CfsExtentHeader × CfsExtentAddress) :=
  if chunkno = invalidChunkNum then none
  else
    let placed := cfsAllocateChunks header address chunkno needChunks
    some
      ({ placed.1 with nFragmentChunks := sub16 placed.1.nFragmentChunks needChunks },
        { placed.2 with allocatedChunks := needChunks })

/-- Place the block in its own chunks and free ones beside them. -/
def reuseAdjacentChunks (header : CfsExtentHeader) (address : CfsExtentAddress)
    (blockAllocateChunks needChunks allocateNumber : Nat) :
    Option (CfsExtentHeader × CfsExtentAddress) :=
  reuseChunksAt header address
    (cfsFindAdjacentEmptyChunkNo header.allocatedChunkUsages allocateNumber (address.chunknos 0)
      (address.chunknos (blockAllocateChunks - 1)) header.allocatedChunks)
    needChunks

/-- Place the block in the first free chunks. -/
def reuseChunksFromHead (header : CfsExtentHeader) (address : CfsExtentAddress)
    (needChunks : Nat) : Option (CfsExtentHeader × CfsExtentAddress) :=
  reuseChunksAt header address
    (cfsFindEmptyChunkNo header.allocatedChunkUsages chunkStartNum header.allocatedChunks
      needChunks)
    needChunks

/-- Place the block behind the chunks given out. -/
def extendNewChunksAtTail (header : CfsExtentHeader) (address : CfsExtentAddress)
    (needChunks : Nat) : CfsExtentHeader × CfsExtentAddress :=
  let chunkno := wrap32 (header.allocatedChunks + 1)
  let placed := cfsAllocateChunks
    { header with allocatedChunks := wrap32 (header.allocatedChunks + needChunks) } address chunkno
    needChunks
  (placed.1, { placed.2 with allocatedChunks := needChunks })

/-- The header after the chunks of a block are marked as free. -/
def releaseChunks (header : CfsExtentHeader) (address : CfsExtentAddress) : CfsExtentHeader :=
  { header with
    recycleInOrder := false
    allocatedChunkUsages := writeAll header.allocatedChunkUsages address.held false
    nFragmentChunks := wrap16 (header.nFragmentChunks + address.allocatedChunks) }

/-- Whether the chunks of a block are the last ones given out. -/
def isAtTail (header : CfsExtentHeader) (address : CfsExtentAddress) : Bool :=
  decide (0 < address.allocatedChunks) &&
    decide (header.allocatedChunks = address.chunknos (address.allocatedChunks - 1))

/-- Give a block more chunks where fragments are reused: grow at the tail, grow into free chunks
beside it, move to the first free run, or move behind the chunks given out. -/
def extendReusing (header : CfsExtentHeader) (address : CfsExtentAddress) (needChunks : Nat) :
    CfsExtentHeader × CfsExtentAddress :=
  let blockAllocateChunks := address.allocatedChunks
  let allocateNumber := needChunks - blockAllocateChunks
  let released := releaseChunks header address
  let cleared := { address with allocatedChunks := 0 }
  let atTail := isAtTail header address
  let grown := if atTail then
      { released with allocatedChunks := wrap32 (released.allocatedChunks + allocateNumber) }
    else released
  let delta := if atTail then
      extendDeltaChunksAtTail grown cleared blockAllocateChunks needChunks
    else none
  let adjacent := if 0 < blockAllocateChunks then
      reuseAdjacentChunks grown cleared blockAllocateChunks needChunks allocateNumber
    else none
  let fromHead := if needChunks ≤ grown.nFragmentChunks then
      reuseChunksFromHead grown cleared needChunks
    else none
  ((delta <|> adjacent) <|> fromHead).getD (extendNewChunksAtTail grown cleared needChunks)

/-- Give a block more chunks where fragments are not reused: those that follow the last one given
out. -/
def extendAppending (header : CfsExtentHeader) (address : CfsExtentAddress) (needChunks : Nat) :
    CfsExtentHeader × CfsExtentAddress :=
  let allocateNumber := needChunks - address.allocatedChunks
  let chunkno := wrap32 (header.allocatedChunks + 1)
  ({ header with
      recycleInOrder := false
      allocatedChunks := wrap32 (header.allocatedChunks + allocateNumber) },
    { address with
      chunknos := fun index =>
        if address.allocatedChunks ≤ index ∧ index < needChunks then
          wrap16 (chunkno + (index - address.allocatedChunks))
        else address.chunknos index
      allocatedChunks := needChunks })

/-- Make sure that a block has the chunks it needs and record how many its page uses. The verdict
says whether the header has changed. -/
def extendChunksOfBlockCore (enableTpcFragmentChunks : Bool) (header : CfsExtentHeader)
    (address : CfsExtentAddress) (needChunks actualUse : Nat) :
    Bool × CfsExtentHeader × CfsExtentAddress :=
  let short := decide (address.allocatedChunks < needChunks)
  let extended := if short then
      if enableTpcFragmentChunks then extendReusing header address needChunks
      else extendAppending header address needChunks
    else (header, address)
  let used := { extended.2 with nchunks := actualUse }
  let cksm := addrChecksum32 used
  (short || decide (extended.2.nchunks ≠ actualUse) || decide (extended.2.checksum ≠ cksm),
    extended.1, { used with checksum := cksm })

/-- The allocation that `CfsWritePage` makes for a block, with the number of blocks kept up to
date. Where fragments are reused, chunk numbers beyond the bitmap's padding change the address of
the first block instead; there the model stops. -/
def writeBlock (enableTpcFragmentChunks : Bool) (header : CfsExtentHeader)
    (block needChunks actualUse : Nat) : Option (Bool × CfsExtentHeader) :=
  let address := header.cfsExtentAddress block
  let extended := extendChunksOfBlockCore enableTpcFragmentChunks header address needChunks
    actualUse
  if enableTpcFragmentChunks = true ∧ address.allocatedChunks < needChunks ∧
      ∃ number ∈ extended.2.2.held, paddedUsageBits ≤ number then
    none
  else
    some
      (extended.1 || decide (header.nblocks < block + 1), { extended.2.1 with
          nblocks := max header.nblocks (block + 1)
          cfsExtentAddress := Function.update header.cfsExtentAddress block extended.2.2 })

/-- Truncate an extent to a number of blocks: the blocks behind keep their chunks and use none of
them. At the extent's first block the caller cuts the file instead, and segment pages are left. -/
def cfsMdTruncate (header : CfsExtentHeader) (isSegmentPage : Bool) (extentOffset : Nat) :
    CfsExtentHeader :=
  if extentOffset = 0 ∨ isSegmentPage = true then header
  else
    { header with
      nblocks := extentOffset
      cfsExtentAddress := fun block =>
        let address := header.cfsExtentAddress block
        if extentOffset ≤ block ∧ block < logicBlocksPerExtent then
          let unused := { address with nchunks := 0 }
          { unused with checksum := addrChecksum32 unused }
        else address }

/-- The highest chunk number of the first blocks. -/
def maxChunkOfBlocks (header : CfsExtentHeader) (blocks : Nat) : Nat :=
  ((List.range blocks).flatMap (fun block => (header.cfsExtentAddress block).held)).foldl max 0

/-- The correction of the highest chunk number in recovery. -/
def mdRecoveryPcaPage (header : CfsExtentHeader) : CfsExtentHeader :=
  { header with allocatedChunks := maxChunkOfBlocks header header.nblocks }

end OpenGauss.Cfs
