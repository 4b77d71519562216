import OpenGauss.Cfs.Extent
import OpenGauss.Base.Run

/-!
# Loading extent headers

The header of an extent is kept in a buffer and written through to its block on disk. When the
buffer has been given to another extent, the next use loads the header from disk: it checks and
repairs every address, recomputes the counters and, where fragments are reused, builds the usage
bitmap again. The module has the load and the runs of a header: evictions, loads, block writes,
truncations and recovery corrections in any order.
-/
namespace OpenGauss.Cfs

open OpenGauss.Base

/-- The state of the loop that checks the addresses of a loaded header. -/
structure AddressCheck where
  addresses : Nat → CfsExtentAddress
  globalChunknos : Nat → Nat
  maxBlocknum : Option Nat
  maxNonzeroBlocknum : Option Nat
  maxAllocatedChunkno : Nat

/-- The header with the chunk size and the algorithm of the relation. -/
def checkHeaderOfCompressAddr (header : CfsExtentHeader) (location : ExtentLocation)
    (zeroDamagedPages : Bool) : CfsExtentHeader :=
  if header.chunkSize ≠ location.chunkSize ∨ header.algorithm ≠ location.algorithm then
    if zeroDamagedPages then
      { header with
        nblocks := 0
        allocatedChunks := 0
        chunkSize := location.chunkSize
        algorithm := location.algorithm }
    else { header with chunkSize := location.chunkSize, algorithm := location.algorithm }
  else header

/-- An address whose checksum is wrong counts as empty. -/
def verifyChecksum (address : CfsExtentAddress) : CfsExtentAddress :=
  if address.checksum ≠ addrChecksum32 address then zeroAddress else address

/-- Whether an address has a chunk number that is out of range or belongs to an earlier block. -/
def hasInvalidChunk (check : AddressCheck) (chunkSize : Nat) (address : CfsExtentAddress) : Bool :=
  address.held.any fun number =>
    decide (number = 0) || decide (maxLogicChunksNumber chunkSize < number) ||
      decide (check.globalChunknos (number - 1) ≠ 0)

/-- The address with the numbers behind its chunks set to zero. -/
def clearBeyond (address : CfsExtentAddress) : CfsExtentAddress :=
  { address with
    chunknos := fun index =>
      if index < address.allocatedChunks then address.chunknos index else 0 }

/-- The check after the address of one block was zeroed. -/
def AddressCheck.zero (check : AddressCheck) (block : Nat) : AddressCheck :=
  { check with addresses := Function.update check.addresses block zeroAddress }

/-- The check after the address of one block was accepted. -/
def AddressCheck.accept (check : AddressCheck) (block : Nat) (address : CfsExtentAddress) :
    AddressCheck where
  addresses := Function.update check.addresses block address
  globalChunknos := fun index =>
    if index + 1 ∈ address.held then block + 1 else check.globalChunknos index
  maxBlocknum := some block
  maxNonzeroBlocknum := if 0 < address.nchunks then some block else check.maxNonzeroBlocknum
  maxAllocatedChunkno := address.held.foldl max check.maxAllocatedChunkno

/-- Zeroing changes one address. -/
@[simp]
theorem AddressCheck.zero_addresses (check : AddressCheck) (block : Nat) :
    (check.zero block).addresses = Function.update check.addresses block zeroAddress := rfl

/-- Accepting sets one address. -/
@[simp]
theorem AddressCheck.accept_addresses (check : AddressCheck) (block : Nat)
    (address : CfsExtentAddress) :
    (check.accept block address).addresses = Function.update check.addresses block address := rfl

/-- Check the address of one block. Damage is zeroed where `zero_damaged_pages` is set and ends
the load otherwise. -/
def checkAddress (chunkSize : Nat) (zeroDamagedPages : Bool) (check : AddressCheck)
    (block : Nat) : Option AddressCheck :=
  let verified := verifyChecksum (check.addresses block)
  if chunksPerBlock chunkSize < verified.allocatedChunks then
    if zeroDamagedPages then some (check.zero block) else none
  else if hasInvalidChunk check chunkSize verified = true ∧ zeroDamagedPages = false then none
  else
    let valid := if hasInvalidChunk check chunkSize verified then zeroAddress else verified
    let cleared := clearBeyond valid
    if cleared.allocatedChunks < cleared.nchunks then
      if zeroDamagedPages then some (check.zero block) else none
    else some (check.accept block cleared)

/-- The check before the first block. -/
def startCheck (header : CfsExtentHeader) : AddressCheck where
  addresses := header.cfsExtentAddress
  globalChunknos := fun _ => 0
  maxBlocknum := none
  maxNonzeroBlocknum := none
  maxAllocatedChunkno := 0

/-- The checks of the blocks, one after the other. -/
def checkAddresses (chunkSize : Nat) (zeroDamagedPages : Bool) (check : AddressCheck)
    (blocks : List Nat) : Option AddressCheck :=
  blocks.foldlM (checkAddress chunkSize zeroDamagedPages) check

/-- The number of blocks up to one, where there is one. -/
def blocksUpTo (block : Option Nat) : Nat :=
  match block with
  | none => 0
  | some block => block + 1

/-- The header that the checked addresses give. -/
def AddressCheck.repair (check : AddressCheck) (header : CfsExtentHeader) : CfsExtentHeader :=
  { header with
    nblocks := max header.nblocks (blocksUpTo check.maxNonzeroBlocknum)
    allocatedChunks := check.maxAllocatedChunkno
    cfsExtentAddress := fun block =>
      let address := check.addresses block
      if blocksUpTo check.maxBlocknum ≤ block ∧ block < logicBlocksPerExtent ∧
          ¬(address.allocatedChunks = 0 ∧ address.nchunks = 0) then
        zeroAddress
      else address }

/-- The check of a header that was read from disk, which repairs it or reports an error. -/
def checkAndRepairCompressAddress (header : CfsExtentHeader) (location : ExtentLocation)
    (zeroDamagedPages : Bool) : Option CfsExtentHeader :=
  let checked := checkHeaderOfCompressAddr header location zeroDamagedPages
  (checkAddresses location.chunkSize zeroDamagedPages (startCheck checked)
    (List.range logicBlocksPerExtent)).map fun check => check.repair checked

/-- The numbers of the chunks that the first blocks have. -/
def chunksOfBlocks (header : CfsExtentHeader) : List Nat :=
  (List.range header.nblocks).flatMap (fun block => (header.cfsExtentAddress block).held)

/-- Build the usage bitmap from the addresses of the relation's blocks. The bytes behind the
bitmap are not cleared. -/
def constructUsages (header : CfsExtentHeader) : CfsExtentHeader :=
  { header with
    allocatedChunkUsages :=
      writeAll (writeRange header.allocatedChunkUsages 0 usageBits false) (chunksOfBlocks header)
        true
    nFragmentChunks := sub16 (wrap16 header.allocatedChunks) (chunksOfBlocks header).length }

/-- Load a header from disk. -/
def pcaBufLoadPage (enableTpcFragmentChunks : Bool) (location : ExtentLocation)
    (zeroDamagedPages : Bool) (disk : CfsExtentHeader) : Option CfsExtentHeader :=
  (checkAndRepairCompressAddress disk location zeroDamagedPages).map fun header =>
    if enableTpcFragmentChunks then constructUsages header else header

/-- The header of an extent on disk and, where it is loaded, in its buffer. -/
structure ExtentState where
  disk : CfsExtentHeader
  page : Option CfsExtentHeader

/-- What can happen to a header. Each use has the `zero_damaged_pages` setting of its session. -/
inductive CfsEvent
  | evict
  | read (zeroDamagedPages : Bool)
  | write (zeroDamagedPages : Bool) (block needChunks actualUse : Nat) (isExtend : Bool)
  | truncate (zeroDamagedPages isSegmentPage : Bool) (extentOffset : Nat)
  | recover (zeroDamagedPages : Bool)

section Runs

variable (enableTpcFragmentChunks : Bool) (location : ExtentLocation)

/-- The header in the buffer, loaded if necessary. -/
def pcaBufReadPage (zeroDamagedPages : Bool) (state : ExtentState) : Option CfsExtentHeader :=
  match state.page with
  | some header => some header
  | none => pcaBufLoadPage enableTpcFragmentChunks location zeroDamagedPages state.disk

/-- The state after one event. An event whose load fails reports an error and changes nothing; no
state is left where the model of a write stops. -/
def cfsStep (state : Option ExtentState) (event : CfsEvent) : Option ExtentState :=
  state.bind fun state =>
    match event with
    | .evict => some { state with page := none }
    | .read zeroDamagedPages =>
      match pcaBufReadPage enableTpcFragmentChunks location zeroDamagedPages state with
      | none => some state
      | some header => some { state with page := some header }
    | .write zeroDamagedPages block needChunks actualUse isExtend =>
      match pcaBufReadPage enableTpcFragmentChunks location zeroDamagedPages state with
      | none => some state
      | some header =>
        (writeBlock enableTpcFragmentChunks header block needChunks actualUse).map fun written =>
          { disk := if written.1 || isExtend then written.2 else state.disk
            page := some written.2 }
    | .truncate zeroDamagedPages isSegmentPage extentOffset =>
      if extentOffset = 0 ∨ isSegmentPage = true then some state
      else
        match pcaBufReadPage enableTpcFragmentChunks location zeroDamagedPages state with
        | none => some state
        | some header =>
          let truncated := cfsMdTruncate header isSegmentPage extentOffset
          some { disk := truncated, page := some truncated }
    | .recover zeroDamagedPages =>
      match pcaBufReadPage enableTpcFragmentChunks location zeroDamagedPages state with
      | none => some state
      | some header =>
        let corrected := mdRecoveryPcaPage header
        some { disk := corrected, page := some corrected }

end Runs

/-- The state of a new extent. -/
def newExtent (location : ExtentLocation) : ExtentState where
  disk := initExtentHeader location
  page := some (initExtentHeader location)

end OpenGauss.Cfs
