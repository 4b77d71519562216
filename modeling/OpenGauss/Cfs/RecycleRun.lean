import OpenGauss.Cfs.Recycle

/-!
# Shrinking a compressed relation

`CfsRecycleChunkProc` goes through the segment files of a relation and the extents of each file.
For every extent it reads a header, and recycles the extent unless the header says that it is in
order. The location whose header it reads is that of the first extent, whatever extent it has come
to; only the file descriptor follows. So the first extent is recycled, and from then on its header
sends the procedure past all others. The module models the procedure with the header buffer and
proves when it leaves every extent in order with its pages as they were.
-/
namespace OpenGauss.Cfs

open Function List OpenGauss.Base

/-- The blocks of an extent (`CFS_EXTENT_SIZE`). -/
def extentSize : Nat := 128

/-- The extents of a segment file (`CFS_EXTENT_COUNT_PER_FILE`). -/
def extentCountPerFile : Nat := relSegSize / extentSize

/-- The segment files of a relation and the header buffer. -/
structure RelationState where
  headers : Nat → Nat → CfsExtentHeader
  files : Nat → Nat → UInt8
  buffer : Nat → Option CfsExtentHeader

/-- Where an extent is: its file, its number and the block of its header in the file. -/
structure ExtentPlace where
  fd : Nat
  extentNumber : Nat
  headerNum : Nat

/-- The block number of a header in the relation (`GetFileNodePcaBlkno`). -/
def ExtentPlace.fileNodePcaBlkno (place : ExtentPlace) : Nat :=
  let totalExBlks := place.extentNumber * extentSize
  totalExBlks - totalExBlks % relSegSize + place.headerNum

/-- The first block of an extent in its file. -/
def extentStartOf (extentNumber : Nat) : Nat := extentNumber % extentCountPerFile * extentSize

/-- The place of an extent. -/
def placeOf (extentNumber : Nat) : ExtentPlace where
  fd := extentNumber / extentCountPerFile
  extentNumber := extentNumber
  headerNum := extentStartOf extentNumber + logicBlocksPerExtent

section Procedure

variable (enableTpcFragmentChunks : Bool) (location : ExtentLocation) (zeroDamagedPages : Bool)

/-- Read a header through the buffer. -/
def readHeader (state : RelationState) (place : ExtentPlace) :
    Option (CfsExtentHeader × RelationState) :=
  match state.buffer place.fileNodePcaBlkno with
  | some header => some (header, state)
  | none =>
    (pcaBufLoadPage enableTpcFragmentChunks location zeroDamagedPages
      (state.headers place.fd place.headerNum)).map fun header =>
      (header, { state with
        buffer := update state.buffer place.fileNodePcaBlkno (some header) })

/-- Drop a header from the buffer. -/
def RelationState.drop (state : RelationState) (place : ExtentPlace) : RelationState :=
  { state with buffer := update state.buffer place.fileNodePcaBlkno none }

/-- Recycle an extent with a header that was read for a place: the extent lies in the place's file,
and its first block and its header's block follow from its number. -/
def cfsRecycleChunkInExt (state : RelationState) (place : ExtentPlace) (extentNumber : Nat)
    (srcExtPca : CfsExtentHeader) : RelationState :=
  if srcExtPca.recycleInOrder then state
  else
    let extentStart := extentStartOf extentNumber
    let headerNum := extentStart + logicBlocksPerExtent
    let recycled := recycleExtent extentStart srcExtPca (state.files place.fd)
    { state with
      headers := update state.headers place.fd
        (update (state.headers place.fd) headerNum recycled.2)
      files := update state.files place.fd recycled.1 }.drop place

/-- The location that the procedure works with: the first extent's, with the current file. -/
def procPlace (fd : Nat) : ExtentPlace where
  fd := fd
  extentNumber := 0
  headerNum := logicBlocksPerExtent

/-- One extent of the procedure. Between two extents the buffer may give the header away. -/
def procExtent (evicts : Nat → Bool) (fd : Nat) (state : RelationState) (extIdx : Nat) :
    Option RelationState :=
  let kept := if evicts extIdx then state.drop (procPlace fd) else state
  (readHeader enableTpcFragmentChunks location zeroDamagedPages kept (procPlace fd)).map
    fun read => cfsRecycleChunkInExt read.2 (procPlace fd) extIdx read.1

/-- The number of blocks of a file with some extents, by the header of the last one
(`CfsNBlock`). -/
def cfsNBlock (state : RelationState) (fd extentCount : Nat) : Option (Nat × RelationState) :=
  if extentCount = 0 then some (0, state)
  else
    let last := placeOf (extentCount - 1 + fd * extentCountPerFile)
    (readHeader enableTpcFragmentChunks location zeroDamagedPages state { last with fd := fd }).map
      fun read => ((extentCount - 1) * logicBlocksPerExtent + read.1.nblocks, read.2)

/-- One file of the procedure: its extents are numbered on from those of the files before. -/
def procFile (evicts : Nat → Bool) (extents : Nat) (progress : RelationState × Nat) (fd : Nat) :
    Option (RelationState × Nat) :=
  let extentCount := min extentCountPerFile (extents - fd * extentCountPerFile)
  (cfsNBlock enableTpcFragmentChunks location zeroDamagedPages progress.1 fd extentCount).bind
    fun counted =>
      let rounds := (counted.1 + logicBlocksPerExtent - 1) / logicBlocksPerExtent
      ((List.range' progress.2 rounds).foldlM
        (procExtent enableTpcFragmentChunks location zeroDamagedPages evicts fd) counted.2).map
        fun state => (state, progress.2 + rounds)

/-- Read a block of an extent through the buffer. -/
def readBlock (compression : PageCompression) (state : RelationState)
    (extentNumber block : Nat) : Option (List UInt8) :=
  (readHeader enableTpcFragmentChunks location zeroDamagedPages state
    (placeOf extentNumber)).bind fun read =>
      cfsReadPage compression location (extentStartOf extentNumber)
        { header := read.1, file := state.files (placeOf extentNumber).fd } block

end Procedure

/-- The header of an extent on disk. -/
def RelationState.diskHeader (state : RelationState) (extentNumber : Nat) : CfsExtentHeader :=
  state.headers (placeOf extentNumber).fd (placeOf extentNumber).headerNum

section Loading

variable (fragments : Bool) (location : ExtentLocation) (damaged : Bool)

/-- A loaded header compared with the one on disk. -/
structure LoadedAs (disk page : CfsExtentHeader) : Prop where
  nblocks : page.nblocks = disk.nblocks
  sized : page.chunkSize = disk.chunkSize
  coded : page.algorithm = disk.algorithm
  flag : page.recycleInOrder = disk.recycleInOrder
  addresses : ∀ block < logicBlocksPerExtent,
    page.cfsExtentAddress block = clearBeyond (disk.cfsExtentAddress block)

/-- The check of a sound header up to a block. -/
structure CleanCheck (header : CfsExtentHeader) (blocks : Nat) (check : AddressCheck) : Prop where
  behind : ∀ block < blocks, check.addresses block = clearBeyond (header.cfsExtentAddress block)
  ahead : ∀ block, blocks ≤ block → check.addresses block = header.cfsExtentAddress block
  owners : ∀ number, 1 ≤ number → check.globalChunknos (number - 1) ≠ 0 →
    ∃ block < blocks, number ∈ (header.cfsExtentAddress block).held
  last : blocksUpTo check.maxBlocknum = blocks
  nonzero : blocksUpTo check.maxNonzeroBlocknum ≤ header.nblocks

section

variable (header : CfsExtentHeader) (sound : Sound location header)
include header sound

/-- A sound block passes the check. -/
theorem CleanCheck.step {block : Nat}
    (inside : block < logicBlocksPerExtent) {check : AddressCheck}
    (clean : CleanCheck header block check) :
    ∃ after, checkAddress location.chunkSize damaged check block = some after ∧
      CleanCheck header (block + 1) after := by
  have verified : verifyChecksum (check.addresses block) = header.cfsExtentAddress block := by
    rw [clean.ahead block le_rfl, verifyChecksum]
    simp [sound.sums block inside]
  have valid : hasInvalidChunk check location.chunkSize (header.cfsExtentAddress block) =
      false := by
    rw [hasInvalidChunk, any_eq_false]
    intro number held
    have range := sound.valid block inside number held
    simp only [Bool.or_eq_true, decide_eq_true_eq, not_or]
    refine ⟨⟨by omega, by omega⟩, ?_⟩
    intro owned
    obtain ⟨other, before, elsewhere⟩ := clean.owners number range.1 owned
    exact sound.disjoint block inside other (by omega) (by omega) number held elsewhere
  have used := sound.used block inside
  refine ⟨check.accept block (clearBeyond (header.cfsExtentAddress block)), ?_, ?_⟩
  · simp only [checkAddress, verified, valid, Bool.false_eq_true, false_and, ↓reduceIte]
    rw [if_neg (Nat.not_lt.mpr (sound.few block inside)), if_neg]
    exact Nat.not_lt.mpr used
  · exact {
      behind := by
        intro other low
        by_cases same : other = block
        · rw [same, AddressCheck.accept_addresses, update_self]
        · rw [AddressCheck.accept_addresses, update_of_ne same]
          exact clean.behind other (by omega)
      ahead := by
        intro other later
        rw [AddressCheck.accept_addresses, update_of_ne (by omega)]
        exact clean.ahead other (by omega)
      owners := by
        intro number low owned
        simp only [AddressCheck.accept, Nat.sub_add_cancel low, clearBeyond_held] at owned
        by_cases held : number ∈ (header.cfsExtentAddress block).held
        · exact ⟨block, by omega, held⟩
        · rw [if_neg held] at owned
          obtain ⟨other, before, elsewhere⟩ := clean.owners number low owned
          exact ⟨other, by omega, elsewhere⟩
      last := rfl
      nonzero := by
        simp only [AddressCheck.accept]
        split
        · rename_i some
          have inRelation : ¬header.nblocks ≤ block := by
            intro beyond
            have none := sound.beyond block inside beyond
            have count : 0 < (header.cfsExtentAddress block).nchunks := some
            omega
          show block + 1 ≤ header.nblocks
          omega
        · exact clean.nonzero }

/-- All blocks of a sound header pass the check. -/
theorem CleanCheck.run
    (first count : Nat) (inside : first + count ≤ logicBlocksPerExtent) (check : AddressCheck)
    (clean : CleanCheck header first check) :
    ∃ after, checkAddresses location.chunkSize damaged check
        (List.range' first count) = some after ∧ CleanCheck header (first + count) after := by
  induction count generalizing first check with
  | zero => exact ⟨check, rfl, clean⟩
  | succ count ih =>
    obtain ⟨next, done, cleanNext⟩ := CleanCheck.step location damaged header sound (by omega) clean
    obtain ⟨after, rest, cleanAfter⟩ := ih (first + 1) (by omega) next cleanNext
    refine ⟨after, ?_, ?_⟩
    · rw [checkAddresses, range'_succ, foldlM_cons, done]
      exact rest
    · have total : first + 1 + count = first + (count + 1) := by omega
      rw [← total]
      exact cleanAfter

variable {header}

/-- A sound header is loaded. -/
theorem Sound.load :
    ∃ page, pcaBufLoadPage fragments location damaged header = some page ∧
      LoadedAs header page := by
  have unchanged : checkHeaderOfCompressAddr header location damaged = header := by
    rw [checkHeaderOfCompressAddr]
    simp [sound.sized, sound.coded]
  have begin : CleanCheck header 0 (startCheck header) := {
    behind := fun block low => absurd low (Nat.not_lt_zero block)
    ahead := fun _ _ => rfl
    owners := fun _ _ owned => absurd rfl owned
    last := rfl
    nonzero := Nat.zero_le _ }
  obtain ⟨check, done, clean⟩ := CleanCheck.run location damaged header sound 0
    logicBlocksPerExtent (by omega) (startCheck header) begin
  rw [Nat.zero_add] at clean
  have loaded : LoadedAs header (check.repair header) := {
    nblocks := Nat.max_eq_left clean.nonzero
    sized := rfl
    coded := rfl
    flag := rfl
    addresses := by
      intro block inside
      simp only [AddressCheck.repair]
      rw [clean.last, if_neg (by omega)]
      exact clean.behind block inside }
  rw [pcaBufLoadPage, checkAndRepairCompressAddress, unchanged, range_eq_range', done]
  cases fragments with
  | false => exact ⟨_, rfl, loaded⟩
  | true =>
    refine ⟨_, rfl, ?_⟩
    exact {
      nblocks := loaded.nblocks
      sized := rfl
      coded := rfl
      flag := rfl
      addresses := loaded.addresses }

end

theorem clearBeyond_used (address : CfsExtentAddress)
    (enough : address.nchunks ≤ address.allocatedChunks) :
    (clearBeyond address).used = address.used := by
  apply map_congr_left
  intro index member
  have inside : index < address.nchunks := mem_range.mp member
  simp only [clearBeyond]
  rw [if_pos (by omega)]

/-- A loaded header is sound. -/
theorem LoadedAs.sound (disk page : CfsExtentHeader) (sound : Sound location disk)
    (loaded : LoadedAs disk page) : Sound location page where
  sized := loaded.sized.trans sound.sized
  coded := loaded.coded.trans sound.coded
  begins := by
    rw [loaded.nblocks]
    exact sound.begins
  ends := by
    rw [loaded.nblocks]
    exact sound.ends
  sums := by
    intro block inside
    rw [loaded.addresses block inside, addrChecksum32, clearBeyond_held]
    exact sound.sums block inside
  few := by
    intro block inside
    rw [loaded.addresses block inside]
    exact sound.few block inside
  used := by
    intro block inside
    rw [loaded.addresses block inside]
    exact sound.used block inside
  valid := by
    intro block inside
    rw [loaded.addresses block inside, clearBeyond_held]
    exact sound.valid block inside
  disjoint := by
    intro first firstInside second secondInside
    rw [loaded.addresses first firstInside, loaded.addresses second secondInside,
      clearBeyond_held, clearBeyond_held]
    exact sound.disjoint first firstInside second secondInside
  beyond := by
    intro block inside
    rw [loaded.addresses block inside, loaded.nblocks]
    exact sound.beyond block inside

end Loading

theorem placeOf_fileNodePcaBlkno (extentNumber : Nat) :
    (placeOf extentNumber).fileNodePcaBlkno = extentNumber * 128 + 127 := by
  have perFile : extentCountPerFile = 1024 := rfl
  have seg : relSegSize = 131072 := rfl
  have size : extentSize = 128 := rfl
  have blocks : logicBlocksPerExtent = 127 := rfl
  simp only [ExtentPlace.fileNodePcaBlkno, placeOf, extentStartOf]
  lia

theorem procPlace_fileNodePcaBlkno (fd : Nat) :
    (procPlace fd).fileNodePcaBlkno = (placeOf 0).fileNodePcaBlkno := by
  rfl

/-- The first extent of an extent's file. -/
def fileHead (extent : Nat) : Nat := extent / extentCountPerFile * extentCountPerFile

theorem diskHeader_fileHead (state : RelationState) (extent : Nat) :
    state.diskHeader (fileHead extent) =
      state.headers (extent / extentCountPerFile) logicBlocksPerExtent := by
  have perFile : extentCountPerFile = 1024 := rfl
  have file : fileHead extent / extentCountPerFile = extent / extentCountPerFile := by
    rw [fileHead, Nat.mul_div_cancel _ (by decide)]
  have first : fileHead extent % extentCountPerFile = 0 := Nat.mul_mod_left _ _
  rw [RelationState.diskHeader, placeOf]
  simp only [file, extentStartOf, first, Nat.zero_mul, Nat.zero_add]

section Progress

variable (fragments : Bool) (location : ExtentLocation) (damaged : Bool)

/-- A relation between operations: the headers are sound, and those in the buffer were loaded from
disk. -/
structure WellKept (extents : Nat) (state : RelationState) : Prop where
  sound : ∀ extent < extents, Sound location (state.diskHeader extent)
  coherent : ∀ extent < extents, ∀ header,
    state.buffer (placeOf extent).fileNodePcaBlkno = some header →
      pcaBufLoadPage fragments location damaged
        (state.diskHeader extent) = some header

/-- A relation during the procedure: the buffer may have lent the first extent another header. -/
structure KeptLent (lent : CfsExtentHeader → Prop) (extents : Nat) (state : RelationState) :
    Prop where
  sound : ∀ extent < extents, Sound location (state.diskHeader extent)
  coherent : ∀ extent < extents, ∀ header,
    state.buffer (placeOf extent).fileNodePcaBlkno = some header →
      pcaBufLoadPage fragments location damaged
        (state.diskHeader extent) = some header ∨ extent = 0 ∧ lent header

/-- What reading a header through the buffer gives. -/
structure HeaderRead (lent : CfsExtentHeader → Prop) (extents : Nat) (state : RelationState)
    (place : ExtentPlace) (extent : Nat) (page : CfsExtentHeader) (after : RelationState) :
    Prop where
  own : pcaBufLoadPage fragments location damaged
    (state.diskHeader extent) = some page ∨ extent = 0 ∧ lent page
  fresh : state.buffer (placeOf extent).fileNodePcaBlkno = none →
    pcaBufLoadPage fragments location damaged
      (state.headers place.fd place.headerNum) = some page
  headers : after.headers = state.headers
  files : after.files = state.files
  kept : KeptLent fragments location damaged lent extents after
  buffered : after.buffer (placeOf extent).fileNodePcaBlkno = some page
  others : ∀ other header, state.buffer other = some header → after.buffer other = some header
  elsewhere : ∀ other, other ≠ (placeOf extent).fileNodePcaBlkno →
    after.buffer other = state.buffer other

variable {fragments location damaged}
  {lent : CfsExtentHeader → Prop} {extents : Nat} {state : RelationState}

theorem Sound.loadedAs {header page : CfsExtentHeader} (sound : Sound location header)
    (loads : pcaBufLoadPage fragments location damaged header = some page) :
    LoadedAs header page := by
  obtain ⟨same, loadsSame, loaded⟩ := Sound.load fragments location damaged sound
  rw [loads, Option.some.injEq] at loadsSame
  rw [loadsSame]
  exact loaded

theorem HeaderRead.ofFirst {place : ExtentPlace} {page : CfsExtentHeader} {after : RelationState}
    (result : HeaderRead fragments location damaged lent extents state place 0 page after)
    (own : ∀ header, state.buffer (placeOf 0).fileNodePcaBlkno = some header →
      pcaBufLoadPage fragments location damaged
        (state.diskHeader 0) = some header)
    (disk : state.headers place.fd place.headerNum = state.diskHeader 0) :
    pcaBufLoadPage fragments location damaged (state.diskHeader 0) = some page := by
  cases present : state.buffer (placeOf 0).fileNodePcaBlkno with
  | some header =>
    have same := result.others _ header present
    rw [result.buffered] at same
    rw [same]
    exact own header present
  | none =>
    rw [← disk]
    exact result.fresh present

theorem WellKept.toKept
    (kept : WellKept fragments location damaged extents state) (lent : CfsExtentHeader → Prop) :
    KeptLent fragments location damaged lent extents state :=
  ⟨kept.sound, fun extent inside header present =>
    .inl (kept.coherent extent inside header present)⟩

/-- A header that is kept or lent is read as the one meant. -/
theorem KeptLent.reads (kept : KeptLent fragments location damaged lent extents state)
    {extent : Nat} (inside : extent < extents) {place : ExtentPlace}
    (key : place.fileNodePcaBlkno = (placeOf extent).fileNodePcaBlkno)
    (sound : Sound location (state.headers place.fd place.headerNum))
    (found : state.buffer (placeOf extent).fileNodePcaBlkno = none →
      state.headers place.fd place.headerNum = state.diskHeader extent ∨
        extent = 0 ∧ ∀ page, pcaBufLoadPage fragments location damaged
          (state.headers place.fd place.headerNum) = some page → lent page) :
    ∃ page after, readHeader fragments location damaged state place = some (page, after) ∧
      HeaderRead fragments location damaged lent extents state place extent
        page after := by
  rw [readHeader, key]
  cases buffered : state.buffer (placeOf extent).fileNodePcaBlkno with
  | some page =>
    refine ⟨page, state, rfl, kept.coherent extent inside page buffered, ?_, rfl, rfl, kept,
      buffered, fun _ _ present => present, fun _ _ => rfl⟩
    intro absent
    cases buffered.symm.trans absent
  | none =>
    obtain ⟨page, loads, _⟩ := Sound.load fragments location damaged sound
    have own : pcaBufLoadPage fragments location damaged
        (state.diskHeader extent) = some page ∨ extent = 0 ∧ lent page := by
      obtain same | ⟨first, lends⟩ := found buffered
      · rw [← same]
        exact .inl loads
      · exact .inr ⟨first, lends page loads⟩
    simp only [loads]
    refine ⟨page, _, rfl, own, fun _ => loads, rfl, rfl, ⟨kept.sound, ?_⟩,
      update_self _ _ _, ?_, fun _ other => update_of_ne other _ _⟩
    · intro other low header present
      dsimp only at present
      by_cases same : other = extent
      · rw [same, update_self, Option.some.injEq] at present
        rw [same, ← present]
        exact own
      · rw [update_of_ne] at present
        · exact kept.coherent other low header present
        · rw [placeOf_fileNodePcaBlkno, placeOf_fileNodePcaBlkno]
          lia
    · intro other header present
      dsimp only
      rw [update_of_ne]
      · exact present
      · rintro rfl
        rw [buffered] at present
        cases present

theorem KeptLent.readsOwn
    (kept : KeptLent fragments location damaged lent extents state)
    (extent : Nat) (inside : extent < extents) :
    ∃ page after, readHeader fragments location damaged state
        (placeOf extent) = some (page, after) ∧
      HeaderRead fragments location damaged lent extents state
        (placeOf extent) extent page after :=
  kept.reads inside rfl (kept.sound extent inside) (fun _ => .inl rfl)

theorem KeptLent.drop (kept : KeptLent fragments location damaged lent extents state)
    (place : ExtentPlace) :
    KeptLent fragments location damaged lent extents (state.drop place) where
  sound := kept.sound
  coherent := by
    intro extent inside header present
    simp only [RelationState.drop] at present
    by_cases same : (placeOf extent).fileNodePcaBlkno = place.fileNodePcaBlkno
    · rw [same, update_self] at present
      cases present
    · rw [update_of_ne same] at present
      exact kept.coherent extent inside header present

variable (location)

/-- What has become of the first extent: nothing if it was marked as in order, and its sorted copy
otherwise. -/
def FirstDone (start state : RelationState) : Prop :=
  if (start.diskHeader 0).recycleInOrder then
    state.diskHeader 0 = start.diskHeader 0 ∧ state.files 0 = start.files 0
  else
    Recycled location 0 (start.diskHeader 0) (state.diskHeader 0) (start.files 0) (state.files 0)

variable {location}

theorem FirstDone.flag (start state : RelationState) (done : FirstDone location start state) :
    (state.diskHeader 0).recycleInOrder = true := by
  rw [FirstDone] at done
  split at done
  · rename_i flagged
    rw [done.1]
    exact flagged
  · exact done.flag

variable (fragments location damaged)

/-- The relation after some extents. -/
structure Progress (lent : CfsExtentHeader → Prop) (extents : Nat) (start : RelationState)
    (count : Nat) (state : RelationState) : Prop where
  kept : KeptLent fragments location damaged lent extents state
  others : ∀ extent, 1 ≤ extent → extent < extents →
    state.diskHeader extent = start.diskHeader extent
  frame : ∀ fd position, fd ≠ 0 ∨ logicBlocksPerExtent * blckSz ≤ position →
    state.files fd position = start.files fd position
  before : count = 0 → state.diskHeader 0 = start.diskHeader 0 ∧ state.files 0 = start.files 0 ∧
    (0 < extents → ∀ header, state.buffer (placeOf 0).fileNodePcaBlkno = some header →
      pcaBufLoadPage fragments location damaged
        (state.diskHeader 0) = some header)
  done : 0 < count → FirstDone location start state

/-- What the buffer has for the first extent: behind the last header that it gave away in a later
file, the header of that file's first extent. -/
structure Buffered (evicts : Nat → Bool) (start : RelationState) (count : Nat)
    (state : RelationState) : Prop where
  loaded : 2 ≤ count → state.buffer (placeOf 0).fileNodePcaBlkno ≠ none
  recent : ∀ extent, extentCountPerFile ≤ extent → extent < count → evicts extent = true →
    (∀ later, extent < later → later < count → evicts later = false) →
      ∃ header, state.buffer (placeOf 0).fileNodePcaBlkno = some header ∧
        pcaBufLoadPage fragments location damaged
          (start.diskHeader (fileHead extent)) = some header

/-- Where the buffer gives the first extent's header away in a later file, the header that takes its
place is one that may be lent. -/
def Lends (lent : CfsExtentHeader → Prop) (evicts : Nat → Bool) (extents : Nat)
    (start : RelationState) : Prop :=
  (∀ page, lent page → page.recycleInOrder = true) ∧
    ∀ extent, extentCountPerFile ≤ extent → extent < extents → evicts extent = true →
      ∀ page, pcaBufLoadPage fragments location damaged
        (start.diskHeader (fileHead extent)) = some page → lent page

variable {fragments location damaged} {start after : RelationState}
  {count : Nat} {evicts : Nat → Bool}

/-- Progress depends on the headers, the files and the buffer only. -/
theorem Progress.congr
    (progress : Progress fragments location damaged lent extents start count
      state) (headers : after.headers = state.headers) (files : after.files = state.files)
    (kept : KeptLent fragments location damaged lent extents after)
    (own : count = 0 → 0 < extents → ∀ header,
      after.buffer (placeOf 0).fileNodePcaBlkno = some header →
        pcaBufLoadPage fragments location damaged (state.diskHeader 0) = some header) :
    Progress fragments location damaged lent extents start count after := by
  have disk (extent : Nat) : after.diskHeader extent = state.diskHeader extent := by
    rw [RelationState.diskHeader, headers]
    rfl
  exact {
    kept := kept
    others := fun extent low high => (disk extent).trans (progress.others extent low high)
    frame := by
      rw [files]
      exact progress.frame
    before := by
      intro none
      rw [files, disk]
      exact ⟨(progress.before none).1, (progress.before none).2.1, own none⟩
    done := by
      rw [FirstDone, files, disk]
      exact progress.done }

/-- What is recycled from a loaded header is so from the one on disk. -/
theorem Recycled.ofLoaded (extentStart : Nat) (disk page after : CfsExtentHeader)
    (fileBefore fileAfter : Nat → UInt8) (sound : Sound location disk) (loaded : LoadedAs disk page)
    (recycled : Recycled location extentStart page after fileBefore fileAfter) :
    Recycled location extentStart disk after fileBefore fileAfter :=
  { recycled with
    counts := by
      intro block inside
      rw [recycled.counts block inside, loaded.addresses block inside]
      rfl
    used := by
      intro block inside
      have counts (before : Nat) (low : before ≤ block) :
          (page.cfsExtentAddress before).nchunks = (disk.cfsExtentAddress before).nchunks := by
        rw [loaded.addresses before (by omega)]
        rfl
      rw [recycled.used block inside, orderedUsed, counts block le_rfl]
      congr 3
      apply map_congr_left
      intro before low
      exact counts before (mem_range.mp low).le
    bytes := by
      intro block inside
      rw [recycled.bytes block inside, loaded.addresses block inside,
        clearBeyond_used _ (sound.used block inside)] }

theorem placeOf_ne_zero {extent : Nat} (low : 1 ≤ extent) :
    (placeOf extent).fd ≠ 0 ∨ (placeOf extent).headerNum ≠ (placeOf 0).headerNum := by
  have perFile : extentCountPerFile = 1024 := rfl
  have size : extentSize = 128 := rfl
  simp only [placeOf, extentStartOf]
  lia

section

variable (listed : location.chunkSize ∈ chunkSizeList)
include listed

/-- The first extent is recycled. -/
theorem Progress.recycle (page : CfsExtentHeader) (inside : 0 < extents)
    (progress : Progress fragments location damaged lent extents start 0 state)
    (loaded : LoadedAs (state.diskHeader 0) page) (order : page.recycleInOrder = false) :
    Progress fragments location damaged lent extents start 1
      (cfsRecycleChunkInExt state (procPlace 0) 0 page) := by
  obtain ⟨sameHeader, sameFile, _⟩ := progress.before rfl
  have sound := progress.kept.sound 0 inside
  have recycled := recycleExtent_recycled location listed 0 (by decide)
    (loaded.sound location _ _ sound) (state.files 0)
  have fromDisk := recycled.ofLoaded 0 (state.diskHeader 0) page _ _ _ sound loaded
  obtain ⟨after, value⟩ : ∃ after, after = cfsRecycleChunkInExt state (procPlace 0) 0 page :=
    ⟨_, rfl⟩
  have computed : after = ({ state with
      headers := update state.headers 0 (update (state.headers 0)
        (placeOf 0).headerNum (recycleExtent 0 page (state.files 0)).2)
      files := update state.files 0 (recycleExtent 0 page (state.files 0)).1 } :
      RelationState).drop (placeOf 0) := by
    rw [value, cfsRecycleChunkInExt, if_neg (by simp [order])]
    rfl
  rw [← value]
  have first : after.diskHeader 0 = (recycleExtent 0 page (state.files 0)).2 := by
    rw [computed]
    show update state.headers 0 (update (state.headers 0)
      (placeOf 0).headerNum (recycleExtent 0 page (state.files 0)).2) 0 (placeOf 0).headerNum = _
    rw [update_self, update_self]
  have file : after.files 0 = (recycleExtent 0 page (state.files 0)).1 := by
    rw [computed]
    show update state.files 0 (recycleExtent 0 page (state.files 0)).1 0 = _
    rw [update_self]
  have rest (extent : Nat) (low : 1 ≤ extent) :
      after.diskHeader extent = state.diskHeader extent := by
    rw [computed]
    show update state.headers 0 (update (state.headers 0)
      (placeOf 0).headerNum (recycleExtent 0 page (state.files 0)).2) (placeOf extent).fd
        (placeOf extent).headerNum = state.headers (placeOf extent).fd (placeOf extent).headerNum
    by_cases sameFd : (placeOf extent).fd = 0
    · obtain otherFd | otherBlock := placeOf_ne_zero low
      · exact absurd sameFd otherFd
      · rw [sameFd, update_self, update_of_ne otherBlock]
    · rw [update_of_ne sameFd]
  have buffer (extent : Nat) (header : CfsExtentHeader)
      (present : after.buffer (placeOf extent).fileNodePcaBlkno = some header) :
      1 ≤ extent ∧ state.buffer (placeOf extent).fileNodePcaBlkno = some header := by
    rw [computed] at present
    simp only [RelationState.drop] at present
    by_cases zero : extent = 0
    · rw [zero] at present
      cases present
    · rw [update_of_ne] at present
      · exact ⟨Nat.pos_of_ne_zero zero, present⟩
      · rw [placeOf_fileNodePcaBlkno, placeOf_fileNodePcaBlkno]
        lia
  exact {
    kept := {
      sound := by
        intro extent low
        by_cases zero : extent = 0
        · rw [zero, first]
          exact recycled.sound
        · rw [rest extent (Nat.pos_of_ne_zero zero)]
          exact progress.kept.sound extent low
      coherent := by
        intro extent low header present
        obtain ⟨positive, same⟩ := buffer extent header present
        rw [rest extent positive]
        exact progress.kept.coherent extent low header same }
    others := fun extent low high => (rest extent low).trans (progress.others extent low high)
    frame := by
      intro fd position outside
      by_cases zero : fd = 0
      · obtain other | behind := outside
        · exact absurd zero other
        · rw [zero, file, recycled.frame position
            (.inr (by rw [Nat.zero_add]; exact behind)), sameFile]
      · rw [← progress.frame fd position outside, computed]
        show update state.files 0 _ fd position = _
        rw [update_of_ne zero]
    before := fun none => absurd none (by decide)
    done := by
      intro _
      have unordered : ¬(start.diskHeader 0).recycleInOrder = true := by
        rw [← sameHeader, ← loaded.flag, order]
        exact Bool.false_ne_true
      rw [FirstDone, if_neg unordered, first, file, ← sameHeader, ← sameFile]
      exact fromDisk }

/-- One more extent is visited. -/
theorem Progress.step (fd : Nat) (lends : Lends fragments location damaged
      lent evicts extents start) (inside : count < extents)
    (file : fd = count / extentCountPerFile)
    (progress : Progress fragments location damaged lent extents start count state)
    (buffered : Buffered fragments location damaged evicts start count state) :
    ∃ after, procExtent fragments location damaged evicts fd state count = some after ∧
      Progress fragments location damaged lent extents start (count + 1)
        after ∧
      Buffered fragments location damaged evicts start (count + 1) after := by
  have perFile : extentCountPerFile = 1024 := rfl
  have place : (procPlace fd).fileNodePcaBlkno = (placeOf 0).fileNodePcaBlkno :=
    procPlace_fileNodePcaBlkno fd
  have dropped : (state.drop (procPlace fd)).buffer (placeOf 0).fileNodePcaBlkno = none := by
    rw [← place]
    simp [RelationState.drop]
  obtain ⟨kept, value⟩ : ∃ kept, kept = if evicts count = true then state.drop (procPlace fd)
      else state := ⟨_, rfl⟩
  have headers : kept.headers = state.headers := by
    rw [value]
    split <;> rfl
  have files : kept.files = state.files := by
    rw [value]
    split <;> rfl
  have wellKept : KeptLent fragments location damaged lent extents kept := by
    rw [value]
    split
    · exact progress.kept.drop _
    · exact progress.kept
  have stays (header : CfsExtentHeader)
      (present : kept.buffer (placeOf 0).fileNodePcaBlkno = some header) :
      state.buffer (placeOf 0).fileNodePcaBlkno = some header := by
    rw [value] at present
    split at present
    · cases dropped.symm.trans present
    · exact present
  have head : fileHead count < extents := by
    rw [fileHead]
    lia
  have disk : kept.headers (procPlace fd).fd (procPlace fd).headerNum =
      state.diskHeader (fileHead count) := by
    rw [headers, diskHeader_fileHead, file]
    rfl
  have later (far : fd ≠ 0) : extentCountPerFile ≤ count ∧
      state.diskHeader (fileHead count) = start.diskHeader (fileHead count) := by
    refine ⟨by lia, progress.others _ ?_ head⟩
    rw [fileHead]
    lia
  obtain ⟨page, after, read, result⟩ := wellKept.reads (by omega) place
    (by rw [disk]; exact progress.kept.sound _ head) (by
      intro absent
      by_cases zero : fd = 0
      · subst zero
        exact .inl rfl
      · obtain ⟨far, same⟩ := later zero
        have evicted : evicts count = true := by
          by_contra stayed
          rw [value, if_neg stayed] at absent
          exact buffered.loaded (by lia) absent
        refine .inr ⟨rfl, fun page loads => ?_⟩
        rw [disk, same] at loads
        exact lends.2 count far inside evicted page loads)
  have done : procExtent fragments location damaged evicts fd state
      count = some (cfsRecycleChunkInExt after (procPlace fd) count page) := by
    rw [procExtent, ← value, read, Option.map_some]
  refine ⟨_, done, ?_⟩
  have diskAfter (extent : Nat) : after.diskHeader extent = state.diskHeader extent := by
    rw [RelationState.diskHeader, result.headers, headers]
    rfl
  by_cases begin : count = 0
  · subst begin
    have zero : fd = 0 := by rw [file, Nat.zero_div]
    subst zero
    have keptDisk : kept.diskHeader 0 = state.diskHeader 0 := by
      rw [RelationState.diskHeader, headers]
      rfl
    have loads := result.ofFirst
      (fun header present => by
        rw [keptDisk]
        exact (progress.before rfl).2.2 inside header (stays header present)) rfl
    rw [keptDisk] at loads
    have loaded := (progress.kept.sound 0 inside).loadedAs loads
    have unread := progress.congr (result.headers.trans headers) (result.files.trans files)
      result.kept (by
        intro _ _ header present
        rw [result.buffered] at present
        rw [← present]
        exact loads)
    refine ⟨?_, ⟨fun two => absurd two (by decide), fun extent low high => by lia⟩⟩
    cases order : page.recycleInOrder with
    | false =>
      apply Progress.recycle listed page inside unread _ order
      rw [diskAfter]
      exact loaded
    | true =>
      rw [cfsRecycleChunkInExt, if_pos order]
      obtain ⟨sameHeader, sameFile, _⟩ := unread.before rfl
      exact { unread with
        before := fun none => absurd none (by decide)
        done := by
          intro _
          have flagged : (start.diskHeader 0).recycleInOrder = true := by
            rw [← sameHeader, diskAfter, ← loaded.flag]
            exact order
          rw [FirstDone, if_pos flagged]
          exact ⟨sameHeader, sameFile⟩ }
  · have unread := progress.congr (result.headers.trans headers) (result.files.trans files)
      result.kept (fun none => absurd none begin)
    have first := unread.done (Nat.pos_of_ne_zero begin)
    have order : page.recycleInOrder = true := by
      obtain loads | ⟨_, loaned⟩ := result.own
      · rw [RelationState.diskHeader, headers] at loads
        rw [((progress.kept.sound 0 (by omega)).loadedAs loads).flag]
        have flagged := first.flag
        rw [diskAfter] at flagged
        exact flagged
      · exact lends.1 page loaned
    rw [cfsRecycleChunkInExt, if_pos order]
    refine ⟨⟨unread.kept, unread.others, unread.frame, fun none => absurd none (Nat.succ_ne_zero _),
      fun _ => first⟩, ⟨?_, ?_⟩⟩
    · intro _
      rw [result.buffered]
      exact Option.some_ne_none page
    · intro extent low high evicted rest
      by_cases here : extent = count
      · subst here
        refine ⟨page, result.buffered, ?_⟩
        have far : fd ≠ 0 := by lia
        rw [← (later far).2, ← disk]
        apply result.fresh
        rw [value, if_pos evicted, dropped]
      · obtain ⟨header, present, loads⟩ := buffered.recent extent low (by omega) evicted
          (fun other behind before => rest other behind (by omega))
        refine ⟨header, result.others _ _ ?_, loads⟩
        rw [value, rest count (by omega) (by omega)]
        exact present

/-- Some extents of a file are visited. -/
theorem Progress.run (lends : Lends fragments location damaged lent
      evicts extents start) (first count fd : Nat) (inside : first + count ≤ extents)
    (file : ∀ extent, first ≤ extent → extent < first + count → fd = extent / extentCountPerFile)
    (progress : Progress fragments location damaged lent extents start first state)
    (buffered : Buffered fragments location damaged evicts start first
      state) : ∃ after, (List.range' first count).foldlM
        (procExtent fragments location damaged evicts fd) state =
        some after ∧
      Progress fragments location damaged lent extents start (first + count)
        after ∧
      Buffered fragments location damaged evicts start (first + count)
        after := by
  induction count generalizing first state with
  | zero => exact ⟨state, rfl, progress, buffered⟩
  | succ count ih =>
    obtain ⟨next, done, progressNext, bufferedNext⟩ := progress.step listed fd lends (by omega)
      (file first le_rfl (by omega)) buffered
    obtain ⟨after, rest, behind⟩ := ih (first + 1) (by omega)
      (fun extent low high => file extent (by omega) (by omega)) progressNext bufferedNext
    refine ⟨after, ?_, ?_⟩
    · rw [range'_succ, foldlM_cons, done]
      exact rest
    · have sum : first + 1 + count = first + (count + 1) := by omega
      rw [← sum]
      exact behind

end

theorem rounds_eq {extentCount nblocks : Nat} (some : 0 < extentCount) (begins : 1 ≤ nblocks)
    (ends : nblocks ≤ logicBlocksPerExtent) :
    ((extentCount - 1) * logicBlocksPerExtent + nblocks + logicBlocksPerExtent - 1) /
      logicBlocksPerExtent = extentCount := by
  have blocks : logicBlocksPerExtent = 127 := rfl
  rewrite [blocks] at ends
  rewrite [blocks]
  lia

/-- All extents of a file are visited. -/
theorem Progress.file (listed : location.chunkSize ∈ chunkSizeList) {fd : Nat}
    (lends : Lends fragments location damaged lent evicts extents start)
    (progress : Progress fragments location damaged lent extents start
      (min extents (fd * extentCountPerFile)) state)
    (buffered : Buffered fragments location damaged evicts start
      (min extents (fd * extentCountPerFile)) state) :
    ∃ after, procFile fragments location damaged evicts extents
        (state, min extents (fd * extentCountPerFile)) fd =
        some (after, min extents ((fd + 1) * extentCountPerFile)) ∧
      Progress fragments location damaged lent extents start
        (min extents ((fd + 1) * extentCountPerFile)) after ∧
      Buffered fragments location damaged evicts start
        (min extents ((fd + 1) * extentCountPerFile)) after := by
  have perFile : extentCountPerFile = 1024 := rfl
  by_cases none : extents ≤ fd * extentCountPerFile
  · have zero : min extentCountPerFile (extents - fd * extentCountPerFile) = 0 := by omega
    have here : min extents (fd * extentCountPerFile) = extents := by lia
    have there : min extents ((fd + 1) * extentCountPerFile) = extents := by
      rw [Nat.succ_mul]
      lia
    have idle : (0 + logicBlocksPerExtent - 1) / logicBlocksPerExtent = 0 := by decide
    rw [here] at progress buffered ⊢
    rw [there]
    refine ⟨state, ?_, progress, buffered⟩
    simp only [procFile, zero, cfsNBlock, ↓reduceIte, Option.bind_some]
    rfl
  · have here : min extents (fd * extentCountPerFile) = fd * extentCountPerFile := by grind
    obtain ⟨extentCount, counted⟩ : ∃ extentCount,
        extentCount = min extentCountPerFile (extents - fd * extentCountPerFile) := ⟨_, rfl⟩
    have there : min extents ((fd + 1) * extentCountPerFile) =
        fd * extentCountPerFile + extentCount := by
      rw [Nat.succ_mul]
      lia
    rw [here] at progress buffered ⊢
    rw [there]
    obtain ⟨last, isLast⟩ : ∃ last, last = extentCount - 1 + fd * extentCountPerFile := ⟨_, rfl⟩
    have lastFile : (placeOf last).fd = fd := by
      show last / extentCountPerFile = fd
      rewrite [perFile] at isLast counted
      rewrite [perFile]
      lia
    have same : (⟨fd, (placeOf last).extentNumber, (placeOf last).headerNum⟩ : ExtentPlace) =
        placeOf last := by
      rw [← lastFile]
    obtain ⟨page, counts, read, result⟩ := progress.kept.readsOwn last (by omega)
    have sound := progress.kept.sound last (by omega)
    have loads : pcaBufLoadPage fragments location damaged
        (state.diskHeader last) = some page := by
      by_cases zero : last = 0
      · rw [zero] at result ⊢
        exact result.ofFirst ((progress.before (by omega)).2.2 (by omega)) rfl
      · exact result.own.resolve_right (fun lends => zero lends.1)
    have loaded := sound.loadedAs loads
    have rounds : ((extentCount - 1) * logicBlocksPerExtent + page.nblocks +
        logicBlocksPerExtent - 1) / logicBlocksPerExtent = extentCount := by
      apply rounds_eq (by lia)
      · rw [loaded.nblocks]
        exact sound.begins
      · rw [loaded.nblocks]
        exact sound.ends
    have counting := progress.congr result.headers result.files result.kept (by
      intro begin some header present
      by_cases zero : last = 0
      · subst zero
        rw [result.buffered] at present
        rw [← present]
        exact loads
      · rw [result.elsewhere] at present
        · exact (progress.before begin).2.2 some header present
        · rw [placeOf_fileNodePcaBlkno, placeOf_fileNodePcaBlkno]
          omega)
    have still : Buffered fragments location damaged evicts start
        (fd * extentCountPerFile) counts := by
      refine ⟨?_, ?_⟩
      · intro two absent
        obtain ⟨header, present⟩ := Option.ne_none_iff_exists'.mp (buffered.loaded two)
        rw [result.others _ header present] at absent
        cases absent
      · intro extent low high evicted rest
        obtain ⟨header, present, source⟩ := buffered.recent extent low high evicted rest
        exact ⟨header, result.others _ header present, source⟩
    obtain ⟨after, done, behind⟩ := counting.run listed lends (fd * extentCountPerFile)
      extentCount fd (by omega) (by
        intro extent low high
        rw [perFile] at low high counted ⊢
        lia) still
    refine ⟨after, ?_, behind⟩
    have number : cfsNBlock fragments location damaged state fd
        extentCount = some ((extentCount - 1) * logicBlocksPerExtent + page.nblocks, counts) := by
      rw [cfsNBlock, if_neg (by lia)]
      dsimp only
      rw [← isLast, same, read]
      rfl
    rw [procFile]
    dsimp only
    rw [← counted, number, Option.bind_some]
    dsimp only
    rw [rounds, done]
    rfl

/-- The extents of all files are visited. -/
theorem Progress.files (listed : location.chunkSize ∈ chunkSizeList)
    (lends : Lends fragments location damaged lent evicts extents start)
    (kept : WellKept fragments location damaged extents start)
    (fileCount : Nat) : ∃ after, (List.range fileCount).foldlM
        (procFile fragments location damaged evicts extents) (start, 0) =
        some (after, min extents (fileCount * extentCountPerFile)) ∧
      Progress fragments location damaged lent extents start
        (min extents (fileCount * extentCountPerFile)) after ∧
      Buffered fragments location damaged evicts start
        (min extents (fileCount * extentCountPerFile)) after := by
  induction fileCount with
  | zero =>
    have none : min extents (0 * extentCountPerFile) = 0 := by lia
    rw [none]
    refine ⟨start, rfl, ?_, ⟨fun two => absurd two (by decide), fun _ _ high => by omega⟩⟩
    exact {
      kept := kept.toKept lent
      others := fun _ _ _ => rfl
      frame := fun _ _ _ => rfl
      before := fun _ => ⟨rfl, rfl, kept.coherent 0⟩
      done := fun positive => absurd positive (by decide) }
  | succ fileCount ih =>
    obtain ⟨state, run, progress, buffered⟩ := ih
    obtain ⟨after, step, behind⟩ := progress.file listed lends buffered
    refine ⟨after, ?_, behind⟩
    rw [range_succ, foldlM_append, run, Option.bind_eq_bind, Option.bind_some, foldlM_cons, step]
    rfl

end Progress

section Shrinking

variable (fragments : Bool) (location : ExtentLocation) (damaged : Bool)
  (compression : PageCompression)

/-- The page that some bytes of chunks stand for. -/
def pageOfChunks (nchunks : Nat) (bytes : List UInt8) : Option (List UInt8) :=
  if nchunks = 0 then some zeroBytes
  else if nchunks = chunksPerBlock location.chunkSize then some (bytes.take blckSz)
  else (compression.decompressPage bytes).map Page.bytes

/-- The bytes of a block's chunks. -/
def chunkBytes (state : RelationState) (extent block : Nat) : List UInt8 :=
  readPieces location.chunkSize (chunkPlace (extentStartOf extent) location.chunkSize)
    (state.files (placeOf extent).fd) ((state.diskHeader extent).cfsExtentAddress block).used

/-- The header that the buffer has for an extent gives each block the chunks that the extent's own
header gives it. -/
def OwnHeader (state : RelationState) (extent : Nat) : Prop :=
  ∀ header, state.buffer (placeOf extent).fileNodePcaBlkno = some header →
    ∀ block < logicBlocksPerExtent, (header.cfsExtentAddress block).used =
      ((state.diskHeader extent).cfsExtentAddress block).used

/-- The relations that need no work behind their first extent: the other extents are in order and
say so, and the first is in order if it says so. -/
def OrderedBefore (extents : Nat) (state : RelationState) : Prop :=
  (∀ extent, 1 ≤ extent → extent < extents →
    InOrder (state.diskHeader extent) ∧ (state.diskHeader extent).recycleInOrder = true) ∧
  (0 < extents → (state.diskHeader 0).recycleInOrder = true → InOrder (state.diskHeader 0))

/-- The chunks of the first extent's blocks once the extent is in order. -/
def firstUsed (state : RelationState) (block : Nat) : List Nat :=
  if (state.diskHeader 0).recycleInOrder then
    ((state.diskHeader 0).cfsExtentAddress block).used
  else orderedUsed (state.diskHeader 0) block

variable {fragments location damaged compression}
  {lent : CfsExtentHeader → Prop} {evicts : Nat → Bool} {extents : Nat}
  {start final : RelationState}

theorem FirstDone.used (done : FirstDone location start final) {block : Nat}
    (inside : block < logicBlocksPerExtent) :
    ((final.diskHeader 0).cfsExtentAddress block).used = firstUsed start block := by
  rw [FirstDone] at done
  rw [firstUsed]
  split at done
  · rename_i flagged
    rw [if_pos flagged, done.1]
  · rename_i unflagged
    rw [if_neg unflagged]
    exact done.used block inside

theorem LoadedAs.used {disk page : CfsExtentHeader} (loaded : LoadedAs disk page)
    (sound : Sound location disk) (block : Nat) (inside : block < logicBlocksPerExtent) :
    (page.cfsExtentAddress block).used = (disk.cfsExtentAddress block).used := by
  rw [loaded.addresses block inside, clearBeyond_used _ (sound.used block inside)]

theorem ownHeader_of_loaded {state : RelationState} {extent : Nat}
    (sound : Sound location (state.diskHeader extent))
    (loads : ∀ header, state.buffer (placeOf extent).fileNodePcaBlkno = some header →
      pcaBufLoadPage fragments location damaged
        (state.diskHeader extent) = some header) : OwnHeader state extent :=
  fun header present => (sound.loadedAs (loads header present)).used sound

/-- A block reads as the page of its chunks. -/
theorem readBlock_eq {state : RelationState} (kept : KeptLent fragments location
      damaged lent extents state) {extent block : Nat} (inside : extent < extents)
    (inExtent : block < logicBlocksPerExtent) (own : OwnHeader state extent) :
    readBlock fragments location damaged compression state extent block =
      pageOfChunks location compression ((state.diskHeader extent).cfsExtentAddress block).nchunks
        (chunkBytes location state extent block) := by
  obtain ⟨page, after, read, result⟩ := kept.readsOwn extent inside
  have sound := kept.sound extent inside
  have used : (page.cfsExtentAddress block).used =
      ((state.diskHeader extent).cfsExtentAddress block).used := by
    cases present : state.buffer (placeOf extent).fileNodePcaBlkno with
    | some header =>
      have same := result.others _ header present
      rw [result.buffered, Option.some.injEq] at same
      rw [same]
      exact own header present block inExtent
    | none => exact (sound.loadedAs (result.fresh present)).used sound block inExtent
  have count : (page.cfsExtentAddress block).nchunks =
      ((state.diskHeader extent).cfsExtentAddress block).nchunks := by
    have lengths := congrArg List.length used
    simpa [CfsExtentAddress.used] using lengths
  have positive : ∀ number ∈ ((state.diskHeader extent).cfsExtentAddress block).used,
      1 ≤ number := by
    intro number member
    exact (sound.valid block inExtent number
      (CfsExtentAddress.used_subset _ (sound.used block inExtent) number member)).1
  have runs := readRuns_eq location.chunkSize
    (chunkPlace (extentStartOf extent) location.chunkSize) (state.files (placeOf extent).fd)
    (chunkPlace_sideBySide (extentStartOf extent) location.chunkSize)
    ((state.diskHeader extent).cfsExtentAddress block).nchunks
    ((state.diskHeader extent).cfsExtentAddress block).used
    (by simp [CfsExtentAddress.used]) positive
  rw [readBlock, read, Option.bind_some, cfsReadPage]
  dsimp only
  rw [count, used, runs]
  rfl

/-- The chunks behind the first extent are not touched. -/
theorem Progress.chunkBytes_others (progress : Progress fragments location
      damaged lent extents start extents final) (extent block : Nat) (low : 1 ≤ extent)
    (inside : extent < extents) :
    chunkBytes location final extent block = chunkBytes location start extent block := by
  rw [chunkBytes, chunkBytes, ← progress.others extent low inside]
  apply flatMap_congr
  intro number _
  apply map_congr_left
  intro index _
  apply progress.frame
  by_cases first : (placeOf extent).fd = 0
  · have behind : logicBlocksPerExtent * blckSz ≤ extentStartOf extent * blckSz := by
      apply Nat.mul_le_mul_right
      have perFile : extentCountPerFile = 1024 := rfl
      have size : extentSize = 128 := rfl
      have blocks : logicBlocksPerExtent = 127 := rfl
      simp only [placeOf] at first
      simp only [extentStartOf]
      lia
    have begins : extentStartOf extent * blckSz ≤
        chunkPlace (extentStartOf extent) location.chunkSize number := Nat.le_add_right _ _
    exact .inr (by omega)
  · exact .inl first

section

variable (kept : WellKept fragments location damaged extents start)
  (progress : Progress fragments location damaged lent extents start extents final)
include progress

include kept

/-- Every block of an extent with its own header reads as before. -/
theorem Progress.reads {extent block : Nat} (inside : extent < extents)
    (inExtent : block < logicBlocksPerExtent) (own : OwnHeader final extent) :
    readBlock fragments location damaged compression final extent block =
      readBlock fragments location damaged compression start extent
        block := by
  have ownStart : OwnHeader start extent :=
    ownHeader_of_loaded (kept.sound extent inside) (kept.coherent extent inside)
  rw [readBlock_eq progress.kept inside inExtent own,
    readBlock_eq (kept.toKept lent) inside inExtent ownStart]
  by_cases first : extent = 0
  · subst first
    have done := progress.done inside
    rw [FirstDone] at done
    split at done
    · have file : (placeOf 0).fd = 0 := rfl
      rw [chunkBytes, chunkBytes, file, done.1, done.2]
    · rw [done.counts block inExtent]
      exact congrArg _ (done.bytes block inExtent)
  · have low : 1 ≤ extent := Nat.pos_of_ne_zero first
    rw [progress.chunkBytes_others extent block low inside, progress.others extent low inside]

end

/-- When the buffer lends headers for an ordered relation. -/
theorem WellKept.lends
    (kept : WellKept fragments location damaged extents start)
    (evicts : Nat → Bool) (ordered : OrderedBefore extents start) :
    Lends fragments location damaged (fun page =>
      ∃ fd, 1 ≤ fd ∧ fd * extentCountPerFile < extents ∧ pcaBufLoadPage fragments location damaged
          (start.diskHeader (fd * extentCountPerFile)) = some page) evicts extents start := by
  have perFile : extentCountPerFile = 1024 := rfl
  refine ⟨?_, ?_⟩
  · rintro page ⟨fd, later, inside, loads⟩
    rw [((kept.sound _ inside).loadedAs loads).flag]
    exact (ordered.1 _ (by lia) inside).2
  · intro extent low inside _ page loads
    refine ⟨extent / extentCountPerFile, by lia, ?_, loads⟩
    rw [perFile]
    lia

section

variable (listed : location.chunkSize ∈ chunkSizeList) (fileCount : Nat)
  (files : extents ≤ fileCount * extentCountPerFile)
  (kept : WellKept fragments location damaged extents start)
include listed files kept

end

end Shrinking

end OpenGauss.Cfs
