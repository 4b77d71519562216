import OpenGauss.Cfs.ChunkPlacement
import OpenGauss.Base.Scatter

/-!
# Pages of an extent

With fragment reuse off, an extent stores pages: a page is compressed, its chunks are written, and
a read finds the chunks in the block's address. A page whose compressed form saves no chunk is
stored as it is, which a read recognises by the number of its chunks. Truncation empties the
blocks behind its first block and punches a hole behind the chunks of the others.
-/
namespace OpenGauss.Cfs

open Function List OpenGauss.Base

/-- The blocks of a segment file (`RELSEG_SIZE`). -/
def relSegSize : Nat := 131072

/-- The unit of holes (`MIN_FALLOCATE_SIZE`). -/
def minFallocateSize : Nat := 4096

/-- A page. -/
structure Page where
  bytes : List UInt8
  full : bytes.length = blckSz

/-- Whether a page is new: its `pd_upper` is zero. -/
def Page.isNew (page : Page) : Bool :=
  page.bytes.getD 14 0 == 0 && page.bytes.getD 15 0 == 0

/-- The bytes of a page of zeros. -/
def zeroBytes : List UInt8 := List.replicate blckSz 0

/-- The compression of pages. `CompressPage` declines a page that does not get shorter, and
`DecompressPage` restores a page from its compressed form, whatever zeros follow it. -/
structure PageCompression where
  compressPage : Page → Option (List UInt8)
  decompressPage : List UInt8 → Option Page
  nonempty : ∀ page bytes, compressPage page = some bytes → 0 < bytes.length
  shorter : ∀ page bytes, compressPage page = some bytes → bytes.length < blckSz
  inverts : ∀ page bytes count, compressPage page = some bytes →
    decompressPage (bytes ++ List.replicate count 0) = some page

/-- The buffer that is written for a page and the number of its chunks. -/
def cfsCompressPage (compression : PageCompression) (chunkSize : Nat) (page : Page) :
    List UInt8 × Nat :=
  let compressed := compression.compressPage page
  let size := match compressed with
    | none => blckSz
    | some bytes => bytes.length
  let nchunks := ((size - 1) / chunkSize + 1) % 256
  if blckSz ≤ chunkSize * nchunks then (page.bytes, chunksPerBlock chunkSize)
  else (compressed.getD [] ++ List.replicate (chunkSize * nchunks - size) 0, nchunks)

/-- An extent: its header and the bytes of its segment file. -/
structure StoredExtent where
  header : CfsExtentHeader
  file : Nat → UInt8

/-- The chunks that the page of a block uses. -/
def CfsExtentAddress.used (address : CfsExtentAddress) : List Nat :=
  (List.range address.nchunks).map address.chunknos

section Operations

variable (compression : PageCompression) (location : ExtentLocation) (extentStart : Nat)

/-- The offset of a chunk in the segment file. -/
def chunkPlace (chunkSize number : Nat) : Nat :=
  extentStart * blckSz + offsetOfPageCompressChunk chunkSize number

/-- Write the page of a block. New pages are skipped. A call that would start behind the extent's
chunks or behind the file brings the server down. -/
def cfsWritePage (extent : StoredExtent) (compressPreallocChunks block : Nat) (page : Page) :
    Option StoredExtent :=
  if page.isNew then some extent
  else
    let chunkSize := extent.header.chunkSize
    let compressed := cfsCompressPage compression location.chunkSize page
    let needChunks := max compressPreallocChunks compressed.2
    (writeBlock false extent.header block needChunks compressed.2).bind fun written =>
      let pieces := (List.range compressed.2).map (written.2.cfsExtentAddress block).chunknos
      if ∃ number ∈ runStarts pieces.length pieces,
          maxLogicChunksNumber chunkSize < number ∨
            relSegSize * blckSz < chunkPlace extentStart chunkSize number then
        none
      else
        some
          { header := written.2
            file := writeRuns chunkSize (chunkPlace extentStart chunkSize) pieces.length
              extent.file pieces compressed.1 }

/-- Read the page of a block; no result is an error. -/
def cfsReadPage (extent : StoredExtent) (block : Nat) : Option (List UInt8) :=
  let address := extent.header.cfsExtentAddress block
  let chunkSize := location.chunkSize
  if address.nchunks = 0 then some zeroBytes
  else
    let buffer := readRuns chunkSize (chunkPlace extentStart chunkSize) extent.file
      address.nchunks address.used
    if address.nchunks = chunksPerBlock chunkSize then some (buffer.take blckSz)
    else (compression.decompressPage buffer).map Page.bytes

/-- Truncate the extent and punch a hole behind the chunks of the blocks that stay. -/
def truncateExtent (extent : StoredExtent) (extentOffset : Nat) : StoredExtent :=
  if extentOffset = 0 then extent
  else
    let header := cfsMdTruncate extent.header false extentOffset
    let highest := maxChunkOfBlocks header extentOffset
    let start := wrap32 (extentStart * blckSz + highest * header.chunkSize)
    let len := wrap32
      ((maxLogicChunksNumber header.chunkSize + 4294967296 - highest) * header.chunkSize)
    { header := header
      file := if minFallocateSize ≤ len then
          punch extent.file (start + len % minFallocateSize) (len - len % minFallocateSize)
        else extent.file }

/-- What happens to the pages of an extent. -/
inductive StoreEvent
  | write (compressPreallocChunks block : Nat) (page : Page)
  | truncate (extentOffset : Nat)

/-- The extent after one event. -/
def storeStep (extent : Option StoredExtent) (event : StoreEvent) : Option StoredExtent :=
  extent.bind fun extent =>
    match event with
    | .write compressPreallocChunks block page =>
      cfsWritePage compression location extentStart extent compressPreallocChunks block page
    | .truncate extentOffset => some (truncateExtent extentStart extent extentOffset)

end Operations

/-- What the callers promise: blocks of the extent, and no more preallocated chunks than a page
takes. -/
def StoreEvent.Legal (location : ExtentLocation) : StoreEvent → Prop
  | .write compressPreallocChunks block _ =>
    compressPreallocChunks ≤ chunksPerBlock location.chunkSize ∧ block < logicBlocksPerExtent
  | .truncate extentOffset => extentOffset < logicBlocksPerExtent

instance (location : ExtentLocation) (event : StoreEvent) : Decidable (event.Legal location) :=
  match event with
  | .write .. => inferInstanceAs (Decidable (_ ∧ _))
  | .truncate _ => inferInstanceAs (Decidable (_ < _))

/-- The page last written to a block since the last truncation inside the extent that covered it,
from the events in reverse. -/
def lastPage (block : Nat) : List StoreEvent → Option Page
  | [] => none
  | .write _ written page :: earlier =>
    if written = block ∧ page.isNew = false then some page else lastPage block earlier
  | .truncate extentOffset :: earlier =>
    if extentOffset ≠ 0 ∧ extentOffset ≤ block then none else lastPage block earlier

theorem chunkSize_geometry {chunkSize : Nat} (listed : chunkSize ∈ chunkSizeList) :
    chunkSize * chunksPerBlock chunkSize = blckSz ∧ 0 < chunkSize ∧ chunkSize ≤ 4096 ∧
      chunksPerBlock chunkSize ≤ 16 := by
  simp only [chunkSizeList, mem_cons, not_mem_nil, or_false] at listed
  obtain rfl | rfl | rfl | rfl := listed <;> decide

/-- What is written for a page: the page as it is, in all its chunks, or its compressed form with
zeros behind, in fewer. -/
structure Compressed (compression : PageCompression) (chunkSize : Nat) (page : Page)
    (buffer : List UInt8) (nchunks : Nat) : Prop where
  positive : 0 < nchunks
  few : nchunks ≤ chunksPerBlock chunkSize
  full : buffer.length = chunkSize * nchunks
  raw : nchunks = chunksPerBlock chunkSize → buffer = page.bytes
  packed : nchunks ≠ chunksPerBlock chunkSize → compression.decompressPage buffer = some page

/-- A compressed page is uncompressed to itself. -/
theorem cfsCompressPage_spec (compression : PageCompression) {chunkSize : Nat}
    (listed : chunkSize ∈ chunkSizeList) (page : Page) :
    Compressed compression chunkSize page (cfsCompressPage compression chunkSize page).1
      (cfsCompressPage compression chunkSize page).2 := by
  obtain ⟨fills, positive, _, few⟩ := chunkSize_geometry listed
  have some : 0 < chunksPerBlock chunkSize := by
    apply Nat.pos_of_ne_zero
    intro none
    rw [none, Nat.mul_zero] at fills
    exact absurd fills (by decide)
  have asIs : Compressed compression chunkSize page page.bytes (chunksPerBlock chunkSize) := {
    positive := some
    few := le_rfl
    full := page.full.trans fills.symm
    raw := fun _ => rfl
    packed := fun other => absurd rfl other }
  cases outcome : compression.compressPage page with
  | none =>
    have last : ((blckSz - 1) / chunkSize + 1) % 256 = chunksPerBlock chunkSize := by
      simp only [chunkSizeList, mem_cons, not_mem_nil, or_false] at listed
      obtain rfl | rfl | rfl | rfl := listed <;> decide
    simp only [cfsCompressPage, outcome, last]
    rw [if_pos fills.ge]
    exact asIs
  | some bytes =>
    have shorter := compression.shorter page bytes outcome
    have below : (bytes.length - 1) / chunkSize < chunksPerBlock chunkSize := by
      rw [Nat.div_lt_iff_lt_mul positive, Nat.mul_comm]
      omega
    have small : ((bytes.length - 1) / chunkSize + 1) % 256 =
        (bytes.length - 1) / chunkSize + 1 := Nat.mod_eq_of_lt (by lia)
    have covers : bytes.length ≤ chunkSize * ((bytes.length - 1) / chunkSize + 1) := by
      have next := Nat.lt_mul_div_succ (bytes.length - 1) positive
      omega
    simp only [cfsCompressPage, outcome, small, Option.getD_some]
    by_cases saves : blckSz ≤ chunkSize * ((bytes.length - 1) / chunkSize + 1)
    · rw [if_pos saves]
      exact asIs
    · rw [if_neg saves]
      exact {
        positive := Nat.succ_pos _
        few := below
        full := by
          dsimp only
          rw [length_append, length_replicate]
          omega
        raw := by
          intro all
          dsimp only at all
          rw [all, fills] at saves
          exact absurd le_rfl saves
        packed := fun _ => compression.inverts page bytes _ outcome }

section Store

variable (compression : PageCompression) (location : ExtentLocation) (extentStart : Nat)

theorem chunkPlace_sideBySide (chunkSize : Nat) :
    SideBySide chunkSize (chunkPlace extentStart chunkSize) := by
  intro number positive
  rw [chunkPlace, chunkPlace, offsetOfPageCompressChunk, offsetOfPageCompressChunk,
    Nat.add_sub_cancel]
  have next : number = number - 1 + 1 := by omega
  conv_lhs => rw [next]
  lia

/-- A block holds a page: its chunks in use have what was written for the page. -/
structure Holds (extent : StoredExtent) (block : Nat) (page : Page) : Prop where
  count : (extent.header.cfsExtentAddress block).nchunks =
    (cfsCompressPage compression location.chunkSize page).2
  enough : (extent.header.cfsExtentAddress block).nchunks ≤
    (extent.header.cfsExtentAddress block).allocatedChunks
  bytes : readPieces location.chunkSize (chunkPlace extentStart location.chunkSize) extent.file
      (extent.header.cfsExtentAddress block).used =
    (cfsCompressPage compression location.chunkSize page).1

/-- The extent stores the given pages. -/
structure Stores (pages : Nat → Option Page) (extent : StoredExtent) : Prop where
  kept : Kept false location extent.header
  exactly : extent.header.allocatedChunks ≤ ∑ block ∈ Finset.range logicBlocksPerExtent,
      (extent.header.cfsExtentAddress block).allocatedChunks
  distinct : ∀ block < logicBlocksPerExtent, (extent.header.cfsExtentAddress block).held.Nodup
  holds : ∀ block < logicBlocksPerExtent, ∀ page, pages block = some page →
    Holds compression location extentStart extent block page
  empty : ∀ block < logicBlocksPerExtent, pages block = none →
    (extent.header.cfsExtentAddress block).nchunks = 0

variable (address : CfsExtentAddress) (header : CfsExtentHeader) (extentOffset block : Nat)

theorem CfsExtentAddress.used_subset
    (enough : address.nchunks ≤ address.allocatedChunks) (number : Nat)
    (used : number ∈ address.used) : number ∈ address.held := by
  simp only [CfsExtentAddress.used, mem_map, mem_range] at used
  obtain ⟨index, inside, found⟩ := used
  exact (address.mem_held number).mpr ⟨index, by omega, found⟩

variable {location}

theorem Kept.inExtent (kept : Kept false location header)
    (exactly : header.allocatedChunks ≤ ∑ block ∈ Finset.range logicBlocksPerExtent,
      (header.cfsExtentAddress block).allocatedChunks) :
    header.allocatedChunks ≤ maxLogicChunksNumber location.chunkSize := by
  apply le_trans exactly
  calc
    ∑ block ∈ Finset.range logicBlocksPerExtent, (header.cfsExtentAddress block).allocatedChunks
        ≤ (Finset.range logicBlocksPerExtent).card • chunksPerBlock location.chunkSize := by
      apply Finset.sum_le_card_nsmul
      intro block listed
      exact kept.few block (Finset.mem_range.mp listed)
    _ = maxLogicChunksNumber location.chunkSize := by
      rfl

/-- The chunks of an extent end inside it. -/
theorem chunkPlace_le (listed : location.chunkSize ∈ chunkSizeList) {number : Nat}
    (positive : 1 ≤ number) (inExtent : number ≤ maxLogicChunksNumber location.chunkSize) :
    chunkPlace extentStart location.chunkSize number + location.chunkSize =
        extentStart * blckSz + number * location.chunkSize ∧
      number * location.chunkSize ≤ logicBlocksPerExtent * blckSz := by
  obtain ⟨fills, _⟩ := chunkSize_geometry listed
  have next : number = number - 1 + 1 := by omega
  have ends : location.chunkSize * (number - 1) + location.chunkSize =
      number * location.chunkSize := by
    conv_rhs => rw [next, Nat.succ_mul, Nat.mul_comm]
  refine ⟨?_, ?_⟩
  · rw [chunkPlace, offsetOfPageCompressChunk]
    lia
  · calc
      number * location.chunkSize
          ≤ maxLogicChunksNumber location.chunkSize * location.chunkSize :=
        Nat.mul_le_mul_right _ inExtent
      _ = logicBlocksPerExtent * blckSz := by
        rw [maxLogicChunksNumber, Nat.mul_assoc, Nat.mul_comm (chunksPerBlock _), fills]

variable {extentStart}

/-- A stored page is read, and zeros where there is none. -/
theorem Stores.read (listed : location.chunkSize ∈ chunkSizeList) {pages : Nat → Option Page}
    {extent : StoredExtent} (stores : Stores compression location extentStart pages extent)
    {block : Nat} (inside : block < logicBlocksPerExtent) :
    cfsReadPage compression location extentStart extent block = some (match pages block with
        | none => zeroBytes
        | some page => page.bytes) := by
  rw [cfsReadPage]
  cases content : pages block with
  | none =>
    rw [if_pos (stores.empty block inside content)]
  | some page =>
    have holds := stores.holds block inside page content
    have written := cfsCompressPage_spec compression listed page
    have positive := written.positive
    rw [← holds.count] at positive
    have buffer : readRuns location.chunkSize (chunkPlace extentStart location.chunkSize)
        extent.file (extent.header.cfsExtentAddress block).nchunks
        (extent.header.cfsExtentAddress block).used =
        (cfsCompressPage compression location.chunkSize page).1 := by
      rw [readRuns_eq location.chunkSize _ extent.file
        (chunkPlace_sideBySide extentStart location.chunkSize)]
      · exact holds.bytes
      · simp [CfsExtentAddress.used]
      · intro number used
        exact stores.kept.positive block inside number
          (CfsExtentAddress.used_subset _ holds.enough number used)
    rw [if_neg (by omega), buffer, holds.count]
    by_cases all : (cfsCompressPage compression location.chunkSize page).2 =
        chunksPerBlock location.chunkSize
    · rw [if_pos all, written.raw all, take_of_length_le page.full.le]
    · rw [if_neg all, written.packed all, Option.map_some]

/-- What a write does to the header where fragments are not reused: the block keeps its chunks and
gets the numbers behind the highest one. -/
structure Appended (before after : CfsExtentHeader) (block needChunks actualUse : Nat) : Prop where
  others : ∀ other, other ≠ block → after.cfsExtentAddress other = before.cfsExtentAddress other
  count : (after.cfsExtentAddress block).allocatedChunks =
    max (before.cfsExtentAddress block).allocatedChunks needChunks
  used : (after.cfsExtentAddress block).nchunks = actualUse
  old : ∀ index < (before.cfsExtentAddress block).allocatedChunks,
    (after.cfsExtentAddress block).chunknos index = (before.cfsExtentAddress block).chunknos index
  new : ∀ index < needChunks, (before.cfsExtentAddress block).allocatedChunks ≤ index →
    (after.cfsExtentAddress block).chunknos index =
      before.allocatedChunks + 1 + (index - (before.cfsExtentAddress block).allocatedChunks)
  highest : after.allocatedChunks = before.allocatedChunks +
    (needChunks - (before.cfsExtentAddress block).allocatedChunks)

/-- Without the reuse of fragments a block grows at the tail. -/
theorem writeBlock_appended {header after : CfsExtentHeader} {changed : Bool}
    {block needChunks actualUse : Nat} (small : header.allocatedChunks + needChunks < 65535)
    (result : writeBlock false header block needChunks actualUse = some (changed, after)) :
    Appended header after block needChunks actualUse := by
  obtain ⟨_, rfl⟩ := result
  by_cases short : (header.cfsExtentAddress block).allocatedChunks < needChunks
  · simp only [extendChunksOfBlockCore, short, decide_true, Bool.false_eq_true, ↓reduceIte]
    exact {
      others := fun other differ => update_of_ne differ _ _
      count := by
        simp only [update_self, extendAppending]
        lia
      used := by simp only [update_self]
      old := by
        intro index inside
        simp only [update_self, extendAppending]
        rw [if_neg (by omega)]
      new := by
        intro index inside later
        simp only [update_self, extendAppending]
        rw [if_pos ⟨later, inside⟩, wrap16, wrap32]
        grind
      highest := by
        simp only [extendAppending, wrap32]
        grind }
  · simp only [extendChunksOfBlockCore, short, decide_false, Bool.false_eq_true, ↓reduceIte]
    exact {
      others := fun other differ => update_of_ne differ _ _
      count := by
        simp only [update_self]
        lia
      used := by simp only [update_self]
      old := fun index _ => by simp only [update_self]
      new := by
        intro index inside later
        omega
      highest := by
        dsimp only
        omega }

/-- Growth at the tail keeps the chunks of a block distinct. -/
theorem Appended.distinct {before after : CfsExtentHeader} {block needChunks actualUse : Nat}
    (appended : Appended before after block needChunks actualUse)
    (distinct : (before.cfsExtentAddress block).held.Nodup)
    (below : ∀ number ∈ (before.cfsExtentAddress block).held, number ≤ before.allocatedChunks) :
    (after.cfsExtentAddress block).held.Nodup := by
  have value (index : Nat) (inside : index < (after.cfsExtentAddress block).allocatedChunks) :
      (index < (before.cfsExtentAddress block).allocatedChunks ∧
        (after.cfsExtentAddress block).chunknos index =
          (before.cfsExtentAddress block).chunknos index ∧
        (after.cfsExtentAddress block).chunknos index ≤ before.allocatedChunks) ∨
      ((before.cfsExtentAddress block).allocatedChunks ≤ index ∧
        (after.cfsExtentAddress block).chunknos index = before.allocatedChunks + 1 +
          (index - (before.cfsExtentAddress block).allocatedChunks)) := by
    by_cases old : index < (before.cfsExtentAddress block).allocatedChunks
    · have same := appended.old index old
      have bound := below _ ((CfsExtentAddress.mem_held _ _).mpr ⟨index, old, rfl⟩)
      exact .inl ⟨old, same, by omega⟩
    · rw [appended.count] at inside
      exact .inr ⟨by omega, appended.new index (by omega) (by omega)⟩
  rw [CfsExtentAddress.held, nodup_map_iff_inj_on nodup_range] at distinct ⊢
  intro first firstInside second secondInside same
  rw [mem_range] at firstInside secondInside
  obtain ⟨firstOld, firstSame, firstBelow⟩ | ⟨firstNew, firstValue⟩ := value first firstInside
  · obtain ⟨secondOld, secondSame, _⟩ | ⟨secondNew, secondValue⟩ := value second secondInside
    · apply distinct first (mem_range.mpr firstOld) second (mem_range.mpr secondOld)
      rw [← firstSame, ← secondSame, same]
    · lia
  · obtain ⟨secondOld, _, secondBelow⟩ | ⟨secondNew, secondValue⟩ := value second secondInside
    · lia
    · grind

/-- Growth at the tail keeps all chunks counted. -/
theorem Appended.sum {before after : CfsExtentHeader} {block needChunks actualUse : Nat}
    (appended : Appended before after block needChunks actualUse)
    (inside : block < logicBlocksPerExtent)
    (exactly : before.allocatedChunks ≤ ∑ block ∈ Finset.range logicBlocksPerExtent,
      (before.cfsExtentAddress block).allocatedChunks) :
    after.allocatedChunks ≤ ∑ block ∈ Finset.range logicBlocksPerExtent,
      (after.cfsExtentAddress block).allocatedChunks := by
  have member : block ∈ Finset.range logicBlocksPerExtent := Finset.mem_range.mpr inside
  rw [← Finset.add_sum_erase _ _ member] at exactly ⊢
  have rest : ∑ other ∈ (Finset.range logicBlocksPerExtent).erase block,
      (after.cfsExtentAddress other).allocatedChunks =
      ∑ other ∈ (Finset.range logicBlocksPerExtent).erase block,
        (before.cfsExtentAddress other).allocatedChunks := by
    apply Finset.sum_congr rfl
    intro other listed
    rw [appended.others other (Finset.ne_of_mem_erase listed)]
  rw [appended.count, appended.highest]
  omega

theorem CfsExtentAddress.used_nodup
    (enough : address.nchunks ≤ address.allocatedChunks) (distinct : address.held.Nodup) :
    address.used.Nodup := by
  apply List.Nodup.sublist _ distinct
  exact (range_sublist.mpr enough).map address.chunknos

theorem runStarts_inside (listed : location.chunkSize ∈ chunkSizeList)
    (inFile : extentStart + 128 ≤ relSegSize) (pieces : List Nat)
    (range : ∀ number ∈ pieces, 1 ≤ number ∧ number ≤ maxLogicChunksNumber location.chunkSize) :
    ¬∃ number ∈ runStarts pieces.length pieces, maxLogicChunksNumber location.chunkSize < number ∨
        relSegSize * blckSz < chunkPlace extentStart location.chunkSize number := by
  rintro ⟨number, start, crash⟩
  obtain ⟨positive, given⟩ := range number (mem_of_mem_runStarts _ _ number start)
  obtain ⟨ends, short⟩ := chunkPlace_le extentStart listed positive given
  have room : (extentStart + 128) * blckSz ≤ relSegSize * blckSz :=
    Nat.mul_le_mul_right _ inFile
  have extentBytes : logicBlocksPerExtent * blckSz ≤ 128 * blckSz := by decide
  lia

/-- Writing a page to a block stores it there. -/
theorem Stores.write (listed : location.chunkSize ∈ chunkSizeList)
    (inFile : extentStart + 128 ≤ relSegSize) {pages : Nat → Option Page} {extent : StoredExtent}
    (stores : Stores compression location extentStart pages extent)
    {compressPreallocChunks block : Nat} {page : Page}
    (few : compressPreallocChunks ≤ chunksPerBlock location.chunkSize)
    (inside : block < logicBlocksPerExtent) (proper : page.isNew = false) :
    ∃ after, cfsWritePage compression location extentStart extent compressPreallocChunks block
        page = some after ∧
      Stores compression location extentStart (update pages block (some page)) after := by
  obtain ⟨fills, chunkPositive, _, sixteen⟩ := chunkSize_geometry listed
  have compressed := cfsCompressPage_spec compression listed page
  obtain ⟨buffer, nchunks, produced⟩ : ∃ buffer nchunks,
      cfsCompressPage compression location.chunkSize page = (buffer, nchunks) := ⟨_, _, rfl⟩
  rw [produced] at compressed
  have limit : maxLogicChunksNumber location.chunkSize ≤ 2032 := by
    rw [maxLogicChunksNumber, logicBlocksPerExtent]
    omega
  have before := Kept.inExtent extent.header stores.kept stores.exactly
  have need : max compressPreallocChunks nchunks ≤ chunksPerBlock location.chunkSize :=
    Nat.max_le.mpr ⟨few, compressed.few⟩
  obtain ⟨⟨changed, header⟩, done, kept⟩ := Kept.write false nchunks listed stores.kept inside need
    (fun reuse => Bool.noConfusion reuse)
  have appended := writeBlock_appended (by lia) done
  have exactly := appended.sum inside stores.exactly
  have highest := Kept.inExtent header kept exactly
  have enough : (header.cfsExtentAddress block).nchunks ≤
      (header.cfsExtentAddress block).allocatedChunks := by
    rw [appended.used, appended.count]
    lia
  have distinct := appended.distinct (stores.distinct block inside) (stores.kept.below block inside)
  have pieces : (List.range nchunks).map (header.cfsExtentAddress block).chunknos =
      (header.cfsExtentAddress block).used := by
    rw [CfsExtentAddress.used, appended.used]
  have usedHeld := (header.cfsExtentAddress block).used_subset enough
  have usedPositive (number : Nat) (used : number ∈ (header.cfsExtentAddress block).used) :
      1 ≤ number := kept.positive block inside number (usedHeld number used)
  have length : (header.cfsExtentAddress block).used.length = nchunks := by
    rw [CfsExtentAddress.used, length_map, length_range, appended.used]
  have beside := chunkPlace_sideBySide extentStart location.chunkSize
  have noCrash := runStarts_inside listed inFile
    (header.cfsExtentAddress block).used fun number used => ⟨usedPositive number used,
      le_trans (kept.below block inside number (usedHeld number used)) highest⟩
  have file : writeRuns location.chunkSize (chunkPlace extentStart location.chunkSize)
      (header.cfsExtentAddress block).used.length extent.file
      (header.cfsExtentAddress block).used buffer =
      writePieces location.chunkSize (chunkPlace extentStart location.chunkSize) extent.file
        (header.cfsExtentAddress block).used buffer := by
    apply writeRuns_eq location.chunkSize _ extent.file beside _ _ _ le_rfl usedPositive
    rw [length]
    exact compressed.full.ge
  refine ⟨⟨header, writePieces location.chunkSize (chunkPlace extentStart location.chunkSize)
    extent.file (header.cfsExtentAddress block).used buffer⟩, ?_, ?_⟩
  · rw [cfsWritePage, if_neg (by simp [proper])]
    simp only [produced, done, Option.bind_some, stores.kept.sized, pieces]
    rw [if_neg noCrash, file]
  · exact {
      kept := kept
      exactly := exactly
      distinct := by
        intro other within
        by_cases same : other = block
        · rw [same]
          exact distinct
        · rw [appended.others other same]
          exact stores.distinct other within
      holds := by
        intro other within content found
        by_cases same : other = block
        · subst same
          rw [update_self, Option.some.injEq] at found
          subst found
          exact {
            count := by
              rw [produced]
              exact appended.used
            enough := enough
            bytes := by
              rw [produced]
              apply readPieces_writePieces location.chunkSize _ extent.file beside _ _ usedPositive
                ((header.cfsExtentAddress other).used_nodup enough distinct)
              rw [length]
              exact compressed.full }
        · rw [update_of_ne same] at found
          have holds := stores.holds other within content found
          have address := appended.others other same
          have othersHeld : ∀ number ∈ (extent.header.cfsExtentAddress other).used,
              number ∈ (header.cfsExtentAddress other).held := by
            intro number used
            rw [address]
            exact CfsExtentAddress.used_subset _ holds.enough number used
          exact {
            count := by
              rw [address]
              exact holds.count
            enough := by
              rw [address]
              exact holds.enough
            bytes := by
              rw [address, readPieces_writePieces_other location.chunkSize _ extent.file beside
                buffer usedPositive]
              · exact holds.bytes
              · intro number used
                exact kept.positive other within number (othersHeld number used)
              · intro number used mine
                exact kept.disjoint other within block inside same number
                  (othersHeld number used) (usedHeld number mine) }
      empty := by
        intro other within found
        by_cases same : other = block
        · subst same
          rw [update_self] at found
          cases found
        · rw [update_of_ne same] at found
          rw [appended.others other same]
          exact stores.empty other within found }

theorem cfsMdTruncate_before (nonzero : extentOffset ≠ 0) (before : block < extentOffset) :
    (cfsMdTruncate header false extentOffset).cfsExtentAddress block =
      header.cfsExtentAddress block := by
  rw [cfsMdTruncate, if_neg (by simp [nonzero])]
  dsimp only
  rw [if_neg (by omega)]

theorem cfsMdTruncate_held : (cfsMdTruncate header false extentOffset).cfsExtentAddress block =
        header.cfsExtentAddress block ∨
      (((cfsMdTruncate header false extentOffset).cfsExtentAddress block).held =
          (header.cfsExtentAddress block).held ∧
        ((cfsMdTruncate header false extentOffset).cfsExtentAddress block).allocatedChunks =
          (header.cfsExtentAddress block).allocatedChunks) := by
  rw [cfsMdTruncate]
  split
  · exact .inl rfl
  · dsimp only
    split
    · exact .inr ⟨rfl, rfl⟩
    · exact .inl rfl

/-- Truncation keeps the chunks that are left. -/
theorem truncateExtent_file (listed : location.chunkSize ∈ chunkSizeList)
    (inFile : extentStart + 128 ≤ relSegSize) {extent : StoredExtent} {extentOffset : Nat}
    (nonzero : extentOffset ≠ 0) (sized : extent.header.chunkSize = location.chunkSize)
    (inExtent : maxChunkOfBlocks (cfsMdTruncate extent.header false extentOffset) extentOffset ≤
      maxLogicChunksNumber location.chunkSize) (pieces : List Nat)
    (positive : ∀ number ∈ pieces, 1 ≤ number) (below : ∀ number ∈ pieces, number ≤
      maxChunkOfBlocks (cfsMdTruncate extent.header false extentOffset) extentOffset) :
    readPieces location.chunkSize (chunkPlace extentStart location.chunkSize)
        (truncateExtent extentStart extent extentOffset).file pieces =
      readPieces location.chunkSize (chunkPlace extentStart location.chunkSize) extent.file
        pieces := by
  have same : (cfsMdTruncate extent.header false extentOffset).chunkSize = location.chunkSize := by
    rw [cfsMdTruncate]
    split <;> exact sized
  rw [truncateExtent, if_neg nonzero]
  dsimp only
  split
  · apply readPieces_punch
    intro number member
    obtain ⟨ends, short⟩ := chunkPlace_le extentStart listed
      (positive number member) (le_trans (below number member) inExtent)
    have order := Nat.mul_le_mul_right location.chunkSize (below number member)
    obtain ⟨_, last⟩ | none : 1 ≤ maxChunkOfBlocks
        (cfsMdTruncate extent.header false extentOffset) extentOffset ∧
        maxChunkOfBlocks (cfsMdTruncate extent.header false extentOffset) extentOffset *
          location.chunkSize ≤ logicBlocksPerExtent * blckSz ∨
        maxChunkOfBlocks (cfsMdTruncate extent.header false extentOffset) extentOffset = 0 := by
      by_cases some : 1 ≤ maxChunkOfBlocks (cfsMdTruncate extent.header false extentOffset)
          extentOffset
      · exact .inl ⟨some, (chunkPlace_le extentStart listed some inExtent).2⟩
      · exact .inr (by lia)
    · have small : extentStart * blckSz +
          maxChunkOfBlocks (cfsMdTruncate extent.header false extentOffset) extentOffset *
            location.chunkSize < 4294967296 := by
        have room : (extentStart + 128) * blckSz ≤ relSegSize * blckSz :=
          Nat.mul_le_mul_right _ inFile
        have bytes : relSegSize * blckSz = 1073741824 := rfl
        have extentBytes : logicBlocksPerExtent * blckSz ≤ 128 * blckSz := by decide
        lia
      rw [wrap32]
      lia
    · have low := positive number member
      have high := below number member
      omega
  · rfl

/-- Truncation inside the extent empties the blocks behind and keeps the others. -/
theorem Stores.truncate (listed : location.chunkSize ∈ chunkSizeList)
    (inFile : extentStart + 128 ≤ relSegSize) {pages : Nat → Option Page} {extent : StoredExtent}
    (stores : Stores compression location extentStart pages extent) {extentOffset : Nat}
    (inside : extentOffset < logicBlocksPerExtent) (nonzero : extentOffset ≠ 0) :
    Stores compression location extentStart
      (fun block => if extentOffset ≤ block then none else pages block)
      (truncateExtent extentStart extent extentOffset) := by
  have header : (truncateExtent extentStart extent extentOffset).header =
      cfsMdTruncate extent.header false extentOffset := by
    rw [truncateExtent, if_neg nonzero]
  have kept := Kept.truncate false stores.kept inside
  have counts (block : Nat) :
      ((cfsMdTruncate extent.header false extentOffset).cfsExtentAddress block).allocatedChunks =
        (extent.header.cfsExtentAddress block).allocatedChunks := by
    obtain same | ⟨_, same⟩ := cfsMdTruncate_held extent.header extentOffset block
    · rw [same]
    · exact same
  have highest : (cfsMdTruncate extent.header false extentOffset).allocatedChunks =
      extent.header.allocatedChunks := by
    rw [cfsMdTruncate]
    split <;> rfl
  have given := Kept.inExtent extent.header stores.kept stores.exactly
  have inExtent : maxChunkOfBlocks (cfsMdTruncate extent.header false extentOffset) extentOffset ≤
      maxLogicChunksNumber location.chunkSize := by
    apply (foldl_max_le_iff _ 0 _).mpr
    refine ⟨Nat.zero_le _, ?_⟩
    intro number member
    obtain ⟨block, counted, held⟩ := mem_flatMap.mp member
    have below := kept.below block (lt_trans (mem_range.mp counted) inside) number held
    lia
  exact {
    kept := by
      rw [header]
      exact kept
    exactly := by
      rw [header, highest]
      simp only [counts]
      exact stores.exactly
    distinct := by
      intro block within
      rw [header]
      obtain same | ⟨same, _⟩ := cfsMdTruncate_held extent.header extentOffset block
      · rw [same]
        exact stores.distinct block within
      · rw [same]
        exact stores.distinct block within
    holds := by
      intro block within page found
      by_cases cut : extentOffset ≤ block
      · rw [if_pos cut] at found
        cases found
      · rw [if_neg cut] at found
        have holds := stores.holds block within page found
        have address := cfsMdTruncate_before extent.header extentOffset block nonzero (by omega)
        exact {
          count := by
            rw [header, address]
            exact holds.count
          enough := by
            rw [header, address]
            exact holds.enough
          bytes := by
            rw [header, address, truncateExtent_file listed inFile
              nonzero stores.kept.sized inExtent]
            · exact holds.bytes
            · intro number used
              exact stores.kept.positive block within number
                (CfsExtentAddress.used_subset _ holds.enough number used)
            · intro number used
              apply le_maxChunkOfBlocks block (by omega)
              rw [address]
              exact CfsExtentAddress.used_subset _ holds.enough number used }
    empty := by
      intro block within found
      rw [header]
      by_cases cut : extentOffset ≤ block
      · rw [cfsMdTruncate, if_neg (by simp [nonzero])]
        dsimp only
        rw [if_pos ⟨cut, within⟩]
      · rw [if_neg cut] at found
        rw [cfsMdTruncate_before extent.header extentOffset block nonzero (by omega)]
        exact stores.empty block within found }

variable (location)

/-- A new extent over a file. -/
def newStore (file : Nat → UInt8) : StoredExtent where
  header := initExtentHeader location
  file := file

variable (extentStart)

theorem Stores.initial (file : Nat → UInt8) :
    Stores compression location extentStart (fun _ => none) (newStore location file) where
  kept := Kept.initial false location
  exactly := Nat.zero_le _
  distinct := fun _ _ => nodup_nil
  holds := fun _ _ _ found => nomatch found
  empty := fun _ _ _ => rfl

/-- Every run of writes and truncations stores the last pages. -/
theorem stores_run (listed : location.chunkSize ∈ chunkSizeList)
    (inFile : extentStart + 128 ≤ relSegSize) (file : Nat → UInt8) {events : List StoreEvent}
    (legal : ∀ event ∈ events, event.Legal location) :
    ∃ extent, events.foldl (storeStep compression location extentStart)
        (some (newStore location file)) = some extent ∧
      Stores compression location extentStart (fun block => lastPage block events.reverse)
        extent := by
  induction events using List.reverseRecOn with
  | nil => exact ⟨_, rfl, Stores.initial compression location extentStart file⟩
  | append_singleton events event ih =>
    obtain ⟨extent, reached, stores⟩ := ih
      (fun event member => legal event (mem_append_left _ member))
    have last := legal event (mem_append_right _ (mem_singleton.mpr rfl))
    rw [foldl_append, reached, foldl_cons, storeStep,
      reverse_append, reverse_singleton, singleton_append]
    cases event with
    | write compressPreallocChunks block page =>
      cases proper : page.isNew with
      | true =>
        refine ⟨extent, by simp [cfsWritePage, proper], ?_⟩
        simp only [lastPage, proper, Bool.true_eq_false, and_false]
        exact stores
      | false =>
        obtain ⟨after, written, storesAfter⟩ := stores.write compression
          listed inFile last.1 last.2 proper
        refine ⟨after, written, ?_⟩
        have pages : (fun other => lastPage other
            (.write compressPreallocChunks block page :: events.reverse)) =
            update (fun other => lastPage other events.reverse) block (some page) := by
          funext other
          by_cases same : other = block
          · simp [same, lastPage, proper]
          · simp [update_of_ne same, lastPage, Ne.symm same]
        rw [pages]
        exact storesAfter
    | truncate extentOffset =>
      refine ⟨_, rfl, ?_⟩
      by_cases nonzero : extentOffset ≠ 0
      · have pages : (fun block => lastPage block (.truncate extentOffset :: events.reverse)) =
            fun block => if extentOffset ≤ block then none
              else lastPage block events.reverse := by
          funext block
          simp [lastPage, nonzero]
        rw [pages]
        exact stores.truncate compression listed inFile last nonzero
      · simp only [lastPage, nonzero]
        rw [truncateExtent, if_pos (not_not.mp nonzero)]
        exact stores

end Store

/-- With fragment reuse off, after every run of page writes and truncations of an extent, a read
of a block returns the page last written to it since the last truncation inside the extent that
covered it, and a page of zeros if there is none. -/
theorem extent_reads_last_page (compression : PageCompression) (location : ExtentLocation)
    (extentStart : Nat) (file : Nat → UInt8) (events : List StoreEvent)
    (listed : location.chunkSize ∈ chunkSizeList) (inFile : extentStart + 128 ≤ relSegSize)
    (legal : ∀ event ∈ events, event.Legal location) :
    ∃ extent, events.foldl (storeStep compression location extentStart)
        (some (newStore location file)) = some extent ∧
      ∀ block < logicBlocksPerExtent, cfsReadPage compression location extentStart extent block =
          some (match lastPage block events.reverse with
            | none => zeroBytes
            | some page => page.bytes) := by
  obtain ⟨extent, reached, stores⟩ := stores_run compression location extentStart listed inFile
    file legal
  exact ⟨extent, reached, fun block inside =>
    stores.read compression listed inside⟩

/-- A compression that declines every page, as `CompressPage` declines the pages of an unknown
layout. -/
def declining : PageCompression where
  compressPage := fun _ => none
  decompressPage := fun _ => none
  nonempty := fun _ _ absent => nomatch absent
  shorter := fun _ _ absent => nomatch absent
  inverts := fun _ _ _ absent => nomatch absent

/-- A page of an unknown layout whose `pd_upper` is 1. -/
def plainPage : Page where
  bytes := List.replicate 14 0 ++ 1 :: List.replicate 8177 0
  full := by
    rw [length_append, length_cons, length_replicate, length_replicate]
    rfl

/-- The page of a block is written, cut off by a truncation and written again. -/
def rewrittenRun : List StoreEvent :=
  [.write 1 3 plainPage, .truncate 2, .write 0 3 plainPage, .write 0 1 plainPage]

/-- Pages of a block that is written, cut off and written again can be read. -/
theorem extent_reads_last_page_rewritten :
    halfPages.chunkSize ∈ chunkSizeList ∧ 0 + 128 ≤ relSegSize ∧
      (∀ event ∈ rewrittenRun, event.Legal halfPages) ∧
      ∃ extent, rewrittenRun.foldl (storeStep declining halfPages 0)
          (some (newStore halfPages fun _ => 0)) = some extent ∧
        ∀ block < logicBlocksPerExtent, cfsReadPage declining halfPages 0 extent block =
            some (match lastPage block rewrittenRun.reverse with
              | none => zeroBytes
              | some page => page.bytes) := by
  have listed : halfPages.chunkSize ∈ chunkSizeList := by decide
  have inFile : 0 + 128 ≤ relSegSize := by decide
  have legal : ∀ event ∈ rewrittenRun, event.Legal halfPages := by decide
  exact ⟨listed, inFile, legal,
    extent_reads_last_page declining halfPages 0 (fun _ => 0) rewrittenRun listed inFile legal⟩

/-- The page last written to a block since the last truncation at the block or before it, from the
events in reverse. -/
def lastPageSince (block : Nat) : List StoreEvent → Option Page
  | [] => none
  | .write _ written page :: earlier =>
    if written = block ∧ page.isNew = false then some page else lastPageSince block earlier
  | .truncate extentOffset :: earlier =>
    if extentOffset ≤ block then none else lastPageSince block earlier

/-- A truncation at the first block of the extent leaves the pages: the caller cuts the file. -/
theorem truncation_at_first_block_keeps_pages :
    ¬∀ (compression : PageCompression) (location : ExtentLocation) (extentStart : Nat)
      (file : Nat → UInt8) (events : List StoreEvent), location.chunkSize ∈ chunkSizeList →
      extentStart + 128 ≤ relSegSize → (∀ event ∈ events, event.Legal location) →
      ∃ extent, events.foldl (storeStep compression location extentStart)
          (some (newStore location file)) = some extent ∧
        ∀ block < logicBlocksPerExtent, cfsReadPage compression location extentStart extent block =
            some (match lastPageSince block events.reverse with
              | none => zeroBytes
              | some page => page.bytes) := by
  intro always
  have listed : halfPages.chunkSize ∈ chunkSizeList := by decide
  have inFile : 0 + 128 ≤ relSegSize := by decide
  have legal : ∀ event ∈ [StoreEvent.write 0 1 plainPage, .truncate 0], event.Legal halfPages := by
    decide
  obtain ⟨extent, reached, claimed⟩ := always declining halfPages 0 (fun _ => 0)
    [.write 0 1 plainPage, .truncate 0] listed inFile legal
  obtain ⟨same, again, stores⟩ := stores_run declining halfPages 0 listed inFile (fun _ => 0) legal
  rw [reached, Option.some.injEq] at again
  subst again
  have inside : 1 < logicBlocksPerExtent := by decide
  have read := stores.read declining listed inside
  rw [claimed 1 inside, Option.some.injEq] at read
  have byte := congrArg (fun bytes => bytes.getD 14 0) read
  revert byte
  decide

end OpenGauss.Cfs
