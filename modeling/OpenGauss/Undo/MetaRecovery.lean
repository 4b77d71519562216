import OpenGauss.Undo.MetaFile

/-!
# What a recovery reads out of the metadata file

`RecoveryUndoZone` and `RecoveryUndoSpace` go over the persistent zones once. They read
the file in blocks of 16384 pages, compare the CRC of every page at its first zone, and
hand the entry of every zone to the caller. Reading blocks is the same as reading every
entry at its own place in the file.
-/
namespace OpenGauss.Undo

open OpenGauss.Base

/-- Variables of the recovery walk. -/
structure MetaReader (σ : Type) where
  /-- `persistBlock`. -/
  block : List UInt8
  position : Nat
  /-- `uspMetaBuffer`, as an offset into the block. -/
  page : Nat
  state : σ

/-- Zones of one read. -/
def MetaKind.perRead (kind : MetaKind) : Nat := kind.perPage * pagesReadNum

/-- Bytes read for the block that starts at a zone. -/
def MetaKind.readSize (kind : MetaKind) (zoneId : Nat) : Nat :=
  if persistZoneCount - zoneId < kind.perRead then
    ((persistZoneCount - zoneId) / kind.perPage + 1) * undoMetaPageSize
  else undoMetaPageSize * pagesReadNum

section Recovery

variable {σ : Type} (crc : List UInt8 → UInt32) (kind : MetaKind) (file : List UInt8)
  (restore : Nat → List UInt8 → σ → σ)

/-- At the first zone of a block, read the block. -/
def readBlock (reader : MetaReader σ) (zoneId : Nat) : Option (MetaReader σ) :=
  if zoneId % kind.perRead = 0 then
    (readAt file reader.position (kind.readSize zoneId)).map fun bytes =>
      { reader with
        block := overwrite (zeros (undoMetaPageSize * pagesReadNum)) 0 bytes
        position := reader.position + kind.readSize zoneId }
  else some reader

/-- At the first zone of a page, compare its CRC. -/
def checkPage (reader : MetaReader σ) (zoneId : Nat) : Option (MetaReader σ) :=
  if zoneId % kind.perPage = 0 then
    let page := zoneId % kind.perRead / kind.perPage * undoMetaPageSize
    let count := if persistZoneCount - zoneId < kind.perPage then persistZoneCount - zoneId
      else kind.perPage
    if u32.read (slice reader.block (page + kind.entrySize * count) 4) =
        crc (slice reader.block page (kind.entrySize * count)) then
      some { reader with page := page }
    else none
  else some reader

/-- Hand the entry of a zone to the caller. -/
def restoreEntry (reader : MetaReader σ) (zoneId : Nat) : MetaReader σ :=
  let entry := slice reader.block (reader.page + zoneId % kind.perPage * kind.entrySize)
    kind.entrySize
  { reader with state := restore zoneId entry reader.state }

/-- One pass of the loop. -/
def recoveryStep (reader : MetaReader σ) (zoneId : Nat) : Option (MetaReader σ) :=
  ((readBlock kind file reader zoneId).bind fun reader => checkPage crc kind reader zoneId).map
    fun reader => restoreEntry kind restore reader zoneId

/-- The walk of `RecoveryUndoZone` and `RecoveryUndoSpace` over one area of the file; an
error of the source is `none`. -/
def recoverTable (base : Nat) (state : σ) : Option σ :=
  ((List.range persistZoneCount).foldlM (recoveryStep crc kind file restore)
    ⟨zeros (undoMetaPageSize * pagesReadNum), base, 0, state⟩).map MetaReader.state

/-- Entry of a zone in an area of the file. -/
def entryAt (base zoneId : Nat) : List UInt8 :=
  slice file (base + zoneId / kind.perPage * undoMetaPageSize +
    zoneId % kind.perPage * kind.entrySize) kind.entrySize

/-- The CRC of every page of an area matches. -/
def CrcsMatch (base : Nat) : Prop :=
  ∀ page < kind.pageCount,
    CrcMatches crc kind file (base + page * undoMetaPageSize) (kind.countOn page)

/-- An area of the file that a recovery accepts. -/
structure AreaValid (base : Nat) : Prop where
  room : base + kind.pageCount * undoMetaPageSize ≤ file.length
  crcs : CrcsMatch crc kind file base

theorem MetaKind.reads (kind : MetaKind) :
    kind.perPage = 7 ∧ kind.perRead = 114688 ∧ kind.pageCount = 49933 ∨
      kind.perPage = 15 ∧ kind.perRead = 245760 ∧ kind.pageCount = 23302 := by
  cases kind
  · exact .inl ⟨rfl, rfl, rfl⟩
  · exact .inr ⟨rfl, rfl, rfl⟩

theorem MetaKind.readSize_cases (kind : MetaKind) (zoneId : Nat) : 349525 - zoneId < kind.perRead ∧
        kind.readSize zoneId = ((349525 - zoneId) / kind.perPage + 1) * 512 ∨
      kind.perRead ≤ 349525 - zoneId ∧ kind.readSize zoneId = 8388608 := by
  unfold readSize
  split
  · exact .inl ⟨by assumption, rfl⟩
  · exact .inr ⟨Nat.le_of_not_lt (by assumption), rfl⟩

theorem MetaKind.readSize_fits (kind : MetaKind) {zoneId : Nat}
    (inside : zoneId < persistZoneCount) :
    let size := kind.readSize (zoneId / kind.perRead * kind.perRead)
    zoneId % kind.perRead / kind.perPage * undoMetaPageSize + undoMetaPageSize ≤ size ∧
      size ≤ undoMetaPageSize * pagesReadNum ∧
      zoneId / kind.perRead * (undoMetaPageSize * pagesReadNum) + size ≤
        kind.pageCount * undoMetaPageSize := by
  intro size
  have sizes := kind.readSize_cases (zoneId / kind.perRead * kind.perRead)
  simp only [size, persistZoneCount, undoMetaPageSize, pagesReadNum] at *
  generalize kind.readSize (zoneId / kind.perRead * kind.perRead) = bytes at *
  rcases kind.reads with ⟨perPage, perRead, pages⟩ | ⟨perPage, perRead, pages⟩ <;>
    rw [perRead] at sizes ⊢ <;> rw [pages] <;> lia

theorem MetaKind.readSize_full (kind : MetaKind) (zoneId : Nat)
    (inside : zoneId < persistZoneCount) (last : (zoneId + 1) % kind.perRead = 0) :
    kind.readSize (zoneId / kind.perRead * kind.perRead) = undoMetaPageSize * pagesReadNum ∧
      (zoneId + 1) / kind.perRead = zoneId / kind.perRead + 1 := by
  have sizes := kind.readSize_cases (zoneId / kind.perRead * kind.perRead)
  simp only [persistZoneCount, undoMetaPageSize, pagesReadNum] at *
  generalize kind.readSize (zoneId / kind.perRead * kind.perRead) = bytes at *
  rcases kind.reads with ⟨perPage, perRead, -⟩ | ⟨perPage, perRead, -⟩ <;>
    rw [perRead] at sizes <;> rw [perRead] at last ⊢ <;> lia

theorem MetaKind.read_place (kind : MetaKind) (zoneId : Nat) :
    zoneId / kind.perRead * (undoMetaPageSize * pagesReadNum) +
      zoneId % kind.perRead / kind.perPage * undoMetaPageSize =
        zoneId / kind.perPage * undoMetaPageSize := by
  simp only [undoMetaPageSize, pagesReadNum] at *
  rcases kind.reads with ⟨perPage, perRead, -⟩ | ⟨perPage, perRead, -⟩ <;>
    rw [perPage] <;> lia

theorem MetaKind.next_zone (kind : MetaKind) (zoneId : Nat) :
    ((zoneId + 1) % kind.perRead ≠ 0 → (zoneId + 1) / kind.perRead = zoneId / kind.perRead) ∧
      ((zoneId + 1) % kind.perPage ≠ 0 →
        (zoneId + 1) % kind.perRead / kind.perPage = zoneId % kind.perRead / kind.perPage) := by
  rcases kind.reads with ⟨perPage, perRead, -⟩ | ⟨perPage, perRead, -⟩ <;>
    rw [perPage] <;> lia

theorem MetaKind.countOn_first (kind : MetaKind) (zoneId : Nat)
    (inside : zoneId < persistZoneCount) (first : zoneId % kind.perPage = 0) :
    (if persistZoneCount - zoneId < kind.perPage then persistZoneCount - zoneId
      else kind.perPage) = kind.countOn (zoneId / kind.perPage) ∧
      zoneId / kind.perPage < kind.pageCount := by
  have number : zoneId / kind.perPage * kind.perPage = zoneId :=
    Nat.div_mul_cancel (Nat.dvd_of_mod_eq_zero first)
  constructor
  · unfold MetaKind.countOn
    split <;> grind
  · simp only [persistZoneCount] at inside
    rcases kind.reads with ⟨perPage, -, pages⟩ | ⟨perPage, -, pages⟩ <;>
      rw [perPage] <;> lia
theorem MetaKind.slot_fits (kind : MetaKind) (zoneId : Nat) :
    zoneId % kind.perPage * kind.entrySize + kind.entrySize ≤ undoMetaPageSize := by
  simp only [undoMetaPageSize]
  rcases kind.sizes with ⟨entry, perPage, -⟩ | ⟨entry, perPage, -⟩ <;>
    rw [entry] <;> lia

/-- The memory block agrees with the part of the file it was read from. -/
def BlockLoaded (base zoneId : Nat) (block : List UInt8) : Prop :=
  ∀ start count, start + count ≤ kind.readSize (zoneId / kind.perRead * kind.perRead) →
    slice block start count =
      slice file (base + zoneId / kind.perRead * (undoMetaPageSize * pagesReadNum) + start) count

/-- The walk before a zone. -/
structure Recovering (base : Nat) (state : σ) (zoneId : Nat) (reader : MetaReader σ) : Prop where
  atBlock : zoneId % kind.perRead = 0 →
    reader.position = base + zoneId / kind.perRead * (undoMetaPageSize * pagesReadNum)
  /-- Inside a block, the memory agrees with the file and the position is behind the block. -/
  loaded : zoneId % kind.perRead ≠ 0 → BlockLoaded kind file base zoneId reader.block ∧
    reader.position = base + zoneId / kind.perRead * (undoMetaPageSize * pagesReadNum) +
      kind.readSize (zoneId / kind.perRead * kind.perRead)
  page : zoneId % kind.perPage ≠ 0 →
    reader.page = zoneId % kind.perRead / kind.perPage * undoMetaPageSize
  state : reader.state = (List.range zoneId).foldl
    (fun state zoneId => restore zoneId (entryAt kind file base zoneId) state) state

theorem BlockLoaded.page {base zoneId : Nat} {block : List UInt8} (start count : Nat)
    (loaded : BlockLoaded kind file base zoneId block) (inside : zoneId < persistZoneCount)
    (fits : start + count ≤ undoMetaPageSize) :
    slice block (zoneId % kind.perRead / kind.perPage * undoMetaPageSize + start) count =
      slice file (base + zoneId / kind.perPage * undoMetaPageSize + start) count := by
  obtain ⟨onPage, -, -⟩ := kind.readSize_fits inside
  have place := kind.read_place zoneId
  rw [loaded _ _ (by lia), ← place]
  simp only [Nat.add_assoc]

/-- A block is read where one begins. -/
theorem Recovering.readBlock (base : Nat) (state : σ) (zoneId : Nat) (reader : MetaReader σ)
    (recovering : Recovering kind file restore base state zoneId reader)
    (inside : zoneId < persistZoneCount)
    (room : base + kind.pageCount * undoMetaPageSize ≤ file.length) :
    ∃ block position, Undo.readBlock kind file reader zoneId =
        some ⟨block, position, reader.page, reader.state⟩ ∧
      BlockLoaded kind file base zoneId block ∧
      position = base + zoneId / kind.perRead * (undoMetaPageSize * pagesReadNum) +
        kind.readSize (zoneId / kind.perRead * kind.perRead) := by
  by_cases first : zoneId % kind.perRead = 0
  · have number : zoneId / kind.perRead * kind.perRead = zoneId :=
      Nat.div_mul_cancel (Nat.dvd_of_mod_eq_zero first)
    obtain ⟨-, small, fits⟩ := kind.readSize_fits inside
    rw [number] at small fits
    have enough : reader.position + kind.readSize zoneId ≤ file.length := by
      rw [recovering.atBlock first]
      omega
    refine ⟨overwrite (zeros (undoMetaPageSize * pagesReadNum)) 0
      (slice file reader.position (kind.readSize zoneId)), reader.position + kind.readSize zoneId,
      ?_, ?_, ?_⟩
    · unfold Undo.readBlock readAt
      rw [if_pos first, if_pos enough]
      rfl
    · intro start count within
      rw [number] at within
      have length := slice_length file reader.position (kind.readSize zoneId) enough
      have moved := slice_overwrite_inside (zeros (undoMetaPageSize * pagesReadNum)) 0
        (slice file reader.position (kind.readSize zoneId)) start count (by lia) (Nat.zero_le _)
      rw [Nat.zero_add] at moved
      rw [moved, slice_slice _ _ _ _ _ within, recovering.atBlock first]
    · rw [number, recovering.atBlock first]
  · obtain ⟨loaded, position⟩ := recovering.loaded first
    refine ⟨reader.block, reader.position, ?_, loaded, position⟩
    unfold Undo.readBlock
    rw [if_neg first]

/-- A page with the right checksum passes. -/
theorem checkPage_loaded (base zoneId : Nat) (reader : MetaReader σ)
    (loaded : BlockLoaded kind file base zoneId reader.block) (inside : zoneId < persistZoneCount)
    (current : zoneId % kind.perPage ≠ 0 →
      reader.page = zoneId % kind.perRead / kind.perPage * undoMetaPageSize)
    (crcs : CrcsMatch crc kind file base) :
    checkPage crc kind reader zoneId =
      some { reader with page := zoneId % kind.perRead / kind.perPage * undoMetaPageSize } := by
  unfold checkPage
  by_cases first : zoneId % kind.perPage = 0
  · obtain ⟨count, below⟩ := kind.countOn_first zoneId inside first
    have fits := countOn_fits kind (zoneId / kind.perPage)
    have front := loaded.page kind file 0
      (kind.entrySize * kind.countOn (zoneId / kind.perPage)) inside (by lia)
    rw [Nat.add_zero] at front
    have behind := loaded.page kind file _ 4 inside fits
    simp only [first, count, front, behind]
    exact if_pos (crcs _ below)
  · rw [if_neg first, ← current first]

variable (base : Nat) (state : σ)

/-- One more zone is recovered. -/
theorem Recovering.step {zoneId : Nat} {reader : MetaReader σ}
    (recovering : Recovering kind file restore base state zoneId reader)
    (inside : zoneId < persistZoneCount)
    (room : base + kind.pageCount * undoMetaPageSize ≤ file.length)
    (crcs : CrcsMatch crc kind file base) :
    ∃ reader', recoveryStep crc kind file restore reader zoneId = some reader' ∧
      Recovering kind file restore base state (zoneId + 1) reader' := by
  obtain ⟨block, position, read, loaded, behind⟩ :=
    recovering.readBlock kind file restore base state zoneId reader inside room
  have checked := checkPage_loaded crc kind file base zoneId
    ⟨block, position, reader.page, reader.state⟩ loaded inside recovering.page crcs
  obtain ⟨sameBlock, samePage⟩ := kind.next_zone zoneId
  refine ⟨_, by unfold recoveryStep; rw [read, Option.bind_some, checked]; rfl, ?_⟩
  constructor
  · intro newBlock
    obtain ⟨full, next⟩ := kind.readSize_full zoneId inside newBlock
    rw [next]
    change position = _
    rw [behind, full]
    ring
  · intro inBlock
    unfold BlockLoaded
    rw [sameBlock inBlock]
    exact ⟨loaded, behind⟩
  · intro onPage
    rw [samePage onPage]
    rfl
  · rw [List.range_succ, List.foldl_append, ← recovering.state]
    have entry := loaded.page kind file (zoneId % kind.perPage * kind.entrySize)
      kind.entrySize inside (kind.slot_fits zoneId)
    simp only [restoreEntry, List.foldl_cons, List.foldl_nil, entryAt, entry]

/-- All zones are recovered. -/
theorem Recovering.run (zones : Nat) (inside : zones ≤ persistZoneCount)
    (room : base + kind.pageCount * undoMetaPageSize ≤ file.length)
    (crcs : CrcsMatch crc kind file base) :
    ∃ reader, (List.range zones).foldlM (recoveryStep crc kind file restore)
        ⟨zeros (undoMetaPageSize * pagesReadNum), base, 0, state⟩ = some reader ∧
      Recovering kind file restore base state zones reader := by
  induction zones with
  | zero =>
    refine ⟨_, rfl, ?_⟩
    constructor
    · intro _
      rw [Nat.zero_div, Nat.zero_mul, Nat.add_zero]
    · intro inner
      exact absurd (Nat.zero_mod _) inner
    · intro inner
      exact absurd (Nat.zero_mod _) inner
    · rfl
  | succ zones ih =>
    obtain ⟨reader, reached, recovering⟩ := ih (by omega)
    obtain ⟨reader', step, next⟩ := recovering.step crc kind file restore base state
      (by omega) room crcs
    refine ⟨reader', ?_, next⟩
    rw [List.range_succ, List.foldlM_append, reached]
    simp [step]

variable {kind file crc}

theorem recoverTable_eq (valid : AreaValid crc kind file base) :
    recoverTable crc kind file restore base state = some ((List.range persistZoneCount).foldl
      (fun state zoneId => restore zoneId (entryAt kind file base zoneId) state) state) := by
  obtain ⟨reader, reached, recovering⟩ :=
    Recovering.run crc kind file restore base state persistZoneCount le_rfl valid.room valid.crcs
  unfold recoverTable
  rw [reached, Option.map_some, recovering.state]

theorem MetaKind.zone_place (kind : MetaKind) {zoneId : Nat} (inside : zoneId < persistZoneCount) :
    zoneId / kind.perPage < kind.pageCount ∧
      zoneId % kind.perPage < kind.countOn (zoneId / kind.perPage) ∧
      zoneId / kind.perPage * kind.perPage + zoneId % kind.perPage = zoneId ∧
      zoneId / kind.perPage / 8 = zoneId / kind.perWrite := by
  simp only [MetaKind.countOn, persistZoneCount] at *
  rcases kind.area with ⟨perPage, perWrite, pages⟩ | ⟨perPage, perWrite, pages⟩ <;>
    rw [perPage] <;> lia

theorem entryAt_holds {image : Nat → List UInt8} {base zoneId : Nat}
    (inside : zoneId < persistZoneCount) (holds : PageHolds crc kind image file
      (base + zoneId / kind.perPage * undoMetaPageSize) (zoneId / kind.perPage)) :
    entryAt kind file base zoneId = image zoneId := by
  obtain ⟨-, slot, number, -⟩ := kind.zone_place inside
  have entry := holds.entries _ slot
  rw [number] at entry
  exact entry

theorem entryAt_kept {file' : List UInt8} {base zoneId : Nat}
    (same : slice file' (base + zoneId / kind.perPage * undoMetaPageSize) undoMetaPageSize =
      slice file (base + zoneId / kind.perPage * undoMetaPageSize) undoMetaPageSize) :
    entryAt kind file' base zoneId = entryAt kind file base zoneId := by
  have fits := kind.slot_fits zoneId
  unfold entryAt
  rw [← slice_slice _ _ _ _ _ fits, same, slice_slice _ _ _ _ _ fits]

theorem crcMatches_kept {file' : List UInt8} {offset page : Nat}
    (same : slice file' offset undoMetaPageSize = slice file offset undoMetaPageSize)
    (matched : CrcMatches crc kind file offset (kind.countOn page)) :
    CrcMatches crc kind file' offset (kind.countOn page) := by
  have fits := countOn_fits kind page
  have front := slice_slice file' offset undoMetaPageSize 0
    (kind.entrySize * kind.countOn page) (by omega)
  have front' := slice_slice file offset undoMetaPageSize 0
    (kind.entrySize * kind.countOn page) (by omega)
  rw [Nat.add_zero] at front front'
  unfold CrcMatches at *
  rw [← front, ← slice_slice file' _ _ _ _ fits, same, slice_slice file _ _ _ _ fits, front']
  exact matched

end Recovery

end OpenGauss.Undo
