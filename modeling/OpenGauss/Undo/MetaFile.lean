import Mathlib.Logic.Function.Iterate
import OpenGauss.Base.Bytes
import OpenGauss.Undo.Pointer

/-!
# The undo metadata file

The persistent zones keep their metadata in one file of 512-byte pages: as many entries
as fit, and behind them the CRC of those entries. `CheckPointUndoZone` and
`CheckPointUndoSpace` share one walk over the zones that collects write units of eight
pages and writes a unit when one of its zones is dirty; `RecoveryUndoZone` and
`RecoveryUndoSpace` share one walk that reads blocks of 16384 pages and checks every
page. This module holds both walks over an arbitrary entry image and says which pages a
checkpoint replaces and what a recovery reads.
-/
namespace OpenGauss.Undo

open OpenGauss.Base

/-- `PERSIST_ZONE_COUNT`: a third of `UNDO_ZONE_COUNT`. -/
def persistZoneCount : Nat := 349525

/-- `UNDO_META_PAGE_SIZE`. -/
def undoMetaPageSize : Nat := 512

/-- `UNDO_META_PAGE_CRC_LENGTH`. -/
def undoMetaPageCrcLength : Nat := 4

/-- `UNDO_WRITE_SIZE`. -/
def undoWriteSize : Nat := undoMetaPageSize * 8

/-- `PAGES_READ_NUM`. -/
def pagesReadNum : Nat := 16384

/-- `UNDOZONE_META_PAGE_COUNT` and `UNDOSPACE_META_PAGE_COUNT`. -/
def metaPageCount (total unit : Nat) : Nat :=
  if total % unit = 0 then total / unit else total / unit + 1

/-- The two entry types of the file. -/
inductive MetaKind where
  | zone
  | space
deriving DecidableEq

namespace MetaKind

/-- `sizeof(UndoZoneMetaInfo)` and `sizeof(UndoSpaceMetaInfo)`. -/
def entrySize : MetaKind → Nat
  | zone => 64
  | space => 32

/-- `UNDOZONE_COUNT_PER_PAGE` and `UNDOSPACE_COUNT_PER_PAGE`. -/
def perPage (kind : MetaKind) : Nat :=
  (undoMetaPageSize - undoMetaPageCrcLength) / kind.entrySize

/-- `UNDOZONE_COUNT_PER_WRITE` and `UNDOSPACE_COUNT_PER_WRITE`. -/
def perWrite (kind : MetaKind) : Nat := kind.perPage * 8

/-- Pages of all persistent zones. -/
def pageCount (kind : MetaKind) : Nat := metaPageCount persistZoneCount kind.perPage

/-- Entries on a page. -/
def countOn (kind : MetaKind) (page : Nat) : Nat :=
  min kind.perPage (persistZoneCount - page * kind.perPage)

/-- What the zone walk and the space walk divide the remaining zones by when they size
the last write. -/
def lastWriteUnit : MetaKind → Nat
  | zone => perPage zone
  | space => perWrite space

/-- Bytes written for the unit that starts at a zone. -/
def writeSize (kind : MetaKind) (loop : Nat) : Nat :=
  if persistZoneCount - loop < kind.perWrite then
    ((persistZoneCount - loop) / kind.lastWriteUnit + 1) * undoMetaPageSize
  else undoWriteSize

/-- Whether the flag of a unit is cleared at its start; the space walk relies on the flush
of the unit before. -/
def clearsFlag : MetaKind → Bool
  | zone => true
  | space => false

/-- Whether the write of its unit reaches a page. -/
def covered (kind : MetaKind) (page : Nat) : Prop :=
  page % 8 * undoMetaPageSize + undoMetaPageSize ≤ kind.writeSize (page / 8 * kind.perWrite)

instance (kind : MetaKind) (page : Nat) : Decidable (kind.covered page) :=
  inferInstanceAs (Decidable (_ ≤ _))

end MetaKind

/-- Zeroed memory. -/
def zeros (count : Nat) : List UInt8 := List.replicate count 0

/-- `write` at a file position; a file that ends before it is filled up with zeros. -/
def writeAt (file : List UInt8) (position : Nat) (data : List UInt8) : List UInt8 :=
  overwrite (file ++ zeros (position - file.length)) position data

/-- `read` at a file position; a short read is an error of the callers. -/
def readAt (file : List UInt8) (position size : Nat) : Option (List UInt8) :=
  if position + size ≤ file.length then some (slice file position size) else none

theorem writeAt_inside (file : List UInt8) (position : Nat) (data : List UInt8)
    (inside : position ≤ file.length) : writeAt file position data = overwrite file position data := by
  simp [writeAt, zeros, Nat.sub_eq_zero_of_le inside]

/-- How a table of zones is stored in one area of the file. -/
structure MetaTable (ζ : Type) where
  kind : MetaKind
  base : Nat
  entry : Nat → Option ζ → List UInt8
  dirty : ζ → Bool
  clean : ζ → ζ
  entry_length : ∀ zoneId zone, (entry zoneId zone).length = kind.entrySize

/-- Variables of the checkpoint walk. -/
structure MetaWriter (ζ : Type) where
  file : List UInt8
  zones : Nat → Option ζ
  /-- `uspMetaPagebuffer`. -/
  buffer : List UInt8
  /-- `needFlushMetaPage`. -/
  needFlush : Bool
  cycle : Nat
  /-- `writeSize`. -/
  writeSize : Nat

/-- What the walk leaves behind. -/
def MetaWriter.outcome {ζ : Type} (writer : MetaWriter ζ) : List UInt8 × (Nat → Option ζ) :=
  (writer.file, writer.zones)

section Checkpoint

variable {ζ : Type} (crc : List UInt8 → UInt32) (table : MetaTable ζ)

/-- Put the entry of a zone into the buffer. -/
def placeEntry (buffer : List UInt8) (cycle : Nat) (image : List UInt8) : List UInt8 :=
  let pageOffset := cycle % table.kind.perWrite / table.kind.perPage * undoMetaPageSize
  overwrite buffer (pageOffset + cycle % table.kind.perPage * table.kind.entrySize) image

/-- Behind the last entry of a page, store the CRC of its entries. -/
def sealPage (buffer : List UInt8) (cycle : Nat) : List UInt8 :=
  let pageOffset := cycle % table.kind.perWrite / table.kind.perPage * undoMetaPageSize
  if (cycle + 1) % table.kind.perPage = 0 ∨ cycle = persistZoneCount - 1 then
    let crcSize := if cycle = persistZoneCount - 1 then
        persistZoneCount % table.kind.perPage * table.kind.entrySize
      else table.kind.perPage * table.kind.entrySize
    overwrite buffer (pageOffset + crcSize) (u32.write (crc (slice buffer pageOffset crcSize)))
  else buffer

/-- One pass of the inner loop: put a zone into the buffer, mark it clean, and write the
buffer behind the last zone of the unit. -/
def flushBody (writer : MetaWriter ζ) : MetaWriter ζ :=
  let cycle := writer.cycle
  let image := table.entry cycle (writer.zones cycle)
  let buffer := sealPage crc table (placeEntry table writer.buffer cycle image) cycle
  let zones := Function.update writer.zones cycle ((writer.zones cycle).map table.clean)
  if (cycle + 1) % table.kind.perWrite = 0 ∨ cycle = persistZoneCount - 1 then
    let position := table.base + cycle / table.kind.perWrite * undoWriteSize
    { writer with
      file := writeAt writer.file position (buffer.take writer.writeSize)
      zones := zones
      buffer := buffer
      needFlush := false
      cycle := cycle + 1 }
  else { writer with zones := zones, buffer := buffer, cycle := cycle + 1 }

/-- At the first zone of a write unit, start an empty buffer. -/
def startUnit (writer : MetaWriter ζ) (loop : Nat) : MetaWriter ζ :=
  if loop % table.kind.perWrite = 0 then
    { writer with
      cycle := loop
      buffer := zeros undoWriteSize
      writeSize := table.kind.writeSize loop
      needFlush := if table.kind.clearsFlag then false else writer.needFlush }
  else writer

/-- A dirty zone makes its whole unit be written. -/
def noteDirty (writer : MetaWriter ζ) (loop : Nat) : MetaWriter ζ :=
  if (writer.zones loop).any table.dirty then { writer with needFlush := true } else writer

/-- One pass of the outer loop. The inner loop runs while `cycle ≤ loop`. -/
def checkPointStep (writer : MetaWriter ζ) (loop : Nat) : MetaWriter ζ :=
  let writer := noteDirty table (startUnit table writer loop) loop
  if writer.needFlush ∧
      ((loop + 1) % table.kind.perWrite = 0 ∨ loop + 1 = persistZoneCount) then
    (flushBody crc table)^[loop + 1 - writer.cycle] writer
  else writer

/-- The walk of `CheckPointUndoZone` and `CheckPointUndoSpace` over the persistent zones:
the file and the zones afterwards. -/
def checkPointTable (file : List UInt8) (zones : Nat → Option ζ) :
    List UInt8 × (Nat → Option ζ) :=
  ((List.range persistZoneCount).foldl (checkPointStep crc table)
    ⟨file, zones, zeros undoWriteSize, false, 0, 0⟩).outcome

end Checkpoint

theorem MetaKind.sizes (kind : MetaKind) :
    kind.entrySize = 64 ∧ kind.perPage = 7 ∧ kind.perWrite = 56 ∨
      kind.entrySize = 32 ∧ kind.perPage = 15 ∧ kind.perWrite = 120 := by
  cases kind
  · exact .inl ⟨rfl, rfl, rfl⟩
  · exact .inr ⟨rfl, rfl, rfl⟩

theorem MetaKind.area (kind : MetaKind) :
    kind.perPage = 7 ∧ kind.perWrite = 56 ∧ kind.pageCount = 49933 ∨
      kind.perPage = 15 ∧ kind.perWrite = 120 ∧ kind.pageCount = 23302 := by
  cases kind
  · exact .inl ⟨rfl, rfl, rfl⟩
  · exact .inr ⟨rfl, rfl, rfl⟩

section Pages

variable {ζ : Type} (crc : List UInt8 → UInt32) (kind : MetaKind)

/-- The stored CRC matches the entries of a page, as the recovery compares them. -/
def CrcMatches (bytes : List UInt8) (offset count : Nat) : Prop :=
  u32.read (slice bytes (offset + kind.entrySize * count) 4) =
    crc (slice bytes offset (kind.entrySize * count))

/-- A page of the area lies at an offset, complete with its entries and its CRC. -/
structure PageHolds (image : Nat → List UInt8) (bytes : List UInt8) (offset page : Nat) : Prop where
  entries : ∀ slot < kind.countOn page,
    slice bytes (offset + slot * kind.entrySize) kind.entrySize = image (page * kind.perPage + slot)
  crcMatches : CrcMatches crc kind bytes offset (kind.countOn page)

theorem countOn_fits (page : Nat) : kind.entrySize * kind.countOn page + 4 ≤ undoMetaPageSize := by
  have few : kind.countOn page ≤ kind.perPage := Nat.min_le_left _ _
  simp only [undoMetaPageSize]
  rcases kind.sizes with ⟨entry, perPage, -⟩ | ⟨entry, perPage, -⟩ <;>
    rw [entry] <;> rw [perPage] at few <;> omega

variable {crc kind}

/-- A page holds by its bytes. -/
theorem PageHolds.congr {image : Nat → List UInt8} {left right : List UInt8}
    {leftOffset rightOffset page : Nat}
    (same : slice left leftOffset undoMetaPageSize = slice right rightOffset undoMetaPageSize)
    (holds : PageHolds crc kind image left leftOffset page) :
    PageHolds crc kind image right rightOffset page := by
  have fits := countOn_fits kind page
  have part (skip count : Nat) (inside : skip + count ≤ undoMetaPageSize) :
      slice left (leftOffset + skip) count = slice right (rightOffset + skip) count := by
    rw [← slice_slice left leftOffset undoMetaPageSize skip count inside, same,
      slice_slice right rightOffset undoMetaPageSize skip count inside]
  constructor
  · intro slot below
    have reach : slot * kind.entrySize + kind.entrySize ≤ kind.entrySize * kind.countOn page := by
      rw [Nat.mul_comm]
      exact Nat.mul_le_mul_left _ below
    rw [← part _ _ (by omega)]
    exact holds.entries slot below
  · have front := part 0 (kind.entrySize * kind.countOn page) (by omega)
    rw [Nat.add_zero, Nat.add_zero] at front
    unfold CrcMatches
    rw [← front, ← part _ _ fits]
    exact holds.crcMatches

end Pages

section Filling

variable {ζ : Type} (crc : List UInt8 → UInt32) (table : MetaTable ζ)

/-- Offset of an entry in the buffer, by its number in the unit. -/
def MetaKind.place (kind : MetaKind) (index : Nat) : Nat :=
  index / kind.perPage * undoMetaPageSize + index % kind.perPage * kind.entrySize

/-- Zones of a write unit. -/
def MetaKind.unitSize (kind : MetaKind) (unit : Nat) : Nat :=
  min kind.perWrite (persistZoneCount - unit * kind.perWrite)

/-- The buffer of a unit after its first zones. -/
structure Filled (image : Nat → List UInt8) (unit index : Nat) (buffer : List UInt8) : Prop where
  length : buffer.length = undoWriteSize
  entries : ∀ earlier < index, slice buffer (table.kind.place earlier) table.kind.entrySize =
    image (unit * table.kind.perWrite + earlier)
  crcs : ∀ page < 8, page * table.kind.perPage + table.kind.countOn (unit * 8 + page) ≤ index →
    CrcMatches crc table.kind buffer (page * undoMetaPageSize) (table.kind.countOn (unit * 8 + page))

variable (buffer : List UInt8) (image : Nat → List UInt8) (kind : MetaKind) (unit index : Nat)

theorem placeEntry_eq (image : List UInt8) (inside : index < table.kind.unitSize unit) :
    placeEntry table buffer (unit * table.kind.perWrite + index) image =
      overwrite buffer (table.kind.place index) image := by
  unfold placeEntry MetaKind.place
  unfold MetaKind.unitSize at inside
  rcases table.kind.sizes with ⟨-, perPage, perWrite⟩ | ⟨-, perPage, perWrite⟩ <;>
    rw [perPage, perWrite] <;> rw [perWrite] at inside
  · rw [show (unit * 56 + index) % 56 = index by lia, show (unit * 56 + index) % 7 = index % 7 by lia]
  · rw [show (unit * 120 + index) % 120 = index by lia,
      show (unit * 120 + index) % 15 = index % 15 by lia]

/-- A page is sealed with its checksum. -/
theorem sealPage_eq (inside : index < table.kind.unitSize unit) :
    sealPage crc table buffer (unit * table.kind.perWrite + index) =
      let offset := index / table.kind.perPage * undoMetaPageSize
      let count := table.kind.countOn (unit * 8 + index / table.kind.perPage)
      if index % table.kind.perPage + 1 = count then
        overwrite buffer (offset + table.kind.entrySize * count)
          (u32.write (crc (slice buffer offset (table.kind.entrySize * count))))
      else buffer := by
  simp only [sealPage, MetaKind.countOn, MetaKind.unitSize, persistZoneCount] at *
  rcases table.kind.sizes with ⟨entry, perPage, perWrite⟩ | ⟨entry, perPage, perWrite⟩ <;>
    simp only [entry, perPage, perWrite] at *
  · have offset : (unit * 56 + index) % 56 / 7 = index / 7 := by omega
    by_cases last : index % 7 + 1 = min 7 (349525 - (unit * 8 + index / 7) * 7)
    · have crcSize : (if unit * 56 + index = 349525 - 1 then 349525 % 7 * 64 else 7 * 64) =
          64 * min 7 (349525 - (unit * 8 + index / 7) * 7) := by
        split <;> omega
      rw [if_pos (by lia), if_pos last, crcSize, offset]
    · rw [if_neg (by omega), if_neg last]
  · have offset : (unit * 120 + index) % 120 / 15 = index / 15 := by omega
    by_cases last : index % 15 + 1 = min 15 (349525 - (unit * 8 + index / 15) * 15)
    · have crcSize : (if unit * 120 + index = 349525 - 1 then 349525 % 15 * 32 else 15 * 32) =
          32 * min 15 (349525 - (unit * 8 + index / 15) * 15) := by
        split <;> omega
      rw [if_pos (by lia), if_pos last, crcSize, offset]
    · rw [if_neg (by omega), if_neg last]

theorem MetaKind.place_bounds (inside : index < kind.unitSize unit) :
    kind.place index + kind.entrySize ≤ undoWriteSize ∧
      kind.place index + kind.entrySize = index / kind.perPage * undoMetaPageSize +
        kind.entrySize * (index % kind.perPage + 1) ∧ kind.place index + kind.entrySize + 4 ≤
        index / kind.perPage * undoMetaPageSize + undoMetaPageSize ∧ index / kind.perPage < 8 := by
  simp only [MetaKind.place, MetaKind.unitSize, undoWriteSize, undoMetaPageSize] at *
  rcases kind.sizes with ⟨entry, perPage, perWrite⟩ | ⟨entry, perPage, perWrite⟩ <;>
    simp only [entry, perPage] at * <;> omega

theorem MetaKind.place_lt {earlier index : Nat} (before : earlier < index) :
    kind.place earlier + kind.entrySize ≤ kind.place index := by
  simp only [MetaKind.place, undoMetaPageSize] at *
  rcases kind.sizes with ⟨entry, perPage, perWrite⟩ | ⟨entry, perPage, perWrite⟩ <;>
    simp only [entry] at * <;> lia

theorem MetaKind.page_before {unit page index : Nat} (inside : index < kind.unitSize unit)
    (complete : page * kind.perPage + kind.countOn (unit * 8 + page) ≤ index) :
    page < index / kind.perPage := by
  simp only [MetaKind.unitSize, MetaKind.countOn] at *
  rcases kind.sizes with ⟨entry, perPage, perWrite⟩ | ⟨entry, perPage, perWrite⟩ <;>
    simp only [perPage, perWrite] at * <;> omega

theorem MetaKind.page_completed {unit page index : Nat} (inside : index < kind.unitSize unit)
    (complete : page * kind.perPage + kind.countOn (unit * 8 + page) ≤ index + 1)
    (later : ¬ page * kind.perPage + kind.countOn (unit * 8 + page) ≤ index) :
    page = index / kind.perPage ∧
      index % kind.perPage + 1 = kind.countOn (unit * 8 + index / kind.perPage) := by
  simp only [MetaKind.unitSize, MetaKind.countOn, persistZoneCount] at *
  rcases kind.sizes with ⟨entry, perPage, perWrite⟩ | ⟨entry, perPage, perWrite⟩ <;>
    simp only [perPage, perWrite] at *
  · lia
  · lia

/-- One more entry is placed. -/
theorem Filled.place {image : Nat → List UInt8} {unit index : Nat} {buffer entry : List UInt8}
    (filled : Filled crc table image unit index buffer) (inside : index < table.kind.unitSize unit)
    (isEntry : entry = image (unit * table.kind.perWrite + index))
    (width : entry.length = table.kind.entrySize) :
    let placed := overwrite buffer (table.kind.place index) entry
    placed.length = undoWriteSize ∧
      (∀ earlier < index + 1, slice placed (table.kind.place earlier) table.kind.entrySize =
        image (unit * table.kind.perWrite + earlier)) ∧
      ∀ page < 8, page * table.kind.perPage + table.kind.countOn (unit * 8 + page) ≤ index →
        CrcMatches crc table.kind placed (page * undoMetaPageSize)
          (table.kind.countOn (unit * 8 + page)) := by
  intro placed
  obtain ⟨fits, -, -, -⟩ := table.kind.place_bounds unit index inside
  have room : table.kind.place index ≤ buffer.length := by
    rw [filled.length]
    lia
  refine ⟨?_, ?_, ?_⟩
  · rw [overwrite_length _ _ _ (by rw [width, filled.length]; exact fits), filled.length]
  · intro earlier below
    rcases Nat.lt_succ_iff_lt_or_eq.mp below with before | rfl
    · have apart := table.kind.place_lt before
      rw [slice_overwrite_before _ _ _ _ _ apart room]
      exact filled.entries earlier before
    · have whole := slice_overwrite_inside buffer (table.kind.place earlier) entry 0 entry.length
        (by omega) room
      rw [slice_whole, Nat.add_zero, width] at whole
      rw [whole, isEntry]
  · intro page small complete
    have before := table.kind.page_before inside complete
    have count := countOn_fits table.kind (unit * 8 + page)
    have apart : page * undoMetaPageSize + undoMetaPageSize ≤ table.kind.place index := by
      unfold MetaKind.place undoMetaPageSize
      lia
    unfold CrcMatches
    rw [slice_overwrite_before _ _ _ _ _ (by omega) room,
      slice_overwrite_before _ _ _ _ _ (by omega) room]
    exact filled.crcs page small complete

/-- One zone more in the buffer. -/
theorem Filled.step {buffer : List UInt8} (filled : Filled crc table image unit index buffer)
    (inside : index < table.kind.unitSize unit)
    (width : (image (unit * table.kind.perWrite + index)).length = table.kind.entrySize) :
    Filled crc table image unit (index + 1)
      (sealPage crc table (placeEntry table buffer (unit * table.kind.perWrite + index)
        (image (unit * table.kind.perWrite + index))) (unit * table.kind.perWrite + index)) := by
  obtain ⟨length, entries, crcs⟩ := filled.place crc table inside rfl width
  obtain ⟨fits, ends, onPage, small⟩ := table.kind.place_bounds unit index inside
  rw [placeEntry_eq table buffer unit index _ inside, sealPage_eq crc table _ unit index inside]
  generalize overwrite buffer (table.kind.place index)
    (image (unit * table.kind.perWrite + index)) = placed at *
  by_cases last : index % table.kind.perPage + 1 =
      table.kind.countOn (unit * 8 + index / table.kind.perPage)
  · simp only [last, if_true]
    rw [last] at ends
    rw [← ends]
    have room : table.kind.place index + table.kind.entrySize ≤ placed.length := by lia
    have four (word : UInt32) : (u32.write word).length = 4 := u32.write_length word
    refine ⟨?_, ?_, ?_⟩
    · rw [overwrite_length _ _ _ (by
        rw [four]
        simp only [undoWriteSize, undoMetaPageSize] at *
        lia), length]
    · intro earlier below
      have apart : table.kind.place earlier + table.kind.entrySize ≤
          table.kind.place index + table.kind.entrySize := by
        rcases Nat.lt_succ_iff_lt_or_eq.mp below with before | rfl
        · have := table.kind.place_lt before
          lia
        · exact le_rfl
      rw [slice_overwrite_before _ _ _ _ _ apart room]
      exact entries earlier below
    · intro page below complete
      by_cases already : page * table.kind.perPage + table.kind.countOn (unit * 8 + page) ≤ index
      · have before := table.kind.page_before inside already
        have count := countOn_fits table.kind (unit * 8 + page)
        have apart : page * undoMetaPageSize + undoMetaPageSize ≤
            table.kind.place index + table.kind.entrySize := by
          simp only [undoMetaPageSize] at *
          lia
        unfold CrcMatches
        rw [slice_overwrite_before _ _ _ _ _ (by lia) room,
          slice_overwrite_before _ _ _ _ _ (by lia) room]
        exact crcs page below already
      · obtain ⟨rfl, -⟩ := table.kind.page_completed inside complete already
        have stored (patch : List UInt8) (size : patch.length = 4) :
            slice (overwrite placed (table.kind.place index + table.kind.entrySize) patch)
              (table.kind.place index + table.kind.entrySize) 4 = patch := by
          have whole := slice_overwrite_inside placed
            (table.kind.place index + table.kind.entrySize) patch 0 4 (by omega) room
          rw [Nat.add_zero, ← size, slice_whole] at whole
          rw [← size, whole]
        unfold CrcMatches
        rw [← ends, stored _ (four _), u32.read_write,
          slice_overwrite_before _ _ _ _ _ (le_of_eq ends.symm) room]
  · simp only [last]
    refine ⟨length, entries, ?_⟩
    intro page below complete
    apply crcs page below
    by_contra later
    exact last (table.kind.page_completed inside complete later).2

theorem Filled.empty {unit : Nat} (inside : unit * table.kind.perWrite < persistZoneCount) :
    Filled crc table image unit 0 (zeros undoWriteSize) := by
  refine ⟨by simp [zeros], ?_, ?_⟩
  · intro earlier below
    omega
  · intro page small complete
    exfalso
    simp only [MetaKind.countOn] at *
    rcases table.kind.sizes with ⟨entry, perPage, perWrite⟩ | ⟨entry, perPage, perWrite⟩ <;>
      simp only [perPage] at * <;> lia

end Filling

end OpenGauss.Undo
