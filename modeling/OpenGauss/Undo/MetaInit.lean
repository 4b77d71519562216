import OpenGauss.Base.Run
import OpenGauss.Undo.MetaRecovery

/-!
# The first metadata file

`InitUndoMeta` writes the three areas of the file page by page with `InitZoneMeta` and
`InitSpaceMeta`, before any zone exists. Every page it writes is complete, so the file of a
fresh cluster passes the checks of a recovery.
-/
namespace OpenGauss.Undo

open List OpenGauss.Base

/-- One bit of CRC-32C, low bit first. -/
def crc32cBit (crc : UInt32) : UInt32 :=
  if crc &&& 1 = 1 then crc >>> 1 ^^^ 0x82F63B78 else crc >>> 1

/-- `INIT_CRC32C`, `COMP_CRC32C` and `FIN_CRC32C` over a run of bytes. -/
def crc32c (bytes : List UInt8) : UInt32 :=
  bytes.foldl (fun crc byte => crc32cBit^[8] (crc ^^^ byte.toUInt32)) 0xFFFFFFFF ^^^ 0xFFFFFFFF

example : crc32c [0x31, 0x32, 0x33, 0x34, 0x35, 0x36, 0x37, 0x38, 0x39] = 0xE3069283 := by
  decide +kernel

section Init

variable (crc : List UInt8 → UInt32) (kind : MetaKind) (entry : List UInt8)

/-- Variables of the loop of `InitZoneMeta` and `InitSpaceMeta`. -/
structure MetaInit where
  file : List UInt8
  /-- `metaPageBuffer`. -/
  buffer : List UInt8
  /-- `writeSize`: bytes of the entries of the page. -/
  writeSize : Nat

/-- What the loop leaves in the file. -/
def MetaInit.written (state : MetaInit) : List UInt8 := state.file

/-- One pass of the loop. -/
def initStep (state : MetaInit) (zoneId : Nat) : MetaInit :=
  let state := if zoneId % kind.perPage = 0 then
      { state with
        buffer := zeros undoMetaPageSize
        writeSize := if zoneId / kind.perPage + 1 = kind.pageCount then
            (persistZoneCount - (kind.pageCount - 1) * kind.perPage) * kind.entrySize
          else kind.entrySize * kind.perPage }
    else state
  let buffer := overwrite state.buffer (zoneId % kind.perPage * kind.entrySize) entry
  if (zoneId + 1) % kind.perPage = 0 ∨
      (zoneId = persistZoneCount - 1 ∧ zoneId / kind.perPage + 1 = kind.pageCount) then
    let page := overwrite buffer state.writeSize (u32.write (crc (slice buffer 0 state.writeSize)))
    { state with file := state.file ++ page, buffer := page }
  else { state with buffer := buffer }

/-- One area of the file as `InitZoneMeta` and `InitSpaceMeta` write it. -/
def initArea : List UInt8 :=
  ((List.range persistZoneCount).foldl (initStep crc kind entry)
    ⟨[], zeros undoMetaPageSize, 0⟩).written

/-- The loop after the first zones of a page. -/
structure Initialising (page index : Nat) (state : MetaInit) : Prop where
  length : state.file.length = page * undoMetaPageSize
  pages : ∀ earlier < page,
    PageHolds crc kind (fun _ => entry) state.file (earlier * undoMetaPageSize) earlier
  buffer : 0 < index → state.buffer.length = undoMetaPageSize ∧
    state.writeSize = kind.entrySize * kind.countOn page ∧
    ∀ slot < index, slice state.buffer (slot * kind.entrySize) kind.entrySize = entry

theorem MetaKind.initSize (kind : MetaKind) (page : Nat) (inside : page < kind.pageCount) :
    (if page + 1 = kind.pageCount then
        (persistZoneCount - (kind.pageCount - 1) * kind.perPage) * kind.entrySize
      else kind.entrySize * kind.perPage) = kind.entrySize * kind.countOn page := by
  unfold MetaKind.countOn
  split
  · rename_i last
    simp only [persistZoneCount]
    rcases kind.area with ⟨perPage, -, pages⟩ | ⟨perPage, -, pages⟩ <;>
      rw [perPage] <;> rw [pages] at last <;> lia
  · rename_i inner
    simp only [persistZoneCount]
    rcases kind.area with ⟨perPage, -, pages⟩ | ⟨perPage, -, pages⟩ <;>
      rw [perPage] <;> rw [pages] at inner inside <;> lia
theorem MetaKind.init_place (kind : MetaKind) {page index : Nat} (inside : page < kind.pageCount)
    (below : index < kind.countOn page) : (page * kind.perPage + index) % kind.perPage = index ∧
      (page * kind.perPage + index) / kind.perPage = page ∧
      (((page * kind.perPage + index + 1) % kind.perPage = 0 ∨
        (page * kind.perPage + index = persistZoneCount - 1 ∧ page + 1 = kind.pageCount)) ↔
          index + 1 = kind.countOn page) := by
  simp only [MetaKind.countOn, persistZoneCount] at *
  rcases kind.area with ⟨perPage, -, pages⟩ | ⟨perPage, -, pages⟩ <;>
    rw [perPage] at below ⊢ <;> rw [pages] at inside ⊢ <;> omega

/-- A page of the loop with its entries so far, whether it was just begun or not. -/
def initPage (state : MetaInit) (page index : Nat) : MetaInit :=
  if index = 0 then
    { state with
      buffer := zeros undoMetaPageSize
      writeSize := kind.entrySize * kind.countOn page }
  else state

theorem initStep_eq (state : MetaInit) (page index : Nat) (inside : page < kind.pageCount)
    (below : index < kind.countOn page) :
    initStep crc kind entry state (page * kind.perPage + index) =
      let begun := initPage kind state page index
      let buffer := overwrite begun.buffer (index * kind.entrySize) entry
      if index + 1 = kind.countOn page then
        let full := overwrite buffer begun.writeSize
          (u32.write (crc (slice buffer 0 begun.writeSize)))
        ⟨begun.file ++ full, full, begun.writeSize⟩
      else ⟨begun.file, buffer, begun.writeSize⟩ := by
  obtain ⟨slot, number, ending⟩ := kind.init_place inside below
  have size := kind.initSize page inside
  simp only [initStep, initPage, slot, number, ending, size]

variable {entry}

/-- A page begins. -/
theorem Initialising.begun {page index : Nat} {state : MetaInit}
    (initialising : Initialising crc kind entry page index state) :
    let begun := initPage kind state page index
    begun.file = state.file ∧ begun.buffer.length = undoMetaPageSize ∧
      begun.writeSize = kind.entrySize * kind.countOn page ∧
      ∀ slot < index, slice begun.buffer (slot * kind.entrySize) kind.entrySize = entry := by
  intro begun
  by_cases first : index = 0
  · subst first
    simp only [begun, initPage, if_true]
    refine ⟨trivial, by simp [zeros], trivial, ?_⟩
    intro slot none
    omega
  · simp only [begun, initPage, first, if_false]
    exact ⟨trivial, initialising.buffer (by omega)⟩

/-- One more entry is placed. -/
theorem init_placed {buffer : List UInt8} (page : Nat) {index : Nat}
    (width : entry.length = kind.entrySize) (below : index < kind.countOn page)
    (length : buffer.length = undoMetaPageSize)
    (entries : ∀ slot < index, slice buffer (slot * kind.entrySize) kind.entrySize = entry) :
    let placed := overwrite buffer (index * kind.entrySize) entry
    placed.length = undoMetaPageSize ∧
      ∀ slot < index + 1, slice placed (slot * kind.entrySize) kind.entrySize = entry := by
  intro placed
  have fits := countOn_fits kind page
  have reach : index * kind.entrySize + kind.entrySize ≤ kind.entrySize * kind.countOn page := by
    rw [Nat.mul_comm]
    exact Nat.mul_le_mul_left _ below
  constructor
  · rw [overwrite_length _ _ _ (by omega), length]
  · intro slot under
    rcases Nat.lt_succ_iff_lt_or_eq.mp under with before | rfl
    · have apart : slot * kind.entrySize + kind.entrySize ≤ index * kind.entrySize := by
        rw [← Nat.succ_mul]
        exact Nat.mul_le_mul_right _ before
      rw [slice_overwrite_before _ _ _ _ _ apart (by omega)]
      exact entries slot before
    · have whole := slice_overwrite_inside buffer (slot * kind.entrySize) entry 0 entry.length
        (by omega) (by omega)
      rw [slice_whole, width] at whole
      exact whole

/-- An entry inside a page. -/
theorem Initialising.inner {page index : Nat} {state : MetaInit}
    (width : entry.length = kind.entrySize) (inside : page < kind.pageCount)
    (below : index + 1 < kind.countOn page)
    (initialising : Initialising crc kind entry page index state) :
    Initialising crc kind entry page (index + 1)
      (initStep crc kind entry state (page * kind.perPage + index)) := by
  obtain ⟨sameFile, length, size, entries⟩ := initialising.begun crc kind
  rw [initStep_eq crc kind entry state page index inside (by omega)]
  simp only [show ¬ index + 1 = kind.countOn page by omega]
  refine ⟨?_, ?_, ?_⟩
  · rw [sameFile]
    exact initialising.length
  · rw [sameFile]
    exact initialising.pages
  · intro _
    obtain ⟨length', entries'⟩ := init_placed kind page width (by omega) length entries
    exact ⟨length', size, entries'⟩

/-- The last entry seals the page. -/
theorem Initialising.last {page index : Nat} {state : MetaInit}
    (width : entry.length = kind.entrySize) (inside : page < kind.pageCount)
    (below : index + 1 = kind.countOn page)
    (initialising : Initialising crc kind entry page index state) :
    Initialising crc kind entry (page + 1) 0
      (initStep crc kind entry state (page * kind.perPage + index)) := by
  obtain ⟨sameFile, length, size, entries⟩ := initialising.begun crc kind
  obtain ⟨length', entries'⟩ := init_placed kind page width (by omega) length entries
  rw [initStep_eq crc kind entry state page index inside (by omega)]
  simp only [below, if_true, size, sameFile]
  generalize overwrite (initPage kind state page index).buffer (index * kind.entrySize) entry =
    placed at *
  have fits := countOn_fits kind page
  have four (word : UInt32) : (u32.write word).length = 4 := u32.write_length word
  have fullLength : (overwrite placed (kind.entrySize * kind.countOn page)
      (u32.write (crc (slice placed 0 (kind.entrySize * kind.countOn page))))).length =
      undoMetaPageSize := by
    rw [overwrite_length _ _ _ (by rw [four]; lia), length']
  have holds : PageHolds crc kind (fun _ => entry) (overwrite placed
      (kind.entrySize * kind.countOn page)
      (u32.write (crc (slice placed 0 (kind.entrySize * kind.countOn page))))) 0 page := by
    constructor
    · intro slot under
      have reach : slot * kind.entrySize + kind.entrySize ≤ kind.entrySize * kind.countOn page := by
        rw [Nat.mul_comm]
        exact Nat.mul_le_mul_left _ under
      rw [Nat.zero_add, slice_overwrite_before _ _ _ _ _ reach (by lia)]
      exact entries' slot (by lia)
    · unfold CrcMatches
      have stored (patch : List UInt8) (isFour : patch.length = 4) :
          slice (overwrite placed (kind.entrySize * kind.countOn page) patch)
            (kind.entrySize * kind.countOn page) 4 = patch := by
        have whole := slice_overwrite_inside placed (kind.entrySize * kind.countOn page) patch 0 4
          (by omega) (by lia)
        rw [Nat.add_zero, ← isFour, slice_whole] at whole
        rw [← isFour, whole]
      rw [Nat.zero_add, stored _ (four _), u32.read_write,
        slice_overwrite_before _ _ _ _ _ (by omega) (by lia)]
  generalize overwrite placed (kind.entrySize * kind.countOn page)
    (u32.write (crc (slice placed 0 (kind.entrySize * kind.countOn page)))) = full at *
  refine ⟨?_, ?_, ?_⟩
  · rw [length_append, initialising.length, fullLength]
    ring
  · intro earlier under
    rcases Nat.lt_succ_iff_lt_or_eq.mp under with before | rfl
    · apply PageHolds.congr _ (initialising.pages earlier before)
      rw [slice_append_left]
      rw [initialising.length, ← Nat.succ_mul]
      exact Nat.mul_le_mul_right _ before
    · apply PageHolds.congr _ holds
      rw [← initialising.length, ← Nat.add_zero state.file.length, ← slice_drop, drop_left]
  · intro none
    omega

/-- One page is initialised. -/
theorem Initialising.page {page : Nat} {state : MetaInit} (width : entry.length = kind.entrySize)
    (inside : page < kind.pageCount) (initialising : Initialising crc kind entry page 0 state) :
    Initialising crc kind entry (page + 1) 0
      ((List.range' (page * kind.perPage) (kind.countOn page)).foldl (initStep crc kind entry)
        state) := by
  have front (index : Nat) (below : index < kind.countOn page) :
      Initialising crc kind entry page index
        ((List.range' (page * kind.perPage) index).foldl (initStep crc kind entry) state) := by
    induction index with
    | zero => exact initialising
    | succ index ih =>
      rw [range'_1_concat, foldl_append]
      exact (ih (by omega)).inner crc kind width inside below
  have nonempty : 0 < kind.countOn page := by
    simp only [MetaKind.countOn, persistZoneCount]
    rcases kind.area with ⟨perPage, -, pages⟩ | ⟨perPage, -, pages⟩ <;>
      rw [perPage] <;> rw [pages] at inside <;> lia
  have last : kind.countOn page - 1 + 1 = kind.countOn page := by omega
  rw [← last, range'_1_concat, foldl_append]
  exact (front _ (by omega)).last crc kind width inside last

variable (entry)

/-- The whole area is initialised. -/
theorem initArea_pages (width : entry.length = kind.entrySize) :
    (initArea crc kind entry).length = kind.pageCount * undoMetaPageSize ∧
      ∀ page < kind.pageCount, PageHolds crc kind (fun _ => entry) (initArea crc kind entry)
        (page * undoMetaPageSize) page := by
  have covered : persistZoneCount ≤ kind.pageCount * kind.perPage ∧
      (kind.pageCount - 1) * kind.perPage < persistZoneCount := by
    cases kind <;> decide
  have result := foldl_blocks (initStep crc kind entry)
    (fun page state => Initialising crc kind entry page 0 state) ⟨[], zeros undoMetaPageSize, 0⟩
    ⟨by simp, by intro earlier none; omega, by intro none; omega⟩
    (by
      intro page state inside initialising
      exact initialising.page crc kind width inside)
    covered.1 covered.2
  have outcome (state : MetaInit)
      (initialising : Initialising crc kind entry kind.pageCount 0 state) :
      state.written.length = kind.pageCount * undoMetaPageSize ∧
        ∀ page < kind.pageCount, PageHolds crc kind (fun _ => entry) state.written
          (page * undoMetaPageSize) page := ⟨initialising.length, initialising.pages⟩
  exact outcome _ result

end Init

/-- `UndoSpaceType`. -/
inductive UndoSpaceType where
  | undoLogSpace
  | undoSlotSpace
deriving DecidableEq

/-- First byte of the area of a space type. -/
def UndoSpaceType.base : UndoSpaceType → Nat
  | undoLogSpace => MetaKind.zone.pageCount * undoMetaPageSize
  | undoSlotSpace => MetaKind.zone.pageCount * undoMetaPageSize +
      MetaKind.space.pageCount * undoMetaPageSize

/-- `UNDO_SPACE_META_VERSION`. -/
def undoSpaceMetaVersion : UInt32 := 1

/-- One stored space (`UndoSpaceMetaInfo`). -/
structure UndoSpaceMetaInfo where
  version : UInt32
  /-- Bytes the compiler leaves between `version` and `lsn`; the buffer is cleared. -/
  padding : UInt32
  lsn : UInt64
  head : UInt64
  tail : UInt64
deriving DecidableEq

/-- Memory image of a stored space. -/
def undoSpaceMetaInfo : Layout UndoSpaceMetaInfo :=
  (u32.pair (u32.pair (u64.pair (u64.pair u64)))).iso
    (fun fields => ⟨fields.1, fields.2.1, fields.2.2.1, fields.2.2.2.1, fields.2.2.2.2⟩)
    (fun info => (info.version, info.padding, info.lsn, info.head, info.tail))
    (by intro info; rfl) (by intro fields; rfl)

/-- The entry of a space that holds nothing. -/
def emptySpaceMeta : UndoSpaceMetaInfo := ⟨undoSpaceMetaVersion, 0, 0, 0, 0⟩

/-- `UNDO_ZONE_META_VERSION`. -/
def undoZoneMetaVersion : UInt32 := 1

/-- One stored zone (`UndoZoneMetaInfo`). -/
structure UndoZoneMetaInfo where
  version : UInt32
  /-- Bytes the compiler leaves between `version` and `lsn`; the buffer is cleared. -/
  padding : UInt32
  lsn : UInt64
  allocateTSlotPtr : UInt64
  recycleTSlotPtr : UInt64
  insertURecPtr : UInt64
  /-- End of the undo that was discarded in the normal way. -/
  discardURecPtr : UInt64
  forceDiscardURecPtr : UInt64
  recycleXid : UInt64
deriving DecidableEq

/-- Memory image of a stored zone. -/
def undoZoneMetaInfo : Layout UndoZoneMetaInfo :=
  (u32.pair (u32.pair (u64.pair (u64.pair (u64.pair (u64.pair (u64.pair (u64.pair u64)))))))).iso
    (fun fields => ⟨fields.1, fields.2.1, fields.2.2.1, fields.2.2.2.1, fields.2.2.2.2.1,
      fields.2.2.2.2.2.1, fields.2.2.2.2.2.2.1, fields.2.2.2.2.2.2.2.1, fields.2.2.2.2.2.2.2.2⟩)
    (fun info => (info.version, info.padding, info.lsn, info.allocateTSlotPtr,
      info.recycleTSlotPtr, info.insertURecPtr, info.discardURecPtr, info.forceDiscardURecPtr,
      info.recycleXid))
    (by intro info; rfl) (by intro fields; rfl)

/-- The entry of a zone without undo (`InitUndoMeta` of the checkpoint, `InitZoneMeta`). -/
def emptyZoneMeta : UndoZoneMetaInfo :=
  let header := UInt64.ofNat undoLogBlockHeaderSize
  ⟨undoZoneMetaVersion, 0, 0, header, header, header, header, header, 0⟩

/-- The metadata file of a fresh cluster (`InitUndoMeta`). -/
def initUndoMeta (crc : List UInt8 → UInt32) : List UInt8 :=
  initArea crc .zone (undoZoneMetaInfo.write emptyZoneMeta) ++
    (initArea crc .space (undoSpaceMetaInfo.write emptySpaceMeta) ++
      initArea crc .space (undoSpaceMetaInfo.write emptySpaceMeta))

section Areas

variable (crc : List UInt8 → UInt32) (kind : MetaKind) (entry left right : List UInt8)

theorem initArea_page {page : Nat} (width : entry.length = kind.entrySize)
    (inside : page < kind.pageCount) :
    PageHolds crc kind (fun _ => entry) (left ++ (initArea crc kind entry ++ right))
      (left.length + page * undoMetaPageSize) page := by
  obtain ⟨length, pages⟩ := initArea_pages crc kind entry width
  apply PageHolds.congr _ (pages page inside)
  rw [← slice_drop, drop_left, slice_append_left]
  rw [length, ← Nat.succ_mul]
  exact Nat.mul_le_mul_right _ inside

theorem initArea_valid (width : entry.length = kind.entrySize) :
    AreaValid crc kind (left ++ (initArea crc kind entry ++ right)) left.length := by
  refine ⟨?_, ?_⟩
  · have length := (initArea_pages crc kind entry width).1
    simp only [length_append]
    omega
  · intro page inside
    exact (initArea_page crc kind entry left right width inside).crcMatches

theorem initArea_entry {zoneId : Nat} (width : entry.length = kind.entrySize)
    (inside : zoneId < persistZoneCount) :
    entryAt kind (left ++ (initArea crc kind entry ++ right)) left.length zoneId = entry :=
  entryAt_holds inside (initArea_page crc kind entry left right width (kind.zone_place inside).1)

end Areas

section Fresh

variable (crc : List UInt8 → UInt32)

theorem initUndoMeta_zones : ∃ right, initUndoMeta crc =
    [] ++ (initArea crc .zone (undoZoneMetaInfo.write emptyZoneMeta) ++ right) := by
  refine ⟨initArea crc .space (undoSpaceMetaInfo.write emptySpaceMeta) ++
    initArea crc .space (undoSpaceMetaInfo.write emptySpaceMeta), ?_⟩
  rw [nil_append, initUndoMeta]

variable (type : UndoSpaceType)

/-- Where the area of a kind of space lies. -/
theorem initUndoMeta_spaces : ∃ left right, left.length = type.base ∧
    initUndoMeta crc =
      left ++ (initArea crc .space (undoSpaceMetaInfo.write emptySpaceMeta) ++ right) := by
  have zones := (initArea_pages crc .zone (undoZoneMetaInfo.write emptyZoneMeta)
    (undoZoneMetaInfo.write_length _)).1
  have spaces := (initArea_pages crc .space (undoSpaceMetaInfo.write emptySpaceMeta)
    (undoSpaceMetaInfo.write_length _)).1
  cases type with
  | undoLogSpace => exact ⟨_, _, zones, rfl⟩
  | undoSlotSpace =>
    refine ⟨initArea crc .zone (undoZoneMetaInfo.write emptyZoneMeta) ++
      initArea crc .space (undoSpaceMetaInfo.write emptySpaceMeta), [], ?_, ?_⟩
    · rw [length_append, zones, spaces]
      rfl
    · unfold initUndoMeta
      rw [append_nil, append_assoc]

theorem initUndoMeta_space_valid :
    AreaValid crc .space (initUndoMeta crc) type.base := by
  obtain ⟨left, right, length, file⟩ := initUndoMeta_spaces crc type
  rw [file, ← length]
  exact initArea_valid crc .space _ left right (undoSpaceMetaInfo.write_length _)

theorem initUndoMeta_space_entry (zoneId : Nat)
    (inside : zoneId < persistZoneCount) : entryAt .space (initUndoMeta crc) type.base zoneId =
      undoSpaceMetaInfo.write emptySpaceMeta := by
  obtain ⟨left, right, length, file⟩ := initUndoMeta_spaces crc type
  rw [file, ← length]
  exact initArea_entry crc .space _ left right (undoSpaceMetaInfo.write_length _) inside

theorem initUndoMeta_zone_valid : AreaValid crc .zone (initUndoMeta crc) 0 := by
  obtain ⟨right, file⟩ := initUndoMeta_zones crc
  rw [file]
  exact initArea_valid crc .zone _ [] right (undoZoneMetaInfo.write_length _)

theorem initUndoMeta_zone_entry (zoneId : Nat) (inside : zoneId < persistZoneCount) :
    entryAt .zone (initUndoMeta crc) 0 zoneId = undoZoneMetaInfo.write emptyZoneMeta := by
  obtain ⟨right, file⟩ := initUndoMeta_zones crc
  rw [file]
  exact initArea_entry crc .zone _ [] right (undoZoneMetaInfo.write_length _) inside

end Fresh

end OpenGauss.Undo
