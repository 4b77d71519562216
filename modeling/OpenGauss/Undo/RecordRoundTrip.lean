import OpenGauss.Undo.RecordRead

/-!
# Round trip of undo records

`Append` over successive pages followed by `ReadUndoRecord` over the same pages
gives the record back, for every set of optional headers and every place a page
boundary can fall. `Load` gives up when it has read more than a page and the record
goes on, so the statement is about records of which at most a page lies in front of
the last page they touch, and such a record has a size that fits 16 bits.
-/
namespace OpenGauss.Undo

open List OpenGauss.Base

variable (source record : UndoRecord) (page : List UInt8)

theorem holds_of_stream (rest : List (List UInt8)) (start came : Nat)
    (flat tail : List UInt8) (full : page.length = blcksz)
    (content : stream start (page :: rest) = flat.drop came ++ tail) :
    Holds page start flat came := by
  intro skip count onPage inside
  have fromPage : slice (stream start (page :: rest)) skip count =
      slice page (start + skip) count := by
    simp only [stream]
    rw [slice_append_left _ _ (by simp; omega), slice_drop]
  rw [← fromPage, content, slice_append_left _ _ (by simp; lia), slice_drop]

theorem readUndoRecord_spec {start came : Nat}
    (copyData : Bool) (described : source.Described) (onPage : start ≤ blcksz)
    (within : came ≤ source.body.length) (holds : Holds page start source.body came)
    (pending : Pending source record source.parts came) (memory : Sized source record) :
    ((readUndoRecord record page start came copyData).1 = true ∧
        ReadDone source start came (readUndoRecord record page start came copyData).2) ∨
      ((readUndoRecord record page start came copyData).1 = false ∧
        ReadStopped source start came (readUndoRecord record page start came copyData).2) := by
  refine readSteps_triple source page start came copyData described holds _
    ⟨⟨[], rfl, by simp⟩, pending, memory, ?_⟩
  exact ⟨Nat.le_refl _, by simp [UndoRecord.body], by simp, Nat.le_refl _, within, onPage,
    fun zero => zero⟩

/-- Whenever `Load` goes on to another page, it has read at most a page. -/
def LoadLimit (size start came : Nat) : Prop :=
  came ≤ blcksz ∧ ∀ pages, came + (blcksz - start) + pages * undoLogUsableBytesPerPage < size →
    came + (blcksz - start) + pages * undoLogUsableBytesPerPage ≤ blcksz

/-- The limit of a record that goes on behind a page is that of its rest. -/
theorem loadLimit_next (size start came : Nat) (low : came ≤ blcksz)
    (unfinished : came + (blcksz - start) < size) :
    LoadLimit size start came ↔
      LoadLimit size undoLogBlockHeaderSize (came + (blcksz - start)) := by
  have usable : blcksz - undoLogBlockHeaderSize = undoLogUsableBytesPerPage := rfl
  constructor
  · rintro ⟨-, limit⟩
    refine ⟨by simpa using limit 0 (by omega), fun pages more => ?_⟩
    have := limit (pages + 1)
    rw [usable] at more ⊢
    rw [Nat.succ_mul] at this
    omega
  · rintro ⟨here, limit⟩
    refine ⟨low, fun pages more => ?_⟩
    cases pages with
    | zero => omega
    | succ pages =>
      have := limit pages
      rw [usable] at this
      rw [Nat.succ_mul] at more ⊢
      omega

/-- `Load` gives the record back exactly if it keeps to the limit. -/
theorem readPages_spec (pages : List (List UInt8)) (start came : Nat)
    (tail : List UInt8) (copyData : Bool) (described : source.Described)
    (sized : ∀ page ∈ pages, page.length = blcksz) (onPage : start ≤ blcksz)
    (some : pages ≠ []) (within : came ≤ source.body.length)
    (content : stream start pages = source.body.drop came ++ tail)
    (pending : Pending source record source.parts came) (memory : Sized source record) :
    (LoadLimit source.body.length start came ∧
        ∃ loaded, readPages copyData record pages start came = .some loaded ∧
          Loaded source loaded) ∨
      (¬LoadLimit source.body.length start came ∧
        readPages copyData record pages start came = none) := by
  induction pages generalizing record start came with
  | nil => contradiction
  | cons page rest ih =>
    have full := sized page (by simp)
    have holds := holds_of_stream page rest start came source.body tail full content
    rw [readPages]
    by_cases long : blcksz < came
    · exact .inr ⟨fun limit => by have := limit.1; omega, if_pos long⟩
    rw [if_neg long]
    rcases readUndoRecord_spec source record page copyData described onPage within
      holds pending memory with ⟨success, done⟩ | ⟨failure, stopped⟩
    · have whole := done.whole
      exact .inl ⟨⟨by omega, fun pages more => by omega⟩, _, if_pos success, done.loaded⟩
    · obtain ⟨unfinished, used, forward⟩ := stopped.cursor
      -- The rest of the stream starts where this page stopped.
      have next : stream undoLogBlockHeaderSize rest =
          source.body.drop (came + (blcksz - start)) ++ tail := by
        have cut := congrArg (List.drop (blcksz - start)) content
        simp only [stream] at cut
        rwa [drop_left' (by simp [full]), drop_append_of_le_length (by simp; lia),
          drop_drop] at cut
      have more : rest ≠ [] := by
        rintro rfl
        have empty := congrArg List.length next
        simp [stream] at empty
        omega
      rw [if_neg (by simp [failure]), used,
        loadLimit_next _ start came (by omega) (by omega)]
      exact ih _ undoLogBlockHeaderSize _ (fun other member => sized other (by simp [member]))
        (by decide) more (by lia) next (used ▸ stopped.pending) stopped.memory

/-- Equality of everything that the presence bits of the left record announce. -/
structure SamePresent (record loaded : UndoRecord) : Prop where
  whdr : loaded.whdr = record.whdr
  wblk : loaded.wblk = record.wblk
  wtxn : record.has undoUrecInfoTransac = true → loaded.prevurp = record.prevurp
  wtd : record.has undoUrecInfoOldtd = true → loaded.oldxactid = record.oldxactid
  wpart : record.has undoUrecInfoHasPartoid = true → loaded.partitionoid = record.partitionoid
  wtspc : record.has undoUrecInfoHasTablespaceoid = true → loaded.tablespace = record.tablespace
  len : record.has undoUrecInfoPayload = true → loaded.rawdata.len = record.rawdata.len
  data : record.has undoUrecInfoPayload = true → 0 < record.rawdata.len →
    loaded.rawdata.bytes = record.rawdata.bytes

theorem UndoRecord.described (record : UndoRecord) (intact : record.rawdata.Intact)
    (short : record.has undoUrecInfoPayload = true → record.rawdata.len < 65536) :
    record.notePayloadLen.Described :=
  ⟨fun present => UInt16.toNat_ofNat_of_lt' (short present), intact⟩

/-- A loaded record is the same in its present fields. -/
theorem Loaded.samePresent {record loaded : UndoRecord} (intact : record.rawdata.Intact)
    (short : record.has undoUrecInfoPayload = true → record.rawdata.len < 65536)
    (held : Loaded record.notePayloadLen loaded) : SamePresent record loaded := by
  have described := record.described intact short
  have piece (part : UndoPart) (stored : part ∈ record.notePayloadLen.parts) :=
    held.parts part stored
  have len (present : record.has undoUrecInfoPayload = true) :
      loaded.rawdata.len = record.rawdata.len := by
    rw [held.len present, described.noted present]
    rfl
  refine ⟨?_, ?_, fun present => ?_, fun present => ?_, fun present => ?_, fun present => ?_, len,
    fun present positive => ?_⟩
  · exact UndoRecordHeader.layout.write_injective (piece .header (by simp [UndoRecord.parts]))
  · exact UndoRecordBlock.layout.write_injective (piece .block (by simp [UndoRecord.parts]))
  · exact u64.write_injective
      (piece .transaction (by simp [UndoRecord.parts, optionalPart, present]))
  · exact u64.write_injective (piece .oldTd (by simp [UndoRecord.parts, optionalPart, present]))
  · exact u32.write_injective (piece .partition (by simp [UndoRecord.parts, optionalPart, present]))
  · exact u32.write_injective
      (piece .tablespace (by simp [UndoRecord.parts, optionalPart, present]))
  · have stored : 0 < record.notePayloadLen.payloadlen := by
      rw [UInt16.lt_iff_toNat_lt, described.noted present]
      exact positive
    exact piece .rawdata
      (by simp [UndoRecord.parts, UndoRecord.payloadParts, optionalPart, present, stored])

/-- Append writes `RecordSize()` bytes and nothing else, and reading gives the record back. -/
def RoundTrips (record : UndoRecord) (undoLen : UInt16) (pages : List (List UInt8))
    (startingByte : Nat) (copyData : Bool) : Prop :=
  ∃ written bytes loaded, appendPages undoLen record pages startingByte 0 =
      some (written, record.recordSize.toNat) ∧
    bytes.length = record.recordSize.toNat ∧ Appended startingByte pages bytes written ∧
    readPages copyData UndoRecord.reset written startingByte 0 = some loaded ∧
    SamePresent record loaded

/-- Enough full pages for a record that starts at a byte of the first one. -/
structure RoomFor (size : Nat) (startingByte : Nat) (page : List UInt8)
    (rest : List (List UInt8)) : Prop where
  sized : ∀ other ∈ page :: rest, other.length = blcksz
  onPage : startingByte < blcksz
  enough : size ≤ blcksz - startingByte + rest.length * undoLogUsableBytesPerPage

theorem UndoRecord.payload_short (record : UndoRecord) (fits : record.storedSize < 65536)
    (present : record.has undoUrecInfoPayload = true) : record.rawdata.len < 65536 := by
  unfold storedSize at fits
  rw [if_pos present] at fits
  omega

/-- What `Load` reads of a record: all but its trailing length. -/
theorem UndoRecord.body_length (record : UndoRecord) (undoLen : UInt16)
    (intact : record.rawdata.Intact)
    (short : record.has undoUrecInfoPayload = true → record.rawdata.len < 65536) :
    record.notePayloadLen.body.length = record.storedSize - 2 := by
  rw [← record.stored_length undoLen intact short, UndoRecord.stored, length_append]
  rfl

/-- A record that `Load` reads is not too large for `UndoRecordSize`. -/
theorem LoadLimit.short (size start : Nat) (limit : LoadLimit (size - 2) start 0) :
    size < 65536 := by
  have := limit.2 2
  unfold blcksz undoLogUsableBytesPerPage undoLogBlockHeaderSize at this
  simp only [blcksz] at this
  omega

section RoundTrip

variable (undoLen : UInt16) (rest : List (List UInt8)) (startingByte : Nat)
  (intact : record.rawdata.Intact) (fits : record.storedSize < 65536)
  (room : RoomFor record.storedSize startingByte page rest) (copyData : Bool)
include intact fits room

variable {record startingByte}

/-- The pages that are written, and what `Load` makes of them. -/
theorem stored_pages : ∃ written, appendPages undoLen record (page :: rest) startingByte 0 =
      some (written, record.recordSize.toNat) ∧
    (record.stored undoLen).length = record.recordSize.toNat ∧
    Appended startingByte (page :: rest) (record.stored undoLen) written ∧
    ((LoadLimit (record.storedSize - 2) startingByte 0 ∧
        ∃ loaded, readPages copyData UndoRecord.reset written startingByte 0 = some loaded ∧
          SamePresent record loaded) ∨
      (¬LoadLimit (record.storedSize - 2) startingByte 0 ∧
        readPages copyData UndoRecord.reset written startingByte 0 = none)) := by
  have short := record.payload_short fits
  have length := record.stored_length undoLen intact short
  have size : record.recordSize.toNat = record.storedSize := by
    rw [record.recordSize_toNat, Nat.mod_eq_of_lt fits]
  obtain ⟨written, run, appended⟩ := appendPages_spec record record undoLen page rest startingByte
    0 rfl room.sized (Nat.le_of_lt room.onPage) (Nat.zero_le _)
    (by rw [length]; exact room.enough)
  rw [drop_zero] at appended
  have content := appended.content
  rw [UndoRecord.stored, append_assoc] at content
  have pages : written ≠ [] := by
    rintro rfl
    have empty := congrArg List.length appended.headers
    simp [streamHeaders] at empty
  have read := readPages_spec record.notePayloadLen UndoRecord.reset written startingByte 0 _
    copyData (record.described intact short) appended.sized (Nat.le_of_lt room.onPage) pages
    (Nat.zero_le _) content (pending_zero _ _ _) (.inl rfl)
  rw [record.body_length undoLen intact short] at read
  rw [length, ← size] at run
  refine ⟨written, run, by rw [length, size], appended, ?_⟩
  rcases read with ⟨limit, loaded, isLoaded, held⟩ | none
  · exact .inl ⟨limit, loaded, isLoaded, held.samePresent intact short⟩
  · exact .inr none

end RoundTrip

/-- Every record of which at most a page lies in front of the last page it touches survives any
split over pages. -/
theorem undoRecord_roundTrips (record : UndoRecord) (intact : record.rawdata.Intact)
    (undoLen : UInt16) (page : List UInt8) (rest : List (List UInt8)) (startingByte : Nat)
    (limit : LoadLimit (record.storedSize - 2) startingByte 0)
    (room : RoomFor record.storedSize startingByte page rest) (copyData : Bool) :
    RoundTrips record undoLen (page :: rest) startingByte copyData := by
  obtain ⟨written, run, length, appended, ⟨-, loaded, read, held⟩ | ⟨long, -⟩⟩ :=
    stored_pages page undoLen rest intact limit.short room copyData
  · exact ⟨written, record.stored undoLen, loaded, run, length, appended, read, held⟩
  · exact absurd limit long

/-- A record with every optional header, four bytes of which are on its first page, and the last
ones on its third. -/
theorem undoRecord_roundTrips_split :
    RoundTrips ⟨⟨9, 1, 2, 3, 4, 0x6B⟩, ⟨5, 6, 7⟩, 8, 9, 10, 11, 0,
        ⟨some (List.replicate 8200 1), 8200⟩, true⟩ 68
      [List.replicate blcksz 0, List.replicate blcksz 0, List.replicate blcksz 0] 8188 false :=
  undoRecord_roundTrips _ (by exact length_replicate) 68 _ _ 8188
    ⟨by decide, fun pages more => by
      change 0 + 4 + pages * 8168 < 8262 at more
      change 0 + 4 + pages * 8168 ≤ 8192
      omega⟩
    ⟨by simp, by decide, by decide⟩ false

/-- A record with 20000 bytes of payload. -/
def threePageRecord : UndoRecord :=
  { UndoRecord.reset with
    whdr := ⟨3, 0, 0, 0, 1, 0x01⟩
    rawdata := ⟨some (List.replicate 20000 0), 20000⟩ }

/-- It is written, but `Load` gives up in front of the third page. -/
theorem threePageRecord_not_roundTrips : threePageRecord.rawdata.Intact ∧
      RoomFor threePageRecord.storedSize undoLogBlockHeaderSize (List.replicate blcksz 0)
        (List.replicate 2 (List.replicate blcksz 0)) ∧
      ¬ RoundTrips threePageRecord threePageRecord.recordSize
        (List.replicate blcksz 0 :: List.replicate 2 (List.replicate blcksz 0))
        undoLogBlockHeaderSize true := by
  have intact : threePageRecord.rawdata.Intact := length_replicate
  have room : RoomFor threePageRecord.storedSize undoLogBlockHeaderSize (List.replicate blcksz 0)
      (List.replicate 2 (List.replicate blcksz 0)) := by
    refine ⟨?_, by decide, by decide⟩
    intro other member
    rw [← replicate_succ] at member
    rw [eq_of_mem_replicate member]
    exact length_replicate
  refine ⟨intact, room, ?_⟩
  rintro ⟨written, bytes, loaded, run, -, -, read, -⟩
  obtain ⟨pages, all, -, -, ⟨limit, -⟩ | ⟨-, none⟩⟩ := stored_pages _
    threePageRecord.recordSize _ intact (by decide) room true
  · exact absurd (limit.2 1 (by decide)) (by decide)
  · rw [run, Option.some.injEq, Prod.mk.injEq] at all
    rw [all.1, none] at read
    cases read

end OpenGauss.Undo
