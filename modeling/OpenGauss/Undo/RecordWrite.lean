import OpenGauss.Undo.Record

/-!
# What `Append` leaves on the pages

A run of successive undo pages is one byte stream: the rest of the first page
behind the starting byte, then every later page behind its header. `Append` over
the pages replaces a front part of that stream by the record's bytes, wherever the
page boundaries fall, and leaves every page header alone.
-/
namespace OpenGauss.Undo

open List OpenGauss.Base

/-- A piece that is stored only where its presence bit is set. -/
def optionalPart (present : Bool) (part : UndoPart) : List UndoPart :=
  if present then [part] else []

/-- Bytes of a fixed-width piece; the payload has no fixed width. -/
def UndoPart.width : UndoPart → Nat
  | .header => 22
  | .block => 14
  | .transaction => 8
  | .oldTd => 8
  | .partition => 4
  | .tablespace => 4
  | .payload => 2
  | .rawdata => 0

namespace UndoRecord

/-- The payload pieces of a record whose payload length header is up to date. -/
def payloadParts (record : UndoRecord) : List UndoPart :=
  if record.has undoUrecInfoPayload then
    .payload :: optionalPart (decide (0 < record.payloadlen)) .rawdata
  else []

/-- The pieces of a record in storage order. -/
def parts (record : UndoRecord) : List UndoPart :=
  .header :: .block ::
    (optionalPart (record.has undoUrecInfoTransac) .transaction ++
    (optionalPart (record.has undoUrecInfoOldtd) .oldTd ++
    (optionalPart (record.has undoUrecInfoHasPartoid) .partition ++
    (optionalPart (record.has undoUrecInfoHasTablespaceoid) .tablespace ++ record.payloadParts))))

/-- The bytes of a list of pieces. -/
def images (record : UndoRecord) (parts : List UndoPart) : List UInt8 :=
  parts.flatMap record.image

/-- The bytes `Append` has to store: every piece and the trailing length. -/
def stored (record : UndoRecord) (undoLen : UInt16) : List UInt8 :=
  record.notePayloadLen.images record.notePayloadLen.parts ++ u16.write undoLen

/-- Bytes of a record on the pages, counted without a word limit. -/
def storedSize (record : UndoRecord) : Nat :=
  38 + (if record.has undoUrecInfoPayload then 2 + record.rawdata.len else 0) +
    (if record.has undoUrecInfoTransac then 8 else 0) +
    (if record.has undoUrecInfoOldtd then 8 else 0) +
    (if record.has undoUrecInfoHasPartoid then 4 else 0) +
    (if record.has undoUrecInfoHasTablespaceoid then 4 else 0)

variable (record : UndoRecord)

@[simp] theorem images_nil : record.images [] = [] := rfl

@[simp] theorem images_cons (part : UndoPart) (parts : List UndoPart) :
    record.images (part :: parts) = record.image part ++ record.images parts := rfl

@[simp] theorem images_append (left right : List UndoPart) :
    record.images (left ++ right) = record.images left ++ record.images right := by
  simp [images]

@[simp] theorem notePayloadLen_has (flag : UInt8) :
    record.notePayloadLen.has flag = record.has flag := rfl

variable (record : UndoRecord) (part : UndoPart)

theorem notePayloadLen_image (other : part ≠ .payload) :
    record.notePayloadLen.image part = record.image part := by
  cases part <;> first | rfl | contradiction

theorem image_length (fixed : part ≠ .rawdata) : (record.image part).length = part.width := by
  cases part with
  | header => exact UndoRecordHeader.layout.write_length _
  | block => exact UndoRecordBlock.layout.write_length _
  | transaction | oldTd => exact u64.write_length _
  | partition | tablespace => exact u32.write_length _
  | payload => exact u16.write_length _
  | rawdata => contradiction

theorem recordSize_toNat : record.recordSize.toNat = record.storedSize % 65536 := by
  have widen (len : Nat) : (UInt16.ofNat len).toNat = len % 65536 := UInt16.toNat_ofNat'
  unfold recordSize storedSize
  split_ifs <;> simp [UInt16.toNat_add] <;> lia

end UndoRecord

/-- The bytes that successive pages offer to a record, in order. -/
def stream : Nat → List (List UInt8) → List UInt8
  | _, [] => []
  | start, page :: rest => page.drop start ++ stream undoLogBlockHeaderSize rest

/-- The bytes of successive pages that lie before each page's starting byte. -/
def streamHeaders : Nat → List (List UInt8) → List (List UInt8)
  | _, [] => []
  | start, page :: rest => page.take start :: streamHeaders undoLogBlockHeaderSize rest

/-- Cursor facts shared by both directions: where the copy stands in page and stream. -/
structure UndoCursor.At (total start came : Nat) (left : Nat) (cursor : UndoCursor) : Prop where
  bound : left ≤ total
  skip : cursor.myBytes + (total - left) = cursor.already
  place : cursor.ptr + came = start + cursor.already
  forward : came ≤ cursor.already
  within : cursor.already ≤ total
  onPage : cursor.ptr ≤ blcksz
  fresh : came = 0 → cursor.myBytes = 0

/-- A page that is used up stops a copy strictly before the end of the stream. -/
structure UndoCursor.Full (total start came : Nat) (cursor : UndoCursor) : Prop where
  unfinished : cursor.already < total
  used : cursor.already = came + (blcksz - start)
  forward : came ≤ cursor.already

variable {total start came length left : Nat} {cursor : UndoCursor}

section

variable (held : cursor.At total start came (length + left))
include held

theorem UndoCursor.At.skipPiece (skips : length ≤ cursor.myBytes) :
    UndoCursor.At total start came left { cursor with myBytes := cursor.myBytes - length } := by
  obtain ⟨bound, skip, place, forward, within, onPage, fresh⟩ := held
  refine ⟨by omega, ?_, place, forward, within, onPage, fun zero => ?_⟩
  · grind
  · lia

theorem UndoCursor.At.full (pending : ¬ length ≤ cursor.myBytes)
    (none : cursor.room length = 0) : cursor.Full total start came := by
  obtain ⟨bound, skip, place, forward, within, onPage, fresh⟩ := held
  unfold UndoCursor.room at none
  constructor <;> omega

theorem UndoCursor.At.finish (pending : ¬ length ≤ cursor.myBytes)
    (all : cursor.room length = length - cursor.myBytes) :
    UndoCursor.At total start came left (cursor.advance (cursor.room length)) := by
  obtain ⟨bound, skip, place, forward, within, onPage, fresh⟩ := held
  have fits : cursor.room length ≤ blcksz - cursor.ptr := Nat.min_le_right _ _
  refine ⟨by omega, ?_, ?_, ?_, ?_, ?_, fun _ => rfl⟩ <;> simp only [UndoCursor.advance] <;> lia

theorem UndoCursor.At.cut (pending : ¬ length ≤ cursor.myBytes)
    (short : cursor.room length ≠ length - cursor.myBytes) :
    (cursor.advance (cursor.room length)).Full total start came := by
  obtain ⟨bound, skip, place, forward, within, onPage, fresh⟩ := held
  have room : cursor.room length = blcksz - cursor.ptr := by
    unfold UndoCursor.room at short ⊢
    lia
  have less : cursor.room length < length - cursor.myBytes := by
    unfold UndoCursor.room at short ⊢
    lia
  constructor <;> simp only [UndoCursor.advance] <;> lia

end

theorem slice_suffix {flat bytes rest : List UInt8} (skip count : Nat)
    (suffix : bytes ++ rest <:+ flat) (inside : skip + count ≤ bytes.length) :
    slice flat (flat.length - (bytes.length + rest.length) + skip) count =
      slice bytes skip count := by
  obtain ⟨front, rfl⟩ := suffix
  have place : (front ++ (bytes ++ rest)).length - (bytes.length + rest.length) = front.length := by
    simp
  unfold slice
  rw [place, ← drop_drop, drop_left, drop_append_of_le_length (by omega),
    take_append_of_le_length (by simp; omega)]

section Writing

variable (flat page : List UInt8) (start came : Nat)

/-- State of a running `Append` before the bytes `rest` of the stream. -/
structure Writing (keep : UndoRecord → Prop) (rest : List UInt8) (state : AppendState) :
    Prop where
  record : keep state.record
  suffix : rest <:+ flat
  cursor : state.cursor.At flat.length start came rest.length
  page : state.page = overwrite page start (slice flat came (state.cursor.already - came))

/-- State of an `Append` that used its page up. -/
structure WriteStopped (keep : UndoRecord → Prop) (state : AppendState) : Prop where
  record : keep state.record
  cursor : state.cursor.Full flat.length start came
  page : state.page = overwrite page start (slice flat came (state.cursor.already - came))

variable {page}

/-- A page takes the next bytes of a part. -/
theorem Writing.page_advance (keep : UndoRecord → Prop) {bytes rest : List UInt8}
    {state : AppendState} (full : page.length = blcksz)
    (held : Writing flat page start came keep (bytes ++ rest) state)
    (pending : ¬ bytes.length ≤ state.cursor.myBytes) : overwrite state.page state.cursor.ptr
        (slice bytes state.cursor.myBytes (state.cursor.room bytes.length)) = overwrite page start
        (slice flat came (state.cursor.already + state.cursor.room bytes.length - came)) := by
  obtain ⟨bound, skip, place, forward, within, onPage, -⟩ := held.cursor
  have room : state.cursor.room bytes.length ≤ bytes.length - state.cursor.myBytes :=
    Nat.min_le_left _ _
  rw [length_append] at bound skip
  have piece := slice_suffix state.cursor.myBytes
    (state.cursor.room bytes.length) held.suffix (by lia)
  have here : flat.length - (bytes.length + rest.length) + state.cursor.myBytes =
      came + (state.cursor.already - came) := by lia
  have done : (slice flat came (state.cursor.already - came)).length =
      state.cursor.already - came := slice_length _ _ _ (by lia)
  have ptr : state.cursor.ptr = start + (state.cursor.already - came) := by lia
  have count : state.cursor.already + state.cursor.room bytes.length - came =
      (state.cursor.already - came) + state.cursor.room bytes.length := by lia
  rw [held.page, ← piece, here, count, slice_add, ptr]
  have joined := overwrite_overwrite page start (slice flat came (state.cursor.already - came))
    (slice flat (came + (state.cursor.already - came)) (state.cursor.room bytes.length))
    (by rw [done]; grind)
  rw [done] at joined
  exact joined

/-- A part is written. -/
theorem insertUndoBytes_triple (keep : UndoRecord → Prop) {source : AppendState → List UInt8}
    (bytes rest : List UInt8) (full : page.length = blcksz)
    (known : ∀ state, keep state.record → source state = bytes) :
    Step.Triple (Writing flat page start came keep (bytes ++ rest)) (insertUndoBytes source)
      (Writing flat page start came keep rest) (WriteStopped flat page start came keep) := by
  intro state held
  have tail : rest <:+ flat := (suffix_append bytes rest).trans held.suffix
  have cursor := held.cursor
  rw [length_append] at cursor
  unfold insertUndoBytes
  rw [known state held.record]
  by_cases skips : bytes.length ≤ state.cursor.myBytes
  · simp only [skips, ↓reduceIte]
    exact .inl ⟨trivial, held.record, tail, cursor.skipPiece skips, held.page⟩
  · simp only [skips]
    by_cases none : state.cursor.room bytes.length = 0
    · simp only [none, ↓reduceIte]
      exact .inr ⟨trivial, held.record, cursor.full skips none, held.page⟩
    · have advanced := held.page_advance flat start came keep full skips
      simp only [none]
      by_cases all : state.cursor.room bytes.length = bytes.length - state.cursor.myBytes
      · exact .inl ⟨by simp [all], held.record, tail, cursor.finish skips all, advanced⟩
      · exact .inr ⟨by simp [all], held.record, cursor.cut skips all, advanced⟩

end Writing

section Appending

variable (source : UndoRecord) (flat page : List UInt8) (start came : Nat)

/-- The record under `Append` differs from the source at most in its payload length header. -/
def Unnoted (record : UndoRecord) : Prop := record.notePayloadLen = source.notePayloadLen

theorem Unnoted.has {source record : UndoRecord} (same : Unnoted source record) (flag : UInt8) :
    record.has flag = source.notePayloadLen.has flag := by
  rw [← UndoRecord.notePayloadLen_has record, same]

variable (flag : UInt8) (part : UndoPart) (rest : List UInt8)

theorem insertPart_triple (full : page.length = blcksz) (other : part ≠ .payload) : Step.Triple
      (Writing flat page start came (Unnoted source) (source.notePayloadLen.image part ++ rest))
      (insertPart part) (Writing flat page start came (Unnoted source) rest)
      (WriteStopped flat page start came (Unnoted source)) := by
  refine insertUndoBytes_triple flat start came _ _ rest full ?_
  intro state same
  rw [← same, UndoRecord.notePayloadLen_image _ part other]

theorem insertOptional_triple (full : page.length = blcksz) (other : part ≠ .payload) : Step.Triple
      (Writing flat page start came (Unnoted source) (source.notePayloadLen.images
          (optionalPart (source.notePayloadLen.has flag) part) ++ rest))
      (insertOptional flag part) (Writing flat page start came (Unnoted source) rest)
      (WriteStopped flat page start came (Unnoted source)) := by
  apply Step.triple_onlyIf
  · rintro state ⟨held, present⟩
    rw [held.record.has] at present
    simp only [present, optionalPart, ↓reduceIte, UndoRecord.images_cons, UndoRecord.images_nil,
      append_nil] at held
    exact insertPart_triple source flat page start came part rest full other state held
  · intro state held absent
    rw [held.record.has] at absent
    simpa [absent, optionalPart] using held

/-- From the length assignment on, the record is the source with its header up to date. -/
def Noted (record : UndoRecord) : Prop := record = source.notePayloadLen

theorem insertNoted_triple (full : page.length = blcksz) : Step.Triple
      (Writing flat page start came (Noted source) (source.notePayloadLen.image part ++ rest))
      (insertPart part) (Writing flat page start came (Noted source) rest)
      (WriteStopped flat page start came (Noted source)) := by
  refine insertUndoBytes_triple flat start came _ _ rest full ?_
  intro state same
  rw [same]

/-- The payload is written. -/
theorem insertRawdata_triple (full : page.length = blcksz) : Step.Triple
      (Writing flat page start came (Noted source) (source.notePayloadLen.images
          (optionalPart (decide (0 < source.notePayloadLen.payloadlen)) .rawdata) ++ rest))
      (Step.onlyIf (fun state => 0 < state.record.payloadlen) (insertPart .rawdata))
      (Writing flat page start came (Noted source) rest)
      (WriteStopped flat page start came (Noted source)) := by
  apply Step.triple_onlyIf
  · rintro state ⟨held, positive⟩
    rw [← show state.record = source.notePayloadLen from held.record, positive] at held
    simp only [optionalPart, ↓reduceIte, UndoRecord.images_cons, UndoRecord.images_nil,
      append_nil] at held
    rw [show state.record = source.notePayloadLen from held.record] at held
    exact insertNoted_triple source flat page start came .rawdata rest full state held
  · intro state held zero
    rw [← show state.record = source.notePayloadLen from held.record, zero] at held
    simpa [optionalPart] using held

/-- The payload and its length are written. -/
theorem insertPayload_triple (full : page.length = blcksz) : Step.Triple
      (Writing flat page start came (Unnoted source)
        (source.notePayloadLen.images source.notePayloadLen.payloadParts ++ rest))
      (Step.onlyIf (fun state => state.record.has undoUrecInfoPayload) <| Step.andThen
          (Step.assign fun state => { state with record := state.record.notePayloadLen }) <|
        Step.andThen (insertPart .payload) <|
        Step.onlyIf (fun state => 0 < state.record.payloadlen) (insertPart .rawdata))
      (Writing flat page start came (Unnoted source) rest)
      (WriteStopped flat page start came (Unnoted source)) := by
  have forget : ∀ record, Noted source record → Unnoted source record := by
    intro record same
    rw [same]
    rfl
  have both := Step.triple_conseq _ _ (Writing flat page start came (Unnoted source) rest) _
    (WriteStopped flat page start came (Unnoted source)) _
    (Step.triple_andThen _ _ _ _ (insertNoted_triple source flat page start came .payload _ full)
      (insertRawdata_triple source flat page start came rest full))
    (fun _ held => held) (fun _ held => ⟨forget _ held.record, held.suffix, held.cursor, held.page⟩)
    (fun _ held => ⟨forget _ held.record, held.cursor, held.page⟩)
  apply Step.triple_onlyIf
  · rintro state ⟨held, present⟩
    rw [held.record.has] at present
    simp only [UndoRecord.payloadParts, present] at held
    exact both _ ⟨held.record, held.suffix, held.cursor, held.page⟩
  · intro state held absent
    rw [held.record.has] at absent
    simpa [UndoRecord.payloadParts, absent] using held

/-- All parts are written. -/
theorem appendSteps_triple (undoLen : UInt16) (full : page.length = blcksz) :
    Step.Triple (Writing flat page start came (Unnoted source) (source.stored undoLen))
      (appendSteps undoLen) (Writing flat page start came (Unnoted source) [])
      (WriteStopped flat page start came (Unnoted source)) := by
  have order : source.stored undoLen =
      source.notePayloadLen.image .header ++ (source.notePayloadLen.image .block ++
      (source.notePayloadLen.images
        (optionalPart (source.notePayloadLen.has undoUrecInfoTransac) .transaction) ++
      (source.notePayloadLen.images
        (optionalPart (source.notePayloadLen.has undoUrecInfoOldtd) .oldTd) ++
      (source.notePayloadLen.images
        (optionalPart (source.notePayloadLen.has undoUrecInfoHasPartoid) .partition) ++
      (source.notePayloadLen.images
        (optionalPart (source.notePayloadLen.has undoUrecInfoHasTablespaceoid) .tablespace) ++
      (source.notePayloadLen.images source.notePayloadLen.payloadParts ++
      (u16.write undoLen ++ []))))))) := by
    simp only [UndoRecord.stored, UndoRecord.parts, UndoRecord.images_cons,
      UndoRecord.images_append, append_assoc, append_nil]
  rw [order]
  have fixed (part : UndoPart) (rest : List UInt8) (other : part ≠ .payload) :=
    insertPart_triple source flat page start came part rest full other
  have optional (flag : UInt8) (part : UndoPart) (rest : List UInt8) (other : part ≠ .payload) :=
    insertOptional_triple source flat page start came flag part rest full other
  refine Step.triple_andThen _ _ _ _ (fixed .header _ (by decide)) ?_
  refine Step.triple_andThen _ _ _ _ (fixed .block _ (by decide)) ?_
  refine Step.triple_andThen _ _ _ _ (optional _ .transaction _ (by decide)) ?_
  refine Step.triple_andThen _ _ _ _ (optional _ .oldTd _ (by decide)) ?_
  refine Step.triple_andThen _ _ _ _ (optional _ .partition _ (by decide)) ?_
  refine Step.triple_andThen _ _ _ _ (optional _ .tablespace _ (by decide)) ?_
  refine Step.triple_andThen _ _ _ _ (insertPayload_triple source flat page start came _ full) ?_
  exact insertUndoBytes_triple flat start came _ _ _ full (fun _ _ => rfl)

end Appending

/-- Pages that took `bytes` at the front of their stream and kept everything else. -/
structure Appended (start : Nat) (before : List (List UInt8)) (bytes : List UInt8)
    (after : List (List UInt8)) : Prop where
  content : stream start after = bytes ++ (stream start before).drop bytes.length
  headers : streamHeaders start after = streamHeaders start before
  sized : ∀ page ∈ after, page.length = blcksz

variable (page : List UInt8) (record : UndoRecord)

/-- What fits is written over one page. -/
theorem appended_overwrite {rest : List (List UInt8)} {start : Nat}
    {patch : List UInt8} (sized : ∀ other ∈ page :: rest, other.length = blcksz)
    (fits : start + patch.length ≤ blcksz) :
    Appended start (page :: rest) patch (overwrite page start patch :: rest) := by
  have full := sized page (by simp)
  refine ⟨?_, ?_, ?_⟩
  · simp only [stream]
    rw [drop_overwrite page start patch (by omega),
      drop_append_of_le_length (by simp; omega), drop_drop, append_assoc]
  · simp only [streamHeaders]
    rw [take_overwrite page start patch (by omega)]
  · intro other member
    rcases mem_cons.mp member with rfl | member
    · rw [overwrite_length page start _ (by omega), full]
    · exact sized other (mem_cons_of_mem _ member)

/-- What does not fit goes on in the next page. -/
theorem appended_cons {rest pages : List (List UInt8)} {start : Nat}
    {bytes : List UInt8} (full : page.length = blcksz) (onPage : start ≤ blcksz)
    (more : blcksz - start ≤ bytes.length)
    (tail : Appended undoLogBlockHeaderSize rest (bytes.drop (blcksz - start)) pages) :
    Appended start (page :: rest) bytes
      (overwrite page start (bytes.take (blcksz - start)) :: pages) := by
  have count : (bytes.take (blcksz - start)).length = blcksz - start := by
    simp [more]
  refine ⟨?_, ?_, ?_⟩
  · have patched : (overwrite page start (bytes.take (blcksz - start))).drop start =
        bytes.take (blcksz - start) := by
      rw [drop_overwrite _ _ _ (by omega), drop_of_length_le (by lia),
        append_nil]
    simp only [stream]
    rw [patched, tail.content, ← append_assoc, take_append_drop, length_drop,
      drop_append, drop_of_length_le (show (page.drop start).length ≤ bytes.length by
        rw [length_drop, full]; exact more), length_drop, full, nil_append]
  · simp only [streamHeaders]
    rw [tail.headers, take_overwrite page start _ (by omega)]
  · intro other member
    rcases mem_cons.mp member with rfl | member
    · rw [overwrite_length _ _ _ (by omega), full]
    · exact tail.sized other member

variable (source record : UndoRecord) (undoLen : UInt16) (page : List UInt8)

/-- An append fills the page, or finishes the record. -/
theorem append_spec (start came : Nat) (same : Unnoted source record) (full : page.length = blcksz)
    (onPage : start ≤ blcksz) (within : came ≤ (source.stored undoLen).length) :
    let flat := source.stored undoLen
    let result := append record page start came undoLen
    (result.1 = true ∧ result.2.cursor.already = flat.length ∧
        start + (flat.length - came) ≤ blcksz ∧
        result.2.page = overwrite page start (flat.drop came)) ∨
      (result.1 = false ∧ result.2.cursor.already = came + (blcksz - start) ∧
        came + (blcksz - start) < flat.length ∧ Unnoted source result.2.record ∧
        result.2.page = overwrite page start (slice flat came (blcksz - start))) := by
  intro flat result
  have initial : Writing flat page start came (Unnoted source) flat
      ⟨record, page, ⟨start, came, came⟩⟩ := by
    refine ⟨same, suffix_rfl, ⟨Nat.le_refl _, by simp, by simp, Nat.le_refl _, within,
      onPage, fun zero => zero⟩, by simp [slice]⟩
  rcases appendSteps_triple source flat page start came undoLen full _ initial with
    ⟨success, held⟩ | ⟨failure, held⟩
  · obtain ⟨-, skip, place, -, inside, fits, -⟩ := held.cursor
    simp only [length_nil] at skip
    have ended : result.2.cursor.already = flat.length := by
      change _ = result.2.cursor.already at skip
      change result.2.cursor.already ≤ _ at inside
      lia
    refine .inl ⟨success, ended, ?_, ?_⟩
    · change result.2.cursor.ptr + came = start + result.2.cursor.already at place
      change result.2.cursor.ptr ≤ _ at fits
      lia
    · have page := held.page
      change result.2.page = overwrite _ start (slice flat came (result.2.cursor.already - came))
        at page
      rw [page, ended]
      unfold slice
      rw [take_of_length_le (by simp)]
  · obtain ⟨unfinished, used, -⟩ := held.cursor
    refine .inr ⟨failure, used, ?_, held.record, ?_⟩
    · rw [← used]
      exact unfinished
    · have page := held.page
      rw [used, Nat.add_sub_cancel_left] at page
      exact page

/-- The whole record is appended to the pages. -/
theorem appendPages_spec
    (rest : List (List UInt8)) (start came : Nat) (same : Unnoted source record)
    (sized : ∀ other ∈ page :: rest, other.length = blcksz) (onPage : start ≤ blcksz)
    (within : came ≤ (source.stored undoLen).length)
    (enough : (source.stored undoLen).length - came ≤
      blcksz - start + rest.length * undoLogUsableBytesPerPage) :
    ∃ pages, appendPages undoLen record (page :: rest) start came =
        some (pages, (source.stored undoLen).length) ∧
      Appended start (page :: rest) ((source.stored undoLen).drop came) pages := by
  have full := sized page (by simp)
  have spec := append_spec source record undoLen page start came same full onPage within
  -- The induction follows the pages; a page that ends the record ends the loop.
  induction rest generalizing page start came record with
  | nil =>
    rcases spec with ⟨success, ended, fits, filled⟩ | ⟨-, -, unfinished, -⟩
    · refine ⟨_, by rw [appendPages, if_pos success, ended, filled], ?_⟩
      exact appended_overwrite page sized (by rw [length_drop]; exact fits)
    · simp only [length_nil, Nat.zero_mul] at enough
      omega
  | cons next rest ih =>
    rcases spec with ⟨success, ended, fits, filled⟩ | ⟨failure, used, unfinished, kept, filled⟩
    · refine ⟨_, by rw [appendPages, if_pos success, ended, filled], ?_⟩
      exact appended_overwrite page sized (by rw [length_drop]; exact fits)
    · have later : ∀ other ∈ next :: rest, other.length = blcksz :=
        fun other member => sized other (mem_cons_of_mem _ member)
      obtain ⟨pages, tail, appended⟩ := ih _ next undoLogBlockHeaderSize
        (came + (blcksz - start)) kept later (by decide) (by lia)
        (by
          rw [length_cons] at enough
          unfold undoLogUsableBytesPerPage at enough ⊢
          lia)
        (later next (by simp))
        (append_spec source _ undoLen next undoLogBlockHeaderSize _ kept (later next (by simp))
          (by decide) (by lia))
      refine ⟨overwrite page start (((source.stored undoLen).drop came).take (blcksz - start)) ::
        pages, ?_, ?_⟩
      · rw [appendPages, if_neg (by simp [failure]), used, tail, filled]
        rfl
      · refine appended_cons page full onPage ?_ ?_
        · rw [length_drop]
          lia
        · rw [drop_drop]
          exact appended

theorem UndoRecord.images_optionalPart_length (present : Bool)
    (part : UndoPart) (fixed : part ≠ .rawdata) :
    (record.images (optionalPart present part)).length = if present then part.width else 0 := by
  cases present with
  | true => simp [optionalPart, record.image_length part fixed]
  | false => simp [optionalPart]

/-- The bytes of the payload and its length. -/
theorem UndoRecord.images_payloadParts_length (intact : record.rawdata.Intact)
    (short : record.has undoUrecInfoPayload = true → record.rawdata.len < 65536) :
    (record.notePayloadLen.images record.notePayloadLen.payloadParts).length =
      if record.has undoUrecInfoPayload then 2 + record.rawdata.len else 0 := by
  have data : (record.notePayloadLen.image .rawdata).length = record.rawdata.len := intact
  have header : (record.notePayloadLen.image .payload).length = 2 :=
    record.notePayloadLen.image_length .payload (by decide)
  have positive (present : record.has undoUrecInfoPayload = true) :
      0 < record.notePayloadLen.payloadlen ↔ 0 < record.rawdata.len := by
    change 0 < UInt16.ofNat record.rawdata.len ↔ _
    rw [UInt16.lt_iff_toNat_lt, UInt16.toNat_ofNat_of_lt' (short present)]
    rfl
  unfold payloadParts optionalPart
  simp only [notePayloadLen_has, decide_eq_true_eq]
  split_ifs with present some
  · simp [header, data]
  · have zero : record.rawdata.len = 0 := by
      rw [positive present] at some
      omega
    simp [header, zero]
  · rfl

theorem UndoRecord.stored_length (undoLen : UInt16) (intact : record.rawdata.Intact)
    (short : record.has undoUrecInfoPayload = true → record.rawdata.len < 65536) :
    (record.stored undoLen).length = record.storedSize := by
  have fixed (part : UndoPart) (other : part ≠ .rawdata) :=
    record.notePayloadLen.image_length part other
  have optional (present : Bool) (part : UndoPart) (other : part ≠ .rawdata) :=
    record.notePayloadLen.images_optionalPart_length present part other
  simp only [stored, parts, notePayloadLen_has, images_cons, images_append, length_append,
    u16.write_length, record.images_payloadParts_length intact short]
  rw [fixed .header (by decide), fixed .block (by decide), optional _ .transaction (by decide),
    optional _ .oldTd (by decide), optional _ .partition (by decide),
    optional _ .tablespace (by decide)]
  simp only [storedSize, UndoPart.width, u16]
  lia

end OpenGauss.Undo
