import OpenGauss.Undo.RecordWrite

/-!
# What `ReadUndoRecord` rebuilds from the pages

The reader sees the record's bytes in portions that the page boundaries cut. Its
invariant says how much of each piece is already right: a piece agrees with the
source on as many bytes as the stream position has passed into it. The header comes
first, so from there on the reader's presence bits are the writer's.
-/
namespace OpenGauss.Undo

open List OpenGauss.Base

namespace UndoRecord

variable (record : UndoRecord)

theorem image_assign_self {part : UndoPart} {bytes : List UInt8}
    (sized : part ≠ .rawdata → bytes.length = part.width) :
    (record.assign part bytes).image part = bytes := by
  cases part with
  | header => exact UndoRecordHeader.layout.write_read bytes (sized (by decide))
  | block => exact UndoRecordBlock.layout.write_read bytes (sized (by decide))
  | transaction | oldTd => exact u64.write_read bytes (sized (by decide))
  | partition | tablespace => exact u32.write_read bytes (sized (by decide))
  | payload => exact u16.write_read bytes (sized (by decide))
  | rawdata => rfl

theorem image_assign_other {part other : UndoPart} (bytes : List UInt8)
    (distinct : other ≠ part) : (record.assign part bytes).image other = record.image other := by
  cases part <;> cases other <;> first | rfl | contradiction

theorem parts_nodup : record.parts.Nodup := by
  unfold parts payloadParts optionalPart
  split_ifs <;> decide

end UndoRecord

/-- A run of pieces agrees with the source on the first `count` bytes of the run. -/
def Pending (source record : UndoRecord) : List UndoPart → Nat → Prop
  | [], _ => True
  | part :: rest, count =>
    (record.image part).take count = (source.image part).take count ∧
      Pending source record rest (count - (source.image part).length)

theorem pending_zero (source record : UndoRecord) (parts : List UndoPart) :
    Pending source record parts 0 := by
  induction parts with
  | nil => trivial
  | cons part rest ih =>
    refine ⟨by simp, ?_⟩
    rw [Nat.zero_sub]
    exact ih

theorem pending_congr (source left right : UndoRecord) (parts : List UndoPart) (count : Nat)
    (same : ∀ part ∈ parts, right.image part = left.image part)
    (held : Pending source left parts count) : Pending source right parts count := by
  induction parts generalizing count with
  | nil => trivial
  | cons part rest ih =>
    refine ⟨?_, ih _ (fun other member => same other (mem_cons_of_mem _ member)) held.2⟩
    rw [same part (by simp)]
    exact held.1

/-- Parts that are done and pending. -/
theorem pending_append {source record : UndoRecord} (done rest : List UndoPart) {count : Nat}
    (complete : ∀ part ∈ done, record.image part = source.image part)
    (held : Pending source record rest count) :
    Pending source record (done ++ rest) ((source.images done).length + count) := by
  induction done with
  | nil => simpa using held
  | cons part done ih =>
    have tail := ih (fun other member => complete other (mem_cons_of_mem _ member))
    refine ⟨by rw [complete part (by simp)], ?_⟩
    have shift : (source.images (part :: done)).length + count - (source.image part).length =
        (source.images done).length + count := by
      simp only [UndoRecord.images_cons, length_append]
      omega
    rw [shift]
    exact tail

/-- The page holds the stream `flat` from position `came` at byte `start`. -/
def Holds (page : List UInt8) (start : Nat) (flat : List UInt8) (came : Nat) : Prop :=
  ∀ skip count, start + skip + count ≤ blcksz → came + skip + count ≤ flat.length →
    slice page (start + skip) count = slice flat (came + skip) count

section Reading

variable (source : UndoRecord) (page : List UInt8) (start came : Nat)

/-- The bytes the reader looks for: every piece, without the trailing length. -/
def UndoRecord.body : List UInt8 := source.images source.parts

/-- Payload memory is not allocated yet, or has the source's size. -/
def Sized (record : UndoRecord) : Prop :=
  record.rawdata.data = none ∨ record.rawdata.bytes.length = source.rawdata.bytes.length

/-- State of a running `ReadUndoRecord` before the pieces `rest`. -/
structure Reading (rest : List UndoPart) (state : ReadState) : Prop where
  /-- Every piece before `rest` is complete. -/
  split : ∃ done, source.parts = done ++ rest ∧
    ∀ part ∈ done, state.record.image part = source.image part
  pending : Pending source state.record rest state.cursor.myBytes
  memory : Sized source state.record
  cursor : state.cursor.At source.body.length start came (source.images rest).length

/-- State of a `ReadUndoRecord` that used its page up. -/
structure ReadStopped (state : ReadState) : Prop where
  pending : Pending source state.record source.parts state.cursor.already
  memory : Sized source state.record
  cursor : state.cursor.Full source.body.length start came

variable {source}

theorem body_length_split {done rest : List UndoPart} (split : source.parts = done ++ rest) :
    source.body.length = (source.images done).length + (source.images rest).length := by
  unfold UndoRecord.body
  rw [split]
  simp

theorem take_copied {dest target : List UInt8} {skip : Nat} (count : Nat)
    (width : dest.length = target.length) (inside : skip + count ≤ target.length)
    (agree : dest.take skip = target.take skip) :
    (overwrite dest skip (slice target skip count)).take (skip + count) =
      target.take (skip + count) := by
  have moved : (slice target skip count).length = count := slice_length _ _ _ inside
  have ended := take_overwrite_end dest skip (slice target skip count) (by lia)
  rw [moved] at ended
  rw [ended, agree, take_add]
  rfl

variable (copyData : Bool) (part : UndoPart) (rest : List UndoPart) (state : ReadState)

variable {page start came}

/-- A page offers the next bytes of a part. -/
theorem Reading.offered (held : Reading source start came (part :: rest) state)
    (holds : Holds page start source.body came)
    (pending : ¬ (source.image part).length ≤ state.cursor.myBytes) :
    slice page state.cursor.ptr (state.cursor.room (source.image part).length) =
      slice (source.image part) state.cursor.myBytes
        (state.cursor.room (source.image part).length) := by
  obtain ⟨done, split, -⟩ := held.split
  obtain ⟨bound, skip, place, forward, within, onPage, -⟩ := held.cursor
  have total := body_length_split split
  rw [UndoRecord.images_cons, length_append] at bound skip total
  have room := Nat.min_le_left ((source.image part).length - state.cursor.myBytes)
    (blcksz - state.cursor.ptr)
  have space := Nat.min_le_right ((source.image part).length - state.cursor.myBytes)
    (blcksz - state.cursor.ptr)
  change state.cursor.room (source.image part).length ≤ _ at room space
  have fromPage := holds (state.cursor.already - came)
    (state.cursor.room (source.image part).length) (by lia) (by lia)
  have suffix : source.image part ++ source.images rest <:+ source.body := by
    refine ⟨source.images done, ?_⟩
    unfold UndoRecord.body
    rw [split]
    simp
  have fromPiece := slice_suffix
    state.cursor.myBytes (state.cursor.room (source.image part).length) suffix (by lia)
  rw [show state.cursor.ptr = start + (state.cursor.already - came) by omega, fromPage, ← fromPiece]
  congr 1
  lia

/-- A part is complete. -/
theorem Reading.complete {state next : ReadState}
    (held : Reading source start came (part :: rest) state)
    (whole : next.record.image part = source.image part)
    (others : ∀ other, other ≠ part → next.record.image other = state.record.image other)
    (pending : Pending source next.record rest next.cursor.myBytes)
    (memory : Sized source next.record)
    (cursor : next.cursor.At source.body.length start came (source.images rest).length) :
    Reading source start came rest next := by
  obtain ⟨done, split, finished⟩ := held.split
  refine ⟨⟨done ++ [part], by simp [split], ?_⟩, pending, memory, cursor⟩
  intro other member
  by_cases same : other = part
  · rw [same, whole]
  · rw [others other same]
    exact finished other (by simpa [same] using member)

/-- The page ends inside a part. -/
theorem Reading.stop {state next : ReadState}
    (held : Reading source start came (part :: rest) state)
    (others : ∀ other, other ≠ part → next.record.image other = state.record.image other)
    (moved : Nat) (inside : state.cursor.myBytes + moved ≤ (source.image part).length)
    (agree : (next.record.image part).take (state.cursor.myBytes + moved) =
      (source.image part).take (state.cursor.myBytes + moved))
    (progress : next.cursor.already = state.cursor.already + moved)
    (memory : Sized source next.record) (cursor : next.cursor.Full source.body.length start came) :
    ReadStopped source start came next := by
  obtain ⟨done, split, finished⟩ := held.split
  have distinct := source.parts_nodup
  rw [split] at distinct
  have total := body_length_split split
  have skip := held.cursor.skip
  refine ⟨?_, memory, cursor⟩
  have here : Pending source next.record (part :: rest) (state.cursor.myBytes + moved) := by
    refine ⟨agree, ?_⟩
    rw [Nat.sub_eq_zero_of_le inside]
    exact pending_zero _ _ _
  have apart : ∀ other ∈ done, other ≠ part := by
    intro other member same
    have := (nodup_append.mp distinct).2.2 other member part (by simp)
    exact this same
  have all := pending_append done (part :: rest)
    (fun other member => by rw [others other (apart other member), finished other member]) here
  rw [split, progress]
  have position : (source.images done).length + (state.cursor.myBytes + moved) =
      state.cursor.already + moved := by lia
  rw [← position]
  exact all

theorem Reading.whdr (behind : .header ∉ rest)
    (held : Reading source start came rest state) : state.record.whdr = source.whdr := by
  obtain ⟨done, split, finished⟩ := held.split
  have member : UndoPart.header ∈ done := by
    have stored : UndoPart.header ∈ source.parts := by simp [UndoRecord.parts]
    rw [split, mem_append] at stored
    exact stored.resolve_right behind
  exact UndoRecordHeader.layout.write_injective (finished _ member)

/-- One copy either completes its piece or uses the page up. -/
theorem readUndoBytes_triple (holds : Holds page start source.body came) : Step.Triple
      (fun state => Reading source start came (part :: rest) state ∧
        (state.record.image part).length = (source.image part).length)
      (readUndoBytes page part) (Reading source start came rest)
      (ReadStopped source start came) := by
  rintro state ⟨held, width⟩
  have cursor := held.cursor
  rw [UndoRecord.images_cons, length_append] at cursor
  have offered := held.offered part rest state holds
  simp only [readUndoBytes, width]
  by_cases skips : (source.image part).length ≤ state.cursor.myBytes
  · simp only [skips, ↓reduceIte]
    have whole : state.record.image part = source.image part := by
      have agree := held.pending.1
      rwa [take_of_length_le (by omega), take_of_length_le skips] at agree
    exact .inl ⟨trivial, held.complete part rest whole
      (fun _ _ => rfl) held.pending.2 held.memory (cursor.skipPiece skips)⟩
  · simp only [skips]
    by_cases none : state.cursor.room (source.image part).length = 0
    · simp only [none, ↓reduceIte]
      exact .inr ⟨trivial, held.stop part rest (fun _ _ => rfl) 0
        (by omega) held.pending.1 rfl held.memory (cursor.full skips none)⟩
    · have fits : state.cursor.room (source.image part).length ≤
          (source.image part).length - state.cursor.myBytes := Nat.min_le_left _ _
      rw [offered skips]
      simp only [none, ↓reduceIte]
      have copied := take_copied (state.cursor.room (source.image part).length) width (by omega)
        held.pending.1
      have moved : (slice (source.image part) state.cursor.myBytes
          (state.cursor.room (source.image part).length)).length =
          state.cursor.room (source.image part).length := slice_length _ _ _ (by omega)
      generalize overwritten : overwrite (state.record.image part) state.cursor.myBytes
        (slice (source.image part) state.cursor.myBytes
          (state.cursor.room (source.image part).length)) = bytes at copied ⊢
      have length : bytes.length = (source.image part).length := by
        rw [← overwritten, overwrite_length _ _ _ (by lia), width]
      have self : (state.record.assign part bytes).image part = bytes := by
        refine state.record.image_assign_self (fun fixed => ?_)
        rw [length, source.image_length part fixed]
      have others : ∀ other, other ≠ part →
          (state.record.assign part bytes).image other = state.record.image other :=
        fun other distinct => state.record.image_assign_other bytes distinct
      have memory : Sized source (state.record.assign part bytes) := by
        cases part with
        | rawdata => exact .inr length
        | _ => exact held.memory
      by_cases all : state.cursor.room (source.image part).length =
          (source.image part).length - state.cursor.myBytes
      · have whole : bytes = source.image part := by
          rwa [all, show state.cursor.myBytes + ((source.image part).length -
            state.cursor.myBytes) = (source.image part).length by grind,
            take_of_length_le (by omega), take_length] at copied
        exact .inl ⟨by simp [all], held.complete part rest
          (by rw [self, whole]) others (pending_zero _ _ _) memory (cursor.finish skips all)⟩
      · exact .inr ⟨by simp [all], held.stop part rest others
          (state.cursor.room (source.image part).length) (by lia) (by rw [self, copied]) rfl
          memory (cursor.cut skips all)⟩

theorem readFixed_triple (fixed : part ≠ .rawdata) (holds : Holds page start source.body came) :
    Step.Triple (Reading source start came (part :: rest)) (readUndoBytes page part)
      (Reading source start came rest) (ReadStopped source start came) := by
  intro state held
  refine readUndoBytes_triple part rest holds state ⟨held, ?_⟩
  rw [state.record.image_length part fixed, source.image_length part fixed]

theorem Reading.has {rest : List UndoPart} {state : ReadState} (behind : .header ∉ rest)
    (held : Reading source start came rest state) (flag : UInt8) :
    state.record.has flag = source.has flag := by
  unfold UndoRecord.has
  rw [held.whdr rest state behind]

/-- An optional part is read. -/
theorem readOptional_triple (flag : UInt8) {part : UndoPart} {rest : List UndoPart}
    (fixed : part ≠ .rawdata) (other : part ≠ .header) (behind : .header ∉ rest)
    (holds : Holds page start source.body came) :
    Step.Triple (Reading source start came (optionalPart (source.has flag) part ++ rest))
      (readOptional page flag part) (Reading source start came rest)
      (ReadStopped source start came) := by
  have ahead : UndoPart.header ∉ optionalPart (source.has flag) part ++ rest := by
    unfold optionalPart
    split_ifs <;> simp [behind, other.symm]
  apply Step.triple_onlyIf
  · rintro state ⟨held, present⟩
    rw [held.has ahead] at present
    simp only [present] at held
    exact readFixed_triple part rest fixed holds state held
  · intro state held absent
    rw [held.has ahead] at absent
    simpa [absent, optionalPart] using held

variable (source page came)

/-- A record that was read to its end. -/
structure Loaded (record : UndoRecord) : Prop where
  parts : ∀ part ∈ source.parts, record.image part = source.image part
  len : source.has undoUrecInfoPayload = true → record.rawdata.len = source.payloadlen.toNat

variable (start)

/-- State of a `ReadUndoRecord` that came to the end of the record, which is on its page. -/
structure ReadDone (state : ReadState) : Prop where
  loaded : Loaded source state.record
  whole : source.body.length + start ≤ came + blcksz

variable {source start came}

theorem Reading.all (held : Reading source start came [] state) :
    ∀ part ∈ source.parts, state.record.image part = source.image part := by
  obtain ⟨done, split, finished⟩ := held.split
  rw [append_nil] at split
  rw [split]
  exact finished

theorem Reading.whole (held : Reading source start came [] state) :
    source.body.length + start ≤ came + blcksz := by
  have skip := held.cursor.skip
  have place := held.cursor.place
  have within := held.cursor.within
  have onPage := held.cursor.onPage
  simp only [UndoRecord.images_nil, length_nil] at skip
  omega

theorem readUndoBytes_len :
    (readUndoBytes page part state).2.record.rawdata.len = state.record.rawdata.len := by
  simp only [readUndoBytes]
  split_ifs
  · rfl
  · rfl
  · cases part <;> rfl

variable (source)

/-- The stored payload length describes the payload. -/
structure UndoRecord.Described : Prop where
  noted : source.has undoUrecInfoPayload = true → source.payloadlen.toNat = source.rawdata.len
  intact : source.rawdata.Intact

section

variable (described : source.Described) (positive : 0 < source.rawdata.len)
  (known : state.record.rawdata.len = source.rawdata.len)
include described positive known

/-- The payload is allocated. -/
theorem Reading.alloc (held : Reading source start came [.rawdata] state) :
    Reading source start came [.rawdata] (allocPayload state) ∧
      ((allocPayload state).record.image .rawdata).length = (source.image .rawdata).length := by
  have width : (source.image .rawdata).length = source.rawdata.len := described.intact
  unfold allocPayload
  cases allocated : state.record.rawdata.data with
  | some bytes =>
    refine ⟨held, ?_⟩
    rcases held.memory with none | sized
    · rw [none] at allocated
      contradiction
    · exact sized
  | none =>
    have empty : state.record.image .rawdata = [] := by
      simp [UndoRecord.image, RawData.bytes, allocated]
    have nothing : state.cursor.myBytes = 0 := by
      have agree := congrArg List.length held.pending.1
      rw [empty, take_nil, length_nil, length_take] at agree
      lia
    have zeros : (List.replicate state.record.rawdata.len (0 : UInt8)).length =
        (source.image .rawdata).length := by
      rw [length_replicate, known, width]
    obtain ⟨done, split, finished⟩ := held.split
    have distinct := source.parts_nodup
    rw [split] at distinct
    refine ⟨⟨⟨done, split, ?_⟩, ?_, .inr zeros, held.cursor⟩, zeros⟩
    · intro part member
      have other : part ≠ .rawdata :=
        (nodup_append.mp distinct).2.2 part member .rawdata (by simp)
      rw [← finished part member]
      cases part <;> first | rfl | contradiction
    · simp only [nothing]
      exact pending_zero _ _ _

/-- The payload is borrowed from the page. -/
theorem Reading.borrow
    (holds : Holds page start source.body came) (held : Reading source start came [.rawdata] state)
    (borrows : canBorrow copyData (decide (0 < came)) state = true) :
    (∀ part ∈ source.parts, (borrowPayload page state).record.image part = source.image part) ∧
      source.body.length + start ≤ came + blcksz := by
  simp only [canBorrow, Bool.and_eq_true, Bool.not_eq_true', decide_eq_false_iff_not,
    decide_eq_true_eq, Nat.not_lt, Nat.le_zero_eq] at borrows
  obtain ⟨⟨-, first⟩, fits⟩ := borrows
  have width : (source.image .rawdata).length = source.rawdata.len := described.intact
  have nothing := held.cursor.fresh first
  have room : state.cursor.room (source.image .rawdata).length = source.rawdata.len := by
    unfold UndoCursor.room
    lia
  have offered := held.offered .rawdata [] state holds (by lia)
  rw [room, nothing] at offered
  obtain ⟨done, split, finished⟩ := held.split
  have whole : source.body.length + start ≤ came + blcksz := by
    have skip := held.cursor.skip
    have place := held.cursor.place
    have onPage := held.cursor.onPage
    rw [UndoRecord.images_cons, length_append, UndoRecord.images_nil, length_nil] at skip
    omega
  refine ⟨?_, whole⟩
  intro part member
  rw [split, mem_append, mem_singleton] at member
  by_cases payload : part = .rawdata
  · rw [payload]
    change slice page state.cursor.ptr state.record.rawdata.len = source.image .rawdata
    rw [known, offered]
    unfold slice
    rw [drop_zero, take_of_length_le (by omega)]
  · rw [← finished part (member.resolve_right payload)]
    cases part <;> first | rfl | contradiction

end

variable (start came)

/-- State before the payload bytes, with the length field already taken from the page. -/
def ReadingRawdata (rest : List UndoPart) (state : ReadState) : Prop :=
  Reading source start came rest state ∧ state.record.rawdata.len = source.rawdata.len

section

variable (described : source.Described)
include described

/-- The length of the payload is adopted. -/
theorem adoptPayloadLen_reading {rest : List UndoPart}
    {state : ReadState} (payload : source.has undoUrecInfoPayload = true)
    (behind : .payload ∉ rest) (held : Reading source start came rest state) :
    ReadingRawdata source start came rest (adoptPayloadLen state) := by
  obtain ⟨done, split, finished⟩ := held.split
  have present : UndoPart.payload ∈ source.parts := by
    simp [UndoRecord.parts, UndoRecord.payloadParts, payload]
  rw [split, mem_append] at present
  have same : state.record.payloadlen = source.payloadlen :=
    u16.write_injective (finished _ (present.resolve_right behind))
  have images : ∀ part, (adoptPayloadLen state).record.image part = state.record.image part := by
    intro part
    cases part <;> rfl
  refine ⟨⟨⟨done, split, fun part member => ?_⟩, ?_, held.memory, held.cursor⟩, ?_⟩
  · rw [images, finished part member]
  · exact pending_congr source state.record _ rest _ (fun part _ => images part) held.pending
  · change state.record.payloadlen.toNat = source.rawdata.len
    rw [same, described.noted payload]

/-- The payload is read. -/
theorem readPayload_triple
    (payload : source.has undoUrecInfoPayload = true) (positive : 0 < source.rawdata.len)
    (holds : Holds page start source.body came) :
    Step.Triple (ReadingRawdata source start came [.rawdata])
      (readPayload page copyData (decide (0 < came))) (ReadDone source start came)
      (ReadStopped source start came) := by
  rintro state ⟨held, known⟩
  unfold readPayload
  by_cases borrows : canBorrow copyData (decide (0 < came)) state = true
  · rw [if_pos borrows]
    obtain ⟨same, whole⟩ := held.borrow source page copyData state described positive
      known holds borrows
    refine .inl ⟨rfl, ⟨same, fun _ => ?_⟩, whole⟩
    · change state.record.rawdata.len = source.payloadlen.toNat
      rw [known, described.noted payload]
  · rw [if_neg borrows]
    have alloc := held.alloc source state described positive known
    have kept : (readUndoBytes page .rawdata (allocPayload state)).2.record.rawdata.len =
        source.payloadlen.toNat := by
      rw [readUndoBytes_len, described.noted payload, ← known]
      unfold allocPayload
      split <;> rfl
    rcases readUndoBytes_triple .rawdata [] holds _ alloc with
      ⟨success, reached⟩ | stopped
    · exact .inl ⟨success, ⟨reached.all _, fun _ => kept⟩, reached.whole _⟩
    · exact .inr stopped

/-- A payload is read by its length. -/
theorem readAdopted_triple
    (payload : source.has undoUrecInfoPayload = true) (holds : Holds page start source.body came) :
    Step.Triple (Reading source start came (optionalPart (decide (0 < source.payloadlen)) .rawdata))
      (Step.andThen (Step.assign adoptPayloadLen) <|
        Step.onlyIf (fun state => decide (0 < state.record.rawdata.len))
          (readPayload page copyData (decide (0 < came))))
      (ReadDone source start came) (ReadStopped source start came) := by
  have agree : (0 < source.payloadlen) ↔ 0 < source.rawdata.len := by
    rw [UInt16.lt_iff_toNat_lt, described.noted payload]
    rfl
  apply Step.triple_andThen _ (ReadingRawdata source start came
    (optionalPart (decide (0 < source.payloadlen)) .rawdata))
  · apply Step.triple_assign
    intro state held
    refine adoptPayloadLen_reading source start came described payload ?_ held
    unfold optionalPart
    split_ifs <;> decide
  · apply Step.triple_onlyIf
    · rintro state ⟨⟨held, known⟩, positive⟩
      rw [known, decide_eq_true_eq] at positive
      rw [decide_eq_true (agree.mpr positive)] at held
      exact readPayload_triple source page start came copyData described payload positive holds
        state ⟨held, known⟩
    · rintro state ⟨held, known⟩ zero
      rw [known, decide_eq_false_iff_not] at zero
      rw [decide_eq_false (mt agree.mp zero)] at held
      refine ⟨⟨held.all state, fun _ => ?_⟩, held.whole state⟩
      rw [known, described.noted payload]

/-- The payload and its length are read. -/
theorem readPayloadParts_triple (holds : Holds page start source.body came) :
    Step.Triple (Reading source start came source.payloadParts)
      (Step.onlyIf (fun state => state.record.has undoUrecInfoPayload) <|
        Step.andThen (readUndoBytes page .payload) <| Step.andThen (Step.assign adoptPayloadLen) <|
        Step.onlyIf (fun state => decide (0 < state.record.rawdata.len))
          (readPayload page copyData (decide (0 < came))))
      (ReadDone source start came) (ReadStopped source start came) := by
  have behind : UndoPart.header ∉ source.payloadParts := by
    unfold UndoRecord.payloadParts optionalPart
    split_ifs <;> decide
  apply Step.triple_onlyIf
  · rintro state ⟨held, present⟩
    rw [held.has behind] at present
    simp only [UndoRecord.payloadParts, present] at held
    exact Step.triple_andThen _ _ _ _ (readFixed_triple .payload _ (by decide) holds)
      (readAdopted_triple source page start came copyData described present holds) state held
  · intro state held absent
    rw [held.has behind] at absent
    simp only [UndoRecord.payloadParts, absent] at held
    refine ⟨⟨held.all state, fun present => ?_⟩, held.whole state⟩
    rw [absent] at present
    contradiction

/-- All parts are read. -/
theorem readSteps_triple (holds : Holds page start source.body came) :
    Step.Triple (Reading source start came source.parts)
      (readSteps page copyData (decide (0 < came)))
      (ReadDone source start came) (ReadStopped source start came) := by
  have behind (parts : List UndoPart)
      (tail : parts <:+ (optionalPart (source.has undoUrecInfoTransac) .transaction ++
        (optionalPart (source.has undoUrecInfoOldtd) .oldTd ++
        (optionalPart (source.has undoUrecInfoHasPartoid) .partition ++
        (optionalPart (source.has undoUrecInfoHasTablespaceoid) .tablespace ++
          source.payloadParts))))) : UndoPart.header ∉ parts := by
    intro member
    have all := tail.subset member
    have distinct := source.parts_nodup
    unfold UndoRecord.parts at distinct
    exact (nodup_cons.mp distinct).1 (mem_cons_of_mem _ all)
  have optional (flag : UInt8) (part : UndoPart) (rest : List UndoPart)
      (fixed : part ≠ .rawdata) (other : part ≠ .header) (ahead : .header ∉ rest) :=
    readOptional_triple flag fixed other ahead holds
  unfold readSteps UndoRecord.parts
  refine Step.triple_andThen _ _ _ _ (readFixed_triple .header _ (by decide) holds) ?_
  refine Step.triple_andThen _ _ _ _ (readFixed_triple .block _ (by decide) holds) ?_
  refine Step.triple_andThen _ _ _ _
    (optional _ .transaction _ (by decide) (by decide) (behind _ (suffix_append _ _))) ?_
  refine Step.triple_andThen _ _ _ _ (optional _ .oldTd _ (by decide) (by decide) (behind _ ?_)) ?_
  · exact (suffix_append _ _).trans (suffix_append _ _)
  refine Step.triple_andThen _ _ _ _
    (optional _ .partition _ (by decide) (by decide) (behind _ ?_)) ?_
  · exact ((suffix_append _ _).trans (suffix_append _ _)).trans (suffix_append _ _)
  refine Step.triple_andThen _ _ _ _
    (optional _ .tablespace _ (by decide) (by decide) (behind _ ?_)) ?_
  · exact (((suffix_append _ _).trans (suffix_append _ _)).trans
      (suffix_append _ _)).trans (suffix_append _ _)
  exact readPayloadParts_triple source page start came copyData described holds

end

end Reading

end OpenGauss.Undo
