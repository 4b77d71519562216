import Mathlib
import OpenGauss.Ustore.Page
/-!
# Inserting many tuples at once

For each page it fills, a multi-insert first works out which offsets the tuples will take and
prepares one undo record for each range of consecutive offsets. It then places the tuples one by
one, each at the offset that the page itself picks, and closes every range behind the last tuple
placed in it. Rollback removes the tuples of the recorded ranges, so these must be exactly the
offsets taken. The page handed to the second half is the one the ranges were computed from: when
the reservation of a transaction slot moves `pd_lower` or lets go of the lock, both start over.
-/
namespace OpenGauss.Ustore

open List

/-- A tuple to insert, by its length on disk. -/
structure UTuple where
  /-- `disk_tuple_size`. -/
  diskTupleSize : Nat
  header_le : sizeOfUHeapDiskTupleData ≤ diskTupleSize

/-- A range of offsets, as recorded in an undo record. -/
structure OffsetRange where
  /-- `startOffset`. -/
  startOffset : Nat
  /-- `endOffset`. -/
  endOffset : Nat
deriving DecidableEq

/-- The offsets of a range; none when it ends before it starts. -/
def OffsetRange.offsets (range : OffsetRange) : List Nat :=
  List.range' range.startOffset (range.endOffset + 1 - range.startOffset)

/-- The progress of the search for usable line pointers. -/
structure Locating where
  nthispage : Nat
  usedSpace : Nat
  ranges : List OffsetRange
  inRange : Bool
  isFirstInsert : Bool

/-- One more usable offset: the newest range ends there, or a new one starts. -/
def addOffset (inRange : Bool) (offset : Nat) : List OffsetRange → List OffsetRange
  | [] => [{ startOffset := offset, endOffset := offset }]
  | range :: ranges =>
    if inRange then { range with endOffset := offset } :: ranges
    else { startOffset := offset, endOffset := offset } :: range :: ranges

/-- `LocateUsableItemIds`, from the given offset on: every free line pointer takes the next tuple as
long as there is one and it fits. -/
def locateUsableItemIds (availSpace saveFreeSpace : Nat) (tuples : List UTuple) :
    Nat → List RowPtr → Locating → Locating
  | _, [], state => state
  | offset, row :: rest, state =>
    match tuples[state.nthispage]? with
    | none => state
    | some tuple =>
      if row.isFree then
        let neededSpace :=
          if state.isFirstInsert then state.usedSpace + tuple.diskTupleSize
          else state.usedSpace + tuple.diskTupleSize + saveFreeSpace
        if availSpace < neededSpace then state
        else
          locateUsableItemIds availSpace saveFreeSpace tuples (offset + 1) rest
            { nthispage := state.nthispage + 1
              usedSpace := state.usedSpace + tuple.diskTupleSize
              ranges := addOffset state.inRange offset state.ranges
              inRange := true
              isFirstInsert := false }
      else
        locateUsableItemIds availSpace saveFreeSpace tuples (offset + 1) rest
          { state with inRange := false }

/-- The search at its start. -/
def Locating.start : Locating where
  nthispage := 0
  usedSpace := 0
  ranges := []
  inRange := false
  isFirstInsert := true

/-- The result of the search when the page's hint promises free line pointers. -/
def locate (page : UPage) (tuples : List UTuple) (saveFreeSpace : Nat) : Locating :=
  if page.hasFreeLines then
    locateUsableItemIds (pageGetExactUHeapFreeSpace page) saveFreeSpace tuples 1 page.rows
      Locating.start
  else Locating.start

/-- The ranges that `UHeapGetUsableOffsetRanges` collects: those of free line pointers, and a range of
new ones when the next tuple fits with one. -/
def usableOffsetRanges (page : UPage) (tuples : List UTuple) (saveFreeSpace : Nat) :
    List OffsetRange :=
  let availSpace := pageGetExactUHeapFreeSpace page
  let limit := page.limit
  let located := locate page tuples saveFreeSpace
  let isFirstInsert := located.ranges.isEmpty
  match tuples[located.nthispage]? with
  | some tuple =>
    if limit ≤ calculatedMaxUHeapTuplesPerPage page.tdCount then
      let neededSpace :=
        if isFirstInsert then located.usedSpace + sizeOfRowPtr + tuple.diskTupleSize
        else located.usedSpace + sizeOfRowPtr + tuple.diskTupleSize + saveFreeSpace
      if availSpace ≥ neededSpace then
        let requiredTuples := tuples.length - located.nthispage
        located.ranges.reverse ++
          [{ startOffset := limit, endOffset := min maxOffsetNumber (limit + requiredTuples) }]
      else located.ranges.reverse
    else located.ranges.reverse
  | none => located.ranges.reverse

/-- `UHeapGetUsableOffsetRanges`: the ranges, or one of the errors raised when there is none. -/
def uHeapGetUsableOffsetRanges (page : UPage) (tuples : List UTuple) (saveFreeSpace : Nat) :
    Option (List OffsetRange) :=
  let ranges := usableOffsetRanges page tuples saveFreeSpace
  if ranges.isEmpty then none else some ranges

/-- The page while tuples are placed. -/
structure Placing where
  page : UPage
  todo : List UTuple
  placed : List (UTuple × Nat)

/-- The test before a tuple is placed: all but the first tuple of a page leave the space that the
fill factor reserves. -/
def tooBig (page : UPage) (saveFreeSpace : Nat) (isFirstInsert : Bool) (tuple : UTuple) : Bool :=
  let pagefreespace := pageGetUHeapFreeSpace page
  (isFirstInsert && decide (pagefreespace < tuple.diskTupleSize)) ||
    (!isFirstInsert && decide (pagefreespace < tuple.diskTupleSize + saveFreeSpace))

/-- The loop over one range, with the given number of offsets left: the page after it and the offset
at which it ended. `none` is the panic of `RelationPutUTuple`, when the page takes no more. -/
def placeRange (initTd saveFreeSpace firstOffset : Nat) :
    Nat → Nat → Placing → Option (Placing × Nat)
  | 0, offnum, state => some (state, offnum)
  | count + 1, offnum, state =>
    match state.todo with
    | [] => some (state, offnum)
    | tuple :: rest =>
      if tooBig state.page saveFreeSpace (offnum == firstOffset) tuple then some (state, offnum)
      else
        match uPageAddItem initTd state.page tuple.diskTupleSize with
        | none => none
        | some (offset, page) =>
          placeRange initTd saveFreeSpace firstOffset count (offnum + 1)
            { page := page
              todo := rest
              placed := state.placed ++ [(tuple, offset)] }

/-- The loop over the ranges: the page after it, and the ranges recorded in the undo records. -/
def placeRanges (initTd saveFreeSpace firstOffset : Nat) :
    List OffsetRange → Placing → Option (Placing × List OffsetRange)
  | [], state => some (state, [])
  | range :: ranges, state =>
    match placeRange initTd saveFreeSpace firstOffset
        (range.endOffset + 1 - range.startOffset) range.startOffset state with
    | none => none
    | some (state, offnum) =>
      match placeRanges initTd saveFreeSpace firstOffset ranges state with
      | none => none
      | some (state, recorded) =>
        some (state, { startOffset := range.startOffset, endOffset := offnum - 1 } :: recorded)

/-- What one page of a multi-insert ends with. -/
inductive PageOutcome where
  | rejected
  | panic
  /-- The page after it, the tuples placed with their offsets, the ranges recorded and the number of
  tuples done. -/
  | done (page : UPage) (placed : List (UTuple × Nat)) (recorded : List OffsetRange) (ndone : Nat)

/-- One page of `UHeapMultiInsert`, when the given number of tuples is done. -/
def uHeapMultiInsertPage (initTd saveFreeSpace : Nat) (page : UPage) (tuples : List UTuple)
    (ndone : Nat) : PageOutcome :=
  match uHeapGetUsableOffsetRanges page (tuples.drop ndone) saveFreeSpace with
  | none => .rejected
  | some ranges =>
    match placeRanges initTd saveFreeSpace ((ranges.map OffsetRange.startOffset).headD 0) ranges
        { page := page, todo := tuples.drop ndone, placed := [] } with
    | none => .panic
    | some (state, recorded) =>
      .done state.page state.placed recorded (ndone + state.placed.length)

section Space

/-- The space of tuples, as the search for line pointers counts it. -/
def spaceOf (tuples : List UTuple) : Nat := (tuples.map UTuple.diskTupleSize).sum

/-- The space of tuples, as placing them takes it. -/
def alignedSpaceOf (tuples : List UTuple) : Nat :=
  (tuples.map fun tuple => shortAlign tuple.diskTupleSize).sum

variable (tuples : List UTuple) (count : Nat) (tuple : UTuple)

theorem spaceOf_le_aligned : spaceOf tuples ≤ alignedSpaceOf tuples := by
  induction tuples with
  | nil => exact Nat.le_refl 0
  | cons tuple rest ih =>
    simp only [spaceOf, alignedSpaceOf, map_cons, sum_cons] at ih ⊢
    have : tuple.diskTupleSize ≤ shortAlign tuple.diskTupleSize := by
      unfold shortAlign
      omega
    lia

theorem spaceOf_take_succ (next : tuples[count]? = some tuple) :
    spaceOf (tuples.take (count + 1)) = spaceOf (tuples.take count) + tuple.diskTupleSize := by
  simp [spaceOf, take_add_one, next]

theorem alignedSpaceOf_take_succ (next : tuples[count]? = some tuple) :
    alignedSpaceOf (tuples.take (count + 1)) =
      alignedSpaceOf (tuples.take count) + shortAlign tuple.diskTupleSize := by
  simp [alignedSpaceOf, take_add_one, next]

end Space

section Prediction

/-- The offsets found so far, in order. -/
def Locating.offsets (state : Locating) : List Nat :=
  state.ranges.reverse.flatMap OffsetRange.offsets

/-- The search before it looks at the given offset: ranges are proper, and a range is open exactly up
to there. -/
structure Locating.Ok (state : Locating) (offset : Nat) : Prop where
  proper : ∀ range ∈ state.ranges, 1 ≤ range.startOffset ∧ range.startOffset ≤ range.endOffset
  opened : state.inRange = true →
    ∃ range ranges, state.ranges = range :: ranges ∧ range.endOffset + 1 = offset
  first : state.isFirstInsert = state.ranges.isEmpty

theorem offsets_extend (start offset : Nat) (proper : start ≤ offset) :
    (OffsetRange.mk start offset).offsets = List.range' start (offset - start) ++ [offset] := by
  unfold OffsetRange.offsets
  rw [show offset + 1 - start = offset - start + 1 by lia, range'_concat]
  rw [show start + 1 * (offset - start) = offset by grind]

variable (state : Locating) (availSpace saveFreeSpace : Nat) (page : UPage) (count : Nat)
  (tuples : List UTuple) (offset : Nat)

/-- One more offset is added to the ranges. -/
theorem addOffset_offsets (ok : state.Ok offset) :
    (addOffset state.inRange offset state.ranges).reverse.flatMap OffsetRange.offsets =
      state.offsets ++ [offset] := by
  have single : (OffsetRange.mk offset offset).offsets = [offset] := by
    rw [offsets_extend offset offset (Nat.le_refl _), Nat.sub_self]
    rfl
  unfold Locating.offsets
  by_cases opened : state.inRange = true
  · obtain ⟨range, ranges, isRange, ends⟩ := ok.opened opened
    have proper := ok.proper range (by rw [isRange]; exact mem_cons_self)
    have old : range.offsets = List.range' range.startOffset (offset - range.startOffset) := by
      unfold OffsetRange.offsets
      rw [ends]
    rw [isRange]
    simp only [addOffset, opened, ↓reduceIte, reverse_cons, flatMap_append,
      flatMap_cons, flatMap_nil, append_nil, append_assoc]
    rw [offsets_extend _ _ (by omega), old]
  · cases ranges : state.ranges with
    | nil => simp [addOffset, single]
    | cons range rest => simp [addOffset, opened, single]

/-- One more offset keeps the ranges in order. -/
theorem Locating.Ok.add (offset size : Nat) (ok : state.Ok offset) (valid : 1 ≤ offset) :
    Locating.Ok
      { nthispage := state.nthispage + 1
        usedSpace := state.usedSpace + size
        ranges := addOffset state.inRange offset state.ranges
        inRange := true
        isFirstInsert := false } (offset + 1) := by
  obtain ⟨range, ranges, added, ends, proper⟩ : ∃ range ranges,
      addOffset state.inRange offset state.ranges = range :: ranges ∧ range.endOffset = offset ∧
        ∀ other ∈ range :: ranges, 1 ≤ other.startOffset ∧ other.startOffset ≤ other.endOffset := by
    have fresh : 1 ≤ (OffsetRange.mk offset offset).startOffset ∧
        (OffsetRange.mk offset offset).startOffset ≤ (OffsetRange.mk offset offset).endOffset :=
      ⟨valid, Nat.le_refl _⟩
    by_cases opened : state.inRange = true
    · obtain ⟨range, ranges, isRange, ends⟩ := ok.opened opened
      have proper := ok.proper range (by rw [isRange]; exact mem_cons_self)
      refine ⟨{ range with endOffset := offset }, ranges, ?_, rfl, ?_⟩
      · rw [isRange, addOffset, if_pos opened]
      · intro other member
        rcases mem_cons.mp member with rfl | old
        · exact ⟨proper.1, by show range.startOffset ≤ offset; omega⟩
        · exact ok.proper other (by rw [isRange]; exact mem_cons_of_mem _ old)
    · refine ⟨⟨offset, offset⟩, state.ranges, ?_, rfl, ?_⟩
      · cases state.ranges with
        | nil => rfl
        | cons range ranges => rw [addOffset, if_neg opened]
      · intro other member
        rcases mem_cons.mp member with rfl | old
        · exact fresh
        · exact ok.proper other old
  rw [added]
  constructor
  · exact proper
  · exact fun _ => ⟨range, ranges, rfl, by rw [ends]⟩
  · rfl

/-- The tuple with the given number does not fit any more, as the search counts. -/
def Locating.Full (state : Locating) (availSpace saveFreeSpace : Nat) (tuples : List UTuple) :
    Prop :=
  ∃ tuple, tuples[state.nthispage]? = some tuple ∧
    availSpace < state.usedSpace + tuple.diskTupleSize +
      (if state.isFirstInsert then 0 else saveFreeSpace)

/-- What the search finds: the first so many free line pointers, and why it stopped. -/
structure Locating.Found (availSpace saveFreeSpace : Nat) (tuples : List UTuple)
    (free : List Nat) (state result : Locating) (taken : Nat) : Prop where
  nthispage : result.nthispage = state.nthispage + taken
  offsets : result.offsets = state.offsets ++ free.take taken
  taken_le : taken ≤ free.length
  proper : ∀ range ∈ result.ranges, 1 ≤ range.startOffset ∧ range.startOffset ≤ range.endOffset
  first : result.isFirstInsert = result.ranges.isEmpty
  used : result.usedSpace = spaceOf (tuples.take result.nthispage)
  stopped : taken = free.length ∨ tuples.length ≤ result.nthispage ∨
    result.Full availSpace saveFreeSpace tuples

theorem Locating.Found.stay
    {free : List Nat} {offset : Nat} {state : Locating} (ok : state.Ok offset)
    (counted : state.usedSpace = spaceOf (tuples.take state.nthispage))
    (stopped : 0 = free.length ∨ tuples.length ≤ state.nthispage ∨
      state.Full availSpace saveFreeSpace tuples) :
    Locating.Found availSpace saveFreeSpace tuples free state state 0 :=
  { ok with
    nthispage := rfl
    offsets := (append_nil _).symm
    taken_le := Nat.zero_le _
    used := counted
    stopped := stopped }

/-- The search finds the free line pointers in order. -/
theorem locateUsableItemIds_found (rows : List RowPtr) (state : Locating) (ok : state.Ok offset)
    (valid : 1 ≤ offset) (counted : state.usedSpace = spaceOf (tuples.take state.nthispage)) :
    ∃ taken, Locating.Found availSpace saveFreeSpace tuples (freeFrom offset rows) state
      (locateUsableItemIds availSpace saveFreeSpace tuples offset rows state) taken := by
  induction rows generalizing offset state with
  | nil =>
    exact ⟨0, Locating.Found.stay _ _ _ ok counted (.inl rfl)⟩
  | cons row rest ih =>
    rw [locateUsableItemIds]
    cases next : tuples[state.nthispage]? with
    | none =>
      have all : tuples.length ≤ state.nthispage := List.getElem?_eq_none_iff.mp next
      exact ⟨0, Locating.Found.stay _ _ _ ok counted (.inr (.inl all))⟩
    | some tuple =>
      by_cases free : row.isFree = true
      · have needed : (if state.isFirstInsert then state.usedSpace + tuple.diskTupleSize
            else state.usedSpace + tuple.diskTupleSize + saveFreeSpace) =
            state.usedSpace + tuple.diskTupleSize +
              (if state.isFirstInsert then 0 else saveFreeSpace) := by
          split <;> rfl
        simp only [free, ↓reduceIte, needed]
        by_cases full : availSpace < state.usedSpace + tuple.diskTupleSize +
            (if state.isFirstInsert then 0 else saveFreeSpace)
        · rw [if_pos full]
          exact ⟨0, Locating.Found.stay _ _ _ ok counted (.inr (.inr ⟨tuple, next, full⟩))⟩
        · rw [if_neg full]
          have countedNext : state.usedSpace + tuple.diskTupleSize =
              spaceOf (tuples.take (state.nthispage + 1)) := by
            rw [spaceOf_take_succ _ _ _ next, counted]
          obtain ⟨taken, found⟩ := ih (offset + 1) _
            (ok.add state offset tuple.diskTupleSize valid) (by omega) countedNext
          have begins : freeFrom offset (row :: rest) = offset :: freeFrom (offset + 1) rest := by
            rw [freeFrom, if_pos free]
          refine ⟨taken + 1, ?_⟩
          rw [begins]
          constructor
          · rw [found.nthispage]
            lia
          · rw [found.offsets]
            show (addOffset state.inRange offset state.ranges).reverse.flatMap _ ++ _ = _
            rw [addOffset_offsets state offset ok, append_assoc]
            rfl
          · exact Nat.succ_le_succ found.taken_le
          · exact found.proper
          · exact found.first
          · exact found.used
          · rcases found.stopped with all | other
            · exact .inl (congrArg (· + 1) all)
            · exact .inr other
      · simp only [free]
        have closed : Locating.Ok (Locating.mk state.nthispage state.usedSpace state.ranges false
            state.isFirstInsert) (offset + 1) :=
          { proper := ok.proper, opened := (fun opened => by cases opened), first := ok.first }
        obtain ⟨taken, found⟩ := ih (offset + 1) _ closed (by omega) counted
        have begins : freeFrom offset (row :: rest) = freeFrom (offset + 1) rest := by
          rw [freeFrom, if_neg free]
        rw [begins]
        exact ⟨taken, found.nthispage, found.offsets, found.taken_le, found.proper, found.first,
          found.used, found.stopped⟩

theorem locate_found (saveFreeSpace : Nat) :
    ∃ taken, Locating.Found (pageGetExactUHeapFreeSpace page) saveFreeSpace tuples page.slots
      Locating.start (locate page tuples saveFreeSpace) taken := by
  have ok : Locating.start.Ok 1 :=
    { proper := (fun _ member => nomatch member)
      opened := (fun opened => nomatch opened)
      first := rfl }
  unfold locate UPage.slots
  split
  · exact locateUsableItemIds_found _ _ _ 1 _ _ ok (Nat.le_refl 1) rfl
  · exact ⟨0, Locating.Found.stay _ _ _ ok rfl (.inl rfl)⟩

/-- The tuple with the given number, counted from zero, still has room on the page behind the ones
before it: with a new line pointer in reserve, the space of the fill factor for all but the first,
and a line pointer for it that the page may have. -/
def UPage.FitsAt (page : UPage) (saveFreeSpace : Nat) (tuples : List UTuple) (number : Nat) :
    Prop :=
  ∃ tuple, tuples[number]? = some tuple ∧
    tuple.diskTupleSize + (if number = 0 then 0 else saveFreeSpace) +
        alignedSpaceOf (tuples.take number) + (number - page.slots.length) * sizeOfRowPtr +
        sizeOfRowPtr ≤ page.pdUpper - page.pdLower ∧
    (number < page.slots.length ∨ page.rows.length + (number - page.slots.length) <
      calculatedMaxUHeapTuplesPerPage page.tdCount)

theorem map_slotAt_free (within : count ≤ page.slots.length) :
    (List.range count).map page.slotAt = page.slots.take count := by
  apply ext_getElem?
  intro index
  rw [getElem?_map]
  by_cases inside : index < count
  · rw [getElem?_range inside, getElem?_take_of_lt inside]
    simp only [Option.map_some, UPage.slotAt]
    rw [getElem?_eq_getElem (by omega)]
    rfl
  · rw [getElem?_eq_none (by simpa using inside),
      getElem?_eq_none (by rw [length_take]; lia)]
    rfl

theorem map_slotAt_new : (List.range (page.slots.length + count)).map page.slotAt =
      page.slots ++ List.range' page.limit count := by
  have fresh : ∀ index, page.slotAt (page.slots.length + index) = page.limit + index := by
    intro index
    unfold UPage.slotAt
    rw [getElem?_eq_none (Nat.le_add_right _ _), Nat.add_sub_cancel_left]
    rfl
  rw [range_add, map_append, map_slotAt_free page _ (Nat.le_refl _), take_length,
    map_map, range'_eq_map_range]
  congr 1
  apply map_congr_left
  intro index _
  exact fresh index

theorem calculatedMax_lt_maxOffsetNumber (tdSlots : Nat) :
    calculatedMaxUHeapTuplesPerPage tdSlots < maxOffsetNumber := by
  simp only [calculatedMaxUHeapTuplesPerPage, maxOffsetNumber, blockSize,
    sizeOfUHeapDiskTupleData, sizeOfRowPtr]
  omega

/-- What the ranges computed beforehand say: they are the offsets of the first so many tuples, and
the tuple behind these has no room. -/
structure Predicted (page : UPage) (saveFreeSpace : Nat) (tuples : List UTuple)
    (ranges : List OffsetRange) (count : Nat) : Prop where
  offsets : ranges.flatMap OffsetRange.offsets = (List.range count).map page.slotAt
  proper : ∀ range ∈ ranges, 1 ≤ range.startOffset ∧ range.startOffset ≤ range.endOffset
  new : page.slots.length < count → page.limit ≤ calculatedMaxUHeapTuplesPerPage page.tdCount
  exhausted : ¬ page.FitsAt saveFreeSpace tuples count

theorem ranges_isEmpty_iff (ranges : List OffsetRange)
    (proper : ∀ range ∈ ranges, 1 ≤ range.startOffset ∧ range.startOffset ≤ range.endOffset) :
    ranges.isEmpty = true ↔ ranges.flatMap OffsetRange.offsets = [] := by
  cases ranges with
  | nil => exact iff_of_true rfl rfl
  | cons range rest =>
    have inside := (proper range mem_cons_self).2
    have some : range.offsets ≠ [] := by
      unfold OffsetRange.offsets
      rw [Ne, range'_eq_nil_iff]
      omega
    simp [some]

/-- No range is found exactly if no tuple is taken. -/
theorem Locating.Found.empty {saveFreeSpace : Nat} {located : Locating} {taken : Nat}
    (found : Locating.Found (pageGetExactUHeapFreeSpace page) saveFreeSpace tuples page.slots
      Locating.start located taken) : located.ranges.isEmpty = true ↔ taken = 0 := by
  have reversed : located.ranges.isEmpty = true ↔ located.ranges.reverse.isEmpty = true := by simp
  rw [reversed, ranges_isEmpty_iff _ (fun range member =>
    found.proper range (mem_reverse.mp member))]
  have offsets : located.offsets = page.slots.take taken := found.offsets
  have le := found.taken_le
  show located.offsets = [] ↔ taken = 0
  rw [offsets, take_eq_nil_iff]
  constructor
  · rintro (zero | none)
    · exact zero
    · rw [none, length_nil] at le
      omega
  · exact .inl

theorem not_fitsAt_of_needed {saveFreeSpace taken : Nat}
    {tuple : UTuple} (next : tuples[taken]? = some tuple)
    (full : page.pdUpper - page.pdLower < spaceOf (tuples.take taken) + sizeOfRowPtr +
      tuple.diskTupleSize + (if taken = 0 then 0 else saveFreeSpace)) :
    ¬ page.FitsAt saveFreeSpace tuples taken := by
  rintro ⟨same, isSame, fits, _⟩
  rw [next] at isSame
  cases isSame
  have aligned := spaceOf_le_aligned (tuples.take taken)
  omega

/-- The offsets behind the last line pointer are predicted. -/
theorem predicted_new (saveFreeSpace : Nat)
    (ranges : List OffsetRange) (offsets : ranges.flatMap OffsetRange.offsets = page.slots)
    (proper : ∀ range ∈ ranges, 1 ≤ range.startOffset ∧ range.startOffset ≤ range.endOffset)
    (allowed : page.limit ≤ calculatedMaxUHeapTuplesPerPage page.tdCount) :
    Predicted page saveFreeSpace tuples
      (ranges ++ [{ startOffset := page.limit
                    endOffset := min maxOffsetNumber
                      (page.limit + (tuples.length - page.slots.length)) }])
      (page.slots.length + (min maxOffsetNumber
        (page.limit + (tuples.length - page.slots.length)) + 1 - page.limit)) := by
  have bounded := calculatedMax_lt_maxOffsetNumber page.tdCount
  have limit : page.limit = page.rows.length + 1 := rfl
  constructor
  · rw [flatMap_append, offsets, map_slotAt_new]
    simp [OffsetRange.offsets]
  · intro range member
    rcases mem_append.mp member with old | new
    · exact proper range old
    · rw [mem_singleton.mp new]
      lia
  · exact fun _ => allowed
  · rintro ⟨tuple, next, _, within⟩
    have inside : page.slots.length + (min maxOffsetNumber
        (page.limit + (tuples.length - page.slots.length)) + 1 - page.limit) < tuples.length := by
      by_contra outside
      rw [getElem?_eq_none (Nat.le_of_not_lt outside)] at next
      cases next
    lia

/-- The ranges computed beforehand are the offsets of the tuples that have room. -/
theorem usableOffsetRanges_predicted (saveFreeSpace : Nat) :
    ∃ count, Predicted page saveFreeSpace tuples
      (usableOffsetRanges page tuples saveFreeSpace) count := by
  obtain ⟨taken, found⟩ := locate_found page tuples saveFreeSpace
  obtain ⟨located, isLocated⟩ : ∃ located, located = locate page tuples saveFreeSpace := ⟨_, rfl⟩
  rw [← isLocated] at found
  have number : located.nthispage = taken := found.nthispage.trans (Nat.zero_add taken)
  have empty := found.empty page tuples
  have offsets : located.ranges.reverse.flatMap OffsetRange.offsets = page.slots.take taken :=
    found.offsets
  have proper : ∀ range ∈ located.ranges.reverse,
      1 ≤ range.startOffset ∧ range.startOffset ≤ range.endOffset :=
    fun range member => found.proper range (mem_reverse.mp member)
  have used := found.used
  rw [number] at used
  have le := found.taken_le
  -- without a range of new line pointers the prediction is what the search found
  have searched : ¬ page.FitsAt saveFreeSpace tuples taken →
      Predicted page saveFreeSpace tuples located.ranges.reverse taken := by
    intro exhausted
    exact { offsets := by rw [offsets, map_slotAt_free page taken le]
            proper := proper
            new := (fun more => absurd more (Nat.not_lt.mpr le))
            exhausted := exhausted }
  simp only [usableOffsetRanges, ← isLocated, number]
  cases next : tuples[taken]? with
  | none =>
    refine ⟨taken, searched ?_⟩
    rintro ⟨tuple, isNext, _⟩
    rw [next] at isNext
    cases isNext
  | some tuple =>
    have needed : (if located.ranges.isEmpty = true then
          located.usedSpace + sizeOfRowPtr + tuple.diskTupleSize
        else located.usedSpace + sizeOfRowPtr + tuple.diskTupleSize + saveFreeSpace) =
        spaceOf (tuples.take taken) + sizeOfRowPtr + tuple.diskTupleSize +
          (if taken = 0 then 0 else saveFreeSpace) := by
      rw [used]
      by_cases none : taken = 0
      · rw [if_pos (empty.mpr none), if_pos none]
        rfl
      · rw [if_neg (fun isEmpty => none (empty.mp isEmpty)), if_neg none]
    -- the search stopped for want of space only where a new line pointer does not fit either
    have stopped : taken = page.slots.length ∨
        page.pdUpper - page.pdLower < spaceOf (tuples.take taken) + sizeOfRowPtr +
          tuple.diskTupleSize + (if taken = 0 then 0 else saveFreeSpace) := by
      rcases found.stopped with all | done | ⟨other, isOther, full⟩
      · exact .inl all
      · rw [number] at done
        rw [getElem?_eq_none done] at next
        cases next
      · right
        rw [found.first] at full
        simp only [pageGetExactUHeapFreeSpace] at full
        lia
    simp only [needed]
    by_cases allowed : page.limit ≤ calculatedMaxUHeapTuplesPerPage page.tdCount
    · by_cases room : pageGetExactUHeapFreeSpace page ≥ spaceOf (tuples.take taken) +
          sizeOfRowPtr + tuple.diskTupleSize + (if taken = 0 then 0 else saveFreeSpace)
      · simp only [allowed, room]
        have all : taken = page.slots.length := by
          rcases stopped with all | full
          · exact all
          · exact absurd full (Nat.not_lt.mpr room)
        rw [all, take_length] at offsets
        rw [all]
        exact ⟨_, predicted_new page tuples saveFreeSpace _ offsets proper allowed⟩
      · simp only [allowed, room]
        exact ⟨taken, searched (not_fitsAt_of_needed page tuples next (Nat.lt_of_not_le room))⟩
    · simp only [allowed]
      refine ⟨taken, searched ?_⟩
      rcases stopped with all | full
      · rintro ⟨_, _, _, within⟩
        unfold UPage.limit at allowed
        lia
      · exact not_fitsAt_of_needed page tuples next full

end Prediction

section Placement

variable (page : UPage) (initTd saveFreeSpace : Nat) (tuples : List UTuple)

/-- A tuple stands on the page: its line pointer is in use with its length, and its bytes lie between
the new and the old end of the tuple data. -/
def StandsAt (after : UPage) (tuple : UTuple) (slot : Nat) : Prop :=
  ∃ row, after.rows[slot - 1]? = some row ∧ row.flags = .normal ∧ row.len = tuple.diskTupleSize ∧
    after.pdUpper ≤ row.offset ∧ row.offset + tuple.diskTupleSize ≤ page.pdUpper

/-- The state after so many tuples were placed: each of them had room and took the offset of its
number, and the page has changed by exactly these tuples. -/
structure Placing.Tracks (state : Placing) (number : Nat) : Prop where
  number_le : number ≤ tuples.length
  tdCount : state.page.tdCount = page.tdCount
  slots : state.page.slots = page.slots.drop number
  length : state.page.rows.length = page.rows.length + (number - page.slots.length)
  upper : state.page.pdUpper + alignedSpaceOf (tuples.take number) = page.pdUpper
  hint : page.slots.length < number → state.page.hasFreeLines = false
  slotAt : ∀ index, state.page.slotAt index = page.slotAt (number + index)
  todo : state.todo = tuples.drop number
  placed : state.placed = (tuples.take number).zip ((List.range number).map page.slotAt)
  fitted : ∀ index < number, page.FitsAt saveFreeSpace tuples index ∧
    page.slotAt index ≤ calculatedMaxUHeapTuplesPerPage initTd
  stands : ∀ pair ∈ state.placed, StandsAt page state.page pair.1 pair.2

theorem Placing.Tracks.start : Placing.Tracks page initTd saveFreeSpace tuples
      { page := page, todo := tuples, placed := [] } 0 where
  number_le := Nat.zero_le _
  tdCount := rfl
  slots := rfl
  length := by simp
  upper := rfl
  hint := (fun before => nomatch before)
  slotAt := fun index => by rw [Nat.zero_add]
  todo := rfl
  placed := rfl
  fitted := (fun index before => nomatch before)
  stands := (fun pair member => nomatch member)

variable {page initTd saveFreeSpace tuples}

variable (state : Placing) (number : Nat)

section

variable (tracks : state.Tracks page initTd saveFreeSpace tuples number)
include tracks

theorem Placing.Tracks.space :
    state.page.pdUpper - state.page.pdLower + alignedSpaceOf (tuples.take number) +
      (number - page.slots.length) * sizeOfRowPtr = page.pdUpper - page.pdLower := by
  have new := state.page.lower_le
  have upper := tracks.upper
  simp only [UPage.pdLower, tracks.tdCount, tracks.length] at new ⊢
  grind

/-- The count of the free space admits a tuple exactly when there is room for it and the page may
have its line pointer. -/
theorem Placing.Tracks.tooBig_iff (tuple : UTuple)
    (next : tuples[number]? = some tuple) (new : page.slots.length ≤ number →
      page.limit ≤ calculatedMaxUHeapTuplesPerPage page.tdCount) :
    tooBig state.page saveFreeSpace (number == 0) tuple = false ↔
      page.FitsAt saveFreeSpace tuples number := by
  have space := tracks.space state number
  have length := tracks.length
  have header : 0 < tuple.diskTupleSize := Nat.lt_of_lt_of_le (by decide) tuple.header_le
  obtain ⟨extra, isExtra⟩ : ∃ extra, extra = if number = 0 then 0 else saveFreeSpace := ⟨_, rfl⟩
  have test : tooBig state.page saveFreeSpace (number == 0) tuple = false ↔
      tuple.diskTupleSize + extra ≤ pageGetUHeapFreeSpace state.page := by
    rw [isExtra]
    by_cases zero : number = 0
    · simp [tooBig, zero]
    · simp [tooBig, zero]
  have fits : page.FitsAt saveFreeSpace tuples number ↔
      tuple.diskTupleSize + extra + sizeOfRowPtr ≤ state.page.pdUpper - state.page.pdLower ∧
      (number < page.slots.length ∨ page.rows.length + (number - page.slots.length) <
        calculatedMaxUHeapTuplesPerPage page.tdCount) := by
    unfold UPage.FitsAt
    rw [next]
    simp only [Option.some.injEq, exists_eq_left']
    refine and_congr_left' ?_
    omega
  rw [test]
  by_cases free : number < page.slots.length
  · have offered : state.page.slots ≠ [] := by
      rw [tracks.slots, Ne, drop_eq_nil_iff]
      omega
    rw [pageGetUHeapFreeSpace_eq _ (.inr (state.page.slots_offer offered))]
    lia
  · have allowed := new (Nat.le_of_not_lt free)
    unfold UPage.limit at allowed
    by_cases few : state.page.rows.length < calculatedMaxUHeapTuplesPerPage page.tdCount
    · rw [pageGetUHeapFreeSpace_eq _ (.inl (by rw [tracks.tdCount]; exact few))]
      lia
    · have down := tracks.hint (by grind)
      rw [pageGetUHeapFreeSpace_zero _ (by rw [tracks.tdCount]; grind) down]
      lia

/-- Placing the next tuple, which has room and an offset that the relation allows. -/
theorem Placing.Tracks.place {tuple : UTuple}
    (next : tuples[number]? = some tuple) (fits : page.FitsAt saveFreeSpace tuples number)
    (within : page.slotAt number ≤ calculatedMaxUHeapTuplesPerPage initTd) :
    ∃ page', uPageAddItem initTd state.page tuple.diskTupleSize = some (page.slotAt number, page') ∧
      Placing.Tracks page initTd saveFreeSpace tuples
        { page := page'
          todo := tuples.drop (number + 1)
          placed := state.placed ++ [(tuple, page.slotAt number)] } (number + 1) := by
  have inside : number < tuples.length := (List.getElem?_eq_some_iff.mp next).1
  have here : state.page.slotAt 0 = page.slotAt number := tracks.slotAt 0
  have room : state.page.pdLower + sizeOfRowPtr + tuple.diskTupleSize ≤ state.page.pdUpper := by
    obtain ⟨same, isSame, enough, _⟩ := fits
    rw [next] at isSame
    cases isSame
    have space := tracks.space state number
    have header : 0 < tuple.diskTupleSize := Nat.lt_of_lt_of_le (by decide) tuple.header_le
    omega
  obtain ⟨page', added, placed⟩ := uPageAddItem_some initTd state.page
    (by rw [here]; exact within) room
  rw [here] at added placed
  refine ⟨page', added, ?_⟩
  have emptied : state.page.slots = [] ↔ page.slots.length ≤ number := by
    rw [tracks.slots, drop_eq_nil_iff]
  have length := tracks.length
  have upper := tracks.upper
  constructor
  · exact inside
  · exact placed.tdCount.trans tracks.tdCount
  · rw [placed.slots, tracks.slots, tail_drop]
  · rw [placed.length]
    split <;> grind
  · rw [alignedSpaceOf_take_succ _ _ _ next]
    have := placed.upper
    lia
  · intro more
    exact placed.hint (emptied.mpr (by omega))
  · intro index
    rw [placed.slotAt, tracks.slotAt, Nat.add_right_comm, Nat.add_assoc]
  · rfl
  · rw [tracks.placed, take_add_one, next, range_succ, map_append, zip_append (by simp; omega)]
    rfl
  · intro index before
    rcases Nat.lt_or_eq_of_le (Nat.le_of_lt_succ before) with earlier | rfl
    · exact tracks.fitted index earlier
    · exact ⟨fits, within⟩
  · intro pair member
    have taken := placed.upper
    rcases mem_append.mp member with old | new
    · obtain ⟨row, isRow, normal, len, above, below⟩ := tracks.stands pair old
      obtain ⟨index, before, isSlot⟩ : ∃ index < number, page.slotAt index = pair.2 := by
        rw [tracks.placed] at old
        have second := (of_mem_zip old).2
        simpa using second
      have earlier := page.slotAt_lt index number before
      have valid := page.slotAt_pos index
      have present := (List.getElem?_eq_some_iff.mp isRow).1
      have kept : page'.rows[pair.2 - 1]? = state.page.rows[pair.2 - 1]? :=
        placed.others _ (by lia) present
      exact ⟨row, kept.trans isRow, normal, len, by show page'.pdUpper ≤ _; lia, below⟩
    · rw [mem_singleton.mp new]
      have aligned : tuple.diskTupleSize ≤ shortAlign tuple.diskTupleSize := by
        unfold shortAlign
        lia
      exact ⟨_, placed.row, rfl, rfl, Nat.le_refl _, by
        lia⟩

end

/-- Where the loops can only end: no tuple is left, or the next one is too big for the page. -/
def Placing.Stuck (state : Placing) (saveFreeSpace : Nat) (isFirstInsert : Bool) : Prop :=
  ∀ tuple ∈ state.todo.head?, tooBig state.page saveFreeSpace isFirstInsert tuple = true

theorem tooBig_of_first {first : Bool} {tuple : UTuple}
    (big : tooBig state.page saveFreeSpace first tuple = true) :
    tooBig state.page saveFreeSpace false tuple = true := by
  cases first with
  | false => exact big
  | true =>
    simp only [tooBig, Bool.true_and, Bool.not_true, Bool.false_and, Bool.or_false,
      decide_eq_true_eq] at big
    simp only [tooBig, Bool.false_and, Bool.not_false, Bool.true_and, Bool.false_or,
      decide_eq_true_eq]
    omega

/-- A tuple has room beyond what the relation allows. -/
def Overflows (page : UPage) (initTd saveFreeSpace : Nat) (tuples : List UTuple) : Prop :=
  ∃ number, (∀ index ≤ number, page.FitsAt saveFreeSpace tuples index) ∧
    page.slotAt number > calculatedMaxUHeapTuplesPerPage initTd

/-- One range: its loop places tuples at the offsets of the range until it is through, or stuck. -/
theorem placeRange_spec (firstOffset count offnum number : Nat) (state : Placing)
    (tracks : state.Tracks page initTd saveFreeSpace tuples number)
    (first : firstOffset = page.slotAt 0)
    (offsets : ∀ index < count, offnum + index = page.slotAt (number + index))
    (new : page.slots.length < number + count →
      page.limit ≤ calculatedMaxUHeapTuplesPerPage page.tdCount) :
    (placeRange initTd saveFreeSpace firstOffset count offnum state = none ∧
      Overflows page initTd saveFreeSpace tuples) ∨
    ∃ placed ≤ count, ∃ state', placeRange initTd saveFreeSpace firstOffset count offnum state =
        some (state', offnum + placed) ∧
      state'.Tracks page initTd saveFreeSpace tuples (number + placed) ∧
      (placed = count ∨ state'.Stuck saveFreeSpace (number + placed == 0)) := by
  induction count generalizing offnum number state with
  | zero => exact .inr ⟨0, Nat.le_refl 0, state, rfl, tracks, .inl rfl⟩
  | succ count ih =>
    rw [placeRange]
    cases todo : state.todo with
    | nil =>
      refine .inr ⟨0, Nat.zero_le _, state, rfl, tracks, .inr ?_⟩
      intro tuple head
      rw [todo] at head
      cases head
    | cons tuple rest =>
      have dropped : tuples.drop number = tuple :: rest := by rw [← tracks.todo, todo]
      have next : tuples[number]? = some tuple := by
        rw [← head?_drop, dropped]
        rfl
      have behind : rest = tuples.drop (number + 1) := by
        rw [← tail_drop, dropped]
        rfl
      have here : offnum = page.slotAt number := offsets 0 (Nat.succ_pos _)
      have isFirst : (offnum == firstOffset) = (number == 0) := by
        rw [here, first]
        by_cases zero : number = 0
        · simp [zero]
        · have later := page.slotAt_lt 0 number (Nat.pos_of_ne_zero zero)
          simp [zero, Nat.ne_of_gt later]
      rw [isFirst]
      cases big : tooBig state.page saveFreeSpace (number == 0) tuple with
      | true =>
        simp only [big]
        refine .inr ⟨0, Nat.zero_le _, state, rfl, tracks, .inr ?_⟩
        intro head isHead
        rw [todo] at isHead
        cases isHead
        exact big
      | false =>
        have fits := (tracks.tooBig_iff state number tuple next (fun some => new (by omega))).mp big
        by_cases within : page.slotAt number ≤ calculatedMaxUHeapTuplesPerPage initTd
        · obtain ⟨page', added, placed⟩ := tracks.place state number next fits within
          simp only [big, added, behind, Bool.false_eq_true, ↓reduceIte]
          rcases ih (offnum + 1) (number + 1) _ placed (fun index before => by
                have same := offsets (index + 1) (Nat.succ_lt_succ before)
                lia)
              (fun some => new (by lia)) with overflow | ⟨count', le, state', run, kept, ends⟩
          · exact .inl overflow
          · refine .inr ⟨count' + 1, Nat.succ_le_succ le, state', ?_, ?_, ?_⟩
            · rw [run, Nat.add_right_comm offnum 1 count', Nat.add_assoc]
            · rw [Nat.add_right_comm number 1 count'] at kept
              exact kept
            · rcases ends with all | stuck
              · exact .inl (congrArg (· + 1) all)
              · rw [Nat.add_right_comm number 1 count'] at stuck
                exact .inr stuck
        · left
          have beyond : state.page.slotAt 0 > calculatedMaxUHeapTuplesPerPage initTd := by
            rw [tracks.slotAt 0]
            exact Nat.lt_of_not_le within
          simp only [big, uPageAddItem_none initTd state.page _ beyond, Bool.false_eq_true,
            ↓reduceIte, true_and]
          refine ⟨number, ?_, Nat.lt_of_not_le within⟩
          intro index before
          rcases Nat.lt_or_eq_of_le before with earlier | rfl
          · exact (tracks.fitted index earlier).1
          · exact fits

/-- Once a tuple is not placed, no later one is. -/
theorem placeRanges_stuck {firstOffset : Nat} {ranges : List OffsetRange} {state : Placing}
    (proper : ∀ range ∈ ranges, 1 ≤ range.startOffset ∧ range.startOffset ≤ range.endOffset)
    {isFirstInsert : Bool} (stuck : state.Stuck saveFreeSpace isFirstInsert)
    (later : ∀ range ∈ ranges, range.startOffset ≠ firstOffset) :
    ∃ recorded, placeRanges initTd saveFreeSpace firstOffset ranges state =
        some (state, recorded) ∧ recorded.flatMap OffsetRange.offsets = [] := by
  induction ranges with
  | nil => exact ⟨[], rfl, rfl⟩
  | cons range ranges ih =>
    have inside := proper range mem_cons_self
    obtain ⟨recorded, rest, none⟩ := ih
      (fun other member => proper other (mem_cons_of_mem _ member))
      (fun other member => later other (mem_cons_of_mem _ member))
    have notFirst : (range.startOffset == firstOffset) = false :=
      beq_eq_false_iff_ne.mpr (later range mem_cons_self)
    have halts : placeRange initTd saveFreeSpace firstOffset
        (range.endOffset + 1 - range.startOffset) range.startOffset state =
          some (state, range.startOffset) := by
      rw [show range.endOffset + 1 - range.startOffset =
        range.endOffset - range.startOffset + 1 by lia, placeRange]
      cases todo : state.todo with
      | nil => rfl
      | cons tuple others =>
        have big := tooBig_of_first state (stuck tuple (by rw [todo]; rfl))
        simp only [notFirst, big, ↓reduceIte]
    refine ⟨{ startOffset := range.startOffset, endOffset := range.startOffset - 1 } :: recorded,
      ?_, ?_⟩
    · simp only [placeRanges, halts, rest]
    · have empty : range.startOffset - 1 + 1 - range.startOffset = 0 := by omega
      rw [flatMap_cons, none, OffsetRange.offsets, empty]
      rfl

theorem range_split {value : Nat → Nat} {start count number total : Nat} {rest : List Nat}
    (joined : List.range' start count ++ rest = (List.range' number total).map value) :
    ∃ more, total = count + more ∧ (∀ index < count, start + index = value (number + index)) ∧
      rest = (List.range' (number + count) more).map value := by
  have lengths := congrArg List.length joined
  simp only [length_append, length_range', length_map] at lengths
  refine ⟨rest.length, lengths.symm, ?_⟩
  rw [← lengths, ← range'_append_1, map_append] at joined
  obtain ⟨front, back⟩ := append_inj joined (by simp)
  refine ⟨?_, back⟩
  intro index before
  have same := congrArg (fun list => list[index]?) front
  simpa [before] using same

/-- The loop places tuples at the offsets of the ranges until it is through, or stuck, and records
exactly these offsets. -/
theorem placeRanges_spec (firstOffset total number : Nat) (ranges : List OffsetRange)
    (state : Placing) (tracks : state.Tracks page initTd saveFreeSpace tuples number)
    (first : firstOffset = page.slotAt 0)
    (proper : ∀ range ∈ ranges, 1 ≤ range.startOffset ∧ range.startOffset ≤ range.endOffset)
    (offsets : ranges.flatMap OffsetRange.offsets = (List.range' number total).map page.slotAt)
    (new : page.slots.length < number + total →
      page.limit ≤ calculatedMaxUHeapTuplesPerPage page.tdCount) :
    (placeRanges initTd saveFreeSpace firstOffset ranges state = none ∧
      Overflows page initTd saveFreeSpace tuples) ∨ ∃ placed ≤ total, ∃ state' recorded,
      placeRanges initTd saveFreeSpace firstOffset ranges state = some (state', recorded) ∧
      recorded.flatMap OffsetRange.offsets = (List.range' number placed).map page.slotAt ∧
      state'.Tracks page initTd saveFreeSpace tuples (number + placed) ∧
      (placed = total ∨ state'.Stuck saveFreeSpace (number + placed == 0)) := by
  induction ranges generalizing total number state with
  | nil =>
    have none : total = 0 := by
      have lengths := congrArg List.length offsets
      simpa using lengths.symm
    exact .inr ⟨0, Nat.zero_le _, state, [], rfl, rfl, tracks, .inl none.symm⟩
  | cons range ranges ih =>
    have inside := proper range mem_cons_self
    have properRest : ∀ other ∈ ranges,
        1 ≤ other.startOffset ∧ other.startOffset ≤ other.endOffset :=
      fun other member => proper other (mem_cons_of_mem _ member)
    obtain ⟨count, isCount⟩ : ∃ count, count = range.endOffset + 1 - range.startOffset := ⟨_, rfl⟩
    obtain ⟨more, within, here, behind⟩ : ∃ more, total = count + more ∧
        (∀ index < count, range.startOffset + index = page.slotAt (number + index)) ∧
        ranges.flatMap OffsetRange.offsets =
          (List.range' (number + count) more).map page.slotAt := by
      rw [flatMap_cons, OffsetRange.offsets, ← isCount] at offsets
      exact range_split offsets
    have recordedOffsets : ∀ placed, (OffsetRange.mk range.startOffset
        (range.startOffset + placed - 1)).offsets = List.range' range.startOffset placed := by
      intro placed
      rw [OffsetRange.offsets]
      rw [show range.startOffset + placed - 1 + 1 - range.startOffset = placed by lia]
    have front : ∀ placed ≤ count, List.range' range.startOffset placed =
        (List.range' number placed).map page.slotAt := by
      intro placed le
      rw [range'_eq_map_range, range'_eq_map_range, map_map]
      apply map_congr_left
      intro index member
      exact here index (Nat.lt_of_lt_of_le (mem_range.mp member) le)
    rcases placeRange_spec firstOffset count range.startOffset number state tracks first here
        (fun some => new (by lia)) with ⟨none, overflow⟩ | ⟨placed, le, state', run, kept, ends⟩
    · left
      simp only [placeRanges, ← isCount, none, true_and]
      exact overflow
    · by_cases all : placed = count
      · subst all
        rcases ih more (number + placed) state' kept properRest behind
            (fun some => new (by lia)) with
          ⟨none, overflow⟩ | ⟨placed', le', state'', recorded, run', records, kept', ends'⟩
        · left
          simp only [placeRanges, ← isCount, run, none, true_and]
          exact overflow
        · refine .inr ⟨placed + placed', by lia, state'',
            ⟨range.startOffset, range.startOffset + placed - 1⟩ :: recorded, ?_, ?_, ?_, ?_⟩
          · simp only [placeRanges, ← isCount, run, run']
          · rw [flatMap_cons, recordedOffsets, front placed le, records, ← map_append,
              range'_append_1]
          · rw [← Nat.add_assoc]
            exact kept'
          · rcases ends' with rest | stuck
            · exact .inl (by lia)
            · rw [Nat.add_assoc] at stuck
              exact .inr stuck
      · have stuck : state'.Stuck saveFreeSpace (number + placed == 0) := by
          rcases ends with full | stuck
          · exact absurd full all
          · exact stuck
        have later : ∀ other ∈ ranges, other.startOffset ≠ firstOffset := by
          intro other member same
          have proper := properRest other member
          have listed : other.startOffset ∈ ranges.flatMap OffsetRange.offsets := by
            rw [mem_flatMap]
            refine ⟨other, member, ?_⟩
            rw [OffsetRange.offsets, mem_range'_1]
            lia
          rw [behind, mem_map] at listed
          obtain ⟨index, isIndex, isSlot⟩ := listed
          rw [mem_range'_1] at isIndex
          have before := page.slotAt_lt 0 index (by lia)
          lia
        obtain ⟨recorded, rest, nothing⟩ : ∃ recorded,
            placeRanges initTd saveFreeSpace firstOffset ranges state' = some (state', recorded) ∧
              recorded.flatMap OffsetRange.offsets = [] :=
          placeRanges_stuck properRest stuck later
        refine .inr ⟨placed, by lia, state',
          ⟨range.startOffset, range.startOffset + placed - 1⟩ :: recorded, ?_, ?_, kept,
          .inr stuck⟩
        · simp only [placeRanges, ← isCount, run, rest]
        · rw [flatMap_cons, recordedOffsets, front placed le, nothing, append_nil]

theorem Placing.Tracks.not_stuck (tracks : state.Tracks page initTd saveFreeSpace tuples number)
    (fits : page.FitsAt saveFreeSpace tuples number) :
    ¬ state.Stuck saveFreeSpace (number == 0) := by
  intro stuck
  obtain ⟨tuple, next, _, line⟩ := id fits
  have head : state.todo.head? = some tuple := by
    rw [tracks.todo, head?_drop, next]
  have big := stuck tuple head
  have small := (tracks.tooBig_iff state number tuple next
    (fun all => by unfold UPage.limit; lia)).mpr fits
  rw [small] at big
  cases big

end Placement

/-- What a page of a multi-insert has to end with: no tuple counted for the page fails to go on it,
the recorded ranges are exactly the offsets taken, the tuples taken are the next ones in order and
stand on the page, and the next page goes on behind them. -/
def CoversInserted (initTd saveFreeSpace : Nat) (page : UPage) (tuples : List UTuple)
    (ndone : Nat) : Prop :=
  match uHeapMultiInsertPage initTd saveFreeSpace page tuples ndone with
  | .rejected => True
  | .panic => False
  | .done after placed recorded ndone' =>
    (∀ offset, (∃ range ∈ recorded, range.startOffset ≤ offset ∧ offset ≤ range.endOffset) ↔
      ∃ pair ∈ placed, pair.2 = offset) ∧
    (∀ pair ∈ placed, StandsAt page after pair.1 pair.2) ∧
    placed.map Prod.fst = (tuples.drop ndone).take placed.length ∧
    ndone' = ndone + placed.length

/-- The recorded ranges are those of the placed tuples. -/
theorem Placing.Tracks.covers {page : UPage} {initTd saveFreeSpace : Nat} {tuples : List UTuple}
    {state : Placing} {recorded : List OffsetRange} {number : Nat}
    (records : recorded.flatMap OffsetRange.offsets = (List.range' 0 number).map page.slotAt)
    (tracks : state.Tracks page initTd saveFreeSpace tuples number) :
    (∀ offset, (∃ range ∈ recorded, range.startOffset ≤ offset ∧ offset ≤ range.endOffset) ↔
      ∃ pair ∈ state.placed, pair.2 = offset) ∧
    (∀ pair ∈ state.placed, StandsAt page state.page pair.1 pair.2) ∧
    state.placed.map Prod.fst = tuples.take state.placed.length := by
  have inside := tracks.number_le
  have count : (tuples.take number).length = ((List.range number).map page.slotAt).length := by
    simp only [length_take, length_map, length_range]
    lia
  have slots : state.placed.map Prod.snd = (List.range number).map page.slotAt := by
    rw [tracks.placed, map_snd_zip (Nat.le_of_eq count.symm)]
  have length : state.placed.length = number := by
    rw [← length_map (f := Prod.snd), slots, length_map, length_range]
  refine ⟨?_, tracks.stands, ?_⟩
  · intro offset
    have recordedIff : (∃ range ∈ recorded, range.startOffset ≤ offset ∧ offset ≤ range.endOffset) ↔
        offset ∈ recorded.flatMap OffsetRange.offsets := by
      simp only [mem_flatMap, OffsetRange.offsets, mem_range'_1]
      refine exists_congr fun range => and_congr_right fun _ => ?_
      omega
    have placedIff : (∃ pair ∈ state.placed, pair.2 = offset) ↔
        offset ∈ state.placed.map Prod.snd := mem_map.symm
    rw [recordedIff, placedIff, records, slots, ← range_eq_range']
  · rw [length, tracks.placed, map_fst_zip (Nat.le_of_eq count)]

/-- The undo records of a multi-insert cover exactly the tuples it placed, and every tuple counted
for the page is placed, exactly when no tuple with room on the page is due at an offset beyond what
the relation's initial transaction slots allow. -/
theorem multi_insert_covers_inserted (initTd saveFreeSpace : Nat) (page : UPage)
    (tuples : List UTuple) (ndone : Nat) : CoversInserted initTd saveFreeSpace page tuples ndone ↔
      ∀ number, (∀ index ≤ number, page.FitsAt saveFreeSpace (tuples.drop ndone) index) →
        page.slotAt number ≤ calculatedMaxUHeapTuplesPerPage initTd := by
  obtain ⟨todo, isTodo⟩ : ∃ todo, todo = tuples.drop ndone := ⟨_, rfl⟩
  obtain ⟨count, predicted⟩ := usableOffsetRanges_predicted page todo saveFreeSpace
  obtain ⟨ranges, isRanges⟩ : ∃ ranges, ranges = usableOffsetRanges page todo saveFreeSpace :=
    ⟨_, rfl⟩
  rw [← isRanges] at predicted
  have noOverflow : (∀ number, (∀ index ≤ number, page.FitsAt saveFreeSpace todo index) →
      page.slotAt number ≤ calculatedMaxUHeapTuplesPerPage initTd) ↔
      ¬ Overflows page initTd saveFreeSpace todo := by
    unfold Overflows
    push Not
    rfl
  rw [← isTodo, noOverflow]
  unfold CoversInserted uHeapMultiInsertPage uHeapGetUsableOffsetRanges
  rw [← isTodo, ← isRanges]
  cases empty : ranges.isEmpty with
  | true =>
    have none : count = 0 := by
      have offsets := predicted.offsets
      rw [List.isEmpty_iff.mp empty] at offsets
      simpa using offsets.symm
    simp only [empty, ↓reduceIte, true_iff]
    rintro ⟨number, fits, _⟩
    apply predicted.exhausted
    rw [none]
    exact fits 0 (Nat.zero_le _)
  | false =>
    have first : (ranges.map OffsetRange.startOffset).headD 0 = page.slotAt 0 := by
      cases ranges with
      | nil => cases empty
      | cons range rest =>
        have inside := predicted.proper range mem_cons_self
        have offsets := predicted.offsets
        rw [range_eq_range'] at offsets
        obtain ⟨_, _, here, _⟩ := range_split offsets
        exact here 0 (by omega)
    have offsets := predicted.offsets
    rw [range_eq_range'] at offsets
    have new : page.slots.length < 0 + count →
        page.limit ≤ calculatedMaxUHeapTuplesPerPage page.tdCount := by
      rw [Nat.zero_add]
      exact predicted.new
    rcases placeRanges_spec _ count 0 ranges _
        (Placing.Tracks.start page initTd saveFreeSpace todo) first predicted.proper offsets new
      with ⟨failed, overflow⟩ | ⟨placed, le, state, recorded, run, records, kept, ends⟩
    · simp only [empty, Bool.false_eq_true, ↓reduceIte, failed]
      exact iff_of_false id (not_not_intro overflow)
    · simp only [empty, Bool.false_eq_true, ↓reduceIte, run]
      rw [Nat.zero_add] at kept ends
      obtain ⟨covered, stands, inOrder⟩ := Placing.Tracks.covers records kept
      refine iff_of_true ⟨covered, stands, inOrder, trivial⟩ ?_
      rintro ⟨number, fits, beyond⟩
      rcases Nat.lt_or_ge number placed with before | behind
      · exact absurd (kept.fitted number before).2 (Nat.not_le.mpr beyond)
      · have fit := fits placed behind
        rcases ends with all | stuck
        · rw [all] at fit
          exact predicted.exhausted fit
        · exact kept.not_stuck state placed fit stuck

/-- A page with four transaction slots that is filled with 405 tuples of twelve bytes. -/
def crowdedPage : UPage where
  tdCount := 4
  hasFreeLines := false
  rows := (List.range 405).map fun index =>
    { flags := .normal, offset := 8192 - 12 * (index + 1), len := 12 }
  pdUpper := 8192 - 12 * 405
  lower_le := by decide +kernel
  upper_even := by decide

/-- In a relation whose initial transaction slots were raised to 128, a tuple of twelve bytes has
room on the crowded page, is counted for it and cannot be placed. -/
theorem multi_insert_panics_on_crowded_page :
    ¬ CoversInserted 128 0 crowdedPage [{ diskTupleSize := 12, header_le := by decide }] 0 := by
  have failed : (match uHeapMultiInsertPage 128 0 crowdedPage
      [{ diskTupleSize := 12, header_le := by decide }] 0 with
      | .panic => true
      | _ => false) = true := by
    decide +kernel
  unfold CoversInserted
  split at failed
  case h_1 panic => rw [panic]; exact id
  case h_2 => cases failed

end OpenGauss.Ustore
