import OpenGauss.Base.Scatter
import OpenGauss.Ustore.Page

/-!
# Adding an item to a page

`UPageAddItem` with its item, an offset that the caller may ask for, and the bytes of the page. The
item goes to a free line pointer, to a new one behind the last, or to a new one in the middle, with
the later line pointers moved up. A page on which no two tuples overlap stays one. A refused item
leaves the line pointers and all bytes as they were; only the bookkeeping of free space is touched.
-/
namespace OpenGauss.Ustore

open List OpenGauss.Base

/-- A page with the end of its tuple data, its bookkeeping and its bytes. -/
structure DataPage where
  header : UPage
  /-- `pd_special`. -/
  pdSpecial : Nat
  /-- `potential_freespace`. -/
  potentialFreespace : Nat
  bytes : Nat → UInt8

/-- The line pointer at an index, if it has storage. -/
def DataPage.Stores (page : DataPage) (index : Nat) (row : RowPtr) : Prop :=
  page.header.rows[index]? = some row ∧ row.hasStorage = true

/-- All stored tuples stand at even places between the free space and the special space, and no two
overlap. The line pointers end before the free space by the invariant of the header. -/
structure DataPage.Valid (page : DataPage) : Prop where
  special : page.header.pdUpper ≤ page.pdSpecial ∧ page.pdSpecial ≤ blockSize ∧
    page.pdSpecial % 8 = 0
  inside : ∀ index row, page.Stores index row → page.header.pdUpper ≤ row.offset ∧
    row.offset + row.len ≤ page.pdSpecial ∧ row.offset % 2 = 0
  apart : ∀ first second row other, first ≠ second → page.Stores first row →
    page.Stores second other →
      row.offset + row.len ≤ other.offset ∨ other.offset + other.len ≤ row.offset

/-- `OffsetNumberIsValid`. -/
def offsetNumberIsValid (offsetNumber : Nat) : Bool :=
  decide (offsetNumber ≠ 0 ∧ offsetNumber ≤ maxOffsetNumber)

/-- `CheckOffsetValidity`: whether line pointers have to move, if the offset may be used. -/
def checkOffsetValidity (page : UPage) (inRecovery : Bool) (offsetNumber : Nat)
    (overwrite : Bool) : Option Bool :=
  if offsetNumber < page.limit then
    if overwrite then
      match page.rows[offsetNumber - 1]? with
      | some row =>
        if inRecovery then if row.hasStorage then none else some false
        else if row.isUsed || row.hasStorage then none else some false
      | none => some false
    else some true
  else some false

/-- The line pointers after one was put at an index, with the later ones moved up or not. -/
def placeRow (rows : List RowPtr) (index : Nat) (grows : Bool) (row : RowPtr) : List RowPtr :=
  if grows then rows.insertIdx index row else rows.set index row

theorem placeRow_length_le (rows : List RowPtr) (index : Nat) (grows : Bool) (row : RowPtr) :
    (placeRow rows index grows row).length ≤ rows.length + grows.toNat := by
  unfold placeRow
  cases grows with
  | true => exact length_insertIdx_le_succ
  | false => rw [if_neg (by decide), length_set]; rfl

/-- `CalculateLowerUpperPointers`. The free space is charged for a new line pointer before it is
known whether the item fits. -/
def calculateLowerUpperPointers (page : DataPage) (offsetNumber : Nat) (item : List UInt8)
    (needshuffle : Bool) : Bool × DataPage :=
  let header := page.header
  if header.limit < offsetNumber then (false, page)
  else
    let grows := decide (offsetNumber = header.limit) || needshuffle
    let potentialFreespace :=
      if grows then page.potentialFreespace - sizeOfRowPtr else page.potentialFreespace
    if fits : sizeOfUHeapPageHeaderData + header.tdCount * sizeOfTD +
        (header.rows.length + grows.toNat) * sizeOfRowPtr + shortAlign item.length ≤
          header.pdUpper then
      let pdUpper := header.pdUpper - shortAlign item.length
      let rows := placeRow header.rows (offsetNumber - 1) grows
        { flags := .normal, offset := pdUpper, len := item.length }
      (true, { page with
        potentialFreespace
        bytes := pwrite page.bytes pdUpper item
        header := { header with
          rows
          pdUpper
          lower_le := le_trans
            (Nat.add_le_add_left (Nat.mul_le_mul_right _ (placeRow_length_le _ _ _ _)) _)
            (Nat.le_sub_of_add_le fits)
          upper_even := upper_even_sub _ _ header.upper_even } })
    else (false, { page with potentialFreespace })

section

variable (initTd : Nat) (inRecovery : Bool) (page : DataPage) (item : List UInt8)

/-- The end of `UPageAddItem`, with the offset known. -/
def placeItem (offsetNumber : Nat) (needshuffle : Bool) : Option Nat × DataPage :=
  if inRecovery = false ∧ calculatedMaxUHeapTuplesPerPage initTd < offsetNumber then (none, page)
  else
    let (added, page) := calculateLowerUpperPointers page offsetNumber item needshuffle
    (if added then some offsetNumber else none, page)

/-- `UPageAddItem`: the offset of the item, or none for `InvalidOffsetNumber`, and the page after
it. -/
def uPageAddItemAt (offsetNumber : Nat) (overwrite : Bool) : Option Nat × DataPage :=
  if offsetNumberIsValid offsetNumber then
    match checkOffsetValidity page.header inRecovery offsetNumber overwrite with
    | none => (none, page)
    | some needshuffle => placeItem initTd inRecovery page item offsetNumber needshuffle
  else
    let (offsetNumber, hint) := findNextFreeSlot page.header
    placeItem initTd inRecovery { page with header := { page.header with hasFreeLines := hint } }
      item offsetNumber false

end

/-- Where the line pointers stand after one was put at an index: those from the index
on stand one place later if the list grows, and no other moves. -/
def movedPlace (index : Nat) (grows : Bool) (old : Nat) : Nat :=
  if grows = true ∧ index ≤ old then old + 1 else old

/-- What adding an item to a page did. -/
structure Added (page after : DataPage) (item : List UInt8) (offsetNumber : Nat) : Prop where
  positive : 1 ≤ offsetNumber
  valid : after.Valid
  row : after.header.rows[offsetNumber - 1]? =
    some { flags := .normal, offset := after.header.pdUpper, len := item.length }
  bytes : pread after.bytes after.header.pdUpper item.length = item
  header : after.header.tdCount = page.header.tdCount ∧ after.pdSpecial = page.pdSpecial
  /-- The other tuples keep their bytes, and their line pointers at their places or, from the new
  one on, at the next places. -/
  others : ∃ grows : Bool, ∀ index row, page.Stores index row →
    movedPlace (offsetNumber - 1) grows index ≠ offsetNumber - 1 ∧
      after.header.rows[movedPlace (offsetNumber - 1) grows index]? = some row ∧
      pread after.bytes row.offset row.len = pread page.bytes row.offset row.len

/-- What a refused item leaves as it was. The hint goes down only if it was wrong. -/
structure Refused (page after : DataPage) : Prop where
  rows : after.header.rows = page.header.rows
  pointers : after.header.tdCount = page.header.tdCount ∧
    after.header.pdUpper = page.header.pdUpper ∧ after.pdSpecial = page.pdSpecial
  bytes : after.bytes = page.bytes
  hint : after.header.hasFreeLines = page.header.hasFreeLines ∨
    after.header.hasFreeLines = false ∧ ∀ row ∈ page.header.rows, row.isFree = false

/-- What `UPageAddItem` comes to. -/
def AddsOrRefuses (page : DataPage) (item : List UInt8) : Option Nat × DataPage → Prop
  | (some offsetNumber, after) => Added page after item offsetNumber
  | (none, after) => Refused page after

variable {page : DataPage}

/-- The new row, and where the others go. -/
theorem placeRow_getElem? {rows : List RowPtr} {index : Nat} {grows : Bool} (row : RowPtr)
    (low : index < rows.length + grows.toNat) :
    (placeRow rows index grows row)[index]? = some row ∧
      (∀ old, movedPlace index grows old ≠ index →
        (placeRow rows index grows row)[movedPlace index grows old]? = rows[old]?) ∧
      ∀ place, place ≠ index → ∃ old, movedPlace index grows old = place := by
  cases grows with
  | true =>
    simp only [placeRow, movedPlace, if_true, true_and]
    refine ⟨?_, fun old _ => ?_, fun place other => ?_⟩
    · rw [getElem?_insertIdx_self, if_pos (Nat.le_of_lt_succ low)]
    · split_ifs with later
      · rw [getElem?_insertIdx_of_gt (by omega), Nat.add_sub_cancel]
      · rw [getElem?_insertIdx_of_lt (by omega)]
    · rcases Nat.lt_or_gt_of_ne other with before | after
      · exact ⟨place, if_neg (by omega)⟩
      · exact ⟨place - 1, by rw [if_pos (by omega)]; lia⟩
  | false =>
    exact ⟨getElem?_set_self low, fun old other => getElem?_set_ne (Ne.symm other),
      fun place _ => ⟨place, rfl⟩⟩

/-- An item below all tuples of a valid page, with a line pointer that replaces none with storage. -/
theorem added_of_fields (valid : page.Valid) {after : DataPage} {item : List UInt8} (index : Nat)
    (grows : Bool) {offsetNumber : Nat} (positive : 1 ≤ offsetNumber)
    (isIndex : offsetNumber - 1 = index) (low : index < page.header.rows.length + grows.toNat)
    (free : grows = false → ∀ row, ¬page.Stores index row)
    (rows : after.header.rows = placeRow page.header.rows index grows
      { flags := .normal, offset := after.header.pdUpper, len := item.length })
    (room : after.header.pdUpper + item.length ≤ page.header.pdUpper)
    (bytes : after.bytes = pwrite page.bytes after.header.pdUpper item)
    (same : after.header.tdCount = page.header.tdCount ∧ after.pdSpecial = page.pdSpecial) :
    Added page after item offsetNumber := by
  obtain ⟨here, moved, onto⟩ := placeRow_getElem?
    { flags := .normal, offset := after.header.pdUpper, len := item.length } low
  rw [← rows] at here moved
  -- A line pointer with storage is the new one or an old one.
  have split (place : Nat) (row : RowPtr) (stores : after.Stores place row) :
      (place = index ∧ row = { flags := .normal, offset := after.header.pdUpper, len := item.length }) ∨
        ∃ old, movedPlace index grows old = place ∧ page.Stores old row := by
    by_cases new : place = index
    · have found := stores.1
      rw [new, here] at found
      exact .inl ⟨new, (Option.some_inj.mp found).symm⟩
    · obtain ⟨old, rfl⟩ := onto place new
      exact .inr ⟨old, rfl, by rw [← moved old new]; exact stores.1, stores.2⟩
  have special := valid.special
  refine ⟨positive, ⟨?_, fun place row stores => ?_, fun first second row other differ one two =>
    ?_⟩, by rw [isIndex]; exact here, by rw [bytes]; exact pread_pwrite _ _ _, same, grows,
    fun old row stores => ?_⟩
  · rw [same.2]
    lia
  · rw [same.2]
    rcases split place row stores with ⟨-, rfl⟩ | ⟨old, -, before⟩
    · have even := after.header.upper_even
      dsimp only
      grind
    · have bounds := valid.inside old row before
      grind
  · rcases split first row one with ⟨rfl, rfl⟩ | ⟨old, rfl, before⟩
    · rcases split second other two with ⟨rfl, -⟩ | ⟨old, -, before⟩
      · exact absurd rfl differ
      · have bounds := valid.inside old other before
        dsimp only
        grind
    · rcases split second other two with ⟨-, rfl⟩ | ⟨older, rfl, earlier⟩
      · have bounds := valid.inside old row before
        dsimp only
        grind
      · exact valid.apart old older row other (fun equal => differ (by rw [equal])) before earlier
  · have bounds := valid.inside old row stores
    have kept : movedPlace index grows old ≠ index := by
      intro replaced
      cases grows with
      | true =>
        simp only [movedPlace, true_and] at replaced
        split_ifs at replaced <;> omega
      | false =>
        have equal : old = index := by simpa [movedPlace] using replaced
        exact free rfl row (equal ▸ stores)
    rw [isIndex]
    refine ⟨kept, by rw [moved old kept]; exact stores.1, ?_⟩
    rw [bytes, pread_pwrite_apart _ (by grind)]

/-- The pointers leave room, or the item is refused. -/
theorem calculateLowerUpperPointers_spec (valid : page.Valid) {offsetNumber : Nat}
    (item : List UInt8) {needshuffle : Bool} (positive : 1 ≤ offsetNumber)
    (free : offsetNumber < page.header.limit → needshuffle = false →
      ∀ row, page.header.rows[offsetNumber - 1]? = some row → row.hasStorage = false) :
    let result := calculateLowerUpperPointers page offsetNumber item needshuffle
    (result.1 = true ∧ Added page result.2 item offsetNumber) ∨
      (result.1 = false ∧ Refused page result.2) := by
  have unchanged (potentialFreespace : Nat) : Refused page { page with potentialFreespace } :=
    ⟨rfl, ⟨rfl, rfl, rfl⟩, rfl, .inl rfl⟩
  intro result
  by_cases beyond : page.header.limit < offsetNumber
  · refine .inr ?_
    simp only [result, calculateLowerUpperPointers, if_pos beyond]
    exact ⟨trivial, unchanged _⟩
  obtain ⟨grows, isGrows⟩ : ∃ grows, grows =
    (decide (offsetNumber = page.header.limit) || needshuffle) := ⟨_, rfl⟩
  by_cases fits : sizeOfUHeapPageHeaderData + page.header.tdCount * sizeOfTD +
      (page.header.rows.length + grows.toNat) * sizeOfRowPtr + shortAlign item.length ≤
        page.header.pdUpper
  · refine .inl ?_
    simp only [result, calculateLowerUpperPointers, if_neg beyond, ← isGrows, dif_pos fits]
    refine ⟨trivial, ?_⟩
    have aligned : item.length ≤ shortAlign item.length := by
      unfold shortAlign
      lia
    refine added_of_fields valid (offsetNumber - 1) grows positive rfl ?_
      (fun stays row stores => ?_) rfl ?_ rfl ⟨rfl, rfl⟩
    · unfold UPage.limit at beyond isGrows
      by_cases last : offsetNumber = page.header.rows.length + 1
      · rw [isGrows, decide_eq_true last]
        exact (by omega : offsetNumber - 1 < page.header.rows.length + 1)
      · lia
    · rw [isGrows, Bool.or_eq_false_iff, decide_eq_false_iff_not] at stays
      have without := free (by omega) stays.2 row stores.1
      rw [stores.2] at without
      exact absurd without (by decide)
    · dsimp only
      omega
  · refine .inr ?_
    simp only [result, calculateLowerUpperPointers, if_neg beyond, ← isGrows, dif_neg fits]
    exact ⟨trivial, unchanged _⟩

/-- The scan ends at the first free row. -/
theorem scanFree_spec (offset : Nat) (rows : List RowPtr) : offset ≤ scanFree offset rows ∧
    (∀ row, rows[scanFree offset rows - offset]? = some row → row.isFree = true) ∧
    (offset + rows.length ≤ scanFree offset rows → ∀ row ∈ rows, row.isFree = false) := by
  induction rows generalizing offset with
  | nil =>
    exact ⟨le_rfl, fun row found => absurd found (by simp), fun _ row member => nomatch member⟩
  | cons head rest ih =>
    obtain ⟨after, here, missing⟩ := ih (offset + 1)
    rw [scanFree]
    split_ifs with free
    · refine ⟨le_rfl, fun row found => ?_, fun past => ?_⟩
      · rw [Nat.sub_self, getElem?_cons_zero, Option.some_inj] at found
        exact found ▸ free
      · rw [length_cons] at past
        omega
    · refine ⟨by omega, fun row found => here row ?_, fun past row member => ?_⟩
      · rw [show scanFree (offset + 1) rest - offset = scanFree (offset + 1) rest - (offset + 1) + 1 by
          lia] at found
        exact found
      · rw [length_cons] at past
        rcases mem_cons.mp member with rfl | later
        · exact Bool.eq_false_of_not_eq_true free
        · exact missing (by omega) row later

/-- The slot that is found is free. -/
theorem findNextFreeSlot_free (header : UPage) : 1 ≤ (findNextFreeSlot header).1 ∧
    ((findNextFreeSlot header).1 < header.limit → ∀ row,
      header.rows[(findNextFreeSlot header).1 - 1]? = some row → row.hasStorage = false) ∧
    ((findNextFreeSlot header).2 = header.hasFreeLines ∨ (findNextFreeSlot header).2 = false ∧
      ∀ row ∈ header.rows, row.isFree = false) := by
  rw [findNextFreeSlot]
  split_ifs with hint
  · dsimp only
    have found := scanFree_spec 1 header.rows
    refine ⟨found.1, fun low row here => ?_, ?_⟩
    · have free := (found.2.1 row here)
      rw [RowPtr.isFree, Bool.and_eq_true, Bool.not_eq_true', Bool.not_eq_true'] at free
      exact free.2
    · by_cases low : scanFree 1 header.rows < header.limit
      · exact .inl (by rw [decide_eq_true low, hint])
      · refine .inr ⟨decide_eq_false low, found.2.2 ?_⟩
        unfold UPage.limit at low
        omega
  · refine ⟨Nat.succ_pos _, fun low => absurd low (lt_irrefl _), .inl ?_⟩
    exact (Bool.eq_false_of_not_eq_true hint).symm

/-- An item is placed or refused. -/
theorem placeItem_spec (initTd : Nat) (inRecovery : Bool) (valid : page.Valid)
    (item : List UInt8) {offsetNumber : Nat} (needshuffle : Bool) (positive : 1 ≤ offsetNumber)
    (free : offsetNumber < page.header.limit → needshuffle = false →
      ∀ row, page.header.rows[offsetNumber - 1]? = some row → row.hasStorage = false) :
    AddsOrRefuses page item (placeItem initTd inRecovery page item offsetNumber needshuffle) ∧
      (placeItem initTd inRecovery page item offsetNumber needshuffle).2.header.hasFreeLines =
        page.header.hasFreeLines := by
  have hint : (calculateLowerUpperPointers page offsetNumber item needshuffle).2.header.hasFreeLines =
      page.header.hasFreeLines := by
    simp only [calculateLowerUpperPointers]
    split_ifs <;> rfl
  have outcome := calculateLowerUpperPointers_spec valid item positive free
  rw [placeItem]
  split_ifs with many
  · exact ⟨⟨rfl, ⟨rfl, rfl, rfl⟩, rfl, .inl rfl⟩, rfl⟩
  · rcases outcome with ⟨done, added⟩ | ⟨failed, refused⟩
    · dsimp only
      rw [if_pos done]
      exact ⟨added, hint⟩
    · dsimp only
      rw [if_neg (by simp [failed])]
      exact ⟨refused, hint⟩

/-- A valid page stays valid when an item is added, with the item at the returned offset and every
other tuple as it was; a refused item leaves the line pointers and the bytes as they were, and clears
the hint on free line pointers only if there is none. -/
theorem page_items_are_added (initTd : Nat) (inRecovery : Bool) (page : DataPage)
    (valid : page.Valid) (item : List UInt8) (offsetNumber : Nat) (overwrite : Bool) :
    AddsOrRefuses page item
      (uPageAddItemAt initTd inRecovery page item offsetNumber overwrite) := by
  rw [uPageAddItemAt]
  split_ifs with given
  · have positive : 1 ≤ offsetNumber := by
      rw [offsetNumberIsValid, decide_eq_true_eq] at given
      omega
    cases checked : checkOffsetValidity page.header inRecovery offsetNumber overwrite with
    | none => exact ⟨rfl, ⟨rfl, rfl, rfl⟩, rfl, .inl rfl⟩
    | some needshuffle =>
      refine (placeItem_spec initTd inRecovery valid item needshuffle positive ?_).1
      intro low stays row here
      rw [checkOffsetValidity, if_pos low, here, stays] at checked
      cases overwrite with
      | false => exact absurd checked (by simp)
      | true =>
        cases stored : row.hasStorage with
        | false => rfl
        | true => exact absurd checked (by simp [stored])
  · obtain ⟨positive, free, hint⟩ := findNextFreeSlot_free page.header
    have fresh : DataPage.Valid { page with
        header := { page.header with hasFreeLines := (findNextFreeSlot page.header).2 } } :=
      ⟨valid.special, valid.inside, valid.apart⟩
    have placed := placeItem_spec initTd inRecovery fresh item false
      positive (fun low _ => free low)
    dsimp only
    generalize placeItem initTd inRecovery _ item (findNextFreeSlot page.header).1 false = result
      at placed
    obtain ⟨outcome, kept⟩ := placed
    rcases result with ⟨_ | offset, after⟩
    · rcases hint with same | wrong
      · exact ⟨outcome.rows, outcome.pointers, outcome.bytes, .inl (kept.trans same)⟩
      · exact ⟨outcome.rows, outcome.pointers, outcome.bytes, .inr ⟨kept.trans wrong.1, wrong.2⟩⟩
    · exact ⟨outcome.positive, outcome.valid, outcome.row, outcome.bytes, outcome.header,
        outcome.others⟩

/-- A page is valid if its line pointers are, one by one and in pairs. -/
theorem DataPage.valid_of_rows (special : page.header.pdUpper ≤ page.pdSpecial ∧
      page.pdSpecial ≤ blockSize ∧ page.pdSpecial % 8 = 0)
    (inside : ∀ row ∈ page.header.rows, row.hasStorage = true →
      page.header.pdUpper ≤ row.offset ∧ row.offset + row.len ≤ page.pdSpecial ∧ row.offset % 2 = 0)
    (apart : page.header.rows.Pairwise fun row other => row.hasStorage = true →
      other.hasStorage = true →
        row.offset + row.len ≤ other.offset ∨ other.offset + other.len ≤ row.offset) :
    page.Valid := by
  refine ⟨special, fun index row stores => inside row (mem_of_getElem? stores.1) stores.2,
    fun first second row other differ one two => ?_⟩
  obtain ⟨firstBound, rfl⟩ := List.getElem?_eq_some_iff.mp one.1
  obtain ⟨secondBound, rfl⟩ := List.getElem?_eq_some_iff.mp two.1
  have pairs := pairwise_iff_getElem.mp apart
  rcases Nat.lt_or_gt_of_ne differ with before | behind
  · exact pairs first second firstBound secondBound before one.2 two.2
  · exact (pairs second first secondBound firstBound behind two.2 one.2).symm

/-- A page with a tuple at its end or with a tuple that fills it. -/
def oneTuplePage (full : Bool) : DataPage where
  header :=
    { tdCount := 4
      hasFreeLines := full
      rows := [if full then { flags := .normal, offset := 124, len := 8068 }
        else { flags := .normal, offset := 8188, len := 4 }]
      pdUpper := if full then 124 else 8188
      lower_le := by revert full; decide
      upper_even := by revert full; decide }
  pdSpecial := 8192
  potentialFreespace := 100
  bytes := fun _ => 7

/-- A second tuple in front of the first one. -/
theorem page_items_are_added_in_front :
    (uPageAddItemAt 4 false (oneTuplePage false) [1, 2, 3] 1 false).1 = some 1 ∧
      AddsOrRefuses (oneTuplePage false) [1, 2, 3]
        (uPageAddItemAt 4 false (oneTuplePage false) [1, 2, 3] 1 false) :=
  ⟨by decide, page_items_are_added 4 false (oneTuplePage false)
    (DataPage.valid_of_rows (by decide) (by decide) (by decide)) [1, 2, 3] 1 false⟩

/-- An item that is refused on a full page clears the hint, which was wrong, and takes four bytes off
the free space that is promised. -/
theorem refused_item_changes_header : (oneTuplePage true).Valid ∧
    (uPageAddItemAt 4 false (oneTuplePage true) [1] 0 false).1 = none ∧
      (uPageAddItemAt 4 false (oneTuplePage true) [1] 0 false).2.header.hasFreeLines ≠
        (oneTuplePage true).header.hasFreeLines ∧
      (uPageAddItemAt 4 false (oneTuplePage true) [1] 0 false).2.potentialFreespace ≠
        (oneTuplePage true).potentialFreespace :=
  ⟨DataPage.valid_of_rows (by decide) (by decide) (by decide), by decide, by decide, by decide⟩

end OpenGauss.Ustore
