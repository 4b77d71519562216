import Mathlib.Data.List.Basic
import Mathlib.Algebra.Order.Group.Nat
/-!
# Pages of the in-place update store

A page has a header, its transaction slots, an array of line pointers that grows upwards and tuple
data that grows downwards. A new tuple takes the first free line pointer, when the page's hint says
that there is one, and otherwise a new line pointer behind the last. The tuple bytes themselves are
left out: a line pointer tells where they stand and how many they are.
-/
namespace OpenGauss.Ustore

open Option List

/-- `BLCKSZ`. -/
def blockSize : Nat := 8192

/-- `SizeOfUHeapPageHeaderData`. -/
def sizeOfUHeapPageHeaderData : Nat := 56

/-- `sizeof(TD)`, a transaction slot. -/
def sizeOfTD : Nat := 16

/-- `sizeof(RowPtr)`, which is also `sizeof(ItemIdData)`. -/
def sizeOfRowPtr : Nat := 4

/-- `SizeOfUHeapDiskTupleData`, the fixed part of a tuple. -/
def sizeOfUHeapDiskTupleData : Nat := 11

/-- `MaxOffsetNumber`. -/
def maxOffsetNumber : Nat := blockSize / sizeOfRowPtr

/-- `CalculatedMaxUHeapTuplesPerPage`: how many line pointers a page with the given number of
transaction slots may have. -/
def calculatedMaxUHeapTuplesPerPage (tdSlots : Nat) : Nat :=
  (blockSize - sizeOfUHeapPageHeaderData - tdSlots * sizeOfTD) /
    (sizeOfUHeapDiskTupleData + sizeOfRowPtr)

/-- `SHORTALIGN`. -/
def shortAlign (length : Nat) : Nat := (length + 1) / 2 * 2

/-- The state of a line pointer. -/
inductive RowFlag where
  | unused
  | normal
  | redirect
  | dead
deriving DecidableEq

/-- A line pointer. -/
structure RowPtr where
  flags : RowFlag
  offset : Nat
  len : Nat
deriving DecidableEq

/-- `RowPtrIsUsed`. -/
def RowPtr.isUsed (row : RowPtr) : Bool := row.flags != .unused

/-- `RowPtrHasStorage`. -/
def RowPtr.hasStorage (row : RowPtr) : Bool := decide (row.len > 0)

/-- A line pointer that a new tuple may take. -/
def RowPtr.isFree (row : RowPtr) : Bool := !row.isUsed && !row.hasStorage

/-- A page: transaction slots, the free line pointer hint, the line pointers and the lower end of
the tuple data. The data ends on an even byte and stands behind the line pointers. -/
structure UPage where
  /-- `td_count`. -/
  tdCount : Nat
  /-- `UHEAP_HAS_FREE_LINES`. -/
  hasFreeLines : Bool
  rows : List RowPtr
  /-- `pd_upper`. -/
  pdUpper : Nat
  lower_le : sizeOfUHeapPageHeaderData + tdCount * sizeOfTD + rows.length * sizeOfRowPtr ≤ pdUpper
  upper_even : pdUpper % 2 = 0

/-- `pd_lower`. -/
def UPage.pdLower (page : UPage) : Nat :=
  sizeOfUHeapPageHeaderData + page.tdCount * sizeOfTD + page.rows.length * sizeOfRowPtr

/-- `OffsetNumberNext(UHeapPageGetMaxOffsetNumber(page))`, the first offset without a line pointer. -/
def UPage.limit (page : UPage) : Nat := page.rows.length + 1

/-- The search for a free line pointer, from the given offset on. -/
def scanFree : Nat → List RowPtr → Nat
  | offset, [] => offset
  | offset, row :: rest => if row.isFree then offset else scanFree (offset + 1) rest

/-- `FindNextFreeSlot`: the offset of the next tuple, and the hint after the search. -/
def findNextFreeSlot (page : UPage) : Nat × Bool :=
  if page.hasFreeLines then
    let offsetNumber := scanFree 1 page.rows
    (offsetNumber, decide (offsetNumber < page.limit))
  else (page.limit, false)

/-- The line pointers with one set: an old one, or a new one behind the last. -/
def putRow (rows : List RowPtr) (offset : Nat) (row : RowPtr) : List RowPtr :=
  if offset = rows.length + 1 then rows ++ [row] else rows.set (offset - 1) row

variable (initTd : Nat) (offset : Nat) (rows : List RowPtr) (page : UPage) (size : Nat)

/-- A row at the end makes the array longer, another one does not. -/
theorem putRow_length (offset : Nat) (row : RowPtr) : (putRow rows offset row).length =
      if offset = rows.length + 1 then rows.length + 1 else rows.length := by
  unfold putRow
  split
  · rw [length_append, length_singleton]
  · rw [length_set]

/-- Taking an aligned length keeps the upper bound even. -/
theorem upper_even_sub (upper length : Nat) (even : upper % 2 = 0) :
    (upper - shortAlign length) % 2 = 0 := by
  unfold shortAlign
  omega

/-- `UPageAddItem` for an item without a given offset: the offset taken and the page after it, or
nothing when the offset is beyond what the relation allows or the item does not fit. -/
def uPageAddItem (initTd : Nat) (page : UPage) (size : Nat) : Option (Nat × UPage) :=
  let (offsetNumber, hint) := findNextFreeSlot page
  if offsetNumber > calculatedMaxUHeapTuplesPerPage initTd then none
  else
    if fits : sizeOfUHeapPageHeaderData + page.tdCount * sizeOfTD +
        (if offsetNumber = page.limit then page.rows.length + 1 else page.rows.length) *
          sizeOfRowPtr + shortAlign size ≤ page.pdUpper then
      some (offsetNumber,
        { tdCount := page.tdCount
          hasFreeLines := hint
          rows := putRow page.rows offsetNumber
            { flags := .normal, offset := page.pdUpper - shortAlign size, len := size }
          pdUpper := page.pdUpper - shortAlign size
          lower_le := by
            rw [putRow_length]
            exact Nat.le_sub_of_add_le fits
          upper_even := upper_even_sub _ _ page.upper_even })
    else none

/-- `PageGetExactUHeapFreeSpace`. -/
def pageGetExactUHeapFreeSpace (page : UPage) : Nat := page.pdUpper - page.pdLower

/-- `PageGetUHeapFreeSpace`: the free space less a new line pointer, and none when all line pointers
are taken. -/
def pageGetUHeapFreeSpace (page : UPage) : Nat :=
  let space := page.pdUpper - page.pdLower
  let space := if space < sizeOfRowPtr then 0 else space - sizeOfRowPtr
  if space > 0 ∧ page.rows.length ≥ calculatedMaxUHeapTuplesPerPage page.tdCount then
    if page.hasFreeLines then
      if page.rows.any (fun row => !row.isUsed) then space else 0
    else 0
  else space

/-- The offsets of the free line pointers, from the given offset on. -/
def freeFrom : Nat → List RowPtr → List Nat
  | _, [] => []
  | offset, row :: rest =>
    if row.isFree then offset :: freeFrom (offset + 1) rest else freeFrom (offset + 1) rest

/-- The free line pointers that the page offers, in the order in which tuples take them. -/
def UPage.slots (page : UPage) : List Nat :=
  if page.hasFreeLines then freeFrom 1 page.rows else []

/-- With a line pointer to use, all space in the middle is free. -/
theorem pageGetUHeapFreeSpace_eq
    (line : page.rows.length < calculatedMaxUHeapTuplesPerPage page.tdCount ∨
      (page.hasFreeLines = true ∧ page.rows.any (fun row => !row.isUsed) = true)) :
    pageGetUHeapFreeSpace page = page.pdUpper - page.pdLower - sizeOfRowPtr := by
  have cut : (if page.pdUpper - page.pdLower < sizeOfRowPtr then 0
      else page.pdUpper - page.pdLower - sizeOfRowPtr) =
        page.pdUpper - page.pdLower - sizeOfRowPtr := by
    split <;> omega
  simp only [pageGetUHeapFreeSpace, cut]
  rcases line with few | ⟨hint, unused⟩
  · rw [if_neg (by omega)]
  · simp [hint, unused]

/-- Without one, no space is free. -/
theorem pageGetUHeapFreeSpace_zero
    (all : calculatedMaxUHeapTuplesPerPage page.tdCount ≤ page.rows.length)
    (down : page.hasFreeLines = false) : pageGetUHeapFreeSpace page = 0 := by
  simp only [pageGetUHeapFreeSpace, all, down, and_true, Bool.false_eq_true, ↓reduceIte]
  generalize (if page.pdUpper - page.pdLower < sizeOfRowPtr then 0
    else page.pdUpper - page.pdLower - sizeOfRowPtr) = space
  split <;> omega

/-- The scan finds the first free line pointer, or the end. -/
theorem scanFree_eq :
    scanFree offset rows = (freeFrom offset rows).headD (offset + rows.length) := by
  induction rows generalizing offset with
  | nil => rfl
  | cons row rest ih =>
    simp only [scanFree, freeFrom, length_cons]
    split
    · rfl
    · rw [ih, Nat.add_right_comm, Nat.add_assoc]

/-- Free line pointers lie in the array. -/
theorem freeFrom_bounds (slot : Nat)
    (member : slot ∈ freeFrom offset rows) : offset ≤ slot ∧ slot < offset + rows.length := by
  induction rows generalizing offset with
  | nil => cases member
  | cons row rest ih =>
    rw [length_cons]
    simp only [freeFrom] at member
    split at member
    · rcases mem_cons.mp member with rfl | later
      · omega
      · have := ih (offset + 1) later
        omega
    · have := ih (offset + 1) member
      omega

/-- Free line pointers are in ascending order. -/
theorem freeFrom_pairwise : (freeFrom offset rows).Pairwise (· < ·) := by
  induction rows generalizing offset with
  | nil => exact List.Pairwise.nil
  | cons row rest ih =>
    simp only [freeFrom]
    split
    · refine List.Pairwise.cons ?_ (ih (offset + 1))
      intro slot later
      exact (freeFrom_bounds (offset + 1) rest slot later).1
    · exact ih (offset + 1)

/-- A free line pointer is an unused one. -/
theorem freeFrom_any (some : freeFrom offset rows ≠ []) :
    rows.any (fun row => !row.isUsed) = true := by
  induction rows generalizing offset with
  | nil => exact absurd rfl some
  | cons row rest ih =>
    rw [any_cons, Bool.or_eq_true]
    by_cases free : row.isFree = true
    · left
      exact (Bool.and_eq_true_iff.mp free).1
    · right
      apply ih (offset + 1)
      rw [freeFrom, if_neg free] at some
      exact some

/-- A taken slot is not free. -/
theorem freeFrom_set (offset slot : Nat) (rows : List RowPtr) (others : List Nat) (row : RowPtr)
    (taken : row.isFree = false) (first : freeFrom offset rows = slot :: others) :
    freeFrom offset (rows.set (slot - offset) row) = others := by
  induction rows generalizing offset with
  | nil => cases first
  | cons head rest ih =>
    simp only [freeFrom] at first
    split at first
    case isTrue free =>
      obtain ⟨rfl, rfl⟩ := List.cons.inj first
      simp only [Nat.sub_self, set_cons_zero, freeFrom, taken, Bool.false_eq_true, ↓reduceIte]
    case isFalse used =>
      have bounds := freeFrom_bounds (offset + 1) rest slot (by rw [first]; exact mem_cons_self)
      have index : slot - offset = slot - (offset + 1) + 1 := by lia
      rw [index, set_cons_succ, freeFrom, if_neg used]
      exact ih (offset + 1) first

/-- The next slot is the first free one, or a new one. -/
theorem findNextFreeSlot_fst : (findNextFreeSlot page).1 = page.slots.headD page.limit := by
  unfold findNextFreeSlot UPage.slots
  split
  · rw [scanFree_eq]
    rw [Nat.add_comm]
    rfl
  · rfl

/-- The hint stays exactly if a slot is free. -/
theorem findNextFreeSlot_snd : (findNextFreeSlot page).2 = !page.slots.isEmpty := by
  unfold findNextFreeSlot UPage.slots
  split
  · have found := scanFree_eq 1 page.rows
    cases slots : freeFrom 1 page.rows with
    | nil =>
      rw [slots] at found
      simp [found, UPage.limit, Nat.add_comm]
    | cons slot others =>
      have bounds := freeFrom_bounds 1 page.rows slot (by rw [slots]; exact mem_cons_self)
      rw [slots] at found
      simp only [found, headD_cons, isEmpty_cons, Bool.not_false, decide_eq_true_eq, UPage.limit]
      omega
  · rfl

/-- The offset that the tuple with the given number, counted from zero, takes on the page: the free
line pointers in order, then new ones. -/
def UPage.slotAt (page : UPage) (number : Nat) : Nat :=
  page.slots[number]?.getD (page.limit + (number - page.slots.length))

/-- The slot taken first. -/
theorem UPage.slotAt_zero : page.slotAt 0 = page.slots.headD page.limit := by
  unfold UPage.slotAt
  cases page.slots <;> rfl

/-- The slots offered are in order and inside the array. -/
theorem UPage.slots_ordered :
    (∀ slot ∈ page.slots, 1 ≤ slot ∧ slot < page.limit) ∧ page.slots.Pairwise (· < ·) := by
  unfold UPage.slots UPage.limit
  split
  · refine ⟨?_, freeFrom_pairwise 1 page.rows⟩
    intro slot member
    have bounds := freeFrom_bounds 1 page.rows slot member
    omega
  · exact ⟨(fun _ member => nomatch member), List.Pairwise.nil⟩

/-- Later tuples take later slots. -/
theorem UPage.slotAt_lt (earlier later : Nat) (before : earlier < later) :
    page.slotAt earlier < page.slotAt later := by
  obtain ⟨bounds, ascending⟩ := page.slots_ordered
  unfold UPage.slotAt
  by_cases old : later < page.slots.length
  · rw [getElem?_eq_getElem old, getElem?_eq_getElem (Nat.lt_trans before old)]
    exact pairwise_iff_getElem.mp ascending earlier later (Nat.lt_trans before old) old before
  · rw [getElem?_eq_none (Nat.le_of_not_lt old), getD_none]
    by_cases free : earlier < page.slots.length
    · rw [getElem?_eq_getElem free, getD_some]
      have := (bounds _ (getElem_mem free)).2
      omega
    · rw [getElem?_eq_none (Nat.le_of_not_lt free), getD_none]
      omega

/-- Slots are offered from unused line pointers. -/
theorem UPage.slots_offer (some : page.slots ≠ []) :
    page.hasFreeLines = true ∧ page.rows.any (fun row => !row.isUsed) = true := by
  unfold UPage.slots at some
  split at some
  case isTrue hint => exact ⟨hint, freeFrom_any 1 page.rows some⟩
  case isFalse => exact absurd rfl some

/-- Slots are numbered from one. -/
theorem UPage.slotAt_pos (number : Nat) : 1 ≤ page.slotAt number := by
  unfold UPage.slotAt
  by_cases free : number < page.slots.length
  · rw [getElem?_eq_getElem free]
    exact (page.slots_ordered.1 _ (getElem_mem free)).1
  · rw [getElem?_eq_none (Nat.le_of_not_lt free), getD_none]
    unfold UPage.limit
    omega

/-- What adding a tuple does to a page. -/
structure Placed (page page' : UPage) (size slot : Nat) : Prop where
  slot_eq : slot = page.slotAt 0
  tdCount : page'.tdCount = page.tdCount
  upper : page'.pdUpper + shortAlign size = page.pdUpper
  slots : page'.slots = page.slots.tail
  length : page'.rows.length = if page.slots = [] then page.rows.length + 1 else page.rows.length
  hint : page.slots = [] → page'.hasFreeLines = false
  row : page'.rows[slot - 1]? = some { flags := .normal, offset := page'.pdUpper, len := size }
  others : ∀ index, index ≠ slot - 1 → index < page.rows.length →
    page'.rows[index]? = page.rows[index]?

/-- Behind a placed tuple the next slots are the ones after it. -/
theorem Placed.slotAt {page page' : UPage} {size slot : Nat} (placed : Placed page page' size slot)
    (number : Nat) : page'.slotAt number = page.slotAt (number + 1) := by
  unfold UPage.slotAt UPage.limit
  rw [placed.slots, placed.length]
  cases slots : page.slots with
  | nil =>
    simp only [tail_nil, getElem?_nil, length_nil]
    lia
  | cons first others =>
    simp only [tail_cons, getElem?_cons_succ, length_cons, reduceCtorEq, ↓reduceIte]
    rw [show number + 1 - (others.length + 1) = number - others.length by lia]

/-- A page whose next line pointer was written for a tuple has the tuple placed. -/
theorem placed_of_fields {page page' : UPage} {size : Nat} (tdCount : page'.tdCount = page.tdCount)
    (hint : page'.hasFreeLines = !page.slots.isEmpty)
    (rows : page'.rows = putRow page.rows (page.slotAt 0)
      { flags := .normal, offset := page'.pdUpper, len := size })
    (upper : page'.pdUpper + shortAlign size = page.pdUpper) :
    Placed page page' size (page.slotAt 0) := by
  obtain ⟨row, isRow⟩ : ∃ row : RowPtr,
    row = { flags := .normal, offset := page'.pdUpper, len := size } := ⟨_, rfl⟩
  rw [← isRow] at rows
  have taken : row.isFree = false := by rw [isRow]; rfl
  cases slots : page.slots with
  | nil =>
    have atLimit : page.slotAt 0 = page.rows.length + 1 := by
      rw [UPage.slotAt_zero, slots]
      rfl
    have appended : page'.rows = page.rows ++ [row] := by
      rw [rows, atLimit]
      exact if_pos rfl
    have down : page'.hasFreeLines = false := by rw [hint, slots]; rfl
    constructor
    · rfl
    · exact tdCount
    · exact upper
    · rw [UPage.slots, down, slots]
      rfl
    · rw [appended, slots, length_append]
      rfl
    · exact fun _ => down
    · rw [appended, atLimit, ← isRow, Nat.add_sub_cancel, getElem?_append_right (Nat.le_refl _),
        Nat.sub_self]
      rfl
    · intro index _ inside
      rw [appended, getElem?_append_left inside]
  | cons slot others =>
    have bounds := page.slots_ordered.1 slot (by rw [slots]; exact mem_cons_self)
    have atSlot : page.slotAt 0 = slot := by
      rw [UPage.slotAt_zero, slots]
      rfl
    unfold UPage.limit at bounds
    have replaced : page'.rows = page.rows.set (slot - 1) row := by
      rw [rows, atSlot]
      exact if_neg (by lia)
    have up : page'.hasFreeLines = true := by rw [hint, slots]; rfl
    have offered : page.hasFreeLines = true ∧ freeFrom 1 page.rows = slot :: others := by
      unfold UPage.slots at slots
      split at slots
      case isTrue free => exact ⟨free, slots⟩
      case isFalse => cases slots
    constructor
    · rfl
    · exact tdCount
    · exact upper
    · rw [UPage.slots, up, slots, replaced]
      exact freeFrom_set 1 slot page.rows others row taken offered.2
    · rw [replaced, slots, length_set]
      rfl
    · intro empty
      rw [slots] at empty
      cases empty
    · rw [replaced, atSlot, ← isRow, getElem?_set_self (by omega)]
    · intro index different _
      rw [atSlot] at different
      rw [replaced, getElem?_set_ne (Ne.symm different)]

/-- Beyond the limit nothing is added. -/
theorem uPageAddItem_none (beyond : page.slotAt 0 > calculatedMaxUHeapTuplesPerPage initTd) :
    uPageAddItem initTd page size = none := by
  rw [UPage.slotAt_zero, ← findNextFreeSlot_fst] at beyond
  simp only [uPageAddItem, beyond, ↓reduceIte]

variable {size}

/-- An item with room is placed. -/
theorem uPageAddItem_some (within : page.slotAt 0 ≤ calculatedMaxUHeapTuplesPerPage initTd)
    (room : page.pdLower + sizeOfRowPtr + size ≤ page.pdUpper) :
    ∃ page', uPageAddItem initTd page size = some (page.slotAt 0, page') ∧
      Placed page page' size (page.slotAt 0) := by
  have next : (findNextFreeSlot page).1 = page.slotAt 0 := by
    rw [UPage.slotAt_zero]
    exact findNextFreeSlot_fst page
  have hint := findNextFreeSlot_snd page
  have even := page.upper_even
  have fits : sizeOfUHeapPageHeaderData + page.tdCount * sizeOfTD +
      (if page.slotAt 0 = page.limit then page.rows.length + 1 else page.rows.length) *
        sizeOfRowPtr + shortAlign size ≤ page.pdUpper := by
    simp only [UPage.pdLower, sizeOfUHeapPageHeaderData, sizeOfTD, sizeOfRowPtr] at room ⊢
    unfold shortAlign
    split <;> lia
  have allowed : ¬ page.slotAt 0 > calculatedMaxUHeapTuplesPerPage initTd := Nat.not_lt.mpr within
  have aligned : shortAlign size ≤ page.pdUpper := by lia
  refine ⟨_, by simp only [uPageAddItem, next, allowed, fits]; rfl, ?_⟩
  exact placed_of_fields rfl hint rfl (Nat.sub_add_cancel aligned)

end OpenGauss.Ustore
