import Mathlib.Algebra.Order.BigOperators.Group.List
import Mathlib.Data.List.Nodup
import OpenGauss.Ustore.PageItem

/-!
# Compaction of a page

`UPageRepairFragmentation` moves the tuples of a page to the end of its data, in the order in which
they stand. Every tuple moves up, so that none overwrites one that still has to move. The tuple that
the caller is about to extend is set aside and copied last, with room for what it needs.
-/
namespace OpenGauss.Ustore

open Function List OpenGauss.Base

/-- `itemIdSortData`. -/
structure ItemIdSort where
  offsetindex : Nat
  itemoff : Nat
  alignedlen : Nat

/-- The space that a tuple takes after the compaction. -/
def areaLength (targetOffnum spaceRequired index : Nat) (row : RowPtr) : Nat :=
  shortAlign (if index + 1 = targetOffnum then row.len + spaceRequired else row.len)

/-- The line pointer refers to a tuple. -/
def RowPtr.isLive (row : RowPtr) : Bool := row.isUsed && row.hasStorage

/-- The line pointers that refer to tuples, with their indexes. -/
def liveRows (rows : List RowPtr) : List (RowPtr × Nat) :=
  rows.zipIdx.filter fun (row, _) => row.isLive

/-- `RowPtrSetUnused` on a line pointer that is not used. -/
def clearUnused (row : RowPtr) : RowPtr :=
  if row.isUsed then row else { flags := .unused, offset := 0, len := 0 }

/-- The space that all tuples take after the compaction. -/
def totalLength (targetOffnum spaceRequired : Nat) (rows : List RowPtr) : Nat :=
  ((liveRows rows).map fun (row, index) => areaLength targetOffnum spaceRequired index row).sum

/-- The items of the line pointers that refer to tuples; a length has 16 bits. -/
def storedItems (targetOffnum spaceRequired : Nat) (rows : List RowPtr) : List ItemIdSort :=
  (liveRows rows).map fun (row, index) =>
    { offsetindex := index
      itemoff := row.offset
      alignedlen := areaLength targetOffnum spaceRequired index row % 65536 }

/-- The order of `Itemoffcompare`: from the last tuple to the first. -/
def sortItems (items : List ItemIdSort) : List ItemIdSort :=
  items.mergeSort fun first second => decide (second.itemoff ≤ first.itemoff)

/-- The place of the next tuple, the line pointers and the bytes while tuples are moved. -/
structure Moving where
  curr : Nat
  rows : List RowPtr
  bytes : Nat → UInt8

/-- The line pointers with the tuple of one at another place. -/
def setOffset (rows : List RowPtr) (index offset : Nat) : List RowPtr :=
  rows.modify index fun row => { row with offset }

/-- One round of the loop in `CompactifyTuples`. -/
def moveItem (state : Moving) (item : ItemIdSort) : Moving :=
  let curr := state.curr - item.alignedlen
  { curr
    rows := setOffset state.rows item.offsetindex curr
    bytes := pwrite state.bytes curr (pread state.bytes item.itemoff item.alignedlen) }

/-- `CompactifyTuples`. The loop goes over the items from the last tuple to the first and leaves out
the one at the target, which was saved and is copied behind the loop. -/
def compactifyTuples (items : List ItemIdSort) (state : Moving) (targetOffnum : Nat) : Moving :=
  let sorted := sortItems items
  let moved := (sorted.filter fun item => item.offsetindex + 1 ≠ targetOffnum).foldl moveItem state
  if targetOffnum = 0 then moved
  else
    match state.rows[targetOffnum - 1]? with
    | some row =>
      let newTupleLen := ((sorted.find? fun item =>
        item.offsetindex + 1 = targetOffnum).map ItemIdSort.alignedlen).getD 0
      let curr := moved.curr - newTupleLen
      { curr
        rows := setOffset moved.rows (targetOffnum - 1) curr
        bytes := pwrite moved.bytes curr (pread state.bytes row.offset row.len) }
    | none => moved

/-- A page after the repair. -/
structure RepairedPage where
  rows : List RowPtr
  pdUpper : Nat
  hasFreeLines : Bool
  bytes : Nat → UInt8

/-- `UPageRepairFragmentation`; none when the page is reported as corrupted. The checks of
`pd_lower` hold by the invariant of the header. -/
def uPageRepairFragmentation (page : DataPage) (targetOffnum spaceRequired : Nat) :
    Option RepairedPage :=
  let header := page.header
  if page.pdSpecial < header.pdUpper ∨ blockSize < page.pdSpecial ∨ page.pdSpecial % 8 ≠ 0 then none
  else if header.rows.any (fun row => row.isLive &&
      decide (row.offset < header.pdUpper ∨ page.pdSpecial ≤ row.offset)) then none
  else
    let items := storedItems targetOffnum spaceRequired header.rows
    let rows := header.rows.map clearUnused
    let hasFreeLines := header.rows.any fun row => !row.isUsed
    if items = [] then some { rows, pdUpper := page.pdSpecial, hasFreeLines, bytes := page.bytes }
    else if page.pdSpecial - header.pdLower < (items.map ItemIdSort.alignedlen).sum then none
    else
      let after := compactifyTuples items { curr := page.pdSpecial, rows, bytes := page.bytes }
        targetOffnum
      some { rows := after.rows, pdUpper := after.curr, hasFreeLines, bytes := after.bytes }

/-- Every item has its place below the start, and the areas fill the space down to the place of the
next tuple. -/
structure Packed (items : List ItemIdSort) (state after : Moving) (place : Nat → Nat) : Prop where
  space : after.curr + (items.map ItemIdSort.alignedlen).sum = state.curr
  rows : ∀ index row, state.rows[index]? = some row → after.rows[index]? = some
    (if index ∈ items.map ItemIdSort.offsetindex then { row with offset := place index } else row)
  inside : ∀ item ∈ items, after.curr ≤ place item.offsetindex ∧
    place item.offsetindex + item.alignedlen ≤ state.curr
  count : after.rows.length = state.rows.length

/-- What a run of moves did. -/
structure Moved (items : List ItemIdSort) (state after : Moving) (place : Nat → Nat) : Prop
    extends Packed items state after place where
  apart : items.Pairwise fun first second =>
    place second.offsetindex + second.alignedlen ≤ place first.offsetindex
  bytes : ∀ item ∈ items, pread after.bytes (place item.offsetindex) item.alignedlen =
    pread state.bytes item.itemoff item.alignedlen
  untouched : ∀ byte, byte < after.curr ∨ state.curr ≤ byte → after.bytes byte = state.bytes byte

/-- The tuples are moved to the end one by one. -/
theorem foldl_moveItem {items : List ItemIdSort} (state : Moving)
    (sorted : items.Pairwise fun first second =>
      second.itemoff + second.alignedlen ≤ first.itemoff)
    (distinct : items.Pairwise fun first second => first.offsetindex ≠ second.offsetindex)
    (below : ∀ item ∈ items, item.itemoff + item.alignedlen ≤ state.curr) :
    ∃ place, Moved items state (items.foldl moveItem state) place := by
  induction items generalizing state with
  | nil =>
    exact ⟨id, ⟨rfl, fun _ _ found => found, fun item member => (nomatch member), rfl⟩,
      List.Pairwise.nil, fun item member => (nomatch member), fun _ _ => rfl⟩
  | cons head rest ih =>
    obtain ⟨ahead, sorted⟩ := pairwise_cons.mp sorted
    obtain ⟨others, distinct⟩ := pairwise_cons.mp distinct
    have room := below head mem_cons_self
    obtain ⟨place, moved⟩ := ih (moveItem state head) sorted distinct (fun item member => by
      have before := ahead item member
      simp only [moveItem]
      omega)
    have start : (moveItem state head).curr + head.alignedlen = state.curr := by
      simp only [moveItem]
      omega
    have space := moved.space
    have kept (item : ItemIdSort) (member : item ∈ rest) :
        update place head.offsetindex (moveItem state head).curr item.offsetindex =
          place item.offsetindex :=
      update_of_ne (others item member).symm _ _
    have first : update place head.offsetindex (moveItem state head).curr
        head.offsetindex = (moveItem state head).curr :=
      update_self _ _ _
    have length : (pread state.bytes head.itemoff head.alignedlen).length = head.alignedlen :=
      pread_length _ _ _
    refine ⟨update place head.offsetindex (moveItem state head).curr, ⟨⟨?_,
      fun index row found => ?_, fun item member => ?_, ?_⟩, pairwise_cons.mpr
      ⟨fun item member => ?_, moved.apart.imp_of_mem fun {one two} inOne inTwo before => ?_⟩,
      fun item member => ?_, fun byte outside => ?_⟩⟩
    · rw [foldl_cons, map_cons, sum_cons]
      lia
    · have here : (moveItem state head).rows[index]? = some (if head.offsetindex = index then
          { row with offset := (moveItem state head).curr } else row) := by
        simp only [moveItem, setOffset]
        rw [getElem?_modify, found]
        split_ifs <;> rfl
      rw [foldl_cons, moved.rows index _ here, map_cons]
      by_cases isHead : head.offsetindex = index
      · subst isHead
        have absent : head.offsetindex ∉ rest.map ItemIdSort.offsetindex := by
          intro member
          obtain ⟨item, inRest, equal⟩ := mem_map.mp member
          exact others item inRest equal.symm
        rw [if_pos rfl, if_neg absent, if_pos mem_cons_self, first]
      · have same : index ∈ head.offsetindex :: rest.map ItemIdSort.offsetindex ↔
            index ∈ rest.map ItemIdSort.offsetindex :=
          mem_cons.trans (or_iff_right (Ne.symm isHead))
        rw [if_neg isHead, update_of_ne (Ne.symm isHead)]
        simp only [same]
    · rcases mem_cons.mp member with rfl | later
      · rw [foldl_cons]
        omega
      · have bounds := moved.inside item later
        rw [kept item later, foldl_cons]
        lia
    · rw [foldl_cons, moved.count]
      exact length_modify _ _ _
    · rw [first, kept item member]
      exact (moved.inside item member).2
    · rw [kept one inOne, kept two inTwo]
      exact before
    · rw [foldl_cons]
      rcases mem_cons.mp member with rfl | later
      · rw [first, pread_congr _ (moveItem state item).bytes _ _
          (fun byte low _ => moved.untouched byte (.inr low))]
        have written := pread_pwrite state.bytes (moveItem state item).curr
          (pread state.bytes item.itemoff item.alignedlen)
        rw [length] at written
        exact written
      · have before := ahead item later
        rw [kept item later, moved.bytes item later]
        refine pread_pwrite_apart _ (.inl ?_)
        lia
    · rw [foldl_cons] at outside ⊢
      rw [moved.untouched byte (by lia)]
      refine pwrite_apart _ ?_
      lia

/-- The areas of two items do not overlap. -/
def Apart (place : Nat → Nat) (first second : ItemIdSort) : Prop :=
  place first.offsetindex + first.alignedlen ≤ place second.offsetindex ∨
    place second.offsetindex + second.alignedlen ≤ place first.offsetindex

instance (place : Nat → Nat) : Std.Symm (Apart place) := ⟨fun _ _ before => before.symm⟩

/-- What the compaction did with the tuples of the items, in terms of the line pointers. -/
structure Settled (items : List ItemIdSort) (state after : Moving) (place : Nat → Nat) : Prop
    extends Packed items state after place where
  apart : ∀ first ∈ items, ∀ second ∈ items, first.offsetindex ≠ second.offsetindex →
    Apart place first second
  bytes : ∀ item ∈ items, ∀ row, state.rows[item.offsetindex]? = some row →
    item.itemoff = row.offset → row.len ≤ item.alignedlen →
      pread after.bytes (place item.offsetindex) row.len = pread state.bytes row.offset row.len

theorem Moved.settled {items : List ItemIdSort} {state after : Moving} {place : Nat → Nat}
    (moved : Moved items state after place) : Settled items state after place := by
  refine ⟨moved.toPacked, fun first one second two differ => ?_,
    fun item member row _ start length => ?_⟩
  · have either : items.Pairwise (Apart place) := moved.apart.imp .inr
    exact either.forall one two (fun same => differ (by rw [same]))
  · have same := moved.bytes item member
    rw [← Nat.add_sub_cancel' length, pread_add, pread_add] at same
    rw [← start]
    exact append_inj_left same (by rw [pread_length, pread_length])

/-- The lengths without the target. -/
theorem sum_without {items : List ItemIdSort} {target : ItemIdSort} (member : target ∈ items)
    (distinct : items.Pairwise fun first second => first.offsetindex ≠ second.offsetindex) :
    ((items.filter fun item => item.offsetindex + 1 ≠ target.offsetindex + 1).map
      ItemIdSort.alignedlen).sum + target.alignedlen = (items.map ItemIdSort.alignedlen).sum := by
  induction items with
  | nil => exact nomatch member
  | cons head rest ih =>
    obtain ⟨others, distinct⟩ := pairwise_cons.mp distinct
    rw [map_cons, sum_cons]
    rcases mem_cons.mp member with rfl | later
    · rw [filter_cons_of_neg (by simp), filter_eq_self.mpr fun item inRest => by
        simpa using (others item inRest).symm]
      exact Nat.add_comm _ _
    · rw [filter_cons_of_pos (by simpa using others target later), map_cons,
        sum_cons, ← ih later distinct, Nat.add_assoc]

theorem Settled.perm {first second : List ItemIdSort} {state after : Moving} {place : Nat → Nat}
    (settled : Settled first state after place) (same : first.Perm second) :
    Settled second state after place := by
  refine ⟨⟨?_, fun index row found => ?_,
    fun item member => settled.inside item (same.mem_iff.mpr member), settled.count⟩,
    fun one inOne two inTwo =>
      settled.apart one (same.mem_iff.mpr inOne) two (same.mem_iff.mpr inTwo),
    fun item member => settled.bytes item (same.mem_iff.mpr member)⟩
  · rw [← (same.map _).sum_eq]
    exact settled.space
  · simp only [← (same.map ItemIdSort.offsetindex).mem_iff]
    exact settled.rows index row found

/-- The target is settled last. -/
theorem settled_target {items : List ItemIdSort} {state moved : Moving} {place : Nat → Nat}
    {target : ItemIdSort} {row : RowPtr} (member : target ∈ items)
    (distinct : (items.map ItemIdSort.offsetindex).Nodup)
    (fits : (items.map ItemIdSort.alignedlen).sum ≤ state.curr)
    (here : state.rows[target.offsetindex]? = some row) (length : row.len ≤ target.alignedlen)
    (others : Moved (items.filter fun item => item.offsetindex + 1 ≠ target.offsetindex + 1)
      state moved place) :
    Settled items state
      { curr := moved.curr - target.alignedlen
        rows := setOffset moved.rows target.offsetindex (moved.curr - target.alignedlen)
        bytes := pwrite moved.bytes (moved.curr - target.alignedlen)
          (pread state.bytes row.offset row.len) }
      (update place target.offsetindex (moved.curr - target.alignedlen)) := by
  have sum := sum_without member (pairwise_map.mp distinct)
  have space := others.space
  have first : update place target.offsetindex (moved.curr - target.alignedlen)
      target.offsetindex = moved.curr - target.alignedlen :=
    update_self _ _ _
  have split (item : ItemIdSort) (inItems : item ∈ items) : item = target ∨
      item.offsetindex ≠ target.offsetindex ∧
        item ∈ items.filter fun item => item.offsetindex + 1 ≠ target.offsetindex + 1 := by
    by_cases same : item.offsetindex = target.offsetindex
    · exact .inl (inj_on_of_nodup_map distinct inItems member same)
    · exact .inr ⟨same, mem_filter.mpr ⟨inItems, by simpa using same⟩⟩
  have saved : (pread state.bytes row.offset row.len).length = row.len := pread_length _ _ _
  refine ⟨⟨?_, fun index old found => ?_, fun item inItems => ?_,
    (length_modify _ _ _).trans others.count⟩, fun one inOne two inTwo differ => ?_,
    fun item inItems old found start short => ?_⟩
  · dsimp only
    omega
  · have moves := others.rows index old found
    simp only [setOffset]
    rw [getElem?_modify, moves, Option.map_eq_map, Option.map_some]
    by_cases isTarget : target.offsetindex = index
    · subst isTarget
      rw [if_pos rfl, if_pos (mem_map_of_mem member), first]
      split_ifs <;> rfl
    · have same : index ∈ (items.filter fun item =>
          item.offsetindex + 1 ≠ target.offsetindex + 1).map ItemIdSort.offsetindex ↔
            index ∈ items.map ItemIdSort.offsetindex := by
        simp only [mem_map]
        refine ⟨fun ⟨item, inMoves, isIndex⟩ => ⟨item, mem_of_mem_filter inMoves, isIndex⟩,
          fun ⟨item, inItems, isIndex⟩ => ⟨item, ?_, isIndex⟩⟩
        rcases split item inItems with rfl | ⟨-, inMoves⟩
        · exact absurd isIndex isTarget
        · exact inMoves
      rw [if_neg isTarget, update_of_ne (Ne.symm isTarget)]
      simp only [same]
  · rcases split item inItems with rfl | ⟨differ, inMoves⟩
    · dsimp only
      omega
    · have bounds := others.inside item inMoves
      rw [update_of_ne differ]
      lia
  · unfold Apart
    rcases split one inOne with rfl | ⟨oneDiffers, oneMoves⟩
    · rcases split two inTwo with rfl | ⟨twoDiffers, twoMoves⟩
      · exact absurd rfl differ
      · have bounds := others.inside two twoMoves
        rw [update_of_ne twoDiffers]
        lia
    · rcases split two inTwo with rfl | ⟨twoDiffers, twoMoves⟩
      · have bounds := others.inside one oneMoves
        rw [update_of_ne oneDiffers]
        lia
      · rw [update_of_ne oneDiffers, update_of_ne twoDiffers]
        exact others.settled.apart one oneMoves two twoMoves differ
  · rcases split item inItems with rfl | ⟨differ, inMoves⟩
    · rw [here, Option.some_inj] at found
      subst found
      rw [first]
      have written := pread_pwrite moved.bytes (moved.curr - item.alignedlen)
        (pread state.bytes row.offset row.len)
      rw [saved] at written
      exact written
    · have bounds := others.inside item inMoves
      rw [update_of_ne differ, pread_pwrite_apart _ (.inr (by lia))]
      exact others.settled.bytes item inMoves old found start short

/-- All tuples are settled. -/
theorem compactifyTuples_settled {items : List ItemIdSort} (state : Moving) (targetOffnum : Nat)
    (distinct : (items.map ItemIdSort.offsetindex).Nodup)
    (meaning : ∀ item ∈ items, ∃ row, state.rows[item.offsetindex]? = some row ∧
      item.itemoff = row.offset ∧ row.len ≤ item.alignedlen)
    (ordered : ∀ first ∈ items, ∀ second ∈ items, first.offsetindex ≠ second.offsetindex →
      second.offsetindex + 1 ≠ targetOffnum → second.itemoff ≤ first.itemoff →
        second.itemoff + second.alignedlen ≤ first.itemoff)
    (below : ∀ item ∈ items, item.offsetindex + 1 ≠ targetOffnum →
      item.itemoff + item.alignedlen ≤ state.curr)
    (target : targetOffnum ≠ 0 → ∃ item ∈ items, item.offsetindex + 1 = targetOffnum)
    (fits : (items.map ItemIdSort.alignedlen).sum ≤ state.curr) :
    ∃ place, Settled items state (compactifyTuples items state targetOffnum) place := by
  have same : (sortItems items).Perm items := mergeSort_perm _ _
  have distinctSorted : ((sortItems items).map ItemIdSort.offsetindex).Nodup :=
    (same.map _).nodup_iff.mpr distinct
  have descending : (sortItems items).Pairwise fun first second =>
      decide (second.itemoff ≤ first.itemoff) = true :=
    pairwise_mergeSort (fun _ _ _ one two => decide_eq_true
        ((of_decide_eq_true two).trans (of_decide_eq_true one)))
      (fun one two => by simpa using Nat.le_total two.itemoff one.itemoff) items
  have kept (item : ItemIdSort) (member : item ∈ (sortItems items).filter fun item =>
      item.offsetindex + 1 ≠ targetOffnum) : item ∈ items ∧ item.offsetindex + 1 ≠ targetOffnum :=
    ⟨same.mem_iff.mp (mem_of_mem_filter member), by simpa using of_mem_filter member⟩
  obtain ⟨place, moved⟩ := foldl_moveItem state
    (((descending.and (pairwise_map.mp distinctSorted)).filter _).imp_of_mem
      fun {first second} one two before => ordered first (kept first one).1 second
        (kept second two).1 before.2 (kept second two).2 (of_decide_eq_true before.1))
    ((pairwise_map.mp distinctSorted).filter _)
    (fun item member => below item (kept item member).1 (kept item member).2)
  simp only [compactifyTuples]
  by_cases none : targetOffnum = 0
  · rw [if_pos none]
    refine ⟨place, Settled.perm ?_ same⟩
    have all : (sortItems items).filter (fun item => item.offsetindex + 1 ≠ targetOffnum) =
        sortItems items :=
      filter_eq_self.mpr fun item _ => by simp [none]
    rw [all] at moved ⊢
    exact moved.settled
  · cases found : (sortItems items).find? fun item => item.offsetindex + 1 = targetOffnum with
    | none =>
      obtain ⟨item, member, isTarget⟩ := target none
      have absent := find?_eq_none.mp found item (same.mem_iff.mpr member)
      exact absurd (decide_eq_true isTarget) absent
    | some item =>
      have isTarget : item.offsetindex + 1 = targetOffnum := by simpa using find?_some found
      have member := mem_of_find?_eq_some found
      subst isTarget
      obtain ⟨row, here, start, short⟩ := meaning item (same.mem_iff.mp member)
      rw [Nat.add_sub_cancel, here]
      refine ⟨_, (settled_target member distinctSorted ?_ here short moved).perm same⟩
      rw [(same.map _).sum_eq]
      exact fits

/-- The line pointer at an index, if it refers to a tuple. -/
def DataPage.Live (page : DataPage) (index : Nat) (row : RowPtr) : Prop :=
  page.header.rows[index]? = some row ∧ row.isLive = true

/-- A compacted page: every tuple has its bytes in an area of its own, and the areas fill the space
in front of `pd_special`. -/
structure Compacted (page : DataPage) (targetOffnum spaceRequired : Nat) (after : RepairedPage) :
    Prop where
  lower : page.header.pdLower ≤ after.pdUpper
  packed : after.pdUpper + totalLength targetOffnum spaceRequired page.header.rows = page.pdSpecial
  room : ∀ row, targetOffnum ≠ 0 → page.Live (targetOffnum - 1) row →
    row.len + spaceRequired ≤ areaLength targetOffnum spaceRequired (targetOffnum - 1) row
  tuples : ∃ place : Nat → Nat, (∀ index row, page.Live index row →
      after.rows[index]? = some { row with offset := place index } ∧
      pread after.bytes (place index) row.len = pread page.bytes row.offset row.len ∧
      after.pdUpper ≤ place index ∧
        place index + areaLength targetOffnum spaceRequired index row ≤ page.pdSpecial) ∧
    ∀ first second row other, first ≠ second → page.Live first row → page.Live second other →
      place first + areaLength targetOffnum spaceRequired first row ≤ place second ∨
        place second + areaLength targetOffnum spaceRequired second other ≤ place first
  others : after.rows.length = page.header.rows.length ∧
    ∀ (index : Nat) (row : RowPtr), page.header.rows[index]? = some row → row.isLive = false →
      after.rows[index]? =
        some (if row.isUsed then row else { flags := .unused, offset := 0, len := 0 })

theorem mem_liveRows (rows : List RowPtr) (row : RowPtr) (index : Nat) :
    (row, index) ∈ liveRows rows ↔ rows[index]? = some row ∧ row.isLive = true := by
  rw [liveRows, mem_filter, mem_zipIdx_iff_getElem?]

theorem le_areaLength (targetOffnum spaceRequired index : Nat) (row : RowPtr) :
    row.len ≤ areaLength targetOffnum spaceRequired index row := by
  unfold areaLength shortAlign
  split_ifs <;> lia

theorem storedItems_eq {targetOffnum spaceRequired : Nat} {rows : List RowPtr}
    (small : totalLength targetOffnum spaceRequired rows < 65536) :
    storedItems targetOffnum spaceRequired rows = (liveRows rows).map fun (row, index) =>
      { offsetindex := index
        itemoff := row.offset
        alignedlen := areaLength targetOffnum spaceRequired index row } := by
  refine map_congr_left fun (row, index) member => ?_
  have bound : areaLength targetOffnum spaceRequired index row ≤
      totalLength targetOffnum spaceRequired rows :=
    single_le_sum (fun _ _ => Nat.zero_le _) _ (mem_map.mpr ⟨_, member, rfl⟩)
  dsimp only
  rw [Nat.mod_eq_of_lt (lt_of_le_of_lt bound small)]

theorem clearUnused_live {row : RowPtr} (live : row.isLive = true) : clearUnused row = row := by
  rw [RowPtr.isLive, Bool.and_eq_true] at live
  exact if_pos live.1

theorem DataPage.Live.stores {page : DataPage} {index : Nat} {row : RowPtr}
    (live : page.Live index row) : page.Stores index row := by
  refine ⟨live.1, ?_⟩
  have both := live.2
  rw [RowPtr.isLive, Bool.and_eq_true] at both
  exact both.2

/-- The compaction of a valid page on which everything fits keeps every tuple. -/
theorem compaction_keeps_tuples (page : DataPage) (valid : page.Valid)
    (targetOffnum spaceRequired : Nat)
    (target : targetOffnum ≠ 0 → ∃ row, page.Live (targetOffnum - 1) row)
    (fits : page.header.pdLower + totalLength targetOffnum spaceRequired page.header.rows ≤
      page.pdSpecial) :
    ∃ after, uPageRepairFragmentation page targetOffnum spaceRequired = some after ∧
      Compacted page targetOffnum spaceRequired after := by
  obtain ⟨⟨upper, block, aligned⟩, inside, apart⟩ := valid
  have small : totalLength targetOffnum spaceRequired page.header.rows < 65536 := by
    unfold blockSize at block
    omega
  have items := storedItems_eq small
  have member (item : ItemIdSort)
      (isItem : item ∈ storedItems targetOffnum spaceRequired page.header.rows) : ∃ row,
        page.Live item.offsetindex row ∧ item.itemoff = row.offset ∧
          item.alignedlen = areaLength targetOffnum spaceRequired item.offsetindex row := by
    rw [items] at isItem
    obtain ⟨⟨row, index⟩, live, rfl⟩ := mem_map.mp isItem
    exact ⟨row, (mem_liveRows _ _ _).mp live, rfl, rfl⟩
  have isItem (index : Nat) (row : RowPtr) (live : page.Live index row) :
      { offsetindex := index, itemoff := row.offset,
        alignedlen := areaLength targetOffnum spaceRequired index row } ∈
          storedItems targetOffnum spaceRequired page.header.rows := by
    rw [items]
    exact mem_map.mpr ⟨(row, index), (mem_liveRows _ _ _).mpr live, rfl⟩
  have sum : ((storedItems targetOffnum spaceRequired page.header.rows).map
      ItemIdSort.alignedlen).sum = totalLength targetOffnum spaceRequired page.header.rows := by
    rw [items, map_map]
    rfl
  have distinct : ((storedItems targetOffnum spaceRequired page.header.rows).map
      ItemIdSort.offsetindex).Nodup := by
    rw [items, map_map]
    have indexes : (page.header.rows.zipIdx.map Prod.snd).Nodup := by
      rw [zipIdx_map_snd]
      exact nodup_range' _
    exact indexes.sublist (filter_sublist.map _)
  have found (index : Nat) (row : RowPtr) (here : page.header.rows[index]? = some row) :
      (page.header.rows.map clearUnused)[index]? = some (clearUnused row) := by
    rw [getElem?_map, here, Option.map_some]
  have kept (index : Nat) (row : RowPtr) (live : page.Live index row) :
      (page.header.rows.map clearUnused)[index]? = some row := by
    rw [found index row live.1, clearUnused_live live.2]
  have ends (index : Nat) (row : RowPtr) (live : page.Live index row)
      (other : index + 1 ≠ targetOffnum) : row.offset +
        areaLength targetOffnum spaceRequired index row = row.offset + (row.len + 1) / 2 * 2 := by
    rw [areaLength, if_neg other, shortAlign]
  obtain ⟨place, settled⟩ := compactifyTuples_settled
    { curr := page.pdSpecial, rows := page.header.rows.map clearUnused, bytes := page.bytes }
    targetOffnum distinct
    (fun item isItem => by
      obtain ⟨row, live, start, length⟩ := member item isItem
      exact ⟨row, kept _ row live, start, length ▸ le_areaLength _ _ _ row⟩)
    (fun first one second two differ other before => by
      obtain ⟨row, live, start, length⟩ := member first one
      obtain ⟨later, alive, placed, area⟩ := member second two
      have bounds := inside _ row live.stores
      have below := inside _ later alive.stores
      have either := apart _ _ row later differ live.stores alive.stores
      have stored : 0 < row.len ∧ 0 < later.len :=
        ⟨of_decide_eq_true live.stores.2, of_decide_eq_true alive.stores.2⟩
      rw [placed, area, ends _ later alive other]
      omega)
    (fun item isItem other => by
      obtain ⟨row, live, start, length⟩ := member item isItem
      have bounds := inside _ row live.stores
      rw [start, length, ends _ row live other]
      dsimp only
      omega)
    (fun given => by
      obtain ⟨row, live⟩ := target given
      exact ⟨_, isItem _ row live, by dsimp only; omega⟩)
    (by
      dsimp only
      omega)
  have space := settled.space
  rw [sum] at space
  dsimp only at space
  have run : uPageRepairFragmentation page targetOffnum spaceRequired =
      let after := compactifyTuples (storedItems targetOffnum spaceRequired page.header.rows)
        { curr := page.pdSpecial, rows := page.header.rows.map clearUnused, bytes := page.bytes }
        targetOffnum
      some
        { rows := after.rows
          pdUpper := after.curr
          hasFreeLines := page.header.rows.any fun row => !row.isUsed
          bytes := after.bytes } := by
    simp only [uPageRepairFragmentation]
    rw [if_neg (by omega), if_neg]
    · split_ifs with empty many
      · rw [empty]
        have none : targetOffnum = 0 := by
          by_contra given
          obtain ⟨row, live⟩ := target given
          exact absurd (isItem _ row live) (by rw [empty]; exact not_mem_nil)
        subst none
        simp [compactifyTuples, sortItems]
      · omega
      · rfl
    · rw [Bool.not_eq_true, any_eq_false]
      intro row isRow bad
      rw [Bool.and_eq_true, decide_eq_true_eq] at bad
      obtain ⟨index, here⟩ := mem_iff_getElem?.mp isRow
      have live : page.Live index row := ⟨here, bad.1⟩
      have stores := live.stores
      have bounds := inside index row stores
      have stored : 0 < row.len := of_decide_eq_true stores.2
      omega
  refine ⟨_, run, by dsimp only; omega, space, fun row given live => ?_, ⟨place,
    fun index row live => ⟨?_, ?_, ?_⟩, fun first second row other differ one two => ?_⟩,
    settled.count.trans (length_map _), fun index row here dead => ?_⟩
  · rw [areaLength, if_pos (by omega), shortAlign]
    omega
  · have moved := settled.rows index row (kept index row live)
    rwa [if_pos (mem_map.mpr ⟨_, isItem index row live, rfl⟩)] at moved
  · exact settled.bytes _ (isItem index row live) row (kept index row live) rfl
      (le_areaLength _ _ _ row)
  · exact settled.inside _ (isItem index row live)
  · exact settled.apart _ (isItem first row one) _ (isItem second other two) differ
  · have moved := settled.rows index _ (found index row here)
    rw [if_neg] at moved
    · exact moved
    · intro isIndex
      obtain ⟨item, isStored, rfl⟩ := mem_map.mp isIndex
      obtain ⟨live, alive, -⟩ := member item isStored
      have equal := here.symm.trans alive.1
      rw [Option.some_inj] at equal
      rw [equal, alive.2] at dead
      exact absurd dead (by decide)

/-- A page with four tuples, the line pointers of which are out of order, and with an unused and a
dead line pointer. -/
def scatteredPage : DataPage where
  header :=
    { tdCount := 4
      hasFreeLines := false
      rows := [{ flags := .normal, offset := 8100, len := 20 }, { flags := .unused, offset := 0, len := 0 },
        { flags := .normal, offset := 8170, len := 21 }, { flags := .normal, offset := 8000, len := 63 },
        { flags := .dead, offset := 0, len := 0 }, { flags := .normal, offset := 8130, len := 5 }]
      pdUpper := 8000
      lower_le := by decide
      upper_even := by decide }
  pdSpecial := 8192
  potentialFreespace := 100
  bytes := fun place => UInt8.ofNat place

/-- The first tuple of the page, which stands between the others, gets 40 bytes more. -/
theorem compaction_keeps_tuples_scattered :
    ∃ after, uPageRepairFragmentation scatteredPage 1 40 = some after ∧
      Compacted scatteredPage 1 40 after :=
  compaction_keeps_tuples scatteredPage
    (DataPage.valid_of_rows (by decide) (by decide) (by decide)) 1 40
    (fun _ => ⟨_, rfl, rfl⟩) (by decide)

end OpenGauss.Ustore
