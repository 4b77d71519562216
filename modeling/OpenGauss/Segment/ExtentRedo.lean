import OpenGauss.Segment.ExtentAllocator

/-!
# Replay of the extent allocator's log

Allocations and frees log the map page they change, and the map head with its counters and the
`free_page` of one group only, the current one. This module embeds the redo functions and
compares the replayed map with that of the primary: they agree in every run in which no free pulls
back the `free_page` of a group behind the current one.
-/
namespace OpenGauss.Segment

open Option List OpenGauss.Base

/-- The fields of a logged page header on a page with new bits. -/
def MapPage.withHeader (page : MapPage) (header : MapPageHeader) (bitmap : Nat → Bool) :
    MapPage :=
  { page with
    dirtyLast := header.dirtyLast
    freeBegin := header.freeBegin
    freeBits := header.freeBits
    bitmap }

/-- Redo of one record; the server stops when the record does not fit the page. -/
def redoSegRecord (seg : SegExtentGroup) : SegRecord → Option SegExtentGroup
  -- `redo_init_map_page`
  | .initMapPage block firstPage =>
    some (seg.setMapPage block (egInitBitmapPageContent firstPage))
  -- `redo_add_new_group`
  | .addNewGroup firstMapPageno groupCount groupSize =>
    let group : MapGroup :=
      { firstMap := firstMapPageno
        freePage := 0
        pageCount := groupSize }
    some { seg with mapHead := { seg.mapHead with
      groupCount
      groups := fun index =>
        if index = groupCount - 1 then group else seg.mapHead.groups index } }
  -- `redo_set_bitmap`
  | .setBitmap block bitid header =>
    let page := seg.mapPage block
    if page.firstPage ≠ header.firstPage then none
    else if page.bitmap bitid = true then none
    else
      let newPage := page.withHeader header (writeBit page.bitmap bitid true)
      let target := wrap32 (page.firstPage + seg.extentSize * bitid + seg.extentSize)
      some (dfExtend (seg.setMapPage block newPage) target)
  -- `redo_unset_bitmap`
  | .freeBitmap block bitid header =>
    let page := seg.mapPage block
    if page.firstPage ≠ header.firstPage then none
    else if page.bitmap bitid = false then none
    else
      some (seg.setMapPage block (page.withHeader header (writeBit page.bitmap bitid false)))
  -- `redo_maphead_allocated_extents`
  | .mapheadAllocatedExtents hwm allocatedExtents freeGroup freePage =>
    some { seg with mapHead := { seg.mapHead.setFreePage freeGroup freePage with
      allocatedExtents
      freeGroup
      highWaterMark := hwm } }

/-- Redo of a list of records in order. -/
def redoSegRecords : SegExtentGroup → List SegRecord → Option SegExtentGroup
  | seg, [] => some seg
  | seg, record :: rest => (redoSegRecord seg record).bind fun next => redoSegRecords next rest

variable (firstPage bound : Nat) (seg : SegExtentGroup) (preassignedBlock : Option Nat)

theorem redoSegRecords_append (first second : List SegRecord) :
    redoSegRecords seg (first ++ second) =
      (redoSegRecords seg first).bind fun next => redoSegRecords next second := by
  induction first generalizing seg with
  | nil => rfl
  | cons record rest ih =>
    rw [cons_append, redoSegRecords, redoSegRecords]
    cases redoSegRecord seg record with
    | none => rfl
    | some next => exact ih next

/-- The two extent groups have the same map. -/
structure SameMap (first second : SegExtentGroup) : Prop where
  extentSize : first.extentSize = second.extentSize
  mapHead : first.mapHead = second.mapHead
  mapPage : first.mapPage = second.mapPage

/-- The records that lead from one state of the primary to another, replayed on a copy of the
first one's map, give the second one's. -/
def Replayed (before after : SegExtentGroup) : Prop :=
  ∃ records, after.wal = before.wal ++ records ∧
    ∀ copy, SameMap copy before → ∃ result, redoSegRecords copy records = some result ∧
      SameMap result after

theorem Replayed.refl (before after : SegExtentGroup) (wal : after.wal = before.wal)
    (same : SameMap before after) : Replayed before after := by
  refine ⟨[], by rw [wal, append_nil], ?_⟩
  intro copy agrees
  exact ⟨copy, rfl, agrees.extentSize.trans same.extentSize, agrees.mapHead.trans same.mapHead,
    agrees.mapPage.trans same.mapPage⟩

theorem Replayed.trans {first second third : SegExtentGroup} (front : Replayed first second)
    (back : Replayed second third) : Replayed first third := by
  obtain ⟨frontRecords, frontWal, frontReplay⟩ := front
  obtain ⟨backRecords, backWal, backReplay⟩ := back
  refine ⟨frontRecords ++ backRecords, by rw [backWal, frontWal, append_assoc], ?_⟩
  intro copy agrees
  obtain ⟨middle, replayed, sameMiddle⟩ := frontReplay copy agrees
  obtain ⟨last, ended, sameLast⟩ := backReplay middle sameMiddle
  refine ⟨last, ?_, sameLast⟩
  rw [redoSegRecords_append, replayed]
  exact ended

/-- The map pages of a new group are replayed. -/
theorem redo_initMapPages (copy : SegExtentGroup) (pageno : Nat) (firstPage : Nat → Nat)
    (count : Nat) :
    redoSegRecords copy ((List.range count).map fun index =>
      SegRecord.initMapPage (pageno + index) (firstPage index)) =
      some { copy with mapPage := fun block =>
        if pageno ≤ block ∧ block < pageno + count then
          egInitBitmapPageContent (firstPage (block - pageno))
        else copy.mapPage block } := by
  induction count with
  | zero =>
    have same : (fun block => if pageno ≤ block ∧ block < pageno + 0 then
        egInitBitmapPageContent (firstPage (block - pageno)) else copy.mapPage block) =
        copy.mapPage := by
      funext block
      rw [if_neg (by omega)]
    rw [range_zero, map_nil, redoSegRecords, same]
  | succ count ih =>
    rw [range_succ, map_append, redoSegRecords_append, ih]
    simp only [map_cons, map_nil, redoSegRecords, redoSegRecord, bind_some,
      SegExtentGroup.setMapPage]
    congr 2
    funext block
    by_cases last : block = pageno + count
    · rw [if_pos last, if_pos (by omega), last, Nat.add_sub_cancel_left]
    · rw [if_neg last]
      by_cases inside : pageno ≤ block ∧ block < pageno + count
      · rw [if_pos inside, if_pos (by omega)]
      · rw [if_neg inside, if_neg (by lia)]

theorem egAddMapGroup_replayed (pageno : Nat) : Replayed seg (egAddMapGroup seg pageno) := by
  refine ⟨_, append_assoc _ _ _, ?_⟩
  intro copy agrees
  rw [redoSegRecords_append, redo_initMapPages]
  refine ⟨_, rfl, agrees.extentSize, ?_, ?_⟩
  · simp only [egAddMapGroup, agrees.mapHead, Nat.add_sub_cancel]
  · simp only [egAddMapGroup, agrees.mapPage]

/-- An allocation from a map page is replayed. -/
theorem egAllocExtentFromMapInternal_replayed
    {block bitid mapGroup freePage : Nat} (clear : (seg.mapPage block).bitmap bitid = false)
    {pagenum : Nat} {after : SegExtentGroup}
    (done : egAllocExtentFromMapInternal seg block bitid mapGroup freePage =
      .allocated pagenum after) : Replayed seg after := by
  simp only [egAllocExtentFromMapInternal] at done
  split at done
  · simp at done
  · obtain ⟨-, same⟩ := Attempt.allocated.inj done
    subst same
    refine ⟨_, rfl, ?_⟩
    intro copy agrees
    have first : ¬(copy.mapPage block).firstPage ≠
        (egSetBitmapPage (seg.mapPage block) bitid).header.firstPage := by
      rw [agrees.mapPage]
      exact fun differ => differ rfl
    have free : ¬(copy.mapPage block).bitmap bitid = true := by
      rw [agrees.mapPage, clear]
      simp
    simp only [redoSegRecords, redoSegRecord]
    rw [if_neg first, if_neg free]
    refine ⟨_, rfl, agrees.extentSize, ?_, ?_⟩
    · simp only [dfExtend, SegExtentGroup.setMapPage, agrees.mapHead]
    · simp only [SegExtentGroup.setMapPage, agrees.mapPage]
      rfl

/-- The bit that is found is clear. -/
theorem searchPages_clear (mapGroup remaining mapId : Nat) (location : SpaceMapLocation)
    (found : searchPages seg mapGroup remaining mapId = some location) :
    seg.used location = false := by
  induction remaining generalizing mapId with
  | zero => simp [searchPages] at found
  | succ remaining ih =>
    rw [searchPages] at found
    split at found
    · rename_i bit here
      rw [some.injEq] at found
      rw [← found]
      unfold freeBit at here
      split at here
      · simp at here
      · exact (firstClear_some _ _ _ _ here).2.2.1
    · exact ih (mapId + 1) found

theorem searchGroups_clear (remaining mapGroup : Nat)
    (location : SpaceMapLocation) (found : searchGroups seg remaining mapGroup = some location) :
    seg.used location = false := by
  induction remaining generalizing mapGroup with
  | zero => simp [searchGroups] at found
  | succ remaining ih =>
    rw [searchGroups] at found
    split at found
    · rename_i here
      rw [some.injEq] at found
      subst found
      exact searchPages_clear seg mapGroup _ _ _ here
    · exact ih (mapGroup + 1) found

/-- An allocation is replayed. -/
theorem egTryAllocExtent_replayed {pagenum : Nat} {after : SegExtentGroup}
    (done : egTryAllocExtent seg preassignedBlock = .allocated pagenum after) :
    Replayed seg after := by
  cases preassignedBlock with
  | none =>
    simp only [egTryAllocExtent] at done
    split at done
    · rename_i location found
      exact egAllocExtentFromMapInternal_replayed seg
        (searchGroups_clear seg _ _ location found) done
    · split at done <;> simp at done
  | some preassigned =>
    simp only [egTryAllocExtent] at done
    split at done
    · rename_i inner result allocated
      obtain ⟨-, same⟩ := Attempt.allocated.inj done
      rw [← same]
      simp only [egAllocPreassignedBlock] at allocated
      split at allocated
      · simp at allocated
      · split at allocated
        · rename_i clear
          exact egAllocExtentFromMapInternal_replayed seg clear allocated
        · simp at allocated
    · rename_i other
      exact absurd done (other _ _)

theorem allocRound_replayed : Replayed seg (allocRound seg preassignedBlock).2 := by
  have ready : Replayed seg (ensureMapGroup seg) := by
    unfold ensureMapGroup
    split
    · exact egAddMapGroup_replayed seg _
    · exact Replayed.refl seg seg rfl ⟨rfl, rfl, rfl⟩
  apply Replayed.trans ready
  simp only [allocRound]
  split
  · rename_i block after done
    exact egTryAllocExtent_replayed _ preassignedBlock done
  · exact Replayed.refl _ _ rfl ⟨rfl, rfl, rfl⟩
  · exact egAddMapGroup_replayed _ _
  · exact Replayed.refl _ _ rfl ⟨rfl, rfl, rfl⟩

/-- The log tells everything about a free: the extent lies in a group up to the current one, or
its map page does not lie before its group's cursor. -/
def CursorLogged (seg : SegExtentGroup) : ExtentEvent → Prop
  | .alloc _ => True
  | .free blocknum =>
    let location := egLocateMapByPageid seg blocknum
    location.mapGroup ≤ seg.mapHead.freeGroup ∨
      (seg.mapHead.groups location.mapGroup).freePage ≤ location.mapId

/-- The cursor is set as it is logged. -/
theorem setFreePage_logged {head : MapHead} {mapGroup mapId : Nat}
    (logged : mapGroup ≤ head.freeGroup ∨ (head.groups mapGroup).freePage ≤ mapId) :
    let freeGroup := if mapGroup < head.freeGroup then mapGroup else head.freeGroup
    let freePage := if mapId < (head.groups mapGroup).freePage then mapId
      else (head.groups mapGroup).freePage
    (head.setFreePage freeGroup ((head.setFreePage mapGroup freePage).groups freeGroup).freePage) =
      head.setFreePage mapGroup freePage := by
  intro freeGroup freePage
  have same (index : Nat) :
      head.setFreePage index (head.groups index).freePage = head := by
    have groups : (fun other => if other = index then
        { head.groups other with freePage := (head.groups index).freePage }
        else head.groups other) = head.groups := by
      funext other
      by_cases here : other = index
      · rw [if_pos here, here]
      · rw [if_neg here]
    rw [MapHead.setFreePage, groups]
  by_cases current : freeGroup = mapGroup
  · rw [current]
    simp [MapHead.setFreePage]
  · have behind : (head.groups mapGroup).freePage ≤ mapId := by
      rcases logged with before | kept
      · exfalso
        apply current
        simp only [freeGroup]
        split <;> omega
      · exact kept
    have page : freePage = (head.groups mapGroup).freePage := if_neg (by omega)
    rw [page, same mapGroup, same freeGroup]

/-- A free whose cursor is logged is replayed. -/
theorem egFreeExtent_replayed {seg after : SegExtentGroup} {blocknum : Nat}
    (logged : CursorLogged seg (.free blocknum))
    (freed : egFreeExtent seg blocknum = some after) : Replayed seg after := by
  simp only [egFreeExtent] at freed
  split at freed
  · simp at freed
  · have cursor := setFreePage_logged logged
    generalize egLocateMapByPageid seg blocknum = location at freed cursor
    split at freed
    · simp at freed
    · rename_i set
      rw [some.injEq] at freed
      subst freed
      refine ⟨_, rfl, ?_⟩
      intro copy agrees
      have first : ¬(copy.mapPage (location.group.firstMap + location.mapId)).firstPage ≠
          (egUnsetBitmapPage (seg.mapPage (location.group.firstMap + location.mapId))
            location.bitId).header.firstPage := by
        rw [agrees.mapPage]
        exact fun differ => differ rfl
      have used : ¬(copy.mapPage (location.group.firstMap + location.mapId)).bitmap
          location.bitId = false := by
        rw [agrees.mapPage]
        exact set
      simp only [redoSegRecords, redoSegRecord]
      rw [if_neg first, if_neg used]
      refine ⟨_, rfl, agrees.extentSize, ?_, ?_⟩
      · simp only [SegExtentGroup.setMapPage, agrees.mapHead]
        rw [cursor]
      · simp only [SegExtentGroup.setMapPage, agrees.mapPage]
        rfl

/-- Replaying the log of a run in which every free is logged, from the state the run started in,
gives the map head and the map pages of the primary. -/
theorem extent_log_replays_map (start : SegExtentGroup) (events : List ExtentEvent)
    (logged : Along extentStep CursorLogged start events) :
    ∃ records result, (events.foldl extentStep start).wal = start.wal ++ records ∧
      redoSegRecords start records = some result ∧
      result.mapHead = (events.foldl extentStep start).mapHead ∧
      result.mapPage = (events.foldl extentStep start).mapPage := by
  have run : Replayed start (events.foldl extentStep start) := by
    refine along_invariant extentStep CursorLogged (Replayed start) ?_ start events
      (Replayed.refl start start rfl ⟨rfl, rfl, rfl⟩) logged
    intro seg event before step
    apply Replayed.trans before
    cases event with
    | alloc preassignedBlock => exact allocRound_replayed seg preassignedBlock
    | free blocknum =>
      simp only [extentStep]
      cases freed : egFreeExtent seg blocknum with
      | none => exact Replayed.refl seg seg rfl ⟨rfl, rfl, rfl⟩
      | some after => exact egFreeExtent_replayed step freed
  obtain ⟨records, wal, replay⟩ := run
  obtain ⟨result, replayed, same⟩ := replay start ⟨rfl, rfl, rfl⟩
  exact ⟨records, result, wal, replayed, same.mapHead, same.mapPage⟩

/-- An allocation and a free of the extent again, replayed. -/
theorem extent_log_replays_map_one_extent :
    (([.alloc none, .free 4157] : List ExtentEvent).foldl extentStep
      emptyExtentGroup).mapHead.highWaterMark = 4158 ∧
    ∃ records result, (([.alloc none, .free 4157] : List ExtentEvent).foldl extentStep
        emptyExtentGroup).wal = emptyExtentGroup.wal ++ records ∧
      redoSegRecords emptyExtentGroup records = some result ∧
      result.mapHead = (([.alloc none, .free 4157] : List ExtentEvent).foldl extentStep
        emptyExtentGroup).mapHead ∧
      result.mapPage = (([.alloc none, .free 4157] : List ExtentEvent).foldl extentStep
        emptyExtentGroup).mapPage := by
  refine ⟨by decide, extent_log_replays_map emptyExtentGroup
    [.alloc none, .free 4157] ⟨trivial, ?_, trivial⟩⟩
  exact .inl (by decide)

/-- A full map page. -/
def fullMapPage (firstPage : Nat) : MapPage :=
  { firstPage
    freeBegin := dfMapBitCnt
    dirtyLast := dfMapBitCnt - 1
    freeBits := 0
    bitmap := fun _ => true }

/-- Two groups of one-block extents. The first group is full but for its first extent, which was
freed and made it the current group again; of the second group the first map page is full. -/
def twoGroups : SegExtentGroup :=
  { extentSize := 1
    mapHead :=
      { bitUnit := 1
        groupCount := 2
        freeGroup := 0
        allocatedExtents := 4241119
        highWaterMark := 4249431
        groups := fun index =>
          if index = 0 then { firstMap := 3, freePage := 0, pageCount := 64 }
          else { firstMap := 4180029, freePage := 1, pageCount := 64 } }
    mapPage := fun block =>
      if block = 3 then egUnsetBitmapPage (fullMapPage 4157) 0
      else if block < 67 then fullMapPage (4157 + (block - 3) * 65248)
      else if block = 4180029 then fullMapPage 4184183
      else egInitBitmapPageContent (4184183 + (block - 4180029) * 65248)
    totalBlocks := 4259840
    wal := [] }

theorem fullMapPage_ok (firstPage : Nat) : PageOk (fullMapPage firstPage) := by
  refine ⟨?_, fun _ _ => rfl, le_rfl⟩
  simp only [fullMapPage, Nat.zero_add]
  exact (setBits_eq_iff _ _).mpr (fun _ _ => rfl)

theorem twoGroups_pageOf (mapId : Nat) (inside : mapId < dfMapGroupSize) :
    (twoGroups.pageOf 0 mapId = if mapId = 0 then egUnsetBitmapPage (fullMapPage 4157) 0
      else fullMapPage (4157 + mapId * 65248)) ∧
    (twoGroups.pageOf 1 mapId = if mapId = 0 then fullMapPage 4184183
      else egInitBitmapPageContent (4184183 + mapId * 65248)) := by
  obtain ⟨-, size, -, -, -, -⟩ := map_constants
  have block : twoGroups.mapBlock 0 mapId = 3 + mapId := rfl
  have block' : twoGroups.mapBlock 1 mapId = 4180029 + mapId := rfl
  rw [SegExtentGroup.pageOf, SegExtentGroup.pageOf, block, block']
  simp only [twoGroups]
  constructor
  · by_cases first : mapId = 0
    · rw [if_pos (by lia), if_pos first]
    · rw [if_neg (by lia), if_pos (by lia), if_neg first, Nat.add_sub_cancel_left]
  · rw [if_neg (by lia), if_neg (by lia)]
    by_cases first : mapId = 0
    · rw [if_pos (by lia), if_pos first]
    · rw [if_neg (by lia), if_neg first, Nat.add_sub_cancel_left]

theorem twoGroups_pages (mapGroup : Nat) (present : mapGroup < 2) (mapId : Nat)
    (inside : mapId < dfMapGroupSize) :
    PageOk (twoGroups.pageOf mapGroup mapId) ∧ (twoGroups.pageOf mapGroup mapId).firstPage =
      wrap32 (extentStart 1 { mapGroup, mapId, bitId := 0 }) := by
  obtain ⟨-, size, -, -, -, -⟩ := map_constants
  rw [extentStart_eq]
  have pages := twoGroups_pageOf mapId (by omega)
  have group : mapGroup = 0 ∨ mapGroup = 1 := by lia
  have partly : PageOk (egUnsetBitmapPage (fullMapPage 4157) 0) :=
    egUnsetBitmapPage_ok _ (fullMapPage_ok 4157) 0 (by decide) rfl
  rcases group with rfl | rfl
  · rw [pages.1]
    split
    · rename_i first
      exact ⟨partly, by rw [first]; rfl⟩
    · refine ⟨fullMapPage_ok _, ?_⟩
      simp only [fullMapPage, wrap32]
      lia
  · rw [pages.2]
    split
    · rename_i first
      exact ⟨fullMapPage_ok _, by rw [first]; rfl⟩
    · refine ⟨egInitBitmapPageContent_ok _, ?_⟩
      simp only [egInitBitmapPageContent, wrap32]
      lia

theorem usedExtents_two (count : seg.mapHead.groupCount = 2) (first rest first' rest' : Nat)
    (front : setBits (seg.pageOf 0 0).bitmap dfMapBitCnt = first)
    (others : ∀ mapId < 63, setBits (seg.pageOf 0 (mapId + 1)).bitmap dfMapBitCnt = rest)
    (front' : setBits (seg.pageOf 1 0).bitmap dfMapBitCnt = first')
    (others' : ∀ mapId < 63, setBits (seg.pageOf 1 (mapId + 1)).bitmap dfMapBitCnt = rest') :
    seg.usedExtents = first + 63 * rest + (first' + 63 * rest') := by
  have pages : dfMapGroupSize = 63 + 1 := rfl
  rw [SegExtentGroup.usedExtents, count, Finset.sum_range_succ, Finset.sum_range_one, pages]
  rw [sum_range_first (fun mapId => setBits (seg.pageOf 0 mapId).bitmap dfMapBitCnt) 63 first rest
    front others]
  rw [sum_range_first (fun mapId => setBits (seg.pageOf 1 mapId).bitmap dfMapBitCnt) 63 first'
    rest' front' others']

theorem setBits_fullMapPage : setBits (fullMapPage firstPage).bitmap bound = bound :=
  (setBits_eq_iff _ _).mpr (fun _ _ => rfl)

theorem setBits_unset_fullMapPage (some : 0 < bound) :
    setBits (egUnsetBitmapPage (fullMapPage firstPage) 0).bitmap bound = bound - 1 := by
  have cleared := setBits_writeBit_false (fullMapPage firstPage).bitmap some rfl
  rw [setBits_fullMapPage] at cleared
  simp only [egUnsetBitmapPage]
  omega

theorem twoGroups_usedExtents : twoGroups.usedExtents = 4241119 := by
  obtain ⟨-, size, bits, -, -, -⟩ := map_constants
  have total := usedExtents_two twoGroups rfl 65247 65248 65248 0
  rw [total]
  · rw [(twoGroups_pageOf 0 (by decide)).1, if_pos rfl,
      setBits_unset_fullMapPage 4157 dfMapBitCnt (by decide), bits]
  · intro mapId below
    rw [(twoGroups_pageOf (mapId + 1) (by omega)).1, if_neg (by omega), setBits_fullMapPage, bits]
  · rw [(twoGroups_pageOf 0 (by decide)).2, if_pos rfl, setBits_fullMapPage, bits]
  · intro mapId below
    rw [(twoGroups_pageOf (mapId + 1) (by omega)).2]
    exact setBits_clear _

theorem twoGroups_invariant : ExtentInvariant twoGroups := by
  obtain ⟨-, size, bits, -, -, -⟩ := map_constants
  have split (mapGroup : Nat) (present : mapGroup < twoGroups.mapHead.groupCount) :
      mapGroup = 0 ∨ mapGroup = 1 := by
    change mapGroup < 2 at present
    lia
  refine
    { unit := by decide
      bitUnit := rfl
      fileMin := by decide
      fileMax := by decide
      layout := ?layout
      starts := ?starts
      pages := twoGroups_pages
      freePage := ?freePage
      freeGroup := fun mapGroup below => absurd below (Nat.not_lt_zero mapGroup)
      cursor := .inl (by decide)
      allocated := twoGroups_usedExtents.symm
      inside := ?inside }
  case layout =>
    intro mapGroup present
    rcases split mapGroup present with rfl | rfl
    · decide
    · decide
  case starts =>
    intro mapGroup present
    rcases split mapGroup present with rfl | rfl
    · decide
    · decide
  case freePage =>
    intro mapGroup present mapId below
    rcases split mapGroup present with rfl | rfl
    · exact absurd below (Nat.not_lt_zero mapId)
    · change mapId < 1 at below
      rw [(twoGroups_pageOf mapId (by omega)).2, if_pos (by omega)]
      exact fun _ _ => rfl
  case inside =>
    intro location inside used
    change extentStart 1 location + 1 ≤ 4259840 ∧ extentStart 1 location + 1 ≤ 4249431
    have page := inside.page
    have bit := inside.bit
    rw [extentStart_eq]
    rcases split location.mapGroup inside.group with group | group
    · lia
    · have first : location.mapId = 0 := by
        by_contra later
        rw [SegExtentGroup.used, group, (twoGroups_pageOf _ inside.page).2, if_neg later] at used
        simp [egInitBitmapPageContent] at used
      lia

/-- A free in the second group pulls back its cursor on the primary. The log carries the cursor
of the first group, and the replayed map head keeps the old cursor. -/
theorem extent_log_misses_cursor : ExtentInvariant twoGroups ∧
    twoGroups.used { mapGroup := 1, mapId := 0, bitId := 0 } = true ∧
    ∃ result, redoSegRecords twoGroups (extentStep twoGroups (.free 4184183)).wal = some result ∧
      (result.mapHead.groups 1).freePage = 1 ∧
      ((extentStep twoGroups (.free 4184183)).mapHead.groups 1).freePage = 0 ∧
      result.mapHead ≠ (extentStep twoGroups (.free 4184183)).mapHead := by
  have replayed : ((redoSegRecords twoGroups (extentStep twoGroups (.free 4184183)).wal).map
      fun result => (result.mapHead.groups 1).freePage) = some 1 := by
    decide
  have primary : ((extentStep twoGroups (.free 4184183)).mapHead.groups 1).freePage = 0 := by
    decide
  rw [map_eq_some_iff] at replayed
  obtain ⟨result, done, cursor⟩ := replayed
  refine ⟨twoGroups_invariant, by decide, result, done, cursor, primary, ?_⟩
  intro same
  rw [same] at cursor
  exact absurd cursor (by decide)

end OpenGauss.Segment
