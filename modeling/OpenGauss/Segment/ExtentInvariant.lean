import OpenGauss.Segment.ExtentGroup
import OpenGauss.Base.Run

/-!
# The extent allocator's invariant

The cursors of an extent group are hints: an allocation moves them forward over full map pages
and full groups only, and a free pulls them back. This module states what they promise, where
in the file a location of the map lies, and that no two extents in use overlap, and carries
the statement through every sequence of allocations and frees.
-/
namespace OpenGauss.Segment

open OpenGauss.Base

/-- The sizes extents have. -/
def ExtentSizes : List Nat := [1, 8, 128, 1024, 8192]

/-- Where a map group starts. -/
def groupStart (unit index : Nat) : Nat :=
  dfMapHeadPage + 1 + index * (dfMapGroupSize + ipblockGroupSize + dfMapGroupExtents * unit)

/-- Where the extents of a map group start. -/
def dataStart (unit index : Nat) : Nat :=
  groupStart unit index + dfMapGroupSize + ipblockGroupSize

/-- Where the extent of a location starts. -/
def extentStart (unit : Nat) (location : SpaceMapLocation) : Nat :=
  dataStart unit location.mapGroup + (location.mapId * dfMapBitCnt + location.bitId) * unit

/-- The location is one of the map. -/
structure InMap (seg : SegExtentGroup) (location : SpaceMapLocation) : Prop where
  group : location.mapGroup < seg.mapHead.groupCount
  page : location.mapId < dfMapGroupSize
  bit : location.bitId < dfMapBitCnt

/-- The map page of a location. -/
def SegExtentGroup.pageOf (seg : SegExtentGroup) (mapGroup mapId : Nat) : MapPage :=
  seg.mapPage (seg.mapBlock mapGroup mapId)

/-- The extent of a location is in use. -/
def SegExtentGroup.used (seg : SegExtentGroup) (location : SpaceMapLocation) : Bool :=
  (seg.pageOf location.mapGroup location.mapId).bitmap location.bitId

/-- All bits of a map page are set. -/
def MapPage.Full (page : MapPage) : Prop := ∀ bit < dfMapBitCnt, page.bitmap bit = true

/-- The fields of a map page agree with its bits. -/
structure PageOk (page : MapPage) : Prop where
  /-- `free_bits` counts the clear bits. -/
  freeBits : page.freeBits + setBits page.bitmap dfMapBitCnt = dfMapBitCnt
  /-- The bits below `free_begin` are set. -/
  freeBegin : ∀ bit < page.freeBegin, page.bitmap bit = true
  /-- `free_begin` is a position or the end. -/
  bounded : page.freeBegin ≤ dfMapBitCnt

/-- The number of set bits over all groups. -/
def SegExtentGroup.usedExtents (seg : SegExtentGroup) : Nat :=
  ∑ mapGroup ∈ Finset.range seg.mapHead.groupCount, ∑ mapId ∈ Finset.range dfMapGroupSize,
    setBits (seg.pageOf mapGroup mapId).bitmap dfMapBitCnt

/-- What holds of an extent group between any two operations. -/
structure ExtentInvariant (seg : SegExtentGroup) : Prop where
  unit : seg.extentSize ∈ ExtentSizes
  bitUnit : seg.mapHead.bitUnit = seg.extentSize
  fileMin : dfFileExtendStepBlocks ≤ seg.totalBlocks
  fileMax : seg.totalBlocks + dfFileExtendStepBlocks ≤ 4294967296
  layout : ∀ mapGroup < seg.mapHead.groupCount,
    (seg.mapHead.groups mapGroup).firstMap = groupStart seg.extentSize mapGroup ∧
      (seg.mapHead.groups mapGroup).pageCount = dfMapGroupSize ∧
      (seg.mapHead.groups mapGroup).freePage < dfMapGroupSize
  starts : ∀ mapGroup < seg.mapHead.groupCount,
    dataStart seg.extentSize mapGroup + 8192 < 4294967296
  pages : ∀ mapGroup < seg.mapHead.groupCount, ∀ mapId < dfMapGroupSize,
    PageOk (seg.pageOf mapGroup mapId) ∧ (seg.pageOf mapGroup mapId).firstPage =
      wrap32 (extentStart seg.extentSize { mapGroup, mapId, bitId := 0 })
  freePage : ∀ mapGroup < seg.mapHead.groupCount,
    ∀ mapId < (seg.mapHead.groups mapGroup).freePage, (seg.pageOf mapGroup mapId).Full
  freeGroup : ∀ mapGroup < seg.mapHead.freeGroup, ∀ mapId < dfMapGroupSize,
    (seg.pageOf mapGroup mapId).Full
  cursor : seg.mapHead.freeGroup < seg.mapHead.groupCount ∨
    seg.mapHead.freeGroup = 0 ∧ seg.mapHead.groupCount = 0
  /-- `allocated_extents` counts the extents in use. -/
  allocated : seg.mapHead.allocatedExtents = seg.usedExtents
  inside : ∀ location, InMap seg location → seg.used location = true →
    extentStart seg.extentSize location + seg.extentSize ≤ seg.totalBlocks ∧
      extentStart seg.extentSize location + seg.extentSize ≤ seg.mapHead.highWaterMark

/-- The layout of the map: the groups follow each other in the file, and the map pages know where
their extents start. -/
structure MapLayout (seg : SegExtentGroup) : Prop where
  unit : seg.extentSize ∈ ExtentSizes
  bitUnit : seg.mapHead.bitUnit = seg.extentSize
  firstMap : ∀ mapGroup < seg.mapHead.groupCount,
    (seg.mapHead.groups mapGroup).firstMap = groupStart seg.extentSize mapGroup
  starts : ∀ mapGroup < seg.mapHead.groupCount,
    dataStart seg.extentSize mapGroup + 8192 < 4294967296
  firstPage : ∀ mapGroup < seg.mapHead.groupCount, ∀ mapId < dfMapGroupSize,
    (seg.pageOf mapGroup mapId).firstPage =
      wrap32 (extentStart seg.extentSize { mapGroup, mapId, bitId := 0 })

theorem ExtentInvariant.mapLayout {seg : SegExtentGroup} (invariant : ExtentInvariant seg) :
    MapLayout seg :=
  { unit := invariant.unit
    bitUnit := invariant.bitUnit
    firstMap := fun mapGroup present => (invariant.layout mapGroup present).1
    starts := invariant.starts
    firstPage := fun mapGroup present mapId inside =>
      (invariant.pages mapGroup present mapId inside).2 }

/-! ## Places in the file -/

theorem map_constants : dfMapHeadPage = 2 ∧ dfMapGroupSize = 64 ∧ dfMapBitCnt = 65248 ∧
    dfMapGroupExtents = 4175872 ∧ ipblockGroupSize = 4090 ∧ dfFileExtendStepBlocks = 16384 := by
  decide

variable (page : MapPage) (unit : Nat) (first second : SpaceMapLocation)
  (location : SpaceMapLocation) (seg : SegExtentGroup) (mapGroup remaining mapId : Nat)

theorem extentStart_eq :
    extentStart unit location = 4157 + location.mapGroup * (4154 + 4175872 * unit) +
      (location.mapId * 65248 + location.bitId) * unit := by
  obtain ⟨head, size, bits, extents, ip, -⟩ := map_constants
  rw [extentStart, dataStart, groupStart, bits, extents]
  lia

theorem dataStart_eq (unit index : Nat) :
    dataStart unit index = 4157 + index * (4154 + 4175872 * unit) := by
  obtain ⟨head, size, -, extents, ip, -⟩ := map_constants
  rw [dataStart, groupStart, extents]
  lia

theorem groupStart_eq (unit index : Nat) :
    groupStart unit index = 3 + index * (4154 + 4175872 * unit) := by
  obtain ⟨head, size, -, extents, ip, -⟩ := map_constants
  rw [groupStart, head, size, extents, ip]

theorem groupStart_succ (unit index : Nat) :
    groupStart unit (index + 1) = dataStart unit index + 4175872 * unit := by
  rw [groupStart_eq, dataStart_eq]
  lia

theorem groupStart_le (unit first second : Nat) (before : first < second) :
    dataStart unit first + 4175872 * unit ≤ groupStart unit second := by
  rw [← groupStart_succ, groupStart_eq, groupStart_eq]
  have next : first + 1 ≤ second := before
  have scaled := Nat.mul_le_mul_right (4154 + 4175872 * unit) next
  omega

theorem extentStart_lt
    (page : location.mapId < dfMapGroupSize) (bit : location.bitId < dfMapBitCnt) :
    extentStart unit location + unit ≤ dataStart unit location.mapGroup + 4175872 * unit := by
  obtain ⟨-, size, bits, -, -, -⟩ := map_constants
  have index : location.mapId * 65248 + location.bitId + 1 ≤ 4175872 := by lia
  have scaled := Nat.mul_le_mul_right unit index
  rw [extentStart, bits]
  lia

theorem dataStart_le : dataStart unit location.mapGroup ≤ extentStart unit location :=
  Nat.le_add_right _ _

/-- The location comes before the other one in the order of the map. -/
def SpaceMapLocation.Before (first second : SpaceMapLocation) : Prop :=
  first.mapGroup < second.mapGroup ∨ first.mapGroup = second.mapGroup ∧
    (first.mapId < second.mapId ∨ first.mapId = second.mapId ∧ first.bitId < second.bitId)

/-- Extents in order start in order. -/
theorem extentStart_before (page : first.mapId < dfMapGroupSize) (bit : first.bitId < dfMapBitCnt)
    (before : first.Before second) : extentStart unit first + unit ≤ extentStart unit second := by
  rcases before with group | ⟨sameGroup, later⟩
  · calc
      extentStart unit first + unit ≤ dataStart unit first.mapGroup + 4175872 * unit :=
        extentStart_lt unit first page bit
      _ ≤ groupStart unit second.mapGroup := groupStart_le unit _ _ group
      _ ≤ dataStart unit second.mapGroup := by rw [dataStart]; lia
      _ ≤ extentStart unit second := dataStart_le unit second
  · obtain ⟨-, -, bits, -, -, -⟩ := map_constants
    have index : first.mapId * 65248 + first.bitId + 1 ≤ second.mapId * 65248 + second.bitId := by
      lia
    have scaled := Nat.mul_le_mul_right unit index
    rw [extentStart, extentStart, sameGroup, bits]
    lia

theorem SpaceMapLocation.before_or_after
    (differ : first ≠ second) : first.Before second ∨ second.Before first := by
  rcases Nat.lt_trichotomy first.mapGroup second.mapGroup with group | group | group
  · exact .inl (.inl group)
  · rcases Nat.lt_trichotomy first.mapId second.mapId with page | page | page
    · exact .inl (.inr ⟨group, .inl page⟩)
    · rcases Nat.lt_trichotomy first.bitId second.bitId with bit | bit | bit
      · exact .inl (.inr ⟨group, .inr ⟨page, bit⟩⟩)
      · exfalso
        cases first
        simp_all
      · exact .inr (.inr ⟨group.symm, .inr ⟨page.symm, bit⟩⟩)
    · exact .inr (.inr ⟨group.symm, .inl page⟩)
  · exact .inr (.inl group)

/-- Map pages have different blocks. -/
theorem mapBlock_inj {group page group' page' : Nat}
    (inside : page < dfMapGroupSize) (inside' : page' < dfMapGroupSize)
    (same : groupStart unit group + page = groupStart unit group' + page') :
    group = group' ∧ page = page' := by
  have apart (first second : Nat) (before : first < second) :
      groupStart unit first + dfMapGroupSize ≤ groupStart unit second := by
    have later := groupStart_le unit first second before
    rw [dataStart] at later
    lia
  rcases Nat.lt_trichotomy group group' with before | equal | after
  · have distance := apart group group' before
    omega
  · lia
  · have distance := apart group' group after
    omega

/-! ## The search for a free extent -/

theorem freeBit_some (ok : PageOk page) (bit : Nat) (found : freeBit page = some bit) :
    bit < dfMapBitCnt ∧ page.bitmap bit = false ∧ ∀ other < bit, page.bitmap other = true := by
  unfold freeBit at found
  split at found
  · simp at found
  · obtain ⟨-, below, clear, skipped⟩ := firstClear_some _ _ _ _ found
    have bounded := ok.bounded
    refine ⟨by omega, clear, ?_⟩
    intro other before
    by_cases hinted : other < page.freeBegin
    · exact ok.freeBegin other hinted
    · exact skipped other (by omega) before

theorem freeBit_none (ok : PageOk page) (missing : freeBit page = none) : page.Full := by
  unfold freeBit at missing
  split at missing
  · rename_i empty
    have count := ok.freeBits
    rw [empty, Nat.zero_add] at count
    exact (setBits_eq_iff _ _).mp count
  · intro bit below
    by_cases hinted : bit < page.freeBegin
    · exact ok.freeBegin bit hinted
    · exact firstClear_none _ _ _ missing bit (by omega) (by omega)

/-- The page that is found is the first that is not full. -/
theorem searchPages_some (location : SpaceMapLocation)
    (ok : ∀ page, mapId ≤ page → page < mapId + remaining → PageOk (seg.pageOf mapGroup page))
    (found : searchPages seg mapGroup remaining mapId = some location) :
    location.mapGroup = mapGroup ∧ mapId ≤ location.mapId ∧ location.mapId < mapId + remaining ∧
      freeBit (seg.pageOf mapGroup location.mapId) = some location.bitId ∧
      ∀ page, mapId ≤ page → page < location.mapId → (seg.pageOf mapGroup page).Full := by
  induction remaining generalizing mapId with
  | zero => simp [searchPages] at found
  | succ remaining ih =>
    rw [searchPages] at found
    split at found
    · rename_i bit here
      rw [Option.some.injEq] at found
      subst found
      exact ⟨rfl, le_rfl, by simp, here, fun page reached below => by simp at below; omega⟩
    · rename_i missing
      obtain ⟨group, after, before, bit, skipped⟩ := ih (mapId + 1)
        (fun page reached below => ok page (by omega) (by omega)) found
      refine ⟨group, by omega, by omega, bit, ?_⟩
      intro page reached below
      by_cases here : page = mapId
      · rw [here]
        exact freeBit_none _ (ok mapId le_rfl (by omega)) missing
      · exact skipped page (by omega) below

/-- If none is found, all pages are full. -/
theorem searchPages_none
    (ok : ∀ page, mapId ≤ page → page < mapId + remaining → PageOk (seg.pageOf mapGroup page))
    (missing : searchPages seg mapGroup remaining mapId = none) {page : Nat}
    (reached : mapId ≤ page) (below : page < mapId + remaining) :
    (seg.pageOf mapGroup page).Full := by
  induction remaining generalizing mapId with
  | zero => omega
  | succ remaining ih =>
    rw [searchPages] at missing
    split at missing
    · simp at missing
    · rename_i none
      by_cases here : page = mapId
      · rw [here]
        exact freeBit_none _ (ok mapId le_rfl (by omega)) none
      · exact ih (mapId + 1) (fun other after before => ok other (by omega) (by omega)) missing
          (by omega) (by omega)

/-- All map pages of a group are full. -/
def GroupFull (seg : SegExtentGroup) (mapGroup : Nat) : Prop :=
  ∀ mapId < dfMapGroupSize, (seg.pageOf mapGroup mapId).Full

theorem ExtentInvariant.searched (invariant : ExtentInvariant seg)
    (mapGroup : Nat) (present : mapGroup < seg.mapHead.groupCount) (page : Nat)
    (below : page < (seg.mapHead.groups mapGroup).freePage +
      ((seg.mapHead.groups mapGroup).pageCount - (seg.mapHead.groups mapGroup).freePage)) :
    PageOk (seg.pageOf mapGroup page) := by
  have layout := invariant.layout mapGroup present
  exact (invariant.pages mapGroup present page (by omega)).1

theorem ExtentInvariant.groupFull (invariant : ExtentInvariant seg)
    (mapGroup : Nat) (present : mapGroup < seg.mapHead.groupCount)
    (missing : searchPages seg mapGroup
      ((seg.mapHead.groups mapGroup).pageCount - (seg.mapHead.groups mapGroup).freePage)
      (seg.mapHead.groups mapGroup).freePage = none) : GroupFull seg mapGroup := by
  have layout := invariant.layout mapGroup present
  intro page below
  by_cases hinted : page < (seg.mapHead.groups mapGroup).freePage
  · exact invariant.freePage mapGroup present page hinted
  · exact searchPages_none seg mapGroup _ _
      (fun page _ below => invariant.searched seg mapGroup present page below) missing
      (by omega) (by omega)

/-- The group that is found is the first that is not full. -/
theorem searchGroups_some (invariant : ExtentInvariant seg)
    (remaining start : Nat) (location : SpaceMapLocation)
    (bounded : start + remaining ≤ seg.mapHead.groupCount)
    (found : searchGroups seg remaining start = some location) :
    InMap seg location ∧ freeBit (seg.pageOf location.mapGroup location.mapId) =
      some location.bitId ∧
      (∀ group, start ≤ group → group < location.mapGroup → GroupFull seg group) ∧
      ∀ page < location.mapId, (seg.pageOf location.mapGroup page).Full := by
  induction remaining generalizing start with
  | zero => simp [searchGroups] at found
  | succ remaining ih =>
    have layout := invariant.layout start (by omega)
    have ok := invariant.searched seg start (by omega)
    rw [searchGroups] at found
    split at found
    · rename_i here
      rw [Option.some.injEq] at found
      subst found
      obtain ⟨group, after, before, bit, skipped⟩ :=
        searchPages_some seg start _ _ _ (fun page _ below => ok page below) here
      rw [group]
      have inside := freeBit_some _ (ok _ before) _ bit
      refine ⟨⟨by omega, by omega, inside.1⟩, bit, fun group reached below => by omega, ?_⟩
      intro page below
      by_cases hinted : page < (seg.mapHead.groups start).freePage
      · exact invariant.freePage start (by lia) page hinted
      · exact skipped page (by omega) below
    · rename_i none
      obtain ⟨inside, bit, skipped, pages⟩ := ih (start + 1) (by omega) found
      refine ⟨inside, bit, ?_, pages⟩
      intro group reached below
      by_cases here : group = start
      · rw [here]
        exact invariant.groupFull seg start (by lia) none
      · exact skipped group (by lia) below

/-- If none is found, all groups are full. -/
theorem searchGroups_none (invariant : ExtentInvariant seg)
    (remaining start : Nat) (bounded : start + remaining ≤ seg.mapHead.groupCount)
    (missing : searchGroups seg remaining start = none) (group : Nat) (reached : start ≤ group)
    (below : group < start + remaining) : GroupFull seg group := by
  induction remaining generalizing start with
  | zero => omega
  | succ remaining ih =>
    rw [searchGroups] at missing
    split at missing
    · simp at missing
    · rename_i none
      by_cases here : group = start
      · rw [here]
        exact invariant.groupFull seg start (by lia) none
      · exact ih (start + 1) (by omega) missing (by omega) (by omega)

/-- Every location before the given one is in use. -/
def FirstFree (seg : SegExtentGroup) (location : SpaceMapLocation) : Prop :=
  ∀ other, InMap seg other → other.Before location → seg.used other = true

/-- The extent that is found is the first free one. -/
theorem searchFree_some (invariant : ExtentInvariant seg)
    {location : SpaceMapLocation} (found : searchFree seg = some location) :
    InMap seg location ∧ seg.used location = false ∧ FirstFree seg location ∧
      (∀ group < location.mapGroup, GroupFull seg group) ∧
      ∀ page < location.mapId, (seg.pageOf location.mapGroup page).Full := by
  have cursor := invariant.cursor
  obtain ⟨inside, bit, groups, pages⟩ :=
    searchGroups_some seg invariant _ _ location (by omega) found
  have ok := (invariant.pages location.mapGroup inside.group location.mapId inside.page).1
  obtain ⟨-, clear, bits⟩ := freeBit_some _ ok _ bit
  have full (group : Nat) (below : group < location.mapGroup) : GroupFull seg group := by
    by_cases hinted : group < seg.mapHead.freeGroup
    · exact invariant.freeGroup group hinted
    · exact groups group (by omega) below
  refine ⟨inside, clear, ?_, full, pages⟩
  intro other otherInside before
  rcases before with group | ⟨sameGroup, page | ⟨samePage, bit⟩⟩
  · exact full other.mapGroup group other.mapId otherInside.page other.bitId otherInside.bit
  · rw [SegExtentGroup.used, sameGroup]
    exact pages other.mapId page other.bitId otherInside.bit
  · rw [SegExtentGroup.used, sameGroup, samePage]
    exact bits other.bitId bit

theorem searchFree_none (invariant : ExtentInvariant seg)
    (missing : searchFree seg = none) (location : SpaceMapLocation)
    (inside : InMap seg location) : seg.used location = true := by
  by_cases hinted : location.mapGroup < seg.mapHead.freeGroup
  · exact invariant.freeGroup location.mapGroup hinted location.mapId inside.page location.bitId
      inside.bit
  · have group := inside.group
    exact searchGroups_none seg invariant _ _ (by omega) missing location.mapGroup (by omega)
      (by omega) location.mapId inside.page location.bitId inside.bit

/-! ## The operations keep the invariant -/

variable {unit}

theorem extentSize_bounds (known : unit ∈ ExtentSizes) : 0 < unit ∧ unit ≤ 8192 := by
  simp only [ExtentSizes, List.mem_cons, List.not_mem_nil] at known
  lia

theorem ExtentInvariant.mapBlock {seg : SegExtentGroup} (invariant : ExtentInvariant seg)
    {mapGroup : Nat} (mapId : Nat) (present : mapGroup < seg.mapHead.groupCount) :
    seg.mapBlock mapGroup mapId = groupStart seg.extentSize mapGroup + mapId := by
  rw [SegExtentGroup.mapBlock, (invariant.layout mapGroup present).1]

/-- A new group keeps the pages of the others. -/
theorem egAddMapGroup_pageOf (invariant : ExtentInvariant seg)
    (mapGroup mapId : Nat) (present : mapGroup < seg.mapHead.groupCount)
    (inside : mapId < dfMapGroupSize) :
    (egAddMapGroup seg (groupStart seg.extentSize seg.mapHead.groupCount)).pageOf mapGroup mapId =
      seg.pageOf mapGroup mapId := by
  have later := groupStart_le seg.extentSize mapGroup seg.mapHead.groupCount present
  rw [dataStart] at later
  have block := invariant.mapBlock mapId present
  have kept : (egAddMapGroup seg (groupStart seg.extentSize seg.mapHead.groupCount)).mapBlock
      mapGroup mapId = seg.mapBlock mapGroup mapId := by
    simp only [SegExtentGroup.mapBlock, egAddMapGroup]
    rw [if_neg (by omega)]
  rw [SegExtentGroup.pageOf, kept, SegExtentGroup.pageOf]
  simp only [egAddMapGroup]
  rw [if_neg (by lia)]

theorem egAddMapGroup_pageOf_new (mapId : Nat) (inside : mapId < dfMapGroupSize) :
    (egAddMapGroup seg (groupStart seg.extentSize seg.mapHead.groupCount)).pageOf
      seg.mapHead.groupCount mapId = egInitBitmapPageContent (wrap32 (extentStart seg.extentSize
        { mapGroup := seg.mapHead.groupCount, mapId, bitId := 0 })) := by
  have block : (egAddMapGroup seg (groupStart seg.extentSize seg.mapHead.groupCount)).mapBlock
      seg.mapHead.groupCount mapId =
      groupStart seg.extentSize seg.mapHead.groupCount + mapId := by
    simp [SegExtentGroup.mapBlock, egAddMapGroup]
  rw [SegExtentGroup.pageOf, block]
  simp only [egAddMapGroup]
  rw [if_pos (by lia), Nat.add_sub_cancel_left, extentStart, dataStart, Nat.add_zero,
    Nat.mul_assoc]

theorem egInitBitmapPageContent_ok (firstPage : Nat) :
    PageOk (egInitBitmapPageContent firstPage) := by
  refine ⟨?_, fun bit below => absurd below (Nat.not_lt_zero bit), Nat.zero_le _⟩
  rw [egInitBitmapPageContent, setBits_clear, Nat.add_zero]

/-- Adding a group behind the last one keeps the invariant. -/
theorem ExtentInvariant.addMapGroup (invariant : ExtentInvariant seg)
    (room : dataStart seg.extentSize seg.mapHead.groupCount + 8192 < 4294967296) : ExtentInvariant
      (egAddMapGroup seg (groupStart seg.extentSize seg.mapHead.groupCount)) := by
  have cursor := invariant.cursor
  have old := egAddMapGroup_pageOf seg invariant
  have new := egAddMapGroup_pageOf_new seg
  have split (mapGroup : Nat) (present : mapGroup < seg.mapHead.groupCount + 1) :
      mapGroup < seg.mapHead.groupCount ∨ mapGroup = seg.mapHead.groupCount := by
    omega
  have kept (mapGroup : Nat) (present : mapGroup < seg.mapHead.groupCount) :
      (egAddMapGroup seg (groupStart seg.extentSize seg.mapHead.groupCount)).mapHead.groups
        mapGroup = seg.mapHead.groups mapGroup := by
    simp only [egAddMapGroup]
    rw [if_neg (by omega)]
  have added : (egAddMapGroup seg (groupStart seg.extentSize seg.mapHead.groupCount)).mapHead.groups
      seg.mapHead.groupCount =
        { firstMap := groupStart seg.extentSize seg.mapHead.groupCount
          freePage := 0
          pageCount := dfMapGroupSize } := by
    simp only [egAddMapGroup]
    rw [if_pos trivial]
  refine
    { unit := invariant.unit
      bitUnit := invariant.bitUnit
      fileMin := invariant.fileMin
      fileMax := invariant.fileMax
      layout := ?layout
      starts := ?starts
      pages := ?pages
      freePage := ?freePage
      freeGroup := ?freeGroup
      cursor := ?cursor
      allocated := ?allocated
      inside := ?inside }
  case layout =>
    intro mapGroup present
    rcases split mapGroup present with before | here
    · rw [kept mapGroup before]
      exact invariant.layout mapGroup before
    · subst here
      have positive : 0 < dfMapGroupSize := by decide
      rw [added]
      exact ⟨rfl, rfl, positive⟩
  case starts =>
    intro mapGroup present
    rcases split mapGroup present with before | here
    · exact invariant.starts mapGroup before
    · subst here
      exact room
  case pages =>
    intro mapGroup present mapId inside
    rcases split mapGroup present with before | here
    · rw [old mapGroup mapId before inside]
      exact invariant.pages mapGroup before mapId inside
    · subst here
      rw [new mapId inside]
      exact ⟨egInitBitmapPageContent_ok _, rfl⟩
  case freePage =>
    intro mapGroup present mapId inside
    rcases split mapGroup present with before | here
    · rw [kept mapGroup before] at inside
      have layout := invariant.layout mapGroup before
      rw [old mapGroup mapId before (by omega)]
      exact invariant.freePage mapGroup before mapId inside
    · subst here
      rw [added] at inside
      exact absurd inside (Nat.not_lt_zero mapId)
  case freeGroup =>
    intro mapGroup below mapId inside
    change mapGroup < seg.mapHead.freeGroup at below
    rw [old mapGroup mapId (by omega) inside]
    exact invariant.freeGroup mapGroup below mapId inside
  case cursor =>
    left
    change seg.mapHead.freeGroup < seg.mapHead.groupCount + 1
    omega
  case allocated =>
    change seg.mapHead.allocatedExtents = _
    rw [invariant.allocated]
    change _ = ∑ mapGroup ∈ Finset.range (seg.mapHead.groupCount + 1), _
    rw [Finset.sum_range_succ]
    have clear : ∑ mapId ∈ Finset.range dfMapGroupSize,
        setBits ((egAddMapGroup seg (groupStart seg.extentSize seg.mapHead.groupCount)).pageOf
          seg.mapHead.groupCount mapId).bitmap dfMapBitCnt = 0 := by
      apply Finset.sum_eq_zero
      intro mapId member
      rw [new mapId (Finset.mem_range.mp member)]
      exact setBits_clear dfMapBitCnt
    rw [clear]
    apply Finset.sum_congr rfl
    intro mapGroup present
    apply Finset.sum_congr rfl
    intro mapId inside
    rw [old mapGroup mapId (Finset.mem_range.mp present) (Finset.mem_range.mp inside)]
  case inside =>
    intro location inside used
    rcases split location.mapGroup inside.group with before | here
    · rw [SegExtentGroup.used, old location.mapGroup location.mapId before inside.page] at used
      exact invariant.inside location ⟨before, inside.page, inside.bit⟩ used
    · rw [SegExtentGroup.used, here, new location.mapId inside.page] at used
      simp [egInitBitmapPageContent] at used

/-- Extending the file keeps the invariant. -/
theorem ExtentInvariant.dfExtend (seg : SegExtentGroup) (invariant : ExtentInvariant seg)
    (target : Nat) : ExtentInvariant (dfExtend seg target) := by
  obtain ⟨-, -, -, -, -, step⟩ := map_constants
  have fileMin := invariant.fileMin
  have fileMax := invariant.fileMax
  refine
    { unit := invariant.unit
      bitUnit := invariant.bitUnit
      fileMin := ?fileMin
      fileMax := ?fileMax
      layout := invariant.layout
      starts := invariant.starts
      pages := invariant.pages
      freePage := invariant.freePage
      freeGroup := invariant.freeGroup
      cursor := invariant.cursor
      allocated := invariant.allocated
      inside := ?inside }
  case fileMin => exact le_trans fileMin (Nat.le_max_left _ _)
  case fileMax =>
    simp only [Segment.dfExtend, wrap32]
    lia
  case inside =>
    intro location inside used
    have bounds := invariant.inside location ⟨inside.group, inside.page, inside.bit⟩ used
    exact ⟨le_trans bounds.1 (Nat.le_max_left _ _), bounds.2⟩

/-- One map page is replaced, and nothing else but cursors and counters of the map head. -/
structure PageReplaced (before after : SegExtentGroup) (location : SpaceMapLocation)
    (page : MapPage) : Prop where
  extentSize : after.extentSize = before.extentSize
  bitUnit : after.mapHead.bitUnit = before.mapHead.bitUnit
  totalBlocks : after.totalBlocks = before.totalBlocks
  groupCount : after.mapHead.groupCount = before.mapHead.groupCount
  firstMap : ∀ index, (after.mapHead.groups index).firstMap = (before.mapHead.groups index).firstMap
  pageCount : ∀ index,
    (after.mapHead.groups index).pageCount = (before.mapHead.groups index).pageCount
  mapPage : ∀ block, after.mapPage block =
    if block = before.mapBlock location.mapGroup location.mapId then page
    else before.mapPage block

/-- One page is replaced. -/
theorem PageReplaced.pageOf {before after : SegExtentGroup} {location : SpaceMapLocation}
    {page : MapPage} (replaced : PageReplaced before after location page)
    (invariant : ExtentInvariant before) (inside : InMap before location) (mapGroup mapId : Nat)
    (present : mapGroup < before.mapHead.groupCount) (below : mapId < dfMapGroupSize) :
    after.pageOf mapGroup mapId = if mapGroup = location.mapGroup ∧ mapId = location.mapId then page
      else before.pageOf mapGroup mapId := by
  have block : after.mapBlock mapGroup mapId = before.mapBlock mapGroup mapId := by
    rw [SegExtentGroup.mapBlock, SegExtentGroup.mapBlock, replaced.firstMap]
  rw [SegExtentGroup.pageOf, block, replaced.mapPage, invariant.mapBlock mapId
    present, invariant.mapBlock location.mapId inside.group]
  by_cases same : mapGroup = location.mapGroup ∧ mapId = location.mapId
  · rw [if_pos same, if_pos (by rw [same.1, same.2])]
  · rw [if_neg same, if_neg]
    · rw [SegExtentGroup.pageOf, invariant.mapBlock mapId present]
    · intro equal
      exact same (mapBlock_inj _ below inside.page equal)

/-- One more extent is used. -/
theorem usedExtents_add_one {less more : SegExtentGroup} (location : SpaceMapLocation)
    (groupCount : more.mapHead.groupCount = less.mapHead.groupCount) (inside : InMap less location)
    (grows : setBits (more.pageOf location.mapGroup location.mapId).bitmap dfMapBitCnt =
      setBits (less.pageOf location.mapGroup location.mapId).bitmap dfMapBitCnt + 1)
    (same : ∀ mapGroup < less.mapHead.groupCount, ∀ mapId < dfMapGroupSize,
      ¬(mapGroup = location.mapGroup ∧ mapId = location.mapId) →
        more.pageOf mapGroup mapId = less.pageOf mapGroup mapId) :
    more.usedExtents = less.usedExtents + 1 := by
  rw [SegExtentGroup.usedExtents, groupCount]
  apply sum_range_add_one _ _ _ location.mapGroup inside.group
  · apply sum_range_add_one
      (fun mapId => setBits (less.pageOf location.mapGroup mapId).bitmap dfMapBitCnt)
      (fun mapId => setBits (more.pageOf location.mapGroup mapId).bitmap dfMapBitCnt)
      dfMapGroupSize location.mapId inside.page grows
    intro other below differ
    rw [same _ inside.group other below (fun equal => differ equal.2)]
  · intro other present differ
    apply Finset.sum_congr rfl
    intro mapId member
    rw [same other present mapId (Finset.mem_range.mp member) (fun equal => differ equal.1)]

/-- Setting a clear bit keeps a page right. -/
theorem egSetBitmapPage_ok (ok : PageOk page) (bit : Nat)
    (below : bit < dfMapBitCnt) (clear : page.bitmap bit = false) :
    PageOk (egSetBitmapPage page bit) := by
  have count := setBits_writeBit_true below clear
  have freeBits := ok.freeBits
  have bounded := ok.bounded
  refine ⟨?_, ?_, ?_⟩
  · simp only [egSetBitmapPage]
    have some := setBits_le (writeBit page.bitmap bit true) dfMapBitCnt
    lia
  · intro other hinted
    simp only [egSetBitmapPage] at hinted ⊢
    by_cases same : other = bit
    · rw [same, writeBit_self]
    · rw [writeBit_other _ _ _ _ same]
      apply ok.freeBegin
      split at hinted <;> omega
  · simp only [egSetBitmapPage]
    split <;> omega

/-- Clearing a set bit keeps a page right. -/
theorem egUnsetBitmapPage_ok (ok : PageOk page) (bit : Nat)
    (below : bit < dfMapBitCnt) (set : page.bitmap bit = true) :
    PageOk (egUnsetBitmapPage page bit) := by
  have count := setBits_writeBit_false page.bitmap below set
  have freeBits := ok.freeBits
  refine ⟨?_, ?_, ?_⟩
  · simp only [egUnsetBitmapPage]
    lia
  · intro other hinted
    simp only [egUnsetBitmapPage] at hinted ⊢
    rw [writeBit_other _ _ _ _ (by split at hinted <;> omega)]
    apply ok.freeBegin
    split at hinted <;> omega
  · simp only [egUnsetBitmapPage]
    split <;> omega

theorem egSetBitmapPage_full (bit : Nat) (full : page.Full) : (egSetBitmapPage page bit).Full := by
  intro other below
  simp only [egSetBitmapPage]
  by_cases same : other = bit
  · rw [same, writeBit_self]
  · rw [writeBit_other _ _ _ _ same]
    exact full other below

/-- Replacing a map page by a consistent one keeps what does not depend on the cursors. -/
theorem PageReplaced.invariant {seg after : SegExtentGroup} {location : SpaceMapLocation}
    {page : MapPage} (replaced : PageReplaced seg after location page)
    (invariant : ExtentInvariant seg) (inside : InMap seg location) (ok : PageOk page)
    (firstPage : page.firstPage = (seg.pageOf location.mapGroup location.mapId).firstPage)
    (freePages : ∀ group < seg.mapHead.groupCount,
      (after.mapHead.groups group).freePage < dfMapGroupSize)
    (freePage : ∀ group < seg.mapHead.groupCount,
      ∀ page < (after.mapHead.groups group).freePage, (after.pageOf group page).Full)
    (freeGroup : ∀ group < after.mapHead.freeGroup, GroupFull after group)
    (cursor : after.mapHead.freeGroup < seg.mapHead.groupCount)
    (allocated : after.mapHead.allocatedExtents = after.usedExtents)
    (bounds : ∀ other, InMap seg other → after.used other = true →
      extentStart seg.extentSize other + seg.extentSize ≤ seg.totalBlocks ∧
        extentStart seg.extentSize other + seg.extentSize ≤ after.mapHead.highWaterMark) :
    ExtentInvariant after := by
  refine
    { unit := ?unit
      bitUnit := ?bitUnit
      fileMin := ?fileMin
      fileMax := ?fileMax
      layout := ?layout
      starts := ?starts
      pages := ?pages
      freePage := ?freePage
      freeGroup := freeGroup
      cursor := ?cursor
      allocated := allocated
      inside := ?inside }
  case unit =>
    rw [replaced.extentSize]
    exact invariant.unit
  case bitUnit =>
    rw [replaced.bitUnit, replaced.extentSize]
    exact invariant.bitUnit
  case fileMin =>
    rw [replaced.totalBlocks]
    exact invariant.fileMin
  case fileMax =>
    rw [replaced.totalBlocks]
    exact invariant.fileMax
  case layout =>
    intro group present
    rw [replaced.groupCount] at present
    have layout := invariant.layout group present
    rw [replaced.firstMap, replaced.pageCount, replaced.extentSize]
    exact ⟨layout.1, layout.2.1, freePages group present⟩
  case starts =>
    intro group present
    rw [replaced.groupCount] at present
    rw [replaced.extentSize]
    exact invariant.starts group present
  case pages =>
    intro group present mapId member
    rw [replaced.groupCount] at present
    have pages := invariant.pages group present mapId member
    rw [replaced.extentSize, replaced.pageOf invariant inside group mapId present member]
    split
    · rename_i same
      rw [firstPage, ← same.1, ← same.2]
      exact ⟨ok, pages.2⟩
    · exact pages
  case freePage =>
    intro group present
    rw [replaced.groupCount] at present
    exact freePage group present
  case cursor =>
    left
    rw [replaced.groupCount]
    exact cursor
  case inside =>
    intro other otherInside used
    have present := otherInside.group
    rw [replaced.groupCount] at present
    rw [replaced.extentSize, replaced.totalBlocks]
    exact bounds other ⟨present, otherInside.page, otherInside.bit⟩ used

/-- Setting the bit of a free extent keeps the invariant, with cursors that stand behind full
groups and full pages only. -/
theorem ExtentInvariant.set {seg after : SegExtentGroup} (invariant : ExtentInvariant seg)
    {location : SpaceMapLocation} (inside : InMap seg location)
    (clear : seg.used location = false) (mapGroup freePage : Nat)
    (replaced : PageReplaced seg after location
      (egSetBitmapPage (seg.pageOf location.mapGroup location.mapId) location.bitId))
    (fits : extentStart seg.extentSize location + seg.extentSize ≤ seg.totalBlocks)
    (allocated : after.mapHead.allocatedExtents = seg.mapHead.allocatedExtents + 1)
    (freeGroup : after.mapHead.freeGroup = mapGroup)
    (groups : ∀ index, (after.mapHead.groups index).freePage =
      if index = mapGroup then freePage else (seg.mapHead.groups index).freePage)
    (highWaterMark : after.mapHead.highWaterMark = max seg.mapHead.highWaterMark
      (extentStart seg.extentSize location + seg.extentSize))
    (present : mapGroup < seg.mapHead.groupCount) (below : freePage < dfMapGroupSize)
    (groupsFull : ∀ group < mapGroup, GroupFull seg group)
    (pagesFull : ∀ page < freePage, (seg.pageOf mapGroup page).Full) : ExtentInvariant after := by
  have pageOf := replaced.pageOf invariant inside
  have full (group page : Nat) (member : group < seg.mapHead.groupCount)
      (small : page < dfMapGroupSize) (before : (seg.pageOf group page).Full) :
      (after.pageOf group page).Full := by
    rw [pageOf group page member small]
    split
    · rename_i same
      rw [← same.1, ← same.2]
      exact egSetBitmapPage_full _ _ before
    · exact before
  apply replaced.invariant invariant inside
  case ok =>
    exact egSetBitmapPage_ok _ (invariant.pages _ inside.group _ inside.page).1 _ inside.bit clear
  case firstPage => rfl
  case freePages =>
    intro group member
    rw [groups]
    split
    · exact below
    · exact (invariant.layout group member).2.2
  case freePage =>
    intro group member page smaller
    have layout := invariant.layout group member
    rw [groups] at smaller
    split at smaller
    · rename_i same
      apply full group page member (by lia)
      rw [same]
      exact pagesFull page smaller
    · exact full group page member (by lia) (invariant.freePage group member page smaller)
  case freeGroup =>
    intro group member page small
    rw [freeGroup] at member
    exact full group page (by omega) small (groupsFull group member page small)
  case cursor =>
    rw [freeGroup]
    exact present
  case allocated =>
    rw [allocated, invariant.allocated]
    symm
    apply usedExtents_add_one location replaced.groupCount inside
    · rw [pageOf _ _ inside.group inside.page, if_pos ⟨rfl, rfl⟩]
      exact setBits_writeBit_true inside.bit clear
    · intro group member page small differ
      rw [pageOf group page member small, if_neg differ]
  case bounds =>
    intro other otherInside used
    rw [highWaterMark]
    by_cases same : other = location
    · rw [same]
      exact ⟨fits, Nat.le_max_right _ _⟩
    · have old : seg.used other = true := by
        rw [SegExtentGroup.used, pageOf _ _ otherInside.group otherInside.page] at used
        split at used
        · rename_i equal
          have differ : other.bitId ≠ location.bitId := by
            intro bit
            cases other
            simp_all
          simp only [egSetBitmapPage] at used
          rw [writeBit_other _ _ _ _ differ] at used
          rw [SegExtentGroup.used, equal.1, equal.2]
          exact used
        · exact used
      have bounds := invariant.inside other otherInside old
      exact ⟨bounds.1, le_trans bounds.2 (Nat.le_max_left _ _)⟩

/-- Clearing the bit of an extent in use keeps the invariant, with cursors pulled back to it. -/
theorem ExtentInvariant.unset {seg after : SegExtentGroup} (invariant : ExtentInvariant seg)
    {location : SpaceMapLocation} (inside : InMap seg location) (set : seg.used location = true)
    (replaced : PageReplaced seg after location
      (egUnsetBitmapPage (seg.pageOf location.mapGroup location.mapId) location.bitId))
    (allocated : after.mapHead.allocatedExtents = seg.mapHead.allocatedExtents - 1)
    (freeGroup : after.mapHead.freeGroup = min location.mapGroup seg.mapHead.freeGroup)
    (groups : ∀ index, (after.mapHead.groups index).freePage =
      if index = location.mapGroup then min location.mapId (seg.mapHead.groups index).freePage
      else (seg.mapHead.groups index).freePage)
    (highWaterMark : after.mapHead.highWaterMark = seg.mapHead.highWaterMark) :
    ExtentInvariant after := by
  have pageOf := replaced.pageOf invariant inside
  have group := inside.group
  apply replaced.invariant invariant inside
  case ok =>
    exact egUnsetBitmapPage_ok _ (invariant.pages _ inside.group _ inside.page).1 _ inside.bit set
  case firstPage => rfl
  case freePages =>
    intro group member
    have layout := invariant.layout group member
    rw [groups]
    split <;> omega
  case freePage =>
    intro group member page smaller
    have layout := invariant.layout group member
    rw [groups] at smaller
    have hinted : page < (seg.mapHead.groups group).freePage := by
      split at smaller <;> omega
    rw [pageOf group page member (by lia), if_neg]
    · exact invariant.freePage group member page hinted
    · rintro ⟨sameGroup, samePage⟩
      lia
  case freeGroup =>
    intro group member page small
    rw [pageOf group page (by lia) small, if_neg (by lia)]
    exact invariant.freeGroup group (by lia) page small
  case cursor =>
    lia
  case allocated =>
    have count : seg.usedExtents = after.usedExtents + 1 := by
      apply usedExtents_add_one location replaced.groupCount.symm
      · exact ⟨by rw [replaced.groupCount]; exact inside.group, inside.page, inside.bit⟩
      · rw [pageOf _ _ inside.group inside.page, if_pos ⟨rfl, rfl⟩]
        exact (setBits_writeBit_false _ inside.bit set).symm
      · intro group member page small differ
        rw [replaced.groupCount] at member
        rw [pageOf group page member small, if_neg differ]
    rw [allocated, invariant.allocated, count, Nat.add_sub_cancel]
  case bounds =>
    intro other otherInside used
    rw [highWaterMark]
    apply invariant.inside other otherInside
    rw [SegExtentGroup.used, pageOf _ _ otherInside.group otherInside.page] at used
    split at used
    · rename_i equal
      simp only [egUnsetBitmapPage] at used
      by_cases bit : other.bitId = location.bitId
      · rw [bit] at used
        simp at used
      · rw [writeBit_other _ _ _ _ bit] at used
        rw [SegExtentGroup.used, equal.1, equal.2]
        exact used
    · exact used

end OpenGauss.Segment
