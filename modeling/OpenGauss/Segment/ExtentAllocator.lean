import OpenGauss.Segment.ExtentInvariant

/-!
# Runs of the extent allocator

Every round of an allocation and every free keeps the allocator's invariant. Block numbers wrap
around in the source; an extent that is allocated without a preassigned block follows one in
use, so that its block numbers fit as long as the file does. The search by block, for a preassigned
extent and for a free, ends at an extent of the map whether it finds the block or not.
-/
namespace OpenGauss.Segment

open OpenGauss.Base

/-- The block the allocator computes for a location. -/
def SegExtentGroup.blockOf (seg : SegExtentGroup) (location : SpaceMapLocation) : Nat :=
  wrap32 ((seg.pageOf location.mapGroup location.mapId).firstPage +
    location.bitId * seg.mapHead.bitUnit)

theorem MapLayout.blockOf {seg : SegExtentGroup} (layout : MapLayout seg)
    {location : SpaceMapLocation} (inside : InMap seg location)
    (fits : extentStart seg.extentSize location < 4294967296) :
    seg.blockOf location = extentStart seg.extentSize location := by
  have place : extentStart seg.extentSize location = extentStart seg.extentSize
      { location with bitId := 0 } + location.bitId * seg.extentSize := by
    rw [extentStart, extentStart]
    lia
  have page := layout.firstPage _ inside.group _ inside.page
  rw [SegExtentGroup.blockOf, page, layout.bitUnit, wrap32, wrap32, Nat.mod_add_mod, ← place]
  exact Nat.mod_eq_of_lt fits

variable (seg : SegExtentGroup)

theorem ExtentInvariant.blockOf_used (invariant : ExtentInvariant seg)
    {location : SpaceMapLocation} (inside : InMap seg location) (used : seg.used location = true) :
    seg.blockOf location = extentStart seg.extentSize location := by
  obtain ⟨positive, -⟩ := extentSize_bounds invariant.unit
  have bound := (invariant.inside location inside used).1
  have fileMax := invariant.fileMax
  exact invariant.mapLayout.blockOf inside (by omega)

/-- The range that the search by block compares with: its end wraps around. -/
def InScanRange (seg : SegExtentGroup) (mapGroup pageId : Nat) : Prop :=
  dataStart seg.extentSize mapGroup ≤ pageId ∧
    pageId < wrap32 (dataStart seg.extentSize mapGroup + dfMapGroupExtents * seg.extentSize)

/-- The location the search computes for a block in the range of a group. -/
def scannedLocation (seg : SegExtentGroup) (mapGroup pageId : Nat) : SpaceMapLocation where
  mapGroup := mapGroup
  mapId := (pageId - dataStart seg.extentSize mapGroup) / seg.extentSize / dfMapBitCnt
  bitId := (pageId - dataStart seg.extentSize mapGroup) / seg.extentSize % dfMapBitCnt

/-- A block found in a group belongs to the extent of the computed index, which ends below the end
of the block numbers. -/
theorem locate_arith {unit start pageId : Nat} (known : unit ∈ ExtentSizes)
    (fits : start + 8192 < 4294967296) (after : start ≤ pageId)
    (before : pageId < wrap32 (start + 4175872 * unit)) :
    (pageId - start) / unit < 4175872 ∧ start + (pageId - start) / unit * unit ≤ pageId ∧
      pageId < start + (pageId - start) / unit * unit + unit ∧
      start + (pageId - start) / unit * unit + unit < 4294967296 := by
  simp only [ExtentSizes, List.mem_cons, List.not_mem_nil, or_false] at known
  simp only [wrap32] at before
  rcases known with rfl | rfl | rfl | rfl | rfl <;> lia

/-- The search stops at the first group whose range holds the block, or else at the last one. -/
theorem locateFrom_cases (layout : MapLayout seg) (pageId remaining index : Nat)
    (result : MapLocation) (whole : index + remaining = seg.mapHead.groupCount)
    (zeros : result.mapId = 0 ∧ result.bitId = 0) :
    (∃ mapGroup, mapGroup < seg.mapHead.groupCount ∧ InScanRange seg mapGroup pageId ∧
      locateFrom seg pageId remaining index result =
        { scannedLocation seg mapGroup pageId with group := seg.mapHead.groups mapGroup }) ∨
    ((∀ mapGroup, index ≤ mapGroup → mapGroup < seg.mapHead.groupCount →
        ¬InScanRange seg mapGroup pageId) ∧
      locateFrom seg pageId remaining index result = if remaining = 0 then result
        else
          { mapGroup := seg.mapHead.groupCount - 1
            mapId := 0
            bitId := 0
            group := seg.mapHead.groups (seg.mapHead.groupCount - 1) }) := by
  induction remaining generalizing index result with
  | zero =>
    right
    exact ⟨fun mapGroup later present => absurd present (by omega), rfl⟩
  | succ remaining ih =>
    have present : index < seg.mapHead.groupCount := by omega
    have fits := layout.starts index present
    have start : wrap32 ((seg.mapHead.groups index).firstMap + dfMapGroupSize +
        ipblockGroupSize) = dataStart seg.extentSize index := by
      rw [layout.firstMap index present]
      change wrap32 (dataStart seg.extentSize index) = _
      exact Nat.mod_eq_of_lt (by omega)
    have ends : wrap32 (dataStart seg.extentSize index +
        wrap32 (dfMapGroupExtents * seg.extentSize)) =
        wrap32 (dataStart seg.extentSize index + dfMapGroupExtents * seg.extentSize) :=
      Nat.add_mod_mod _ _ _
    simp only [locateFrom, start, ends, layout.bitUnit]
    by_cases here : InScanRange seg index pageId
    · left
      exact ⟨index, present, here, if_pos here⟩
    · have outside := here
      rw [InScanRange] at outside
      rw [if_neg outside]
      rcases ih (index + 1) { result with group := seg.mapHead.groups index, mapGroup := index }
        (by lia) zeros with found | ⟨missing, last⟩
      · exact .inl found
      · refine .inr ⟨fun mapGroup later below => ?_, ?_⟩
        · rcases Nat.eq_or_lt_of_le later with same | after
          · rw [← same]
            exact here
          · exact missing mapGroup after below
        · rw [last, if_neg (Nat.succ_ne_zero remaining)]
          by_cases done : remaining = 0
          · have ended : index = seg.mapHead.groupCount - 1 := by omega
            rw [if_pos done, zeros.1, zeros.2, ended]
          · rw [if_neg done]

/-- The scan finds the extent of a page. -/
theorem scannedLocation_spec (layout : MapLayout seg) {mapGroup pageId : Nat}
    (present : mapGroup < seg.mapHead.groupCount) (here : InScanRange seg mapGroup pageId) :
    InMap seg (scannedLocation seg mapGroup pageId) ∧
      extentStart seg.extentSize (scannedLocation seg mapGroup pageId) + seg.extentSize <
        4294967296 ∧ extentStart seg.extentSize (scannedLocation seg mapGroup pageId) ≤ pageId ∧
      pageId < extentStart seg.extentSize (scannedLocation seg mapGroup pageId) +
        seg.extentSize := by
  obtain ⟨-, size, bits, extents, -, -⟩ := map_constants
  have arith := locate_arith layout.unit (layout.starts mapGroup present) here.1 here.2
  have place : extentStart seg.extentSize (scannedLocation seg mapGroup pageId) =
      dataStart seg.extentSize mapGroup +
        (pageId - dataStart seg.extentSize mapGroup) / seg.extentSize * seg.extentSize := by
    rw [extentStart, scannedLocation, Nat.div_add_mod']
  rw [place]
  refine ⟨⟨present, ?_, Nat.mod_lt _ (by rw [bits]; decide)⟩, arith.2.2.2, arith.2.1, arith.2.2.1⟩
  simp only [scannedLocation, bits]
  omega

/-- The first extent of a group. -/
theorem firstExtent_spec (layout : MapLayout seg) (mapGroup : Nat)
    (present : mapGroup < seg.mapHead.groupCount) :
    InMap seg { mapGroup, mapId := 0, bitId := 0 } ∧
      extentStart seg.extentSize { mapGroup, mapId := 0, bitId := 0 } =
        dataStart seg.extentSize mapGroup ∧
      extentStart seg.extentSize { mapGroup, mapId := 0, bitId := 0 } + seg.extentSize <
        4294967296 := by
  have starts := layout.starts mapGroup present
  obtain ⟨-, small⟩ := extentSize_bounds layout.unit
  have place : extentStart seg.extentSize { mapGroup, mapId := 0, bitId := 0 } =
      dataStart seg.extentSize mapGroup := by
    simp [extentStart]
  obtain ⟨-, size, bits, -, -, -⟩ := map_constants
  have inside : InMap seg { mapGroup, mapId := 0, bitId := 0 } :=
    { group := present
      page := by rw [size]; exact Nat.zero_lt_succ 63
      bit := by rw [bits]; exact Nat.zero_lt_succ 65247 }
  exact ⟨inside, place, by omega⟩

theorem egLocateMapByPageid_spec (layout : MapLayout seg) (pageId : Nat)
    (some : 0 < seg.mapHead.groupCount) :
    InMap seg (egLocateMapByPageid seg pageId).toSpaceMapLocation ∧
      extentStart seg.extentSize (egLocateMapByPageid seg pageId).toSpaceMapLocation +
        seg.extentSize < 4294967296 ∧ (egLocateMapByPageid seg pageId).group =
        seg.mapHead.groups (egLocateMapByPageid seg pageId).mapGroup := by
  rcases locateFrom_cases seg layout pageId _ 0 zeroLocation (Nat.zero_add _) ⟨rfl, rfl⟩ with
    ⟨mapGroup, present, here, found⟩ | ⟨-, last⟩
  · rw [egLocateMapByPageid, found]
    have spec := scannedLocation_spec seg layout present here
    exact ⟨spec.1, spec.2.1, rfl⟩
  · rw [egLocateMapByPageid, last, if_neg (by omega)]
    have spec := firstExtent_spec seg layout (seg.mapHead.groupCount - 1) (by omega)
    exact ⟨spec.1, spec.2.2, rfl⟩

theorem mapLocationIsInvalid_iff (layout : MapLayout seg) (pageId : Nat) :
    mapLocationIsInvalid (egLocateMapByPageid seg pageId) = true ↔ seg.mapHead.groupCount = 0 := by
  by_cases none : seg.mapHead.groupCount = 0
  · have zeros : egLocateMapByPageid seg pageId = zeroLocation := by
      rw [egLocateMapByPageid, none, locateFrom]
    rw [zeros]
    exact iff_of_true rfl none
  · obtain ⟨inside, -, group⟩ := egLocateMapByPageid_spec seg layout pageId (by omega)
    refine iff_of_false ?_ none
    rw [mapLocationIsInvalid, group, layout.firstMap _ inside.group, beq_iff_eq, groupStart]
    omega

theorem egLocateMapByPageid_mapBlock (layout : MapLayout seg) {pageId : Nat}
    (valid : mapLocationIsInvalid (egLocateMapByPageid seg pageId) ≠ true) :
    0 < seg.mapHead.groupCount ∧
      (egLocateMapByPageid seg pageId).group.firstMap + (egLocateMapByPageid seg pageId).mapId =
        seg.mapBlock (egLocateMapByPageid seg pageId).mapGroup
          (egLocateMapByPageid seg pageId).mapId := by
  have some : 0 < seg.mapHead.groupCount := by
    have count := mt (mapLocationIsInvalid_iff seg layout pageId).mpr valid
    omega
  rw [(egLocateMapByPageid_spec seg layout pageId some).2.2]
  exact ⟨some, rfl⟩

/-- The first free extent ends below the end of the block numbers: it follows an extent in use,
or it is the first of its group. -/
theorem FirstFree.fits (invariant : ExtentInvariant seg)
    {location : SpaceMapLocation} (inside : InMap seg location) (first : FirstFree seg location) :
    extentStart seg.extentSize location + seg.extentSize < 4294967296 := by
  obtain ⟨-, size, bits, -, -, step⟩ := map_constants
  obtain ⟨positive, small⟩ := extentSize_bounds invariant.unit
  have fileMax := invariant.fileMax
  have bit := inside.bit
  have page := inside.page
  -- The extent just before the given one, if its group has one, is in use and lies in the file.
  have after (previous : SpaceMapLocation) (known : InMap seg previous)
      (before : previous.Before location) (adjacent : extentStart seg.extentSize location =
        extentStart seg.extentSize previous + seg.extentSize) :
      extentStart seg.extentSize location + seg.extentSize < 4294967296 := by
    have bound := (invariant.inside previous known (first previous known before)).1
    lia
  by_cases firstBit : location.bitId = 0
  · by_cases firstPage : location.mapId = 0
    · have start := invariant.starts location.mapGroup inside.group
      have place : extentStart seg.extentSize location =
          dataStart seg.extentSize location.mapGroup := by
        rw [extentStart]
        lia
      lia
    · apply after { location with mapId := location.mapId - 1, bitId := dfMapBitCnt - 1 }
      · refine ⟨inside.group, ?_, ?_⟩
        · change location.mapId - 1 < dfMapGroupSize
          omega
        · change dfMapBitCnt - 1 < dfMapBitCnt
          omega
      · refine .inr ⟨rfl, .inl ?_⟩
        lia
      · have index : location.mapId * dfMapBitCnt + location.bitId =
            (location.mapId - 1) * dfMapBitCnt + (dfMapBitCnt - 1) + 1 := by
          lia
        rw [extentStart, extentStart, index]
        lia
  · apply after { location with bitId := location.bitId - 1 }
    · refine ⟨inside.group, inside.page, ?_⟩
      change location.bitId - 1 < dfMapBitCnt
      omega
    · refine .inr ⟨rfl, .inr ⟨rfl, ?_⟩⟩
      lia
    · have index : location.mapId * dfMapBitCnt + location.bitId =
          location.mapId * dfMapBitCnt + (location.bitId - 1) + 1 := by
        lia
      rw [extentStart, extentStart, index]
      lia

/-- Setting a map page replaces that page. -/
theorem pageReplaced_setMapPage (location : SpaceMapLocation)
    (page : MapPage) (mapGroup freePage : Nat) (head : MapHead)
    (bitUnit : head.bitUnit = seg.mapHead.bitUnit)
    (groupCount : head.groupCount = seg.mapHead.groupCount) (groups : ∀ index, head.groups index =
      (seg.mapHead.setFreePage mapGroup freePage).groups index) (wal : List SegRecord) :
    PageReplaced seg { seg.setMapPage (seg.mapBlock location.mapGroup location.mapId) page with
      mapHead := head
      wal := wal } location page := by
  refine
    { extentSize := rfl
      bitUnit := bitUnit
      totalBlocks := rfl
      groupCount := groupCount
      firstMap := ?firstMap
      pageCount := ?pageCount
      mapPage := fun _ => rfl }
  case firstMap =>
    intro index
    rw [groups]
    simp only [MapHead.setFreePage]
    split <;> rfl
  case pageCount =>
    intro index
    rw [groups]
    simp only [MapHead.setFreePage]
    split <;> rfl

/-- The bit of a free extent is set, and the invariant holds again. -/
structure Allocation (seg after : SegExtentGroup) (location : SpaceMapLocation) : Prop where
  inside : InMap seg location
  clear : seg.used location = false
  replaced : PageReplaced seg after location
    (egSetBitmapPage (seg.pageOf location.mapGroup location.mapId) location.bitId)
  invariant : ExtentInvariant after

theorem allocation_of_invariant {seg after : SegExtentGroup} {location : SpaceMapLocation}
    (inside : InMap seg location) (clear : seg.used location = false)
    (replaced : PageReplaced seg after location
      (egSetBitmapPage (seg.pageOf location.mapGroup location.mapId) location.bitId))
    (invariant : PageReplaced seg after location
      (egSetBitmapPage (seg.pageOf location.mapGroup location.mapId) location.bitId) →
        ExtentInvariant after) : Allocation seg after location :=
  ⟨inside, clear, replaced, invariant replaced⟩

/-- A clear bit is allocated. -/
theorem egAllocExtentFromMapInternal_spec
    (invariant : ExtentInvariant seg) {location : SpaceMapLocation}
    (inside : InMap seg location) (clear : seg.used location = false)
    (fits : extentStart seg.extentSize location + seg.extentSize < 4294967296)
    {mapGroup freePage : Nat} (present : mapGroup < seg.mapHead.groupCount)
    (below : freePage < dfMapGroupSize) (groupsFull : ∀ group < mapGroup, GroupFull seg group)
    (pagesFull : ∀ page < freePage, (seg.pageOf mapGroup page).Full) :
    (seg.totalBlocks < extentStart seg.extentSize location + seg.extentSize ∧
      egAllocExtentFromMapInternal seg (seg.mapBlock location.mapGroup location.mapId)
        location.bitId mapGroup freePage =
        .extendFile (extentStart seg.extentSize location + seg.extentSize)) ∨
    ∃ after, egAllocExtentFromMapInternal seg (seg.mapBlock location.mapGroup location.mapId)
        location.bitId mapGroup freePage = .allocated (extentStart seg.extentSize location) after ∧
        Allocation seg after location := by
  have block := invariant.mapLayout.blockOf inside (by omega)
  rw [SegExtentGroup.blockOf, SegExtentGroup.pageOf] at block
  have ends : wrap32 (extentStart seg.extentSize location + seg.extentSize) =
      extentStart seg.extentSize location + seg.extentSize := Nat.mod_eq_of_lt fits
  simp only [egAllocExtentFromMapInternal, block, ends]
  split
  · rename_i short
    exact .inl ⟨short, rfl⟩
  · right
    refine ⟨_, rfl, allocation_of_invariant inside clear ?replaced ?invariant⟩
    case replaced =>
      apply pageReplaced_setMapPage seg location _ mapGroup freePage
      · rfl
      · rfl
      · exact fun _ => rfl
    case invariant =>
      intro replaced
      apply invariant.set inside clear mapGroup freePage replaced
      case fits => lia
      case allocated => rfl
      case freeGroup => rfl
      case groups =>
        intro index
        simp only [MapHead.setFreePage]
        split <;> rfl
      case highWaterMark => rfl
      case present => exact present
      case below => exact below
      case groupsFull => exact groupsFull
      case pagesFull => exact pagesFull

theorem ExtentInvariant.egNextGroupStart (seg : SegExtentGroup) (invariant : ExtentInvariant seg)
    (some : 0 < seg.mapHead.groupCount)
    (fits : groupStart seg.extentSize seg.mapHead.groupCount < 4294967296) :
    egNextGroupStart seg = groupStart seg.extentSize seg.mapHead.groupCount := by
  obtain ⟨-, -, -, extents, -, -⟩ := map_constants
  have layout := invariant.layout (seg.mapHead.groupCount - 1) (by omega)
  have next := groupStart_succ seg.extentSize (seg.mapHead.groupCount - 1)
  rw [Nat.sub_add_cancel some] at next
  rw [Segment.egNextGroupStart, layout.1, layout.2.1, invariant.bitUnit]
  rw [next] at fits ⊢
  exact Nat.mod_eq_of_lt fits

/-- The last extent of a group. -/
def lastLocation (mapGroup : Nat) : SpaceMapLocation :=
  { mapGroup
    mapId := dfMapGroupSize - 1
    bitId := dfMapBitCnt - 1 }

theorem extentStart_last (unit mapGroup : Nat) :
    extentStart unit (lastLocation mapGroup) + unit = groupStart unit (mapGroup + 1) := by
  obtain ⟨-, size, bits, -, -, -⟩ := map_constants
  rw [groupStart_succ, extentStart]
  simp only [lastLocation]
  lia

theorem ExtentInvariant.next_fits (invariant : ExtentInvariant seg)
    (some : 0 < seg.mapHead.groupCount)
    (all : ∀ location, InMap seg location → seg.used location = true) :
    groupStart seg.extentSize seg.mapHead.groupCount ≤ seg.totalBlocks := by
  have inside : InMap seg (lastLocation (seg.mapHead.groupCount - 1)) := by
    obtain ⟨-, size, bits, -, -, -⟩ := map_constants
    refine ⟨?_, ?_, ?_⟩ <;> simp only [lastLocation] <;> omega
  have bound := (invariant.inside _ inside (all _ inside)).1
  rw [extentStart_last, Nat.sub_add_cancel some] at bound
  exact bound

/-- What an attempt without a preassigned block comes to. -/
inductive FirstFit (seg : SegExtentGroup) : Attempt → Prop
  | allocated (location : SpaceMapLocation) (after : SegExtentGroup)
      (first : FirstFree seg location) (allocation : Allocation seg after location) :
      FirstFit seg (.allocated (seg.blockOf location) after)
  | extendFile (location : SpaceMapLocation) (inside : InMap seg location)
      (clear : seg.used location = false) (first : FirstFree seg location) :
      FirstFit seg (.extendFile (seg.blockOf location + seg.extentSize))
  | extendForGroup (target : Nat)
      (all : ∀ location, InMap seg location → seg.used location = true) :
      FirstFit seg (.extendFile target)
  | addGroup (all : ∀ location, InMap seg location → seg.used location = true) :
      FirstFit seg .addGroup

/-- An allocation takes the first free extent. -/
theorem egTryAllocExtent_firstFit (invariant : ExtentInvariant seg) :
    FirstFit seg (egTryAllocExtent seg none) := by
  simp only [egTryAllocExtent]
  split
  · rename_i location found
    obtain ⟨inside, clear, first, groupsFull, pagesFull⟩ :=
      searchFree_some seg invariant found
    have fits := first.fits seg invariant inside
    have block := invariant.mapLayout.blockOf inside (by omega)
    rcases egAllocExtentFromMapInternal_spec seg invariant inside clear fits
       inside.group inside.page groupsFull pagesFull with
      ⟨-, short⟩ | ⟨after, done, kept⟩
    · rw [short, ← block]
      exact .extendFile location inside clear first
    · rw [done, ← block]
      exact .allocated location after first kept
  · rename_i missing
    have all := searchFree_none seg invariant missing
    split
    · exact .extendForGroup _ all
    · exact .addGroup all

/-- A preassigned allocation allocates one extent. -/
theorem egAllocPreassignedBlock_allocation (invariant : ExtentInvariant seg)
    {preassignedBlock block : Nat} {after : SegExtentGroup}
    (done : egAllocPreassignedBlock seg preassignedBlock = .allocated block after) :
    ∃ location, Allocation seg after location := by
  simp only [egAllocPreassignedBlock] at done
  split at done
  · simp at done
  · rename_i valid
    obtain ⟨some, page⟩ :=
      egLocateMapByPageid_mapBlock seg invariant.mapLayout valid
    obtain ⟨inside, fits, -⟩ :=
      egLocateMapByPageid_spec seg invariant.mapLayout preassignedBlock some
    rw [page] at done
    generalize (egLocateMapByPageid seg preassignedBlock).toSpaceMapLocation = location
      at done inside fits
    split at done
    · rename_i clear
      have present : seg.mapHead.freeGroup < seg.mapHead.groupCount := by
        have cursor := invariant.cursor
        omega
      rcases egAllocExtentFromMapInternal_spec seg invariant inside clear fits
         present (invariant.layout _ present).2.2
        invariant.freeGroup (invariant.freePage _ present) with ⟨-, short⟩ | ⟨result, whole, kept⟩
      · rw [short] at done
        simp at done
      · rw [whole] at done
        obtain ⟨-, same⟩ := Attempt.allocated.inj done
        rw [← same]
        exact ⟨location, kept⟩
    · simp at done

/-- Every allocation allocates one extent. -/
theorem egTryAllocExtent_allocation (invariant : ExtentInvariant seg)
    {preassignedBlock : Option Nat} {block : Nat} {after : SegExtentGroup}
    (done : egTryAllocExtent seg preassignedBlock = .allocated block after) :
    ∃ location, Allocation seg after location := by
  cases preassignedBlock with
  | none =>
    have attempt := egTryAllocExtent_firstFit seg invariant
    rw [done] at attempt
    cases attempt with
    | allocated location after first allocation => exact ⟨location, allocation⟩
  | some preassigned =>
    simp only [egTryAllocExtent] at done
    split at done
    · rename_i inner result allocated
      obtain ⟨-, same⟩ := Attempt.allocated.inj done
      rw [← same]
      exact egAllocPreassignedBlock_allocation seg invariant allocated
    · rename_i other
      exact absurd done (other _ _)

theorem ExtentInvariant.ensureMapGroup (seg : SegExtentGroup) (invariant : ExtentInvariant seg) :
    ExtentInvariant (ensureMapGroup seg) ∧ 0 < (ensureMapGroup seg).mapHead.groupCount := by
  unfold Segment.ensureMapGroup
  split
  · rename_i none
    have start : dfMapHeadPage + 1 = groupStart seg.extentSize seg.mapHead.groupCount := by
      rw [none, groupStart, Nat.zero_mul]
    rw [start]
    refine ⟨invariant.addMapGroup seg ?_, Nat.succ_pos _⟩
    rw [dataStart_eq]
    lia
  · exact ⟨invariant, by omega⟩

/-- A round that adds a map group. -/
def AddsGroup (seg : SegExtentGroup) (preassignedBlock : Option Nat) : Prop :=
  egTryAllocExtent (ensureMapGroup seg) preassignedBlock = .addGroup

/-- A group that is added has room in the map head. -/
def GroupFits (seg : SegExtentGroup) : ExtentEvent → Prop
  | .alloc preassignedBlock => AddsGroup seg preassignedBlock →
      (ensureMapGroup seg).mapHead.groupCount < dfMaxMapGroupCnt
  | .free _ => True

theorem ensureMapGroup_extentSize : (ensureMapGroup seg).extentSize = seg.extentSize := by
  unfold ensureMapGroup
  split <;> rfl

/-- A group that is added fits the file. -/
theorem ExtentInvariant.addGroup_fits (invariant : ExtentInvariant seg)
    (some : 0 < seg.mapHead.groupCount) {preassignedBlock : Option Nat}
    (adds : egTryAllocExtent seg preassignedBlock = .addGroup) :
    dataStart seg.extentSize seg.mapHead.groupCount + 8192 < 4294967296 := by
  cases preassignedBlock with
  | none =>
    have attempt := egTryAllocExtent_firstFit seg invariant
    rw [adds] at attempt
    cases attempt with
    | addGroup all =>
      have bound := invariant.next_fits seg some all
      have fileMax := invariant.fileMax
      obtain ⟨-, size, -, -, ip, step⟩ := map_constants
      rw [dataStart]
      lia
  | some preassigned =>
    have valid : mapLocationIsInvalid (egLocateMapByPageid seg preassigned) ≠ true := by
      intro invalid
      have count := (mapLocationIsInvalid_iff seg invariant.mapLayout preassigned).mp invalid
      omega
    simp only [egTryAllocExtent, egAllocPreassignedBlock,
      egAllocExtentFromMapInternal] at adds
    repeat' split at adds
    all_goals simp_all

/-- A round of allocation keeps the invariant. -/
theorem ExtentInvariant.allocRound (seg : SegExtentGroup) (invariant : ExtentInvariant seg)
    (preassignedBlock : Option Nat) : ExtentInvariant (allocRound seg preassignedBlock).2 := by
  obtain ⟨ready, some⟩ := invariant.ensureMapGroup seg
  simp only [Segment.allocRound]
  split
  · rename_i block after done
    obtain ⟨location, allocation⟩ :=
      egTryAllocExtent_allocation _ ready done
    exact allocation.invariant
  · rename_i target short
    exact ready.dfExtend _ target
  · rename_i adds
    have room := ready.addGroup_fits _ some adds
    rw [ready.egNextGroupStart _ some (by rw [dataStart] at room; omega)]
    exact ready.addMapGroup _ room
  · exact ready

/-- A free keeps the invariant. -/
theorem ExtentInvariant.egFreeExtent {seg after : SegExtentGroup}
    (invariant : ExtentInvariant seg) {blocknum : Nat}
    (freed : egFreeExtent seg blocknum = some after) : ExtentInvariant after := by
  simp only [Segment.egFreeExtent] at freed
  split at freed
  · simp at freed
  · rename_i valid
    obtain ⟨some, page⟩ := egLocateMapByPageid_mapBlock seg invariant.mapLayout valid
    obtain ⟨inside, -, -⟩ := egLocateMapByPageid_spec seg invariant.mapLayout blocknum some
    rw [page] at freed
    generalize (egLocateMapByPageid seg blocknum).toSpaceMapLocation = location at freed inside
    split at freed
    · simp at freed
    · rename_i set
      rw [Option.some.injEq] at freed
      subst freed
      apply invariant.unset inside
      case set =>
        rw [SegExtentGroup.used, SegExtentGroup.pageOf]
        simpa using set
      case replaced =>
        apply pageReplaced_setMapPage seg location _ location.mapGroup
        · rfl
        · rfl
        · exact fun _ => rfl
      case allocated => rfl
      case freeGroup =>
        split <;> lia
      case groups =>
        intro index
        simp only [MapHead.setFreePage]
        by_cases same : index = location.mapGroup
        · split <;> lia
        · rw [if_neg same, if_neg same]
      case highWaterMark => rfl

theorem ExtentInvariant.step (event : ExtentEvent) (invariant : ExtentInvariant seg) :
    ExtentInvariant (extentStep seg event) := by
  cases event with
  | alloc preassignedBlock => exact invariant.allocRound seg preassignedBlock
  | free blocknum =>
    simp only [extentStep]
    cases freed : Segment.egFreeExtent seg blocknum with
    | none => exact invariant
    | some after => exact invariant.egFreeExtent freed

/-! ## Blocks in use -/

/-- An extent in use starts at the block. -/
def UsedBlock (seg : SegExtentGroup) (block : Nat) : Prop :=
  ∃ location, InMap seg location ∧ seg.used location = true ∧
    extentStart seg.extentSize location = block

theorem ExtentInvariant.addMapGroup_usedBlock
    (invariant : ExtentInvariant seg) {block : Nat} (used : UsedBlock seg block) :
    UsedBlock (egAddMapGroup seg (groupStart seg.extentSize seg.mapHead.groupCount)) block := by
  obtain ⟨location, inside, set, start⟩ := used
  refine ⟨location, ⟨Nat.lt_succ_of_lt inside.group, inside.page, inside.bit⟩, ?_, start⟩
  rw [SegExtentGroup.used, egAddMapGroup_pageOf seg invariant _ _ inside.group inside.page]
  exact set

theorem ensureMapGroup_usedBlock {block : Nat}
    (used : UsedBlock seg block) : UsedBlock (ensureMapGroup seg) block := by
  obtain ⟨location, inside, set, start⟩ := used
  have group := inside.group
  unfold ensureMapGroup
  rw [if_neg (by omega)]
  exact ⟨location, inside, set, start⟩

/-- An allocation keeps used blocks and adds its own. -/
theorem Allocation.usedBlock {seg after : SegExtentGroup} {location : SpaceMapLocation}
    (allocation : Allocation seg after location) (invariant : ExtentInvariant seg)
    {block : Nat} (used : UsedBlock seg block ∨ extentStart seg.extentSize location = block) :
    UsedBlock after block := by
  have inside := allocation.inside
  have pageOf := allocation.replaced.pageOf invariant inside
  have member (other : SpaceMapLocation) (known : InMap seg other) : InMap after other :=
    ⟨by rw [allocation.replaced.groupCount]; exact known.group, known.page, known.bit⟩
  rcases used with ⟨other, known, set, start⟩ | start
  · refine ⟨other, member other known, ?_, by rw [allocation.replaced.extentSize]; exact start⟩
    rw [SegExtentGroup.used, pageOf _ _ known.group known.page]
    split
    · rename_i same
      rw [SegExtentGroup.used, same.1, same.2] at set
      simp only [egSetBitmapPage]
      by_cases bit : other.bitId = location.bitId
      · rw [bit, writeBit_self]
      · rw [writeBit_other _ _ _ _ bit]
        exact set
    · exact set
  · refine ⟨location, member location inside, ?_,
      by rw [allocation.replaced.extentSize]; exact start⟩
    rw [SegExtentGroup.used, pageOf _ _ inside.group inside.page, if_pos ⟨rfl, rfl⟩]
    exact writeBit_self _ _ _

theorem extentStart_inj (invariant : ExtentInvariant seg)
    {first second : SpaceMapLocation} (insideFirst : InMap seg first)
    (insideSecond : InMap seg second)
    (same : extentStart seg.extentSize first = extentStart seg.extentSize second) :
    first = second := by
  obtain ⟨positive, -⟩ := extentSize_bounds invariant.unit
  by_contra differ
  rcases first.before_or_after second differ with before | after
  · have order := extentStart_before seg.extentSize _ _ insideFirst.page insideFirst.bit before
    omega
  · have order := extentStart_before seg.extentSize _ _ insideSecond.page insideSecond.bit after
    omega

/-- A round keeps used blocks. -/
theorem ExtentInvariant.allocRound_usedBlock
    (invariant : ExtentInvariant seg) (preassignedBlock : Option Nat) (block : Nat) (used : UsedBlock seg block) :
    UsedBlock (Segment.allocRound seg preassignedBlock).2 block := by
  obtain ⟨ready, some⟩ := invariant.ensureMapGroup seg
  have kept := ensureMapGroup_usedBlock seg used
  simp only [Segment.allocRound]
  split
  · rename_i result after done
    obtain ⟨location, allocation⟩ :=
      egTryAllocExtent_allocation _ ready done
    exact allocation.usedBlock ready (.inl kept)
  · obtain ⟨location, inside, set, start⟩ := kept
    exact ⟨location, ⟨inside.group, inside.page, inside.bit⟩, set, start⟩
  · rename_i adds
    have room := ready.addGroup_fits _ some adds
    rw [ready.egNextGroupStart _ some (by rw [dataStart] at room; omega)]
    exact ready.addMapGroup_usedBlock _ kept
  · exact kept

/-- A free keeps the other used blocks. -/
theorem ExtentInvariant.egFreeExtent_usedBlock {seg after : SegExtentGroup}
    (invariant : ExtentInvariant seg) {blocknum : Nat}
    (freed : Segment.egFreeExtent seg blocknum = some after) {block : Nat}
    (used : UsedBlock seg block)
    (apart : block ≠ seg.blockOf (egLocateMapByPageid seg blocknum).toSpaceMapLocation) :
    UsedBlock after block := by
  simp only [Segment.egFreeExtent] at freed
  split at freed
  · simp at freed
  · rename_i valid
    obtain ⟨some, page⟩ := egLocateMapByPageid_mapBlock seg invariant.mapLayout valid
    obtain ⟨inside, fits, -⟩ := egLocateMapByPageid_spec seg invariant.mapLayout blocknum some
    rw [invariant.mapLayout.blockOf inside (by omega)] at apart
    rw [page] at freed
    generalize (egLocateMapByPageid seg blocknum).toSpaceMapLocation = location
      at freed inside apart
    split at freed
    · simp at freed
    · rw [Option.some.injEq] at freed
      have replaced : PageReplaced seg after location
          (egUnsetBitmapPage (seg.pageOf location.mapGroup location.mapId) location.bitId) := by
        rw [← freed]
        apply pageReplaced_setMapPage seg location _ location.mapGroup
        · rfl
        · rfl
        · exact fun _ => rfl
      obtain ⟨other, known, set, start⟩ := used
      refine ⟨other, ⟨by rw [replaced.groupCount]; exact known.group, known.page, known.bit⟩, ?_,
        by rw [replaced.extentSize]; exact start⟩
      have differ : other ≠ location := by
        intro same
        rw [same] at start
        exact apart start.symm
      rw [SegExtentGroup.used, replaced.pageOf invariant inside _ _ known.group known.page]
      split
      · rename_i same
        have bit : other.bitId ≠ location.bitId := by
          intro equal
          cases other
          simp_all
        rw [SegExtentGroup.used, same.1, same.2] at set
        simp only [egUnsetBitmapPage]
        rw [writeBit_other _ _ _ _ bit]
        exact set
      · exact set

/-- A round gives a block that was not used. -/
theorem ExtentInvariant.allocRound_fresh (invariant : ExtentInvariant seg)
    (block : Nat) (done : (Segment.allocRound seg none).1 = some block) :
    ¬UsedBlock seg block ∧ UsedBlock (Segment.allocRound seg none).2 block := by
  obtain ⟨ready, -⟩ := invariant.ensureMapGroup seg
  have attempt := egTryAllocExtent_firstFit _ ready
  simp only [Segment.allocRound] at done ⊢
  generalize outcome : egTryAllocExtent (Segment.ensureMapGroup seg) none = result at attempt done ⊢
  cases attempt with
  | allocated location after first allocation =>
    have inside := allocation.inside
    have fits := first.fits _ ready inside
    have start := ready.mapLayout.blockOf inside (by omega)
    rw [Option.some.injEq, start] at done
    refine ⟨?_, allocation.usedBlock ready (.inr done)⟩
    intro used
    obtain ⟨other, known, set, same⟩ := ensureMapGroup_usedBlock seg used
    have equal := extentStart_inj _ ready known inside (same.trans done.symm)
    rw [equal, allocation.clear] at set
    simp at set
  | extendFile location inside clear first | extendForGroup target all => simp at done
  | addGroup all => simp at done

/-- A new group has the invariant. -/
theorem newExtentGroup_invariant (extentSize : Nat) (known : extentSize ∈ ExtentSizes)
    (mapPage : Nat → MapPage) (groups : Nat → MapGroup) :
    ExtentInvariant (newExtentGroup extentSize mapPage groups) := by
  have step : dfFileExtendStepBlocks + dfFileExtendStepBlocks ≤ 4294967296 := by decide
  have no (group : Nat) {motive : Prop} (below : group < 0) : motive :=
    absurd below (Nat.not_lt_zero group)
  exact
    { unit := known
      bitUnit := rfl
      fileMin := le_rfl
      fileMax := step
      layout := fun group below => no group below
      starts := fun group below => no group below
      pages := fun group below => no group below
      freePage := fun group below => no group below
      freeGroup := fun group below => no group below
      cursor := .inr ⟨rfl, rfl⟩
      allocated := rfl
      inside := fun location inside _ => no location.mapGroup inside.group }

theorem ExtentInvariant.allocRound_extentSize
    (invariant : ExtentInvariant seg) (preassignedBlock : Option Nat) :
    (Segment.allocRound seg preassignedBlock).2.extentSize = seg.extentSize := by
  obtain ⟨ready, -⟩ := invariant.ensureMapGroup seg
  simp only [Segment.allocRound]
  split
  · rename_i block after done
    obtain ⟨location, allocation⟩ :=
      egTryAllocExtent_allocation _ ready done
    exact allocation.replaced.extentSize.trans (ensureMapGroup_extentSize seg)
  · exact ensureMapGroup_extentSize seg
  · exact ensureMapGroup_extentSize seg
  · exact ensureMapGroup_extentSize seg

theorem egFreeExtent_extentSize {seg after : SegExtentGroup} {blocknum : Nat}
    (freed : egFreeExtent seg blocknum = some after) : after.extentSize = seg.extentSize := by
  simp only [egFreeExtent] at freed
  split at freed
  · simp at freed
  · split at freed
    · simp at freed
    · rw [Option.some.injEq] at freed
      rw [← freed]
      rfl

/-- What an allocation without a preassigned block does: the block it returns was not in use, and
is then. -/
structure FreshBlock (before after : SegExtentGroup) (result : Option Nat) : Prop where
  invariant : ExtentInvariant after
  extentSize : after.extentSize = before.extentSize
  keeps : ∀ block, UsedBlock before block → UsedBlock after block
  fresh : ∀ block, result = some block → ¬UsedBlock before block
  taken : ∀ block, result = some block → UsedBlock after block

/-- An allocation gives a block that was not used. -/
theorem egAllocExtent_freshBlock (rounds : Nat) (seg : SegExtentGroup)
    (invariant : ExtentInvariant seg) :
    FreshBlock seg (egAllocExtent none rounds seg).2 (egAllocExtent none rounds seg).1 := by
  induction rounds generalizing seg with
  | zero =>
    exact
      { invariant := invariant
        extentSize := rfl
        keeps := fun _ used => used
        fresh := fun _ done => nomatch done
        taken := fun _ done => nomatch done }
  | succ rounds ih =>
    have kept := invariant.allocRound seg none
    have used := invariant.allocRound_usedBlock seg none
    have size := invariant.allocRound_extentSize seg none
    have fresh := invariant.allocRound_fresh seg
    rw [egAllocExtent]
    generalize allocRound seg none = round at kept used size fresh ⊢
    obtain ⟨result, after⟩ := round
    cases result with
    | none =>
      have rest := ih after kept
      exact
        { invariant := rest.invariant
          extentSize := rest.extentSize.trans size
          keeps := fun block before => rest.keeps block (used block before)
          fresh := fun block done before => rest.fresh block done (used block before)
          taken := rest.taken }
    | some block =>
      exact
        { invariant := kept
          extentSize := size
          keeps := used
          fresh := fun block done => (fresh block done).1
          taken := fun block done => (fresh block done).2 }

/-- The fields of the map agree with its bits, and extents in use overlap neither each other nor
the pages of the map and of the inverse pointers. -/
structure MapConsistent (seg : SegExtentGroup) : Prop where
  /-- `free_bits` counts the clear bits of a map page. -/
  freeBits : ∀ mapGroup < seg.mapHead.groupCount, ∀ mapId < dfMapGroupSize,
    (seg.pageOf mapGroup mapId).freeBits =
      dfMapBitCnt - setBits (seg.pageOf mapGroup mapId).bitmap dfMapBitCnt
  /-- The bits below `free_begin` are set. -/
  freeBegin : ∀ mapGroup < seg.mapHead.groupCount, ∀ mapId < dfMapGroupSize,
    ∀ bit < (seg.pageOf mapGroup mapId).freeBegin, (seg.pageOf mapGroup mapId).bitmap bit = true
  /-- The map pages before a group's `free_page` are full. -/
  freePage : ∀ mapGroup < seg.mapHead.groupCount,
    ∀ mapId < (seg.mapHead.groups mapGroup).freePage, (seg.pageOf mapGroup mapId).Full
  /-- The groups before `free_group` are full. -/
  freeGroup : ∀ mapGroup < seg.mapHead.freeGroup, GroupFull seg mapGroup
  /-- `allocated_extents` counts the set bits of all groups. -/
  allocatedExtents : seg.mapHead.allocatedExtents = seg.usedExtents
  /-- No extent in use goes past `high_water_mark`. -/
  highWaterMark : ∀ location, InMap seg location → seg.used location = true →
    seg.blockOf location + seg.extentSize ≤ seg.mapHead.highWaterMark
  disjoint : ∀ first second, InMap seg first → InMap seg second → seg.used first = true →
    seg.used second = true → first ≠ second →
      seg.blockOf first + seg.extentSize ≤ seg.blockOf second ∨
        seg.blockOf second + seg.extentSize ≤ seg.blockOf first
  /-- No extent in use has a block in common with the pages of a group's map and inverse
  pointers. -/
  apart : ∀ location, InMap seg location → seg.used location = true →
    ∀ mapGroup < seg.mapHead.groupCount,
      seg.blockOf location + seg.extentSize ≤ (seg.mapHead.groups mapGroup).firstMap ∨
        (seg.mapHead.groups mapGroup).firstMap + dfMapGroupSize + ipblockGroupSize ≤
          seg.blockOf location

/-- The invariant is what is promised of the map. -/
theorem ExtentInvariant.consistent (invariant : ExtentInvariant seg) : MapConsistent seg := by
  refine
    { freeBits := ?freeBits
      freeBegin := ?freeBegin
      freePage := invariant.freePage
      freeGroup := invariant.freeGroup
      allocatedExtents := invariant.allocated
      highWaterMark := ?highWaterMark
      disjoint := ?disjoint
      apart := ?apart }
  case freeBits =>
    intro mapGroup present mapId inside
    have count := (invariant.pages mapGroup present mapId inside).1.freeBits
    lia
  case freeBegin =>
    intro mapGroup present mapId inside
    exact (invariant.pages mapGroup present mapId inside).1.freeBegin
  case highWaterMark =>
    intro location inside used
    rw [invariant.blockOf_used seg inside used]
    exact (invariant.inside location inside used).2
  case disjoint =>
    intro first second insideFirst insideSecond usedFirst usedSecond differ
    rw [invariant.blockOf_used seg insideFirst usedFirst,
      invariant.blockOf_used seg insideSecond usedSecond]
    rcases first.before_or_after second differ with before | after
    · exact .inl (extentStart_before _ first second insideFirst.page insideFirst.bit before)
    · exact .inr (extentStart_before _ second first insideSecond.page insideSecond.bit after)
  case apart =>
    intro location inside used mapGroup present
    rw [invariant.blockOf_used seg inside used, (invariant.layout mapGroup present).1]
    have start := dataStart_le seg.extentSize location
    have ends := extentStart_lt seg.extentSize location inside.page inside.bit
    rcases Nat.lt_or_ge location.mapGroup mapGroup with before | after
    · left
      exact le_trans ends (groupStart_le seg.extentSize _ _ before)
    · right
      change dataStart seg.extentSize mapGroup ≤ _
      rcases Nat.eq_or_lt_of_le after with same | later
      · rw [same]
        exact start
      · have distance := groupStart_le seg.extentSize _ _ later
        rw [dataStart] at start
        lia

/-- The extent allocator over every run from a new extent group in which added groups have room:
the map is consistent, extents in use are apart from each other and from the pages of the map, and
an attempt without a preassigned block takes the first free extent, extends the file for it
only, and adds a group when no extent is free. -/
theorem extent_allocator_stays_consistent (extentSize : Nat) (known : extentSize ∈ ExtentSizes)
    (mapPage : Nat → MapPage) (groups : Nat → MapGroup) (events : List ExtentEvent)
    (fits : Along extentStep GroupFits (newExtentGroup extentSize mapPage groups) events) :
    MapConsistent (events.foldl extentStep (newExtentGroup extentSize mapPage groups)) ∧
      FirstFit (ensureMapGroup (events.foldl extentStep (newExtentGroup extentSize mapPage groups)))
        (egTryAllocExtent (ensureMapGroup
          (events.foldl extentStep (newExtentGroup extentSize mapPage groups))) none) := by
  have invariant := along_invariant extentStep GroupFits ExtentInvariant
    (fun seg event before _ => before.step seg event) _ events
    (newExtentGroup_invariant extentSize known mapPage groups) fits
  exact ⟨invariant.consistent, egTryAllocExtent_firstFit _ (invariant.ensureMapGroup).1⟩

/-- An extent group of one-block extents in a file of zeros. -/
def emptyExtentGroup : SegExtentGroup :=
  newExtentGroup 1 (fun _ => egInitBitmapPageContent 0) fun _ =>
    { firstMap := 0
      freePage := 0
      pageCount := 0 }

/-- Two allocations, the second of a preassigned block, and a free of the first extent. -/
theorem extent_allocator_stays_consistent_one_extent :
    (([.alloc none, .alloc (some 5000), .free 4157] : List ExtentEvent).foldl extentStep
      emptyExtentGroup).mapHead.allocatedExtents = 1 ∧
    MapConsistent (([.alloc none, .alloc (some 5000), .free 4157] : List ExtentEvent).foldl
      extentStep emptyExtentGroup) := by
  refine ⟨by decide, ?_⟩
  refine (extent_allocator_stays_consistent 1 (by decide) (fun _ => egInitBitmapPageContent 0) _
    [.alloc none, .alloc (some 5000), .free 4157] ⟨fun _ => ?_, fun _ => ?_, trivial, trivial⟩).1
  · exact (by decide : (1 : Nat) < 33)
  · exact (by decide : (1 : Nat) < 33)

/-- An allocation of the preassigned first block of the second map page extends the file to it, with
all extents of the first map page free. -/
theorem preassigned_allocation_extends_early :
    (∃ target, egTryAllocExtent (ensureMapGroup emptyExtentGroup) (some 69405) =
      .extendFile target) ∧
    InMap (ensureMapGroup emptyExtentGroup) { mapGroup := 0, mapId := 0, bitId := 0 } ∧
    (ensureMapGroup emptyExtentGroup).used { mapGroup := 0, mapId := 0, bitId := 0 } = false := by
  refine ⟨⟨69406, ?_⟩, ⟨by decide, by decide, by decide⟩, by decide⟩
  rfl

end OpenGauss.Segment
