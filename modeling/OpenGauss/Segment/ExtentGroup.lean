import OpenGauss.Base.Bits

/-!
# Extent groups

An extent group hands out extents of one size from a data file. Map pages hold one bit for
each extent; 64 map pages form a map group, followed in the file by the pages of the inverse
pointers and then by the extents themselves, and the map head lists the groups. The map head and
the map pages carry cursors (`free_group`, `free_page`, `free_begin`) where the search for a
free extent starts. This module embeds allocation and free with the records they write to the
log; block numbers have 32 bits.
-/
namespace OpenGauss.Segment

open OpenGauss.Base

/-- `DF_MAP_HEAD_PAGE`. -/
def dfMapHeadPage : Nat := 2

/-- `DF_MAP_GROUP_SIZE`, the map pages of a group. -/
def dfMapGroupSize : Nat := 64

/-- `DF_MAX_MAP_GROUP_CNT`, the groups a map head declares room for. -/
def dfMaxMapGroupCnt : Nat := 33

/-- `DF_MAP_BIT_CNT`: eight bits for each byte of a page after its header and the fields of the
map page. -/
def dfMapBitCnt : Nat := (8192 - 12 - 24) * 8

/-- `DF_MAP_GROUP_EXTENTS`. -/
def dfMapGroupExtents : Nat := dfMapBitCnt * dfMapGroupSize

/-- `EXTENTS_PER_IPBLOCK`: inverse pointers have eight bytes. -/
def extentsPerIpblock : Nat := (8192 - 24) / 8

/-- `IPBLOCK_GROUP_SIZE`, the pages of the inverse pointers of a group. -/
def ipblockGroupSize : Nat :=
  (dfMapBitCnt * dfMapGroupSize + extentsPerIpblock - 1) / extentsPerIpblock

/-- `DF_FILE_EXTEND_STEP_BLOCKS`. -/
def dfFileExtendStepBlocks : Nat := 131072 / 8

/-- Arithmetic on block numbers wraps around. -/
def wrap32 (number : Nat) : Nat := number % 4294967296

/-- `df_map_page_t`. -/
structure MapPage where
  firstPage : Nat
  freeBegin : Nat
  dirtyLast : Nat
  freeBits : Nat
  bitmap : Nat → Bool

/-- `df_map_group_t`. -/
structure MapGroup where
  firstMap : Nat
  freePage : Nat
  pageCount : Nat
  deriving DecidableEq, Repr

/-- `df_map_head_t`. -/
structure MapHead where
  bitUnit : Nat
  groupCount : Nat
  freeGroup : Nat
  allocatedExtents : Nat
  highWaterMark : Nat
  groups : Nat → MapGroup

/-- The fields of a map page that go into a log record. -/
structure MapPageHeader where
  firstPage : Nat
  freeBegin : Nat
  dirtyLast : Nat
  freeBits : Nat
  deriving DecidableEq, Repr

/-- The header of a map page. -/
def MapPage.header (page : MapPage) : MapPageHeader :=
  { firstPage := page.firstPage
    freeBegin := page.freeBegin
    dirtyLast := page.dirtyLast
    freeBits := page.freeBits }

/-- The log records about map head and map pages. -/
inductive SegRecord
  | initMapPage (block firstPage : Nat)
  | addNewGroup (firstMapPageno groupCount groupSize : Nat)
  | setBitmap (block bitid : Nat) (header : MapPageHeader)
  | freeBitmap (block bitid : Nat) (header : MapPageHeader)
  | mapheadAllocatedExtents (hwm allocatedExtents freeGroup freePage : Nat)
  deriving DecidableEq, Repr

/-- `SegExtentGroup` with its pages, the size of its file, and the log written so far. -/
structure SegExtentGroup where
  extentSize : Nat
  mapHead : MapHead
  mapPage : Nat → MapPage
  totalBlocks : Nat
  wal : List SegRecord

/-- Replace one group of the map head. -/
def MapHead.setFreePage (head : MapHead) (mapGroup freePage : Nat) : MapHead :=
  { head with groups := fun index =>
      if index = mapGroup then { head.groups index with freePage } else head.groups index }

/-- Replace one map page. -/
def SegExtentGroup.setMapPage (seg : SegExtentGroup) (block : Nat) (page : MapPage) :
    SegExtentGroup :=
  { seg with mapPage := fun other => if other = block then page else seg.mapPage other }

/-- A location in the map, the indices of `SpaceMapLocation`. -/
structure SpaceMapLocation where
  mapGroup : Nat
  mapId : Nat
  bitId : Nat
  deriving DecidableEq, Repr

/-- `SpaceMapLocation` with its copy of the group. -/
structure MapLocation extends SpaceMapLocation where
  group : MapGroup
  deriving DecidableEq

/-- `MapLocationIsInvalid`. -/
def mapLocationIsInvalid (location : MapLocation) : Bool := location.group.firstMap == 0

/-- The scan of `eg_locate_map_by_pageid` over the groups from the given one on. A group is entered
into the result before its range is compared. -/
def locateFrom (seg : SegExtentGroup) (pageId : Nat) : Nat → Nat → MapLocation → MapLocation
  | 0, _, result => result
  | remaining + 1, index, result =>
    let result := { result with
      group := seg.mapHead.groups index
      mapGroup := index }
    let pageStart :=
      wrap32 ((seg.mapHead.groups index).firstMap + dfMapGroupSize + ipblockGroupSize)
    let pageEnd := wrap32 (pageStart + wrap32 (dfMapGroupExtents * seg.extentSize))
    if pageStart ≤ pageId ∧ pageId < pageEnd then
      { result with
        mapId := (pageId - pageStart) / seg.mapHead.bitUnit / dfMapBitCnt
        bitId := (pageId - pageStart) / seg.mapHead.bitUnit % dfMapBitCnt }
    else locateFrom seg pageId remaining (index + 1) result

/-- The location `eg_locate_map_by_pageid` starts with, all zeros. -/
def zeroLocation : MapLocation where
  mapGroup := 0
  mapId := 0
  bitId := 0
  group :=
    { firstMap := 0
      freePage := 0
      pageCount := 0 }

/-- `eg_locate_map_by_pageid`. -/
def egLocateMapByPageid (seg : SegExtentGroup) (pageId : Nat) : MapLocation :=
  locateFrom seg pageId seg.mapHead.groupCount 0 zeroLocation

/-- The block of the map page of a location. -/
def SegExtentGroup.mapBlock (seg : SegExtentGroup) (mapGroup mapId : Nat) : Nat :=
  (seg.mapHead.groups mapGroup).firstMap + mapId

/-- `eg_set_bitmap_page`. -/
def egSetBitmapPage (page : MapPage) (bitId : Nat) : MapPage :=
  { page with
    bitmap := writeBit page.bitmap bitId true
    freeBits := page.freeBits - 1
    freeBegin := if page.freeBegin = bitId then page.freeBegin + 1 else page.freeBegin
    dirtyLast := if page.dirtyLast < bitId then bitId else page.dirtyLast }

/-- `eg_unset_bitmap_page`. -/
def egUnsetBitmapPage (page : MapPage) (bitId : Nat) : MapPage :=
  { page with
    bitmap := writeBit page.bitmap bitId false
    freeBits := page.freeBits + 1
    freeBegin := if bitId < page.freeBegin then bitId else page.freeBegin }

/-- The page `eg_init_bitmap_page_content` writes. -/
def egInitBitmapPageContent (firstPage : Nat) : MapPage :=
  { firstPage
    freeBegin := 0
    dirtyLast := 0
    freeBits := dfMapBitCnt
    bitmap := fun _ => false }

/-- What an attempt at an allocation comes to. -/
inductive Attempt
  | allocated (block : Nat) (seg : SegExtentGroup)
  | extendFile (target : Nat)
  | addGroup
  | panic

/-- `eg_alloc_extent_from_map_internal` on the map page at a block. -/
def egAllocExtentFromMapInternal (seg : SegExtentGroup) (block bitid mapGroup freePage : Nat) :
    Attempt :=
  let page := seg.mapPage block
  let pagenum := wrap32 (page.firstPage + bitid * seg.mapHead.bitUnit)
  if seg.totalBlocks < wrap32 (pagenum + seg.extentSize) then
    .extendFile (wrap32 (pagenum + seg.extentSize))
  else
    let newPage := egSetBitmapPage page bitid
    let allocatedExtents := seg.mapHead.allocatedExtents + 1
    let hwm := max seg.mapHead.highWaterMark (wrap32 (pagenum + seg.extentSize))
    let head := { seg.mapHead.setFreePage mapGroup freePage with
      allocatedExtents
      freeGroup := mapGroup
      highWaterMark := hwm }
    .allocated pagenum { seg.setMapPage block newPage with
      mapHead := head
      wal := seg.wal ++ [.setBitmap block bitid newPage.header,
        .mapheadAllocatedExtents hwm allocatedExtents mapGroup freePage] }

/-- The search of `eg_alloc_extent_from_map` for a free bit of a map page. -/
def freeBit (page : MapPage) : Option Nat :=
  if page.freeBits = 0 then none
  else firstClear page.bitmap (dfMapBitCnt - page.freeBegin) page.freeBegin

/-- The inner loop of `eg_try_alloc_extent`: the first map page of a group, from the given one
on, with a free bit. -/
def searchPages (seg : SegExtentGroup) (mapGroup : Nat) : Nat → Nat → Option SpaceMapLocation
  | 0, _ => none
  | remaining + 1, mapId =>
    match freeBit (seg.mapPage (seg.mapBlock mapGroup mapId)) with
    | some bitId => some { mapGroup, mapId, bitId }
    | none => searchPages seg mapGroup remaining (mapId + 1)

/-- The outer loop of `eg_try_alloc_extent`. -/
def searchGroups (seg : SegExtentGroup) : Nat → Nat → Option SpaceMapLocation
  | 0, _ => none
  | remaining + 1, mapGroup =>
    let group := seg.mapHead.groups mapGroup
    match searchPages seg mapGroup (group.pageCount - group.freePage) group.freePage with
    | some location => some location
    | none => searchGroups seg remaining (mapGroup + 1)

/-- The first free extent from the cursors on. -/
def searchFree (seg : SegExtentGroup) : Option SpaceMapLocation :=
  searchGroups seg (seg.mapHead.groupCount - seg.mapHead.freeGroup) seg.mapHead.freeGroup

/-- `eg_alloc_preassigned_block`. -/
def egAllocPreassignedBlock (seg : SegExtentGroup) (preassignedBlock : Nat) : Attempt :=
  let location := egLocateMapByPageid seg preassignedBlock
  if mapLocationIsInvalid location then .addGroup
  else
    let block := location.group.firstMap + location.mapId
    if (seg.mapPage block).bitmap location.bitId = false then
      let freeGroup := seg.mapHead.freeGroup
      let freePage := (seg.mapHead.groups freeGroup).freePage
      egAllocExtentFromMapInternal seg block location.bitId freeGroup freePage
    else .panic

/-- `eg_next_group_start`. -/
def egNextGroupStart (seg : SegExtentGroup) : Nat :=
  let last := seg.mapHead.groups (seg.mapHead.groupCount - 1)
  wrap32 (last.firstMap + last.pageCount + ipblockGroupSize +
    dfMapGroupExtents * seg.mapHead.bitUnit)

/-- `eg_try_alloc_extent`. -/
def egTryAllocExtent (seg : SegExtentGroup) (preassignedBlock : Option Nat) : Attempt :=
  match preassignedBlock with
  | some block =>
    match egAllocPreassignedBlock seg block with
    | .allocated _ seg => .allocated block seg
    | other => other
  | none =>
    match searchFree seg with
    | some location =>
      egAllocExtentFromMapInternal seg (seg.mapBlock location.mapGroup location.mapId)
        location.bitId location.mapGroup location.mapId
    | none =>
      let nextGroupDataStart := wrap32 (egNextGroupStart seg + dfMapGroupSize + ipblockGroupSize)
      if seg.totalBlocks < nextGroupDataStart then .extendFile nextGroupDataStart
      else .addGroup

/-- `eg_add_map_group`: initialise the map pages and enter the group in the map head. -/
def egAddMapGroup (seg : SegExtentGroup) (pageno : Nat) : SegExtentGroup :=
  let dataStart := pageno + dfMapGroupSize + ipblockGroupSize
  let firstPage := fun index => wrap32 (dataStart + index * (dfMapBitCnt * seg.extentSize))
  let group : MapGroup := { firstMap := pageno, freePage := 0, pageCount := dfMapGroupSize }
  { seg with
    mapPage := fun block =>
      if pageno ≤ block ∧ block < pageno + dfMapGroupSize then
        egInitBitmapPageContent (firstPage (block - pageno))
      else seg.mapPage block
    mapHead := { seg.mapHead with
      groupCount := seg.mapHead.groupCount + 1
      groups := fun index =>
        if index = seg.mapHead.groupCount then group else seg.mapHead.groups index }
    wal := seg.wal ++ (List.range dfMapGroupSize).map (fun index =>
        SegRecord.initMapPage (pageno + index) (firstPage index)) ++
      [.addNewGroup pageno (seg.mapHead.groupCount + 1) dfMapGroupSize] }

/-- `df_extend`: the target is aligned and kept in a block number, and the file grows to it. -/
def dfExtend (seg : SegExtentGroup) (target : Nat) : SegExtentGroup :=
  let aligned := wrap32 ((target + dfFileExtendStepBlocks - 1) / dfFileExtendStepBlocks *
    dfFileExtendStepBlocks)
  { seg with totalBlocks := max seg.totalBlocks aligned }

/-- The first map group is added as soon as an extent is asked for. -/
def ensureMapGroup (seg : SegExtentGroup) : SegExtentGroup :=
  if seg.mapHead.groupCount = 0 then egAddMapGroup seg (dfMapHeadPage + 1) else seg

/-- One round of the loop in `eg_alloc_extent`: the block, when the round ends the loop, and the
extent group. -/
def allocRound (seg : SegExtentGroup) (preassignedBlock : Option Nat) :
    Option Nat × SegExtentGroup :=
  let seg := ensureMapGroup seg
  match egTryAllocExtent seg preassignedBlock with
  | .allocated block seg => (some block, seg)
  | .extendFile target => (none, dfExtend seg target)
  | .addGroup => (none, egAddMapGroup seg (egNextGroupStart seg))
  | .panic => (none, seg)

/-- `eg_free_extent`; the server stops when the block is not that of an extent in use. -/
def egFreeExtent (seg : SegExtentGroup) (blocknum : Nat) : Option SegExtentGroup :=
  let location := egLocateMapByPageid seg blocknum
  if mapLocationIsInvalid location then none
  else
    let block := location.group.firstMap + location.mapId
    let page := seg.mapPage block
    if page.bitmap location.bitId = false then none
    else
      let newPage := egUnsetBitmapPage page location.bitId
      let allocatedExtents := seg.mapHead.allocatedExtents - 1
      let freeGroup := if location.mapGroup < seg.mapHead.freeGroup then location.mapGroup
        else seg.mapHead.freeGroup
      let groupFreePage := (seg.mapHead.groups location.mapGroup).freePage
      let freePage := if location.mapId < groupFreePage then location.mapId else groupFreePage
      let head := { seg.mapHead.setFreePage location.mapGroup freePage with
        allocatedExtents
        freeGroup }
      some { seg.setMapPage block newPage with
        mapHead := head
        wal := seg.wal ++ [.freeBitmap block location.bitId newPage.header,
          .mapheadAllocatedExtents head.highWaterMark allocatedExtents freeGroup
            (head.groups freeGroup).freePage] }

/-- What happens to an extent group. -/
inductive ExtentEvent
  | alloc (preassignedBlock : Option Nat)
  | free (blocknum : Nat)
  deriving DecidableEq, Repr

/-- One step of an extent group; a server that stops leaves the group as it is. -/
def extentStep (seg : SegExtentGroup) : ExtentEvent → SegExtentGroup
  | .alloc preassignedBlock => (allocRound seg preassignedBlock).2
  | .free blocknum => (egFreeExtent seg blocknum).getD seg

/-- `eg_alloc_extent`, whose loop goes on for at most the given number of rounds. -/
def egAllocExtent (preassignedBlock : Option Nat) : Nat → SegExtentGroup →
    Option Nat × SegExtentGroup
  | 0, seg => (none, seg)
  | rounds + 1, seg =>
    match allocRound seg preassignedBlock with
    | (some block, seg) => (some block, seg)
    | (none, seg) => egAllocExtent preassignedBlock rounds seg

/-- A new extent group: a data file of one step, and a map head without groups. -/
def newExtentGroup (extentSize : Nat) (mapPage : Nat → MapPage) (groups : Nat → MapGroup) :
    SegExtentGroup :=
  { extentSize
    mapHead :=
      { bitUnit := extentSize
        groupCount := 0
        freeGroup := 0
        allocatedExtents := 0
        highWaterMark := 0
        groups }
    mapPage
    totalBlocks := dfFileExtendStepBlocks
    wal := [] }

end OpenGauss.Segment
