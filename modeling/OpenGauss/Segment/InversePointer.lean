import OpenGauss.Segment.MapLocation

/-!
# The slots of the inverse pointers

Behind the map pages of a group stand the pages of the inverse pointers, with a slot for the owner of
each extent. `GetIpBlock` computes the slot from the block of the extent alone: the group by a
division by the size of a whole group, which is a number of 32 bits and too small for the largest
extents. The module says exactly for which extents the slot is their own.
-/

namespace OpenGauss.Segment

/-- `IpBlockLocation`. -/
structure IpBlockLocation where
  ipblock : Nat
  offset : Nat
  deriving DecidableEq

/-- `GetIpBlock`; every number has 32 bits. -/
def getIpBlock (extent extentSize : Nat) : IpBlockLocation :=
  let extent := wrap32 (extent + 4294967296 - (dfMapHeadPage + 1))
  let groupTotalBlocks :=
    wrap32 (dfMapGroupSize + ipblockGroupSize + dfMapGroupExtents * extentSize)
  let groupId := extent / groupTotalBlocks
  let groupIpStart := wrap32 (dfMapHeadPage + 1 + groupId * groupTotalBlocks + dfMapGroupSize)
  let groupOffset :=
    wrap32 (extent % groupTotalBlocks + 4294967296 - (dfMapGroupSize + ipblockGroupSize))
  let extentId := groupOffset / extentSize
  { ipblock := wrap32 (groupIpStart + extentId / extentsPerIpblock)
    offset := extentId % extentsPerIpblock }

/-- The slot of the extent that an allocation hands out for the bit of a location. -/
def SegExtentGroup.slotOf (seg : SegExtentGroup) (location : SpaceMapLocation) : IpBlockLocation :=
  getIpBlock (seg.blockOf location) seg.extentSize

/-- A slot in the pages of the inverse pointers of a group, which are no map pages and in no
extent. -/
structure SlotInGroup (seg : SegExtentGroup) (mapGroup : Nat) (slot : IpBlockLocation) : Prop where
  after : (seg.mapHead.groups mapGroup).firstMap + dfMapGroupSize ≤ slot.ipblock
  before : slot.ipblock < (seg.mapHead.groups mapGroup).firstMap + dfMapGroupSize + ipblockGroupSize
  offset : slot.offset < extentsPerIpblock
  noMapPage : ∀ other < seg.mapHead.groupCount, ∀ mapId < dfMapGroupSize,
    slot.ipblock ≠ seg.mapBlock other mapId
  noExtent : ∀ location, ¬InExtent seg location slot.ipblock

/-- The computed size of a group of the largest extents does not reach the extent. -/
def BehindComputedGroup (seg : SegExtentGroup) (location : SpaceMapLocation) : Prop :=
  seg.extentSize = 8192 ∧ 4143976509 ≤ seg.blockOf location

variable {seg : SegExtentGroup} {unit index total : Nat}

/-- The slot of an extent is in its group. -/
theorem getIpBlock_eq (mapGroup index : Nat) (positive : 0 < unit)
    (size : wrap32 (dfMapGroupSize + ipblockGroupSize + dfMapGroupExtents * unit) = total)
    (inside : 4154 + index * unit < total)
    (fits : 4157 + mapGroup * total + index * unit < 4294967296) :
    getIpBlock (4157 + mapGroup * total + index * unit) unit =
      { ipblock := 67 + mapGroup * total + index / 1021, offset := index % 1021 } := by
  obtain ⟨head, group, -, -, ip, -⟩ := map_constants
  have perBlock : extentsPerIpblock = 1021 := rfl
  have few : index ≤ index * unit := Nat.le_mul_of_pos_right _ positive
  have start : wrap32 (4157 + mapGroup * total + index * unit + 4294967296 - (2 + 1)) =
      4154 + index * unit + mapGroup * total := by
    rw [wrap32]
    omega
  have quotient : (4154 + index * unit + mapGroup * total) / total = mapGroup := by
    rw [Nat.add_mul_div_right _ _ (by omega), Nat.div_eq_of_lt inside, Nat.zero_add]
  have rest : (4154 + index * unit + mapGroup * total) % total = 4154 + index * unit := by
    rw [Nat.add_mul_mod_self_right, Nat.mod_eq_of_lt inside]
  have number : wrap32 (4154 + index * unit + 4294967296 - (64 + 4090)) = index * unit := by
    rw [wrap32]
    omega
  rw [group, ip] at size
  simp only [getIpBlock, head, group, ip, size, start, quotient, rest, number, perBlock,
    Nat.mul_div_cancel _ positive, IpBlockLocation.mk.injEq, and_true]
  rw [wrap32, wrap32]
  omega

/-- Behind the computed groups a slot lies outside. -/
theorem getIpBlock_behind (fits : 4157 + index * 8192 < 4294967296)
    (behind : 4143976509 ≤ 4157 + index * 8192) :
    4143976573 ≤ (getIpBlock (4157 + index * 8192) 8192).ipblock := by
  obtain ⟨head, group, -, extents, ip, -⟩ := map_constants
  have perBlock : extentsPerIpblock = 1021 := rfl
  have size : wrap32 (64 + 4090 + 4175872 * 8192) = 4143976506 := by decide
  have start : wrap32 (4157 + index * 8192 + 4294967296 - (2 + 1)) = 4154 + index * 8192 := by
    rw [wrap32]
    omega
  have second : (4154 + index * 8192) / 4143976506 = 1 := by omega
  simp only [getIpBlock, head, group, extents, ip, perBlock, size, start]
  have word := Nat.mod_lt ((4154 + index * 8192) % 4143976506 + 4294967296 - (64 + 4090))
    (by decide : 4294967296 > 0)
  rw [← wrap32] at word
  rw [wrap32, wrap32]
  omega

/-- The number of an extent in its group. -/
def SpaceMapLocation.number (location : SpaceMapLocation) : Nat :=
  location.mapId * 65248 + location.bitId

section

variable (layout : MapLayout seg) (location : SpaceMapLocation) (inside : InMap seg location)
  (fits : extentStart seg.extentSize location + seg.extentSize ≤ 4294967296)
include layout location inside fits

theorem MapLayout.blockOf_number :
    seg.blockOf location = 4157 + location.mapGroup * (4154 + 4175872 * seg.extentSize) +
        location.number * seg.extentSize ∧ location.number < 4175872 ∧
      (location.number + 1) * seg.extentSize ≤ 4175872 * seg.extentSize := by
  obtain ⟨-, size, bits, -, -, -⟩ := map_constants
  have page := inside.page
  have bit := inside.bit
  have below : location.number < 4175872 := by
    rw [SpaceMapLocation.number]
    omega
  obtain ⟨positive, -⟩ := extentSize_bounds layout.unit
  refine ⟨?_, below, Nat.mul_le_mul_right _ below⟩
  rw [layout.blockOf inside (by omega), extentStart_eq]
  rfl

/-- The slot of an extent by its number. -/
theorem MapLayout.slotOf_eq (reached : ¬BehindComputedGroup seg location) :
    seg.slotOf location =
      { ipblock := groupStart seg.extentSize location.mapGroup + 64 + location.number / 1021
        offset := location.number % 1021 } := by
  obtain ⟨-, group, -, extents, ip, -⟩ := map_constants
  obtain ⟨positive, -⟩ := extentSize_bounds layout.unit
  obtain ⟨block, -, ends⟩ := layout.blockOf_number location inside fits
  rw [Nat.succ_mul] at ends
  have start := layout.blockOf inside (by omega)
  have known := layout.unit
  simp only [ExtentSizes, List.mem_cons, List.not_mem_nil, or_false] at known
  by_cases largest : seg.extentSize = 8192
  · -- Only one group of the largest extents fits.
    have room := layout.starts _ inside.group
    rw [dataStart_eq, largest] at room
    have first : location.mapGroup = 0 := by omega
    rw [BehindComputedGroup, block, largest] at reached
    have size : wrap32 (dfMapGroupSize + ipblockGroupSize + dfMapGroupExtents * 8192) =
        4143976506 := rfl
    have slot := getIpBlock_eq 0 location.number (by decide) size (by omega)
      (by rw [Nat.zero_mul]; omega)
    have begins : groupStart 8192 0 = 3 := by decide
    rw [SegExtentGroup.slotOf, block, first, largest, slot, begins]
  · have size : wrap32 (dfMapGroupSize + ipblockGroupSize + dfMapGroupExtents * seg.extentSize) =
        4154 + 4175872 * seg.extentSize := by
      rw [extents, wrap32]
      omega
    have slot := getIpBlock_eq location.mapGroup location.number positive size (by omega) (by omega)
    rw [SegExtentGroup.slotOf, block, slot, groupStart_eq, IpBlockLocation.mk.injEq]
    exact ⟨by omega, rfl⟩

/-- The slot lies in the pages of the group. -/
theorem MapLayout.slotInGroup (reached : ¬BehindComputedGroup seg location) :
    SlotInGroup seg location.mapGroup (seg.slotOf location) := by
  obtain ⟨-, group, -, extents, ip, -⟩ := map_constants
  obtain ⟨-, below, -⟩ := layout.blockOf_number location inside fits
  have start := layout.firstMap _ inside.group
  have apart (other : Nat) : other = location.mapGroup ∨
      groupStart seg.extentSize other + 4154 + 4175872 * seg.extentSize ≤
        groupStart seg.extentSize location.mapGroup ∨
      groupStart seg.extentSize location.mapGroup + 4154 ≤ groupStart seg.extentSize other := by
    have whole := groupStart_le seg.extentSize
    simp only [dataStart] at whole
    rcases Nat.lt_trichotomy other location.mapGroup with before | same | after
    · exact .inr (.inl (by have := whole other _ before; omega))
    · exact .inl same
    · exact .inr (.inr (by have := whole _ other after; omega))
  rw [layout.slotOf_eq location inside fits reached]
  refine ⟨?_, ?_, ?_, fun other present mapId low same => ?_, fun other extent => ?_⟩
  · rw [start]
    exact Nat.le_add_right _ _
  · dsimp only
    omega
  · exact Nat.mod_lt _ (by decide)
  · rw [SegExtentGroup.mapBlock, layout.firstMap other present] at same
    dsimp only at same
    rcases apart other with rfl | before | after
    · omega
    · omega
    · omega
  · have range := layout.inDataRange_of_inExtent extent
    rw [layout.inDataRange_iff _ extent.inside.group, dataStart, extents] at range
    dsimp only at range
    rcases apart other.mapGroup with here | before | after
    · rw [here] at range
      omega
    · omega
    · omega

/-- An extent with a slot in its group is not behind. -/
theorem MapLayout.not_behind (right : SlotInGroup seg location.mapGroup (seg.slotOf location)) :
    ¬BehindComputedGroup seg location := by
  rintro ⟨largest, behind⟩
  obtain ⟨-, group, -, -, ip, -⟩ := map_constants
  obtain ⟨block, -, -⟩ := layout.blockOf_number location inside fits
  have room := layout.starts _ inside.group
  rw [dataStart_eq, largest] at room
  have first : location.mapGroup = 0 := by omega
  have start := layout.blockOf inside (by omega)
  rw [first, largest, Nat.add_zero] at block
  rw [block] at behind start
  have before := right.before
  rw [layout.firstMap _ inside.group, groupStart_eq, SegExtentGroup.slotOf, block,
    largest] at before
  have far := getIpBlock_behind (by omega) behind
  omega

end

/-- Extents have different slots. -/
theorem MapLayout.slotOf_injective (layout : MapLayout seg) {first second : SpaceMapLocation}
    (inFirst : InMap seg first) (inSecond : InMap seg second)
    (fitsFirst : extentStart seg.extentSize first + seg.extentSize ≤ 4294967296)
    (fitsSecond : extentStart seg.extentSize second + seg.extentSize ≤ 4294967296)
    (reachedFirst : ¬BehindComputedGroup seg first)
    (reachedSecond : ¬BehindComputedGroup seg second)
    (same : seg.slotOf first = seg.slotOf second) : first = second := by
  obtain ⟨-, group, bits, -, ip, -⟩ := map_constants
  have groups : first.mapGroup = second.mapGroup := by
    have one := layout.slotInGroup first inFirst fitsFirst reachedFirst
    have other := layout.slotInGroup second inSecond fitsSecond reachedSecond
    have oneAfter := one.after
    have oneBefore := one.before
    have otherAfter := other.after
    have otherBefore := other.before
    rw [layout.firstMap _ inFirst.group, same, groupStart_eq] at oneAfter oneBefore
    rw [layout.firstMap _ inSecond.group, groupStart_eq] at otherAfter otherBefore
    by_contra differ
    rcases Nat.lt_or_gt_of_ne differ with before | after
    · have gap := Nat.mul_le_mul_right (4154 + 4175872 * seg.extentSize) before
      rw [Nat.succ_mul] at gap
      omega
    · have gap := Nat.mul_le_mul_right (4154 + 4175872 * seg.extentSize) after
      rw [Nat.succ_mul] at gap
      omega
  rw [layout.slotOf_eq first inFirst fitsFirst reachedFirst,
    layout.slotOf_eq second inSecond fitsSecond reachedSecond, groups, IpBlockLocation.mk.injEq]
    at same
  have firstBit := inFirst.bit
  have secondBit := inSecond.bit
  have numbers : first.number = second.number := by omega
  rw [SpaceMapLocation.number, SpaceMapLocation.number] at numbers
  have pages : first.mapId = second.mapId := by omega
  have places : first.bitId = second.bitId := by omega
  rw [SpaceMapLocation.mk.injEq]
  exact ⟨groups, pages, places⟩

/-- Two extents have different slots, each in the inverse pointer pages of its own group, exactly if
the computed size of a group reaches both of them: the extents are not of the largest size, or they
start before block 4143976509. -/
theorem inverse_pointers_are_injective_iff (layout : MapLayout seg)
    (first second : SpaceMapLocation) (differ : first ≠ second) (inFirst : InMap seg first)
    (inSecond : InMap seg second)
    (fitsFirst : extentStart seg.extentSize first + seg.extentSize ≤ 4294967296)
    (fitsSecond : extentStart seg.extentSize second + seg.extentSize ≤ 4294967296) :
    (seg.slotOf first ≠ seg.slotOf second ∧ SlotInGroup seg first.mapGroup (seg.slotOf first) ∧
      SlotInGroup seg second.mapGroup (seg.slotOf second)) ↔
    ¬BehindComputedGroup seg first ∧ ¬BehindComputedGroup seg second := by
  constructor
  · intro right
    exact ⟨layout.not_behind first inFirst fitsFirst right.2.1,
      layout.not_behind second inSecond fitsSecond right.2.2⟩
  · intro reached
    refine ⟨fun same => differ ?_, layout.slotInGroup first inFirst fitsFirst reached.1,
      layout.slotInGroup second inSecond fitsSecond reached.2⟩
    exact layout.slotOf_injective inFirst inSecond fitsFirst fitsSecond reached.1 reached.2 same

/-- An extent group of the largest extents after its first map group was added. -/
def largestExtentGroup : SegExtentGroup :=
  ensureMapGroup (newExtentGroup 8192 (fun _ => egInitBitmapPageContent 0) fun _ =>
    { firstMap := 0
      freePage := 0
      pageCount := 0 })

theorem largestExtentGroup_layout : MapLayout largestExtentGroup :=
  ((newExtentGroup_invariant 8192 (by decide) _ _).ensureMapGroup).1.mapLayout

/-- The first two of the largest extents have slots of their own. -/
theorem inverse_pointers_are_injective_iff_largest :
    largestExtentGroup.slotOf ⟨0, 0, 0⟩ = ⟨67, 0⟩ ∧ largestExtentGroup.slotOf ⟨0, 0, 1⟩ = ⟨67, 1⟩ ∧
      SlotInGroup largestExtentGroup 0 (largestExtentGroup.slotOf ⟨0, 0, 1⟩) := by
  have right := (inverse_pointers_are_injective_iff largestExtentGroup_layout ⟨0, 0, 0⟩ ⟨0, 0, 1⟩
    (by decide) ⟨by decide, by decide, by decide⟩ ⟨by decide, by decide, by decide⟩
    (by decide) (by decide)).mpr
      ⟨fun behind => absurd behind.2 (by decide),
        fun behind => absurd behind.2 (by decide)⟩
  exact ⟨by decide, by decide, right.2.2⟩

/-- The extent at block 4143976509 gets a slot in a block of its own data. -/
theorem inverse_pointer_lies_in_extent :
    largestExtentGroup.blockOf ⟨0, 7, 49120⟩ = 4143976509 ∧
      largestExtentGroup.slotOf ⟨0, 7, 49120⟩ = ⟨4143977086, 514⟩ ∧
      InExtent largestExtentGroup ⟨0, 7, 49120⟩ (largestExtentGroup.slotOf ⟨0, 7, 49120⟩).ipblock ∧
      ¬SlotInGroup largestExtentGroup 0 (largestExtentGroup.slotOf ⟨0, 7, 49120⟩) := by
  have inside : InExtent largestExtentGroup ⟨0, 7, 49120⟩
      (largestExtentGroup.slotOf ⟨0, 7, 49120⟩).ipblock :=
    { inside := ⟨by decide, by decide, by decide⟩
      fits := by decide
      after := by decide
      before := by decide }
  exact ⟨by decide, by decide, inside, fun right => right.noExtent _ inside⟩

end OpenGauss.Segment
