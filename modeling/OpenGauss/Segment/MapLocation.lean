import OpenGauss.Segment.ExtentAllocator

/-!
# Locating a block in the map

`eg_locate_map_by_pageid` is the inverse of the computation of an extent's block from its bit. It
enters every group it looks at into its result, so that a block it does not find gets the first
extent of the last group, and it computes the end of a group's range with 32 bits. The module says
exactly for which blocks its result is right.
-/

namespace OpenGauss.Segment

/-- The block lies in the range of the extents of a group. -/
def InDataRange (seg : SegExtentGroup) (mapGroup pageId : Nat) : Prop :=
  (seg.mapHead.groups mapGroup).firstMap + dfMapGroupSize + ipblockGroupSize ≤ pageId ∧
    pageId < (seg.mapHead.groups mapGroup).firstMap + dfMapGroupSize + ipblockGroupSize +
      dfMapGroupExtents * seg.extentSize

/-- The block lies in the extent that an allocation hands out for the bit of a location, one whose
blocks all have numbers. -/
structure InExtent (seg : SegExtentGroup) (location : SpaceMapLocation) (pageId : Nat) : Prop where
  inside : InMap seg location
  fits : extentStart seg.extentSize location + seg.extentSize ≤ 4294967296
  after : seg.blockOf location ≤ pageId
  before : pageId < seg.blockOf location + seg.mapHead.bitUnit

/-- The result is recognised as invalid exactly if the block lies in no group's range, and is
otherwise the only location in whose extent it lies. -/
def LocatesRight (seg : SegExtentGroup) (pageId : Nat) : Prop :=
  let location := egLocateMapByPageid seg pageId
  ((∀ mapGroup < seg.mapHead.groupCount, ¬InDataRange seg mapGroup pageId) →
    mapLocationIsInvalid location = true) ∧
  ((∃ mapGroup < seg.mapHead.groupCount, InDataRange seg mapGroup pageId) →
    mapLocationIsInvalid location = false ∧ location.group = seg.mapHead.groups location.mapGroup ∧
      InExtent seg location.toSpaceMapLocation pageId ∧
      ∀ other, InExtent seg other pageId → other = location.toSpaceMapLocation)

variable {seg : SegExtentGroup} {pageId : Nat}

theorem MapLayout.inDataRange_iff (layout : MapLayout seg) (mapGroup : Nat)
    (present : mapGroup < seg.mapHead.groupCount) :
    InDataRange seg mapGroup pageId ↔ dataStart seg.extentSize mapGroup ≤ pageId ∧
      pageId < dataStart seg.extentSize mapGroup + dfMapGroupExtents * seg.extentSize := by
  rw [InDataRange, layout.firstMap mapGroup present]
  rfl

/-- When a page is in an extent. -/
theorem MapLayout.inExtent_iff (layout : MapLayout seg) (location : SpaceMapLocation) :
    InExtent seg location pageId ↔ InMap seg location ∧
      extentStart seg.extentSize location + seg.extentSize ≤ 4294967296 ∧
      extentStart seg.extentSize location ≤ pageId ∧
      pageId < extentStart seg.extentSize location + seg.extentSize := by
  obtain ⟨positive, -⟩ := extentSize_bounds layout.unit
  have block (inside : InMap seg location)
      (fits : extentStart seg.extentSize location + seg.extentSize ≤ 4294967296) :
      seg.blockOf location = extentStart seg.extentSize location :=
    layout.blockOf inside (by omega)
  constructor
  · intro extent
    have start := block extent.inside extent.fits
    have after := extent.after
    have before := extent.before
    rw [start] at after before
    rw [layout.bitUnit] at before
    exact ⟨extent.inside, extent.fits, after, before⟩
  · intro ⟨inside, fits, after, before⟩
    have start := block inside fits
    exact
      { inside := inside
        fits := fits
        after := by rw [start]; exact after
        before := by rw [start, layout.bitUnit]; exact before }

theorem MapLayout.inExtent_unique (layout : MapLayout seg) {first second : SpaceMapLocation}
    (inFirst : InExtent seg first pageId) (inSecond : InExtent seg second pageId) :
    first = second := by
  obtain ⟨insideFirst, -, afterFirst, beforeFirst⟩ := (layout.inExtent_iff first).mp inFirst
  obtain ⟨insideSecond, -, afterSecond, beforeSecond⟩ := (layout.inExtent_iff second).mp inSecond
  by_contra differ
  rcases first.before_or_after second differ with before | after
  · have order :=
      extentStart_before seg.extentSize _ _ insideFirst.page insideFirst.bit before
    omega
  · have order :=
      extentStart_before seg.extentSize _ _ insideSecond.page insideSecond.bit after
    omega

theorem MapLayout.inDataRange_of_inExtent (layout : MapLayout seg) {location : SpaceMapLocation}
    (extent : InExtent seg location pageId) : InDataRange seg location.mapGroup pageId := by
  obtain ⟨inside, -, after, before⟩ := (layout.inExtent_iff location).mp extent
  have start := dataStart_le seg.extentSize location
  have ends := extentStart_lt seg.extentSize location inside.page inside.bit
  obtain ⟨-, -, -, extents, -, -⟩ := map_constants
  rw [layout.inDataRange_iff _ inside.group, extents]
  omega

theorem MapLayout.locatesRight_of_inExtent (layout : MapLayout seg)
    (extent : InExtent seg (egLocateMapByPageid seg pageId).toSpaceMapLocation pageId) :
    LocatesRight seg pageId := by
  have some : 0 < seg.mapHead.groupCount := Nat.zero_lt_of_lt extent.inside.group
  have valid : ¬mapLocationIsInvalid (egLocateMapByPageid seg pageId) = true := by
    rw [mapLocationIsInvalid_iff seg layout pageId]
    omega
  constructor
  · intro outside
    exact absurd (layout.inDataRange_of_inExtent extent) (outside _ extent.inside.group)
  · intro _
    exact ⟨Bool.eq_false_of_not_eq_true valid,
      (egLocateMapByPageid_spec seg layout pageId some).2.2, extent,
      fun other inOther => layout.inExtent_unique inOther extent⟩

/-- Locating a block is right exactly if there is no group, or the block lies in the range of a
group before the place where its end wraps to, or in the first extent of the last group. -/
theorem eg_locate_map_by_pageid_right_iff (layout : MapLayout seg) (pageId : Nat) :
    LocatesRight seg pageId ↔ seg.mapHead.groupCount = 0 ∨ ∃ mapGroup < seg.mapHead.groupCount,
          dataStart seg.extentSize mapGroup ≤ pageId ∧
            (pageId < wrap32 (dataStart seg.extentSize mapGroup +
                dfMapGroupExtents * seg.extentSize) ∨ (mapGroup + 1 = seg.mapHead.groupCount ∧
                pageId < dataStart seg.extentSize mapGroup + seg.extentSize)) := by
  by_cases none : seg.mapHead.groupCount = 0
  · refine iff_of_true ⟨fun _ => ?_, fun ⟨mapGroup, present, _⟩ => ?_⟩ (.inl none)
    · exact (mapLocationIsInvalid_iff seg layout pageId).mpr none
    · exact absurd present (by omega)
  · rcases locateFrom_cases seg layout pageId _ 0 zeroLocation (Nat.zero_add _) ⟨rfl, rfl⟩ with
      ⟨mapGroup, present, here, found⟩ | ⟨missing, last⟩
    · -- The scan stops at the group, at the extent of the block.
      have place := congrArg MapLocation.toSpaceMapLocation found
      obtain ⟨inside, fits, after, before⟩ :=
        scannedLocation_spec seg layout present here
      refine iff_of_true (layout.locatesRight_of_inExtent ?_)
        (.inr ⟨mapGroup, present, here.1, .inl here.2⟩)
      rw [egLocateMapByPageid, place]
      exact (layout.inExtent_iff _).mpr ⟨inside, fits.le, after, before⟩
    · -- The result is the first extent of the last group, where the block lies by chance only.
      rw [if_neg none] at last
      have place := congrArg MapLocation.toSpaceMapLocation last
      obtain ⟨inside, start, fits⟩ :=
        firstExtent_spec seg layout (seg.mapHead.groupCount - 1) (by omega)
      have extent : InExtent seg (egLocateMapByPageid seg pageId).toSpaceMapLocation pageId ↔
          dataStart seg.extentSize (seg.mapHead.groupCount - 1) ≤ pageId ∧
            pageId < dataStart seg.extentSize (seg.mapHead.groupCount - 1) + seg.extentSize := by
        rw [egLocateMapByPageid, place, layout.inExtent_iff, start]
        rw [start] at fits
        exact ⟨fun held => held.2.2, fun held => ⟨inside, fits.le, held⟩⟩
      constructor
      · intro right
        by_cases ranged : ∃ mapGroup < seg.mapHead.groupCount, InDataRange seg mapGroup pageId
        · obtain ⟨-, -, held, -⟩ := right.2 ranged
          have bounds := extent.mp held
          exact .inr ⟨seg.mapHead.groupCount - 1, by omega, bounds.1, .inr ⟨by omega, bounds.2⟩⟩
        · have invalid := right.1 (fun mapGroup present range => ranged ⟨mapGroup, present, range⟩)
          exact absurd ((mapLocationIsInvalid_iff seg layout pageId).mp invalid) none
      · rintro (empty | ⟨mapGroup, present, after, before | ⟨final, before⟩⟩)
        · exact absurd empty none
        · exact absurd ⟨after, before⟩ (missing mapGroup (Nat.zero_le _) present)
        · have same : mapGroup = seg.mapHead.groupCount - 1 := by omega
          rw [same] at after before
          exact layout.locatesRight_of_inExtent (extent.mpr ⟨after, before⟩)

theorem firstGroup_layout : MapLayout (ensureMapGroup emptyExtentGroup) :=
  ((newExtentGroup_invariant 1 (by decide) _ _).ensureMapGroup).1.mapLayout

/-- A block of the second map page is located. -/
theorem eg_locate_map_by_pageid_right_iff_second_page :
    LocatesRight (ensureMapGroup emptyExtentGroup) 70000 :=
  (eg_locate_map_by_pageid_right_iff firstGroup_layout 70000).mpr
    (.inr ⟨0, by decide, by decide, .inl (by decide)⟩)

/-- The map head's own page is located in the first extent of the only group. -/
theorem eg_locate_map_by_pageid_takes_last_group :
    egLocateMapByPageid (ensureMapGroup emptyExtentGroup) 2 =
        { mapGroup := 0
          mapId := 0
          bitId := 0
          group := (ensureMapGroup emptyExtentGroup).mapHead.groups 0 } ∧
      ¬LocatesRight (ensureMapGroup emptyExtentGroup) 2 := by
  refine ⟨by decide, fun right => ?_⟩
  have outside : ∀ mapGroup < (ensureMapGroup emptyExtentGroup).mapHead.groupCount,
      ¬InDataRange (ensureMapGroup emptyExtentGroup) mapGroup 2 := by
    intro mapGroup _ range
    have size : ipblockGroupSize = 4090 := map_constants.2.2.2.2.1
    have start := range.1
    omega
  exact absurd (right.1 outside) (by decide)

end OpenGauss.Segment
