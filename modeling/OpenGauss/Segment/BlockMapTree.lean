import OpenGauss.Segment.BlockMap
import OpenGauss.Segment.ExtentAllocator

/-!
# The block map tree of a segment

The head of a segment holds the first 1255 of its extents in level-0 slots. The others are in
level-0 pages of 2000 slots each, which are one-block extents of their own and which the level-1
slots of the head point to. Extending a segment stores the new extent in the next slot, and takes
a block for a new level-0 page when the last one is full. This module embeds the extension and
the lookup, and shows over every run that a lookup returns what was stored.
-/
namespace OpenGauss.Segment

open OpenGauss.Base

/-- `BMT_HEADER_LEVEL0_SLOTS`. -/
def bmtHeaderLevel0Slots : Nat := 1255

/-- `BMT_LEVEL0_SLOTS`. -/
def bmtLevel0Slots : Nat := 2000

/-- `SegmentHead`. -/
structure SegmentHead where
  nextents : Nat
  totalBlocks : Nat
  level0Slots : Nat → Nat
  /-- The level-0 pages. The source does not check an index against the 256 declared slots; the
  words behind them are part of the same page. -/
  level1Slots : Nat → Nat

/-- The heads of segments, the level-0 pages with their slots, and the extent group of one-block
extents. -/
structure SegSpace where
  heads : Nat → SegmentHead
  level0Pages : Nat → Nat → Nat
  /-- The extent group of level-0 pages and of segment heads. -/
  group : SegExtentGroup

/-- `ExtentIdToLevel1Slot`. -/
def extentIdToLevel1Slot (extentId : Nat) : Nat :=
  (extentId - bmtHeaderLevel0Slots) / bmtLevel0Slots

/-- `ExtentIdToLevel0PageOffset`. -/
def extentIdToLevel0PageOffset (extentId : Nat) : Nat :=
  (extentId - bmtHeaderLevel0Slots) % bmtLevel0Slots

/-- `ExtentIdToLevel0PageNumber`. -/
def extentIdToLevel0PageNumber (head : SegmentHead) (extentId : Nat) : Nat :=
  head.level1Slots ((extentId - bmtHeaderLevel0Slots) / bmtLevel0Slots)

/-- `RequireNewLevel0Page`. -/
def requireNewLevel0Page (newExtentId : Nat) : Bool :=
  if newExtentId < bmtHeaderLevel0Slots then false
  else (newExtentId - bmtHeaderLevel0Slots) % bmtLevel0Slots == 0

/-- Replace one value of a function. -/
def setAt {α : Type} (values : Nat → α) (index : Nat) (value : α) : Nat → α :=
  fun other => if other = index then value else values other

/-- `seg_init_new_level0_page`; the slots of the page behind the first are zero. -/
def segInitNewLevel0Page (space : SegSpace) (segment newExtentId newLevel0Page firstExtent : Nat) :
    SegSpace :=
  let head := space.heads segment
  { space with
    level0Pages := setAt space.level0Pages newLevel0Page (setAt (fun _ => 0) 0 firstExtent)
    heads := setAt space.heads segment { head with
      level1Slots :=
        setAt head.level1Slots (extentIdToLevel1Slot newExtentId) newLevel0Page } }

/-- `seg_record_new_extent_on_level0_page`. -/
def segRecordNewExtentOnLevel0Page (space : SegSpace)
    (segment newExtentId newExtentFirstPageno : Nat) : SegSpace :=
  let head := space.heads segment
  let level0Pageno := head.level1Slots (extentIdToLevel1Slot newExtentId)
  { space with
    level0Pages := setAt space.level0Pages level0Pageno
      (setAt (space.level0Pages level0Pageno) (extentIdToLevel0PageOffset newExtentId)
        newExtentFirstPageno) }

/-- `seg_extend_segment`, after the allocation of the new extent. The server stops in its critical
section when a level-0 page is needed and the allocation of a block does not succeed in the given
number of rounds. -/
def segExtendSegment (space : SegSpace) (segment newExtent rounds : Nat) : Option SegSpace :=
  let head := space.heads segment
  let newExtentId := head.nextents
  let grown := { head with
    nextents := head.nextents + 1
    totalBlocks := head.totalBlocks + extentSizeByCount head.nextents }
  if newExtentId < bmtHeaderLevel0Slots then
    some { space with heads := setAt space.heads segment { grown with
      level0Slots := setAt head.level0Slots newExtentId newExtent } }
  else if requireNewLevel0Page newExtentId then
    match egAllocExtent none rounds space.group with
    | (none, _) => none
    | (some level0Page, group) =>
      some (segInitNewLevel0Page { space with heads := setAt space.heads segment grown, group }
        segment newExtentId level0Page newExtent)
  else
    some (segRecordNewExtentOnLevel0Page { space with heads := setAt space.heads segment grown }
      segment newExtentId newExtent)

/-- `seg_extent_location`. -/
def segExtentLocation (space : SegSpace) (segment extentId : Nat) : Nat :=
  let head := space.heads segment
  if extentId < bmtHeaderLevel0Slots then head.level0Slots extentId
  else space.level0Pages (extentIdToLevel0PageNumber head extentId)
    ((extentId - bmtHeaderLevel0Slots) % bmtLevel0Slots)

/-- What happens to a space. -/
inductive SegEvent
  | extend (segment newExtent rounds : Nat)
  | group (event : ExtentEvent)
  deriving DecidableEq, Repr

/-- A space, and the extents added to each segment so far. -/
structure SegHistory where
  space : SegSpace
  added : Nat → List Nat

/-- One step of a space. A server that stops finds the space as it was, since the extension is
one log record. -/
def segStep (history : SegHistory) : SegEvent → SegHistory
  | .extend segment newExtent rounds =>
    match segExtendSegment history.space segment newExtent rounds with
    | none => history
    | some space =>
      { space
        added := setAt history.added segment (history.added segment ++ [newExtent]) }
  | .group event =>
    { history with space.group := extentStep history.space.group event }

variable {α : Type} (values : Nat → α) (extentId : Nat) (history : SegHistory)

/-- The changed value. -/
@[simp]
theorem setAt_self (index : Nat) (value : α) : setAt values index value index = value :=
  if_pos rfl

theorem setAt_other {index other : Nat} (value : α)
    (differ : other ≠ index) : setAt values index value other = values other :=
  if_neg differ

/-- A level-1 slot points to a level-0 page that holds extents. -/
def SegmentHead.Holds (head : SegmentHead) (slot : Nat) : Prop :=
  bmtHeaderLevel0Slots + slot * bmtLevel0Slots < head.nextents

theorem SegmentHead.holds_slot {head : SegmentHead} {extentId : Nat}
    (behind : ¬extentId < bmtHeaderLevel0Slots) (present : extentId < head.nextents) :
    head.Holds (extentIdToLevel1Slot extentId) := by
  simp only [SegmentHead.Holds, extentIdToLevel1Slot, bmtLevel0Slots]
    at behind ⊢
  omega

theorem requireNewLevel0Page_iff (behind : ¬extentId < bmtHeaderLevel0Slots) :
    requireNewLevel0Page extentId = true ↔
      extentId = bmtHeaderLevel0Slots + extentIdToLevel1Slot extentId * bmtLevel0Slots := by
  rw [requireNewLevel0Page, if_neg behind]
  simp only [extentIdToLevel1Slot, bmtLevel0Slots] at behind ⊢
  lia

/-- What holds of a space between any two operations. -/
structure TreeInvariant (history : SegHistory) : Prop where
  group : ExtentInvariant history.space.group
  unit : history.space.group.extentSize = 1
  count : ∀ segment, (history.added segment).length = (history.space.heads segment).nextents
  total : ∀ segment, (history.space.heads segment).totalBlocks =
    firstLogicBlock plainSteps (history.space.heads segment).nextents
  stored : ∀ segment extentId, extentId < (history.space.heads segment).nextents →
    (history.added segment)[extentId]? = some (segExtentLocation history.space segment extentId)
  used : ∀ segment slot, (history.space.heads segment).Holds slot →
    UsedBlock history.space.group ((history.space.heads segment).level1Slots slot)
  distinct : ∀ segment slot segment' slot', (history.space.heads segment).Holds slot →
    (history.space.heads segment').Holds slot' →
    (history.space.heads segment).level1Slots slot =
      (history.space.heads segment').level1Slots slot' → segment = segment' ∧ slot = slot'

theorem firstLogicBlock_succ : firstLogicBlock plainSteps (extentId + 1) =
      firstLogicBlock plainSteps extentId + extentSizeByCount extentId := by
  obtain ⟨bound8, bound128, bound1024, -, -, -⟩ := plainSteps.totals
  simp only [firstLogicBlock, extentSizeByCount, sizeByCount, plainSteps]
  split_ifs <;> omega

theorem getElem?_added (added : List Nat) (newExtent extentId value : Nat)
    (cases : (extentId < added.length ∧ added[extentId]? = some value) ∨
      (extentId = added.length ∧ value = newExtent)) :
    (added ++ [newExtent])[extentId]? = some value := by
  rcases cases with ⟨before, same⟩ | ⟨last, new⟩
  · rw [List.getElem?_append_left before, same]
  · rw [last, new, List.getElem?_append_right le_rfl, Nat.sub_self]
    rfl

/-- The location depends on the slot it is read from. -/
theorem segExtentLocation_congr (space space' : SegSpace) (segment extentId : Nat)
    (front : extentId < bmtHeaderLevel0Slots →
      (space'.heads segment).level0Slots extentId = (space.heads segment).level0Slots extentId)
    (slot : ¬extentId < bmtHeaderLevel0Slots →
      (space'.heads segment).level1Slots (extentIdToLevel1Slot extentId) =
        (space.heads segment).level1Slots (extentIdToLevel1Slot extentId))
    (page : ¬extentId < bmtHeaderLevel0Slots →
      space'.level0Pages ((space.heads segment).level1Slots (extentIdToLevel1Slot extentId))
          (extentIdToLevel0PageOffset extentId) =
        space.level0Pages ((space.heads segment).level1Slots (extentIdToLevel1Slot extentId))
          (extentIdToLevel0PageOffset extentId)) :
    segExtentLocation space' segment extentId = segExtentLocation space segment extentId := by
  simp only [segExtentLocation]
  split
  · rename_i before
    exact front before
  · rename_i behind
    change space'.level0Pages ((space'.heads segment).level1Slots (extentIdToLevel1Slot extentId))
      (extentIdToLevel0PageOffset extentId) = _
    rw [slot behind]
    exact page behind

/-- What an extension does to the space: it adds the extent to the segment, stores it where the
lookup finds it, and leaves the other lookups alone. -/
structure Extended (before after : SegSpace) (segment newExtent : Nat) : Prop where
  group : ExtentInvariant after.group
  unit : after.group.extentSize = 1
  nextents : (after.heads segment).nextents = (before.heads segment).nextents + 1
  totalBlocks : (after.heads segment).totalBlocks =
    (before.heads segment).totalBlocks + extentSizeByCount (before.heads segment).nextents
  others : ∀ other, other ≠ segment → after.heads other = before.heads other
  found : segExtentLocation after segment (before.heads segment).nextents = newExtent
  kept : ∀ other extentId, extentId < (before.heads other).nextents →
    segExtentLocation after other extentId = segExtentLocation before other extentId
  used : ∀ other slot, (after.heads other).Holds slot →
    UsedBlock after.group ((after.heads other).level1Slots slot)
  distinct : ∀ other slot other' slot', (after.heads other).Holds slot →
    (after.heads other').Holds slot' →
    (after.heads other).level1Slots slot = (after.heads other').level1Slots slot' →
    other = other' ∧ slot = slot'

/-- An extension keeps the invariant. -/
theorem Extended.invariant {history : SegHistory} (invariant : TreeInvariant history)
    {after : SegSpace} {segment newExtent : Nat}
    (extended : Extended history.space after segment newExtent) :
    TreeInvariant
      { space := after
        added := setAt history.added segment (history.added segment ++ [newExtent]) } := by
  refine
    { group := extended.group
      unit := extended.unit
      count := ?count
      total := ?total
      stored := ?stored
      used := extended.used
      distinct := extended.distinct }
  case count =>
    intro other
    by_cases same : other = segment
    · subst same
      simp only [setAt_self, List.length_append, List.length_singleton]
      rw [extended.nextents, invariant.count]
    · dsimp only
      rw [setAt_other _ _ same, extended.others other same, invariant.count]
  case total =>
    intro other
    by_cases same : other = segment
    · subst same
      rw [extended.nextents, extended.totalBlocks, invariant.total, firstLogicBlock_succ]
    · rw [extended.others other same, invariant.total]
  case stored =>
    intro other extentId present
    dsimp only at present ⊢
    by_cases same : other = segment
    · subst same
      rw [setAt_self]
      rw [extended.nextents] at present
      apply getElem?_added
      rw [invariant.count]
      rcases Nat.lt_succ_iff_lt_or_eq.mp present with before | last
      · left
        rw [extended.kept other extentId before]
        exact ⟨before, invariant.stored other extentId before⟩
      · right
        rw [last]
        exact ⟨rfl, extended.found⟩
    · rw [extended.others other same] at present
      rw [setAt_other _ _ same, extended.kept other extentId present]
      exact invariant.stored other extentId present

section

variable (invariant : TreeInvariant history) (segment newExtent rounds : Nat) (after : SegSpace)
include invariant segment newExtent rounds after

variable {segment newExtent rounds after}

/-- A segment is extended in its head. -/
theorem segExtendSegment_head
    (front : (history.space.heads segment).nextents < bmtHeaderLevel0Slots)
    (done : segExtendSegment history.space segment newExtent rounds = some after) :
    Extended history.space after segment newExtent := by
  simp only [segExtendSegment, if_pos front, Option.some.injEq] at done
  subst done
  -- The segment still has no level-0 page.
  have none (slot : Nat) (holds : bmtHeaderLevel0Slots + slot * bmtLevel0Slots <
      (history.space.heads segment).nextents + 1) : False := by
    omega
  refine
    { group := invariant.group
      unit := invariant.unit
      nextents := by simp
      totalBlocks := by simp
      others := fun other differ => by simp [setAt_other _ _ differ]
      found := by simp [segExtentLocation, front]
      kept := ?kept
      used := ?used
      distinct := ?distinct }
  case kept =>
    intro other extentId present
    by_cases same : other = segment
    · subst same
      apply segExtentLocation_congr
      · intro _
        simp only [setAt_self]
        exact setAt_other _ _ (by omega)
      · exact fun behind => absurd (lt_trans present front) behind
      · exact fun behind => absurd (lt_trans present front) behind
    · apply segExtentLocation_congr <;> intro _ <;> simp [setAt_other _ _ same]
  case used =>
    intro other slot holds
    dsimp only at holds ⊢
    by_cases same : other = segment
    · subst same
      rw [setAt_self] at holds
      exact (none slot holds).elim
    · rw [setAt_other _ _ same] at holds ⊢
      exact invariant.used other slot holds
  case distinct =>
    intro other slot other' slot' holds holds' equal
    dsimp only at holds holds' equal
    by_cases same : other = segment
    · subst same
      rw [setAt_self] at holds
      exact (none slot holds).elim
    · by_cases same' : other' = segment
      · subst same'
        rw [setAt_self] at holds'
        exact (none slot' holds').elim
      · rw [setAt_other _ _ same] at holds equal
        rw [setAt_other _ _ same'] at holds' equal
        exact invariant.distinct other slot other' slot' holds holds' equal

/-- An extension that starts a new level-0 page. -/
theorem segExtendSegment_newPage
    (behind : ¬(history.space.heads segment).nextents < bmtHeaderLevel0Slots)
    (needed : requireNewLevel0Page (history.space.heads segment).nextents = true)
    (done : segExtendSegment history.space segment newExtent rounds = some after) :
    Extended history.space after segment newExtent := by
  have alloc := egAllocExtent_freshBlock rounds history.space.group invariant.group
  have start := (requireNewLevel0Page_iff _ behind).mp needed
  simp only [segExtendSegment, if_neg behind, if_pos needed] at done
  generalize egAllocExtent none rounds history.space.group = result at alloc done
  obtain ⟨block, group⟩ := result
  cases block with
  | none => simp at done
  | some block =>
  have fresh := alloc.fresh block rfl
  simp only [Option.some.injEq, segInitNewLevel0Page] at done
  generalize place : extentIdToLevel1Slot (history.space.heads segment).nextents = slot
    at start done
  have offset : extentIdToLevel0PageOffset (history.space.heads segment).nextents = 0 := by
    simp only [extentIdToLevel0PageOffset, bmtLevel0Slots] at start ⊢
    omega
  have others (other : Nat) (differ : other ≠ segment) :
      after.heads other = history.space.heads other := by
    rw [← done]
    simp [setAt_other _ _ differ]
  have nextents : (after.heads segment).nextents = (history.space.heads segment).nextents + 1 := by
    rw [← done]
    simp
  have level1 : (after.heads segment).level1Slots =
      setAt (history.space.heads segment).level1Slots slot block := by
    rw [← done]
    simp
  -- The pages in use before are not the new one.
  have apart (other position : Nat) (holds : (history.space.heads other).Holds position) :
      (history.space.heads other).level1Slots position ≠ block := by
    intro equal
    apply fresh
    rw [← equal]
    exact invariant.used other position holds
  -- The page of a slot after the extension is the new one, or one in use before.
  have pages (other position : Nat) (holds : (after.heads other).Holds position) :
      (other = segment ∧ position = slot ∧ (after.heads other).level1Slots position = block) ∨
        ((history.space.heads other).Holds position ∧ (after.heads other).level1Slots position =
          (history.space.heads other).level1Slots position) := by
    by_cases same : other = segment
    · subst same
      rw [level1]
      by_cases new : position = slot
      · left
        rw [new, setAt_self]
        exact ⟨rfl, rfl, rfl⟩
      · right
        refine ⟨?_, setAt_other _ _ new⟩
        simp only [SegmentHead.Holds, bmtLevel0Slots] at holds start ⊢
        lia
    · right
      rw [others other same] at holds ⊢
      exact ⟨holds, rfl⟩
  refine
    { group := ?group
      unit := ?unit
      nextents := nextents
      totalBlocks := ?totalBlocks
      others := others
      found := ?found
      kept := ?kept
      used := ?used
      distinct := ?distinct }
  case group =>
    rw [← done]
    exact alloc.invariant
  case unit =>
    rw [← done]
    exact alloc.extentSize.trans invariant.unit
  case totalBlocks =>
    rw [← done]
    simp
  case found =>
    simp only [segExtentLocation, if_neg behind, extentIdToLevel0PageNumber]
    rw [level1]
    change after.level0Pages (setAt (history.space.heads segment).level1Slots slot block
      (extentIdToLevel1Slot _)) (extentIdToLevel0PageOffset _) = newExtent
    rw [place, offset, ← done]
    simp
  case kept =>
    intro other extentId present
    have level0 : (after.heads other).level0Slots = (history.space.heads other).level0Slots := by
      by_cases same : other = segment
      · rw [same, ← done]
        simp
      · rw [others other same]
    apply segExtentLocation_congr
    · exact fun _ => congrFun level0 extentId
    · intro later
      have holds := SegmentHead.holds_slot later present
      by_cases same : other = segment
      · rw [same, level1]
        rw [same, SegmentHead.Holds] at holds
        apply setAt_other
        intro equal
        rw [equal] at holds
        omega
      · rw [others other same]
    · intro later
      have holds := SegmentHead.holds_slot later present
      rw [← done]
      dsimp only
      rw [setAt_other _ _ (apart other _ holds)]
  case used =>
    intro other position holds
    rcases pages other position holds with ⟨-, -, new⟩ | ⟨before, same⟩
    · rw [new, ← done]
      exact alloc.taken block rfl
    · rw [same, ← done]
      exact alloc.keeps _ (invariant.used other position before)
  case distinct =>
    intro other position other' position' holds holds' equal
    rcases pages other position holds with ⟨here, place, new⟩ | ⟨before, same⟩
    · rcases pages other' position' holds' with ⟨here', place', new'⟩ | ⟨before', same'⟩
      · exact ⟨here.trans here'.symm, place.trans place'.symm⟩
      · rw [new, same'] at equal
        exact absurd equal.symm (apart other' position' before')
    · rcases pages other' position' holds' with ⟨here', place', new'⟩ | ⟨before', same'⟩
      · rw [new', same] at equal
        exact absurd equal (apart other position before)
      · rw [same, same'] at equal
        exact invariant.distinct other position other' position' before before' equal

/-- An extension that uses the next slot of a level-0 page. -/
theorem segExtendSegment_nextSlot
    (behind : ¬(history.space.heads segment).nextents < bmtHeaderLevel0Slots)
    (same : ¬requireNewLevel0Page (history.space.heads segment).nextents = true)
    (done : segExtendSegment history.space segment newExtent rounds = some after) :
    Extended history.space after segment newExtent := by
  rw [requireNewLevel0Page_iff _ behind] at same
  simp only [segExtendSegment, if_neg behind] at done
  rw [if_neg (by rw [requireNewLevel0Page_iff _ behind]; exact same)] at done
  simp only [Option.some.injEq, segRecordNewExtentOnLevel0Page, setAt_self] at done
  have others (other : Nat) (differ : other ≠ segment) :
      after.heads other = history.space.heads other := by
    rw [← done]
    simp [setAt_other _ _ differ]
  have nextents : (after.heads segment).nextents = (history.space.heads segment).nextents + 1 := by
    rw [← done]
    simp
  have slots (other : Nat) :
      (after.heads other).level0Slots = (history.space.heads other).level0Slots ∧
        (after.heads other).level1Slots = (history.space.heads other).level1Slots := by
    by_cases here : other = segment
    · rw [here, ← done]
      simp
    · rw [others other here]
      exact ⟨rfl, rfl⟩
  -- The slot of the new extent points to a page already.
  have holds : (history.space.heads segment).Holds
      (extentIdToLevel1Slot (history.space.heads segment).nextents) := by
    simp only [SegmentHead.Holds, extentIdToLevel1Slot, bmtLevel0Slots]
      at behind same ⊢
    grind
  have held (other position : Nat) (holding : (after.heads other).Holds position) :
      (history.space.heads other).Holds position := by
    by_cases here : other = segment
    · simp only [SegmentHead.Holds, extentIdToLevel1Slot, bmtLevel0Slots]
        at behind same holding ⊢
      grind
    · rw [others other here] at holding
      exact holding
  have group : after.group = history.space.group := by
    rw [← done]
  refine
    { group := by rw [group]; exact invariant.group
      unit := by rw [group]; exact invariant.unit
      nextents := nextents
      totalBlocks := by rw [← done]; simp
      others := others
      found := ?found
      kept := ?kept
      used := ?used
      distinct := ?distinct }
  case found =>
    simp only [segExtentLocation, if_neg behind, extentIdToLevel0PageNumber]
    rw [(slots segment).2]
    change after.level0Pages ((history.space.heads segment).level1Slots (extentIdToLevel1Slot _))
      (extentIdToLevel0PageOffset _) = newExtent
    rw [← done]
    simp
  case kept =>
    intro other extentId present
    apply segExtentLocation_congr
    · exact fun _ => congrFun (slots other).1 extentId
    · exact fun _ => congrFun (slots other).2 _
    · intro later
      have here := SegmentHead.holds_slot later present
      rw [← done]
      dsimp only
      by_cases page : (history.space.heads other).level1Slots (extentIdToLevel1Slot extentId) =
          (history.space.heads segment).level1Slots
            (extentIdToLevel1Slot (history.space.heads segment).nextents)
      · -- The page is the same, so the slot in it is another one.
        obtain ⟨whose, position⟩ := invariant.distinct _ _ _ _ here holds page
        rw [page, setAt_self]
        apply setAt_other
        simp only [extentIdToLevel1Slot, extentIdToLevel0PageOffset,
          bmtLevel0Slots] at later behind position ⊢
        grind
      · rw [setAt_other _ _ page]
  case used =>
    intro other position holding
    rw [group, (slots other).2]
    exact invariant.used other position (held other position holding)
  case distinct =>
    intro other position other' position' holding holding' equal
    rw [(slots other).2, (slots other').2] at equal
    exact invariant.distinct other position other' position' (held other position holding)
      (held other' position' holding') equal

theorem segExtendSegment_extended
    (done : segExtendSegment history.space segment newExtent rounds = some after) :
    Extended history.space after segment newExtent := by
  by_cases front : (history.space.heads segment).nextents < bmtHeaderLevel0Slots
  · exact segExtendSegment_head history invariant front done
  · by_cases needed : requireNewLevel0Page (history.space.heads segment).nextents = true
    · exact segExtendSegment_newPage history invariant front needed done
    · exact segExtendSegment_nextSlot history invariant front needed done

end

/-- Other users of the extent group leave level-0 pages alone: the extent that is located for a
free is none of them. -/
def OtherBlocks (history : SegHistory) : SegEvent → Prop
  | .group (.free blocknum) => ∀ segment slot, (history.space.heads segment).Holds slot →
      (history.space.heads segment).level1Slots slot ≠ history.space.group.blockOf
        (egLocateMapByPageid history.space.group blocknum).toSpaceMapLocation
  | _ => True

theorem TreeInvariant.group_step (invariant : TreeInvariant history) (event : ExtentEvent)
    (kept : ExtentInvariant (extentStep history.space.group event))
    (size : (extentStep history.space.group event).extentSize = history.space.group.extentSize)
    (used : ∀ segment slot, (history.space.heads segment).Holds slot →
      UsedBlock (extentStep history.space.group event)
        ((history.space.heads segment).level1Slots slot)) :
    TreeInvariant (segStep history (.group event)) :=
  { group := kept
    unit := size.trans invariant.unit
    count := invariant.count
    total := invariant.total
    stored := invariant.stored
    used := used
    distinct := invariant.distinct }

/-- A step keeps the invariant. -/
theorem TreeInvariant.step {history : SegHistory} {event : SegEvent}
    (invariant : TreeInvariant history) (others : OtherBlocks history event) :
    TreeInvariant (segStep history event) := by
  cases event with
  | extend segment newExtent rounds =>
    rw [segStep]
    cases done : segExtendSegment history.space segment newExtent rounds with
    | none => exact invariant
    | some after =>
      have extended :=
        segExtendSegment_extended history invariant done
      exact extended.invariant invariant
  | group event =>
    cases event with
    | alloc preassignedBlock =>
      apply invariant.group_step
      · exact invariant.group.allocRound _ preassignedBlock
      · exact invariant.group.allocRound_extentSize _ preassignedBlock
      · intro segment slot holds
        exact invariant.group.allocRound_usedBlock _ preassignedBlock _
          (invariant.used segment slot holds)
    | free blocknum =>
      apply invariant.group_step
      · exact invariant.group.step _ (.free blocknum)
      · rw [extentStep]
        cases freed : egFreeExtent history.space.group blocknum with
        | none => rfl
        | some after => exact egFreeExtent_extentSize freed
      · intro segment slot holds
        rw [extentStep]
        have before := invariant.used segment slot holds
        cases freed : egFreeExtent history.space.group blocknum with
        | none => exact before
        | some after =>
          exact invariant.group.egFreeExtent_usedBlock freed before (others segment slot holds)

end OpenGauss.Segment
