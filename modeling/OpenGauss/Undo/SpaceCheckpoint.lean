import OpenGauss.Undo.MetaCheckpoint
import OpenGauss.Undo.MetaInit
import OpenGauss.Undo.Space

/-!
# Checkpoints of undo spaces

`CheckPointUndoSpace` stores head, tail and log position of the persistent spaces, and
`RecoveryUndoSpace` reads them back. The walks are those of the metadata file; here are the
entry, the recovered state, and what a recovery after a checkpoint gives every zone. The
write of the last unit is one page long whatever the unit holds, so the entries behind that
page stay what they were.
-/
namespace OpenGauss.Undo

open Function OpenGauss.Base

/-- `GetSpace`. -/
def UndoZone.getSpace (zone : UndoZone) : UndoSpaceType → UndoSpace
  | .undoLogSpace => zone.undoSpace
  | .undoSlotSpace => zone.slotSpace

/-- Replace a space of a zone. -/
def UndoZone.setSpace (zone : UndoZone) (type : UndoSpaceType) (space : UndoSpace) : UndoZone :=
  match type with
  | .undoLogSpace => { zone with undoSpace := space }
  | .undoSlotSpace => { zone with slotSpace := space }

@[simp] theorem UndoZone.getSpace_setSpace (zone : UndoZone) (type : UndoSpaceType)
    (space : UndoSpace) : (zone.setSpace type space).getSpace type = space := by
  cases type <;> rfl

/-- `ZONE_COUNT_PER_LEVELS`: the zones of a level that divide evenly among the nodes. -/
def zoneCountPerLevels (nodeCount : Nat) : Nat := persistZoneCount / nodeCount * nodeCount

/-- The entry `CheckPointUndoSpace` builds for a zone. -/
def spaceMeta (nodeCount : Nat) (type : UndoSpaceType) (zoneId : Nat) :
    Option UndoZone → UndoSpaceMetaInfo
  | some zone =>
    if zoneId < zoneCountPerLevels nodeCount then
      let space := zone.getSpace type
      ⟨undoSpaceMetaVersion, 0, UInt64.ofNat space.lsn, UInt64.ofNat space.head,
        UInt64.ofNat space.tail⟩
    else emptySpaceMeta
  | none => emptySpaceMeta

/-- How spaces are stored in the metadata file. -/
def spaceTable (nodeCount : Nat) (type : UndoSpaceType) : MetaTable UndoZone where
  kind := .space
  base := type.base
  entry zoneId zone := undoSpaceMetaInfo.write (spaceMeta nodeCount type zoneId zone)
  dirty zone := (zone.getSpace type).dirty
  clean zone := zone.setSpace type { zone.getSpace type with dirty := false }
  entry_length := by
    intro zoneId zone
    exact undoSpaceMetaInfo.write_length _

/-- `CheckPointUndoSpace`: the file and the zones afterwards. -/
def checkPointUndoSpace (crc : List UInt8 → UInt32) (nodeCount : Nat) (type : UndoSpaceType)
    (file : List UInt8) (zones : Nat → Option UndoZone) :
    List UInt8 × (Nat → Option UndoZone) :=
  checkPointTable crc (spaceTable nodeCount type) file zones

/-- The part of `undo_cxt` that a recovery fills. -/
structure UndoContext where
  uZones : Nat → Option UndoZone
  /-- `uZoneBitmap` of the permanent level: zones that may be handed out. -/
  uZoneBitmap : Nat → Bool
  undoTotalSize : Nat
  undoMetaSize : Nat

/-- `UndoSpace::Used`: blocks between head and tail. -/
def UndoSpace.usedBlocks (space : UndoSpace) : Nat :=
  if space.tail < space.head then 0 else (space.tail - space.head) / blcksz % 2 ^ 32

/-- `GetUndoZone` during recovery: a missing zone is allocated. -/
def getUndoZone (zones : Nat → Option UndoZone) (zoneId : Nat) : UndoZone :=
  (zones zoneId).getD (UndoZone.init zoneId .permanent)

/-- Largest tail a zone may have and still be handed out, for a limit of undo bytes for each
transaction. -/
def maxTail (transUndoThresholdSize : Nat) : Nat :=
  wordSub (wordSub undoLogMaxSize transUndoThresholdSize) (usegSize .undo)

/-- Restore the space of one zone from its entry. -/
def restoreSpace (type : UndoSpaceType) (transUndoThresholdSize : Nat) (zoneId : Nat)
    (entry : List UInt8) (context : UndoContext) : UndoContext :=
  let info := undoSpaceMetaInfo.read entry
  if info.tail = 0 ∧ (context.uZones zoneId).isNone then context
  else
    let head := info.head.toNat
    let space : UndoSpace := ⟨head, head, info.tail.toNat, info.lsn.toNat, false⟩
    let zone := (getUndoZone context.uZones zoneId).setSpace type space
    { context with
      uZones := update context.uZones zoneId (some zone)
      uZoneBitmap :=
        if space.tail < space.head ∨ maxTail transUndoThresholdSize < space.tail then
          update context.uZoneBitmap zoneId false
        else context.uZoneBitmap
      undoTotalSize := (context.undoTotalSize + space.usedBlocks) % 2 ^ 32 }

/-- `RecoveryUndoSpace`; an error of the source is `none`. -/
def recoveryUndoSpace (crc : List UInt8 → UInt32) (type : UndoSpaceType)
    (transUndoThresholdSize : Nat) (file : List UInt8) (context : UndoContext) :
    Option UndoContext :=
  let metaSize := MetaKind.space.pageCount * undoMetaPageSize / blcksz
  recoverTable crc .space file (restoreSpace type transUndoThresholdSize) type.base
    { context with undoMetaSize := (context.undoMetaSize + metaSize) % 2 ^ 32 }

/-- What the metadata file is meant to keep of a space. -/
structure SpaceValues where
  lsn : Nat
  head : Nat
  tail : Nat
deriving DecidableEq

/-- The values of a space in memory; a zone that was never allocated has an empty one. -/
def liveValues (type : UndoSpaceType) (zones : Nat → Option UndoZone) (zoneId : Nat) :
    SpaceValues :=
  match zones zoneId with
  | some zone => ⟨(zone.getSpace type).lsn, (zone.getSpace type).head, (zone.getSpace type).tail⟩
  | none => ⟨0, 0, 0⟩

/-- The values of a stored space. -/
def UndoSpaceMetaInfo.values (info : UndoSpaceMetaInfo) : SpaceValues :=
  ⟨info.lsn.toNat, info.head.toNat, info.tail.toNat⟩

/-- The values the file holds for a zone. -/
def savedValues (type : UndoSpaceType) (file : List UInt8) (zoneId : Nat) : SpaceValues :=
  (undoSpaceMetaInfo.read (entryAt .space file type.base zoneId)).values

/-- What a recovery makes of stored values: an entry without a tail does not bring a missing
zone into being. -/
def readBack (present : Bool) (values : SpaceValues) : SpaceValues :=
  if values.tail = 0 ∧ present = false then ⟨0, 0, 0⟩ else values

/-- Restoring zone by zone restores each. -/
theorem restore_fold {restore : Nat → List UInt8 → UndoContext → UndoContext}
    {restored : Nat → List UInt8 → Option UndoZone → Option UndoZone}
    (self : ∀ zoneId entry context,
      (restore zoneId entry context).uZones zoneId = restored zoneId entry (context.uZones zoneId))
    (other : ∀ zoneId entry context distinct, distinct ≠ zoneId →
      (restore zoneId entry context).uZones distinct = context.uZones distinct)
    (entries : Nat → List UInt8) (context : UndoContext) (count zoneId : Nat) :
    ((List.range count).foldl (fun context zoneId => restore zoneId (entries zoneId) context)
      context).uZones zoneId =
      if zoneId < count then restored zoneId (entries zoneId) (context.uZones zoneId)
      else context.uZones zoneId := by
  induction count with
  | zero => simp
  | succ count ih =>
    rw [List.range_succ, List.foldl_append, List.foldl_cons, List.foldl_nil]
    by_cases here : zoneId = count
    · subst here
      rw [self, ih, if_neg (by omega), if_pos (by omega)]
    · rw [other _ _ _ _ here, ih]
      simp only [show zoneId < count + 1 ↔ zoneId < count by lia]

section Recovery

variable (crc : List UInt8 → UInt32) (type : UndoSpaceType) (transUndoThresholdSize : Nat)
  (file : List UInt8)

/-- What an entry makes of a zone. -/
def restoredSpace (zoneId : Nat) (entry : List UInt8) (zone : Option UndoZone) : Option UndoZone :=
  let info := undoSpaceMetaInfo.read entry
  if info.tail = 0 ∧ zone.isNone then zone
  else some ((zone.getD (UndoZone.init zoneId .permanent)).setSpace type
    ⟨info.head.toNat, info.head.toNat, info.tail.toNat, info.lsn.toNat, false⟩)

variable (zoneId : Nat) (entry : List UInt8) (context : UndoContext)

theorem restoreSpace_self :
    (restoreSpace type transUndoThresholdSize zoneId entry context).uZones zoneId =
      restoredSpace type zoneId entry (context.uZones zoneId) := by
  simp only [restoreSpace, restoredSpace]
  split
  · rfl
  · exact update_self _ _ _

theorem restoreSpace_other (distinct : Nat) (apart : distinct ≠ zoneId) :
    (restoreSpace type transUndoThresholdSize zoneId entry context).uZones distinct =
      context.uZones distinct := by
  simp only [restoreSpace]
  split
  · rfl
  · exact update_of_ne apart _ _

/-- What is restored has the values of the entry. -/
theorem restoredSpace_values {zones : Nat → Option UndoZone} {zoneId : Nat} {entry : List UInt8}
    {zone : Option UndoZone} (isRestored : zones zoneId = restoredSpace type zoneId entry zone) :
    liveValues type zones zoneId = readBack zone.isSome (undoSpaceMetaInfo.read entry).values := by
  have noTail : (undoSpaceMetaInfo.read entry).values.tail = 0 ↔
      (undoSpaceMetaInfo.read entry).tail = 0 := by
    rw [← UInt64.toNat_inj]
    rfl
  unfold liveValues
  rw [isRestored]
  by_cases skipped : (undoSpaceMetaInfo.read entry).tail = 0 ∧ zone.isNone
  · obtain ⟨empty, missing⟩ := skipped
    rw [Option.isNone_iff_eq_none.mp missing]
    simp [restoredSpace, readBack, noTail, empty]
  · have kept : ¬ ((undoSpaceMetaInfo.read entry).values.tail = 0 ∧ zone.isSome = false) := by
      rw [noTail]
      simpa using skipped
    simp only [readBack, kept, if_false, restoredSpace, skipped, UndoZone.getSpace_setSpace]
    rfl

variable {file}

theorem recoveryUndoSpace_values (valid : AreaValid crc .space file type.base) :
    ∃ context', recoveryUndoSpace crc type transUndoThresholdSize file context = some context' ∧
      ∀ zoneId < persistZoneCount, liveValues type context'.uZones zoneId =
        readBack (context.uZones zoneId).isSome (savedValues type file zoneId) := by
  refine ⟨_, recoverTable_eq (restoreSpace type transUndoThresholdSize) type.base _ valid, ?_⟩
  intro zoneId inside
  have here := restore_fold
    (restoreSpace_self type transUndoThresholdSize) (restoreSpace_other type transUndoThresholdSize)
    (entryAt .space file type.base) { context with undoMetaSize := (context.undoMetaSize +
      MetaKind.space.pageCount * undoMetaPageSize / blcksz) % 2 ^ 32 } persistZoneCount zoneId
  rw [if_pos inside] at here
  exact restoredSpace_values type here

end Recovery

section Checkpoint

variable (crc : List UInt8 → UInt32) (nodeCount : Nat) (type : UndoSpaceType) (file : List UInt8)
  (zones : Nat → Option UndoZone)

/-- First zone behind the first page of the last write unit. -/
def firstLostZone : Nat := 349455

variable (zoneId : Nat)

/-- The pages that are covered are those in front of a zone. -/
theorem space_covered_iff (inside : zoneId < persistZoneCount) :
    MetaKind.space.covered (zoneId / MetaKind.space.perPage) ↔ zoneId < firstLostZone := by
  change zoneId < 349525 at inside
  change zoneId / 15 % 8 * 512 + 512 ≤ MetaKind.space.writeSize (zoneId / 15 / 8 * 120) ↔
    zoneId < 349455
  unfold MetaKind.writeSize
  by_cases last : 349525 - zoneId / 15 / 8 * 120 < 120
  · have size : (if persistZoneCount - zoneId / 15 / 8 * 120 < MetaKind.space.perWrite then
        ((persistZoneCount - zoneId / 15 / 8 * 120) / MetaKind.space.lastWriteUnit + 1) *
          undoMetaPageSize else undoWriteSize) =
        ((349525 - zoneId / 15 / 8 * 120) / 120 + 1) * 512 := if_pos last
    lia
  · have size : (if persistZoneCount - zoneId / 15 / 8 * 120 < MetaKind.space.perWrite then
        ((persistZoneCount - zoneId / 15 / 8 * 120) / MetaKind.space.lastWriteUnit + 1) *
          undoMetaPageSize else undoWriteSize) = 4096 := if_neg last
    omega

/-- Every field of the spaces fits its word. -/
def SpacesFit : Prop :=
  ∀ zoneId zone, zones zoneId = some zone → (zone.getSpace type).lsn < 2 ^ 64 ∧
    (zone.getSpace type).head < 2 ^ 64 ∧ (zone.getSpace type).tail < 2 ^ 64

theorem spaceMeta_values (fits : SpacesFit type zones)
    (level : zoneId < zoneCountPerLevels nodeCount) :
    (spaceMeta nodeCount type zoneId (zones zoneId)).values = liveValues type zones zoneId := by
  unfold liveValues
  cases present : zones zoneId with
  | none => rfl
  | some zone =>
    obtain ⟨lsn, head, tail⟩ := fits zoneId zone present
    simp only [spaceMeta, level, UndoSpaceMetaInfo.values, SpaceValues.mk.injEq]
    exact ⟨UInt64.toNat_ofNat_of_lt' lsn, UInt64.toNat_ofNat_of_lt' head,
      UInt64.toNat_ofNat_of_lt' tail⟩

theorem checkPointUndoSpace_flushed (valid : AreaValid crc .space file type.base) :
    Flushed crc (spaceTable nodeCount type) file zones MetaKind.space.unitCount
      (checkPointUndoSpace crc nodeCount type file zones).1
      (checkPointUndoSpace crc nodeCount type file zones).2 :=
  checkPointTable_flushed crc zones valid.room

theorem checkPointUndoSpace_valid (valid : AreaValid crc .space file type.base) :
    AreaValid crc .space (checkPointUndoSpace crc nodeCount type file zones).1 type.base := by
  exact (checkPointUndoSpace_flushed crc nodeCount type file zones valid).area_valid valid

/-- Whether a zone's space changed since its last checkpoint. -/
def spaceDirty (zoneId : Nat) : Bool := (zones zoneId).any fun zone => (zone.getSpace type).dirty

/-- The values in the file after a checkpoint. -/
theorem checkPointUndoSpace_values (valid : AreaValid crc .space file type.base)
    (fits : SpacesFit type zones) (level : zoneId < zoneCountPerLevels nodeCount)
    (inside : zoneId < persistZoneCount) (current : spaceDirty type zones zoneId = false →
      savedValues type file zoneId = liveValues type zones zoneId) :
    savedValues type (checkPointUndoSpace crc nodeCount type file zones).1 zoneId =
      if zoneId < firstLostZone then liveValues type zones zoneId
      else savedValues type file zoneId := by
  have flushed := checkPointUndoSpace_flushed crc nodeCount type file zones valid
  have covered := space_covered_iff zoneId inside
  have missed (kept : (spaceTable nodeCount type).DirtyUnit zones
      (zoneId / MetaKind.space.perWrite) →
        ¬ MetaKind.space.covered (zoneId / MetaKind.space.perPage)) :
      savedValues type (checkPointUndoSpace crc nodeCount type file zones).1 zoneId =
        savedValues type file zoneId := by
    have same := flushed.entry_kept inside kept
    exact congrArg (fun entry => (undoSpaceMetaInfo.read entry).values) same
  by_cases reached : zoneId < firstLostZone
  · rw [if_pos reached]
    by_cases dirty : (spaceTable nodeCount type).DirtyUnit zones (zoneId / MetaKind.space.perWrite)
    · have entry := flushed.entry_written inside dirty (covered.mpr reached)
      have values := congrArg (fun entry => (undoSpaceMetaInfo.read entry).values) entry
      simp only [MetaTable.image, spaceTable, undoSpaceMetaInfo.read_write] at values
      exact values.trans (spaceMeta_values nodeCount type zones zoneId fits level)
    · rw [missed (fun isDirty => absurd isDirty dirty)]
      apply current
      rw [← Bool.not_eq_true]
      intro isDirty
      exact dirty ⟨zoneId, inside, rfl, isDirty⟩
  · rw [if_neg reached]
    exact missed (fun _ isCovered => reached (covered.mp isCovered))

/-- A recovery after the checkpoint succeeds, its CRC checks included, and gives every zone of
the permanent level its checkpointed head, tail and log position. -/
def SpacesSurvive (transUndoThresholdSize : Nat) (context : UndoContext) : Prop :=
  ∃ context', recoveryUndoSpace crc type transUndoThresholdSize
      (checkPointUndoSpace crc nodeCount type file zones).1 context = some context' ∧
    ∀ zoneId < zoneCountPerLevels nodeCount,
      liveValues type context'.uZones zoneId = liveValues type zones zoneId

/-- The spaces survive exactly if their values do. -/
theorem spacesSurvive_iff_values (transUndoThresholdSize : Nat) (context : UndoContext)
    (valid : AreaValid crc .space file type.base) (fits : SpacesFit type zones)
    (current : ∀ zoneId < zoneCountPerLevels nodeCount, spaceDirty type zones zoneId = false →
      savedValues type file zoneId = liveValues type zones zoneId) :
    SpacesSurvive crc nodeCount type file zones transUndoThresholdSize context ↔
      ∀ zoneId < zoneCountPerLevels nodeCount, readBack (context.uZones zoneId).isSome
          (if zoneId < firstLostZone then liveValues type zones zoneId
            else savedValues type file zoneId) = liveValues type zones zoneId := by
  obtain ⟨context', recovered, values⟩ := recoveryUndoSpace_values crc type transUndoThresholdSize
    context
    (checkPointUndoSpace_valid crc nodeCount type file zones valid)
  have each (zoneId : Nat) (level : zoneId < zoneCountPerLevels nodeCount) :
      liveValues type context'.uZones zoneId = readBack (context.uZones zoneId).isSome
        (if zoneId < firstLostZone then liveValues type zones zoneId
          else savedValues type file zoneId) := by
    have inside : zoneId < persistZoneCount := lt_of_lt_of_le level (Nat.div_mul_le_self _ _)
    rw [values zoneId inside, checkPointUndoSpace_values crc nodeCount type file zones zoneId valid
      fits level inside (current zoneId level)]
  constructor
  · rintro ⟨found, isFound, same⟩ zoneId level
    rw [recovered, Option.some.injEq] at isFound
    rw [← each zoneId level, isFound]
    exact same zoneId level
  · intro same
    refine ⟨context', recovered, ?_⟩
    intro zoneId level
    rw [each zoneId level]
    exact same zoneId level

/-- A checkpoint followed by a recovery keeps the spaces exactly when every dirty zone behind
the first page of the last write unit already has its values in the file, and every zone that
has no tail and is missing at the recovery is empty. -/
theorem space_checkpoint_survives_iff (transUndoThresholdSize : Nat) (context : UndoContext)
    (valid : AreaValid crc .space file type.base) (fits : SpacesFit type zones)
    (current : ∀ zoneId < zoneCountPerLevels nodeCount, spaceDirty type zones zoneId = false →
      savedValues type file zoneId = liveValues type zones zoneId) :
    SpacesSurvive crc nodeCount type file zones transUndoThresholdSize context ↔
      (∀ zoneId < zoneCountPerLevels nodeCount, firstLostZone ≤ zoneId →
        spaceDirty type zones zoneId = true →
        readBack (context.uZones zoneId).isSome (savedValues type file zoneId) =
          liveValues type zones zoneId) ∧
      (∀ zoneId < zoneCountPerLevels nodeCount, context.uZones zoneId = none →
        (liveValues type zones zoneId).tail = 0 → liveValues type zones zoneId = ⟨0, 0, 0⟩) := by
  rw [spacesSurvive_iff_values crc nodeCount type file zones transUndoThresholdSize context valid
    fits current]
  constructor
  · intro same
    refine ⟨?_, ?_⟩
    · intro zoneId level lost _
      have here := same zoneId level
      rw [if_neg (by omega)] at here
      exact here
    · intro zoneId level missing noTail
      have here := same zoneId level
      rw [missing] at here
      generalize (if zoneId < firstLostZone then liveValues type zones zoneId
        else savedValues type file zoneId) = source at here
      unfold readBack at here
      split at here
      · exact here.symm
      · rename_i hasTail
        rw [← here] at noTail
        exact absurd ⟨noTail, rfl⟩ hasTail
  · rintro ⟨stored, empty⟩ zoneId level
    have unchanged : readBack (context.uZones zoneId).isSome (liveValues type zones zoneId) =
        liveValues type zones zoneId := by
      unfold readBack
      split
      · rename_i skipped
        have missing : context.uZones zoneId = none := by simpa using skipped.2
        exact (empty zoneId level missing skipped.1).symm
      · rfl
    by_cases reached : zoneId < firstLostZone
    · rw [if_pos reached]
      exact unchanged
    · rw [if_neg reached]
      by_cases dirty : spaceDirty type zones zoneId = true
      · exact stored zoneId level (by omega) dirty
      · rw [current zoneId level (by simpa using dirty)]
        exact unchanged

end Checkpoint

/-- No zone in memory yet, as a recovery after a restart finds it. -/
def noZones : UndoContext := ⟨fun _ => none, fun _ => true, 0, 0⟩

/-- One permanent zone with one segment of undo, not checkpointed yet. -/
def oneSpace (zoneId : Nat) : Nat → Option UndoZone :=
  update (fun _ => none) zoneId
    (some ((UndoZone.init zoneId .permanent).setSpace .undoLogSpace ⟨0, 0, 1048576, 9, true⟩))

theorem oneSpace_other {zoneId other : Nat} (apart : other ≠ zoneId) :
    oneSpace zoneId other = none := update_of_ne apart _ _

theorem oneSpace_fits (zoneId : Nat) : SpacesFit .undoLogSpace (oneSpace zoneId) := by
  intro other zone present
  by_cases same : other = zoneId
  · subst same
    rw [oneSpace, update_self, Option.some.injEq] at present
    rw [← present, UndoZone.getSpace_setSpace]
    decide
  · rw [oneSpace_other same] at present
    cases present

/-- A clean space is in the file. -/
theorem oneSpace_current (crc : List UInt8 → UInt32) (zoneId other : Nat)
    (level : other < zoneCountPerLevels 1)
    (clean : spaceDirty .undoLogSpace (oneSpace zoneId) other = false) :
    savedValues .undoLogSpace (initUndoMeta crc) other =
      liveValues .undoLogSpace (oneSpace zoneId) other := by
  have inside : other < persistZoneCount := lt_of_lt_of_le level (Nat.div_mul_le_self _ _)
  have missing : oneSpace zoneId other = none := by
    by_cases same : other = zoneId
    · subst same
      rw [spaceDirty, oneSpace, update_self] at clean
      cases clean
    · exact oneSpace_other same
  unfold savedValues liveValues
  rw [missing, initUndoMeta_space_entry crc .undoLogSpace other inside]
  rfl

/-- A zone in a full write unit survives. -/
theorem space_checkpoint_survives_full_unit : spaceDirty .undoLogSpace (oneSpace 5) 5 = true ∧
      SpacesSurvive crc32c 1 .undoLogSpace (initUndoMeta crc32c) (oneSpace 5) 0 noZones := by
  refine ⟨rfl, (space_checkpoint_survives_iff crc32c 1 .undoLogSpace (initUndoMeta crc32c)
    (oneSpace 5) 0 noZones (initUndoMeta_space_valid crc32c .undoLogSpace) (oneSpace_fits 5)
    (oneSpace_current crc32c 5)).mpr ⟨?_, ?_⟩⟩
  · intro zoneId _ lost dirty
    have apart : zoneId ≠ 5 := by
      unfold firstLostZone at lost
      omega
    rw [spaceDirty, oneSpace_other apart] at dirty
    cases dirty
  · intro zoneId _ _ noTail
    by_cases same : zoneId = 5
    · subst same
      exact absurd noTail (by decide)
    · unfold liveValues
      rw [oneSpace_other same]

/-- The space of the last persistent zone is lost: the checkpoint does not write its page, and
the recovery reads the page of the fresh file. -/
theorem space_checkpoint_loses_last_zone :
    AreaValid crc32c .space (initUndoMeta crc32c) UndoSpaceType.undoLogSpace.base ∧
      349524 < zoneCountPerLevels 1 ∧
      ¬ SpacesSurvive crc32c 1 .undoLogSpace (initUndoMeta crc32c) (oneSpace 349524) 0 noZones := by
  have valid := initUndoMeta_space_valid crc32c .undoLogSpace
  refine ⟨valid, by decide, ?_⟩
  rw [spacesSurvive_iff_values crc32c 1 .undoLogSpace (initUndoMeta crc32c) (oneSpace 349524) 0
    noZones valid (oneSpace_fits 349524) (oneSpace_current crc32c 349524)]
  intro same
  have last := same 349524 (by decide)
  rw [savedValues, initUndoMeta_space_entry crc32c .undoLogSpace 349524
    (by decide)] at last
  exact absurd last (by decide)

end OpenGauss.Undo
