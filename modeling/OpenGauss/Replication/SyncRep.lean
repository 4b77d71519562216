import OpenGauss.Replication.SyncStandby
import OpenGauss.Base.Run
import Mathlib.Data.List.GetD
import Mathlib.Data.List.Induction

/-!
# Releasing synchronous commits

`SyncRepGetSyncRecPtr` computes, for each of the four stages, the position up to which enough
standbys of every group have come, and `SyncRepReleaseWaiters` raises the shared `lsn` array
to it. The positions are folded over the groups with the invalid position as the value of
nothing computed yet. This module embeds the computation with its fallbacks and the uninitialised
memory it sorts, and derives when the shared array stays behind the standbys in every run of
the walsenders.
-/
namespace OpenGauss.Replication

open List OpenGauss.Base

/-- What the computation reads of the primary itself. -/
structure Primary where
  /-- `most_available_sync`. -/
  mostAvailableSync : Bool
  /-- Whether `DelayIntoMostAvaSync` still holds the primary back from that mode. -/
  delayIntoMostAvaSync : Bool
  /-- `GetXLogWriteRecPtr()`. -/
  xlogWriteRecPtr : XLogRecPtr
  /-- `GetFlushRecPtr()`. -/
  flushRecPtr : XLogRecPtr

/-- The memory around and inside the arrays of a quorum group, which are not cleared when they
are allocated. -/
structure ArrayMemory where
  entry : Nat → WaitMode → Nat → XLogRecPtr
  before : Nat → WaitMode → XLogRecPtr

/-- How the number of synchronous standbys compares with the request. -/
inductive SyncStandbyNumState
  | enough
  | notEnough
  | empty
  deriving DecidableEq, Repr

/-- The standbys of one group among those of all groups. -/
def groupStandbys (standbys : List SyncRepStandbyData) (groupid : Nat) :
    List SyncRepStandbyData :=
  standbys.filter fun standby => standby.syncStandbyGroup == groupid

/-- Every group from the given one on has the standbys it asks for. -/
def enoughFrom (standbys : List SyncRepStandbyData) : Nat → List SyncRepConfigData → Bool
  | _, [] => true
  | groupid, group :: rest =>
    if (groupStandbys standbys groupid).length < group.numSync then false
    else enoughFrom standbys (groupid + 1) rest

/-- `check_sync_standbys_num`. -/
def checkSyncStandbysNum (config : List SyncRepConfigData)
    (standbys : List SyncRepStandbyData) : SyncStandbyNumState :=
  if config = [] then .enough
  else if standbys.length = 0 then .empty
  else if enoughFrom standbys 0 config then .enough else .notEnough

/-- `judge_sync_standbys_num`: enough standbys, or a primary that goes on without them. -/
def judgeSyncStandbysNum (primary : Primary) (state : SyncStandbyNumState) : Bool :=
  if state = .enough then true
  else primary.mostAvailableSync && !primary.delayIntoMostAvaSync

/-- The running position becomes the given one when it is invalid or later. -/
def oldest (ptr position : XLogRecPtr) : XLogRecPtr :=
  if ptr = invalidXLogRecPtr ∨ ¬ptr ≤ position then position else ptr

/-- `SyncRepGetOldestSyncRecPtrByMode`. -/
def syncRepGetOldestSyncRecPtrByMode (ptr : XLogRecPtr) (standbys : List SyncRepStandbyData)
    (mode : WaitMode) : XLogRecPtr :=
  standbys.foldl (fun ptr standby => oldest ptr (standby.position mode)) ptr

/-- One round of the scan in `SyncRepGetOldestSyncRecPtr`: the flag says that a position too
old has been met, and stops the updates. -/
def oldestStep (mode : WaitMode) (scan : Bool × XLogRecPtr) (standby : SyncRepStandbyData) :
    Bool × XLogRecPtr :=
  let hasInvalid := scan.1 || standby.tooOld mode
  (hasInvalid, if hasInvalid then scan.2 else oldest scan.2 (standby.position mode))

/-- `SyncRepGetOldestSyncRecPtr` for one mode. -/
def syncRepGetOldestSyncRecPtr (group : SyncRepConfigData) (senders : List WalSnd)
    (standbys : List SyncRepStandbyData) (me groupid : Nat) (mode : WaitMode)
    (ptr : XLogRecPtr) : XLogRecPtr :=
  let scan := (groupStandbys standbys groupid).foldl (oldestStep mode) (false, ptr)
  if scan.1 then
    syncRepGetOldestSyncRecPtrByMode scan.2
      (syncRepGetSyncStandbysInGroup group senders me groupid (some mode)) mode
  else scan.2

/-- The array of a quorum group before it is sorted: the standbys of this cluster fill it from
the front, and as many entries as there are standbys of other clusters stay as they were. -/
def positionArray (group : List SyncRepStandbyData) (memory : Nat → XLogRecPtr)
    (mode : WaitMode) : List XLogRecPtr :=
  let filled := (group.filter fun standby => !standby.isCrossCluster).map fun standby =>
    if standby.tooOld mode then invalidXLogRecPtr else standby.position mode
  filled ++ (List.range' filled.length (group.length - filled.length)).map memory

/-- The array as `cmp_lsn` sorts it, the latest position first. -/
def sortLsn (array : List XLogRecPtr) : List XLogRecPtr :=
  array.insertionSort (fun first second => second ≤ first)

/-- The entry with the given number, counted from one; number zero reads before the array. -/
def nthEntry (sorted : List XLogRecPtr) (before : XLogRecPtr) : Nat → XLogRecPtr
  | 0 => before
  | index + 1 => sorted.getD index invalidXLogRecPtr

/-- The number is passed on in a byte. -/
def uint8 (number : Nat) : Nat := number % 256

/-- `SyncRepGetNthLatestSyncRecPtr` for one mode. -/
def syncRepGetNthLatestSyncRecPtr (primary : Primary) (memory : ArrayMemory)
    (standbys : List SyncRepStandbyData) (groupid nth : Nat) (mode : WaitMode)
    (ptr : XLogRecPtr) : XLogRecPtr :=
  let group := groupStandbys standbys groupid
  if group.length = 0 then ptr
  else
    let sorted := sortLsn (positionArray group (memory.entry groupid mode) mode)
    let validNum := group.countP fun standby => !standby.isCrossCluster && !standby.tooOld mode
    let nth := if primary.mostAvailableSync && decide (group.length < nth)
      then uint8 group.length else nth
    let latest := nthEntry sorted (memory.before groupid mode) nth
    let ptr := if ptr = invalidXLogRecPtr ∨ latest ≤ ptr then latest else ptr
    if ptr = invalidXLogRecPtr ∧ 0 < validNum then
      sorted.getD (validNum - 1) invalidXLogRecPtr
    else ptr

/-- The running position after one group. -/
def groupRecPtr (primary : Primary) (memory : ArrayMemory) (senders : List WalSnd)
    (standbys : List SyncRepStandbyData) (me : Nat) (group : SyncRepConfigData) (groupid : Nat)
    (mode : WaitMode) (ptr : XLogRecPtr) : XLogRecPtr :=
  match group.syncrepMethod with
  | .priority => syncRepGetOldestSyncRecPtr group senders standbys me groupid mode ptr
  | .quorum =>
    syncRepGetNthLatestSyncRecPtr primary memory standbys groupid (uint8 group.numSync) mode ptr

/-- The running position after all groups from the given one on. -/
def recPtrFrom (primary : Primary) (memory : ArrayMemory) (senders : List WalSnd)
    (standbys : List SyncRepStandbyData) (me : Nat) (mode : WaitMode) :
    Nat → List SyncRepConfigData → XLogRecPtr → XLogRecPtr
  | _, [], ptr => ptr
  | groupid, group :: rest, ptr =>
    recPtrFrom primary memory senders standbys me mode (groupid + 1) rest
      (groupRecPtr primary memory senders standbys me group groupid mode ptr)

/-- Positions that are still invalid are replaced by those of the primary. -/
def replaceInvalid (primary : Primary) (computed : WaitMode → XLogRecPtr) :
    WaitMode → XLogRecPtr :=
  let write := if computed .write = invalidXLogRecPtr then primary.xlogWriteRecPtr
    else computed .write
  let flush := if computed .flush = invalidXLogRecPtr then primary.flushRecPtr
    else computed .flush
  fun
  | .receive => if computed .receive = invalidXLogRecPtr then write else computed .receive
  | .write => write
  | .flush => flush
  | .apply => if computed .apply = invalidXLogRecPtr then flush else computed .apply

/-- Positions for an empty list of synchronous standbys. -/
def primaryPositions (primary : Primary) : WaitMode → XLogRecPtr
  | .receive => primary.xlogWriteRecPtr
  | .write => primary.xlogWriteRecPtr
  | .flush => primary.flushRecPtr
  | .apply => primary.flushRecPtr

/-- `SyncRepGetSyncRecPtr`: the positions, when it returns true, and `am_sync`. -/
def syncRepGetSyncRecPtr (config : List SyncRepConfigData) (primary : Primary)
    (memory : ArrayMemory) (senders : List WalSnd) (me : Nat) (checkAmSync : Bool) :
    Option (WaitMode → XLogRecPtr) × Bool :=
  let standbys := syncRepGetSyncStandbys config senders me
  let amSync := standbys.any (·.isMe) || standbys.any fun standby =>
    standby.tooOld .receive || standby.tooOld .write || standby.tooOld .flush ||
      standby.tooOld .apply
  let state := checkSyncStandbysNum config standbys
  if (!amSync && checkAmSync) || config = [] || !judgeSyncStandbysNum primary state then
    (none, amSync)
  else if state = .empty then
    (some (primaryPositions primary), amSync)
  else
    (some (replaceInvalid primary fun mode =>
      recPtrFrom primary memory senders standbys me mode 0 config invalidXLogRecPtr), amSync)

/-! ## What a position is worth -/

/-- Enough standbys of the group have reached the position: the `num_sync` eligible ones of
highest priority, or `num_sync` eligible ones of this cluster. -/
def ReachedBy (group : SyncRepConfigData) (groupid : Nat) (senders : List WalSnd)
    (mode : WaitMode) (ptr : XLogRecPtr) : Prop :=
  match group.syncrepMethod with
  | .priority => group.numSync ≤ senders.zipIdx.countP fun entry =>
      entry.1.eligible group groupid &&
        decide (priorityRank group groupid senders entry < group.numSync) &&
        decide (ptr ≤ entry.1.position mode)
  | .quorum => group.numSync ≤ senders.countP fun walsnd =>
      walsnd.eligible group groupid && !walsnd.isCrossCluster &&
        decide (ptr ≤ walsnd.position mode)

/-- Enough standbys of every group have reached the position. -/
def Acknowledged (config : List SyncRepConfigData) (senders : List WalSnd) (mode : WaitMode)
    (ptr : XLogRecPtr) : Prop :=
  ∀ groupid group, config[groupid]? = some group → ReachedBy group groupid senders mode ptr

/-- The positions of the group can be told from positions not computed. A priority group needs
valid positions of all the standbys it waits for. A quorum group needs a count of standbys that
fits a byte and is not zero, eligible standbys of this cluster only, and `num_sync` valid positions
in each mode. -/
def PositionsValid (group : SyncRepConfigData) (groupid : Nat) (senders : List WalSnd) : Prop :=
  match group.syncrepMethod with
  | .priority => ∀ entry, Selected group groupid senders entry →
      ∀ mode, entry.1.position mode ≠ invalidXLogRecPtr
  | .quorum => eligibleCount group groupid senders = 0 ∨ (1 ≤ group.numSync ∧ group.numSync ≤ 255 ∧
        (∀ walsnd ∈ senders, walsnd.eligible group groupid = true → walsnd.isCrossCluster = false) ∧
        ∀ mode, group.numSync ≤ senders.countP fun walsnd =>
          decide (1 ≤ walsnd.position mode) && walsnd.eligible group groupid)

/-- The walsender is one some group waits for. -/
def AmSync (config : List SyncRepConfigData) (senders : List WalSnd) (me : Nat) : Prop :=
  ∃ groupid group entry, config[groupid]? = some group ∧
    Selected group groupid senders entry ∧ entry.2 = me

/-- Every group has the eligible standbys it asks for. -/
def EnoughStandbys (config : List SyncRepConfigData) (senders : List WalSnd) : Prop :=
  ∀ groupid group, config[groupid]? = some group →
    group.numSync ≤ eligibleCount group groupid senders

/-- A call that gets as far as the computation finds valid positions in every group. -/
def Covered (config : List SyncRepConfigData) (senders : List WalSnd) (me : Nat)
    (checkAmSync : Bool) : Prop :=
  (checkAmSync = true → AmSync config senders me) → EnoughStandbys config senders →
    ∀ groupid group, config[groupid]? = some group → PositionsValid group groupid senders

variable (start : SyncRepState) (events : List SyncRepEvent) (event : SyncRepEvent)
  (group : SyncRepConfigData) (groupid : Nat) (mode : WaitMode) (standbys : List SyncRepStandbyData)
  (ptr : XLogRecPtr) (config : List SyncRepConfigData) (senders : List WalSnd) (me : Nat)
  (primary : Primary) (memory : ArrayMemory)

theorem ReachedBy.mono (mode : WaitMode) (ptr earlier : XLogRecPtr) (before : earlier ≤ ptr)
    (reached : ReachedBy group groupid senders mode ptr) :
    ReachedBy group groupid senders mode earlier := by
  unfold ReachedBy at reached ⊢
  split at reached
  · refine le_trans reached (countP_mono_left ?_)
    intro entry _
    simp only [Bool.and_eq_true, decide_eq_true_eq]
    exact fun later => ⟨later.1, le_trans before later.2⟩
  · refine le_trans reached (countP_mono_left ?_)
    intro walsnd _
    simp only [Bool.and_eq_true, decide_eq_true_eq]
    exact fun later => ⟨later.1, le_trans before later.2⟩

theorem reachedBy_of_numSync_zero (mode : WaitMode) (ptr : XLogRecPtr) (none : group.numSync = 0) :
    ReachedBy group groupid senders mode ptr := by
  unfold ReachedBy
  split <;> rw [none] <;> exact Nat.zero_le _

theorem oldest_spec (ptr position : XLogRecPtr) (valid : position ≠ invalidXLogRecPtr) :
    oldest ptr position ≠ invalidXLogRecPtr ∧ oldest ptr position ≤ position ∧
      (ptr ≠ invalidXLogRecPtr → oldest ptr position ≤ ptr) := by
  unfold oldest
  split
  · rename_i first
    refine ⟨valid, le_rfl, ?_⟩
    intro known
    rcases first with invalid | later
    · exact absurd invalid known
    · exact (Nat.lt_of_not_le later).le
  · rename_i kept
    rw [not_or, not_not] at kept
    exact ⟨kept.1, kept.2, fun _ => le_rfl⟩

/-- The oldest position of some standbys. -/
theorem syncRepGetOldestSyncRecPtrByMode_spec (ptr : XLogRecPtr)
    (valid : ∀ standby ∈ standbys, standby.position mode ≠ invalidXLogRecPtr) :
    let result := syncRepGetOldestSyncRecPtrByMode ptr standbys mode
    (ptr ≠ invalidXLogRecPtr ∨ standbys ≠ [] → result ≠ invalidXLogRecPtr) ∧
      (ptr ≠ invalidXLogRecPtr → result ≤ ptr) ∧
      ∀ standby ∈ standbys, result ≤ standby.position mode := by
  induction standbys generalizing ptr with
  | nil => simp [syncRepGetOldestSyncRecPtrByMode]
  | cons first rest ih =>
    have here := valid first mem_cons_self
    have next := oldest_spec ptr (first.position mode) here
    have after := ih (oldest ptr (first.position mode))
      (fun standby member => valid standby (mem_cons_of_mem _ member))
    have bound := after.2.1 next.1
    refine ⟨fun _ => after.1 (.inl next.1), fun known => le_trans bound (next.2.2 known), ?_⟩
    intro standby member
    rcases mem_cons.mp member with same | later
    · rw [same]
      exact le_trans bound next.2.1
    · exact after.2.2 standby later

theorem oldestStep_foldl (recent : ∀ standby ∈ standbys, standby.tooOld mode = false) :
    standbys.foldl (oldestStep mode) (false, ptr) =
      (false, syncRepGetOldestSyncRecPtrByMode ptr standbys mode) := by
  induction standbys generalizing ptr with
  | nil => rfl
  | cons first rest ih =>
    have here : oldestStep mode (false, ptr) first = (false, oldest ptr (first.position mode)) := by
      simp [oldestStep, recent first mem_cons_self]
    rw [foldl_cons, here, ih _ (fun standby member => recent standby (mem_cons_of_mem _ member))]
    rfl

/-- What the computation needs to know of a group. -/
structure GroupReady (standbys : List SyncRepStandbyData) (senders : List WalSnd) (me : Nat)
    (group : SyncRepConfigData) (groupid : Nat) : Prop where
  own : groupStandbys standbys groupid = syncRepGetSyncStandbysInGroup group senders me groupid none
  enough : group.numSync ≤ eligibleCount group groupid senders
  valid : PositionsValid group groupid senders

/-- What one group does to the running position: it stays for a group without standbys, and
otherwise becomes a valid one the group has reached. -/
structure GroupResult (standbys : List SyncRepStandbyData) (senders : List WalSnd)
    (group : SyncRepConfigData) (groupid : Nat) (mode : WaitMode)
    (ptr result : XLogRecPtr) : Prop where
  reached : ReachedBy group groupid senders mode result
  kept : ptr ≠ invalidXLogRecPtr → result ≠ invalidXLogRecPtr ∧ result ≤ ptr
  computed : groupStandbys standbys groupid ≠ [] → result ≠ invalidXLogRecPtr

theorem GroupReady.unchanged (group : SyncRepConfigData) (groupid : Nat) (mode : WaitMode) (ptr : XLogRecPtr)
    (ready : GroupReady standbys senders me group groupid)
    (none : groupStandbys standbys groupid = []) :
    GroupResult standbys senders group groupid mode ptr ptr := by
  have few : group.numSync = 0 := by
    have enough := (syncRepGetSyncStandbysInGroup_length group senders me groupid).mpr ready.enough
    rw [← ready.own, none] at enough
    simpa using enough
  exact ⟨reachedBy_of_numSync_zero group groupid senders mode ptr few,
    fun known => ⟨known, le_rfl⟩, fun some => absurd none some⟩

/-- The position of a group by priority. -/
theorem GroupReady.priority {group : SyncRepConfigData} {groupid : Nat} {mode : WaitMode}
    (ptr : XLogRecPtr)
    (ready : GroupReady standbys senders me group groupid)
    (recent : ∀ walsnd ∈ senders, walsnd.tooOld mode = false)
    (byPriority : group.syncrepMethod = .priority) :
    GroupResult standbys senders group groupid mode ptr
      (syncRepGetOldestSyncRecPtr group senders standbys me groupid mode ptr) := by
  have selected (standby : SyncRepStandbyData) (member : standby ∈ groupStandbys standbys groupid) :
      ∃ entry, Selected group groupid senders entry ∧ standby = entry.1.standbyData me entry.2 := by
    rw [ready.own] at member
    exact (mem_syncRepGetSyncStandbysInGroup group senders me groupid standby).mp member
  have fresh (standby : SyncRepStandbyData) (member : standby ∈ groupStandbys standbys groupid) :
      standby.tooOld mode = false := by
    obtain ⟨entry, chosen, rfl⟩ := selected standby member
    exact recent entry.1 (mem_of_getElem? chosen.1)
  have known : ∀ entry, Selected group groupid senders entry →
      ∀ mode, entry.1.position mode ≠ invalidXLogRecPtr := by
    have valid := ready.valid
    unfold PositionsValid at valid
    rw [byPriority] at valid
    exact valid
  have valid (standby : SyncRepStandbyData) (member : standby ∈ groupStandbys standbys groupid) :
      standby.position mode ≠ invalidXLogRecPtr := by
    obtain ⟨entry, chosen, rfl⟩ := selected standby member
    exact known entry chosen mode
  have spec := syncRepGetOldestSyncRecPtrByMode_spec mode (groupStandbys standbys groupid) ptr valid
  have result : syncRepGetOldestSyncRecPtr group senders standbys me groupid mode ptr =
      syncRepGetOldestSyncRecPtrByMode ptr (groupStandbys standbys groupid) mode := by
    simp [syncRepGetOldestSyncRecPtr, oldestStep_foldl mode _ ptr fresh]
  rw [result]
  refine ⟨?_, fun known => ⟨spec.1 (.inl known), spec.2.1 known⟩,
    fun some => spec.1 (.inr some)⟩
  unfold ReachedBy
  rw [byPriority]
  refine le_trans (selected_count group ready.enough).ge (countP_mono_left ?_)
  intro entry present chosen
  rw [Bool.and_eq_true]
  refine ⟨chosen, ?_⟩
  rw [Bool.and_eq_true, decide_eq_true_eq] at chosen
  rw [decide_eq_true_eq]
  have member : entry.1.standbyData me entry.2 ∈ groupStandbys standbys groupid := by
    rw [ready.own, mem_syncRepGetSyncStandbysInGroup]
    exact ⟨entry, ⟨mem_zipIdx_iff_getElem?.mp present, chosen.1, fun _ => chosen.2⟩, rfl⟩
  exact spec.2.2 _ member

theorem sortLsn_countP (groupid me : Nat) (senders : List WalSnd)
    (mode : WaitMode) (accept : XLogRecPtr → Bool) :
    (sortLsn ((candidates group me groupid none 0 senders).map fun standby =>
      standby.position mode)).countP accept =
      senders.countP fun walsnd =>
        accept (walsnd.position mode) && walsnd.eligible group groupid := by
  have slots : senders.zipIdx.map Prod.fst = senders := by simp
  rw [sortLsn, (perm_insertionSort _ _).countP_eq, candidates_eq, map_map,
    countP_map, countP_filter]
  conv_rhs => rw [← slots, countP_map]
  rfl

/-- The array has the positions of all standbys. -/
theorem positionArray_eq (memory : Nat → XLogRecPtr)
    (mode : WaitMode) (near : ∀ standby ∈ standbys, standby.isCrossCluster = false)
    (recent : ∀ standby ∈ standbys, standby.tooOld mode = false) :
    positionArray standbys memory mode = standbys.map fun standby => standby.position mode := by
  have all : (standbys.filter fun standby => !standby.isCrossCluster) = standbys := by
    rw [filter_eq_self]
    intro standby member
    simp [near standby member]
  have positions : (standbys.map fun standby =>
      if standby.tooOld mode then invalidXLogRecPtr else standby.position mode) =
      standbys.map fun standby => standby.position mode := by
    apply map_congr_left
    intro standby member
    simp [recent standby member]
  simp [positionArray, all, positions]

theorem sortLsn_descending (array : List XLogRecPtr) :
    (sortLsn array).Pairwise (fun first second => second ≤ first) :=
  pairwise_insertionSort (fun first second : Nat => second ≤ first) array

/-- A quorum group with enough valid positions yields a position enough of its standbys have
reached. -/
theorem GroupReady.quorum {standbys : List SyncRepStandbyData} {senders : List WalSnd}
    {me : Nat} {group : SyncRepConfigData} {groupid : Nat} {mode : WaitMode} (ptr : XLogRecPtr)
    (ready : GroupReady standbys senders me group groupid)
    (recent : ∀ walsnd ∈ senders, walsnd.tooOld mode = false)
    (off : primary.mostAvailableSync = false) (byQuorum : group.syncrepMethod = .quorum) :
    GroupResult standbys senders group groupid mode ptr
      (syncRepGetNthLatestSyncRecPtr primary memory standbys groupid (uint8 group.numSync) mode
        ptr) := by
  have own := ready.own
  rw [syncRepGetSyncStandbysInGroup_quorum group senders me groupid byQuorum] at own
  by_cases vacant : (groupStandbys standbys groupid).length = 0
  · have same : syncRepGetNthLatestSyncRecPtr primary memory standbys groupid
        (uint8 group.numSync) mode ptr = ptr := by
      simp only [syncRepGetNthLatestSyncRecPtr]
      rw [if_pos vacant]
    rw [same]
    exact ready.unchanged standbys senders me group groupid mode ptr
      (length_eq_zero_iff.mp vacant)
  have conditions : 1 ≤ group.numSync ∧ group.numSync ≤ 255 ∧
      (∀ walsnd ∈ senders, walsnd.eligible group groupid = true → walsnd.isCrossCluster = false) ∧
      ∀ mode, group.numSync ≤ senders.countP fun walsnd =>
        decide (1 ≤ walsnd.position mode) && walsnd.eligible group groupid := by
    have valid := ready.valid
    unfold PositionsValid at valid
    rw [byQuorum, ← candidates_length group me, ← own] at valid
    exact valid.resolve_left vacant
  obtain ⟨positive, small, near, counted⟩ := conditions
  have source (standby : SyncRepStandbyData) (member : standby ∈ groupStandbys standbys groupid) :
      standby.isCrossCluster = false ∧ standby.tooOld mode = false := by
    rw [ready.own, mem_syncRepGetSyncStandbysInGroup] at member
    obtain ⟨entry, chosen, rfl⟩ := member
    have present := mem_of_getElem? chosen.1
    exact ⟨near entry.1 present chosen.2.1, recent entry.1 present⟩
  have array := positionArray_eq (groupStandbys standbys groupid) (memory.entry groupid mode) mode
    (fun standby member => (source standby member).1)
    (fun standby member => (source standby member).2)
  rw [own] at array
  -- The array is as long as the group, and the group has the standbys it asks for.
  have inside : group.numSync - 1 <
      (sortLsn ((candidates group me groupid none 0 senders).map fun standby =>
        standby.position mode)).length := by
    rw [sortLsn, length_insertionSort, length_map, candidates_length]
    have enough := ready.enough
    omega
  have byte : uint8 group.numSync = group.numSync - 1 + 1 := by
    rw [uint8]
    lia
  have known := (le_getElem_iff_lt_countP _ (sortLsn_descending _) 1 _ inside).mpr (by
    rw [sortLsn_countP]
    exact lt_of_lt_of_le (by lia) (counted mode))
  have many := (le_getElem_iff_lt_countP _ (sortLsn_descending _) _ _ inside).mp le_rfl
  rw [sortLsn_countP] at many
  have computed : syncRepGetNthLatestSyncRecPtr primary memory standbys groupid
      (uint8 group.numSync) mode ptr =
      if ptr = invalidXLogRecPtr ∨
        (sortLsn ((candidates group me groupid none 0 senders).map fun standby =>
          standby.position mode))[group.numSync - 1] ≤ ptr
      then (sortLsn ((candidates group me groupid none 0 senders).map fun standby =>
        standby.position mode))[group.numSync - 1] else ptr := by
    simp only [syncRepGetNthLatestSyncRecPtr]
    rw [if_neg vacant, own, array, off, byte]
    simp only [Bool.false_and, Bool.false_eq_true, if_false, nthEntry, getD_eq_getElem _ _ inside]
    rw [if_neg]
    rintro ⟨invalid, -⟩
    split at invalid
    · rw [invalid] at known
      exact absurd known (by decide)
    · rename_i kept
      exact kept (.inl invalid)
  rw [computed]
  generalize (sortLsn ((candidates group me groupid none 0 senders).map fun standby =>
    standby.position mode))[group.numSync - 1] = latest at known many
  have reached : ReachedBy group groupid senders mode latest := by
    unfold ReachedBy
    rw [byQuorum]
    refine le_trans (by lia) (le_trans (Nat.succ_le_of_lt many) (countP_mono_left ?_))
    intro walsnd present chosen
    rw [Bool.and_eq_true] at chosen
    simp [chosen.1, chosen.2, near walsnd present chosen.2]
  have valid : latest ≠ invalidXLogRecPtr := by
    intro invalid
    rw [invalid] at known
    exact absurd known (by decide)
  split
  · rename_i first
    refine ⟨reached, fun before => ⟨valid, ?_⟩, fun _ => valid⟩
    exact first.resolve_left before
  · rename_i kept
    rw [not_or] at kept
    exact ⟨ReachedBy.mono group groupid senders mode latest ptr (Nat.lt_of_not_le kept.2).le reached,
      fun before => ⟨before, le_rfl⟩, fun _ => kept.1⟩

theorem GroupReady.result (standbys : List SyncRepStandbyData) (senders : List WalSnd)
    (me : Nat) (group : SyncRepConfigData) (groupid : Nat) (mode : WaitMode) (ptr : XLogRecPtr)
    (ready : GroupReady standbys senders me group groupid)
    (recent : ∀ walsnd ∈ senders, walsnd.tooOld mode = false)
    (off : primary.mostAvailableSync = false) : GroupResult standbys senders group groupid mode ptr
      (groupRecPtr primary memory senders standbys me group groupid mode ptr) := by
  unfold groupRecPtr
  split
  · rename_i byPriority
    exact ready.priority standbys senders me ptr recent byPriority
  · rename_i byQuorum
    exact ready.quorum primary memory ptr recent off byQuorum

/-- The position over all groups. -/
theorem recPtrFrom_spec (memory : ArrayMemory)
    (standbys : List SyncRepStandbyData) (senders : List WalSnd) (me : Nat) (mode : WaitMode)
    (recent : ∀ walsnd ∈ senders, walsnd.tooOld mode = false)
    (off : primary.mostAvailableSync = false) (config : List SyncRepConfigData) (start : Nat)
    (ptr : XLogRecPtr) (ready : ∀ offset group, config[offset]? = some group →
      GroupReady standbys senders me group (start + offset)) :
    let result := recPtrFrom primary memory senders standbys me mode start config ptr
    (∀ offset group, config[offset]? = some group →
      ReachedBy group (start + offset) senders mode result ∧
      (groupStandbys standbys (start + offset) ≠ [] → result ≠ invalidXLogRecPtr)) ∧
      (ptr ≠ invalidXLogRecPtr → result ≠ invalidXLogRecPtr ∧ result ≤ ptr) := by
  induction config generalizing start ptr with
  | nil =>
    refine ⟨fun offset group present => by simp at present, fun known => ⟨known, le_rfl⟩⟩
  | cons first rest ih =>
    have here := (ready 0 first rfl).result primary memory standbys senders me first start mode
      ptr recent off
    have after := ih (start + 1)
      (groupRecPtr primary memory senders standbys me first start mode ptr) (by
        intro offset group present
        have shift : start + 1 + offset = start + (offset + 1) := by omega
        rw [shift]
        exact ready (offset + 1) group present)
    rw [recPtrFrom]
    generalize groupRecPtr primary memory senders standbys me first start mode ptr = next
      at here after
    refine ⟨?_, fun known => ?_⟩
    · intro offset group present
      cases offset with
      | zero =>
        rw [getElem?_cons_zero, Option.some.injEq] at present
        subst present
        by_cases none : groupStandbys standbys start = []
        · exact ⟨((ready 0 first rfl).unchanged standbys senders me first start mode _ none).reached,
            fun some => absurd none some⟩
        · have valid := here.computed none
          exact ⟨ReachedBy.mono first start senders mode next _ (after.2 valid).2 here.reached,
            fun _ => (after.2 valid).1⟩
      | succ offset =>
        have shift : start + (offset + 1) = start + 1 + offset := by omega
        rw [shift]
        exact after.1 offset group present
    · have kept := here.kept known
      exact ⟨(after.2 kept.1).1, le_trans (after.2 kept.1).2 kept.2⟩

/-- Each group has enough standbys. -/
theorem enoughFrom_spec
    (start : Nat) (enough : enoughFrom standbys start config = true) (offset : Nat)
    (group : SyncRepConfigData) (present : config[offset]? = some group) :
    group.numSync ≤ (groupStandbys standbys (start + offset)).length := by
  induction config generalizing start offset with
  | nil => simp at present
  | cons first rest ih =>
    rw [enoughFrom] at enough
    split at enough
    · simp at enough
    · rename_i here
      cases offset with
      | zero =>
        rw [getElem?_cons_zero, Option.some.injEq] at present
        rw [← present]
        exact Nat.le_of_not_lt here
      | succ offset =>
        have shift : start + (offset + 1) = start + 1 + offset := by omega
        rw [shift]
        exact ih (start + 1) enough offset present

theorem replaceInvalid_eq (computed : WaitMode → XLogRecPtr)
    (valid : ∀ mode, computed mode ≠ invalidXLogRecPtr) (mode : WaitMode) :
    replaceInvalid primary computed mode = computed mode := by
  cases mode <;> simp [replaceInvalid, valid]

/-- No position of a standby is flagged as too old. -/
def NoneTooOld (senders : List WalSnd) : Prop :=
  ∀ walsnd ∈ senders, ∀ mode, walsnd.tooOld mode = false

theorem amSync_of_isMe (mine : (syncRepGetSyncStandbys config senders me).any (·.isMe) = true) :
    AmSync config senders me := by
  rw [any_eq_true] at mine
  obtain ⟨standby, member, isMe⟩ := mine
  obtain ⟨groupid, group, present, found⟩ := mem_syncStandbysFrom senders me 0 config standby member
  rw [Nat.zero_add, mem_syncRepGetSyncStandbysInGroup] at found
  obtain ⟨entry, chosen, rfl⟩ := found
  exact ⟨groupid, group, entry, present, chosen, by simpa [WalSnd.standbyData] using isMe⟩

theorem none_tooOld (recent : NoneTooOld senders) :
    ((syncRepGetSyncStandbys config senders me).any fun standby =>
      standby.tooOld .receive || standby.tooOld .write || standby.tooOld .flush ||
        standby.tooOld .apply) = false := by
  rw [any_eq_false]
  intro standby member
  obtain ⟨groupid, group, -, found⟩ := mem_syncStandbysFrom senders me 0 config standby member
  rw [mem_syncRepGetSyncStandbysInGroup] at found
  obtain ⟨entry, chosen, rfl⟩ := found
  have fresh := recent entry.1 (mem_of_getElem? chosen.1)
  simp [WalSnd.standbyData, fresh]

/-- A call that is covered returns positions that every group has reached. -/
theorem syncRepGetSyncRecPtr_spec {senders : List WalSnd} {me : Nat} {checkAmSync : Bool}
    {positions : WaitMode → XLogRecPtr} (off : primary.mostAvailableSync = false)
    (recent : NoneTooOld senders) (covered : Covered config senders me checkAmSync)
    (returned : (syncRepGetSyncRecPtr config primary memory senders me checkAmSync).1 =
      some positions) (mode : WaitMode) : Acknowledged config senders mode (positions mode) := by
  simp only [syncRepGetSyncRecPtr] at returned
  split at returned
  · simp at returned
  rename_i goes
  simp only [Bool.or_eq_true, not_or, Bool.not_eq_true, decide_eq_false_iff_not] at goes
  obtain ⟨⟨mine, configured⟩, judged⟩ := goes
  have state : checkSyncStandbysNum config (syncRepGetSyncStandbys config senders me) = .enough := by
    unfold judgeSyncStandbysNum at judged
    split at judged
    · assumption
    · rw [off] at judged
      simp at judged
  rw [if_neg (by rw [state]; simp)] at returned
  have listed : (syncRepGetSyncStandbys config senders me).length ≠ 0 ∧
      enoughFrom (syncRepGetSyncStandbys config senders me) 0 config = true := by
    unfold checkSyncStandbysNum at state
    rw [if_neg configured] at state
    split at state
    · simp at state
    · rename_i standbys
      split at state
      · rename_i enough
        exact ⟨standbys, enough⟩
      · simp at state
  have own (groupid : Nat) (group : SyncRepConfigData) (present : config[groupid]? = some group) :
      groupStandbys (syncRepGetSyncStandbys config senders me) groupid =
        syncRepGetSyncStandbysInGroup group senders me groupid none := by
    have found := syncStandbysFrom_filter senders me 0 groupid present
    rw [Nat.zero_add] at found
    exact found
  have enough : EnoughStandbys config senders := by
    intro groupid group present
    rw [← syncRepGetSyncStandbysInGroup_length group senders me groupid, ← own groupid group present]
    have counted := enoughFrom_spec _ config 0 listed.2 groupid group present
    rw [Nat.zero_add] at counted
    exact counted
  have amSync : checkAmSync = true → AmSync config senders me := by
    intro asked
    apply amSync_of_isMe
    rw [none_tooOld config senders me recent] at mine
    simpa [asked] using mine
  have valid := covered amSync enough
  have ready (offset : Nat) (group : SyncRepConfigData) (present : config[offset]? = some group) :
      GroupReady (syncRepGetSyncStandbys config senders me) senders me group (0 + offset) := by
    rw [Nat.zero_add]
    exact ⟨own offset group present, enough offset group present, valid offset group present⟩
  have spec (mode : WaitMode) := recPtrFrom_spec primary memory _ senders me mode
    (fun walsnd member => recent walsnd member mode) off config 0 invalidXLogRecPtr ready
  -- Some group has a standby, so that the computation ends with a valid position.
  have known (mode : WaitMode) : recPtrFrom primary memory senders
      (syncRepGetSyncStandbys config senders me) me mode 0 config invalidXLogRecPtr ≠
        invalidXLogRecPtr := by
    obtain ⟨standby, member⟩ := exists_mem_of_length_pos (Nat.pos_of_ne_zero listed.1)
    obtain ⟨groupid, group, present, found⟩ :=
      mem_syncStandbysFrom senders me 0 config standby member
    apply ((spec mode).1 groupid group present).2
    rw [Nat.zero_add] at found ⊢
    rw [own groupid group present]
    exact ne_nil_of_mem found
  rw [Option.some.injEq] at returned
  intro groupid group present
  have reached := ((spec mode).1 groupid group present).1
  rw [Nat.zero_add] at reached
  rw [← returned, replaceInvalid_eq primary _ known mode]
  exact reached

/-! ## Runs of the walsenders -/

/-- The walsenders and what they share. Each walsender has its own copy of the configuration,
and publishes the positions it has computed only after it has released the lock. -/
structure SyncRepState where
  config : Nat → List SyncRepConfigData
  senders : List WalSnd
  primary : Primary
  computed : Nat → Option (WaitMode → XLogRecPtr)
  /-- The shared `lsn` array. -/
  lsn : WaitMode → XLogRecPtr

/-- What can happen while walsenders release waiters. -/
inductive SyncRepEvent
  | report (senders : List WalSnd)
  /-- A walsender reads `synchronous_standby_names` again. -/
  | reload (me : Nat) (config : List SyncRepConfigData)
  | advance (primary : Primary)
  /-- A walsender runs `SyncRepReleaseWaiters` up to the release of the lock. -/
  | compute (me : Nat) (memory : ArrayMemory)
  | update (me : Nat) (mode : WaitMode)

/-- The part of `SyncRepReleaseWaiters` under the lock: the positions to publish, if any. -/
def releaseWaiters (state : SyncRepState) (me : Nat) (memory : ArrayMemory) :
    Option (WaitMode → XLogRecPtr) :=
  match state.senders[me]? with
  | none => none
  | some mine =>
    if mine.syncStandbyPriority = 0 ∨ mine.state.beforeStreaming = true ∨
      mine.position .flush = invalidXLogRecPtr then none
    else
      let result :=
        syncRepGetSyncRecPtr (state.config me) state.primary memory state.senders me true
      if result.2 then result.1 else none

/-- `AtomicUpdateIfGreater` on one entry of the shared array. -/
def atomicUpdateIfGreater (lsn : WaitMode → XLogRecPtr) (mode : WaitMode) (ptr : XLogRecPtr) :
    WaitMode → XLogRecPtr :=
  fun other => if other = mode ∧ lsn other < ptr then ptr else lsn other

/-- One step of the walsenders. -/
def syncRepStep (state : SyncRepState) : SyncRepEvent → SyncRepState
  | .report senders => { state with senders }
  | .reload me config =>
    { state with config := fun walsnd => if walsnd = me then config else state.config walsnd }
  | .advance primary => { state with primary }
  | .compute me memory =>
    { state with computed := fun walsnd =>
        if walsnd = me then releaseWaiters state me memory else state.computed walsnd }
  | .update me mode =>
    match state.computed me with
    | none => state
    | some positions =>
      { state with lsn := atomicUpdateIfGreater state.lsn mode (positions mode) }

/-- The state a primary starts with: nothing computed, and an array of zeros. -/
def SyncRepState.Fresh (state : SyncRepState) : Prop :=
  (∀ me, state.computed me = none) ∧ ∀ mode, state.lsn mode = invalidXLogRecPtr

/-- Every computation runs with `most_available_sync` off, without positions too old, and is
covered. -/
def CoveredStep (state : SyncRepState) : SyncRepEvent → Prop
  | .compute me _ =>
    state.primary.mostAvailableSync = false ∧ NoneTooOld state.senders ∧
      Covered (state.config me) state.senders me true
  | _ => True

/-- At some point of the run enough standbys of every group had reached the position. -/
def WasAcknowledged (start : SyncRepState) (events : List SyncRepEvent) (mode : WaitMode)
    (ptr : XLogRecPtr) : Prop :=
  ∃ earlier later me, events = earlier ++ later ∧
    Acknowledged ((earlier.foldl syncRepStep start).config me)
      (earlier.foldl syncRepStep start).senders mode ptr

theorem WasAcknowledged.snoc (before : WasAcknowledged start events mode ptr) :
    WasAcknowledged start (events ++ [event]) mode ptr := by
  obtain ⟨earlier, later, me, rfl, reached⟩ := before
  exact ⟨earlier, later ++ [event], me, append_assoc earlier later [event], reached⟩

/-- The positions computed and the shared array stay behind what was acknowledged. -/
structure BehindStandbys (start : SyncRepState) (events : List SyncRepEvent)
    (state : SyncRepState) : Prop where
  lsn : ∀ mode, state.lsn mode = invalidXLogRecPtr ∨
    WasAcknowledged start events mode (state.lsn mode)
  computed : ∀ me positions, state.computed me = some positions →
    ∀ mode, WasAcknowledged start events mode (positions mode)

theorem releaseWaiters_returned {state : SyncRepState} {me : Nat} {memory : ArrayMemory}
    {positions : WaitMode → XLogRecPtr}
    (computed : releaseWaiters state me memory = some positions) :
    (syncRepGetSyncRecPtr (state.config me) state.primary memory state.senders me true).1 =
      some positions := by
  unfold releaseWaiters at computed
  split at computed
  · simp at computed
  · split at computed
    · simp at computed
    · dsimp only at computed
      split at computed
      · exact computed
      · simp at computed

/-- A step keeps the released position behind the standbys. -/
theorem BehindStandbys.step (behind : BehindStandbys start events (events.foldl syncRepStep start))
    (covered : CoveredStep (events.foldl syncRepStep start) event) :
    BehindStandbys start (events ++ [event])
      (syncRepStep (events.foldl syncRepStep start) event) := by
  have lsn (mode : WaitMode) := (behind.lsn mode).imp_right
    (WasAcknowledged.snoc start events event mode _)
  have computed (me : Nat) (positions : WaitMode → XLogRecPtr)
      (held : (events.foldl syncRepStep start).computed me = some positions) (mode : WaitMode) :=
    WasAcknowledged.snoc start events event mode _ (behind.computed me positions held mode)
  cases event with
  | report senders | reload me config | advance primary => exact ⟨lsn, computed⟩
  | compute me memory =>
    refine ⟨lsn, ?_⟩
    intro walsnd positions held mode
    simp only [syncRepStep] at held
    split at held
    · have returned := releaseWaiters_returned held
      have reached := syncRepGetSyncRecPtr_spec _ _ memory covered.1
        covered.2.1 covered.2.2 returned mode
      exact ⟨events, [.compute me memory], me, rfl, reached⟩
    · exact computed walsnd positions held mode
  | update me mode =>
    cases held : (events.foldl syncRepStep start).computed me with
    | none =>
      simp only [syncRepStep, held]
      exact ⟨lsn, computed⟩
    | some positions =>
      simp only [syncRepStep, held]
      refine ⟨?_, computed⟩
      intro other
      simp only [atomicUpdateIfGreater]
      split
      · rename_i raised
        rw [raised.1]
        exact .inr (computed me positions held mode)
      · exact lsn other

theorem behindStandbys_run (fresh : start.Fresh)
    {events : List SyncRepEvent} (along : Along syncRepStep CoveredStep start events) :
    BehindStandbys start events (events.foldl syncRepStep start) := by
  induction events using List.reverseRecOn with
  | nil =>
    refine ⟨fun mode => .inl (fresh.2 mode), ?_⟩
    intro me positions held
    rw [foldl_nil, fresh.1 me] at held
    simp at held
  | append_singleton events event ih =>
    rw [along_append] at along
    rw [foldl_append]
    exact BehindStandbys.step start events event (ih along.1) along.2.1

/-- Synchronous commits are not acknowledged early while the positions can be told from
positions not computed: a covered call returns positions that enough standbys of every group have
reached in the same mode, and in a run of covered calls by any walsenders the shared array
never passes such a position. -/
theorem sync_commit_is_not_released_early (start : SyncRepState) (events : List SyncRepEvent) :
    (∀ (config : List SyncRepConfigData) (primary : Primary) (memory : ArrayMemory)
        (senders : List WalSnd) (me : Nat) (checkAmSync : Bool) (positions : WaitMode → XLogRecPtr),
      primary.mostAvailableSync = false → NoneTooOld senders →
      Covered config senders me checkAmSync →
      (syncRepGetSyncRecPtr config primary memory senders me checkAmSync).1 = some positions →
      ∀ mode, Acknowledged config senders mode (positions mode)) ∧
    (start.Fresh → Along syncRepStep CoveredStep start events →
      ∀ mode, (events.foldl syncRepStep start).lsn mode = invalidXLogRecPtr ∨
        WasAcknowledged start events mode ((events.foldl syncRepStep start).lsn mode)) := by
  constructor
  · intro config primary memory senders me checkAmSync positions off recent covered returned
    exact syncRepGetSyncRecPtr_spec config primary memory off recent covered returned
  · intro fresh along
    exact (behindStandbys_run start fresh along).lsn

/-- A streaming standby of a group with one member. -/
def onlyStandby (apply : XLogRecPtr) : WalSnd :=
  { pid := 1
    state := .streaming
    peerRole := .standby
    position := fun mode => if mode = .apply then apply else 100
    syncStandbyPriority := 1
    syncStandbyGroup := 0
    isCrossCluster := false
    tooOld := fun _ => false }

/-- A primary that waits for its standbys. -/
def waitingPrimary : Primary :=
  { mostAvailableSync := false
    delayIntoMostAvaSync := false
    xlogWriteRecPtr := 200
    flushRecPtr := 150 }

/-- Memory that happens to be zero. -/
def zeroMemory : ArrayMemory :=
  { entry := fun _ _ _ => 0
    before := fun _ _ => 0 }

/-- One priority group that asks for one standby. -/
def oneStandby : SyncRepConfigData :=
  { numSync := 1
    syncrepMethod := .priority }

/-- The standby has applied to position 90: the call returns positions it has reached, and so
does a run in which its walsender releases waiters. -/
theorem sync_commit_is_not_released_early_applied :
    (∃ positions, (syncRepGetSyncRecPtr [oneStandby] waitingPrimary zeroMemory [onlyStandby 90] 0
        true).1 = some positions ∧ positions .apply = 90 ∧
      Acknowledged [oneStandby] [onlyStandby 90] .apply (positions .apply)) ∧
    ∃ (start : SyncRepState) (events : List SyncRepEvent),
      (events.foldl syncRepStep start).lsn .flush = 100 ∧
      ((events.foldl syncRepStep start).lsn .flush = invalidXLogRecPtr ∨
        WasAcknowledged start events .flush ((events.foldl syncRepStep start).lsn .flush)) := by
  have recent : NoneTooOld [onlyStandby 90] := by
    intro walsnd member mode
    rw [mem_singleton.mp member]
    rfl
  have covered : Covered [oneStandby] [onlyStandby 90] 0 true := by
    intro _ _ groupid group present
    cases groupid with
    | zero =>
      rw [getElem?_cons_zero, Option.some.injEq] at present
      rw [← present]
      intro entry chosen mode
      have standby := mem_singleton.mp (mem_of_getElem? chosen.1)
      rw [standby]
      cases mode <;> decide
    | succ groupid => simp at present
  let start : SyncRepState :=
    { config := fun _ => [oneStandby]
      senders := [onlyStandby 90]
      primary := waitingPrimary
      computed := fun _ => none
      lsn := fun _ => 0 }
  refine ⟨⟨_, rfl, rfl, ?_⟩, ?_⟩
  · exact (sync_commit_is_not_released_early start []).1 [oneStandby] waitingPrimary zeroMemory
      [onlyStandby 90] 0 true _ rfl recent covered rfl .apply
  · refine ⟨start, [.compute 0 zeroMemory, .update 0 .flush], rfl, ?_⟩
    exact (sync_commit_is_not_released_early start [.compute 0 zeroMemory, .update 0 .flush]).2
      ⟨fun _ => rfl, fun _ => rfl⟩ ⟨⟨rfl, recent, covered⟩, trivial, trivial⟩ .flush

/-- The standby has not applied anything yet, and the call returns its flush position as the
one it has applied to. -/
theorem sync_commit_released_before_apply :
    Accepted [oneStandby] ∧ waitingPrimary.mostAvailableSync = false ∧ NoneTooOld [onlyStandby 0] ∧
    ∃ positions, (syncRepGetSyncRecPtr [oneStandby] waitingPrimary zeroMemory [onlyStandby 0] 0
        true).1 = some positions ∧
      ¬Acknowledged [oneStandby] [onlyStandby 0] .apply (positions .apply) := by
  refine ⟨⟨by decide, .inl ⟨oneStandby, rfl, rfl⟩⟩, rfl, ?_, _, rfl, ?_⟩
  · intro walsnd member mode
    rw [mem_singleton.mp member]
    rfl
  · intro acknowledged
    have reached := acknowledged 0 oneStandby rfl
    change 1 ≤ List.countP _ _ at reached
    exact absurd reached (by decide)

end OpenGauss.Replication
