import OpenGauss.Base.Ranking
import Mathlib.Data.List.Count

/-!
# Synchronous standbys

`synchronous_standby_names` lists groups of standbys; a commit waits for `num_sync` standbys
of every group. This module embeds the data the walsenders publish in shared memory and the
functions that read off it which standbys count: `SyncRepGetSyncStandbysInGroup` collects the
eligible walsenders of a group, and cuts a priority group down to the `num_sync` walsenders of
highest priority.
-/
namespace OpenGauss.Replication

open List OpenGauss.Base

/-- A position in the write-ahead log; zero is the invalid one. -/
abbrev XLogRecPtr := Nat

/-- `InvalidXLogRecPtr`. -/
def invalidXLogRecPtr : XLogRecPtr := 0

/-- The stages of replication a commit can wait for. -/
inductive WaitMode
  | receive
  | write
  | flush
  | apply
  deriving DecidableEq, Repr

/-- The states a walsender goes through, in the order of the source. -/
inductive WalSndState
  | startup
  | backup
  | catchup
  | uwalCatchup
  | uwalCatchupMsgSent
  | uwalCatchupEnd
  | streaming
  | stopping
  deriving DecidableEq, Repr

/-- The walsender has not yet reached the streaming state. -/
def WalSndState.beforeStreaming : WalSndState → Bool
  | .streaming => false
  | .stopping => false
  | _ => true

/-- The role of the server a walsender serves. -/
inductive ServerMode
  | unknown
  | normal
  | primary
  | standby
  | cascadeStandby
  | pending
  | recovery
  | standbyCluster
  | mainStandby
  deriving DecidableEq, Repr

/-- What a walsender publishes in its shared memory slot. -/
structure WalSnd where
  pid : Nat
  state : WalSndState
  peerRole : ServerMode
  position : WaitMode → XLogRecPtr
  /-- Priority of the standby in its group, zero for an asynchronous one. -/
  syncStandbyPriority : Nat
  /-- Group of `synchronous_standby_names` the standby belongs to. -/
  syncStandbyGroup : Nat
  isCrossCluster : Bool
  /-- Answers of `IfIgnoreStandbyLsn` about the standby's positions. -/
  tooOld : WaitMode → Bool

/-- The two ways in which a group counts standbys. -/
inductive SyncRepMethod
  | priority
  | quorum
  deriving DecidableEq, Repr

/-- One parsed group of `synchronous_standby_names`. -/
structure SyncRepConfigData where
  numSync : Nat
  syncrepMethod : SyncRepMethod
  deriving DecidableEq, Repr

/-- `SYNC_REP_MAX_GROUPS`. -/
def syncRepMaxGroups : Nat := 256

/-- The group lists `check_synchronous_standby_names` lets through: one priority group on its
own, or quorum groups only. -/
def Accepted (config : List SyncRepConfigData) : Prop :=
  config.length ≤ syncRepMaxGroups ∧
    ((∃ group, config = [group] ∧ group.syncrepMethod = .priority) ∨
      ∀ group ∈ config, group.syncrepMethod = .quorum)

/-- The copy of a walsender's slot that the computation of the positions works on. -/
structure SyncRepStandbyData where
  position : WaitMode → XLogRecPtr
  syncStandbyPriority : Nat
  syncStandbyGroup : Nat
  isCrossCluster : Bool
  tooOld : WaitMode → Bool
  walsndIndex : Nat
  isMe : Bool

/-- The walsender is a candidate for a synchronous standby of the group. -/
def WalSnd.eligible (walsnd : WalSnd) (group : SyncRepConfigData) (groupid : Nat) : Bool :=
  walsnd.pid != 0 && walsnd.syncStandbyPriority != 0 && walsnd.syncStandbyGroup == groupid &&
    walsnd.position .flush != invalidXLogRecPtr && walsnd.state == .streaming &&
    !(group.syncrepMethod == .quorum && walsnd.peerRole == .standbyCluster)

/-- The copy made of the slot with the given index. -/
def WalSnd.standbyData (walsnd : WalSnd) (me index : Nat) : SyncRepStandbyData :=
  { position := walsnd.position
    syncStandbyPriority := walsnd.syncStandbyPriority
    syncStandbyGroup := walsnd.syncStandbyGroup
    isCrossCluster := walsnd.isCrossCluster
    tooOld := walsnd.tooOld
    walsndIndex := index
    isMe := index == me }

/-- The scan over the slots from the given index on. A mode, when one is given, leaves out the
standbys whose position in it is too old. -/
def candidates (group : SyncRepConfigData) (me groupid : Nat) (mode : Option WaitMode) :
    Nat → List WalSnd → List SyncRepStandbyData
  | _, [] => []
  | index, walsnd :: rest =>
    if walsnd.eligible group groupid && !mode.any walsnd.tooOld then
      walsnd.standbyData me index :: candidates group me groupid mode (index + 1) rest
    else
      candidates group me groupid mode (index + 1) rest

/-- `standby_priority_comparator`: a lower priority value comes first, then a lower slot. -/
def standbyPriorityComparator (first second : SyncRepStandbyData) : Int :=
  if first.syncStandbyPriority ≠ second.syncStandbyPriority then
    (first.syncStandbyPriority : Int) - second.syncStandbyPriority
  else
    (first.walsndIndex : Int) - second.walsndIndex

/-- The candidates of one group, cut down to the first `num_sync` in a priority group. -/
def syncRepGetSyncStandbysInGroup (group : SyncRepConfigData) (senders : List WalSnd)
    (me groupid : Nat) (mode : Option WaitMode) : List SyncRepStandbyData :=
  let found := candidates group me groupid mode 0 senders
  if group.syncrepMethod = .priority ∧ group.numSync < found.length then
    (found.insertionSort (fun first second => standbyPriorityComparator first second ≤ 0)).take
      group.numSync
  else found

/-- The synchronous standbys of all groups from the given one on. -/
def syncStandbysFrom (senders : List WalSnd) (me : Nat) :
    Nat → List SyncRepConfigData → List SyncRepStandbyData
  | _, [] => []
  | groupid, group :: rest =>
    syncRepGetSyncStandbysInGroup group senders me groupid none ++
      syncStandbysFrom senders me (groupid + 1) rest

/-- The standbys that are considered as synchronous at this moment. -/
def syncRepGetSyncStandbys (config : List SyncRepConfigData) (senders : List WalSnd) (me : Nat) :
    List SyncRepStandbyData :=
  syncStandbysFrom senders me 0 config

/-! ## Who is selected -/

/-- The first walsender comes before the second in the order of the priorities; the slots break
ties. -/
def ahead (first second : WalSnd × Nat) : Bool :=
  first.1.syncStandbyPriority < second.1.syncStandbyPriority ||
    (first.1.syncStandbyPriority == second.1.syncStandbyPriority && first.2 < second.2)

/-- How many eligible standbys of the group have a higher priority than the given one. -/
def priorityRank (group : SyncRepConfigData) (groupid : Nat) (senders : List WalSnd)
    (entry : WalSnd × Nat) : Nat :=
  senders.zipIdx.countP fun other => ahead other entry && other.1.eligible group groupid

/-- The walsender in a slot is one the group waits for: an eligible one, and in a priority
group one of the `num_sync` of highest priority. -/
def Selected (group : SyncRepConfigData) (groupid : Nat) (senders : List WalSnd)
    (entry : WalSnd × Nat) : Prop :=
  senders[entry.2]? = some entry.1 ∧ entry.1.eligible group groupid = true ∧
    (group.syncrepMethod = .priority → priorityRank group groupid senders entry < group.numSync)

/-- How many walsenders are eligible in the group. -/
def eligibleCount (group : SyncRepConfigData) (groupid : Nat) (senders : List WalSnd) : Nat :=
  senders.countP fun walsnd => walsnd.eligible group groupid

variable (group : SyncRepConfigData) (me groupid : Nat) (senders : List WalSnd)

theorem candidates_eq (me groupid index : Nat) (senders : List WalSnd) :
    candidates group me groupid none index senders =
      ((senders.zipIdx index).filter fun entry => entry.1.eligible group groupid).map
        fun entry => entry.1.standbyData me entry.2 := by
  induction senders generalizing index with
  | nil => rfl
  | cons walsnd rest ih =>
    rw [candidates, ih (index + 1)]
    by_cases chosen : walsnd.eligible group groupid = true
    · simp [chosen]
    · simp [chosen]

theorem candidates_length : (candidates group me groupid none 0 senders).length =
      eligibleCount group groupid senders := by
  have slots : senders.zipIdx.map Prod.fst = senders := by simp
  rw [candidates_eq, length_map, ← countP_eq_length_filter, eligibleCount]
  conv_rhs => rw [← slots, countP_map]
  rfl

theorem candidates_group (standby : SyncRepStandbyData)
    (member : standby ∈ candidates group me groupid none 0 senders) :
    standby.syncStandbyGroup = groupid := by
  rw [candidates_eq, mem_map] at member
  obtain ⟨entry, found, rfl⟩ := member
  have chosen := (mem_filter.mp found).2
  simp only [WalSnd.eligible, Bool.and_eq_true, beq_iff_eq] at chosen
  exact chosen.1.1.1.2

theorem candidates_nodup : (candidates group me groupid none 0 senders).Pairwise
      (fun first second => first.walsndIndex ≠ second.walsndIndex) := by
  have slots : senders.zipIdx.Pairwise (fun first second => first.2 ≠ second.2) := by
    have nodup : (senders.zipIdx.map Prod.snd).Nodup := by
      rw [zipIdx_map_snd]
      exact nodup_range'
    exact pairwise_map.mp nodup
  rw [candidates_eq, pairwise_map]
  exact slots.filter _

theorem comparator_neg_iff (me : Nat) (first second : WalSnd × Nat) :
    decide (standbyPriorityComparator (first.1.standbyData me first.2)
      (second.1.standbyData me second.2) < 0) = ahead first second := by
  rw [Bool.eq_iff_iff]
  simp only [ahead, decide_eq_true_eq, Bool.or_eq_true, Bool.and_eq_true, beq_iff_eq]
  unfold standbyPriorityComparator
  split
  · rename_i differ
    simp only [WalSnd.standbyData] at differ ⊢
    omega
  · rename_i same
    simp only [WalSnd.standbyData] at same ⊢
    omega

/-- The candidates are sorted strictly. -/
theorem sorted_candidates (found : List SyncRepStandbyData)
    (distinct : found.Pairwise (fun first second => first.walsndIndex ≠ second.walsndIndex)) :
    (found.insertionSort fun first second => standbyPriorityComparator first second ≤ 0).Pairwise
      (fun first second => decide (standbyPriorityComparator first second < 0) = true) := by
  have total : Std.Total
      (fun first second : SyncRepStandbyData => standbyPriorityComparator first second ≤ 0) := by
    constructor
    intro first second
    unfold standbyPriorityComparator
    split <;> split <;> omega
  have transitive : IsTrans SyncRepStandbyData
      (fun first second => standbyPriorityComparator first second ≤ 0) := by
    constructor
    intro first second third
    unfold standbyPriorityComparator
    split <;> split <;> split <;> omega
  have sorted := pairwise_insertionSort
    (fun first second : SyncRepStandbyData => standbyPriorityComparator first second ≤ 0) found
  have apart := ((perm_insertionSort
    (fun first second : SyncRepStandbyData => standbyPriorityComparator first second ≤ 0)
      found).pairwise_iff (fun distinct same => distinct same.symm)).mpr distinct
  refine (sorted.and apart).imp ?_
  intro first second both
  rw [decide_eq_true_eq]
  have order := both.1
  unfold standbyPriorityComparator at order ⊢
  split at order <;> split <;> omega

theorem comparator_asymm (first second : SyncRepStandbyData)
    (before : decide (standbyPriorityComparator first second < 0) = true) :
    decide (standbyPriorityComparator second first < 0) = false := by
  rw [decide_eq_true_eq] at before
  rw [decide_eq_false_iff_not]
  unfold standbyPriorityComparator at before ⊢
  split at before <;> split <;> omega

theorem priorityRank_eq (entry : WalSnd × Nat) : (candidates group me groupid none 0 senders).countP
      (fun other => decide (standbyPriorityComparator other (entry.1.standbyData me entry.2) < 0)) =
      priorityRank group groupid senders entry := by
  rw [candidates_eq, countP_map, countP_filter]
  apply countP_congr
  intro other _
  rw [Function.comp_apply, comparator_neg_iff]

/-- The standbys of a group are those selected. -/
theorem mem_syncRepGetSyncStandbysInGroup (me groupid : Nat) (standby : SyncRepStandbyData) :
    standby ∈ syncRepGetSyncStandbysInGroup group senders me groupid none ↔
      ∃ entry, Selected group groupid senders entry ∧ standby = entry.1.standbyData me entry.2 := by
  have found : standby ∈ candidates group me groupid none 0 senders ↔
      ∃ entry : WalSnd × Nat, (senders[entry.2]? = some entry.1 ∧
        entry.1.eligible group groupid = true) ∧ standby = entry.1.standbyData me entry.2 := by
    rw [candidates_eq, mem_map]
    simp only [mem_filter, mem_zipIdx_iff_getElem?, eq_comm]
  simp only [syncRepGetSyncStandbysInGroup]
  split
  · rename_i cut
    rw [mem_take_iff_countP_lt _ comparator_asymm _
      (sorted_candidates _ (candidates_nodup group me groupid senders)),
      mem_insertionSort, (perm_insertionSort _ _).countP_eq, found]
    constructor
    · rintro ⟨⟨entry, eligible, rfl⟩, few⟩
      rw [priorityRank_eq] at few
      exact ⟨entry, ⟨eligible.1, eligible.2, fun _ => few⟩, rfl⟩
    · rintro ⟨entry, chosen, rfl⟩
      rw [priorityRank_eq]
      exact ⟨⟨entry, ⟨chosen.1, chosen.2.1⟩, rfl⟩, chosen.2.2 cut.1⟩
  · rename_i whole
    rw [found]
    constructor
    · rintro ⟨entry, eligible, rfl⟩
      refine ⟨entry, ⟨eligible.1, eligible.2, ?_⟩, rfl⟩
      intro byPriority
      have few : (candidates group me groupid none 0 senders).length ≤ group.numSync := by
        by_contra more
        exact whole ⟨byPriority, by omega⟩
      -- A standby is not ahead of itself, so its rank is below the number of candidates.
      have self : decide (standbyPriorityComparator (entry.1.standbyData me entry.2)
          (entry.1.standbyData me entry.2) < 0) = false := by
        simp [standbyPriorityComparator]
      have below : (candidates group me groupid none 0 senders).countP (fun other =>
          decide (standbyPriorityComparator other (entry.1.standbyData me entry.2) < 0)) <
          (candidates group me groupid none 0 senders).length :=
        countP_lt_length_iff.mpr
          ⟨entry.1.standbyData me entry.2, found.mpr ⟨entry, eligible, rfl⟩, self⟩
      rw [priorityRank_eq] at below
      omega
    · rintro ⟨entry, chosen, rfl⟩
      exact ⟨entry, ⟨chosen.1, chosen.2.1⟩, rfl⟩

/-- As many are selected as are asked for. -/
theorem selected_count {groupid : Nat} {senders : List WalSnd}
    (enough : group.numSync ≤ eligibleCount group groupid senders) :
    (senders.zipIdx.countP fun entry => entry.1.eligible group groupid &&
      decide (priorityRank group groupid senders entry < group.numSync)) = group.numSync := by
  have sorted := sorted_candidates _ (candidates_nodup group 0 groupid senders)
  have front := congrArg List.length
    (filter_countP_lt_eq_take _ comparator_asymm _ sorted group.numSync)
  rw [← countP_eq_length_filter, length_take, length_insertionSort,
    candidates_length, Nat.min_eq_left enough] at front
  simp only [(perm_insertionSort _ _).countP_eq] at front
  refine Eq.trans ?_ front
  conv_rhs => rw [candidates_eq, countP_map, countP_filter]
  apply countP_congr
  intro entry _
  rw [Function.comp_apply, ← candidates_eq, priorityRank_eq, Bool.and_comm]

theorem syncRepGetSyncStandbysInGroup_group {me groupid : Nat} {standby : SyncRepStandbyData}
    (member : standby ∈ syncRepGetSyncStandbysInGroup group senders me groupid none) :
    standby.syncStandbyGroup = groupid := by
  apply candidates_group group me groupid senders
  simp only [syncRepGetSyncStandbysInGroup] at member
  split at member
  · exact (mem_insertionSort _).mp (mem_of_mem_take member)
  · exact member

theorem syncRepGetSyncStandbysInGroup_length (me groupid : Nat) :
    group.numSync ≤ (syncRepGetSyncStandbysInGroup group senders me groupid none).length ↔
      group.numSync ≤ eligibleCount group groupid senders := by
  rw [← candidates_length group me groupid senders]
  simp only [syncRepGetSyncStandbysInGroup]
  split
  · rw [length_take, length_insertionSort]
    lia
  · rfl

theorem syncRepGetSyncStandbysInGroup_quorum
    (me groupid : Nat) (quorum : group.syncrepMethod = .quorum) :
    syncRepGetSyncStandbysInGroup group senders me groupid none =
      candidates group me groupid none 0 senders := by
  simp [syncRepGetSyncStandbysInGroup, quorum]

/-- The standbys of one group among all. -/
theorem syncStandbysFrom_filter (me start offset : Nat)
    {config : List SyncRepConfigData} {group : SyncRepConfigData}
    (present : config[offset]? = some group) :
    ((syncStandbysFrom senders me start config).filter fun standby =>
      standby.syncStandbyGroup == start + offset) =
      syncRepGetSyncStandbysInGroup group senders me (start + offset) none := by
  have own (group : SyncRepConfigData) (groupid : Nat) :
      ((syncRepGetSyncStandbysInGroup group senders me groupid none).filter fun standby =>
        standby.syncStandbyGroup == groupid) =
        syncRepGetSyncStandbysInGroup group senders me groupid none := by
    rw [filter_eq_self]
    intro standby member
    simp [syncRepGetSyncStandbysInGroup_group group senders member]
  have other (group : SyncRepConfigData) (groupid wanted : Nat) (differ : groupid ≠ wanted) :
      ((syncRepGetSyncStandbysInGroup group senders me groupid none).filter fun standby =>
        standby.syncStandbyGroup == wanted) = [] := by
    rw [filter_eq_nil_iff]
    intro standby member
    simp [syncRepGetSyncStandbysInGroup_group group senders member, differ]
  have later (config : List SyncRepConfigData) (start wanted : Nat) (below : wanted < start) :
      ((syncStandbysFrom senders me start config).filter fun standby =>
        standby.syncStandbyGroup == wanted) = [] := by
    induction config generalizing start with
    | nil => rfl
    | cons group rest ih =>
      rw [syncStandbysFrom, filter_append, other group start wanted (by omega),
        ih (start + 1) (by omega), append_nil]
  induction config generalizing start offset with
  | nil => simp at present
  | cons first rest ih =>
    rw [syncStandbysFrom, filter_append]
    cases offset with
    | zero =>
      rw [getElem?_cons_zero, Option.some.injEq] at present
      rw [present, Nat.add_zero, own group start, later rest (start + 1) start (by omega),
        append_nil]
    | succ offset =>
      have shift : start + (offset + 1) = start + 1 + offset := by omega
      rw [other first start (start + (offset + 1)) (by omega), shift]
      exact ih (start + 1) offset present

/-- Every standby is one of a group. -/
theorem mem_syncStandbysFrom (me start : Nat)
    (config : List SyncRepConfigData) (standby : SyncRepStandbyData)
    (member : standby ∈ syncStandbysFrom senders me start config) :
    ∃ offset group, config[offset]? = some group ∧
      standby ∈ syncRepGetSyncStandbysInGroup group senders me (start + offset) none := by
  induction config generalizing start with
  | nil => simp [syncStandbysFrom] at member
  | cons first rest ih =>
    rw [syncStandbysFrom, mem_append] at member
    rcases member with here | later
    · exact ⟨0, first, rfl, here⟩
    · obtain ⟨offset, group, present, found⟩ := ih (start + 1) later
      have shift : start + 1 + offset = start + (offset + 1) := by omega
      rw [shift] at found
      exact ⟨offset + 1, group, present, found⟩

end OpenGauss.Replication
