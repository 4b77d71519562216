import OpenGauss.Undo.Recycle

/-!
# The main loop of the undo recycler

A round of `UndoRecycleMain` takes a snapshot limit, visits every zone of the instance, and
raises `globalRecycleXid` to the smallest result of its visits. With too little space left it
visits the zones again with a larger forced limit and keeps the smallest result of all attempts.
The value is right as long as every zone was looked at: a round that leaves the zone loop because
of an in-place upgrade has no results, which it takes for an instance without undo.
-/
namespace OpenGauss.Undo

open Option Function List OpenGauss.Base

/-- `GetOldestXminForUndo`: the snapshot limit for undo, held back for flashback queries where undo
is retained for them. -/
def getOldestXminForUndo (oldestXmin : Nat) (enableTcapVersion : Bool)
    (globalOldestXminInFlashback globalRecycleXid : Nat) : Nat :=
  if enableTcapVersion then
    let recycleXmin :=
      if transactionIdIsValid globalOldestXminInFlashback then
        if oldestXmin < globalOldestXminInFlashback then oldestXmin
        else globalOldestXminInFlashback
      else oldestXmin
    if recycleXmin < globalRecycleXid then globalRecycleXid else recycleXmin
  else oldestXmin

/-- `UpdateRecyledXid`. -/
def updateRecyledXid (recycleMaxXIDs : List Nat) (recycleXid : Nat) : List Nat :=
  if recycleXid ≠ invalidTransactionId then recycleMaxXIDs ++ [recycleXid] else recycleMaxXIDs

/-- `UpdateXidHavingUndo`. -/
def updateXidHavingUndo (recycleMaxXIDs : List Nat) (oldestXidHavingUndo oldestXmin : Nat) : Nat :=
  if 0 < recycleMaxXIDs.length then
    recycleMaxXIDs.foldl (fun oldest xid =>
      if oldest = invalidTransactionId then xid
      else if xid < oldest then xid else oldest) oldestXidHavingUndo
  else oldestXmin

/-- Variables of one round. -/
structure RecycleRound where
  oldestXmin : Nat
  recycleXmin : Nat
  forceRecycleXid : Nat
  /-- Whether `upgrade_mode` is 1 since the configuration was read for this round. -/
  upgradeMode : Bool
  idx : Nat
  recycleMaxXIDs : List Nat
  /-- Smallest result of the earlier attempts, or an invalid number. -/
  oldestXidHavingUndo : Nat
  oldestFrozenXidInUndo : Nat
  isAnyZoneUsed : Bool
  pass : Option Pass

/-- The instance, as far as the recycler sees it. -/
structure Recycler where
  xids : XidTable
  /-- Zones that exist (`GetUndoZone`). -/
  zones : Nat → Option ZoneState
  uZoneCount : Nat
  round : Option RecycleRound
  lastXmin : Option Nat
  /-- Finished rounds (`g_recycleLoops`). -/
  recycleLoops : Nat
  down : Bool

/-- What can happen in an instance. -/
inductive MainEvent where
  | begin
  | commit (xid : Nat)
  | finish (xid : Nat)
  | createZone (zid : Nat) (pLevel : UndoPersistence) (slots : Nat → TransactionSlot)
  | prepareUndoMeta (zid xid lastRecord lastRecordSize : Nat)
  | allocTransactionSlot (zid : Nat) (write : PendingWrite) (dbId : Nat)
  | updateTransactionSlot (zid slotPtr : Nat) (write : PendingWrite)
  | updateRollbackFinish (zid slotPtr : Nat)
  | startRound (oldestXmin : Nat) (enableTcapVersion : Bool) (globalOldestXminInFlashback : Nat)
    (upgradeMode : Bool) (forceRecycleXid : Nat)
  /-- The recycler goes to the next zone, up to the end of `AdvanceFrozenXid`. -/
  | visit
  | recycle (position : Nat → Nat)
  | endScan (retryXid : Nat)
  | shutdown

namespace Recycler

/-- Replace a zone. -/
def setZone (recycler : Recycler) (zid : Nat) (state : ZoneState) : Recycler :=
  { recycler with zones := update recycler.zones zid (some state) }

/-- Change a zone, where it exists. -/
def onZone (recycler : Recycler) (zid : Nat) (change : ZoneState → ZoneState) : Recycler :=
  match recycler.zones zid with
  | some state => recycler.setZone zid (change state)
  | none => recycler

/-- The beginning of a round; without a valid limit, or behind the frozen limit, it is skipped. -/
def startRound (recycler : Recycler) (oldestXmin : Nat) (enableTcapVersion : Bool)
    (globalOldestXminInFlashback : Nat) (upgradeMode : Bool) (forceRecycleXid : Nat) : Recycler :=
  let recycleXmin := getOldestXminForUndo oldestXmin enableTcapVersion globalOldestXminInFlashback
    recycler.xids.globalRecycleXid
  if !transactionIdIsValid recycleXmin || decide (oldestXmin < recycler.xids.globalFrozenXid) then
    recycler
  else { recycler with
    round := some {
      oldestXmin := oldestXmin
      recycleXmin := recycleXmin
      forceRecycleXid := forceRecycleXid
      upgradeMode := upgradeMode
      idx := if recycler.uZoneCount ≠ 0 then 0 else undoZoneCount
      recycleMaxXIDs := []
      oldestXidHavingUndo := invalidTransactionId
      oldestFrozenXidInUndo := oldestXmin
      isAnyZoneUsed := false
      pass := none } }

/-- The zone loop up to `AdvanceFrozenXid` of one zone. -/
def visit (recycler : Recycler) (round : RecycleRound) : Recycler :=
  if round.upgradeMode then { recycler with round := some { round with idx := undoZoneCount } }
  else match recycler.zones round.idx with
  | none => { recycler with round := some { round with idx := round.idx + 1 } }
  | some state =>
    if state.zone.used then
      let scan := state.frozenScan recycler.xids round.oldestXmin
      if scan.panicked then { recycler with down := true, round := none }
      else { recycler.setZone round.idx (state.frozenTo scan) with
        round := some { round with
          pass := some ⟨round.oldestXmin, round.recycleXmin, scan.oldestFrozenXid⟩ } }
    else { recycler with round := some { round with idx := round.idx + 1 } }

/-- `RecycleUndoSpace` of one zone and the rest of the zone loop. -/
def recycle (recycler : Recycler) (round : RecycleRound) (pass : Pass) (state : ZoneState)
    (position : Nat → Nat) : Recycler :=
  let scan := state.recycleScan recycler.xids
    ⟨pass.recycleXmin, pass.frozenXid, round.forceRecycleXid, recycler.recycleLoops⟩ position
  { recycler.setZone round.idx (state.recycleTo recycler.xids scan) with
    down := scan.panicked
    round := if scan.panicked then none else some { round with
      idx := round.idx + 1
      pass := none
      isAnyZoneUsed := true
      oldestFrozenXidInUndo :=
        if pass.frozenXid < round.oldestFrozenXidInUndo then pass.frozenXid
        else round.oldestFrozenXidInUndo
      recycleMaxXIDs := updateRecyledXid round.recycleMaxXIDs scan.oldestRecycleXid } }

/-- The frozen limit behind the zone loop. -/
def publishFrozen (recycler : Recycler) (round : RecycleRound) : XidTable :=
  if round.isAnyZoneUsed then
    { recycler.xids with globalFrozenXid := round.oldestFrozenXidInUndo }
  else recycler.xids

/-- The end of a round: `globalRecycleXid` only goes up. -/
def finishRound (recycler : Recycler) (round : RecycleRound) (oldestXidHavingUndo : Nat) :
    Recycler :=
  let xids := recycler.publishFrozen round
  let limit :=
    if round.recycleXmin < oldestXidHavingUndo then round.recycleXmin else oldestXidHavingUndo
  { recycler with
    xids :=
      if oldestXidHavingUndo ≠ invalidTransactionId ∧ xids.globalRecycleXid < limit then
        { xids with globalRecycleXid := limit }
      else xids
    round := none
    lastXmin := some round.recycleXmin
    recycleLoops := if recycler.uZoneCount ≠ 0 then recycler.recycleLoops + 1
      else recycler.recycleLoops }

/-- Behind the zone loop: another attempt, or the end of the round. -/
def endScan (recycler : Recycler) (round : RecycleRound) (retryXid : Nat) : Recycler :=
  if recycler.uZoneCount ≠ 0 then
    let oldestXidHavingUndo :=
      updateXidHavingUndo round.recycleMaxXIDs round.oldestXidHavingUndo round.recycleXmin
    if transactionIdIsValid retryXid then
      { recycler with
        xids := recycler.publishFrozen round
        round := some { round with
          forceRecycleXid := retryXid
          idx := 0
          recycleMaxXIDs := []
          oldestXidHavingUndo := oldestXidHavingUndo
          isAnyZoneUsed := false } }
    else recycler.finishRound round oldestXidHavingUndo
  else recycler.finishRound round round.oldestXidHavingUndo

/-- One event; nothing happens behind a PANIC. -/
def step (recycler : Recycler) (event : MainEvent) : Recycler :=
  if recycler.down then recycler
  else match event, recycler.round with
  | .begin, _ => { recycler with xids := recycler.xids.begin }
  | .commit xid, _ => { recycler with xids := recycler.xids.commit xid }
  | .finish xid, _ => { recycler with xids := recycler.xids.finish xid }
  | .createZone zid pLevel slots, _ =>
    { recycler.setZone zid ⟨UndoZone.init zid pLevel, slots, none, [], []⟩ with
      uZoneCount := recycler.uZoneCount + 1 }
  | .prepareUndoMeta zid xid lastRecord lastRecordSize, _ =>
    recycler.onZone zid (fun state => state.prepareUndoMeta xid lastRecord lastRecordSize)
  | .allocTransactionSlot zid write dbId, _ =>
    recycler.onZone zid (fun state => state.allocTransactionSlot write.xid dbId)
  | .updateTransactionSlot zid slotPtr write, _ =>
    recycler.onZone zid (fun state => state.updateTransactionSlot slotPtr write)
  | .updateRollbackFinish zid slotPtr, _ =>
    recycler.onZone zid (fun state => state.updateRollbackFinish slotPtr)
  | .startRound oldestXmin enableTcapVersion flashback upgradeMode forceRecycleXid, none =>
    recycler.startRound oldestXmin enableTcapVersion flashback upgradeMode forceRecycleXid
  | .visit, some round =>
    if round.pass.isNone && decide (round.idx < undoZoneCount) then recycler.visit round
    else recycler
  | .recycle position, some round =>
    match round.pass, recycler.zones round.idx with
    | some pass, some state => recycler.recycle round pass state position
    | _, _ => recycler
  | .endScan retryXid, some round =>
    if round.pass.isNone && decide (undoZoneCount ≤ round.idx) then
      recycler.endScan round retryXid
    else recycler
  | .shutdown, some _ => { recycler with round := none }
  | _, _ => recycler

/-- What may happen: writers keep to their critical sections, and a snapshot limit does not exceed
a running transaction. -/
def allowed (recycler : Recycler) : MainEvent → Prop
  | .begin => True
  | .commit xid => recycler.xids.running xid = true ∧
    ∀ zid state write, recycler.zones zid = some state → state.pending = some write →
      write.xid ≠ xid
  | .finish xid => ∀ zid state write, recycler.zones zid = some state →
    state.pending = some write → write.xid ≠ xid
  | .createZone zid _ _ => zid < undoZoneCount ∧ recycler.zones zid = none
  | .prepareUndoMeta zid xid lastRecord lastRecordSize => ∃ state, recycler.zones zid = some state ∧
    state.MayPrepare recycler.xids xid lastRecord lastRecordSize
  | .allocTransactionSlot zid write _ => ∃ state, recycler.zones zid = some state ∧
    state.MayAllocate write
  | .updateTransactionSlot zid slotPtr write => ∃ state, recycler.zones zid = some state ∧
    state.MayUpdate slotPtr write
  | .updateRollbackFinish zid slotPtr => ∃ state, recycler.zones zid = some state ∧
    slotPtr ∈ state.allocated
  | .startRound oldestXmin _ _ _ _ => oldestXmin ≤ recycler.xids.nextXid ∧
    ∀ xid, recycler.xids.running xid = true → oldestXmin ≤ xid
  | .visit => True
  | .recycle _ => True
  | .endScan _ => True
  | .shutdown => True

/-- A round that is not skipped has a snapshot limit that is not below what was published, and in
an instance with zones no in-place upgrade is announced to it. -/
def beginsSafely (recycler : Recycler) : MainEvent → Prop
  | .startRound oldestXmin enableTcapVersion flashback upgradeMode _ =>
    transactionIdIsValid (getOldestXminForUndo oldestXmin enableTcapVersion flashback
        recycler.xids.globalRecycleXid) = true →
      recycler.xids.globalFrozenXid ≤ oldestXmin → recycler.xids.globalRecycleXid ≤ oldestXmin ∧
        (upgradeMode = true → recycler.uZoneCount = 0)
  | _ => True

theorem getOldestXminForUndo_bounds {oldestXmin : Nat} (enableTcapVersion : Bool)
    (flashback : Nat) {globalRecycleXid : Nat}
    (behind : globalRecycleXid ≤ oldestXmin) : globalRecycleXid ≤
        getOldestXminForUndo oldestXmin enableTcapVersion flashback globalRecycleXid ∧
      getOldestXminForUndo oldestXmin enableTcapVersion flashback globalRecycleXid ≤
        oldestXmin := by
  unfold getOldestXminForUndo
  simp only
  split_ifs <;> exact ⟨by omega, by omega⟩

/-- The oldest transaction with undo is not behind any result. -/
theorem updateXidHavingUndo_le {results : List Nat} (oldest oldestXmin : Nat)
    (valid : ∀ result ∈ results, result ≠ invalidTransactionId) {result : Nat}
    (member : result ∈ results) : updateXidHavingUndo results oldest oldestXmin ≤ result := by
  have folded (rest : List Nat) (start : Nat)
      (valid : ∀ result ∈ rest, result ≠ invalidTransactionId) :
      (start ≠ invalidTransactionId → rest.foldl (fun oldest xid =>
        if oldest = invalidTransactionId then xid
        else if xid < oldest then xid else oldest) start ≤ start) ∧
      ∀ result ∈ rest, rest.foldl (fun oldest xid =>
        if oldest = invalidTransactionId then xid
        else if xid < oldest then xid else oldest) start ≤ result := by
    induction rest generalizing start with
    | nil => exact ⟨fun _ => le_rfl, fun _ none => nomatch none⟩
    | cons head tail ih =>
      have headValid := valid head mem_cons_self
      have tailSpec := fun next => ih next (fun result later =>
        valid result (mem_cons_of_mem _ later))
      rw [foldl_cons]
      by_cases unset : start = invalidTransactionId
      · rw [if_pos unset]
        refine ⟨fun set => absurd unset set, ?_⟩
        intro result member
        rcases mem_cons.mp member with here | later
        · rw [here]
          exact (tailSpec head).1 headValid
        · exact (tailSpec head).2 result later
      · rw [if_neg unset]
        by_cases smaller : head < start
        · rw [if_pos smaller]
          have below := (tailSpec head).1 headValid
          refine ⟨fun _ => by omega, ?_⟩
          intro result member
          rcases mem_cons.mp member with here | later
          · rw [here]
            exact below
          · exact (tailSpec head).2 result later
        · rw [if_neg smaller]
          have below := (tailSpec start).1 unset
          refine ⟨fun _ => below, ?_⟩
          intro result member
          rcases mem_cons.mp member with here | later
          · omega
          · exact (tailSpec start).2 result later
  unfold updateXidHavingUndo
  rw [if_pos (length_pos_of_mem member)]
  exact (folded results oldest valid).2 result member

/-- What a round keeps: its limits stay below every running transaction, and a number that is at
most the snapshot limit and every result is at most every slot left in the visited zones. During an
in-place upgrade all zones count as visited, since the round began without one. -/
structure RoundSound (recycler : Recycler) (allocate recycle : Nat → Nat) (round : RecycleRound) :
    Prop where
  upgrade : round.upgradeMode = true → round.recycleMaxXIDs = []
  positive : 0 < round.recycleXmin
  limit : round.recycleXmin ≤ round.oldestXmin
  next : round.oldestXmin ≤ recycler.xids.nextXid
  running : ∀ xid, recycler.xids.running xid = true → round.oldestXmin ≤ xid
  published : recycler.xids.globalRecycleXid ≤ round.recycleXmin
  results : ∀ result ∈ round.recycleMaxXIDs, result ≠ invalidTransactionId
  visited : ∀ bound, bound ≤ round.recycleXmin → (∀ result ∈ round.recycleMaxXIDs, bound ≤ result) →
      ∀ zid state, zid < round.idx ∨ round.upgradeMode = true → recycler.zones zid = some state →
        ∀ index, recycle zid ≤ index → index < allocate zid → bound ≤ (state.slot index).xactId
  pass : ∀ pass, round.pass = some pass → round.upgradeMode = false ∧
    pass.oldestXmin = round.oldestXmin ∧ pass.recycleXmin = round.recycleXmin ∧
      0 < pass.frozenXid ∧ round.idx < undoZoneCount ∧
      ∃ state, recycler.zones round.idx = some state ∧
        PassSound recycler.xids state (allocate round.idx) (recycle round.idx) pass

/-- What every event keeps, with the slots of each zone counted. -/
structure Invariant (recycler : Recycler) (allocate recycle frozen : Nat → Nat) : Prop where
  sound : recycler.xids.Sound
  ordered : ∀ zid state, recycler.zones zid = some state →
    zid < undoZoneCount ∧ state.zone.zid = zid ∧
      ZoneOrdered recycler.xids state (allocate zid) (recycle zid) (frozen zid)
  counted : recycler.uZoneCount = 0 → ∀ zid, recycler.zones zid = none
  last : ∀ xmin, recycler.lastXmin = some xmin → recycler.xids.globalRecycleXid ≤ xmin
  round : ∀ round, recycler.round = some round → RoundSound recycler allocate recycle round

variable (recycler : Recycler)

variable {recycler}

/-- Later transactions keep the invariant. -/
theorem Invariant.later {allocate recycle frozen : Nat → Nat}
    {after : XidTable} (invariant : recycler.Invariant allocate recycle frozen)
    (time : recycler.xids.Later after)
    (active : ∀ zid state write, recycler.zones zid = some state → state.pending = some write →
      after.running write.xid = true) :
    Invariant { recycler with xids := after } allocate recycle frozen where
  sound := invariant.sound.later time
  ordered := by
    intro zid state exists_
    obtain ⟨small, home, ordered⟩ := invariant.ordered zid state exists_
    exact ⟨small, home, ordered.later time
      (fun write pending => active zid state write exists_ pending)⟩
  counted := invariant.counted
  last := by
    intro xmin known
    change after.globalRecycleXid ≤ _
    rw [time.limit]
    exact invariant.last xmin known
  round := by
    intro round inRound
    have sound := invariant.round round inRound
    refine { sound with
      next := sound.next.trans time.next
      running := time.bound _ _ sound.next sound.running
      published := ?_
      pass := ?_ }
    · change after.globalRecycleXid ≤ _
      rw [time.limit]
      exact sound.published
    · intro pass inPass
      obtain ⟨zero, one, two, three, four, state, exists_, passSound⟩ := sound.pass pass inPass
      refine ⟨zero, one, two, three, four, state, exists_, ?_⟩
      exact passSound.later time (SlotsLater.refl after state _)
        (fun index within => ((invariant.ordered _ state exists_).2.2.normal index within).2)

/-- A write in a zone keeps the invariant. -/
theorem Invariant.write {allocate recycle frozen : Nat → Nat}
    {zid allocate' : Nat} {state after : ZoneState}
    (invariant : recycler.Invariant allocate recycle frozen)
    (exists_ : recycler.zones zid = some state)
    (slots : SlotsLater recycler.xids state after (allocate zid) allocate')
    (home : after.zone.zid = state.zone.zid)
    (ordered : ZoneOrdered recycler.xids after allocate' (recycle zid) (frozen zid)) :
    (recycler.setZone zid after).Invariant (update allocate zid allocate') recycle
      frozen where
  sound := invariant.sound
  ordered := by
    intro other found present
    change update recycler.zones zid (some after) other = some found at present
    obtain ⟨small, was, _⟩ := invariant.ordered zid state exists_
    by_cases same : other = zid
    · subst same
      rw [update_self] at present
      cases present
      rw [update_self]
      exact ⟨small, home.trans was, ordered⟩
    · rw [update_of_ne same] at present ⊢
      exact invariant.ordered other found present
  counted := by
    intro zero
    rw [invariant.counted zero zid] at exists_
    cases exists_
  last := invariant.last
  round := by
    intro round inRound
    have sound := invariant.round round inRound
    refine { sound with
      visited := ?_
      pass := ?_ }
    · intro bound atMost least other found before present index left within
      change update recycler.zones zid (some after) other = some found at present
      by_cases same : other = zid
      · subst same
        rw [update_self] at present within
        cases present
        rcases Nat.lt_or_ge index (allocate other) with old | new
        · rw [slots.same index old]
          exact sound.visited bound atMost least other state before exists_ index left old
        · have young := sound.running _ (slots.fresh index new within)
          have limit := sound.limit
          lia
      · rw [update_of_ne same] at present within
        exact sound.visited bound atMost least other found before present index left within
    · intro pass inPass
      obtain ⟨zero, one, two, three, four, found, present, passSound⟩ := sound.pass pass inPass
      by_cases same : round.idx = zid
      · rw [same] at present passSound
        rw [exists_] at present
        cases present
        refine ⟨zero, one, two, three, four, after, ?_, ?_⟩
        · rw [same]
          exact update_self _ _ _
        · rw [same, update_self]
          exact passSound.later recycler.xids.later_refl slots
            (fun index within => ((invariant.ordered zid state exists_).2.2.normal index within).2)
      · refine ⟨zero, one, two, three, four, found, ?_, ?_⟩
        · change update recycler.zones zid (some after) round.idx = some found
          rw [update_of_ne same]
          exact present
        · rw [update_of_ne same]
          exact passSound

/-- A new zone keeps the invariant. -/
theorem Invariant.createZone {allocate recycle frozen : Nat → Nat}
    {zid : Nat} (pLevel : UndoPersistence) (slots : Nat → TransactionSlot)
    (invariant : recycler.Invariant allocate recycle frozen) (small : zid < undoZoneCount)
    (absent : recycler.zones zid = none) :
    Invariant { recycler.setZone zid ⟨UndoZone.init zid pLevel, slots, none, [], []⟩ with
        uZoneCount := recycler.uZoneCount + 1 }
      (update allocate zid 0) (update recycle zid 0)
      (update frozen zid 0) where
  sound := invariant.sound
  ordered := by
    intro other found present
    change update recycler.zones zid _ other = some found at present
    by_cases same : other = zid
    · subst same
      rw [update_self] at present
      cases present
      rw [update_self, update_self, update_self]
      exact ⟨small, rfl, ZoneOrdered.init recycler.xids pLevel slots small⟩
    · rw [update_of_ne same] at present
      rw [update_of_ne same, update_of_ne same, update_of_ne same]
      exact invariant.ordered other found present
  counted := fun zero => absurd zero (Nat.succ_ne_zero _)
  last := invariant.last
  round := by
    intro round inRound
    have sound := invariant.round round inRound
    refine { sound with
      visited := ?_
      pass := ?_ }
    · intro bound atMost least other found before present index left within
      change update recycler.zones zid _ other = some found at present
      by_cases same : other = zid
      · rw [same, update_self] at within
        omega
      · rw [update_of_ne same] at present left within
        exact sound.visited bound atMost least other found before present index left within
    · intro pass inPass
      obtain ⟨zero, one, two, three, four, found, present, passSound⟩ := sound.pass pass inPass
      have other : round.idx ≠ zid := by
        intro same
        rw [same, absent] at present
        cases present
      refine ⟨zero, one, two, three, four, found, ?_, ?_⟩
      · change update recycler.zones zid _ round.idx = some found
        rw [update_of_ne other]
        exact present
      · rw [update_of_ne other, update_of_ne other]
        exact passSound

/-- A round that begins safely keeps the invariant. -/
theorem Invariant.startRound {allocate recycle frozen : Nat → Nat}
    {oldestXmin : Nat} {enableTcapVersion : Bool} {flashback : Nat} {upgradeMode : Bool}
    {forceRecycleXid : Nat} (invariant : recycler.Invariant allocate recycle frozen)
    (safe : recycler.beginsSafely
      (.startRound oldestXmin enableTcapVersion flashback upgradeMode forceRecycleXid))
    (next : oldestXmin ≤ recycler.xids.nextXid)
    (running : ∀ xid, recycler.xids.running xid = true → oldestXmin ≤ xid) :
    (recycler.startRound oldestXmin enableTcapVersion flashback upgradeMode
      forceRecycleXid).Invariant allocate recycle frozen := by
  unfold Recycler.startRound
  simp only
  split
  · exact invariant
  · rename_i proceeds
    rw [Bool.or_eq_true, decide_eq_true_eq, not_or] at proceeds
    obtain ⟨later, upgrade⟩ := safe (by simpa using proceeds.1) (Nat.not_lt.mp proceeds.2)
    have bounds := getOldestXminForUndo_bounds enableTcapVersion flashback later
    refine { invariant with round := ?_ }
    intro round inRound
    cases inRound
    refine ⟨fun _ => rfl, ?_, bounds.2, next, running, bounds.1, ?_, ?_, ?_⟩
    · by_contra zero
      have invalid : getOldestXminForUndo oldestXmin enableTcapVersion flashback
          recycler.xids.globalRecycleXid = 0 := by
        change ¬ 0 < getOldestXminForUndo _ _ _ _ at zero
        omega
      rw [invalid] at proceeds
      exact proceeds.1 rfl
    · intro result none
      cases none
    · intro bound atMost least zid state before present index left within
      have none : recycler.uZoneCount = 0 := by
        rcases before with before | upgrading
        · change zid < (if recycler.uZoneCount ≠ 0 then 0 else undoZoneCount) at before
          split at before
          · omega
          · omega
        · exact upgrade upgrading
      rw [invariant.counted none zid] at present
      cases present
    · intro pass none
      cases none

/-- A zone without older slots is skipped. -/
theorem RoundSound.skip {allocate recycle : Nat → Nat} {round : RecycleRound}
    (sound : RoundSound recycler allocate recycle round) (idle : round.pass = none)
    (clear : ∀ state, recycler.zones round.idx = some state → ∀ index, recycle round.idx ≤ index →
      index < allocate round.idx → round.recycleXmin ≤ (state.slot index).xactId) :
    RoundSound recycler allocate recycle { round with idx := round.idx + 1 } := by
  refine { sound with visited := ?_, pass := ?_ }
  · intro bound atMost least zid state before present index left within
    by_cases here : zid = round.idx
    · rw [here] at present left within
      exact atMost.trans (clear state present index left within)
    · have earlier : zid < round.idx ∨ round.upgradeMode = true :=
        before.imp (fun before => by change zid < round.idx + 1 at before; omega) id
      exact sound.visited bound atMost least zid state earlier present index left within
  · intro pass inPass
    rw [show round.pass = some pass from inPass] at idle
    cases idle

/-- A visit keeps the invariant. -/
theorem Invariant.visit {allocate recycle frozen : Nat → Nat}
    {round : RecycleRound} (invariant : recycler.Invariant allocate recycle frozen)
    (inRound : recycler.round = some round) (idle : round.pass = none)
    (within : round.idx < undoZoneCount) :
    ∃ frozen', (recycler.visit round).Invariant allocate recycle frozen' := by
  have sound := invariant.round round inRound
  unfold Recycler.visit
  by_cases upgrading : round.upgradeMode = true
  · rw [if_pos upgrading]
    refine ⟨frozen, { invariant with round := ?_ }⟩
    intro next inNext
    cases inNext
    refine { sound with visited := ?_, pass := ?_ }
    · intro bound atMost least zid state _
      exact sound.visited bound atMost least zid state (.inr upgrading)
    · intro pass inPass
      rw [show round.pass = some pass from inPass] at idle
      cases idle
  rw [if_neg upgrading]
  have skip (clear : ∀ state, recycler.zones round.idx = some state →
      ∀ index, recycle round.idx ≤ index → index < allocate round.idx →
        round.recycleXmin ≤ (state.slot index).xactId) :
      Invariant { recycler with round := some { round with idx := round.idx + 1 } } allocate recycle
        frozen := by
    refine { invariant with round := ?_ }
    intro next inNext
    cases inNext
    exact { sound.skip idle clear with }
  cases exists_ : recycler.zones round.idx with
  | none =>
    refine ⟨frozen, skip ?_⟩
    intro state present
    rw [exists_] at present
    cases present
  | some state =>
    obtain ⟨small, home, ordered⟩ := invariant.ordered round.idx state exists_
    simp only
    by_cases used : state.zone.used = true
    · rw [if_pos used]
      by_cases panicked : (state.frozenScan recycler.xids round.oldestXmin).panicked = true
      · rw [if_pos panicked]
        refine ⟨frozen, { invariant with round := ?_ }⟩
        intro next none
        cases none
      · rw [if_neg panicked]
        obtain ⟨frozen', kept, pass, positive⟩ := ordered.frozenTo
          sound.limit sound.next sound.running (by simpa using panicked)
        have limits : 0 < round.oldestXmin := lt_of_lt_of_le sound.positive sound.limit
        refine ⟨update frozen round.idx frozen', { invariant with
          ordered := ?_
          counted := ?_
          round := ?_ }⟩
        · intro other found present
          change update recycler.zones round.idx _ other = some found at present
          by_cases same : other = round.idx
          · subst same
            rw [update_self] at present ⊢
            cases present
            exact ⟨small, home, kept⟩
          · rw [update_of_ne same] at present ⊢
            exact invariant.ordered other found present
        · intro zero
          rw [invariant.counted zero round.idx] at exists_
          cases exists_
        · intro next inNext
          cases inNext
          refine ⟨sound.upgrade, sound.positive, sound.limit, sound.next, sound.running,
            sound.published, sound.results, ?_, ?_⟩
          · intro bound atMost least zid found before present index left inside
            change update recycler.zones round.idx _ zid = some found at present
            have earlier : zid < round.idx := before.resolve_right upgrading
            rw [update_of_ne (by omega)] at present
            exact sound.visited bound atMost least zid found before present index left inside
          · intro current inPass
            cases inPass
            exact ⟨by simpa using upgrading, rfl, rfl, positive limits, within, _,
              update_self _ _ _, pass⟩
    · rw [if_neg used]
      refine ⟨frozen, skip ?_⟩
      intro found present index left inside
      rw [exists_] at present
      cases present
      exact sound.limit.trans (ordered.unused sound.running (by simpa using used) left inside)

/-- Recycling a zone keeps the invariant. -/
theorem Invariant.recycle {allocate recycle frozen : Nat → Nat}
    {round : RecycleRound} {pass : Pass} {state : ZoneState} (position : Nat → Nat)
    (invariant : recycler.Invariant allocate recycle frozen)
    (inRound : recycler.round = some round) (inPass : round.pass = some pass)
    (exists_ : recycler.zones round.idx = some state) :
    ∃ recycle',
      (recycler.recycle round pass state position).Invariant allocate recycle' frozen := by
  have sound := invariant.round round inRound
  obtain ⟨small, home, ordered⟩ := invariant.ordered round.idx state exists_
  obtain ⟨calmly, _, sameLimit, frozenPositive, _, found, present, passSound⟩ :=
    sound.pass pass inPass
  rw [exists_] at present
  cases present
  obtain ⟨next, more, kept, sameZid, sameSlot, positive, result⟩ := ordered.recycleTo
    round.forceRecycleXid recycler.recycleLoops position passSound rfl
  unfold Recycler.recycle
  simp only
  generalize state.recycleScan recycler.xids ⟨pass.recycleXmin, pass.frozenXid,
    round.forceRecycleXid, recycler.recycleLoops⟩ position = scan at *
  have valid : scan.oldestRecycleXid ≠ invalidTransactionId := by
    have above := positive (by rw [sameLimit]; exact sound.positive) frozenPositive
    intro zero
    rw [zero] at above
    exact absurd above (by decide)
  have results : updateRecyledXid round.recycleMaxXIDs scan.oldestRecycleXid =
      round.recycleMaxXIDs ++ [scan.oldestRecycleXid] := if_pos valid
  refine ⟨update recycle round.idx next, { invariant with
    ordered := ?_
    counted := ?_
    round := ?_ }⟩
  · intro other seen there
    change update recycler.zones round.idx _ other = some seen at there
    by_cases same : other = round.idx
    · subst same
      rw [update_self] at there ⊢
      cases there
      exact ⟨small, sameZid.trans home, kept⟩
    · rw [update_of_ne same] at there ⊢
      exact invariant.ordered other seen there
  · intro zero
    rw [invariant.counted zero round.idx] at exists_
    cases exists_
  · intro after inAfter
    cases calm : scan.panicked with
    | true =>
      rw [calm] at inAfter
      cases inAfter
    | false =>
    rw [calm] at inAfter
    cases inAfter
    have steady : round.upgradeMode ≠ true := by simp [calmly]
    refine ⟨fun upgrading => absurd upgrading steady, sound.positive, sound.limit, sound.next,
      sound.running, sound.published, ?_, ?_, ?_⟩
    · intro value member
      change value ∈ updateRecyledXid _ _ at member
      rw [results] at member
      rcases mem_append.mp member with old | new
      · exact sound.results value old
      · rw [mem_singleton.mp new]
        exact valid
    · intro bound atMost least zid seen before there index left inside
      change ∀ value ∈ updateRecyledXid _ _, bound ≤ value at least
      rw [results] at least
      change update recycler.zones round.idx _ zid = some seen at there
      rcases Nat.lt_succ_iff_lt_or_eq.mp (before.resolve_right steady) with earlier | here
      · rw [update_of_ne (by lia)] at there left
        exact sound.visited bound atMost
          (fun value member => least value (mem_append_left _ member)) zid seen
          (.inl earlier) there index left inside
      · subst here
        rw [update_self] at there left
        cases there
        rw [sameSlot]
        rcases result calm index left inside with above | above
        · exact (least _ (mem_append_right _ (mem_singleton.mpr rfl))).trans above
        · rw [sameLimit] at above
          exact atMost.trans above
    · intro current none
      cases none

/-- Publishing the frozen limit keeps the invariant. -/
theorem Invariant.publishFrozen {allocate recycle frozen : Nat → Nat}
    (round : RecycleRound) (invariant : recycler.Invariant allocate recycle frozen) :
    Invariant { recycler with xids := recycler.publishFrozen round } allocate recycle frozen := by
  unfold Recycler.publishFrozen
  split
  · exact { invariant with
      sound := ⟨invariant.sound.normal, invariant.sound.behind, invariant.sound.running⟩
      ordered := fun zid state present =>
        let known := invariant.ordered zid state present
        ⟨known.1, known.2.1, known.2.2.publishFrozen _⟩
      round := by
        intro other inRound
        have sound := invariant.round other inRound
        refine { sound with pass := ?_ }
        intro pass inPass
        obtain ⟨zero, one, two, three, four, state, present, passSound⟩ := sound.pass pass inPass
        exact ⟨zero, one, two, three, four, state, present, ⟨passSound.limit,
          passSound.frozenLimit, passSound.next, passSound.running, passSound.concluded⟩⟩ }
  · exact invariant

/-- The end of a round keeps the invariant. -/
theorem Invariant.finishRound {allocate recycle frozen : Nat → Nat}
    {round : RecycleRound} {oldest : Nat} (invariant : recycler.Invariant allocate recycle frozen)
    (inRound : recycler.round = some round)
    (safe : ∀ limit, limit ≤ round.recycleXmin → limit ≤ oldest →
      ∀ zid state, recycler.zones zid = some state → ∀ index, recycle zid ≤ index →
        index < allocate zid → limit ≤ (state.slot index).xactId) :
    (recycler.finishRound round oldest).Invariant allocate recycle frozen := by
  have next := invariant.publishFrozen round
  have sound := next.round round inRound
  unfold Recycler.finishRound
  simp only
  generalize recycler.publishFrozen round = xids at *
  have atMost : (if round.recycleXmin < oldest then round.recycleXmin else oldest) ≤
      round.recycleXmin := by
    split <;> omega
  have below : (if round.recycleXmin < oldest then round.recycleXmin else oldest) ≤ oldest := by
    split <;> omega
  generalize (if round.recycleXmin < oldest then round.recycleXmin else oldest) = limit at *
  have limits := sound.limit
  have nextXid := sound.next
  by_cases raised : oldest ≠ invalidTransactionId ∧ xids.globalRecycleXid < limit
  · rw [if_pos raised]
    refine {
      sound := ?_
      ordered := ?_
      counted := invariant.counted
      last := ?_
      round := fun _ none => nomatch none }
    · refine ⟨next.sound.normal, (show limit ≤ xids.nextXid by
        have bound : round.oldestXmin ≤ xids.nextXid := nextXid
        lia), ?_⟩
      intro xid active
      obtain ⟨normal, given, _⟩ := next.sound.running xid active
      have young : round.oldestXmin ≤ xid := sound.running xid active
      exact ⟨normal, given, (show limit ≤ xid by lia)⟩
    · intro zid state present
      obtain ⟨small, home, ordered⟩ := next.ordered zid state present
      exact ⟨small, home, ordered.publish limit (safe limit atMost below zid state present)⟩
    · intro xmin known
      cases known
      exact atMost
  · rw [if_neg raised]
    refine { next with
      counted := invariant.counted
      last := ?_
      round := fun _ none => nomatch none }
    intro xmin known
    cases known
    exact sound.published

/-- The end of a scan keeps the invariant. -/
theorem Invariant.endScan {allocate recycle frozen : Nat → Nat}
    {round : RecycleRound} (retryXid : Nat) (invariant : recycler.Invariant allocate recycle frozen)
    (inRound : recycler.round = some round) (idle : round.pass = none)
    (through : undoZoneCount ≤ round.idx) :
    (recycler.endScan round retryXid).Invariant allocate recycle frozen := by
  have sound := invariant.round round inRound
  unfold Recycler.endScan
  by_cases counted : recycler.uZoneCount ≠ 0
  · rw [if_pos counted]
    simp only
    split
    · have next := invariant.publishFrozen round
      refine { next with round := ?_ }
      intro other inOther
      cases inOther
      have kept := next.round round inRound
      refine ⟨fun _ => rfl, kept.positive, kept.limit, kept.next, kept.running, kept.published, ?_,
        ?_, ?_⟩
      · intro result none
        cases none
      · intro bound atMost _ zid state before
        have upgrading := before.resolve_left (Nat.not_lt_zero _)
        exact kept.visited bound atMost (by simp [kept.upgrade upgrading]) zid state
          (.inr upgrading)
      · intro pass inPass
        rw [show round.pass = some pass from inPass] at idle
        cases idle
    · apply invariant.finishRound inRound
      intro limit atMost below zid state present index left within
      obtain ⟨small, _, _⟩ := invariant.ordered zid state present
      apply sound.visited limit atMost _ zid state (.inl (by lia)) present index left within
      intro result member
      exact below.trans (updateXidHavingUndo_le _ _ sound.results member)
  · rw [if_neg counted]
    apply invariant.finishRound inRound
    intro limit _ _ zid state present
    rw [invariant.counted (by omega) zid] at present
    cases present

variable (recycler)

/-- Every event keeps the invariant, where each round begins safely. -/
theorem step_invariant (event : MainEvent)
    (invariant : ∃ allocate recycle frozen, recycler.Invariant allocate recycle frozen)
    (may : recycler.allowed event ∧ recycler.beginsSafely event) :
    ∃ allocate recycle frozen, (recycler.step event).Invariant allocate recycle frozen := by
  obtain ⟨allocate, recycle, frozen, invariant⟩ := invariant
  obtain ⟨may, safe⟩ := may
  have onZone (zid : Nat) (state : ZoneState) (change : ZoneState → ZoneState) (allocate' : Nat)
      (present : recycler.zones zid = some state)
      (slots : SlotsLater recycler.xids state (change state) (allocate zid) allocate')
      (home : (change state).zone.zid = state.zone.zid)
      (ordered : ZoneOrdered recycler.xids (change state) allocate' (recycle zid) (frozen zid)) :
      ∃ allocate recycle frozen,
        (recycler.onZone zid change).Invariant allocate recycle frozen := by
    unfold Recycler.onZone
    rw [present]
    exact ⟨_, recycle, frozen, invariant.write present slots home ordered⟩
  unfold step
  by_cases stopped : recycler.down = true
  · rw [if_pos stopped]
    exact ⟨allocate, recycle, frozen, invariant⟩
  rw [if_neg stopped]
  cases event with
  | begin =>
    refine ⟨allocate, recycle, frozen, invariant.later recycler.xids.begin_later ?_⟩
    intro zid state write present pending
    have active := ((invariant.ordered zid state present).2.2.writing write pending).1
    have old := (invariant.sound.running write.xid active).2.1
    change update recycler.xids.running recycler.xids.nextXid true write.xid = true
    rw [update_of_ne (by omega)]
    exact active
  | commit xid =>
    exact ⟨allocate, recycle, frozen, invariant.later
      (recycler.xids.commit_later xid) (fun zid state write present pending =>
        ((invariant.ordered zid state present).2.2.writing write pending).1)⟩
  | finish xid =>
    refine ⟨allocate, recycle, frozen, invariant.later (recycler.xids.finish_later xid) ?_⟩
    intro zid state write present pending
    change update recycler.xids.running xid false write.xid = true
    rw [update_of_ne (may zid state write present pending)]
    exact ((invariant.ordered zid state present).2.2.writing write pending).1
  | createZone zid pLevel slots =>
    exact ⟨_, _, _, invariant.createZone pLevel slots may.1 may.2⟩
  | prepareUndoMeta zid xid lastRecord lastRecordSize =>
    obtain ⟨state, present, allowed⟩ := may
    exact onZone zid state (fun state => state.prepareUndoMeta xid lastRecord lastRecordSize)
      (allocate zid) present (state.startWrite_later recycler.xids xid
        (state.zone.advanceInsertURecPtr (undoPtrGetOffset lastRecord)
          lastRecordSize).insertURecPtr (allocate zid))
      (state.zid_startWrite xid (state.zone.advanceInsertURecPtr (undoPtrGetOffset lastRecord)
          lastRecordSize).insertURecPtr)
      ((invariant.ordered zid state present).2.2.prepareUndoMeta allowed)
  | allocTransactionSlot zid write dbId =>
    obtain ⟨state, present, allowed⟩ := may
    have ordered := (invariant.ordered zid state present).2.2
    exact onZone zid state _ (allocate zid + 1) present
      (state.allocTransactionSlot_later recycler.xids dbId ordered allowed.pending)
      (state.zid_addSlot _ _ _)
      (ordered.allocTransactionSlot _ _ _ _ write dbId invariant.sound allowed)
  | updateTransactionSlot zid slotPtr write =>
    obtain ⟨state, present, allowed⟩ := may
    exact onZone zid state _ (allocate zid) present
      (state.updateTransactionSlot_later recycler.xids slotPtr (allocate zid) write) rfl
      ((invariant.ordered zid state present).2.2.updateTransactionSlot _ _ _ _ allowed)
  | updateRollbackFinish zid slotPtr =>
    obtain ⟨state, present, _⟩ := may
    exact onZone zid state _ (allocate zid) present
      (state.updateRollbackFinish_later recycler.xids slotPtr (allocate zid)) rfl
      ((invariant.ordered zid state present).2.2.updateRollbackFinish _ _ _ _ slotPtr)
  | startRound oldestXmin enableTcapVersion flashback upgradeMode forceRecycleXid =>
    cases inRound : recycler.round with
    | some round => exact ⟨allocate, recycle, frozen, invariant⟩
    | none =>
      exact ⟨allocate, recycle, frozen, invariant.startRound safe may.1 may.2⟩
  | visit =>
    cases inRound : recycler.round with
    | none => exact ⟨allocate, recycle, frozen, invariant⟩
    | some round =>
      simp only
      split
      · rename_i proceeds
        simp only [Bool.and_eq_true, isNone_iff_eq_none, decide_eq_true_eq] at proceeds
        obtain ⟨frozen', kept⟩ := invariant.visit inRound proceeds.1 proceeds.2
        exact ⟨allocate, recycle, frozen', kept⟩
      · exact ⟨allocate, recycle, frozen, invariant⟩
  | recycle position =>
    cases inRound : recycler.round with
    | none => exact ⟨allocate, recycle, frozen, invariant⟩
    | some round =>
      simp only
      split
      · rename_i pass state inPass present
        obtain ⟨recycle', kept⟩ := invariant.recycle position inRound inPass present
        exact ⟨allocate, recycle', frozen, kept⟩
      · exact ⟨allocate, recycle, frozen, invariant⟩
  | endScan retryXid =>
    cases inRound : recycler.round with
    | none => exact ⟨allocate, recycle, frozen, invariant⟩
    | some round =>
      simp only
      split
      · rename_i proceeds
        simp only [Bool.and_eq_true, isNone_iff_eq_none, decide_eq_true_eq] at proceeds
        exact ⟨allocate, recycle, frozen, invariant.endScan retryXid inRound proceeds.1 proceeds.2⟩
      · exact ⟨allocate, recycle, frozen, invariant⟩
  | shutdown =>
    cases inRound : recycler.round with
    | none => exact ⟨allocate, recycle, frozen, invariant⟩
    | some round =>
      exact ⟨allocate, recycle, frozen, { invariant with round := fun _ none => nomatch none }⟩

/-- The limit is never lowered. -/
theorem step_raises (event : MainEvent) :
    recycler.xids.globalRecycleXid ≤ (recycler.step event).xids.globalRecycleXid := by
  have zone (zid : Nat) (change : ZoneState → ZoneState) :
      (recycler.onZone zid change).xids = recycler.xids := by
    unfold onZone
    split <;> rfl
  have frozen (round : RecycleRound) :
      (recycler.publishFrozen round).globalRecycleXid = recycler.xids.globalRecycleXid := by
    unfold publishFrozen
    split <;> rfl
  have finished (round : RecycleRound) (oldest : Nat) : recycler.xids.globalRecycleXid ≤
      (recycler.finishRound round oldest).xids.globalRecycleXid := by
    rw [← frozen round]
    change _ ≤ (ite _ _ _ : XidTable).globalRecycleXid
    by_cases raised : oldest ≠ invalidTransactionId ∧
        (recycler.publishFrozen round).globalRecycleXid <
          if round.recycleXmin < oldest then round.recycleXmin else oldest
    · rw [if_pos raised]
      exact raised.2.le
    · rw [if_neg raised]
  unfold step
  split
  · exact le_rfl
  cases event with
  | begin | commit xid | finish xid | createZone zid pLevel slots => exact le_rfl
  | prepareUndoMeta zid xid lastRecord lastRecordSize => simp only [zone, le_refl]
  | allocTransactionSlot zid write dbId => simp only [zone, le_refl]
  | updateTransactionSlot zid slotPtr write => simp only [zone, le_refl]
  | updateRollbackFinish zid slotPtr => simp only [zone, le_refl]
  | startRound oldestXmin enableTcapVersion flashback upgradeMode forceRecycleXid =>
    cases recycler.round with
    | some round => exact le_rfl
    | none =>
      simp only [startRound]
      split <;> exact le_rfl
  | visit =>
    cases recycler.round with
    | none => exact le_rfl
    | some round =>
      simp only [visit]
      split_ifs
      · exact le_rfl
      · split
        · exact le_rfl
        · split_ifs <;> exact le_rfl
      · exact le_rfl
  | recycle position =>
    cases recycler.round with
    | none => exact le_rfl
    | some round =>
      simp only
      split <;> exact le_rfl
  | endScan retryXid =>
    cases recycler.round with
    | none => exact le_rfl
    | some round =>
      simp only [endScan]
      split_ifs
      · exact (frozen round).ge
      · exact finished round _
      · exact finished round _
      · exact le_rfl
  | shutdown =>
    cases recycler.round with
    | none => exact le_rfl
    | some round => exact le_rfl

theorem run_raises (events : List MainEvent) :
    recycler.xids.globalRecycleXid ≤ (events.foldl step recycler).xids.globalRecycleXid := by
  induction events generalizing recycler with
  | nil => exact le_rfl
  | cons event rest ih => exact (step_raises recycler event).trans (ih _)

/-- An instance before its first zone and its first round. -/
structure Fresh (recycler : Recycler) : Prop where
  sound : recycler.xids.Sound
  zones : ∀ zid, recycler.zones zid = none
  round : recycler.round = none
  last : recycler.lastXmin = none

/-- A fresh recycler has the invariant. -/
theorem Fresh.invariant (recycler : Recycler) (fresh : recycler.Fresh) :
    recycler.Invariant (fun _ => 0) (fun _ => 0) (fun _ => 0) where
  sound := fresh.sound
  ordered := by
    intro zid state present
    rw [fresh.zones zid] at present
    cases present
  counted := fun _ => fresh.zones
  last := by
    intro xmin known
    rw [fresh.last] at known
    cases known
  round := by
    intro round inRound
    rw [fresh.round] at inRound
    cases inRound

/-- Where each round begins safely, `globalRecycleXid` never goes down, stays at or below every slot
that is not recycled in any zone, and behind each round at or below the undo limit of that round. -/
theorem recycle_limit_is_safe (start : Recycler) (first second : List MainEvent)
    (fresh : start.Fresh)
    (run : Along step (fun recycler event => recycler.allowed event ∧ recycler.beginsSafely event)
      start (first ++ second)) : (first.foldl step start).xids.globalRecycleXid ≤
        ((first ++ second).foldl step start).xids.globalRecycleXid ∧
      (∀ zid state, ((first ++ second).foldl step start).zones zid = some state →
        ∀ slotPtr ∈ state.allocated, slotPtr ∉ state.recycled.map RecycledSlot.slotPtr →
          ((first ++ second).foldl step start).xids.globalRecycleXid ≤
            (state.slots slotPtr).xactId) ∧
      ∀ xmin, ((first ++ second).foldl step start).lastXmin = some xmin →
        ((first ++ second).foldl step start).xids.globalRecycleXid ≤ xmin := by
  obtain ⟨allocate, recycle, frozen, invariant⟩ := along_invariant step
    (fun recycler event => recycler.allowed event ∧ recycler.beginsSafely event)
    (fun recycler => ∃ allocate recycle frozen, recycler.Invariant allocate recycle frozen)
    step_invariant start (first ++ second) ⟨_, _, _, fresh.invariant start⟩ run
  refine ⟨?_, ?_, invariant.last⟩
  · rw [foldl_append]
    exact run_raises _ second
  · intro zid state present slotPtr member left
    obtain ⟨_, _, ordered⟩ := invariant.ordered zid state present
    obtain ⟨index, within, rfl⟩ := ordered.index_of_mem member
    apply ordered.kept index _ within
    by_contra recycled
    apply left
    rw [ordered.recycledPtrs]
    exact mem_map.mpr ⟨index, mem_range.mpr (by omega), rfl⟩

/-- A new instance. -/
def empty : Recycler where
  xids := RecycleSystem.noTransactions
  zones := fun _ => none
  uZoneCount := 0
  round := none
  lastXmin := none
  recycleLoops := 0
  down := false

theorem empty_fresh : empty.Fresh :=
  ⟨⟨by decide, by decide, fun _ active => nomatch active⟩, fun _ => rfl, rfl, rfl⟩

/-- A transaction writes undo and aborts. -/
def abortRecorded : List MainEvent :=
  [.createZone 0 .permanent (fun _ => TransactionSlot.zero), .begin, .prepareUndoMeta 0 3 24 100,
    .allocTransactionSlot 0 ⟨3, 24⟩ 1, .updateTransactionSlot 0 24 ⟨3, 24⟩, .finish 3]

theorem abortRecorded_allowed : Along step allowed empty abortRecorded := by
  refine ⟨⟨by decide, rfl⟩, trivial, ⟨_, rfl, ⟨rfl, rfl, ?_, ?_, ?_, ?_, ?_, ?_⟩⟩,
    ⟨_, rfl, ⟨rfl, ?_, ?_⟩⟩, ⟨_, rfl, ⟨rfl, ?_, ?_⟩⟩, ?ends, trivial⟩
  case ends =>
    intro zid state write present pending
    by_cases first : zid = 0
    · subst first
      have idle : ((abortRecorded.take 5).foldl step empty).zones 0 |>.all
          (fun state => state.pending.isNone) := by decide
      rw [show ((abortRecorded.take 5).foldl step empty).zones 0 = some state from present] at idle
      simp [pending] at idle
    · have entry : update (update (update (update
          (fun _ => none) 0 _) 0 _) 0 _) 0 _ zid = some state := present
      simp [update_of_ne first] at entry
  all_goals decide

theorem abortRecorded_ended (xid : Nat) :
    (abortRecorded.foldl step empty).xids.running xid = false := by
  change update (update (fun _ => false) 3 true) 3 false xid = false
  rw [update_apply, update_apply]
  split <;> rfl

/-- Behind the last zone that exists, the zone loop goes on to the end. -/
theorem visit_absent (recycler : Recycler) (round : RecycleRound) (count : Nat)
    (running : recycler.down = false) (inRound : recycler.round = some round)
    (steady : round.upgradeMode = false) (idle : round.pass = none)
    (within : round.idx + count ≤ undoZoneCount)
    (absent : ∀ zid, round.idx ≤ zid → recycler.zones zid = none) :
    (List.replicate count MainEvent.visit).foldl step recycler =
      { recycler with round := some { round with idx := round.idx + count } } := by
  induction count generalizing recycler round with
  | zero =>
    change recycler = { recycler with round := some round }
    rw [← inRound]
  | succ count ih =>
    rw [← Nat.add_assoc, Nat.add_right_comm]
    have small : round.idx < undoZoneCount := by omega
    have once : recycler.step .visit =
        { recycler with round := some { round with idx := round.idx + 1 } } := by
      simp [step, visit, running, inRound, steady, idle, small, absent round.idx le_rfl]
    rw [replicate_succ, foldl_cons, once,
      ih { recycler with round := some { round with idx := round.idx + 1 } }
        { round with idx := round.idx + 1 } running rfl steady idle
        (show round.idx + 1 + count ≤ undoZoneCount by omega)
        (fun zid later => absent zid (show round.idx ≤ zid from Nat.le_of_succ_le later))]

/-- A round visits the zone of the aborted transaction. -/
def visitAborted : List MainEvent :=
  abortRecorded ++ [.startRound 4 false 0 false 0, .visit, .recycle (fun _ => 0)]

/-- The rest of the round: there are no other zones. -/
def visitRest : List MainEvent := List.replicate (undoZoneCount - 1) .visit ++ [.endScan 0]

theorem visitRest_safe : Along step
    (fun recycler event => recycler.allowed event ∧ recycler.beginsSafely event) empty
      (visitAborted ++ visitRest) := by
  refine (along_append step _ _ _ _).mpr ⟨(along_append step _ _ _ _).mpr ⟨along_and step _ _ _ _
    abortRecorded_allowed ?_, ⟨⟨by decide, ?_⟩, ?_⟩, ⟨trivial, trivial⟩, ⟨trivial, trivial⟩,
      trivial⟩,
    along_of_mem step _ _ _ ?_⟩
  · exact ⟨trivial, trivial, trivial, trivial, trivial, trivial, trivial⟩
  · intro xid active
    rw [abortRecorded_ended] at active
    cases active
  · exact fun _ _ => ⟨by decide, fun upgrading => nomatch upgrading⟩
  · intro recycler event member
    rcases mem_append.mp member with visit | last
    · rw [(mem_replicate.mp visit).2]
      exact ⟨trivial, trivial⟩
    · rw [mem_singleton.mp last]
      exact ⟨trivial, trivial⟩

theorem visitAborted_round : ((visitAborted.foldl step empty).round).isSome = true := by decide

theorem visitRest_end : (visitAborted ++ visitRest).foldl step empty =
    Recycler.step { visitAborted.foldl step empty with
      round := some { (visitAborted.foldl step empty).round.get visitAborted_round with
        idx := undoZoneCount } } (.endScan 0) := by
  have rest := visit_absent (visitAborted.foldl step empty)
    ((visitAborted.foldl step empty).round.get visitAborted_round) (undoZoneCount - 1) (by decide)
    (some_get visitAborted_round).symm (by decide) (by decide) (by decide) ?_
  · rw [visitRest, foldl_append, foldl_append, rest]
    rfl
  · intro zid later
    have other : zid ≠ 0 := by
      rintro rfl
      exact absurd later (by decide)
    change update (update (update (update (update
      (update (fun _ => none) 0 _) 0 _) 0 _) 0 _) 0 _) 0 _ zid = none
    simp only [update_of_ne other]

/-- Behind a round that visits every zone, the limit is the aborted transaction, whose slot is
left. -/
theorem recycle_limit_is_safe_aborted :
    ((visitAborted ++ visitRest).foldl step empty).xids.globalRecycleXid = 3 ∧
      ((visitAborted ++ visitRest).foldl step empty).recycleLoops = 1 ∧
      (visitAborted.foldl step empty).xids.globalRecycleXid ≤
        ((visitAborted ++ visitRest).foldl step empty).xids.globalRecycleXid ∧
      (∀ zid state, ((visitAborted ++ visitRest).foldl step empty).zones zid = some state →
        ∀ slotPtr ∈ state.allocated, slotPtr ∉ state.recycled.map RecycledSlot.slotPtr →
          ((visitAborted ++ visitRest).foldl step empty).xids.globalRecycleXid ≤
            (state.slots slotPtr).xactId) ∧
      ∀ xmin, ((visitAborted ++ visitRest).foldl step empty).lastXmin = some xmin →
        ((visitAborted ++ visitRest).foldl step empty).xids.globalRecycleXid ≤ xmin := by
  refine ⟨?_, ?_, recycle_limit_is_safe empty visitAborted visitRest empty_fresh visitRest_safe⟩
  · rw [visitRest_end]
    decide
  · rw [visitRest_end]
    decide

/-- A transaction writes undo and aborts, and a round begins during an in-place upgrade. -/
def abortThenUpgrade : List MainEvent :=
  abortRecorded ++ [.startRound 4 false 0 true 0, .visit, .endScan 0]

theorem abortThenUpgrade_allowed : Along step allowed empty abortThenUpgrade := by
  refine (along_append step _ _ _ _).mpr ⟨abortRecorded_allowed, ⟨by decide, ?_⟩, trivial, trivial,
    trivial⟩
  intro xid active
  rw [abortRecorded_ended] at active
  cases active

theorem abortThenUpgrade_zone :
    ((abortThenUpgrade.foldl step empty).zones 0).isSome = true := by decide

/-- The round publishes its snapshot limit, although the slot of the aborted transaction is still
there and waits for rollback. -/
theorem recycle_limit_passes_unrecycled_slot : Along step allowed empty abortThenUpgrade ∧
      ∃ state, (abortThenUpgrade.foldl step empty).zones 0 = some state ∧
        ∃ slotPtr ∈ state.allocated, slotPtr ∉ state.recycled.map RecycledSlot.slotPtr ∧
          (state.slots slotPtr).needRollback = true ∧ (state.slots slotPtr).xactId <
            (abortThenUpgrade.foldl step empty).xids.globalRecycleXid := by
  refine ⟨abortThenUpgrade_allowed,
    ((abortThenUpgrade.foldl step empty).zones 0).get abortThenUpgrade_zone,
    (some_get abortThenUpgrade_zone).symm, 24, ?_, ?_, ?_, ?_⟩
  all_goals decide

end Recycler

end OpenGauss.Undo
