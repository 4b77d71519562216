import OpenGauss.Base.Run
import OpenGauss.Undo.ZoneWriters

/-!
# Recycling a zone while transactions go on

The recycler visits a zone in two scans (`UndoRecycleMain`): the first fixes the oldest
transaction that may need rollback, the second recycles slots below that limit, or below a
forced limit. Transactions begin, write undo, commit, end and finish rollback before, between
and behind the scans, and the recycler publishes its limits for the whole instance. A pass is
safe because of two facts about the zone in every reachable state: frozen slots belong to
finished transactions, and no slot that is left is older than the published limit.
-/
namespace OpenGauss.Undo

open Function List OpenGauss.Base

/-- The limits of a visit between its two scans. -/
structure Pass where
  oldestXmin : Nat
  recycleXmin : Nat
  frozenXid : Nat

namespace ZoneState

/-- The zone as `AdvanceFrozenXid` finds it: a zone without a frozen transaction gets the limit of
the instance. -/
def withFrozenXid (state : ZoneState) (xids : XidTable) : UndoZone :=
  if transactionIdIsValid state.zone.frozenXid then state.zone
  else { state.zone with frozenXid := xids.globalFrozenXid }

/-- The first scan of a visit. -/
def frozenScan (state : ZoneState) (xids : XidTable) (oldestXmin : Nat) : FrozenScan :=
  advanceFrozenXid xids state.slots (state.withFrozenXid xids) oldestXmin

/-- The zone behind the first scan (`SetFrozenXid`, `SetFrozenSlotPtr`). -/
def frozenTo (state : ZoneState) (scan : FrozenScan) : ZoneState :=
  { state with
    zone := { state.zone with
      frozenXid := scan.zoneFrozenXid
      frozenSlotPtr := scan.oldestFrozenSlotPtr } }

/-- The second scan of a visit. -/
def recycleScan (state : ZoneState) (xids : XidTable) (limits : RecycleLimits)
    (position : Nat → Nat) : RecycleScan :=
  recycleUndoSpace xids state.slots limits position state.zone

/-- The zone behind the second scan, with the recycled slots in its history. -/
def recycleTo (state : ZoneState) (xids : XidTable) (scan : RecycleScan) : ZoneState :=
  { state with
    zone := scan.zone
    recycled := state.recycled ++ scan.recycled.map (fun ptr =>
      ⟨ptr, state.slots ptr, xids.running (state.slots ptr).xactId,
        xids.committed (state.slots ptr).xactId⟩) }

end ZoneState

/-- Between the scans: the limits stay below every running transaction, and a slot that is left
below the frozen limit belongs to a finished transaction. -/
structure PassSound (xids : XidTable) (state : ZoneState) (allocate recycle : Nat) (pass : Pass) :
    Prop where
  limit : pass.recycleXmin ≤ pass.oldestXmin
  frozenLimit : pass.frozenXid ≤ pass.oldestXmin
  next : pass.oldestXmin ≤ xids.nextXid
  running : ∀ xid, xids.running xid = true → pass.oldestXmin ≤ xid
  concluded : ∀ index, recycle ≤ index → index < allocate →
    (state.slot index).xactId < pass.frozenXid → xids.finished (state.slot index)

/-- A number that the recycle limit may go up to. -/
structure Settled (xids : XidTable) (state : ZoneState) (allocate recycle bound : Nat) :
    Prop where
  next : bound ≤ xids.nextXid
  running : ∀ xid, xids.running xid = true → bound ≤ xid
  slots : ∀ index, recycle ≤ index → index < allocate → bound ≤ (state.slot index).xactId

variable (xids : XidTable) (before after : XidTable) (state state' : ZoneState)

variable {before after state state'}

/-- A pass stays sound. -/
theorem PassSound.later {allocate allocate' recycle : Nat} {pass : Pass} (time : before.Later after)
    (slots : SlotsLater after state state' allocate allocate')
    (known : ∀ index, index < allocate → (state.slot index).xactId < before.nextXid)
    (sound : PassSound before state allocate recycle pass) :
    PassSound after state' allocate' recycle pass := by
  have active := time.bound before after sound.next sound.running
  refine ⟨sound.limit, sound.frozenLimit, sound.next.trans time.next, active, ?_⟩
  intro index left within below
  rcases Nat.lt_or_ge index allocate with old | new
  · have same := slots.same index old
    rw [same] at below
    exact before.finished_later after time (known index old) same (slots.rollback index old)
      (sound.concluded index left old below)
  · have young := active _ (slots.fresh index new within)
    have limit := sound.frozenLimit
    omega

theorem Settled.later {allocate allocate' recycle bound : Nat} (time : before.Later after)
    (slots : SlotsLater after state state' allocate allocate')
    (settled : Settled before state allocate recycle bound) :
    Settled after state' allocate' recycle bound := by
  have active := time.bound before after settled.next settled.running
  refine ⟨settled.next.trans time.next, active, ?_⟩
  intro index left within
  rcases Nat.lt_or_ge index allocate with old | new
  · rw [slots.same index old]
    exact settled.slots index left old
  · exact active _ (slots.fresh index new within)

theorem XidTable.later_refl : xids.Later xids :=
  ⟨le_rfl, fun _ running => .inl running, fun _ committed => committed, rfl⟩

theorem SlotsLater.refl (state : ZoneState) (allocate : Nat) :
    SlotsLater xids state state allocate allocate :=
  ⟨le_rfl, fun _ _ => rfl, fun _ _ concluded => concluded, by omega⟩

section Visit

variable (xids : XidTable) (state : ZoneState) (allocate recycle frozen : Nat)

variable {xids state allocate recycle frozen}

/-- The slot that the scan starts from. -/
theorem ZoneOrdered.first_slot (ordered : ZoneOrdered xids state allocate recycle frozen) :
    ∃ first, (if slotPtr state.zone.zid recycle < state.zone.frozenSlotPtr then
        state.zone.frozenSlotPtr else slotPtr state.zone.zid recycle) =
          slotPtr state.zone.zid first ∧
      recycle ≤ first ∧ first ≤ allocate ∧ (first ≤ recycle ∨ first ≤ frozen) := by
  rcases ordered.frozenPtr with unset | set
  · refine ⟨recycle, ?_, le_rfl, ordered.recycleWithin, .inl le_rfl⟩
    rw [unset]
    exact if_neg (Nat.not_lt_zero _)
  · rw [set]
    have order := slotPtr_lt_iff ordered.small (ordered.offset_lt ordered.recycleWithin)
      (ordered.offset_lt ordered.frozenWithin)
    by_cases before : recycle < frozen
    · exact ⟨frozen, if_pos (order.mpr before), before.le, ordered.frozenWithin, .inr le_rfl⟩
    · exact ⟨recycle, if_neg (fun less => before (order.mp less)), le_rfl, ordered.recycleWithin,
        .inl le_rfl⟩

/-- What the first scan passes is finished, and what it leaves is above its result. -/
theorem ZoneOrdered.frozenScan_spec {oldestXmin : Nat}
    (ordered : ZoneOrdered xids state allocate recycle frozen)
    (running : ∀ xid, xids.running xid = true → oldestXmin ≤ xid)
    (calm : (state.frozenScan xids oldestXmin).panicked = false) :
    ∃ stop, stop ≤ allocate ∧ (state.frozenScan xids oldestXmin).oldestFrozenXid ≤ oldestXmin ∧
      (0 < oldestXmin → 0 < (state.frozenScan xids oldestXmin).oldestFrozenXid) ∧
      (∀ index, index < stop → xids.finished (state.slot index)) ∧ (stop < allocate →
        (state.frozenScan xids oldestXmin).oldestFrozenXid ≤ (state.slot stop).xactId) ∧
      ((state.frozenScan xids oldestXmin).oldestFrozenSlotPtr = state.zone.frozenSlotPtr ∨
        ∃ index, index ≤ stop ∧ (state.frozenScan xids oldestXmin).oldestFrozenSlotPtr =
          slotPtr state.zone.zid index) := by
  obtain ⟨first, begins, later, within, passed⟩ :=
    ordered.first_slot
  have fields : (state.withFrozenXid xids).zid = state.zone.zid ∧
      (state.withFrozenXid xids).allocateTSlotPtr = state.zone.allocateTSlotPtr ∧
      (state.withFrozenXid xids).recycleTSlotPtr = state.zone.recycleTSlotPtr ∧
      (state.withFrozenXid xids).frozenSlotPtr = state.zone.frozenSlotPtr := by
    unfold ZoneState.withFrozenXid
    split <;> exact ⟨rfl, rfl, rfl, rfl⟩
  obtain ⟨sameZid, sameAllocate, sameRecycle, sameFrozen⟩ := fields
  have scan := advanceFrozenXid_spec xids state.slots allocate oldestXmin
     (by rw [sameZid]; exact ordered.small) ordered.inside
    (sameAllocate.trans ordered.allocatePtr) (sameRecycle.trans ordered.recycling.recycle)
    ordered.recycleWithin (by rw [sameZid, sameFrozen]; exact begins) within
    (by
      intro index below
      rw [sameZid]
      have normal : 3 ≤ (state.slots (slotPtr state.zone.zid index)).xactId :=
        (ordered.normal index below).1
      unfold transactionIdIsValid invalidTransactionId
      simp only [bne_iff_ne, ne_eq]
      omega)
  rw [sameZid, sameFrozen] at scan
  rcases scan with panicked | ⟨stop, walk⟩
  · have failed : (state.frozenScan xids oldestXmin).panicked = true := panicked
    rw [calm] at failed
    exact absurd failed (by decide)
  · have finished (index : Nat) (behind : index < stop) : xids.finished (state.slot index) := by
      rcases Nat.lt_or_ge index first with old | new
      · exact ordered.concluded index (by lia)
      · obtain ⟨below, done⟩ := walk.passed index new behind
        have stopWithin := walk.within
        have known := ordered.normal index (by omega)
        have commit := xids.uHeapTransactionIdDidCommit_eq known.1
          (ordered.kept index (by omega) (by omega))
        refine ⟨?_, ?_⟩
        · cases active : xids.running (state.slot index).xactId with
          | false => rfl
          | true =>
            have young := running _ active
            have old : (state.slot index).xactId < oldestXmin := below
            omega
        · rw [← commit]
          exact done
    have above (remains : stop < allocate) :
        (state.frozenScan xids oldestXmin).oldestFrozenXid ≤ (state.slot stop).xactId := by
      rcases walk.reason with ⟨limit, ended | unset | young⟩ | ⟨_, here, _⟩
      · omega
      · obtain ⟨write, pending, own⟩ := ordered.announced stop remains unset
        have active := (ordered.writing write pending).1
        rw [own] at active
        exact limit.le.trans (running _ active)
      · exact limit.le.trans young
      · exact here.le
    refine ⟨stop, walk.within, ?_, ?_, finished, above, walk.cursor⟩
    · rcases walk.reason with ⟨limit, _⟩ | ⟨_, _, below⟩
      · exact limit.le
      · exact below.le
    · intro positive
      rcases walk.reason with ⟨limit, _⟩ | ⟨remains, here, _⟩
      · exact lt_of_lt_of_eq positive limit.symm
      · have normal : 3 ≤ (state.slot stop).xactId := (ordered.normal stop remains).1
        have value : (state.frozenScan xids oldestXmin).oldestFrozenXid =
          (state.slot stop).xactId := here
        lia

/-- The frozen slot moves on. -/
theorem ZoneOrdered.frozenTo {oldestXmin recycleXmin : Nat}
    (ordered : ZoneOrdered xids state allocate recycle frozen)
    (limit : recycleXmin ≤ oldestXmin) (next : oldestXmin ≤ xids.nextXid)
    (running : ∀ xid, xids.running xid = true → oldestXmin ≤ xid)
    (calm : (state.frozenScan xids oldestXmin).panicked = false) :
    ∃ frozen', ZoneOrdered xids (state.frozenTo (state.frozenScan xids oldestXmin)) allocate recycle
        frozen' ∧
      PassSound xids (state.frozenTo (state.frozenScan xids oldestXmin)) allocate recycle
        ⟨oldestXmin, recycleXmin, (state.frozenScan xids oldestXmin).oldestFrozenXid⟩ ∧
      (0 < oldestXmin → 0 < (state.frozenScan xids oldestXmin).oldestFrozenXid) := by
  obtain ⟨stop, within, frozenLimit, positive, finished, above, cursor⟩ :=
    ordered.frozenScan_spec running calm
  have pass : PassSound xids (state.frozenTo (state.frozenScan xids oldestXmin)) allocate recycle
      ⟨oldestXmin, recycleXmin, (state.frozenScan xids oldestXmin).oldestFrozenXid⟩ := by
    refine ⟨limit, frozenLimit, next, running, ?_⟩
    intro index left inside below
    rcases Nat.lt_or_ge index stop with behind | ahead
    · exact finished index behind
    · have rises : (state.slot stop).xactId ≤ (state.slot index).xactId := by
        rcases Nat.lt_or_eq_of_le ahead with before | here
        · exact (ordered.increasing stop index before inside).le
        · rw [here]
      have small : (state.slot index).xactId <
        (state.frozenScan xids oldestXmin).oldestFrozenXid := below
      omega
  rcases cursor with kept | ⟨index, upto, moved⟩
  · refine ⟨frozen, { ordered with
      recycling := ⟨ordered.recycling.home, ordered.recycling.recycle, ordered.recycling.forced,
        ordered.recycling.discard⟩
      frozenPtr := ?_ }, pass, positive⟩
    exact ordered.frozenPtr.imp kept.trans kept.trans
  · refine ⟨index, { ordered with
      recycling := ⟨ordered.recycling.home, ordered.recycling.recycle, ordered.recycling.forced,
        ordered.recycling.discard⟩
      frozenPtr := .inr moved
      frozenWithin := by omega
      concluded := ?_ }, pass, positive⟩
    rintro other (behind | recycled)
    · exact finished other (by omega)
    · exact ordered.concluded other (.inr recycled)

theorem PassSound.finished_of_taken {pass : Pass} {forceRecycleXid recycleLoops index : Nat}
    {forced : Bool} (ordered : ZoneOrdered xids state allocate recycle frozen)
    (sound : PassSound xids state allocate recycle pass) (left : recycle ≤ index)
    (within : index < allocate)
    (verdict : slotVerdict xids ⟨pass.recycleXmin, pass.frozenXid, forceRecycleXid, recycleLoops⟩
      (state.slot index) = .take forced) : xids.finished (state.slot index) := by
  have known := ordered.normal index within
  have commit := xids.uHeapTransactionIdDidCommit_eq known.1 (ordered.kept index left within)
  rcases (slotVerdict_take xids _ _ verdict).2 with ⟨_, below⟩ | ⟨_, concluded, done⟩
  · exact sound.concluded index left within below
  · rw [commit] at done
    exact ⟨concluded, done⟩

/-- The second scan of a visit: more slots are recycled, all of them of finished transactions. -/
theorem ZoneOrdered.recycleTo {pass : Pass} (forceRecycleXid recycleLoops : Nat)
    (position : Nat → Nat) {scan : RecycleScan}
    (ordered : ZoneOrdered xids state allocate recycle frozen)
    (sound : PassSound xids state allocate recycle pass) (scanEq : scan = state.recycleScan xids
      ⟨pass.recycleXmin, pass.frozenXid, forceRecycleXid, recycleLoops⟩ position) :
    ∃ recycle', recycle ≤ recycle' ∧
      ZoneOrdered xids (state.recycleTo xids scan) allocate recycle' frozen ∧
      (state.recycleTo xids scan).zone.zid = state.zone.zid ∧
      (∀ index, (state.recycleTo xids scan).slot index = state.slot index) ∧
      (0 < pass.recycleXmin → 0 < pass.frozenXid → 0 < scan.oldestRecycleXid) ∧
      (scan.panicked = false → ∀ index, recycle' ≤ index → index < allocate →
        scan.oldestRecycleXid ≤ (state.slot index).xactId ∨
          pass.recycleXmin ≤ (state.slot index).xactId) := by
  obtain ⟨next, done, reason⟩ := recycleUndoSpace_spec xids
    ⟨pass.recycleXmin, pass.frozenXid, forceRecycleXid, recycleLoops⟩
     position ordered.small ordered.inside ordered.allocatePtr
    ordered.recycleWithin ordered.chain ordered.recycling
  change RecycleDone _ _ _ _ _ _ _ _ (state.recycleScan xids _ position).settled at done
  change (state.recycleScan xids _ position).panicked = true ∨ _ at reason
  rw [← scanEq] at done reason
  have forward := done.forward
  have within := done.within
  have finished (index : Nat) (left : recycle ≤ index) (upto : index < next) :
      xids.finished (state.slot index) := by
    obtain ⟨forced, verdict⟩ := done.verdicts index left upto
    exact sound.finished_of_taken ordered left (by omega) verdict
  have sameZid : scan.zone.zid = state.zone.zid := done.untouched.zid
  have sameSlot (index : Nat) : (state.recycleTo xids scan).slot index = state.slot index := by
    change state.slots (slotPtr scan.zone.zid index) = state.slots _
    rw [sameZid]
  have sameInsert : scan.zone.insertURecPtr = state.zone.insertURecPtr := done.untouched.insert
  have front : List.range next = List.range recycle ++ List.range' recycle (next - recycle) := by
    have split : next = recycle + (next - recycle) := by grind
    rw [split, range_add, range'_eq_map_range]
    simp
  have listed : scan.recycled = (List.range' recycle (next - recycle)).map
      (slotPtr state.zone.zid) := done.inOrder
  refine ⟨next, forward, ?_, sameZid, sameSlot, ?_, ?_⟩
  · exact { ordered with
      small := by rw [show (state.recycleTo xids scan).zone.zid = _ from sameZid]; exact ordered.small
      allocatePtr := done.untouched.allocate.trans ordered.allocatePtr
      recycling := by
        change Recycling state.slots scan.zone.zid next scan.zone
        rw [sameZid]
        exact done.zone
      frozenPtr := by
        change scan.zone.frozenSlotPtr = _ ∨ scan.zone.frozenSlotPtr = slotPtr scan.zone.zid frozen
        rw [sameZid, show scan.zone.frozenSlotPtr = _ from done.untouched.frozen]
        exact ordered.frozenPtr
      recycleWithin := within
      chain := by
        change SlotChain state.slots scan.zone.zid allocate scan.zone.insertURecPtr
        rw [sameZid, sameInsert]
        exact ordered.chain
      behindHeader := by
        change 24 ≤ scan.zone.insertURecPtr % 8192
        rw [sameInsert]
        exact ordered.behindHeader
      insertInside := by
        change scan.zone.insertURecPtr < 2 ^ 44
        rw [sameInsert]
        exact ordered.insertInside
      normal := by
        intro index inside
        rw [sameSlot]
        exact ordered.normal index inside
      kept := by
        intro index left inside
        rw [sameSlot]
        exact ordered.kept index (by omega) inside
      increasing := by
        intro first second before inside
        rw [sameSlot, sameSlot]
        exact ordered.increasing first second before inside
      concluded := by
        intro index passed
        rw [sameSlot]
        rcases Nat.lt_or_ge index recycle with old | new
        · exact ordered.concluded index (.inr old)
        · rcases passed with frozenSlot | recycled
          · exact ordered.concluded index (.inl frozenSlot)
          · exact finished index new recycled
      announced := by
        intro index inside unset
        rw [sameSlot] at unset ⊢
        exact ordered.announced index inside unset
      writing := by
        intro write pending
        obtain ⟨active, latest, ahead, home, valid⟩ := ordered.writing write pending
        refine ⟨active, ?_, ?_, home.trans sameZid.symm, valid⟩
        · intro index inside
          rw [sameSlot]
          exact latest index inside
        · intro count inside
          change boundary state.slots scan.zone.zid count < scan.zone.insertURecPtr
          rw [sameZid, sameInsert]
          exact ahead count inside
      allocatedPtrs := by
        change state.allocated = (List.range allocate).map (slotPtr scan.zone.zid)
        rw [sameZid]
        exact ordered.allocatedPtrs
      recycledPtrs := by
        change (state.recycled ++ scan.recycled.map _).map _ =
          (List.range next).map (slotPtr scan.zone.zid)
        rw [sameZid, map_append, ordered.recycledPtrs, map_map, listed, front, map_append]
        simp [comp_def]
      recycledEnds := by
        change (state.recycled ++ scan.recycled.map _).map _ = _
        rw [map_append, ordered.recycledEnds, map_map, listed, front, map_append, map_map]
        simp only [sameSlot]
        rfl
      recycledSafe := by
        intro entry member
        rcases mem_append.mp member with old | new
        · exact ordered.recycledSafe entry old
        · obtain ⟨ptr, inList, rfl⟩ := mem_map.mp new
          rw [listed] at inList
          obtain ⟨index, inRange, rfl⟩ := mem_map.mp inList
          obtain ⟨left, upto⟩ := mem_range'_1.mp inRange
          exact finished index left (by omega) }
  · intro limitPositive frozenPositive
    rcases done.limit with ⟨_, result⟩ | ⟨moved, result⟩
    · have value : scan.oldestRecycleXid =
          if pass.recycleXmin < pass.frozenXid then pass.recycleXmin else pass.frozenXid := result
      rw [value]
      split
      · exact limitPositive
      · exact frozenPositive
    · have value : scan.oldestRecycleXid = (state.slot (next - 1)).xactId := result
      have normal : 3 ≤ (state.slot (next - 1)).xactId := (ordered.normal (next - 1) (by omega)).1
      omega
  · intro calm index left inside
    have stopped : next < allocate →
        slotVerdict xids ⟨pass.recycleXmin, pass.frozenXid, forceRecycleXid, recycleLoops⟩
          (state.slot next) = .stop := by
      intro remains
      rcases reason with panicked | ended | stop
      · rw [calm] at panicked
        exact absurd panicked (by decide)
      · omega
      · exact stop
    have rises : (state.slot next).xactId ≤ (state.slot index).xactId := by
      rcases Nat.lt_or_eq_of_le left with before | here
      · exact (ordered.increasing next index before inside).le
      · rw [here]
    rcases done.limit with ⟨idle, result⟩ | ⟨moved, result⟩
    · have resultLe : scan.oldestRecycleXid ≤ pass.recycleXmin ∧
          scan.oldestRecycleXid ≤ pass.frozenXid := by
        have value : scan.oldestRecycleXid =
            if pass.recycleXmin < pass.frozenXid then pass.recycleXmin else pass.frozenXid := result
        rw [value]
        split <;> exact ⟨by omega, by omega⟩
      have remains : next < allocate := by lia
      rcases slotVerdict_stop xids _ _ (stopped remains) with zero | unset | young | frozenSlot
      · have normal : 3 ≤ (state.slot next).xactId := (ordered.normal next remains).1
        have none : (state.slot next).xactId = 0 := zero
        omega
      · obtain ⟨write, pending, own⟩ := ordered.announced next remains unset
        have active := sound.running _ (ordered.writing write pending).1
        have limit := sound.limit
        right
        lia
      · right
        exact le_trans young rises
      · left
        exact resultLe.2.trans (le_trans frozenSlot rises)
    · left
      have last : scan.oldestRecycleXid = (state.slot (next - 1)).xactId := result
      have before := ordered.increasing (next - 1) index (by omega) inside
      lia

/-- An unused zone has no slot of an older transaction. -/
theorem ZoneOrdered.unused {oldestXmin index : Nat}
    (ordered : ZoneOrdered xids state allocate recycle frozen)
    (running : ∀ xid, xids.running xid = true → oldestXmin ≤ xid)
    (unused : state.zone.used = false) (left : recycle ≤ index) (within : index < allocate) :
    oldestXmin ≤ (state.slot index).xactId := by
  have full : state.zone.insertURecPtr = boundary state.slots state.zone.zid recycle := by
    rw [← ordered.recycling.forced]
    simpa [UndoZone.used] using unused
  have first : oldestXmin ≤ (state.slot recycle).xactId := by
    by_cases unset : (state.slot recycle).startUndoPtr = invalidUndoRecPtr
    · obtain ⟨write, pending, own⟩ := ordered.announced recycle (by omega) unset
      rw [← own]
      exact running _ (ordered.writing write pending).1
    · have grown := ordered.chain.grows recycle (by omega) unset
      have below := ordered.chain.below (recycle + 1) (by omega)
      omega
  rcases Nat.lt_or_eq_of_le left with before | here
  · exact first.trans (ordered.increasing recycle index before within).le
  · rw [← here]
    exact first

end Visit

variable (state)

/-- One zone, the transactions of the instance, and the recycler's visit to the zone. -/
structure RecycleSystem where
  xids : XidTable
  state : ZoneState
  pass : Option Pass
  bound : Nat
  down : Bool

/-- What can happen to a zone. -/
inductive RecycleEvent where
  | begin
  | commit (xid : Nat)
  | finish (xid : Nat)
  | prepareUndoMeta (xid lastRecord lastRecordSize : Nat)
  | allocTransactionSlot (write : PendingWrite) (dbId : Nat)
  | updateTransactionSlot (slotPtr : Nat) (write : PendingWrite)
  | updateRollbackFinish (slotPtr : Nat)
  | advanceFrozenXid (oldestXmin recycleXmin : Nat)
  | recycleUndoSpace (forceRecycleXid recycleLoops : Nat) (position : Nat → Nat)
  | publishFrozenXid (xid : Nat)
  | publishRecycleXid (xid : Nat)

namespace RecycleSystem

/-- The first scan of a visit; an unused zone is skipped. -/
def advanceFrozenXid (system : RecycleSystem) (oldestXmin recycleXmin : Nat) : RecycleSystem :=
  if system.state.zone.used then
    let scan := system.state.frozenScan system.xids oldestXmin
    if scan.panicked then { system with down := true }
    else { system with
      state := system.state.frozenTo scan
      pass := some ⟨oldestXmin, recycleXmin, scan.oldestFrozenXid⟩ }
  else { system with bound := recycleXmin }

/-- The second scan of a visit. -/
def recycleUndoSpace (system : RecycleSystem) (pass : Pass) (forceRecycleXid recycleLoops : Nat)
    (position : Nat → Nat) : RecycleSystem :=
  let scan := system.state.recycleScan system.xids
    ⟨pass.recycleXmin, pass.frozenXid, forceRecycleXid, recycleLoops⟩ position
  { system with
    state := system.state.recycleTo system.xids scan
    pass := none
    bound := if scan.panicked then system.bound else min scan.oldestRecycleXid pass.recycleXmin
    down := scan.panicked }

/-- One event; nothing happens behind a PANIC. -/
def step (system : RecycleSystem) (event : RecycleEvent) : RecycleSystem :=
  if system.down then system
  else match event with
  | .begin => { system with xids := system.xids.begin }
  | .commit xid => { system with xids := system.xids.commit xid }
  | .finish xid => { system with xids := system.xids.finish xid }
  | .prepareUndoMeta xid lastRecord lastRecordSize =>
    { system with state := system.state.prepareUndoMeta xid lastRecord lastRecordSize }
  | .allocTransactionSlot write dbId =>
    { system with state := system.state.allocTransactionSlot write.xid dbId }
  | .updateTransactionSlot slotPtr write =>
    { system with state := system.state.updateTransactionSlot slotPtr write }
  | .updateRollbackFinish slotPtr =>
    { system with state := system.state.updateRollbackFinish slotPtr }
  | .advanceFrozenXid oldestXmin recycleXmin => system.advanceFrozenXid oldestXmin recycleXmin
  | .recycleUndoSpace forceRecycleXid recycleLoops position =>
    match system.pass with
    | some pass => system.recycleUndoSpace pass forceRecycleXid recycleLoops position
    | none => system
  | .publishFrozenXid xid => { system with xids := { system.xids with globalFrozenXid := xid } }
  | .publishRecycleXid xid =>
    if system.xids.globalRecycleXid < xid then
      { system with xids := { system.xids with globalRecycleXid := xid } }
    else system

/-- What may happen: writers keep to their critical sections, snapshot limits do not exceed a
running transaction, and the recycler publishes at most what its visit found. -/
def allowed (system : RecycleSystem) : RecycleEvent → Prop
  | .begin => True
  | .commit xid => system.xids.running xid = true ∧
    ∀ write, system.state.pending = some write → write.xid ≠ xid
  | .finish xid => ∀ write, system.state.pending = some write → write.xid ≠ xid
  | .prepareUndoMeta xid lastRecord lastRecordSize =>
    system.state.MayPrepare system.xids xid lastRecord lastRecordSize
  | .allocTransactionSlot write _ => system.state.MayAllocate write
  | .updateTransactionSlot slotPtr write => system.state.MayUpdate slotPtr write
  | .updateRollbackFinish slotPtr => slotPtr ∈ system.state.allocated
  | .advanceFrozenXid oldestXmin recycleXmin => system.pass = none ∧ recycleXmin ≤ oldestXmin ∧
    oldestXmin ≤ system.xids.nextXid ∧ ∀ xid, system.xids.running xid = true → oldestXmin ≤ xid
  | .recycleUndoSpace _ _ _ => system.pass ≠ none
  | .publishFrozenXid _ => True
  | .publishRecycleXid xid => xid ≤ system.bound

/-- What every event keeps. -/
structure Invariant (system : RecycleSystem) (allocate recycle frozen : Nat) : Prop where
  sound : system.xids.Sound
  ordered : ZoneOrdered system.xids system.state allocate recycle frozen
  pass : ∀ pass, system.pass = some pass → PassSound system.xids system.state allocate recycle pass
  settled : Settled system.xids system.state allocate recycle system.bound

theorem Invariant.later {system : RecycleSystem} {allocate recycle frozen : Nat} {after : XidTable}
    (invariant : system.Invariant allocate recycle frozen) (time : system.xids.Later after)
    (active : ∀ write, system.state.pending = some write → after.running write.xid = true) :
    Invariant { system with xids := after } allocate recycle frozen where
  sound := invariant.sound.later time
  ordered := invariant.ordered.later time active
  pass := fun pass inPass =>
    (invariant.pass pass inPass).later time (SlotsLater.refl after system.state allocate)
      (fun index within => (invariant.ordered.normal index within).2)
  settled := invariant.settled.later time (SlotsLater.refl after system.state allocate)

variable (system : RecycleSystem)

variable {system}

theorem Invariant.write {allocate allocate' recycle frozen : Nat}
    {after : ZoneState} (invariant : system.Invariant allocate recycle frozen)
    (slots : SlotsLater system.xids system.state after allocate allocate')
    (ordered : ZoneOrdered system.xids after allocate' recycle frozen) :
    Invariant { system with state := after } allocate' recycle frozen where
  sound := invariant.sound
  ordered := ordered
  pass := fun pass inPass =>
    (invariant.pass pass inPass).later system.xids.later_refl slots
      (fun index within => (invariant.ordered.normal index within).2)
  settled := invariant.settled.later system.xids.later_refl slots

variable (system : RecycleSystem)

/-- The first part of a visit keeps the invariant. -/
theorem Invariant.advanceFrozenXid {allocate recycle frozen oldestXmin recycleXmin : Nat}
    (invariant : system.Invariant allocate recycle frozen)
    (limit : recycleXmin ≤ oldestXmin) (next : oldestXmin ≤ system.xids.nextXid)
    (running : ∀ xid, system.xids.running xid = true → oldestXmin ≤ xid) :
    ∃ frozen', (system.advanceFrozenXid oldestXmin recycleXmin).Invariant allocate recycle
      frozen' := by
  unfold RecycleSystem.advanceFrozenXid
  cases used : system.state.zone.used with
  | false =>
    refine ⟨frozen, invariant.sound, invariant.ordered, invariant.pass, ⟨limit.trans next, ?_, ?_⟩⟩
    · intro xid active
      exact limit.trans (running xid active)
    · intro index left within
      exact limit.trans (invariant.ordered.unused running used left within)
  | true =>
    simp only [↓reduceIte]
    cases calm : (system.state.frozenScan system.xids oldestXmin).panicked with
    | true => exact ⟨frozen, invariant.sound, invariant.ordered, invariant.pass, invariant.settled⟩
    | false =>
      obtain ⟨frozen', ordered, pass, _⟩ := invariant.ordered.frozenTo limit next running calm
      refine ⟨frozen', invariant.sound, ordered, ?_, invariant.settled.next,
        invariant.settled.running, invariant.settled.slots⟩
      intro current inPass
      cases inPass
      exact pass

/-- The second part of a visit keeps the invariant. -/
theorem Invariant.recycleUndoSpace {pass : Pass}
    {allocate recycle frozen : Nat} (forceRecycleXid recycleLoops : Nat) (position : Nat → Nat)
    (invariant : system.Invariant allocate recycle frozen) (inPass : system.pass = some pass) :
    ∃ recycle', (system.recycleUndoSpace pass forceRecycleXid recycleLoops position).Invariant
      allocate recycle' frozen := by
  have sound := invariant.pass pass inPass
  obtain ⟨recycle', more, ordered, _, sameSlot, _, result⟩ := invariant.ordered.recycleTo
     forceRecycleXid recycleLoops position sound rfl
  have kept : Settled system.xids (system.state.recycleTo system.xids
      (system.state.recycleScan system.xids
        ⟨pass.recycleXmin, pass.frozenXid, forceRecycleXid, recycleLoops⟩ position))
      allocate recycle' system.bound := by
    refine ⟨invariant.settled.next, invariant.settled.running, ?_⟩
    intro index left within
    rw [sameSlot]
    exact invariant.settled.slots index (by omega) within
  refine ⟨recycle', invariant.sound, ordered, ?_, ?_⟩
  · intro current none
    cases none
  · unfold RecycleSystem.recycleUndoSpace
    simp only
    cases calm : (system.state.recycleScan system.xids
      ⟨pass.recycleXmin, pass.frozenXid, forceRecycleXid, recycleLoops⟩ position).panicked with
    | true => exact kept
    | false =>
      have limit := sound.limit
      have next := sound.next
      refine ⟨by lia, ?_, ?_⟩
      · intro xid active
        have young := sound.running xid active
        lia
      · intro index left within
        rw [sameSlot]
        rcases result calm index left within with above | above
        · exact (min_le_left _ _).trans above
        · exact (min_le_right _ _).trans above

/-- Publishing a limit within the bound keeps the invariant. -/
theorem Invariant.publish {allocate recycle frozen limit : Nat}
    (invariant : system.Invariant allocate recycle frozen) (settled : limit ≤ system.bound) :
    Invariant { system with xids := { system.xids with globalRecycleXid := limit } } allocate
      recycle frozen where
  sound := by
    refine ⟨invariant.sound.normal, settled.trans invariant.settled.next, ?_⟩
    intro xid active
    obtain ⟨normal, given, _⟩ := invariant.sound.running xid active
    exact ⟨normal, given, settled.trans (invariant.settled.running xid active)⟩
  ordered := invariant.ordered.publish limit
    (fun index left within => settled.trans (invariant.settled.slots index left within))
  pass := fun pass inPass =>
    let sound := invariant.pass pass inPass
    ⟨sound.limit, sound.frozenLimit, sound.next, sound.running, sound.concluded⟩
  settled := ⟨invariant.settled.next, invariant.settled.running, invariant.settled.slots⟩

/-- Every event keeps the invariant. -/
theorem step_invariant (event : RecycleEvent)
    (invariant : ∃ allocate recycle frozen, system.Invariant allocate recycle frozen)
    (may : system.allowed event) :
    ∃ allocate recycle frozen, (system.step event).Invariant allocate recycle frozen := by
  obtain ⟨allocate, recycle, frozen, invariant⟩ := invariant
  unfold step
  by_cases stopped : system.down = true
  · rw [if_pos stopped]
    exact ⟨allocate, recycle, frozen, invariant⟩
  · rw [if_neg stopped]
    cases event with
    | begin =>
      refine ⟨allocate, recycle, frozen, invariant.later system.xids.begin_later ?_⟩
      intro write pending
      have active := (invariant.ordered.writing write pending).1
      have old := (invariant.sound.running write.xid active).2.1
      change update system.xids.running system.xids.nextXid true write.xid = true
      rw [update_of_ne (by omega)]
      exact active
    | commit xid =>
      exact ⟨allocate, recycle, frozen, invariant.later (system.xids.commit_later xid)
        (fun write pending => (invariant.ordered.writing write pending).1)⟩
    | finish xid =>
      refine ⟨allocate, recycle, frozen, invariant.later (system.xids.finish_later xid) ?_⟩
      intro write pending
      change update system.xids.running xid false write.xid = true
      rw [update_of_ne (may write pending)]
      exact (invariant.ordered.writing write pending).1
    | prepareUndoMeta xid lastRecord lastRecordSize =>
      have slots := system.state.startWrite_later system.xids xid
        (system.state.zone.advanceInsertURecPtr (undoPtrGetOffset lastRecord)
          lastRecordSize).insertURecPtr allocate
      exact ⟨allocate, recycle, frozen, invariant.write slots (invariant.ordered.prepareUndoMeta
          may)⟩
    | allocTransactionSlot write dbId =>
      exact ⟨allocate + 1, recycle, frozen, invariant.write
        (system.state.allocTransactionSlot_later system.xids dbId invariant.ordered may.pending)
        (invariant.ordered.allocTransactionSlot _ _ recycle frozen write dbId invariant.sound may)⟩
    | updateTransactionSlot slotPtr write =>
      exact ⟨allocate, recycle, frozen, invariant.write
        (system.state.updateTransactionSlot_later system.xids slotPtr allocate write)
        (invariant.ordered.updateTransactionSlot _ _ recycle frozen may)⟩
    | updateRollbackFinish slotPtr =>
      exact ⟨allocate, recycle, frozen, invariant.write
        (system.state.updateRollbackFinish_later system.xids slotPtr allocate)
        (invariant.ordered.updateRollbackFinish _ _ recycle frozen slotPtr)⟩
    | advanceFrozenXid oldestXmin recycleXmin =>
      obtain ⟨_, limit, next, running⟩ := may
      obtain ⟨frozen', kept⟩ := invariant.advanceFrozenXid system limit next running
      exact ⟨allocate, recycle, frozen', kept⟩
    | recycleUndoSpace forceRecycleXid recycleLoops position =>
      cases inPass : system.pass with
      | none => exact absurd inPass may
      | some pass =>
        obtain ⟨recycle', kept⟩ := invariant.recycleUndoSpace system
          forceRecycleXid recycleLoops position inPass
        exact ⟨allocate, recycle', frozen, kept⟩
    | publishFrozenXid xid =>
      refine ⟨allocate, recycle, frozen, ?_⟩
      exact ⟨⟨invariant.sound.normal, invariant.sound.behind, invariant.sound.running⟩,
        invariant.ordered.publishFrozen xid,
        fun pass inPass =>
          let sound := invariant.pass pass inPass
          ⟨sound.limit, sound.frozenLimit, sound.next, sound.running, sound.concluded⟩,
        ⟨invariant.settled.next, invariant.settled.running, invariant.settled.slots⟩⟩
    | publishRecycleXid xid =>
      simp only
      split
      · exact ⟨allocate, recycle, frozen, invariant.publish system may⟩
      · exact ⟨allocate, recycle, frozen, invariant⟩

/-- A system that starts with an empty zone. -/
def start (xids : XidTable) (zid : Nat) (pLevel : UndoPersistence)
    (slots : Nat → TransactionSlot) : RecycleSystem where
  xids := xids
  state := ⟨UndoZone.init zid pLevel, slots, none, [], []⟩
  pass := none
  bound := 0
  down := false

theorem start_invariant {xids : XidTable} {zid : Nat} (pLevel : UndoPersistence)
    (slots : Nat → TransactionSlot) (sound : xids.Sound) (small : zid < 2 ^ 20) :
    (start xids zid pLevel slots).Invariant 0 0 0 where
  sound := sound
  ordered := ZoneOrdered.init xids pLevel slots small
  pass := by
    intro pass none
    cases none
  settled := ⟨Nat.zero_le _, fun _ _ => Nat.zero_le _, fun _ _ _ => Nat.zero_le _⟩

/-- The end of the undo of the last recycled slot; the start of the zone where there is none. -/
def lastRecycledEnd (system : RecycleSystem) : Nat :=
  match system.state.recycled.getLast? with
  | none => undoLogBlockHeaderSize
  | some entry => undoPtrGetOffset entry.slot.endUndoPtr

/-- The end of the last recycled slot is the boundary. -/
theorem Invariant.lastRecycledEnd_eq {allocate recycle frozen : Nat}
    (invariant : system.Invariant allocate recycle frozen) : system.lastRecycledEnd =
      boundary system.state.slots system.state.zone.zid recycle := by
  have ends := congrArg List.getLast? invariant.ordered.recycledEnds
  rw [getLast?_map, getLast?_map] at ends
  unfold lastRecycledEnd
  cases recycle with
  | zero =>
    have none : system.state.recycled.getLast? = none := by
      cases last : system.state.recycled.getLast? with
      | none => rfl
      | some entry =>
        rw [last] at ends
        cases ends
    rw [none]
    rfl
  | succ recycle =>
    rw [range_succ, getLast?_append] at ends
    cases last : system.state.recycled.getLast? with
    | none =>
      rw [last] at ends
      cases ends
    | some entry =>
      rw [last] at ends
      have same : entry.slot.endUndoPtr = (system.state.slot recycle).endUndoPtr :=
        Option.some.inj ends
      change undoPtrGetOffset entry.slot.endUndoPtr = undoPtrGetOffset _
      rw [same]
      rfl

/-- Undo that is still needed is never discarded, whatever happens between and during the visits of
the recycler: slots are recycled in order, never while their transaction is in progress or is
uncommitted with its rollback unfinished, and the discard pointers end with the last of them. -/
theorem recycling_keeps_needed_undo (xids : XidTable) (zid : Nat) (pLevel : UndoPersistence)
    (slots : Nat → TransactionSlot) (events : List RecycleEvent) (sound : xids.Sound)
    (small : zid < undoZoneCount) (run : Along step allowed (start xids zid pLevel slots) events) :
    (∃ rest, (events.foldl step (start xids zid pLevel slots)).state.allocated =
        (events.foldl step (start xids zid pLevel slots)).state.recycled.map RecycledSlot.slotPtr ++
          rest) ∧ (∀ entry ∈ (events.foldl step (start xids zid pLevel slots)).state.recycled,
        entry.inProgress = false ∧ ¬ (entry.didCommit = false ∧ entry.slot.needRollback = true)) ∧
      (events.foldl step (start xids zid pLevel slots)).state.zone.discardURecPtr ≤
        (events.foldl step (start xids zid pLevel slots)).state.zone.forceDiscardURecPtr ∧
      (events.foldl step (start xids zid pLevel slots)).state.zone.forceDiscardURecPtr =
        (events.foldl step (start xids zid pLevel slots)).lastRecycledEnd ∧
      (events.foldl step (start xids zid pLevel slots)).state.zone.forceDiscardURecPtr ≤
        (events.foldl step (start xids zid pLevel slots)).state.zone.insertURecPtr := by
  obtain ⟨allocate, recycle, frozen, invariant⟩ := along_invariant step allowed
    (fun system => ∃ allocate recycle frozen, system.Invariant allocate recycle frozen)
    step_invariant (start xids zid pLevel slots) events
    ⟨0, 0, 0, start_invariant pLevel slots sound small⟩ run
  have ordered := invariant.ordered
  have within := ordered.recycleWithin
  have last := invariant.lastRecycledEnd_eq _
  have forced := ordered.recycling.forced
  refine ⟨?_, ?_, ?_, ?_, ?_⟩
  · have split : List.range allocate =
        List.range recycle ++ (List.range (allocate - recycle)).map (recycle + ·) := by
      rw [← range_add]
      congr 1
      omega
    rw [ordered.recycledPtrs, ordered.allocatedPtrs, split, map_append]
    exact ⟨_, rfl⟩
  · intro entry member
    obtain ⟨idle, done⟩ := ordered.recycledSafe entry member
    refine ⟨idle, ?_⟩
    rintro ⟨uncommitted, rollback⟩
    rcases done with committed | finished
    · rw [uncommitted] at committed
      exact absurd committed (by decide)
    · rw [rollback] at finished
      exact absurd finished (by decide)
  · rw [forced]
    exact ordered.recycling.discard
  · rw [forced, last]
  · rw [forced]
    exact ordered.chain.below recycle within

variable (before)

/-- An instance before its first transaction. -/
def noTransactions : XidTable where
  nextXid := 3
  running := fun _ => false
  committed := fun _ => false
  globalRecycleXid := 0
  globalFrozenXid := 0

variable (after)

/-- A transaction writes 100 bytes of undo, commits and ends, another writes 100 bytes and aborts, and
a visit follows before the rollback. -/
def abortBeforeVisit : List RecycleEvent :=
  [.begin, .prepareUndoMeta 3 24 100, .allocTransactionSlot ⟨3, 24⟩ 1,
    .updateTransactionSlot 24 ⟨3, 24⟩, .commit 3, .finish 3, .begin, .prepareUndoMeta 4 124 100,
    .allocTransactionSlot ⟨4, 124⟩ 1, .updateTransactionSlot 56 ⟨4, 124⟩, .finish 4,
    .advanceFrozenXid 5 5, .recycleUndoSpace 0 0 id, .publishRecycleXid 3]

/-- The system after some events of the run. -/
def abortBeforeVisitAfter (count : Nat) : RecycleSystem :=
  (abortBeforeVisit.take count).foldl step
    (start noTransactions 0 .permanent fun _ => TransactionSlot.zero)

theorem abortBeforeVisit_allowed :
    Along step allowed (start noTransactions 0 .permanent fun _ => TransactionSlot.zero)
      abortBeforeVisit := by
  have idle (xid : Nat) (write : PendingWrite) (before : RecycleSystem)
      (none : before.state.pending.isNone) (pending : before.state.pending = some write) :
      write.xid ≠ xid := by
    rw [pending] at none
    cases none
  refine ⟨trivial, ⟨rfl, rfl, ?_, ?_, ?_, ?_, ?_, ?_⟩, ⟨rfl, ?_, ?_⟩, ⟨rfl, ?_, ?_⟩,
    ⟨rfl, fun write => idle 3 write _ ?_⟩, fun write => idle 3 write _ ?_, trivial,
    ⟨rfl, rfl, ?_, ?_, ?_, ?_, ?_, ?_⟩, ⟨rfl, ?_, ?_⟩, ⟨rfl, ?_, ?_⟩,
    fun write => idle 4 write _ ?_, ⟨rfl, ?_, ?_, ?concluded⟩, ?visit, ?publish, trivial⟩
  case concluded =>
    intro xid active
    have entry : update (update (update (update
      (fun _ => false) 3 true) 3 false) 4 true) 4 false xid = true := active
    simp only [update_apply] at entry
    grind
  case visit =>
    intro none
    have some : (abortBeforeVisitAfter 12).pass.isSome = true := by decide
    rw [show (abortBeforeVisitAfter 12).pass = .none from none] at some
    cases some
  case publish =>
    have bound : 3 ≤ (abortBeforeVisitAfter 13).bound := by decide
    exact bound
  all_goals decide

/-- The slot of the committed transaction is recycled and its undo discarded, that of the aborted one
is left. -/
theorem recycling_keeps_needed_undo_aborted :
    (abortBeforeVisitAfter 14).state.recycled.map RecycledSlot.slotPtr = [24] ∧
      ((abortBeforeVisitAfter 14).state.slots 56).needRollback = true ∧
      (∃ rest, (abortBeforeVisitAfter 14).state.allocated =
        (abortBeforeVisitAfter 14).state.recycled.map RecycledSlot.slotPtr ++ rest) ∧
      (∀ entry ∈ (abortBeforeVisitAfter 14).state.recycled,
        entry.inProgress = false ∧ ¬ (entry.didCommit = false ∧ entry.slot.needRollback = true)) ∧
      (abortBeforeVisitAfter 14).state.zone.forceDiscardURecPtr =
        (abortBeforeVisitAfter 14).lastRecycledEnd := by
  have kept := recycling_keeps_needed_undo noTransactions 0 .permanent
    (fun _ => TransactionSlot.zero) abortBeforeVisit ⟨by decide, by decide, by
      intro xid active
      cases active⟩ (by decide) abortBeforeVisit_allowed
  exact ⟨by decide, by decide, kept.1, kept.2.1, kept.2.2.2.1⟩

end RecycleSystem

end OpenGauss.Undo
