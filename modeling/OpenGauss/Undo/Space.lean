import OpenGauss.Base.Run
import OpenGauss.Undo.Zone

/-!
# Undo space heads on a standby

A standby keeps two heads of each segment space. Replay of the primary's unlink records
moves `head_`; the standby's own recycler, which must wait for standby readers, moves
`head_exrto`. Both go through `UnlinkUndoLog`, which switches on a mode flag of the calling
thread and then sets `head_` once more for both modes. The results give the runs in which
the two heads stay apart, and what those runs guarantee.
-/
namespace OpenGauss.Undo

open OpenGauss.Base

/-- The two kinds of segment space (`UNDO_DB_OID`, `UNDO_SLOT_DB_OID`). -/
inductive UndoDb where
  | undo
  | slot
deriving DecidableEq

/-- Bytes of one segment (`USEG_SIZE`). -/
def usegSize : UndoDb → Nat
  | .undo => 1048576
  | .slot => 32768

/-- Blocks of one segment (`USEG_BLOCKS`). -/
def usegBlocks : UndoDb → Nat
  | .undo => 128
  | .slot => 4

theorem usegSize_pos (dbId : UndoDb) : 0 < usegSize dbId := by
  cases dbId <;> decide

/-- A space together with the block count of all spaces (`undoTotalSize`). -/
structure SpaceState where
  space : UndoSpace
  undoTotalSize : Nat
  forceRecycleSize : Int
deriving DecidableEq

/-- The heads the unlink loop visits, one for each segment it removes. -/
def unlinkLoop (dbId : UndoDb) (head offset : Nat) : List Nat :=
  if head < offset then head :: unlinkLoop dbId (head + usegSize dbId) offset else []
termination_by offset - head
decreasing_by
  have := usegSize_pos dbId
  omega

/-- One removed segment leaves the block count, which never goes below zero. -/
def subtractSegment (dbId : UndoDb) (undoTotalSize : Nat) : Nat :=
  if undoTotalSize < usegBlocks dbId then 0 else undoTotalSize - usegBlocks dbId

/-- `UndoSpace::UnlinkUndoLog`, with the heads of the segments it removed. -/
def unlinkUndoLog (dbId : UndoDb) (recovery : Bool) (offset : Nat) (state : SpaceState) :
    SpaceState × List Nat :=
  let head := if recovery then state.space.headExrto else state.space.head
  let space := if recovery then { state.space with headExrto := offset }
    else { state.space with head := offset }
  -- `SetHead(offset)` stands once more behind the mode switch.
  let space := { space with head := offset }
  let removed := unlinkLoop dbId head offset
  ({ state with
      space := space
      undoTotalSize := removed.foldl (fun total _ => subtractSegment dbId total)
        state.undoTotalSize }, removed)

/-- `ReleaseSpace` and `ReleaseSlotSpace`; `recEnd` is the end of the log record written
outside recovery. -/
def releaseSpace (dbId : UndoDb) (pLevel : UndoPersistence) (recovery : Bool) (recEnd : Nat)
    (endurp : Nat) (state : SpaceState) : SpaceState × List Nat :=
  let finish := undoPtrGetOffset endurp
  let head := if recovery then state.space.headExrto else state.space.head
  let startSegno := head / usegSize dbId
  let endSegno := finish / usegSize dbId
  if startSegno < endSegno then
    let state := if 0 < state.forceRecycleSize then
      { state with forceRecycleSize :=
        state.forceRecycleSize - ((endSegno - startSegno) * usegBlocks dbId : Nat) } else state
    let result := unlinkUndoLog dbId recovery (endSegno * usegSize dbId) state
    if pLevel = .permanent ∧ recovery = false then
      ({ result.1 with space := { result.1.space with dirty := true, lsn := recEnd } }, result.2)
    else result
  else (state, [])

/-- An unlink record of the primary: the new head and the end of the record. -/
structure XlogUndoUnlink where
  head : Nat
  endRecPtr : Nat
deriving DecidableEq

/-- `XlogUndoUnlinkReplay` and `XlogSlotUnlinkReplay`. -/
def xlogUndoUnlinkReplay (dbId : UndoDb) (xlrec : XlogUndoUnlink) (state : SpaceState) :
    SpaceState × List Nat :=
  if state.space.lsn < xlrec.endRecPtr then
    let state := { state with space := { state.space with dirty := true } }
    let result := unlinkUndoLog dbId false (undoPtrGetOffset xlrec.head) state
    ({ result.1 with space := { result.1.space with lsn := xlrec.endRecPtr } }, result.2)
  else (state, [])

/-- What happens to a space on a standby. -/
inductive StandbyStep where
  | replay (xlrec : XlogUndoUnlink)
  | release (endurp : Nat)
deriving DecidableEq

/-- A standby space with the segments removed so far from each of its two lists. -/
structure Standby where
  state : SpaceState
  removed : List Nat
  removedExrto : List Nat
deriving DecidableEq

/-- One step on the standby; the recycler runs in recovery mode. -/
def standbyStep (dbId : UndoDb) (standby : Standby) : StandbyStep → Standby
  | .replay xlrec =>
    let result := xlogUndoUnlinkReplay dbId xlrec standby.state
    { standby with
      state := result.1
      removed := standby.removed ++ result.2.map (· / usegSize dbId) }
  | .release endurp =>
    let result := releaseSpace dbId .permanent true 0 endurp standby.state
    { standby with
      state := result.1
      removedExrto := standby.removedExrto ++ result.2.map (· / usegSize dbId) }

/-- The unlink records a primary can have written: on segment boundaries, the head moving
forward with the log. -/
structure UnlinkLog (dbId : UndoDb) (log : List XlogUndoUnlink) : Prop where
  aligned : ∀ xlrec ∈ log, undoPtrGetOffset xlrec.head % usegSize dbId = 0
  forward : ∀ first ∈ log, ∀ second ∈ log, first.endRecPtr < second.endRecPtr →
    undoPtrGetOffset first.head ≤ undoPtrGetOffset second.head

/-- Replayed records come from the primary's log. -/
def StandbyStep.From (log : List XlogUndoUnlink) : StandbyStep → Prop
  | .replay xlrec => xlrec ∈ log
  | .release _ => True

/-- What one step must guarantee for the heads. -/
def HeadsKept (dbId : UndoDb) (standby : Standby) (step : StandbyStep) : Prop :=
  let next := standbyStep dbId standby step
  standby.state.space.head ≤ next.state.space.head ∧
    standby.state.space.headExrto ≤ next.state.space.headExrto ∧
    ∀ endurp, step = .release endurp → next.state.space.head = standby.state.space.head

/-- A release that removes segments ends exactly at the replayed head. -/
def ReleaseMeetsHead (dbId : UndoDb) (standby : Standby) (step : StandbyStep) : Prop :=
  ∀ endurp, step = .release endurp →
    standby.state.space.headExrto / usegSize dbId < undoPtrGetOffset endurp / usegSize dbId →
    undoPtrGetOffset endurp / usegSize dbId * usegSize dbId = standby.state.space.head

/-- The heads, the log position and the removed segments of a standby space. -/
structure Heads where
  head : Nat
  headExrto : Nat
  lsn : Nat
  removed : List Nat
  removedExrto : List Nat

/-- What the results look at in a standby space. -/
def Standby.heads (standby : Standby) : Heads :=
  ⟨standby.state.space.head, standby.state.space.headExrto, standby.state.space.lsn,
    standby.removed, standby.removedExrto⟩

/-- The heads after one step. -/
def Heads.step (dbId : UndoDb) (heads : Heads) : StandbyStep → Heads
  | .replay xlrec =>
    if heads.lsn < xlrec.endRecPtr then
      { heads with
        head := undoPtrGetOffset xlrec.head
        lsn := xlrec.endRecPtr
        removed := heads.removed ++
          (unlinkLoop dbId heads.head (undoPtrGetOffset xlrec.head)).map (· / usegSize dbId) }
    else heads
  | .release endurp =>
    if heads.headExrto / usegSize dbId < undoPtrGetOffset endurp / usegSize dbId then
      { heads with
        head := undoPtrGetOffset endurp / usegSize dbId * usegSize dbId
        headExrto := undoPtrGetOffset endurp / usegSize dbId * usegSize dbId
        removedExrto := heads.removedExrto ++ (unlinkLoop dbId heads.headExrto
            (undoPtrGetOffset endurp / usegSize dbId * usegSize dbId)).map (· / usegSize dbId) }
    else heads

theorem heads_standbyStep (dbId : UndoDb) (standby : Standby) (step : StandbyStep) :
    (standbyStep dbId standby step).heads = standby.heads.step dbId step := by
  cases step with
  | replay xlrec =>
    by_cases fresh : standby.state.space.lsn < xlrec.endRecPtr
    · simp [standbyStep, xlogUndoUnlinkReplay, unlinkUndoLog, Heads.step, Standby.heads, fresh]
    · simp [standbyStep, xlogUndoUnlinkReplay, Heads.step, Standby.heads, fresh]
  | release endurp =>
    by_cases moves : standby.state.space.headExrto / usegSize dbId <
        undoPtrGetOffset endurp / usegSize dbId
    · by_cases force : 0 < standby.state.forceRecycleSize <;>
        simp [standbyStep, releaseSpace, unlinkUndoLog, Heads.step, Standby.heads, moves, force]
    · simp [standbyStep, releaseSpace, Heads.step, Standby.heads, moves]

/-- The loop removes each segment once, in order. -/
theorem unlinkLoop_segments {dbId : UndoDb} {head offset : Nat}
    (aligned : offset % usegSize dbId = 0) (start : head % usegSize dbId = 0) :
    ((unlinkLoop dbId head offset).map (· / usegSize dbId)).Pairwise (· < ·) ∧
      ∀ segment ∈ (unlinkLoop dbId head offset).map (· / usegSize dbId),
        head / usegSize dbId ≤ segment ∧ segment < offset / usegSize dbId := by
  have positive := usegSize_pos dbId
  induction head using unlinkLoop.induct dbId offset with
  | case1 head less ih =>
    have next : (head + usegSize dbId) / usegSize dbId = head / usegSize dbId + 1 :=
      Nat.add_div_right head positive
    obtain ⟨ordered, bounds⟩ := ih (by rw [Nat.add_mod_right]; exact start)
    have below : head / usegSize dbId < offset / usegSize dbId := by
      refine (Nat.div_lt_iff_lt_mul positive).mpr ?_
      rw [Nat.div_mul_cancel (Nat.dvd_of_mod_eq_zero aligned)]
      exact less
    rw [unlinkLoop, if_pos less, List.map_cons]
    refine ⟨List.pairwise_cons.mpr ⟨fun segment member => ?_, ordered⟩, fun segment member => ?_⟩
    · have := bounds segment member
      omega
    · rcases List.mem_cons.mp member with rfl | member
      · exact ⟨Nat.le_refl _, below⟩
      · have := bounds segment member
        omega
  | case2 head done =>
    rw [unlinkLoop, if_neg done]
    simp

/-- Invariant of a standby space whose releases meet the replayed head. -/
structure HeadsInv (dbId : UndoDb) (log : List XlogUndoUnlink) (heads : Heads) : Prop where
  aligned : heads.head % usegSize dbId = 0
  alignedExrto : heads.headExrto % usegSize dbId = 0
  ahead : ∀ xlrec ∈ log, heads.lsn < xlrec.endRecPtr → heads.head ≤ undoPtrGetOffset xlrec.head
  removed : heads.removed.Nodup ∧ ∀ segment ∈ heads.removed, segment < heads.head / usegSize dbId
  removedExrto : heads.removedExrto.Nodup ∧
    ∀ segment ∈ heads.removedExrto, segment < heads.headExrto / usegSize dbId

/-- No segment is removed twice. -/
theorem removed_append {dbId : UndoDb} {removed : List Nat} {head offset : Nat}
    (aligned : offset % usegSize dbId = 0) (start : head % usegSize dbId = 0)
    (ordered : head ≤ offset)
    (before : removed.Nodup ∧ ∀ segment ∈ removed, segment < head / usegSize dbId) :
    (removed ++ (unlinkLoop dbId head offset).map (· / usegSize dbId)).Nodup ∧
      ∀ segment ∈ removed ++ (unlinkLoop dbId head offset).map (· / usegSize dbId),
        segment < offset / usegSize dbId := by
  obtain ⟨sorted, bounds⟩ := unlinkLoop_segments aligned start
  have later : head / usegSize dbId ≤ offset / usegSize dbId := Nat.div_le_div_right ordered
  refine ⟨List.nodup_append.mpr ⟨before.1, sorted.imp (fun less => Nat.ne_of_lt less), ?_⟩, ?_⟩
  · intro left first right second same
    have := before.2 left first
    have := bounds right second
    omega
  · intro segment member
    rcases List.mem_append.mp member with old | new
    · have := before.2 segment old
      omega
    · exact (bounds segment new).2

/-- A step keeps the heads behind the log. -/
theorem headsInv_step {dbId : UndoDb} {log : List XlogUndoUnlink} {heads : Heads}
    {step : StandbyStep} (wal : UnlinkLog dbId log) (held : HeadsInv dbId log heads)
    (taken : step.From log) (meets : ∀ endurp, step = .release endurp →
      heads.headExrto / usegSize dbId < undoPtrGetOffset endurp / usegSize dbId →
      undoPtrGetOffset endurp / usegSize dbId * usegSize dbId = heads.head) :
    HeadsInv dbId log (heads.step dbId step) ∧ heads.head ≤ (heads.step dbId step).head ∧
      heads.headExrto ≤ (heads.step dbId step).headExrto ∧
      ∀ endurp, step = .release endurp → (heads.step dbId step).head = heads.head := by
  obtain ⟨aligned, alignedExrto, ahead, removed, removedExrto⟩ := held
  cases step with
  | replay xlrec =>
    unfold Heads.step
    simp only
    split
    · rename_i fresh
      have forward := ahead xlrec taken fresh
      have boundary := wal.aligned xlrec taken
      refine ⟨⟨boundary, alignedExrto, fun later member less => ?_, ?_, removedExrto⟩, forward,
        Nat.le_refl _, by simp⟩
      · exact wal.forward xlrec taken later member less
      · exact removed_append boundary aligned forward removed
    · exact ⟨⟨aligned, alignedExrto, ahead, removed, removedExrto⟩, Nat.le_refl _,
        Nat.le_refl _, by simp⟩
  | release endurp =>
    have here := meets endurp rfl
    unfold Heads.step
    simp only
    generalize undoPtrGetOffset endurp = finish at here ⊢
    split
    · rename_i moves
      have same := here moves
      have boundary : finish / usegSize dbId * usegSize dbId % usegSize dbId = 0 :=
        Nat.mul_mod_left _ _
      have forward : heads.headExrto ≤ finish / usegSize dbId * usegSize dbId := by
        rw [← Nat.div_mul_cancel (Nat.dvd_of_mod_eq_zero alignedExrto)]
        exact Nat.mul_le_mul_right _ (Nat.le_of_lt moves)
      have lists := removed_append boundary alignedExrto forward removedExrto
      refine ⟨⟨boundary, boundary, ?_, ?_, lists⟩, ?_, forward, ?_⟩
      · rw [same]
        exact ahead
      · rw [same]
        exact removed
      · rw [same]
      · intro _ _
        exact same
    · exact ⟨⟨aligned, alignedExrto, ahead, removed, removedExrto⟩, Nat.le_refl _,
        Nat.le_refl _, fun _ _ => rfl⟩

theorem releaseMeetsHead_of_headsKept (dbId : UndoDb) (standby : Standby) (step : StandbyStep)
    (kept : HeadsKept dbId standby step) : ReleaseMeetsHead dbId standby step := by
  rintro endurp rfl moves
  have same := kept.2.2 endurp rfl
  have after := congrArg Heads.head (heads_standbyStep dbId standby (.release endurp))
  unfold Heads.step at after
  simp only at after
  rw [if_pos (show standby.heads.headExrto / usegSize dbId < _ from moves)] at after
  exact after.symm.trans same

/-- What a run on a standby must guarantee: no head goes back, releases leave the replayed
head alone, and no segment is removed twice from one list. -/
def RunKept (dbId : UndoDb) (standby : Standby) (steps : List StandbyStep) : Prop :=
  Along (standbyStep dbId) (HeadsKept dbId) standby steps ∧
    (steps.foldl (standbyStep dbId) standby).removed.Nodup ∧
    (steps.foldl (standbyStep dbId) standby).removedExrto.Nodup

/-- A standby space before any step of its own, in line with the primary's log. -/
structure Fresh (dbId : UndoDb) (log : List XlogUndoUnlink) (standby : Standby) : Prop where
  aligned : standby.state.space.head % usegSize dbId = 0
  alignedExrto : standby.state.space.headExrto % usegSize dbId = 0
  ahead : ∀ xlrec ∈ log, standby.state.space.lsn < xlrec.endRecPtr →
    standby.state.space.head ≤ undoPtrGetOffset xlrec.head
  nothing : standby.removed = [] ∧ standby.removedExrto = []

/-- Over every interleaving of replay and standby releases the heads are kept exactly where
each release that removes segments ends at the replayed head. -/
theorem standby_heads_kept_iff (dbId : UndoDb) (log : List XlogUndoUnlink) (standby : Standby)
    (steps : List StandbyStep) (wal : UnlinkLog dbId log) (fresh : Fresh dbId log standby)
    (taken : ∀ step ∈ steps, step.From log) : RunKept dbId standby steps ↔
      Along (standbyStep dbId) (ReleaseMeetsHead dbId) standby steps := by
  constructor
  · intro kept
    exact along_mono (standbyStep dbId) _ _ (releaseMeetsHead_of_headsKept dbId) kept.1
  · intro meets
    -- The steps of the run carry their origin along with the condition.
    have both : Along (standbyStep dbId)
        (fun standby step => step.From log ∧ ReleaseMeetsHead dbId standby step) standby steps := by
      clear fresh
      induction steps generalizing standby with
      | nil => trivial
      | cons step rest ih =>
        exact ⟨⟨taken step (by simp), meets.1⟩,
          ih _ (fun other member => taken other (List.mem_cons_of_mem _ member)) meets.2⟩
    have initially : HeadsInv dbId log standby.heads := by
      refine ⟨fresh.aligned, fresh.alignedExrto, fresh.ahead, ?_, ?_⟩
      · simp [Standby.heads, fresh.nothing.1]
      · simp [Standby.heads, fresh.nothing.2]
    have keeps : ∀ (standby : Standby) (step : StandbyStep), HeadsInv dbId log standby.heads →
        step.From log ∧ ReleaseMeetsHead dbId standby step →
        HeadsInv dbId log (standbyStep dbId standby step).heads := by
      rintro standby step held ⟨from_, meets⟩
      rw [heads_standbyStep]
      exact (headsInv_step wal held from_ meets).1
    have final := along_invariant (standbyStep dbId) _ (fun standby => HeadsInv dbId log
      standby.heads) keeps standby steps initially both
    refine ⟨along_of_invariant (standbyStep dbId) _ (HeadsKept dbId) (fun standby =>
      HeadsInv dbId log standby.heads) keeps ?_ standby steps initially both,
      final.removed.1, final.removedExrto.1⟩
    rintro standby step held ⟨from_, meets⟩
    have kept := (headsInv_step wal held from_ meets).2
    rw [← heads_standbyStep] at kept
    exact kept

/-- A standby whose recycler gives back two segments, exactly up to the replayed head. -/
theorem standby_heads_kept_after_replay :
    RunKept .undo ⟨⟨⟨0, 0, 3145728, 10, false⟩, 384, 0⟩, [], []⟩
      [.replay ⟨2097152, 50⟩, .release 2097252] := by
  refine (standby_heads_kept_iff .undo [⟨2097152, 50⟩] _ _ ⟨by decide, by decide⟩
    ⟨by decide, by decide, by decide, by decide⟩ (by simp [StandbyStep.From])).mpr
    ⟨fun endurp other => ?_, fun endurp same _ => ?_, trivial⟩
  · exact absurd other (by simp)
  · obtain rfl := StandbyStep.release.inj same
    decide

/-- A release that ends one segment behind the replayed head takes that head back. -/
theorem standby_release_moves_head_back :
    (standbyStep .undo ⟨⟨⟨2097152, 0, 3145728, 50, false⟩, 384, 0⟩, [], []⟩
        (.release 1048676)).state.space.head = 1048576 ∧
      ¬ RunKept .undo ⟨⟨⟨2097152, 0, 3145728, 50, false⟩, 384, 0⟩, [], []⟩ [.release 1048676] := by
  have back : (standbyStep .undo ⟨⟨⟨2097152, 0, 3145728, 50, false⟩, 384, 0⟩, [], []⟩
      (.release 1048676)).state.space.head = 1048576 := by decide
  refine ⟨back, fun kept => ?_⟩
  have forward := kept.1.1.1
  exact absurd forward (by decide)

end OpenGauss.Undo
