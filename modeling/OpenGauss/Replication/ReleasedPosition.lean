import OpenGauss.Replication.SyncStandby
import OpenGauss.Base.Run
import Mathlib.Order.Basic

/-!
# Raising the released positions

The walsenders raise the shared `lsn` array with a loop around a compare-and-exchange, one entry
after the other, and wake the waiting backends when the loop tells them that they changed an
entry. A step of this model is one atomic access: the read at the top of the loop, or the
exchange. The loop compares the position with what the exchange returns, which is not a position
but whether it succeeded.
-/
namespace OpenGauss.Replication

open OpenGauss.Base

/-- What a compare-and-exchange leaves behind. -/
structure Exchanged where
  returned : Bool
  value : XLogRecPtr
  /-- The local value the caller expected, which is overwritten. -/
  expected : XLogRecPtr
  deriving DecidableEq, Repr

/-- `pg_atomic_compare_exchange_u64`. -/
def pgAtomicCompareExchangeU64 (value expected newval : XLogRecPtr) : Exchanged :=
  { returned := value == expected
    value := if value = expected then newval else value
    expected := value }

/-- Where a walsender is in `SyncRepReleaseWaiters`. -/
inductive ReleasePhase
  | idle
  /-- At the top of the loop of `AtomicUpdateIfGreater` for an entry. -/
  | reading (mode : WaitMode)
  | exchanging (mode : WaitMode) (oldVal : XLogRecPtr)
  deriving DecidableEq, Repr

/-- A walsender that updates the array. -/
structure Updater where
  newVal : WaitMode → XLogRecPtr
  phase : ReleasePhase
  /-- The local variable `updateResult`. -/
  updateResult : Bool
  /-- Whether an exchange of this update has installed a position. -/
  installed : Bool
  /-- Whether the update has ended with a call of `SyncRepWakeBackend`. -/
  woken : Bool

/-- The shared array and the walsenders. -/
structure ReleaseState where
  lsn : WaitMode → XLogRecPtr
  updater : Nat → Updater

/-- The entry that is updated after the given one. -/
def WaitMode.next : WaitMode → Option WaitMode
  | .receive => some .write
  | .write => some .flush
  | .flush => some .apply
  | .apply => none

/-- `AtomicUpdateIfGreater` returns: the next entry follows, or the backends are woken. -/
def Updater.leave (updater : Updater) (mode : WaitMode) : Updater :=
  match mode.next with
  | some next => { updater with phase := .reading next }
  | none =>
    { updater with
      phase := .idle
      woken := updater.updateResult }

/-- The returned value as a number, for its comparison with a position. -/
def currentVal (exchanged : Exchanged) : XLogRecPtr := if exchanged.returned then 1 else 0

/-- One atomic step of `AtomicUpdateIfGreater`: the shared value of the walsender's entry, and the
walsender. -/
def atomicStep (lsn : WaitMode → XLogRecPtr) (updater : Updater) :
    (WaitMode → XLogRecPtr) × Updater :=
  match updater.phase with
  | .idle => (lsn, updater)
  | .reading mode =>
    let oldVal := lsn mode
    if updater.newVal mode ≤ oldVal then (lsn, updater.leave mode)
    else (lsn, { updater with phase := .exchanging mode oldVal })
  | .exchanging mode oldVal =>
    let exchanged := pgAtomicCompareExchangeU64 (lsn mode) oldVal (updater.newVal mode)
    let lsn := fun other => if other = mode then exchanged.value else lsn other
    let updater := { updater with installed := updater.installed || exchanged.returned }
    if currentVal exchanged = exchanged.expected then
      (lsn, Updater.leave { updater with updateResult := true } mode)
    else (lsn, { updater with phase := .reading mode })

/-- What the walsenders do. -/
inductive ReleaseEvent
  | start (me : Nat) (newVal : WaitMode → XLogRecPtr)
  | step (me : Nat)

/-- Replace one walsender. -/
def ReleaseState.setUpdater (state : ReleaseState) (me : Nat) (updater : Updater) :
    ReleaseState :=
  { state with updater := fun other => if other = me then updater else state.updater other }

/-- One step of the walsenders. -/
def releaseStep (state : ReleaseState) : ReleaseEvent → ReleaseState
  | .start me newVal =>
    if (state.updater me).phase = .idle then
      state.setUpdater me
        { newVal
          phase := .reading .receive
          updateResult := false
          installed := false
          woken := false }
    else state
  | .step me =>
    let result := atomicStep state.lsn (state.updater me)
    { state.setUpdater me result.2 with lsn := result.1 }

/-- The entries whose update has returned. -/
def ReleasePhase.returned : ReleasePhase → WaitMode → Prop
  | .idle, _ => True
  | .reading mode, other | .exchanging mode _, other => other.ctorIdx < mode.ctorIdx

/-- What holds of a walsender at every moment. -/
structure UpdaterOk (lsn : WaitMode → XLogRecPtr) (updater : Updater) : Prop where
  reached : ∀ mode, updater.phase.returned mode → updater.newVal mode ≤ lsn mode
  behind : ∀ mode oldVal, updater.phase = .exchanging mode oldVal →
    oldVal ≤ lsn mode ∧ oldVal < updater.newVal mode
  flagged : updater.updateResult = true → updater.installed = true

theorem UpdaterOk.mono (lsn lsn' : WaitMode → XLogRecPtr) (updater : Updater)
    (ok : UpdaterOk lsn updater) (raised : ∀ mode, lsn mode ≤ lsn' mode) : UpdaterOk lsn' updater :=
  { reached := fun mode done => le_trans (ok.reached mode done) (raised mode)
    behind := fun mode oldVal here =>
      ⟨le_trans (ok.behind mode oldVal here).1 (raised mode), (ok.behind mode oldVal here).2⟩
    flagged := ok.flagged }

/-- A mode is left. -/
theorem UpdaterOk.leave {lsn : WaitMode → XLogRecPtr} {updater : Updater} {mode : WaitMode}
    (before : ∀ other, other.ctorIdx < mode.ctorIdx → updater.newVal other ≤ lsn other)
    (here : updater.newVal mode ≤ lsn mode)
    (flagged : updater.updateResult = true → updater.installed = true) :
    UpdaterOk lsn (updater.leave mode) := by
  -- The entries before the next one are those before this one, and this one.
  have covered (other : WaitMode) (near : other.ctorIdx ≤ mode.ctorIdx) :
      updater.newVal other ≤ lsn other := by
    rcases Nat.lt_or_eq_of_le near with earlier | same
    · exact before other earlier
    · have equal : other = mode := by
        cases other <;> cases mode <;> simp_all [WaitMode.ctorIdx]
      rw [equal]
      exact here
  refine
    { reached := ?reached
      behind := ?behind
      flagged := ?flagged }
  case reached =>
    intro other done
    cases mode with
    | apply =>
      apply covered other
      cases other <;> decide
    | receive | write | flush => exact covered other (Nat.le_of_lt_succ done)
  case behind =>
    intro other oldVal phase
    cases mode <;> simp [Updater.leave, WaitMode.next] at phase
  case flagged =>
    cases mode <;> exact flagged

theorem not_zero_of_raised {oldVal value : XLogRecPtr} (read : oldVal ≤ value)
    (changed : value ≠ oldVal) : ¬0 = value :=
  Nat.ne_of_lt (Nat.lt_of_le_of_lt (Nat.zero_le oldVal) (Nat.lt_of_le_of_ne read changed.symm))

/-- An atomic step raises positions only. -/
theorem UpdaterOk.atomicStep (lsn : WaitMode → XLogRecPtr) (updater : Updater)
    (ok : UpdaterOk lsn updater) : (∀ mode, lsn mode ≤ (atomicStep lsn updater).1 mode) ∧
      UpdaterOk (atomicStep lsn updater).1 (atomicStep lsn updater).2 := by
  cases phase : updater.phase with
  | idle =>
    simp only [Replication.atomicStep, phase]
    exact ⟨fun _ => le_rfl, ok⟩
  | reading mode =>
    have reached := ok.reached
    rw [phase] at reached
    simp only [Replication.atomicStep, phase]
    split
    · rename_i enough
      exact ⟨fun _ => le_rfl, UpdaterOk.leave reached enough ok.flagged⟩
    · rename_i short
      refine ⟨fun _ => le_rfl, ⟨reached, ?_, ok.flagged⟩⟩
      intro other oldVal here
      simp only [ReleasePhase.exchanging.injEq] at here
      rw [← here.1, ← here.2]
      exact ⟨le_rfl, Nat.lt_of_not_le short⟩
  | exchanging mode oldVal =>
    obtain ⟨read, below⟩ := ok.behind mode oldVal phase
    have reached := ok.reached
    rw [phase] at reached
    simp only [Replication.atomicStep, phase, pgAtomicCompareExchangeU64, currentVal, beq_iff_eq]
    by_cases success : lsn mode = oldVal
    · -- The exchange succeeds; the loop ends here when the old position was one.
      have raised (other : WaitMode) : lsn other ≤
          if other = mode then updater.newVal mode else lsn other := by
        split
        · rename_i same
          rw [same, success]
          exact below.le
        · exact le_rfl
      have before (other : WaitMode) (earlier : other.ctorIdx < mode.ctorIdx) :
          updater.newVal other ≤ if other = mode then updater.newVal mode else lsn other :=
        le_trans (reached other earlier) (raised other)
      simp only [success, beq_self_eq_true, if_true, Bool.or_true]
      split
      · refine ⟨raised, UpdaterOk.leave before ?_ fun _ => rfl⟩
        simp
      · exact ⟨raised, ⟨before, (fun _ _ here => nomatch here), fun _ => rfl⟩⟩
    · -- The exchange fails; the position it finds is not zero, since it was raised.
      have found : ¬0 = lsn mode := not_zero_of_raised read success
      have same : (fun other => if other = mode then lsn mode else lsn other) = lsn := by
        funext other
        split
        · rename_i equal
          rw [equal]
        · rfl
      simp only [beq_eq_false_iff_ne.mpr success, success, if_false, Bool.or_false, found, same]
      exact ⟨fun _ => le_rfl, ⟨reached, (fun _ _ here => nomatch here), ok.flagged⟩⟩

/-- A position was installed when and only when the flag says so, and then the backends have been
woken at the end of the update. -/
structure Announced (updater : Updater) : Prop where
  flag : updater.updateResult = true ↔ updater.installed = true
  woken : updater.phase = .idle → updater.installed = true → updater.woken = true

/-- The exchange of this step fails, or replaces the position one. -/
def ReplacesOne (state : ReleaseState) : ReleaseEvent → Prop
  | .start _ _ => True
  | .step me => ∀ mode oldVal, (state.updater me).phase = .exchanging mode oldVal →
      state.lsn mode = oldVal → oldVal = 1

theorem Announced.leave {updater : Updater} (mode : WaitMode)
    (flag : updater.updateResult = true ↔ updater.installed = true) :
    Announced (updater.leave mode) := by
  cases mode with
  | apply => exact ⟨flag, fun _ => flag.mpr⟩
  | receive | write | flush => exact ⟨flag, fun idle => nomatch idle⟩

/-- An atomic step announces what is released. -/
theorem Announced.atomicStep (lsn : WaitMode → XLogRecPtr) (updater : Updater)
    (ok : UpdaterOk lsn updater) (announced : Announced updater)
    (one : ∀ mode oldVal, updater.phase = .exchanging mode oldVal → lsn mode = oldVal →
      oldVal = 1) : Announced (atomicStep lsn updater).2 := by
  cases phase : updater.phase with
  | idle =>
    simp only [Replication.atomicStep, phase]
    exact announced
  | reading mode =>
    simp only [Replication.atomicStep, phase]
    split
    · exact Announced.leave mode announced.flag
    · exact ⟨announced.flag, fun idle => nomatch idle⟩
  | exchanging mode oldVal =>
    obtain ⟨read, below⟩ := ok.behind mode oldVal phase
    simp only [Replication.atomicStep, phase, pgAtomicCompareExchangeU64, currentVal, beq_iff_eq]
    by_cases success : lsn mode = oldVal
    · have old := one mode oldVal phase success
      simp only [success, old]
      apply Announced.leave
      simp
    · have found : ¬0 = lsn mode := not_zero_of_raised read success
      simp only [beq_eq_false_iff_ne.mpr success, success, if_false, Bool.or_false, found]
      exact ⟨announced.flag, fun idle => nomatch idle⟩

/-- What holds of the array and all walsenders. -/
def ReleaseState.Ok (state : ReleaseState) : Prop :=
  ∀ me, UpdaterOk state.lsn (state.updater me)

/-- A step raises positions only. -/
theorem ReleaseState.Ok.step {state : ReleaseState} (ok : state.Ok) (event : ReleaseEvent) :
    (∀ mode, state.lsn mode ≤ (releaseStep state event).lsn mode) ∧
      (releaseStep state event).Ok := by
  cases event with
  | start me newVal =>
    rw [releaseStep]
    split
    · refine ⟨fun _ => le_rfl, ?_⟩
      intro other
      simp only [ReleaseState.setUpdater]
      split
      · exact ⟨(fun _ done => absurd done (Nat.not_lt_zero _)), (fun _ _ here => nomatch here),
          fun flag => nomatch flag⟩
      · exact ok other
    · exact ⟨fun _ => le_rfl, ok⟩
  | step me =>
    obtain ⟨raised, own⟩ := (ok me).atomicStep
    refine ⟨raised, ?_⟩
    intro other
    simp only [releaseStep, ReleaseState.setUpdater]
    split
    · exact own
    · exact (ok other).mono _ _ _ raised

/-- A step announces what is released. -/
theorem announced_step (state : ReleaseState) (event : ReleaseEvent)
    (before : state.Ok ∧ ∀ me, Announced (state.updater me)) (one : ReplacesOne state event) :
    (releaseStep state event).Ok ∧ ∀ me, Announced ((releaseStep state event).updater me) := by
  obtain ⟨ok, announced⟩ := before
  refine ⟨(ok.step event).2, ?_⟩
  intro other
  cases event with
  | start me newVal =>
    rw [releaseStep]
    split
    · simp only [ReleaseState.setUpdater]
      split
      · exact ⟨Iff.rfl, fun idle => nomatch idle⟩
      · exact announced other
    · exact announced other
  | step me =>
    simp only [releaseStep, ReleaseState.setUpdater]
    split
    · exact (announced me).atomicStep _ _ (ok me) one
    · exact announced other

/-- A walsender that has not updated the array yet. -/
def quietUpdater : Updater :=
  { newVal := fun _ => invalidXLogRecPtr
    phase := .idle
    updateResult := false
    installed := false
    woken := false }

/-- The array with any positions, before any walsender updates it. -/
def quietState (lsn : WaitMode → XLogRecPtr) : ReleaseState :=
  { lsn
    updater := fun _ => quietUpdater }

theorem quietState_ok (lsn : WaitMode → XLogRecPtr) : (quietState lsn).Ok := by
  intro me
  exact ⟨(fun _ _ => Nat.zero_le _), (fun _ _ here => nomatch here), fun flag => nomatch flag⟩

theorem lsn_mono (state : ReleaseState) (ok : state.Ok) (events : List ReleaseEvent) :
    (events.foldl releaseStep state).Ok ∧
      ∀ mode, state.lsn mode ≤ (events.foldl releaseStep state).lsn mode := by
  induction events generalizing state with
  | nil => exact ⟨ok, fun _ => le_rfl⟩
  | cons event rest ih =>
    obtain ⟨raised, kept⟩ := ok.step event
    obtain ⟨last, later⟩ := ih (releaseStep state event) kept
    exact ⟨last, fun mode => le_trans (raised mode) (later mode)⟩

/-- The released positions in every interleaving of the walsenders. They never decrease, an update
that has returned has reached its position, and a flag is set for an installed position only. In
runs whose successful exchanges all replace the position one the flag is set for every installed
position, and the backends are woken at the end of the update. -/
theorem released_position_is_announced (lsn : WaitMode → XLogRecPtr) (events : List ReleaseEvent) :
    (∀ first rest, events = first ++ rest → ∀ mode,
      (first.foldl releaseStep (quietState lsn)).lsn mode ≤
        (events.foldl releaseStep (quietState lsn)).lsn mode) ∧
    (∀ me mode, ((events.foldl releaseStep (quietState lsn)).updater me).phase.returned mode →
      ((events.foldl releaseStep (quietState lsn)).updater me).newVal mode ≤
        (events.foldl releaseStep (quietState lsn)).lsn mode) ∧
    (∀ me, ((events.foldl releaseStep (quietState lsn)).updater me).updateResult = true →
      ((events.foldl releaseStep (quietState lsn)).updater me).installed = true) ∧
    (Along releaseStep ReplacesOne (quietState lsn) events → ∀ me,
      Announced ((events.foldl releaseStep (quietState lsn)).updater me)) := by
  have ok := (lsn_mono (quietState lsn) (quietState_ok lsn) events).1
  refine ⟨?_, fun me => (ok me).reached, fun me => (ok me).flagged, ?_⟩
  · intro first rest whole mode
    have before := (lsn_mono (quietState lsn) (quietState_ok lsn) first).1
    rw [whole, List.foldl_append]
    exact (lsn_mono _ before rest).2 mode
  · intro along
    have initially : (quietState lsn).Ok ∧ ∀ me, Announced ((quietState lsn).updater me) :=
      ⟨quietState_ok lsn, fun _ => ⟨Iff.rfl, fun _ installed => nomatch installed⟩⟩
    exact (along_invariant releaseStep ReplacesOne
      (fun state => state.Ok ∧ ∀ me, Announced (state.updater me)) announced_step
      (quietState lsn) events initially along).2

/-- The steps of one walsender that raises the positions from one to five. -/
def raiseFromOne : List ReleaseEvent :=
  .start 0 (fun _ => 5) :: List.replicate 8 (.step 0)

/-- Every exchange of a walsender that raises the positions from one is announced. -/
theorem released_position_is_announced_from_one :
    ((raiseFromOne.foldl releaseStep (quietState fun _ => 1)).updater 0).installed = true ∧
    Announced ((raiseFromOne.foldl releaseStep (quietState fun _ => 1)).updater 0) := by
  have ones : Along releaseStep ReplacesOne (quietState fun _ => 1) raiseFromOne := by
    refine ⟨trivial, ?_, ?_, ?_, ?_, ?_, ?_, ?_, ?_, trivial⟩ <;> intro mode oldVal here _ <;>
      cases here <;> rfl
  exact ⟨by decide, (released_position_is_announced (fun _ => 1) raiseFromOne).2.2.2 ones 0⟩

/-- A walsender alone raises all positions from 100 to 200. Its exchanges succeed, but it ends
without setting the flag and without waking the backends. -/
theorem released_position_is_not_announced :
    let state := ((.start 0 (fun _ => 200) :: List.replicate 12 (.step 0)).foldl releaseStep
      (quietState fun _ => 100))
    state.lsn .flush = 200 ∧ (state.updater 0).phase = .idle ∧
      (state.updater 0).installed = true ∧ (state.updater 0).updateResult = false ∧
      (state.updater 0).woken = false := by
  decide

end OpenGauss.Replication
