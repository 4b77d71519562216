import OpenGauss.RowCompress.PageCompress

/-!
# Every tuple is handed out once

Between two pages the tuples of a batch are those that were handed out, those set aside for toast
and those that remain. The module proves that a call moves tuples from the last two groups into the
first and neither loses nor repeats one, whichever exit it takes, and that it hands one out exactly
if the first tuple that is no candidate for toast fits an empty page. Over all batches this gives
when every tuple is handed out.
-/

namespace OpenGauss.RowCompress

open Function List OpenGauss.Base

section Collecting

variable {σ α : Type}

/-- What no loop over tuples changes. -/
structure SameBatch (before after : PageCompress σ α) : Prop where
  inTups : after.inTups = before.inTups
  inTupsNum : after.inTupsNum = before.inTupsNum
  current : after.current = before.current
  last : after.last = before.last
  nextBatch : after.nextBatch = before.nextBatch

variable (state : PageCompress σ α) (tuple : HeapTuple α)

theorem SameBatch.refl : SameBatch state state :=
  ⟨rfl, rfl, rfl, rfl, rfl⟩

theorem SameBatch.trans (first second third : PageCompress σ α) (left : SameBatch first second)
    (right : SameBatch second third) : SameBatch first third where
  inTups := right.inTups.trans left.inTups
  inTupsNum := right.inTupsNum.trans left.inTupsNum
  current := right.current.trans left.current
  last := right.last.trans left.last
  nextBatch := right.nextBatch.trans left.nextBatch

/-- The first loop: it adds to the candidates for toast and to the raw tuples. -/
structure Collected (before after : PageCompress σ α) (toasts mapped : List (HeapTuple α)) :
    Prop where
  batch : SameBatch before after
  unpacked : after.cmprTupsNum = before.cmprTupsNum
  untouched : after.uncmprTupIdx = before.uncmprTupIdx
  toastTups : cells after.toastTups 0 after.toastTupsNum =
    cells before.toastTups 0 before.toastTupsNum ++ toasts
  mappedTups : cells after.mappedTups 0 after.mappedTupsNum =
    cells before.mappedTups 0 before.mappedTupsNum ++ mapped

theorem addToast_toastTups :
    cells (state.addToast tuple).toastTups 0 (state.addToast tuple).toastTupsNum =
      cells state.toastTups 0 state.toastTupsNum ++ [tuple] := by
  simp only [PageCompress.addToast]
  rw [cells_snoc, Nat.zero_add, update_self, cells_update_outside _ _ _ (by omega)]

theorem addMapped_mappedTups :
    cells (state.addMapped tuple).mappedTups 0 (state.addMapped tuple).mappedTupsNum =
      cells state.mappedTups 0 state.mappedTupsNum ++ [tuple] := by
  simp only [PageCompress.addMapped]
  rw [cells_snoc, Nat.zero_add, update_self, cells_update_outside _ _ _ (by omega)]

/-- The rows of a page are collected, toasted ones aside. -/
theorem collectRows_collected (blksize remaining row size : Nat) (before : PageCompress σ α)
    (after : PageCompress σ α) (stop : Nat)
    (ran : collectRows blksize remaining row size before = (after, stop)) :
    row ≤ stop ∧ stop ≤ row + remaining ∧
      Collected before after ((cells before.inTups row (stop - row)).filter isToastTuple)
        ((cells before.inTups row (stop - row)).filter fun tuple => !isToastTuple tuple) := by
  induction remaining generalizing row size before with
  | zero =>
    cases ran
    rw [Nat.sub_self]
    exact ⟨le_rfl, le_rfl, SameBatch.refl _, rfl, rfl, (append_nil _).symm, (append_nil _).symm⟩
  | succ remaining ih =>
    simp only [collectRows] at ran
    by_cases toast : isToastTuple (before.inTups row) = true
    · rw [if_pos toast] at ran
      obtain ⟨low, high, collected⟩ := ih (row + 1) size (before.addToast (before.inTups row)) ran
      have width : stop - row = stop - (row + 1) + 1 := by lia
      refine ⟨by omega, by omega, ?_, collected.unpacked, collected.untouched, ?_, ?_⟩
      · exact SameBatch.trans _ (before.addToast (before.inTups row)) _ ⟨rfl, rfl, rfl, rfl, rfl⟩
          collected.batch
      · rw [collected.toastTups, addToast_toastTups, width, cells_succ, filter_cons,
          if_pos toast, append_assoc]
        rfl
      · rw [collected.mappedTups, width, cells_succ, filter_cons, if_neg (by simp [toast])]
        rfl
    · rw [if_neg toast] at ran
      by_cases full : blksize < size + getTupleSpace (before.inTups row)
      · rw [if_pos full] at ran
        cases ran
        rw [Nat.sub_self]
        exact ⟨le_rfl, by omega, SameBatch.refl _, rfl, rfl, (append_nil _).symm,
          (append_nil _).symm⟩
      · rw [if_neg full] at ran
        obtain ⟨low, high, collected⟩ := ih (row + 1) _ (before.addMapped (before.inTups row)) ran
        have width : stop - row = stop - (row + 1) + 1 := by lia
        refine ⟨by omega, by lia, ?_, collected.unpacked, collected.untouched, ?_, ?_⟩
        · exact SameBatch.trans _ (before.addMapped (before.inTups row)) _
            ⟨rfl, rfl, rfl, rfl, rfl⟩ collected.batch
        · rw [collected.toastTups, width, cells_succ, filter_cons, if_neg toast]
          rfl
        · rw [collected.mappedTups, addMapped_mappedTups, width, cells_succ, filter_cons,
            if_pos (by simp [toast]), append_assoc]
          rfl

end Collecting

section Dispatching

variable {σ α : Type} (form : HeapTuple α → Option (HeapTuple α))

/-- The page after some tuples: each was put there, compressed or not, and its original is known. -/
structure Dispatched (state : PageCompress σ α) (processed : List (HeapTuple α)) : Prop where
  low : state.uncmprTupIdx ≤ state.inTupsNum
  count : state.cmprTupsNum + (state.inTupsNum - state.uncmprTupIdx) = processed.length
  forms : List.Forall₂ (fun cmpr raw => form raw = some cmpr)
    (cells state.cmprTups 0 state.cmprTupsNum) (cells state.mappedTups 0 state.cmprTupsNum)
  /-- The originals and the tuples that do not compress are the tuples. -/
  all : (cells state.mappedTups 0 state.cmprTupsNum ++
    cells state.cmprTups state.uncmprTupIdx (state.inTupsNum - state.uncmprTupIdx)).Perm processed

/-- What the dispatch of a tuple does not change. -/
structure DispatchFrame (before after : PageCompress σ α) : Prop where
  batch : SameBatch before after
  toastTups : after.toastTups = before.toastTups
  toastTupsNum : after.toastTupsNum = before.toastTupsNum
  mappedTupsNum : after.mappedTupsNum = before.mappedTupsNum

theorem DispatchFrame.refl (state : PageCompress σ α) : DispatchFrame state state :=
  ⟨SameBatch.refl state, rfl, rfl, rfl⟩

theorem DispatchFrame.trans (first second third : PageCompress σ α)
    (left : DispatchFrame first second) (right : DispatchFrame second third) :
    DispatchFrame first third where
  batch := SameBatch.trans first second third left.batch right.batch
  toastTups := right.toastTups.trans left.toastTups
  toastTupsNum := right.toastTupsNum.trans left.toastTupsNum
  mappedTupsNum := right.mappedTupsNum.trans left.mappedTupsNum

/-- A dispatched tuple is on the page; the raw tuples behind the originals stay. -/
theorem Dispatched.step (before after : PageCompress σ α) (blksize size next : Nat)
    (raw : HeapTuple α) (processed : List (HeapTuple α)) (room : processed.length < before.inTupsNum)
    (dispatched : Dispatched form before processed)
    (done : dispatch blksize raw (form raw) size before = some (after, next)) :
    Dispatched form after (processed ++ [raw]) ∧ DispatchFrame before after ∧
      ∀ index, processed.length < index → after.mappedTups index = before.mappedTups index := by
  have low := dispatched.low
  have count := dispatched.count
  cases formed : form raw with
  | some cmpr =>
    rw [formed, dispatch] at done
    by_cases full : blksize < size + getTupleSpace cmpr
    · rw [if_pos full] at done
      cases done
    · rw [if_neg full] at done
      cases done
      refine ⟨?_, ⟨⟨rfl, rfl, rfl, rfl, rfl⟩, rfl, rfl, rfl⟩, ?_⟩
      · exact {
          low := low
          count := by
            rw [length_append]
            simp only [length_singleton]
            lia
          forms := by
            dsimp only
            rw [cells_snoc, cells_snoc, cells_update_outside _ _ _ (by omega),
              cells_update_outside _ _ _ (by omega), Nat.zero_add, update_self,
              update_self]
            exact rel_append dispatched.forms (List.Forall₂.cons formed List.Forall₂.nil)
          all := by
            dsimp only
            rw [cells_snoc, cells_update_outside _ _ _ (by omega), Nat.zero_add,
              update_self, cells_update_outside _ _ _ (by omega), append_assoc]
            have swapped := (@perm_append_comm _ [raw] (cells before.cmprTups
              before.uncmprTupIdx (before.inTupsNum - before.uncmprTupIdx))).append_left
                (cells before.mappedTups 0 before.cmprTupsNum)
            rw [← append_assoc (cells before.mappedTups 0 before.cmprTupsNum)
              (cells before.cmprTups _ _)] at swapped
            exact swapped.trans (dispatched.all.append_right [raw]) }
      · intro index behind
        dsimp only
        rw [update_of_ne (by lia)]
  | none =>
    rw [formed, dispatch] at done
    by_cases full : blksize < size + getTupleSpace raw
    · rw [if_pos full] at done
      cases done
    · rw [if_neg full] at done
      cases done
      have width : before.inTupsNum - (before.uncmprTupIdx - 1) =
          before.inTupsNum - before.uncmprTupIdx + 1 := by grind
      have next : before.uncmprTupIdx - 1 + 1 = before.uncmprTupIdx := by grind
      refine ⟨?_, ⟨⟨rfl, rfl, rfl, rfl, rfl⟩, rfl, rfl, rfl⟩, fun _ _ => rfl⟩
      exact {
        low := by
          lia
        count := by
          rw [length_append]
          simp only [length_singleton]
          lia
        forms := by
          rw [cells_update_outside _ _ _ (by grind)]
          exact dispatched.forms
        all := by
          dsimp only
          rw [width, cells_succ, update_self, next, cells_update_outside _ _ _ (by omega)]
          exact perm_middle.trans ((dispatched.all.cons raw).trans
            (@perm_append_comm _ [raw] processed)) }

/-- The mapped tuples are compressed until the page is full. -/
theorem compressMapped_dispatched (blksize row size : Nat) (done rest : List (HeapTuple α))
    (before : PageCompress σ α) (dispatched : Dispatched form before done)
    (here : done.length = row) (room : row + rest.length ≤ before.inTupsNum)
    (ahead : cells before.mappedTups row rest.length = rest) : ∃ put left, rest = put ++ left ∧
      Dispatched form (compressMapped form blksize rest row size before).state (done ++ put) ∧
      DispatchFrame before (compressMapped form blksize rest row size before).state ∧
      cells (compressMapped form blksize rest row size before).state.mappedTups
        (row + put.length) left.length = left ∧
      ((compressMapped form blksize rest row size before).fillOnePage = false → left = []) := by
  induction rest generalizing done row size before with
  | nil =>
    refine ⟨[], [], rfl, ?_, DispatchFrame.refl before, rfl, fun _ => rfl⟩
    rw [append_nil]
    exact dispatched
  | cons values rest ih =>
    rw [length_cons] at room ahead
    rw [cells_succ, List.cons.injEq] at ahead
    obtain ⟨raw, behind⟩ := ahead
    simp only [compressMapped, raw]
    cases step : dispatch blksize values (form values) size before with
    | none =>
      refine ⟨[], values :: rest, rfl, ?_, DispatchFrame.refl before, ?_, ?_⟩
      · rw [append_nil]
        exact dispatched
      · show cells before.mappedTups (row + 0) (rest.length + 1) = values :: rest
        rw [Nat.add_zero, cells_succ, raw, behind]
      · exact fun full => Bool.noConfusion full
    | some next =>
      obtain ⟨after, nextSize⟩ := next
      obtain ⟨dispatchedNext, frame, kept⟩ := Dispatched.step form before after blksize size
        nextSize values done (by omega) dispatched step
      have aheadNext : cells after.mappedTups (row + 1) rest.length = rest := by
        rw [← behind, cells_length]
        apply cells_congr
        intro index low _
        exact kept index (by omega)
      obtain ⟨put, left, split, dispatchedAfter, frameAfter, aheadAfter, ends⟩ := ih (row + 1)
        nextSize (done ++ [values]) after dispatchedNext
        (by rw [length_append, here]; rfl)
        (by rw [frame.batch.inTupsNum]; omega) aheadNext
      refine ⟨values :: put, left, ?_, ?_, ?_, ?_, ends⟩
      · rw [split]
        rfl
      · rw [append_assoc] at dispatchedAfter
        exact dispatchedAfter
      · exact DispatchFrame.trans _ _ _ frame frameAfter
      · have place : row + (values :: put).length = row + 1 + put.length := by
          rw [length_cons]
          lia
        rw [place]
        exact aheadAfter

/-- The second loop: it adds to the candidates for toast and puts the other tuples on the page. -/
structure Followed (before after : PageCompress σ α) (toasts : List (HeapTuple α)) : Prop where
  batch : SameBatch before after
  toastTups : cells after.toastTups 0 after.toastTupsNum =
    cells before.toastTups 0 before.toastTupsNum ++ toasts
  mappedTupsNum : after.mappedTupsNum = before.mappedTupsNum

/-- The tuples behind the sample are set aside or put on the page, up to one that does not fit. -/
theorem compressFollowing_dispatched (blksize remaining row size : Nat)
    (done : List (HeapTuple α)) (before : PageCompress σ α)
    (dispatched : Dispatched form before done) (room : done.length + remaining ≤ before.inTupsNum) :
    ∃ stop, row ≤ stop ∧ stop ≤ row + remaining ∧
      Followed before (compressFollowing form blksize remaining row size before).state
        ((cells before.inTups row (stop - row)).filter isToastTuple) ∧
      Dispatched form (compressFollowing form blksize remaining row size before).state
        (done ++ (cells before.inTups row (stop - row)).filter fun tuple =>
          !isToastTuple tuple) ∧
      ((compressFollowing form blksize remaining row size before).fillOnePage = false →
        stop = row + remaining) := by
  induction remaining generalizing row size done before with
  | zero =>
    refine ⟨row, le_rfl, le_rfl, ⟨SameBatch.refl before, ?_, rfl⟩, ?_, fun _ => rfl⟩
    · rw [Nat.sub_self]
      exact (append_nil _).symm
    · rw [Nat.sub_self, cells_zero, filter_nil, append_nil]
      exact dispatched
  | succ remaining ih =>
    simp only [compressFollowing]
    by_cases toast : isToastTuple (before.inTups row) = true
    · rw [if_pos toast]
      obtain ⟨stop, low, high, followed, dispatchedAfter, ends⟩ := ih (row + 1) size done
        (before.addToast (before.inTups row))
        ⟨dispatched.low, dispatched.count, dispatched.forms, dispatched.all⟩
        (by
          show done.length + remaining ≤ before.inTupsNum
          omega)
      have width : stop - row = stop - (row + 1) + 1 := by lia
      refine ⟨stop, by omega, by lia, ⟨?_, ?_, followed.mappedTupsNum⟩, ?_, ?_⟩
      · exact SameBatch.trans _ (before.addToast (before.inTups row)) _ ⟨rfl, rfl, rfl, rfl, rfl⟩
          followed.batch
      · rw [followed.toastTups, addToast_toastTups, width, cells_succ, filter_cons,
          if_pos toast, append_assoc]
        rfl
      · rw [width, cells_succ, filter_cons, if_neg (by simp [toast])]
        exact dispatchedAfter
      · intro full
        have := ends full
        lia
    · rw [if_neg toast]
      cases step : dispatch blksize (before.inTups row) (form (before.inTups row)) size before with
      | none =>
        refine ⟨row, le_rfl, by omega, ⟨SameBatch.refl before, ?_, rfl⟩, ?_, ?_⟩
        · rw [Nat.sub_self]
          exact (append_nil _).symm
        · rw [Nat.sub_self, cells_zero, filter_nil, append_nil]
          exact dispatched
        · exact fun full => Bool.noConfusion full
      | some next =>
        obtain ⟨after, nextSize⟩ := next
        obtain ⟨dispatchedNext, frame, _⟩ := Dispatched.step form before after blksize size
          nextSize (before.inTups row) done (by omega) dispatched step
        obtain ⟨stop, low, high, followed, dispatchedAfter, ends⟩ := ih (row + 1) nextSize
          (done ++ [before.inTups row]) after dispatchedNext
          (by
            rw [length_append, frame.batch.inTupsNum]
            show done.length + 1 + remaining ≤ before.inTupsNum
            omega)
        rw [frame.batch.inTups] at followed dispatchedAfter
        have width : stop - row = stop - (row + 1) + 1 := by lia
        refine ⟨stop, by omega, by lia, ⟨?_, ?_, ?_⟩, ?_, ?_⟩
        · exact SameBatch.trans _ _ _ frame.batch followed.batch
        · rw [followed.toastTups, frame.toastTups, frame.toastTupsNum, width, cells_succ,
            filter_cons, if_neg toast]
        · rw [followed.mappedTupsNum, frame.mappedTupsNum]
        · rw [width, cells_succ, filter_cons, if_pos (by simp [toast])]
          rw [append_assoc] at dispatchedAfter
          exact dispatchedAfter
        · intro full
          have := ends full
          lia

end Dispatching

section Turns

variable {σ α : Type} (chooser : Chooser σ α)

/-- The tuples that are set aside or remain. -/
def PageCompress.pending (state : PageCompress σ α) : List (HeapTuple α) :=
  cells state.toastTups 0 state.toastTupsNum ++ state.remains

/-- A tuple is handed out as it is or in a compressed form. -/
def OutputOf (output raw : HeapTuple α) : Prop :=
  output = raw ∨ ∃ state sample, (chooser.choose state sample).2.formCmprsTuple raw = some output

/-- A state between two pages. -/
structure Ready (state : PageCompress σ α) : Prop where
  inside : state.current ≤ state.inTupsNum
  waits : state.last = true → state.nextBatch = false

/-- What a call gives: tuples are handed out and the others are still there. -/
structure Turn (before : PageCompress σ α) (result : Bool × PageCompress σ α) : Prop where
  all : ∃ originals,
    List.Forall₂ (OutputOf chooser) (if result.1 then result.2.outputTups else []) originals ∧
      (originals ++ result.2.pending).Perm before.pending
  ready : Ready result.2
  inTupsNum : result.2.inTupsNum = before.inTupsNum
  last : result.2.last = before.last
  some : result.1 = true → result.2.outputTups ≠ []
  ended : result.1 = false → result.2.toastTupsNum = 0 ∧
    (result.2.current = result.2.inTupsNum ∨ result.2.nextBatch = true)

theorem outputOf_refl (tuples : List (HeapTuple α)) :
    List.Forall₂ (OutputOf chooser) tuples tuples :=
  List.forall₂_same.mpr fun _ _ => .inl rfl

/-- A page with the collected rows is a turn. -/
theorem Turn.advance (before after : PageCompress σ α) (stop : Nat)
    (toasts originals : List (HeapTuple α)) (ready : Ready before)
    (low : before.current ≤ stop) (high : stop ≤ before.inTupsNum)
    (batch : SameBatch before { after with current := before.current })
    (current : after.current = stop) (toastTups : cells after.toastTups 0 after.toastTupsNum =
      cells before.toastTups 0 before.toastTupsNum ++ toasts)
    (outputs : List.Forall₂ (OutputOf chooser) after.outputTups originals)
    (split : (toasts ++ originals).Perm
      (cells before.inTups before.current (stop - before.current)))
    (some : originals ≠ []) :
    Turn chooser before (true, after) := by
  have inTups : after.inTups = before.inTups := batch.inTups
  have inTupsNum : after.inTupsNum = before.inTupsNum := batch.inTupsNum
  have width : before.inTupsNum - before.current =
      (stop - before.current) + (before.inTupsNum - stop) := by grind
  have place : before.current + (stop - before.current) = stop := by grind
  exact {
    all := by
      refine ⟨originals, outputs, ?_⟩
      rw [PageCompress.pending, PageCompress.pending, toastTups, PageCompress.remains,
        PageCompress.remains, inTups, inTupsNum, current, width, cells_add, place]
      rw [append_assoc, ← append_assoc originals]
      apply (perm_append_comm.append_right _).trans
      rw [append_assoc]
      apply List.Perm.append_left
      rw [← append_assoc]
      exact (perm_append_comm.trans split).append_right _
    ready := by
      refine ⟨?_, ?_⟩
      · lia
      · rw [show after.last = before.last from batch.last,
          show after.nextBatch = before.nextBatch from batch.nextBatch]
        exact ready.waits
    inTupsNum := inTupsNum
    last := batch.last
    some := by
      intro _ none
      rw [none] at outputs
      cases outputs
      exact some rfl
    ended := fun ends => Bool.noConfusion ends }

/-- A page of toasted tuples is a turn. -/
theorem Turn.toasts {before state : PageCompress σ α} (ready : Ready state)
    (inTupsNum : state.inTupsNum = before.inTupsNum) (last : state.last = before.last)
    (same : state.pending.Perm before.pending)
    (ends : state.current = state.inTupsNum ∨ state.nextBatch = true) :
    Turn chooser before state.handleToasts := by
  rw [PageCompress.handleToasts]
  by_cases toasts : 0 < state.toastTupsNum
  · rw [if_pos toasts]
    exact {
      all := by
        refine ⟨cells state.toastTups 0 state.toastTupsNum, outputOf_refl chooser _, ?_⟩
        exact same
      ready := ⟨ready.inside, ready.waits⟩
      inTupsNum := inTupsNum
      last := last
      some := by
        intro _ none
        have length := congrArg List.length none
        rw [cells_length] at length
        exact absurd length (Nat.ne_of_gt toasts)
      ended := fun ends => Bool.noConfusion ends }
  · rw [if_neg toasts]
    exact {
      all := ⟨[], List.Forall₂.nil, same⟩
      ready := ready
      inTupsNum := inTupsNum
      last := last
      some := fun goes => Bool.noConfusion goes
      ended := fun _ => ⟨Nat.eq_zero_of_not_pos toasts, ends⟩ }

/-- The tuples that wait for the next batch. -/
def PageCompress.waiting (state : PageCompress σ α) (remainBeforeCmpr : Bool) :
    List (HeapTuple α) :=
  if remainBeforeCmpr then cells state.mappedTups 0 state.mappedTupsNum
  else cells state.mappedTups 0 state.cmprTupsNum ++
    cells state.cmprTups state.uncmprTupIdx (state.inTupsNum - state.uncmprTupIdx)

/-- The rows that wait remain. -/
theorem moveRemains_remains {state : PageCompress σ α} {prevToastNum : Nat}
    {remainBeforeCmpr : Bool} (fills : state.current + (state.toastTupsNum - prevToastNum) +
      (state.waiting remainBeforeCmpr).length = state.inTupsNum) :
    (state.moveRemains prevToastNum remainBeforeCmpr).remains = state.waiting remainBeforeCmpr := by
  cases remainBeforeCmpr with
  | true =>
    have waiting : state.waiting true = cells state.mappedTups 0 state.mappedTupsNum := rfl
    rw [waiting, cells_length] at fills
    have width : state.inTupsNum - (state.current + (state.toastTupsNum - prevToastNum)) =
        state.mappedTupsNum := by omega
    rw [waiting]
    show cells (copyCells _ _ _ _ _) (state.current + (state.toastTupsNum - prevToastNum))
      (state.inTupsNum - (state.current + (state.toastTupsNum - prevToastNum))) = _
    rw [width, cells_copyCells]
  | false =>
    have waiting : state.waiting false = cells state.mappedTups 0 state.cmprTupsNum ++
        cells state.cmprTups state.uncmprTupIdx (state.inTupsNum - state.uncmprTupIdx) := rfl
    rw [waiting, length_append, cells_length, cells_length] at fills
    have width : state.inTupsNum - (state.current + (state.toastTupsNum - prevToastNum)) =
        state.cmprTupsNum + (state.inTupsNum - state.uncmprTupIdx) := by omega
    rw [waiting]
    show cells (copyCells _ _ _ _ _) (state.current + (state.toastTupsNum - prevToastNum))
      (state.inTupsNum - (state.current + (state.toastTupsNum - prevToastNum))) = _
    rw [width, cells_add, cells_copyCells, cells_copyCells_outside _ _ _ _ (by omega),
      cells_copyCells]

variable (fillFactor : Nat) (before state : PageCompress σ α)

variable {state}

/-- The end of a batch whose tuples do not fill a page. -/
theorem handleRemains_turn {remainBeforeCmpr : Bool}
    (toasts : List (HeapTuple α)) (ready : Ready before) (batch : SameBatch before state)
    (toastTups : cells state.toastTups 0 state.toastTupsNum =
      cells before.toastTups 0 before.toastTupsNum ++ toasts)
    (split : (toasts ++ state.waiting remainBeforeCmpr).Perm before.remains)
    (empty : state.mappedTupsNum = 0 → state.waiting remainBeforeCmpr = [])
    (lastRaw : state.last = true → remainBeforeCmpr = true) :
    Turn chooser before (state.handleRemains before.toastTupsNum remainBeforeCmpr) := by
  have counted := congrArg List.length toastTups
  rw [length_append, cells_length, cells_length] at counted
  have sized := split.length_eq
  rw [length_append, PageCompress.remains, cells_length] at sized
  have inside := ready.inside
  have number := batch.inTupsNum
  have start := batch.current
  rw [PageCompress.handleRemains]
  by_cases none : state.mappedTupsNum = 0
  · -- Only candidates for toast are left.
    rw [if_pos none]
    rw [empty none, append_nil] at split
    apply Turn.toasts chooser
    · refine ⟨le_rfl, ?_⟩
      rw [batch.last, batch.nextBatch]
      exact ready.waits
    · exact number
    · exact batch.last
    · show (cells state.toastTups 0 state.toastTupsNum ++
        cells state.inTups state.inTupsNum (state.inTupsNum - state.inTupsNum)).Perm _
      rw [toastTups, Nat.sub_self, cells_zero, append_nil]
      exact split.append_left _
    · exact .inl rfl
  · rw [if_neg none]
    by_cases last : state.last = true
    · -- The last batch hands its raw tuples out.
      rw [if_pos last]
      have raw := lastRaw last
      subst raw
      have waiting : state.waiting true = cells state.mappedTups 0 state.mappedTupsNum := rfl
      rw [waiting] at split sized
      rw [cells_length] at sized
      apply Turn.advance chooser before _ before.inTupsNum toasts
        (cells state.mappedTups 0 state.mappedTupsNum) ready inside le_rfl
      · exact ⟨batch.inTups, batch.inTupsNum, rfl, batch.last, batch.nextBatch⟩
      · show state.current + (state.mappedTupsNum + (state.toastTupsNum - before.toastTupsNum)) =
          before.inTupsNum
        lia
      · exact toastTups
      · exact outputOf_refl chooser _
      · exact split
      · intro nil
        have length := congrArg List.length nil
        rw [cells_length] at length
        exact none length
    · -- Otherwise they wait for the next batch, behind the candidates for toast.
      rw [if_neg last]
      have fills : state.current + (state.toastTupsNum - before.toastTupsNum) +
          (state.waiting remainBeforeCmpr).length = state.inTupsNum := by lia
      have moved := moveRemains_remains fills
      have fields : (state.moveRemains before.toastTupsNum remainBeforeCmpr).toastTups =
            state.toastTups ∧
          (state.moveRemains before.toastTupsNum remainBeforeCmpr).toastTupsNum =
            state.toastTupsNum ∧
          (state.moveRemains before.toastTupsNum remainBeforeCmpr).inTupsNum = state.inTupsNum ∧
          (state.moveRemains before.toastTupsNum remainBeforeCmpr).last = state.last ∧
          (state.moveRemains before.toastTupsNum remainBeforeCmpr).nextBatch = true ∧
          (state.moveRemains before.toastTupsNum remainBeforeCmpr).current =
            state.current + (state.toastTupsNum - before.toastTupsNum) := by
        cases remainBeforeCmpr <;> exact ⟨rfl, rfl, rfl, rfl, rfl, rfl⟩
      obtain ⟨sameToasts, sameToastsNum, sameNum, sameLast, waits, begins⟩ := fields
      apply Turn.toasts chooser
      · refine ⟨?_, ?_⟩
        · lia
        · rw [sameLast]
          exact fun isLast => absurd isLast last
      · rw [sameNum, number]
      · rw [sameLast, batch.last]
      · rw [PageCompress.pending, moved, sameToasts, sameToastsNum,
          toastTups, append_assoc]
        exact split.append_left _
      · exact .inr waits

theorem perm_of_parts {first second third fourth left right : List (HeapTuple α)}
    (begins : (first ++ third).Perm left) (ends : (second ++ fourth).Perm right) :
    ((first ++ second) ++ (third ++ fourth)).Perm (left ++ right) := by
  have swapped : ((first ++ second) ++ (third ++ fourth)).Perm
      ((first ++ third) ++ (second ++ fourth)) := by
    rw [append_assoc, append_assoc]
    apply List.Perm.append_left
    rw [← append_assoc, ← append_assoc]
    exact perm_append_comm.append_right fourth
  exact swapped.trans (begins.append ends)

variable (state : PageCompress σ α) (form : HeapTuple α → Option (HeapTuple α))

/-- The raw tuples are put out. -/
theorem outputRawTupsAfterCmpr_perm (put left : List (HeapTuple α)) (nToasts : Nat)
    (dispatched : Dispatched form state put)
    (behind : cells state.mappedTups put.length left.length = left)
    (counted : state.mappedTupsNum = put.length + left.length) :
    (state.outputRawTupsAfterCmpr nToasts).outputTups.Perm (put ++ left) := by
  have copied : (if 0 < state.inTupsNum - state.uncmprTupIdx then
      copyCells state.mappedTups state.cmprTupsNum state.cmprTups state.uncmprTupIdx
        (state.inTupsNum - state.uncmprTupIdx) else state.mappedTups) =
      copyCells state.mappedTups state.cmprTupsNum state.cmprTups state.uncmprTupIdx
        (state.inTupsNum - state.uncmprTupIdx) := by
    split
    · rfl
    · funext index
      rw [copyCells, if_neg (by omega)]
  have place := dispatched.count
  show (cells (if 0 < state.inTupsNum - state.uncmprTupIdx then _ else _) 0
    state.mappedTupsNum).Perm (put ++ left)
  rw [copied, counted, ← place, cells_add, cells_add, Nat.zero_add, Nat.zero_add,
    cells_copyCells_outside _ _ _ _ (by omega), cells_copyCells,
    cells_copyCells_outside _ _ _ _ (by omega), place, behind]
  exact dispatched.all.append_right left

/-- The compressed tuples are put out. -/
theorem outputCmprTups_outputTups {processed : List (HeapTuple α)} (nToasts : Nat)
    (room : processed.length ≤ state.inTupsNum) (dispatched : Dispatched form state processed) :
    (state.outputCmprTups nToasts).outputTups = cells state.cmprTups 0 state.cmprTupsNum ++
          cells state.cmprTups state.uncmprTupIdx (state.inTupsNum - state.uncmprTupIdx) ∧
      (state.outputCmprTups nToasts).current = state.current + (processed.length + nToasts) := by
  have count := dispatched.count
  rw [PageCompress.outputCmprTups]
  by_cases none : state.inTupsNum - state.uncmprTupIdx = 0
  · rw [none, cells_zero, append_nil]
    exact ⟨rfl, by lia⟩
  · rw [if_neg none]
    by_cases meet : state.cmprTupsNum = state.uncmprTupIdx
    · rw [if_pos meet]
      have whole : state.inTupsNum =
          state.cmprTupsNum + (state.inTupsNum - state.uncmprTupIdx) := by omega
      refine ⟨?_, by lia⟩
      conv_lhs => rw [whole]
      rw [cells_add, Nat.zero_add]
      rw [meet]
    · rw [if_neg meet]
      refine ⟨?_, by lia⟩
      rw [cells_add, Nat.zero_add, cells_copyCells, cells_copyCells_outside _ _ _ _ (by omega)]

/-- A page that follows the collection is a turn. -/
theorem followed_turn {full : Bool} (stop : Nat)
    {toasts processed : List (HeapTuple α)} {form : HeapTuple α → Option (HeapTuple α)}
    (chosen : ∀ raw output, form raw = some output → OutputOf chooser output raw)
    (ready : Ready before) (batch : SameBatch before state)
    (low : before.current ≤ stop) (high : stop ≤ before.inTupsNum)
    (toastTups : cells state.toastTups 0 state.toastTupsNum =
      cells before.toastTups 0 before.toastTupsNum ++ toasts)
    (dispatched : Dispatched form state processed) (split : (toasts ++ processed).Perm
      (cells before.inTups before.current (stop - before.current)))
    (some : processed ≠ []) (sampled : state.mappedTupsNum ≠ 0)
    (ends : full = false → stop = before.inTupsNum) : Turn chooser before
      (if full || state.last then
        (true, state.outputCmprTups (state.toastTupsNum - before.toastTupsNum))
      else state.resetCmprMeta.handleRemains before.toastTupsNum false) := by
  have counted := congrArg List.length toastTups
  rw [length_append, cells_length, cells_length] at counted
  have sized := split.length_eq
  rw [length_append, cells_length] at sized
  have number := batch.inTupsNum
  have start := batch.current
  by_cases out : (full || state.last) = true
  · rw [if_pos out]
    obtain ⟨output, current⟩ := outputCmprTups_outputTups state form
      (state.toastTupsNum - before.toastTupsNum) (by lia) dispatched
    apply Turn.advance chooser before _ stop toasts (cells state.mappedTups 0 state.cmprTupsNum ++
        cells state.cmprTups state.uncmprTupIdx (state.inTupsNum - state.uncmprTupIdx))
      ready low high
    · exact ⟨batch.inTups, batch.inTupsNum, rfl, batch.last, batch.nextBatch⟩
    · lia
    · exact toastTups
    · rw [output]
      apply rel_append _ (outputOf_refl chooser _)
      exact dispatched.forms.imp fun cmpr raw formed => chosen raw cmpr formed
    · exact (dispatched.all.append_left toasts).trans split
    · intro nil
      have all := dispatched.all
      rw [nil] at all
      exact some (nil_perm.mp all)
  · rw [if_neg out]
    simp only [Bool.or_eq_true, not_or, Bool.not_eq_true] at out
    apply handleRemains_turn chooser before toasts ready
    · exact ⟨batch.inTups, batch.inTupsNum, batch.current, batch.last, batch.nextBatch⟩
    · exact toastTups
    · rw [ends out.1] at split
      exact (dispatched.all.append_left toasts).trans split
    · exact fun none => absurd none sampled
    · intro last
      rw [show state.resetCmprMeta.last = state.last from rfl, out.2] at last
      exact Bool.noConfusion last

/-- The part of a call behind the choice of the compression. -/
theorem compressChosen_turn (blksize stop : Nat)
    (toasts sample : List (HeapTuple α)) (form : HeapTuple α → Option (HeapTuple α))
    (chosen : ∀ raw output, form raw = some output → OutputOf chooser output raw)
    (ready : Ready before) (batch : SameBatch before state)
    (low : before.current ≤ stop) (high : stop ≤ before.inTupsNum)
    (toastTups : cells state.toastTups 0 state.toastTupsNum =
      cells before.toastTups 0 before.toastTupsNum ++ toasts)
    (mappedTups : cells state.mappedTups 0 state.mappedTupsNum = sample)
    (unpacked : state.cmprTupsNum = 0) (untouched : state.uncmprTupIdx = state.inTupsNum)
    (split : (toasts ++ sample).Perm (cells before.inTups before.current (stop - before.current)))
    (some : sample ≠ []) :
    Turn chooser before (state.compressChosen blksize before.toastTupsNum sample form) := by
  have number := batch.inTupsNum
  have counted := congrArg List.length toastTups
  rw [length_append, cells_length, cells_length] at counted
  have mapped := congrArg List.length mappedTups
  rw [cells_length] at mapped
  have sized := split.length_eq
  rw [length_append, cells_length] at sized
  have begins : Dispatched form state [] := {
    low := le_of_eq untouched
    count := by
      rw [unpacked, untouched, Nat.sub_self]
      rfl
    forms := by
      rw [unpacked]
      exact List.Forall₂.nil
    all := by
      rw [unpacked, untouched, Nat.sub_self]
      exact List.Perm.refl [] }
  obtain ⟨put, left, parts, dispatched, frame, behind, ends⟩ := compressMapped_dispatched form
    blksize 0 (maxAlign sizeOfHeapPageHeaderData + maxAlign state.cmprHeaderSize) [] sample state
    begins rfl (by lia) (by rw [← mapped, mappedTups])
  rw [Nat.zero_add] at behind
  rw [PageCompress.compressChosen]
  obtain ⟨sampled, isSampled⟩ : ∃ sampled, sampled = compressMapped form blksize sample 0
    (maxAlign sizeOfHeapPageHeaderData + maxAlign state.cmprHeaderSize) state := ⟨_, rfl⟩
  rw [← isSampled] at dispatched frame behind ends ⊢
  have toastsSame : sampled.state.toastTupsNum - before.toastTupsNum = toasts.length := by
    rw [frame.toastTupsNum]
    lia
  have toastTupsSame : cells sampled.state.toastTups 0 sampled.state.toastTupsNum =
      cells before.toastTups 0 before.toastTupsNum ++ toasts := by
    rw [frame.toastTups, frame.toastTupsNum, toastTups]
  have batchSampled := SameBatch.trans before state sampled.state batch frame.batch
  have length := congrArg List.length parts
  rw [length_append] at length
  by_cases full : sampled.fillOnePage = true
  · -- The compressed forms take more space than the tuples: these are handed out raw.
    rw [if_pos full]
    have output := outputRawTupsAfterCmpr_perm sampled.state.resetCmprMeta form put left
      (sampled.state.toastTupsNum - before.toastTupsNum)
      ⟨dispatched.low, dispatched.count, dispatched.forms, dispatched.all⟩ behind (by
        show sampled.state.mappedTupsNum = _
        rw [frame.mappedTupsNum]
        lia)
    rw [← parts] at output
    apply Turn.advance chooser before _ stop toasts _ ready low high
    · exact ⟨batchSampled.inTups, batchSampled.inTupsNum, rfl, batchSampled.last,
        batchSampled.nextBatch⟩
    · show sampled.state.current + (sampled.state.mappedTupsNum +
        (sampled.state.toastTupsNum - before.toastTupsNum)) = stop
      rw [batchSampled.current, frame.mappedTupsNum]
      grind
    · exact toastTupsSame
    · exact outputOf_refl chooser _
    · exact (output.append_left toasts).trans split
    · intro nil
      rw [nil] at output
      exact some (nil_perm.mp output)
  · rw [if_neg full]
    have all : left = [] := ends (Bool.eq_false_iff.mpr full)
    rw [all, append_nil] at parts
    rw [← parts] at dispatched
    have row : sampled.state.current + sampled.state.mappedTupsNum +
        (sampled.state.toastTupsNum - before.toastTupsNum) = stop := by
      rw [batchSampled.current, frame.mappedTupsNum]
      grind
    rw [row]
    obtain ⟨behindPage, after, within, followed, onPage, atEnd⟩ := compressFollowing_dispatched
      form blksize (sampled.state.inTupsNum - stop) stop sampled.size sample sampled.state
      dispatched (by
        rw [batchSampled.inTupsNum]
        grind)
    rw [batchSampled.inTups] at followed onPage
    have numberSampled := batchSampled.inTupsNum
    have width : behindPage - before.current =
        (stop - before.current) + (behindPage - stop) := by grind
    have place : before.current + (stop - before.current) = stop := by grind
    apply followed_turn chooser before _ behindPage chosen ready
      (SameBatch.trans _ _ _ batchSampled followed.batch) (by lia) (by lia) _ onPage
    · rw [width, cells_add, place]
      exact perm_of_parts split (filter_append_perm isToastTuple _)
    · intro nil
      exact some (append_eq_nil_iff.mp nil).1
    · rw [followed.mappedTupsNum, frame.mappedTupsNum, mapped]
      exact fun none => some (eq_nil_of_length_eq_zero none)
    · intro unfilled
      have reached := atEnd unfilled
      grind
    · rw [followed.toastTups, toastTupsSame, append_assoc]

/-- The next tuple that is no candidate for toast fits an empty page, or the tuples that remain
wait for the next batch. -/
def PageCompress.Placeable (fillFactor : Nat) (state : PageCompress σ α) : Prop :=
  state.nextBatch = true ∨
    ∀ tuple, state.remains.find? (fun tuple => !isToastTuple tuple) = some tuple →
      sizeOfHeapPageHeaderData + getTupleSpace tuple ≤ targetPageUsage fillFactor

/-- When no plain row is taken. -/
theorem collectRows_taken (blksize remaining row size : Nat) (before after : PageCompress σ α)
    (stop : Nat) (ran : collectRows blksize remaining row size before = (after, stop)) :
    (stop < row + remaining ∧
        ((cells before.inTups row (stop - row)).filter fun tuple => !isToastTuple tuple) = []) ↔
      ∃ tuple, (cells before.inTups row remaining).find? (fun tuple => !isToastTuple tuple) =
        some tuple ∧ blksize < size + getTupleSpace tuple := by
  induction remaining generalizing row size before with
  | zero =>
    cases ran
    simp
  | succ remaining ih =>
    simp only [collectRows] at ran
    rw [cells_succ, find?_cons]
    by_cases toast : isToastTuple (before.inTups row) = true
    · rw [if_pos toast] at ran
      obtain ⟨low, _, _⟩ := collectRows_collected _ _ _ _ _ _ _ ran
      have width : stop - row = stop - (row + 1) + 1 := by lia
      have total : row + (remaining + 1) = row + 1 + remaining := by omega
      rw [width, total, cells_succ, filter_cons, toast]
      exact ih (row + 1) size (before.addToast (before.inTups row)) ran
    · rw [if_neg toast] at ran
      rw [Bool.not_eq_true] at toast
      rw [toast]
      simp only [Bool.not_false, Option.some.injEq, exists_eq_left']
      by_cases full : blksize < size + getTupleSpace (before.inTups row)
      · rw [if_pos full] at ran
        cases ran
        simp [full]
      · rw [if_neg full] at ran
        obtain ⟨low, _, _⟩ := collectRows_collected _ _ _ _ _ _ _ ran
        have width : stop - row = stop - (row + 1) + 1 := by lia
        rw [width, cells_succ, filter_cons, if_pos (by simp [toast])]
        simp only [reduceCtorEq, full, and_false]

/-- A page after its rows are collected. -/
theorem compressOnePage_collected {stop : Nat}
    (goes : ¬(before.current = before.inTupsNum ∨ before.nextBatch = true))
    (ran : collectRows (targetPageUsage fillFactor) (before.inTupsNum - before.current)
      before.current sizeOfHeapPageHeaderData before.resetPerPage = (state, stop))
    {sample : List (HeapTuple α)}
    (sampled : sample = cells state.mappedTups 0 state.mappedTupsNum) {chosen : σ × Choice α}
    (choice : chosen = chooser.choose state.chooser sample) :
    before.compressOnePage chooser fillFactor =
      if stop = before.inTupsNum then state.resetCmprMeta.handleRemains before.toastTupsNum true
      else if chosen.2.cmprHeaderSize = 0 then
        (true, { state with
          chooser := chosen.1
          cmprHeaderSize := chosen.2.cmprHeaderSize }.outputRawTupsBeforeCmpr
            (state.toastTupsNum - before.toastTupsNum))
      else { state with
          chooser := chosen.1
          cmprHeaderSize := chosen.2.cmprHeaderSize }.compressChosen (targetPageUsage fillFactor)
            before.toastTupsNum sample chosen.2.formCmprsTuple := by
  rw [choice, sampled, PageCompress.compressOnePage]
  rw [if_neg (show ¬(before.resetPerPage.current = before.resetPerPage.inTupsNum ∨
    before.resetPerPage.nextBatch = true) from goes)]
  rw [show collectRows (targetPageUsage fillFactor)
    (before.resetPerPage.inTupsNum - before.resetPerPage.current) before.resetPerPage.current
      sizeOfHeapPageHeaderData before.resetPerPage = (state, stop) from ran]
  rfl

/-- A call on a state whose next tuple fits hands tuples out and keeps the others. -/
theorem compressOnePage_turn {before : PageCompress σ α} (ready : Ready before)
    (placeable : before.Placeable fillFactor) :
    Turn chooser before (before.compressOnePage chooser fillFactor) := by
  have inside := ready.inside
  by_cases ends : before.current = before.inTupsNum ∨ before.nextBatch = true
  · rw [PageCompress.compressOnePage]
    rw [if_pos (show before.resetPerPage.current = before.resetPerPage.inTupsNum ∨
      before.resetPerPage.nextBatch = true from ends)]
    exact Turn.toasts chooser ⟨inside, ready.waits⟩ rfl rfl (List.Perm.refl _) ends
  · obtain ⟨state, stop, ran⟩ : ∃ state stop, collectRows (targetPageUsage fillFactor)
        (before.inTupsNum - before.current) before.current sizeOfHeapPageHeaderData
        before.resetPerPage = (state, stop) := ⟨_, _, rfl⟩
    obtain ⟨chosen, isChosen⟩ : ∃ chosen, chosen = chooser.choose state.chooser
      (cells state.mappedTups 0 state.mappedTupsNum) := ⟨_, rfl⟩
    rw [compressOnePage_collected chooser fillFactor before state ends ran rfl isChosen]
    obtain ⟨low, high, collected⟩ := collectRows_collected _ _ _ _ _ _ _ ran
    have batch : SameBatch before state :=
      SameBatch.trans before before.resetPerPage state ⟨rfl, rfl, rfl, rfl, rfl⟩ collected.batch
    have mapped : cells state.mappedTups 0 state.mappedTupsNum =
        (cells before.inTups before.current (stop - before.current)).filter
          fun tuple => !isToastTuple tuple := collected.mappedTups
    have toastTups : cells state.toastTups 0 state.toastTupsNum =
        cells before.toastTups 0 before.toastTupsNum ++
          (cells before.inTups before.current (stop - before.current)).filter isToastTuple :=
      collected.toastTups
    have split := filter_append_perm isToastTuple
      (cells before.inTups before.current (stop - before.current))
    rw [← mapped] at split
    by_cases all : stop = before.inTupsNum
    · rw [if_pos all]
      apply handleRemains_turn chooser before _ ready
      · exact ⟨batch.inTups, batch.inTupsNum, batch.current, batch.last, batch.nextBatch⟩
      · exact toastTups
      · rw [PageCompress.remains, ← all]
        exact split
      · intro none
        show cells state.mappedTups 0 state.mappedTupsNum = []
        rw [show state.mappedTupsNum = 0 from none, cells_zero]
      · exact fun _ => rfl
    · rw [if_neg all]
      have some : cells state.mappedTups 0 state.mappedTupsNum ≠ [] := by
        rw [mapped]
        intro none
        obtain ⟨tuple, first, large⟩ := (collectRows_taken _ _ _ _ _ _ _ ran).mp ⟨by omega, none⟩
        obtain waits | fits := placeable
        · exact ends (.inr waits)
        · exact absurd (fits tuple first) (Nat.not_le.mpr large)
      by_cases headless : chosen.2.cmprHeaderSize = 0
      · rw [if_pos headless]
        have counted := congrArg List.length toastTups
        rw [length_append, cells_length, cells_length] at counted
        have sized := split.length_eq
        rw [length_append, cells_length, cells_length] at sized
        have begins := batch.current
        apply Turn.advance chooser before _ stop _ (cells state.mappedTups 0 state.mappedTupsNum)
          ready low (by lia)
        · exact ⟨batch.inTups, batch.inTupsNum, rfl, batch.last, batch.nextBatch⟩
        · show state.current + (state.mappedTupsNum +
            (state.toastTupsNum - before.toastTupsNum)) = stop
          lia
        · exact toastTups
        · exact outputOf_refl chooser _
        · exact split
        · exact some
      · rw [if_neg headless]
        apply compressChosen_turn chooser before { state with
          chooser := chosen.1
          cmprHeaderSize := chosen.2.cmprHeaderSize } (targetPageUsage fillFactor) stop _ _
          chosen.2.formCmprsTuple _ ready _ low (by lia) toastTups rfl
          collected.unpacked _ split some
        · intro raw output formed
          rw [isChosen] at formed
          exact .inr ⟨_, _, formed⟩
        · exact ⟨batch.inTups, batch.inTupsNum, batch.current, batch.last, batch.nextBatch⟩
        · rw [collected.untouched, batch.inTupsNum]
          rfl

/-- A page on which no row fits is put out empty. -/
theorem compressOnePage_stuck {before : PageCompress σ α}
    (stuck : ¬before.Placeable fillFactor) : (before.compressOnePage chooser fillFactor).1 = true ∧
      (before.compressOnePage chooser fillFactor).2.outputTups = [] := by
  simp only [PageCompress.Placeable, not_or, not_forall, Nat.not_le] at stuck
  obtain ⟨goes, tuple, first, large⟩ := stuck
  have ends : ¬(before.current = before.inTupsNum ∨ before.nextBatch = true) := by
    rintro (none | waits)
    · rw [PageCompress.remains, none, Nat.sub_self] at first
      cases first
    · exact goes waits
  obtain ⟨state, stop, ran⟩ : ∃ state stop, collectRows (targetPageUsage fillFactor)
      (before.inTupsNum - before.current) before.current sizeOfHeapPageHeaderData
      before.resetPerPage = (state, stop) := ⟨_, _, rfl⟩
  obtain ⟨low, high, collected⟩ := collectRows_collected _ _ _ _ _ _ _ ran
  obtain ⟨early, none⟩ := (collectRows_taken _ _ _ _ _ _ _ ran).mpr ⟨tuple, first, large⟩
  have empty : cells state.mappedTups 0 state.mappedTupsNum = [] :=
    collected.mappedTups.trans none
  have headless := chooser.unsampled state.chooser
  rw [← empty] at headless
  rw [compressOnePage_collected chooser fillFactor before state ends ran rfl rfl,
    if_neg (by omega), if_pos headless]
  exact ⟨rfl, empty⟩

end Turns

end OpenGauss.RowCompress
