import OpenGauss.RowCompress.PageTuples

/-!
# Compressing batches of tuples

The caller of `CompressOnePage` gives one batch after the other, puts the remaining tuples of a
batch in front of the next and calls until no page is handed out. The module proves that this ends
with every tuple handed out once, and no page empty, exactly if every call on the way finds a tuple
that fits an empty page, with the space that the fill factor leaves.
-/

namespace OpenGauss.RowCompress

open List OpenGauss.Base

section Batches

variable {σ α : Type} (chooser : Chooser σ α) (fillFactor : Nat)

/-- A compressor before its first batch. -/
def newPageCompress (memory : σ) (unset : HeapTuple α) : PageCompress σ α where
  chooser := memory
  inTups := fun _ => unset
  inTupsNum := 0
  current := 0
  last := false
  toastTups := fun _ => unset
  toastTupsNum := 0
  mappedTups := fun _ => unset
  mappedTupsNum := 0
  cmprTups := fun _ => unset
  cmprTupsNum := 0
  uncmprTupIdx := 0
  nextBatch := false
  cmprHeaderSize := 0
  outputTups := []

/-- The next batch, behind the tuples that remain. -/
def PageCompress.nextTuples (state : PageCompress σ α) (batch : List (HeapTuple α))
    (rest : List (List (HeapTuple α))) : PageCompress σ α :=
  state.setBatchTuples (state.remains ++ batch) rest.isEmpty

/-- The states in which `CompressOnePage` is called, with the batches that follow. -/
inductive Reached (start : PageCompress σ α) (batches : List (List (HeapTuple α))) :
    PageCompress σ α → List (List (HeapTuple α)) → Prop
  | first (batch : List (HeapTuple α)) (rest : List (List (HeapTuple α)))
      (given : batches = batch :: rest) : Reached start batches (start.nextTuples batch rest) rest
  | page (state : PageCompress σ α) (rest : List (List (HeapTuple α)))
      (reached : Reached start batches state rest)
      (goes : (state.compressOnePage chooser fillFactor).1 = true) :
      Reached start batches (state.compressOnePage chooser fillFactor).2 rest
  | next (state : PageCompress σ α) (batch : List (HeapTuple α))
      (rest : List (List (HeapTuple α))) (reached : Reached start batches state (batch :: rest))
      (ends : (state.compressOnePage chooser fillFactor).1 = false) :
      Reached start batches
        ((state.compressOnePage chooser fillFactor).2.nextTuples batch rest) rest

/-- The calls end, no page is empty, and every tuple of the batches is handed out once, as it is or
in a compressed form. -/
def HandsOutAll (start : PageCompress σ α) (batches : List (List (HeapTuple α))) : Prop :=
  ∃ calls pages final,
    compressBatches chooser fillFactor calls batches start = some (pages, final) ∧
    (∀ page ∈ pages, page ≠ []) ∧
    ∃ originals, List.Forall₂ (OutputOf chooser) pages.flatten originals ∧
      originals.Perm batches.flatten

variable (calls more : Nat) (start : PageCompress σ α) (batches : List (List (HeapTuple α)))
  (state : PageCompress σ α) (tups : List (HeapTuple α)) (isLast : Bool)
  (result : List (List (HeapTuple α)) × PageCompress σ α)

theorem setBatchTuples_pending : (state.setBatchTuples tups isLast).pending = tups := by
  show cells (fun index => tups[index]?.getD (state.inTups index)) 0 (tups.length - 0) = tups
  apply ext_getElem
  · rw [cells_length, Nat.sub_zero]
  · intro index inCells inTups
    simp [cells, inTups]

theorem setBatchTuples_ready : Ready (state.setBatchTuples tups isLast) :=
  ⟨Nat.zero_le _, fun _ => rfl⟩

/-- More calls do not change the pages. -/
theorem compressPages_mono (enough : calls ≤ more)
    (done : compressPages chooser fillFactor calls state = some result) :
    compressPages chooser fillFactor more state = some result := by
  induction calls generalizing more state result with
  | zero => cases done
  | succ calls ih =>
    obtain ⟨others, value⟩ : ∃ others, more = others + 1 := ⟨more - 1, by omega⟩
    subst value
    simp only [compressPages] at done ⊢
    by_cases goes : (state.compressOnePage chooser fillFactor).1 = true
    · rw [if_pos goes] at done ⊢
      obtain ⟨rest, remaining, value⟩ := Option.map_eq_some_iff.mp done
      rw [ih others _ rest (by omega) remaining]
      exact congrArg some value
    · rw [if_neg goes] at done ⊢
      exact done

theorem compressBatches_mono (enough : calls ≤ more)
    (done : compressBatches chooser fillFactor calls batches state = some result) :
    compressBatches chooser fillFactor more batches state = some result := by
  induction batches generalizing state result with
  | nil => exact done
  | cons batch rest ih =>
    simp only [compressBatches] at done ⊢
    obtain ⟨pages, first, others⟩ := Option.bind_eq_some_iff.mp done
    obtain ⟨last, remaining, value⟩ := Option.map_eq_some_iff.mp others
    rw [compressPages_mono chooser fillFactor calls more _ pages enough first, Option.bind_some,
      ih pages.2 last remaining]
    exact congrArg some value

/-- A batch that is done. -/
structure BatchDone (start : PageCompress σ α) (batches rest : List (List (HeapTuple α)))
    (before : PageCompress σ α) (pages : List (List (HeapTuple α))) (final : PageCompress σ α) :
    Prop where
  some : ∀ page ∈ pages, page ≠ []
  all : ∃ originals, List.Forall₂ (OutputOf chooser) pages.flatten originals ∧
    (originals ++ final.remains).Perm before.pending
  complete : before.last = true → final.remains = []
  follows : ∀ batch others, rest = batch :: others →
    Reached chooser fillFactor start batches (final.nextTuples batch others) others

/-- A batch ends if all its calls find a tuple that fits. -/
theorem compressPages_done (batches rest : List (List (HeapTuple α)))
    (placeable : ∀ state others, Reached chooser fillFactor start batches state others →
      state.Placeable fillFactor)
    (bound : Nat) (before : PageCompress σ α) (few : before.pending.length < bound)
    (ready : Ready before) (reached : Reached chooser fillFactor start batches before rest) :
    ∃ pages final, compressPages chooser fillFactor bound before = some (pages, final) ∧
      BatchDone chooser fillFactor start batches rest before pages final := by
  induction bound generalizing before with
  | zero => exact absurd few (Nat.not_lt_zero _)
  | succ bound ih =>
    have turn := compressOnePage_turn chooser fillFactor ready (placeable before rest reached)
    obtain ⟨originals, outputs, split⟩ := turn.all
    simp only [compressPages]
    cases goes : (before.compressOnePage chooser fillFactor).1 with
    | false =>
      rw [goes] at outputs
      cases outputs
      obtain ⟨noToasts, ends⟩ := turn.ended goes
      have remains : (before.compressOnePage chooser fillFactor).2.pending =
          (before.compressOnePage chooser fillFactor).2.remains := by
        rw [PageCompress.pending, noToasts, cells_zero, nil_append]
      refine ⟨[], _, rfl, ?_⟩
      exact {
        some := fun page none => absurd none not_mem_nil
        all := by
          rw [remains] at split
          exact ⟨[], List.Forall₂.nil, split⟩
        complete := by
          intro last
          have isLast := turn.last.trans last
          obtain reachedEnd | waits := ends
          · rw [PageCompress.remains, reachedEnd, Nat.sub_self, cells_zero]
          · rw [turn.ready.waits isLast] at waits
            exact Bool.noConfusion waits
        follows := by
          intro batch others more
          rw [more] at reached
          exact Reached.next before batch others reached goes }
    | true =>
      rw [goes] at outputs
      have some := turn.some goes
      have counted := outputs.length_eq
      have sized := split.length_eq
      rw [length_append, ← counted] at sized
      have positive : 0 < (before.compressOnePage chooser fillFactor).2.outputTups.length :=
        length_pos_iff.mpr some
      obtain ⟨pages, final, run, done⟩ := ih (before.compressOnePage chooser fillFactor).2 (by
          simp only [if_true] at sized
          lia)
        turn.ready (Reached.page before rest reached goes)
      rw [run]
      refine ⟨_, final, rfl, ?_⟩
      obtain ⟨others, outputsRest, splitRest⟩ := done.all
      exact {
        some := by
          intro page member
          obtain same | later := mem_cons.mp member
          · rw [same]
            exact some
          · exact done.some page later
        all := by
          refine ⟨originals ++ others, ?_, ?_⟩
          · rw [flatten_cons]
            exact rel_append outputs outputsRest
          · rw [append_assoc]
            exact (splitRest.append_left originals).trans split
        complete := fun last => done.complete (turn.last.trans last)
        follows := done.follows }

variable {batches}

/-- All batches are handed out. -/
theorem compressBatches_done
    (placeable : ∀ state others, Reached chooser fillFactor start batches state others →
      state.Placeable fillFactor) (todo : List (List (HeapTuple α))) (before : PageCompress σ α)
    (follows : ∀ batch others, todo = batch :: others →
      Reached chooser fillFactor start batches (before.nextTuples batch others) others) :
    ∃ calls pages final,
      compressBatches chooser fillFactor calls todo before = some (pages, final) ∧
      (∀ page ∈ pages, page ≠ []) ∧
      (∃ originals, List.Forall₂ (OutputOf chooser) pages.flatten originals ∧
        (originals ++ final.remains).Perm (before.remains ++ todo.flatten)) ∧
      (todo ≠ [] → final.remains = []) := by
  induction todo generalizing before with
  | nil =>
    refine ⟨0, [], before, rfl, fun page none => absurd none not_mem_nil, ?_, ?_⟩
    · refine ⟨[], List.Forall₂.nil, ?_⟩
      rw [flatten_nil, append_nil]
      exact List.Perm.refl _
    · exact fun some => absurd rfl some
  | cons batch rest ih =>
    obtain ⟨pages, middle, run, done⟩ := compressPages_done chooser fillFactor start batches rest
      placeable _ (before.nextTuples batch rest) (Nat.lt_succ_self _)
      (setBatchTuples_ready before _ _) (follows batch rest rfl)
    obtain ⟨calls, more, final, runMore, someMore, ⟨others, outputsMore, splitMore⟩, complete⟩ :=
      ih middle done.follows
    obtain ⟨originals, outputs, split⟩ := done.all
    rw [PageCompress.nextTuples, setBatchTuples_pending] at split
    refine ⟨max ((before.nextTuples batch rest).pending.length + 1) calls, pages ++ more, final,
      ?_, ?_, ⟨originals ++ others, ?_, ?_⟩, ?_⟩
    · have first := compressPages_mono chooser fillFactor _ _ _ _
        (Nat.le_max_left ((before.nextTuples batch rest).pending.length + 1) calls) run
      have second := compressBatches_mono chooser fillFactor _ _ _ _ _
        (Nat.le_max_right ((before.nextTuples batch rest).pending.length + 1) calls) runMore
      rw [compressBatches, ← PageCompress.nextTuples, first, Option.bind_some, second]
      rfl
    · intro page member
      obtain here | later := mem_append.mp member
      · exact done.some page here
      · exact someMore page later
    · rw [flatten_append]
      exact rel_append outputs outputsMore
    · rw [flatten_cons, append_assoc, ← append_assoc before.remains]
      apply (splitMore.append_left originals).trans
      rw [← append_assoc]
      exact split.append_right _
    · intro _
      by_cases last : rest = []
      · have nothing := done.complete (by rw [last]; rfl)
        rw [last] at runMore
        cases runMore
        exact nothing
      · exact complete last

/-- The calls from a state on end without an empty page. -/
def GoesOn (state : PageCompress σ α) (rest : List (List (HeapTuple α))) : Prop :=
  ∃ calls pages middle more final,
    compressPages chooser fillFactor calls state = some (pages, middle) ∧
    compressBatches chooser fillFactor calls rest middle = some (more, final) ∧
    (∀ page ∈ pages, page ≠ []) ∧ ∀ page ∈ more, page ≠ []

variable {chooser fillFactor}

theorem goesOn_of_batches {calls : Nat} {before final : PageCompress σ α}
    {batch : List (HeapTuple α)} {rest pages : List (List (HeapTuple α))}
    (run : compressBatches chooser fillFactor calls (batch :: rest) before = some (pages, final))
    (some : ∀ page ∈ pages, page ≠ []) :
    GoesOn chooser fillFactor (before.nextTuples batch rest) rest := by
  obtain ⟨first, runFirst, others⟩ := Option.bind_eq_some_iff.mp run
  obtain ⟨more, runMore, value⟩ := Option.map_eq_some_iff.mp others
  cases value
  refine ⟨calls, first.1, first.2, more.1, more.2, runFirst, runMore, ?_, ?_⟩
  · exact fun page member => some page (mem_append_left _ member)
  · exact fun page member => some page (mem_append_right _ member)

theorem placeable_of_goesOn {rest : List (List (HeapTuple α))}
    (goesOn : GoesOn chooser fillFactor state rest) : state.Placeable fillFactor := by
  by_contra stuck
  obtain ⟨goes, nothing⟩ := compressOnePage_stuck chooser fillFactor stuck
  obtain ⟨calls, pages, middle, _, _, run, _, some, _⟩ := goesOn
  cases calls with
  | zero => cases run
  | succ calls =>
    simp only [compressPages] at run
    rw [if_pos goes] at run
    obtain ⟨others, _, value⟩ := Option.map_eq_some_iff.mp run
    cases value
    exact some _ mem_cons_self nothing

/-- A page that is reached goes on. -/
theorem reached_goesOn
    (handed : HandsOutAll chooser fillFactor start batches) {state : PageCompress σ α}
    {rest : List (List (HeapTuple α))}
    (reached : Reached chooser fillFactor start batches state rest) :
    Ready state ∧ GoesOn chooser fillFactor state rest := by
  induction reached with
  | first batch rest given =>
    obtain ⟨calls, pages, final, run, some, _⟩ := handed
    rw [given] at run
    exact ⟨setBatchTuples_ready _ _ _, goesOn_of_batches run some⟩
  | page state rest _ goes ih =>
    obtain ⟨ready, goesOn⟩ := ih
    have turn := compressOnePage_turn chooser fillFactor ready (placeable_of_goesOn state goesOn)
    refine ⟨turn.ready, ?_⟩
    obtain ⟨calls, pages, middle, more, final, run, runMore, some, someMore⟩ := goesOn
    cases calls with
    | zero => cases run
    | succ calls =>
      simp only [compressPages] at run
      rw [if_pos goes] at run
      obtain ⟨others, runOthers, value⟩ := Option.map_eq_some_iff.mp run
      cases value
      refine ⟨calls + 1, others.1, others.2, more, final, ?_, runMore, ?_, someMore⟩
      · exact compressPages_mono chooser fillFactor calls (calls + 1) _ _ (Nat.le_succ calls)
          runOthers
      · exact fun page member => some page (mem_cons_of_mem _ member)
  | next state batch rest _ ends ih =>
    obtain ⟨_, calls, pages, middle, more, final, run, runMore, _, someMore⟩ := ih
    refine ⟨setBatchTuples_ready _ _ _, ?_⟩
    cases calls with
    | zero => cases run
    | succ calls =>
      simp only [compressPages] at run
      rw [if_neg (by simp [ends])] at run
      cases run
      exact goesOn_of_batches runMore someMore

variable (chooser fillFactor)

/-- Whatever the fill factor, the batches and the choice of the compression are: the calls end, no
page is empty and every tuple is handed out once exactly if every call on the way is made in a state
whose next tuple that is no candidate for toast fits an empty page. -/
theorem batches_handed_out_once (memory : σ) (unset : HeapTuple α)
    (batches : List (List (HeapTuple α))) :
    HandsOutAll chooser fillFactor (newPageCompress memory unset) batches ↔ ∀ state rest,
        Reached chooser fillFactor (newPageCompress memory unset) batches state rest →
          state.Placeable fillFactor := by
  constructor
  · intro handed state rest reached
    obtain ⟨ready, goesOn⟩ := reached_goesOn _ handed reached
    exact placeable_of_goesOn state goesOn
  · intro placeable
    obtain ⟨calls, pages, final, run, some, ⟨originals, outputs, split⟩, complete⟩ :=
      compressBatches_done chooser fillFactor _ placeable batches
        (newPageCompress memory unset) (fun batch others given => Reached.first batch others given)
    refine ⟨calls, pages, final, run, some, originals, outputs, ?_⟩
    have nothing : (newPageCompress memory unset).remains = [] := rfl
    by_cases none : batches = []
    · rw [none] at run
      cases run
      rw [nothing, append_nil] at split
      exact split
    · rw [complete none, append_nil] at split
      exact split

end Batches

/-- A choice that compresses no column. -/
def uncompressed : Chooser Unit Unit where
  choose := fun _ _ => ((), { cmprHeaderSize := 0, formCmprsTuple := fun _ => none })
  unsampled := fun _ => rfl

/-- A tuple of 1000 bytes. -/
def kilobyteTuple : HeapTuple Unit where
  len := 1000
  hasExternal := false
  body := ()

/-- With a fill factor of 10 a single tuple of 1000 bytes is never handed out: the first call says
that there is a page and gives none. -/
theorem low_fill_factor_stalls :
    (((newPageCompress () kilobyteTuple).nextTuples [kilobyteTuple] []).compressOnePage
        uncompressed 10).1 = true ∧
      (((newPageCompress () kilobyteTuple).nextTuples [kilobyteTuple] []).compressOnePage
        uncompressed 10).2.outputTups = [] ∧
      ¬HandsOutAll uncompressed 10 (newPageCompress () kilobyteTuple) [[kilobyteTuple]] := by
  have stuck : ¬((newPageCompress () kilobyteTuple).nextTuples [kilobyteTuple] []).Placeable
      10 := by
    rintro (waits | fits)
    · exact Bool.noConfusion waits
    · exact absurd (fits kilobyteTuple rfl) (by decide)
  obtain ⟨goes, nothing⟩ := compressOnePage_stuck uncompressed 10 stuck
  refine ⟨goes, nothing, ?_⟩
  intro handed
  obtain ⟨_, goesOn⟩ := reached_goesOn _ handed (Reached.first [kilobyteTuple] [] rfl)
  exact stuck (placeable_of_goesOn _ goesOn)

end OpenGauss.RowCompress
