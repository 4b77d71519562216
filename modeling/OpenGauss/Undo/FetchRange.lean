import OpenGauss.Undo.Prevurp
import OpenGauss.Undo.Record

/-!
# Fetching undo records in batches

`FetchUndoRecordRange` follows the records of a transaction, or those of one page, from the newest
to the oldest and stops when their sizes in memory reach a limit; the caller goes on from the
pointer it returns. On one page a record of another transaction ends the range, but the transaction
is only known inside one call. The module says exactly when the calls together give the range.
-/

namespace OpenGauss.Undo

open Option List

/-- What a fetch is asked for, and the undo it reads. -/
structure UndoFetch where
  /-- The record that `LoadUndoRecordRange` finds at a pointer, none if it was discarded. -/
  load : Nat → Option UndoRecord
  /-- The undo pages that `Prevurp` reads. -/
  store : UndoStore
  endUrp : Nat
  maxUndoApplySize : Int
  onePage : Bool
  sizeofVector : Nat
  sizeofRecord : Nat

/-- A record of the result with its pointer. -/
abbrev FetchedRecord : Type := Nat × UndoRecord

namespace UndoFetch

variable (fetch : UndoFetch)

/-- The size of a record in memory, a 16-bit number. -/
def memoryRecordSize (urec : UndoRecord) : Nat := (fetch.sizeofRecord + urec.rawdata.len) % 65536

/-- The pointer to go on with; no result is the PANIC of `Prevurp`. -/
def nextUrp (urec : FetchedRecord) : Option Nat :=
  if fetch.onePage then some urec.2.wblk.blkprev.toNat
  else if urec.1 = fetch.endUrp then some invalidUndoRecPtr
  else prevurp fetch.store urec.2.prevurp.toNat urec.1

/-- The size of the batch with one more record, an `int`. -/
def addSize (totalSize : Int) (urec : UndoRecord) : Int :=
  Int.bmod (totalSize + fetch.memoryRecordSize urec) (2 ^ 32)

/-- The loop of `FetchUndoRecordRange`: the records and the pointer for the next call. -/
def fetchLoop : Nat → Nat → UInt64 → Int → List FetchedRecord → Option (List FetchedRecord × Nat)
  | 0, _, _, _, _ => none
  | fuel + 1, currUrp, xid, totalSize, urecvec =>
    match fetch.load currUrp with
    | none => some (urecvec, invalidUndoRecPtr)
    | some urec =>
      if fetch.onePage = true ∧ xid ≠ 0 ∧ xid ≠ urec.whdr.xid then
        some (urecvec, invalidUndoRecPtr)
      else
        match fetch.nextUrp (currUrp, urec) with
        | none => none
        | some next =>
          let urecvec := urecvec ++ [(currUrp, urec)]
          if next = invalidUndoRecPtr ∨ currUrp = fetch.endUrp then
            some (urecvec, invalidUndoRecPtr)
          else
            let totalSize := fetch.addSize totalSize urec
            if fetch.maxUndoApplySize ≤ totalSize then some (urecvec, next)
            else
              fetchLoop fuel next (if fetch.onePage then urec.whdr.xid else xid) totalSize urecvec

/-- One batch from a pointer (`FetchUndoRecordRange`). -/
def fetchUndoRecordRange (fuel startUrp : Nat) : Option (List FetchedRecord × Nat) :=
  fetch.fetchLoop fuel startUrp 0 fetch.sizeofVector []

/-- The batches of a caller that goes on until there is no pointer or no record. -/
def fetchAll : Nat → Nat → Option (List FetchedRecord)
  | 0, _ => none
  | fuel + 1, startUrp =>
    if startUrp = invalidUndoRecPtr then some []
    else
      match fetch.fetchUndoRecordRange (fuel + 1) startUrp with
      | none => none
      | some (batch, next) =>
        if batch = [] then some [] else (fetchAll fuel next).map (batch ++ ·)

/-- A record that can be loaded from a valid pointer. -/
structure Holds (urec : FetchedRecord) : Prop where
  valid : urec.1 ≠ invalidUndoRecPtr
  loaded : fetch.load urec.1 = some urec.2
  transaction : urec.2.whdr.xid ≠ 0

/-- The last record of a range: the one at the end pointer, one without an older one, or on one page
one whose older one is gone or of another transaction. -/
def Oldest (urec : FetchedRecord) : Prop :=
  ∃ next, fetch.nextUrp urec = some next ∧ (next = invalidUndoRecPtr ∨ urec.1 = fetch.endUrp ∨
      (fetch.onePage = true ∧
        ∀ older, fetch.load next = some older → urec.2.whdr.xid ≠ older.whdr.xid))

/-- The records of a range, the newest first. Each leads to the next, and on one page all are of one
transaction. -/
def Chain : List FetchedRecord → Prop
  | [] => False
  | [last] => fetch.Holds last ∧ fetch.Oldest last
  | first :: second :: rest =>
    fetch.Holds first ∧ first.1 ≠ fetch.endUrp ∧ fetch.nextUrp first = some second.1 ∧
      (fetch.onePage = true → first.2.whdr.xid = second.2.whdr.xid) ∧ Chain (second :: rest)

/-- On one page the range is followed by a record that can still be loaded. -/
def Followed : List FetchedRecord → Prop
  | [] => False
  | [last] => fetch.onePage = true ∧ last.1 ≠ fetch.endUrp ∧
    last.2.wblk.blkprev.toNat ≠ invalidUndoRecPtr ∧ fetch.load last.2.wblk.blkprev.toNat ≠ none
  | _ :: second :: rest => Followed (second :: rest)

/-- The sizes of the records, added up in batches, reach the limit with the last record. -/
def FillsBatch : Int → List FetchedRecord → Prop
  | _, [] => False
  | totalSize, [last] => fetch.maxUndoApplySize ≤ fetch.addSize totalSize last.2
  | totalSize, first :: second :: rest =>
    if fetch.maxUndoApplySize ≤ fetch.addSize totalSize first.2 then
      FillsBatch fetch.sizeofVector (second :: rest)
    else FillsBatch (fetch.addSize totalSize first.2) (second :: rest)

/-- Called again and again with the pointer it returns, the fetch gives the range and ends. -/
def Enumerates (startUrp : Nat) (range : List FetchedRecord) : Prop :=
  ∃ enough, ∀ fuel, enough ≤ fuel → fetch.fetchAll fuel startUrp = some range

/-- Where a batch leaves off: at a record of the range, at its end, or behind it. -/
inductive LeavesOff (totalSize : Int) (range left : List FetchedRecord) (next : Nat) : Prop where
  | inside (first : FetchedRecord) (rest : List FetchedRecord) (more : left = first :: rest)
    (pointer : next = first.1) (chain : fetch.Chain left)
    (followed : fetch.Followed range ↔ fetch.Followed left)
    (fills : fetch.FillsBatch totalSize range ↔ fetch.FillsBatch fetch.sizeofVector left)
  | done (nothing : left = []) (stops : next = invalidUndoRecPtr ∨ fetch.load next = none)
    (right : ¬(fetch.Followed range ∧ fetch.FillsBatch totalSize range))
  | behind (nothing : left = []) (valid : next ≠ invalidUndoRecPtr)
    (loads : fetch.load next ≠ none) (page : fetch.onePage = true)
    (wrong : fetch.Followed range ∧ fetch.FillsBatch totalSize range)

variable {fetch}

/-- One more record is fetched, or the batch ends. -/
theorem fetchLoop_step {urec : FetchedRecord} {xid : UInt64} {next : Nat} (fuel : Nat)
    (totalSize : Int) (urecvec : List FetchedRecord) (holds : fetch.Holds urec)
    (same : fetch.onePage = true → xid = 0 ∨ xid = urec.2.whdr.xid)
    (follows : fetch.nextUrp urec = some next) :
    fetch.fetchLoop (fuel + 1) urec.1 xid totalSize urecvec =
      if next = invalidUndoRecPtr ∨ urec.1 = fetch.endUrp then
        some (urecvec ++ [urec], invalidUndoRecPtr)
      else if fetch.maxUndoApplySize ≤ fetch.addSize totalSize urec.2 then
        some (urecvec ++ [urec], next) else
        fetch.fetchLoop fuel next (if fetch.onePage then urec.2.whdr.xid else xid)
          (fetch.addSize totalSize urec.2) (urecvec ++ [urec]) := by
  have kept : ¬(fetch.onePage = true ∧ xid ≠ 0 ∧ xid ≠ urec.2.whdr.xid) := by
    rintro ⟨page, known, other⟩
    exact (same page).elim known other
  rw [fetchLoop, holds.loaded]
  dsimp only
  rw [if_neg kept, follows]

theorem fetchLoop_stop {xid : UInt64} {currUrp : Nat} (fuel : Nat) (totalSize : Int)
    (urecvec : List FetchedRecord) (page : fetch.onePage = true) (known : xid ≠ 0)
    (other : ∀ older, fetch.load currUrp = some older → xid ≠ older.whdr.xid) :
    fetch.fetchLoop (fuel + 1) currUrp xid totalSize urecvec =
      some (urecvec, invalidUndoRecPtr) := by
  rw [fetchLoop]
  cases found : fetch.load currUrp with
  | none => rfl
  | some older =>
    have stops : fetch.onePage = true ∧ xid ≠ 0 ∧ xid ≠ older.whdr.xid :=
      ⟨page, known, other older found⟩
    exact if_pos stops

/-- A batch only grows. -/
theorem fetchLoop_grows (fuel : Nat) : ∀ {currUrp : Nat} {xid : UInt64} {totalSize : Int}
    {urecvec batch : List FetchedRecord} {next : Nat},
    fetch.fetchLoop fuel currUrp xid totalSize urecvec = some (batch, next) →
      urecvec.length ≤ batch.length := by
  induction fuel with
  | zero =>
    intro currUrp xid totalSize urecvec batch next ran
    exact absurd ran (by simp [fetchLoop])
  | succ fuel earlier =>
    intro currUrp xid totalSize urecvec batch next ran
    have longer (urec : FetchedRecord) : urecvec.length ≤ (urecvec ++ [urec]).length := by simp
    rw [fetchLoop] at ran
    cases found : fetch.load currUrp with
    | none =>
      rw [found] at ran
      exact (Prod.mk.inj (some.inj ran)).1 ▸ le_refl _
    | some urec =>
      simp only [found] at ran
      split at ran
      · exact (Prod.mk.inj (some.inj ran)).1 ▸ le_refl _
      · cases follows : fetch.nextUrp (currUrp, urec) with
        | none =>
          rw [follows] at ran
          exact absurd ran (by simp)
        | some older =>
          simp only [follows] at ran
          split at ran
          · exact (Prod.mk.inj (some.inj ran)).1 ▸ longer _
          · by_cases full : fetch.maxUndoApplySize ≤ fetch.addSize totalSize urec
            · rw [if_pos full] at ran
              exact (Prod.mk.inj (some.inj ran)).1 ▸ longer _
            · rw [if_neg full] at ran
              exact le_trans (longer _) (earlier ran)

/-- The last record of a chain ends the batch. -/
theorem fetchLoop_last {last : FetchedRecord} {xid : UInt64} (fuel : Nat) (totalSize : Int)
    (urecvec : List FetchedRecord) (chain : fetch.Chain [last])
    (same : fetch.onePage = true → xid = 0 ∨ xid = last.2.whdr.xid) :
    ∃ next, fetch.fetchLoop (fuel + 2) last.1 xid totalSize urecvec =
        some (urecvec ++ [last], next) ∧ fetch.LeavesOff totalSize [last] [] next := by
  obtain ⟨holds, next, follows, ends⟩ := chain
  rw [fetchLoop_step (fuel + 1) totalSize urecvec holds same follows]
  have onPage (page : fetch.onePage = true) : last.2.wblk.blkprev.toNat = next := by
    rw [nextUrp, if_pos page] at follows
    exact some.inj follows
  by_cases finished : next = invalidUndoRecPtr ∨ last.1 = fetch.endUrp
  · refine ⟨invalidUndoRecPtr, if_pos finished, .done rfl (.inl rfl) ?_⟩
    rintro ⟨⟨page, inner, valid, _⟩, _⟩
    rw [onPage page] at valid
    exact finished.elim valid inner
  · rw [if_neg finished]
    have ⟨valid, inner⟩ := not_or.mp finished
    obtain ⟨page, other⟩ := (ends.resolve_left valid).resolve_left inner
    by_cases full : fetch.maxUndoApplySize ≤ fetch.addSize totalSize last.2
    · refine ⟨next, if_pos full, ?_⟩
      by_cases gone : fetch.load next = none
      · refine .done rfl (.inr gone) ?_
        rintro ⟨⟨_, _, _, there⟩, _⟩
        exact there ((onPage page).symm ▸ gone)
      · have followed : fetch.Followed [last] := by
          refine ⟨page, inner, ?_, ?_⟩ <;> rw [onPage page]
          · exact valid
          · exact gone
        exact .behind rfl valid gone page ⟨followed, full⟩
    · refine ⟨invalidUndoRecPtr, ?_, .done rfl (.inl rfl) (fun wrong => full wrong.2)⟩
      rw [if_neg full, if_pos page]
      exact fetchLoop_stop fuel _ _ page holds.transaction other

/-- A batch takes the records of a range up to where it leaves off. -/
theorem fetchLoop_batch : ∀ (range : List FetchedRecord) (first : FetchedRecord)
    (rest : List FetchedRecord), range = first :: rest → fetch.Chain range →
    ∀ (fuel : Nat) (xid : UInt64) (totalSize : Int) (urecvec : List FetchedRecord),
      range.length < fuel → (fetch.onePage = true → xid = 0 ∨ xid = first.2.whdr.xid) →
      ∃ batch left next, range = batch ++ left ∧ batch ≠ [] ∧
          fetch.fetchLoop fuel first.1 xid totalSize urecvec = some (urecvec ++ batch, next) ∧
            fetch.LeavesOff totalSize range left next := by
  intro range
  induction range with
  | nil =>
    intro first rest cons
    exact absurd cons (cons_ne_nil first rest).symm
  | cons head tail earlier =>
    intro first rest cons chain fuel xid totalSize urecvec enough same
    obtain ⟨rfl, rfl⟩ := List.cons.inj cons
    obtain ⟨fuel, rfl⟩ : ∃ more, fuel = more + 2 :=
      ⟨fuel - 2, by rw [length_cons] at enough; lia⟩
    cases tail with
    | nil =>
      obtain ⟨next, ran, leaves⟩ := fetchLoop_last fuel totalSize urecvec chain same
      exact ⟨[head], [], next, rfl, cons_ne_nil _ _, ran, leaves⟩
    | cons second rest =>
      obtain ⟨holds, inner, follows, transaction, chainRest⟩ := chain
      have valid : second.1 ≠ invalidUndoRecPtr := by
        cases rest with
        | nil => exact chainRest.1.valid
        | cons => exact chainRest.1.valid
      rw [fetchLoop_step (fuel + 1) totalSize urecvec holds same follows,
        if_neg (not_or.mpr ⟨valid, inner⟩)]
      by_cases full : fetch.maxUndoApplySize ≤ fetch.addSize totalSize head.2
      · refine ⟨[head], second :: rest, second.1, rfl, cons_ne_nil _ _, if_pos full,
          .inside second rest rfl rfl chainRest Iff.rfl ?_⟩
        rw [FillsBatch, if_pos full]
      · rw [if_neg full]
        have sameNext : fetch.onePage = true →
            (if fetch.onePage then head.2.whdr.xid else xid) = 0 ∨
              (if fetch.onePage then head.2.whdr.xid else xid) = second.2.whdr.xid := by
          intro page
          rw [if_pos page]
          exact .inr (transaction page)
        obtain ⟨batch, left, next, split, _, ran, leaves⟩ :=
          earlier second rest rfl chainRest (fuel + 1) _ (fetch.addSize totalSize head.2)
            (urecvec ++ [head]) (by simp only [length_cons] at enough ⊢; omega) sameNext
        refine ⟨head :: batch, left, next, by rw [split]; rfl, cons_ne_nil _ _, ?_, ?_⟩
        · rw [ran, append_assoc]
          rfl
        · have fills : fetch.FillsBatch totalSize (head :: second :: rest) ↔
              fetch.FillsBatch (fetch.addSize totalSize head.2) (second :: rest) := by
            rw [FillsBatch, if_neg full]
          cases leaves with
          | inside first others more pointer chain followed later =>
            exact .inside first others more pointer chain followed (fills.trans later)
          | done nothing stops right =>
            exact .done nothing stops (fun wrong => right ⟨wrong.1, fills.mp wrong.2⟩)
          | behind nothing valid loads page wrong =>
            exact .behind nothing valid loads page ⟨wrong.1, fills.mpr wrong.2⟩

/-- A batch is not empty. -/
theorem fetchUndoRecordRange_nonempty {fuel startUrp next : Nat} {batch : List FetchedRecord}
    (page : fetch.onePage = true) (loads : fetch.load startUrp ≠ none)
    (ran : fetch.fetchUndoRecordRange (fuel + 1) startUrp = some (batch, next)) : batch ≠ [] := by
  obtain ⟨urec, found⟩ := Option.ne_none_iff_exists'.mp loads
  have follows : fetch.nextUrp (startUrp, urec) = some urec.wblk.blkprev.toNat := by
    rw [nextUrp, if_pos page]
  rw [fetchUndoRecordRange, fetchLoop, found] at ran
  simp only [ne_eq, not_true_eq_false, false_and, and_false, if_false, follows] at ran
  split at ran
  · exact (Prod.mk.inj (some.inj ran)).1 ▸ cons_ne_nil _ _
  · by_cases full : fetch.maxUndoApplySize ≤ fetch.addSize fetch.sizeofVector urec
    · rw [if_pos full] at ran
      exact (Prod.mk.inj (some.inj ran)).1 ▸ cons_ne_nil _ _
    · rw [if_neg full] at ran
      have longer := fetchLoop_grows fuel ran
      exact ne_nil_of_length_pos (Nat.lt_of_lt_of_le Nat.zero_lt_one longer)

theorem fetchAll_done {next : Nat} (fuel : Nat)
    (stops : next = invalidUndoRecPtr ∨ fetch.load next = none) :
    fetch.fetchAll (fuel + 1) next = some [] := by
  rw [fetchAll]
  by_cases invalid : next = invalidUndoRecPtr
  · exact if_pos invalid
  · have gone : fetch.load next = none := stops.resolve_left invalid
    rw [if_neg invalid, fetchUndoRecordRange, fetchLoop, gone]
    rfl

/-- There is a batch behind the first. -/
theorem fetchAll_behind {next : Nat} (fuel : Nat) (valid : next ≠ invalidUndoRecPtr)
    (page : fetch.onePage = true) (loads : fetch.load next ≠ none) :
    fetch.fetchAll fuel next ≠ some [] := by
  intro ran
  cases fuel with
  | zero => exact absurd ran (by simp [fetchAll])
  | succ fuel =>
    rw [fetchAll, if_neg valid] at ran
    cases batched : fetch.fetchUndoRecordRange (fuel + 1) next with
    | none =>
      rw [batched] at ran
      exact absurd ran (by simp)
    | some result =>
      obtain ⟨batch, later⟩ := result
      have nonempty : batch ≠ [] := fetchUndoRecordRange_nonempty page loads batched
      simp only [batched, if_neg nonempty, map_eq_some_iff] at ran
      obtain ⟨rest, _, together⟩ := ran
      exact nonempty (append_eq_nil_iff.mp together).1

/-- The batches give the range exactly if the last one is not filled by it in front of another
record of the page. -/
theorem fetchAll_chain (length : Nat) : ∀ (range : List FetchedRecord) (first : FetchedRecord)
    (rest : List FetchedRecord), range.length ≤ length → range = first :: rest →
    fetch.Chain range → ∀ fuel, range.length + 2 ≤ fuel →
      (fetch.fetchAll fuel first.1 = some range ↔
        ¬(fetch.Followed range ∧ fetch.FillsBatch fetch.sizeofVector range)) := by
  induction length with
  | zero =>
    intro range first rest short cons
    rw [cons] at short
    exact absurd short (Nat.not_succ_le_zero _)
  | succ length earlier =>
    intro range first rest short cons chain fuel enough
    obtain ⟨fuel, rfl⟩ : ∃ more, fuel = more + 2 := ⟨fuel - 2, by omega⟩
    have valid : first.1 ≠ invalidUndoRecPtr := by
      rw [cons] at chain
      cases rest with
      | nil => exact chain.1.valid
      | cons => exact chain.1.valid
    obtain ⟨batch, left, next, split, nonempty, ran, leaves⟩ :=
      fetchLoop_batch range first rest cons chain (fuel + 2) 0 fetch.sizeofVector []
        (by omega) (fun _ => .inl rfl)
    have batched : fetch.fetchAll (fuel + 2) first.1 =
        (fetch.fetchAll (fuel + 1) next).map (batch ++ ·) := by
      rw [fetchAll, if_neg valid, fetchUndoRecordRange, ran]
      exact if_neg nonempty
    have onward : fetch.fetchAll (fuel + 2) first.1 = some range ↔
        fetch.fetchAll (fuel + 1) next = some left := by
      rw [batched, map_eq_some_iff, split]
      constructor
      · rintro ⟨later, same, together⟩
        rw [same, append_cancel_left together]
      · intro same
        exact ⟨left, same, rfl⟩
    rw [onward]
    have fewer : left.length < range.length := by
      have size : range.length = batch.length + left.length := by rw [split, length_append]
      have taken := length_pos_of_ne_nil nonempty
      omega
    cases leaves with
    | inside second others more pointer chainLeft followed fills =>
      rw [pointer, followed, fills]
      exact earlier left second others (by omega) more chainLeft (fuel + 1) (by lia)
    | done nothing stops right =>
      rw [nothing, fetchAll_done fuel stops]
      exact iff_of_true rfl right
    | behind nothing valid loads page wrong =>
      rw [nothing]
      exact iff_of_false (fetchAll_behind (fuel + 1) valid page loads) (not_not.mpr wrong)

end UndoFetch

/-- Called again and again with the pointer it returns, the fetch gives the records of a range once
each, from the newest to the oldest, and ends, except where on one page the range is followed by
another record and the sizes of its records fill a batch at its last one. -/
theorem fetch_undo_record_range_enumerates_iff (fetch : UndoFetch) (first : FetchedRecord)
    (rest : List FetchedRecord) (chain : fetch.Chain (first :: rest)) :
    fetch.Enumerates first.1 (first :: rest) ↔ ¬(fetch.Followed (first :: rest) ∧
        fetch.FillsBatch fetch.sizeofVector (first :: rest)) := by
  have whole (fuel : Nat) (enough : (first :: rest).length + 2 ≤ fuel) :=
    UndoFetch.fetchAll_chain (first :: rest).length (first :: rest) first rest le_rfl rfl chain
      fuel enough
  constructor
  · intro ⟨enough, ran⟩
    exact (whole (enough + ((first :: rest).length + 2)) (Nat.le_add_left _ _)).mp
      (ran _ (Nat.le_add_right _ _))
  · intro right
    exact ⟨(first :: rest).length + 2, fun fuel enough => (whole fuel enough).mpr right⟩

/-- A record of a transaction with its older record on the page. -/
def pageRecord (xid blkprev : UInt64) : UndoRecord :=
  { UndoRecord.reset with
    whdr := { UndoRecord.reset.whdr with xid := xid }
    wblk := { UndoRecord.reset.wblk with blkprev := blkprev } }

/-- A page with two records of transaction 7 behind one of transaction 6. -/
def pageFetch (limit : Int) : UndoFetch where
  load := fun urp =>
    if urp = 300 then some (pageRecord 7 200)
    else if urp = 200 then some (pageRecord 7 100)
    else if urp = 100 then some (pageRecord 6 0)
    else none
  store := fun _ _ _ => 0
  endUrp := invalidUndoRecPtr
  maxUndoApplySize := limit
  onePage := true
  sizeofVector := 48
  sizeofRecord := 120

theorem pageFetch_chain (limit : Int) :
    (pageFetch limit).Chain [(300, pageRecord 7 200), (200, pageRecord 7 100)] := by
  have inner : (300 : Nat) ≠ invalidUndoRecPtr := by decide
  refine ⟨⟨by decide, rfl, by decide⟩, inner, rfl, fun _ => rfl,
    ⟨by decide, rfl, by decide⟩, 100, rfl, .inr (.inr ⟨rfl, ?_⟩)⟩
  intro older found
  have same : pageRecord 6 0 = older := some.inj found
  rw [← same]
  decide

/-- One batch with the records of transaction 7 stops in front of the other transaction. -/
theorem fetch_undo_record_range_enumerates_iff_page :
    (pageFetch 1000).Enumerates 300 [(300, pageRecord 7 200), (200, pageRecord 7 100)] := by
  refine (fetch_undo_record_range_enumerates_iff (pageFetch 1000) (300, pageRecord 7 200)
    [(200, pageRecord 7 100)] (pageFetch_chain 1000)).mpr (fun wrong => absurd wrong.2 ?_)
  simp only [UndoFetch.FillsBatch]
  decide

/-- With a limit of one record a batch, the record of the other transaction is fetched as well. -/
theorem fetch_undo_record_range_other_transaction :
    (pageFetch 1).Chain [(300, pageRecord 7 200), (200, pageRecord 7 100)] ∧
      (pageFetch 1).fetchAll 9 300 =
        some [(300, pageRecord 7 200), (200, pageRecord 7 100), (100, pageRecord 6 0)] ∧
      ¬(pageFetch 1).Enumerates 300 [(300, pageRecord 7 200), (200, pageRecord 7 100)] := by
  refine ⟨pageFetch_chain 1, by decide, ?_⟩
  intro ⟨enough, ran⟩
  have right := (UndoFetch.fetchAll_chain 2 _ _ _ le_rfl rfl (pageFetch_chain 1) (enough + 4)
    (Nat.le_add_left _ _)).mp (ran _ (Nat.le_add_right _ _))
  have followed : (pageFetch 1).Followed [(300, pageRecord 7 200), (200, pageRecord 7 100)] :=
    ⟨rfl, by decide, by decide, by decide⟩
  have fills : (pageFetch 1).FillsBatch (pageFetch 1).sizeofVector
      [(300, pageRecord 7 200), (200, pageRecord 7 100)] := by
    simp only [UndoFetch.FillsBatch]
    decide
  exact right ⟨followed, fills⟩

end OpenGauss.Undo
