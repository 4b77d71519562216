import OpenGauss.Base.Cells
import OpenGauss.Base.Run

/-!
# Filling compressed row pages

`PageCompress` takes batches of tuples and hands out the tuples of one page after the other. A call
of `CompressOnePage` first sets candidates for toast aside and takes as many raw tuples as fill a
page. From these it chooses how to compress, compresses them and goes on with the tuples behind
them until the page is full. Compressed forms grow from the front of an array and tuples that do
not compress from its back, while the originals of the compressed ones are moved to the front of
the list that they are read from. Three exits put different tuples back.

How the columns are compressed is a parameter here: a choice made on a sample of tuples gives a
header and a compressed form for some tuples.
-/

namespace OpenGauss.RowCompress

open Function OpenGauss.Base

/-- A tuple in memory. -/
structure HeapTuple (α : Type) where
  /-- The length of the tuple (`t_len`). -/
  len : Nat
  hasExternal : Bool
  body : α
  deriving DecidableEq

/-- The size of a page (`BLCKSZ`). -/
def blckSz : Nat := 8192

/-- The header of a heap page (`SizeOfHeapPageHeaderData`). -/
def sizeOfHeapPageHeaderData : Nat := 40

/-- The size of a line pointer. -/
def sizeOfItemIdData : Nat := 4

/-- The length from which on a tuple is toasted (`TOAST_TUPLE_THRESHOLD`). -/
def toastTupleThreshold : Nat := 2032

/-- A length with its padding (`MAXALIGN`). -/
def maxAlign (length : Nat) : Nat := (length + 7) / 8 * 8

/-- The target usage of a page with a fill factor (`RelationGetTargetPageUsage`). -/
def targetPageUsage (fillFactor : Nat) : Nat := blckSz * fillFactor / 100

section Tuples

variable {α : Type}

/-- The space of a tuple and its line pointer (`getTupleSpace`). -/
def getTupleSpace (tuple : HeapTuple α) : Nat := sizeOfItemIdData + maxAlign tuple.len

/-- Whether a tuple is a candidate for toast. -/
def isToastTuple (tuple : HeapTuple α) : Bool :=
  tuple.hasExternal || decide (toastTupleThreshold < tuple.len)

end Tuples

/-- How the columns of a sample are compressed. -/
structure Choice (α : Type) where
  cmprHeaderSize : Nat
  formCmprsTuple : HeapTuple α → Option (HeapTuple α)

/-- The choice of the compression, with what it remembers from page to page. -/
structure Chooser (σ α : Type) where
  choose : σ → List (HeapTuple α) → σ × Choice α
  unsampled : ∀ state, (choose state []).2.cmprHeaderSize = 0

/-- The state between two pages. -/
structure PageCompress (σ α : Type) where
  chooser : σ
  inTups : Nat → HeapTuple α
  inTupsNum : Nat
  /-- The first tuple that was not handed out or set aside. -/
  current : Nat
  last : Bool
  toastTups : Nat → HeapTuple α
  toastTupsNum : Nat
  mappedTups : Nat → HeapTuple α
  mappedTupsNum : Nat
  cmprTups : Nat → HeapTuple α
  cmprTupsNum : Nat
  uncmprTupIdx : Nat
  /-- Whether the remaining tuples wait for the next batch. -/
  nextBatch : Bool
  cmprHeaderSize : Nat
  outputTups : List (HeapTuple α)

section Compression

variable {σ α : Type}

/-- The tuples of the batch that were not handed out or set aside (`Remains`). -/
def PageCompress.remains (state : PageCompress σ α) : List (HeapTuple α) :=
  cells state.inTups state.current (state.inTupsNum - state.current)

/-- Start a batch. -/
def PageCompress.setBatchTuples (state : PageCompress σ α) (tups : List (HeapTuple α))
    (isLast : Bool) : PageCompress σ α :=
  { state with
    inTups := fun index => tups[index]?.getD (state.inTups index)
    inTupsNum := tups.length
    current := 0
    last := isLast
    toastTupsNum := 0
    nextBatch := false }

/-- Start a page. -/
def PageCompress.resetPerPage (state : PageCompress σ α) : PageCompress σ α :=
  { state with
    cmprHeaderSize := 0
    outputTups := []
    mappedTupsNum := 0
    cmprTupsNum := 0
    uncmprTupIdx := state.inTupsNum }

/-- Forget the choice. -/
def PageCompress.resetCmprMeta (state : PageCompress σ α) : PageCompress σ α :=
  { state with cmprHeaderSize := 0 }

/-- Set a candidate for toast aside. -/
def PageCompress.addToast (state : PageCompress σ α) (tuple : HeapTuple α) : PageCompress σ α :=
  { state with
    toastTups := update state.toastTups state.toastTupsNum tuple
    toastTupsNum := state.toastTupsNum + 1 }

/-- Take a raw tuple. -/
def PageCompress.addMapped (state : PageCompress σ α) (tuple : HeapTuple α) : PageCompress σ α :=
  { state with
    mappedTups := update state.mappedTups state.mappedTupsNum tuple
    mappedTupsNum := state.mappedTupsNum + 1 }

/-- Take the raw tuples that fill a page, and set candidates for toast aside. The result has the
row of the first tuple that does not fit. -/
def collectRows (blksize : Nat) : Nat → Nat → Nat → PageCompress σ α → PageCompress σ α × Nat
  | 0, row, _, state => (state, row)
  | remaining + 1, row, size, state =>
    let tuple := state.inTups row
    if isToastTuple tuple then
      collectRows blksize remaining (row + 1) size (state.addToast tuple)
    else if blksize < size + getTupleSpace tuple then (state, row)
    else
      collectRows blksize remaining (row + 1) (size + getTupleSpace tuple) (state.addMapped tuple)

/-- Put a tuple or its compressed form on the page; no result if the page is full. -/
def dispatch (blksize : Nat) (raw : HeapTuple α) (cmpr : Option (HeapTuple α)) (nowSize : Nat)
    (state : PageCompress σ α) : Option (PageCompress σ α × Nat) :=
  match cmpr with
  | some cmpr =>
    if blksize < nowSize + getTupleSpace cmpr then none
    else some ({ state with
      cmprTups := update state.cmprTups state.cmprTupsNum cmpr
      mappedTups := update state.mappedTups state.cmprTupsNum raw
      cmprTupsNum := state.cmprTupsNum + 1 }, nowSize + getTupleSpace cmpr)
  | none =>
    if blksize < nowSize + getTupleSpace raw then none
    else some ({ state with
      uncmprTupIdx := state.uncmprTupIdx - 1
      cmprTups := update state.cmprTups (state.uncmprTupIdx - 1) raw },
      nowSize + getTupleSpace raw)

/-- Where a loop over tuples has stopped. -/
structure Stop (σ α : Type) where
  state : PageCompress σ α
  size : Nat
  fillOnePage : Bool

/-- Compress the sampled tuples from a row on. Their values were taken before the loop. -/
def compressMapped (form : HeapTuple α → Option (HeapTuple α)) (blksize : Nat) :
    List (HeapTuple α) → Nat → Nat → PageCompress σ α → Stop σ α
  | [], _, size, state => ⟨state, size, false⟩
  | values :: rest, row, size, state =>
    match dispatch blksize (state.mappedTups row) (form values) size state with
    | none => ⟨state, size, true⟩
    | some next => compressMapped form blksize rest (row + 1) next.2 next.1

/-- Compress the tuples behind the sample, and set candidates for toast aside. -/
def compressFollowing (form : HeapTuple α → Option (HeapTuple α)) (blksize : Nat) :
    Nat → Nat → Nat → PageCompress σ α → Stop σ α
  | 0, _, size, state => ⟨state, size, false⟩
  | remaining + 1, row, size, state =>
    let raw := state.inTups row
    if isToastTuple raw then
      compressFollowing form blksize remaining (row + 1) size (state.addToast raw)
    else
      match dispatch blksize raw (form raw) size state with
      | none => ⟨state, size, true⟩
      | some next => compressFollowing form blksize remaining (row + 1) next.2 next.1

/-- Hand out the raw tuples, nothing having been compressed. -/
def PageCompress.outputRawTupsBeforeCmpr (state : PageCompress σ α) (nToasts : Nat) :
    PageCompress σ α :=
  { state with
    outputTups := cells state.mappedTups 0 state.mappedTupsNum
    current := state.current + (state.mappedTupsNum + nToasts)
    cmprHeaderSize := 0
    cmprTupsNum := 0 }

/-- Hand out the raw tuples, some having been compressed. -/
def PageCompress.outputRawTupsAfterCmpr (state : PageCompress σ α) (nToasts : Nat) :
    PageCompress σ α :=
  let uncmprNum := state.inTupsNum - state.uncmprTupIdx
  let mappedTups := if 0 < uncmprNum then
      copyCells state.mappedTups state.cmprTupsNum state.cmprTups state.uncmprTupIdx uncmprNum
    else state.mappedTups
  { state with
    mappedTups := mappedTups
    outputTups := cells mappedTups 0 state.mappedTupsNum
    current := state.current + (state.mappedTupsNum + nToasts)
    cmprHeaderSize := 0
    cmprTupsNum := 0 }

/-- Hand out the compressed forms and the tuples that do not compress. -/
def PageCompress.outputCmprTups (state : PageCompress σ α) (nToasts : Nat) : PageCompress σ α :=
  let uncmprNum := state.inTupsNum - state.uncmprTupIdx
  let moved : (Nat → HeapTuple α) × Nat :=
    if uncmprNum = 0 then (state.cmprTups, state.cmprTupsNum)
    else if state.cmprTupsNum = state.uncmprTupIdx then (state.cmprTups, state.inTupsNum)
    else
      (copyCells state.cmprTups state.cmprTupsNum state.cmprTups state.uncmprTupIdx uncmprNum,
        state.cmprTupsNum + uncmprNum)
  { state with
    cmprTups := moved.1
    outputTups := cells moved.1 0 moved.2
    current := state.current + (moved.2 + nToasts) }

/-- Hand out the candidates for toast; without any the batch is done. -/
def PageCompress.handleToasts (state : PageCompress σ α) : Bool × PageCompress σ α :=
  if 0 < state.toastTupsNum then
    (true, { state with
      outputTups := cells state.toastTups 0 state.toastTupsNum
      toastTupsNum := 0 })
  else (false, state)

/-- Put the tuples that do not fill a page behind the candidates for toast at the end of the batch,
to wait for the next one. -/
def PageCompress.moveRemains (state : PageCompress σ α) (prevToastNum : Nat)
    (remainBeforeCmpr : Bool) : PageCompress σ α :=
  let thisToasts := state.toastTupsNum - prevToastNum
  let inTups := copyCells state.inTups state.current state.toastTups prevToastNum thisToasts
  let current := state.current + thisToasts
  if remainBeforeCmpr then
    { state with
      nextBatch := true
      inTups := copyCells inTups current state.mappedTups 0 state.mappedTupsNum
      current := current }
  else
    { state with
      nextBatch := true
      inTups := copyCells (copyCells inTups current state.mappedTups 0 state.cmprTupsNum)
        (current + state.cmprTupsNum) state.cmprTups state.uncmprTupIdx
        (state.inTupsNum - state.uncmprTupIdx)
      cmprTupsNum := 0
      current := current }

/-- The end of a batch whose tuples do not fill a page. -/
def PageCompress.handleRemains (state : PageCompress σ α) (prevToastNum : Nat)
    (remainBeforeCmpr : Bool) : Bool × PageCompress σ α :=
  if state.mappedTupsNum = 0 then
    { state with current := state.inTupsNum }.handleToasts
  else if state.last then
    (true, state.outputRawTupsBeforeCmpr (state.toastTupsNum - prevToastNum))
  else (state.moveRemains prevToastNum remainBeforeCmpr).handleToasts

/-- The part of a call behind the choice of the compression. -/
def PageCompress.compressChosen (state : PageCompress σ α) (blksize prevToastNum : Nat)
    (sample : List (HeapTuple α)) (form : HeapTuple α → Option (HeapTuple α)) :
    Bool × PageCompress σ α :=
  let size := maxAlign sizeOfHeapPageHeaderData + maxAlign state.cmprHeaderSize
  let sampled := compressMapped form blksize sample 0 size state
  if sampled.fillOnePage then
    (true, sampled.state.resetCmprMeta.outputRawTupsAfterCmpr
      (sampled.state.toastTupsNum - prevToastNum))
  else
    let row := sampled.state.current + sampled.state.mappedTupsNum +
      (sampled.state.toastTupsNum - prevToastNum)
    let followed := compressFollowing form blksize (sampled.state.inTupsNum - row) row
      sampled.size sampled.state
    if followed.fillOnePage || followed.state.last then
      (true, followed.state.outputCmprTups (followed.state.toastTupsNum - prevToastNum))
    else followed.state.resetCmprMeta.handleRemains prevToastNum false

/-- Hand out the tuples of one page. -/
def PageCompress.compressOnePage (chooser : Chooser σ α) (fillFactor : Nat)
    (before : PageCompress σ α) : Bool × PageCompress σ α :=
  let blksize := targetPageUsage fillFactor
  let prevToastNum := before.toastTupsNum
  let state := before.resetPerPage
  if state.current = state.inTupsNum ∨ state.nextBatch = true then
    state.resetCmprMeta.handleToasts
  else
    let collected := collectRows blksize (state.inTupsNum - state.current) state.current
      sizeOfHeapPageHeaderData state
    if collected.2 = state.inTupsNum then
      collected.1.resetCmprMeta.handleRemains prevToastNum true
    else
      let sample := cells collected.1.mappedTups 0 collected.1.mappedTupsNum
      let chosen := chooser.choose collected.1.chooser sample
      let headed := { collected.1 with
        chooser := chosen.1
        cmprHeaderSize := chosen.2.cmprHeaderSize }
      if chosen.2.cmprHeaderSize = 0 then
        (true, headed.outputRawTupsBeforeCmpr (headed.toastTupsNum - prevToastNum))
      else headed.compressChosen blksize prevToastNum sample chosen.2.formCmprsTuple

/-- Hand out pages until there is none, for at most some calls. -/
def compressPages (chooser : Chooser σ α) (fillFactor : Nat) :
    Nat → PageCompress σ α → Option (List (List (HeapTuple α)) × PageCompress σ α)
  | 0, _ => none
  | calls + 1, state =>
    let done := state.compressOnePage chooser fillFactor
    if done.1 then
      (compressPages chooser fillFactor calls done.2).map fun rest =>
        (done.2.outputTups :: rest.1, rest.2)
    else some ([], done.2)

/-- Hand out the pages of batches. The remaining tuples of a batch are put in front of the next,
and the last one is flagged. -/
def compressBatches (chooser : Chooser σ α) (fillFactor calls : Nat) :
    List (List (HeapTuple α)) → PageCompress σ α →
      Option (List (List (HeapTuple α)) × PageCompress σ α)
  | [], state => some ([], state)
  | batch :: rest, state =>
    (compressPages chooser fillFactor calls
      (state.setBatchTuples (state.remains ++ batch) rest.isEmpty)).bind fun pages =>
      (compressBatches chooser fillFactor calls rest pages.2).map fun more =>
        (pages.1 ++ more.1, more.2)

end Compression

end OpenGauss.RowCompress
