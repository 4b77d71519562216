import OpenGauss.CStore.FreeSpace

/-!
# The holes of a column file

`ComputeFreeSpace` reads the extents of the units of a column in the order of their numbers and
merges them into a list of runs, ordered by offset, in which no two runs touch. What is left between
the runs, and before the first, are the holes, which are pushed on the free space of the column
where they are large enough. The module has that the runs cover the live extents and nothing else
after every extent, and that the holes are the stretches without a live byte between live bytes.
-/
namespace OpenGauss.CStore
open List OpenGauss.Base

section Scan

/-- `InvalidCStoreOffset`. -/
def invalidCStoreOffset : Nat := 0xffffffffffffffff

/-- `MinAvailableCStoreFSMSize`. -/
def minAvailableCStoreFSMSize : Nat := 1024

/-- `MaxNumOfHoleFSM`. -/
def maxNumOfHoleFSM : Nat := 100 * 1024 * 1024 / 16

/-- What a row of the table of units has of a unit. -/
structure CUDescTuple where
  /-- The offset of the unit (`CUDescCUPointerAttr`), which may be null. -/
  cuPointer : Option Nat
  /-- Its size (`CUDescSizeAttr`). -/
  cuSize : Nat

/-- The extent of a row; null pointers and units without data have none. -/
def CUDescTuple.spaceDesc (tuple : CUDescTuple) : Option CStoreFreeSpaceDesc :=
  match tuple.cuPointer with
  | none => none
  | some beginOffset => if tuple.cuSize = 0 then none else some ⟨beginOffset, tuple.cuSize⟩

/-- The loop that merges an extent into the ordered list; whether it became a new entry. -/
def mergeSpaceDesc (spaceDesc : CStoreFreeSpaceDesc) :
    List CStoreFreeSpaceDesc → List CStoreFreeSpaceDesc × Bool
  | [] => if spaceDesc.beginOffset ≠ invalidCStoreOffset then ([spaceDesc], true) else ([], false)
  | curEntry :: rest =>
    if add64 curEntry.beginOffset curEntry.size = spaceDesc.beginOffset then
      let curEntry := { curEntry with size := add64 curEntry.size spaceDesc.size }
      match rest with
      | [] => ([curEntry], false)
      | nextEntry :: more =>
        if nextEntry.beginOffset = add64 curEntry.beginOffset curEntry.size then
          ({ curEntry with size := add64 curEntry.size nextEntry.size } :: more, false)
        else (curEntry :: nextEntry :: more, false)
    else if spaceDesc.beginOffset < curEntry.beginOffset then
      if add64 spaceDesc.beginOffset spaceDesc.size = curEntry.beginOffset then
        ({ beginOffset := spaceDesc.beginOffset
           size := add64 curEntry.size spaceDesc.size } :: rest, false)
      else (spaceDesc :: curEntry :: rest, true)
    else (curEntry :: (mergeSpaceDesc spaceDesc rest).1, (mergeSpaceDesc spaceDesc rest).2)

/-- The scan of the rows; nothing where the list has become too long (`goto scan_end`). -/
def scanDescs : List CUDescTuple → List CStoreFreeSpaceDesc → Option (List CStoreFreeSpaceDesc)
  | [], ordered => some ordered
  | tuple :: rest, ordered =>
    match tuple.spaceDesc with
    | none => scanDescs rest ordered
    | some spaceDesc =>
      let merged := mergeSpaceDesc spaceDesc ordered
      if merged.2 ∧ maxNumOfHoleFSM < merged.1.length then none else scanDescs rest merged.1

/-- `IsFull`. -/
def isFull (fspace : CStoreFreeSpace) : Bool := fspace.descNum = fspace.maxSize

/-- The hole at the begin of the column. -/
def pushFront (fspace : CStoreFreeSpace) : List CStoreFreeSpaceDesc → CStoreFreeSpace
  | [] => fspace
  | entry :: _ =>
    if minAvailableCStoreFSMSize < entry.beginOffset then push fspace ⟨0, entry.beginOffset⟩
    else fspace

/-- The holes between entries. -/
def pushBetween (fspace : CStoreFreeSpace) : List CStoreFreeSpaceDesc → CStoreFreeSpace
  | curEntry :: nextEntry :: rest =>
    let curEnd := add64 curEntry.beginOffset curEntry.size
    if add64 curEnd minAvailableCStoreFSMSize < nextEntry.beginOffset then
      let fspace := push fspace ⟨curEnd, sub64 nextEntry.beginOffset curEnd⟩
      if isFull fspace then fspace else pushBetween fspace (nextEntry :: rest)
    else pushBetween fspace (nextEntry :: rest)
  | _ => fspace

/-- `ComputeFreeSpace`, over the rows of the column in the order of the scan. -/
def computeFreeSpace (fspace : CStoreFreeSpace) (tuples : List CUDescTuple) : CStoreFreeSpace :=
  match scanDescs tuples [] with
  | none => fspace
  | some ordered => pushBetween (pushFront fspace ordered) ordered

end Scan

section Runs

/-- The end of a range. -/
def CStoreFreeSpaceDesc.stop (range : CStoreFreeSpaceDesc) : Nat := range.beginOffset + range.size

/-- A byte belongs to one of some ranges. -/
def Covers (ranges : List CStoreFreeSpaceDesc) (byte : Nat) : Prop := ∃ range ∈ ranges, range.Has byte

/-- An extent of a file: it is not empty, and offsets near it have 64 bits. -/
structure Extent (range : CStoreFreeSpaceDesc) : Prop where
  positive : 0 < range.size
  fits : range.stop + minAvailableCStoreFSMSize < 18446744073709551616

/-- Extents ordered by offset, of which no two touch. -/
structure Coalesced (runs : List CStoreFreeSpaceDesc) : Prop where
  extents : ∀ run ∈ runs, Extent run
  ordered : runs.Pairwise fun first second => first.stop < second.beginOffset

variable (tuples : List CUDescTuple) (extents : List CStoreFreeSpaceDesc)
  (spaceDesc run : CStoreFreeSpaceDesc) (rest : List CStoreFreeSpaceDesc)
  (first second : CStoreFreeSpaceDesc)

theorem apart_iff (positive1 : 0 < first.size) (positive2 : 0 < second.size) : Apart first second ↔
      first.stop ≤ second.beginOffset ∨ second.stop ≤ first.beginOffset := by
  constructor
  · intro apart
    by_contra within
    rw [CStoreFreeSpaceDesc.stop, CStoreFreeSpaceDesc.stop] at within
    have high := apart (max first.beginOffset second.beginOffset)
    apply high
    rw [CStoreFreeSpaceDesc.Has, CStoreFreeSpaceDesc.Has]
    omega
  · intro behind byte both
    obtain ⟨⟨low, high⟩, low', high'⟩ := both
    rw [CStoreFreeSpaceDesc.stop, CStoreFreeSpaceDesc.stop] at behind
    lia

theorem Extent.add64_stop (range : CStoreFreeSpaceDesc) (extent : Extent range) :
    add64 range.beginOffset range.size = range.stop := by
  have fits := extent.fits
  rw [CStoreFreeSpaceDesc.stop] at *
  exact Nat.mod_eq_of_lt (by omega)

variable {first second}

theorem Extent.add64_size (extent : Extent second)
    (touches : first.stop = second.beginOffset) : add64 first.size second.size = first.size + second.size := by
  have fits := extent.fits
  rw [CStoreFreeSpaceDesc.stop] at fits touches
  exact Nat.mod_eq_of_lt (by omega)

/-- Two extents that touch are one. -/
theorem Extent.join (extent : Extent second) (touches : first.stop = second.beginOffset) :
    Extent ⟨first.beginOffset, first.size + second.size⟩ ∧
      ∀ byte, CStoreFreeSpaceDesc.Has ⟨first.beginOffset, first.size + second.size⟩ byte ↔
        first.Has byte ∨ second.Has byte := by
  have fits := extent.fits
  have positive := extent.positive
  rw [CStoreFreeSpaceDesc.stop] at fits touches
  refine ⟨⟨?_, ?_⟩, fun byte => ?_⟩
  · change 0 < first.size + second.size
    omega
  · rw [CStoreFreeSpaceDesc.stop]
    dsimp only
    omega
  · rw [CStoreFreeSpaceDesc.Has, CStoreFreeSpaceDesc.Has, CStoreFreeSpaceDesc.Has]
    dsimp only
    omega

/-- What one more extent makes of the runs. -/
structure Merged (spaceDesc : CStoreFreeSpaceDesc) (runs merged : List CStoreFreeSpaceDesc) : Prop where
  coalesced : Coalesced merged
  covers : ∀ byte, Covers merged byte ↔ Covers runs byte ∨ spaceDesc.Has byte
  begins : ∀ bound, (∀ run ∈ runs, bound < run.beginOffset) → bound < spaceDesc.beginOffset →
    ∀ run ∈ merged, bound < run.beginOffset

variable (run : CStoreFreeSpaceDesc) (rest : List CStoreFreeSpaceDesc)

variable {run rest}

theorem Coalesced.tail (coalesced : Coalesced (run :: rest)) :
    Coalesced rest ∧ ∀ other ∈ rest, run.stop < other.beginOffset := by
  obtain ⟨front, ordered⟩ := pairwise_cons.mp coalesced.ordered
  exact ⟨⟨fun other member => coalesced.extents other (mem_cons_of_mem _ member), ordered⟩,
    front⟩

theorem Coalesced.cons (extent : Extent run) (coalesced : Coalesced rest)
    (front : ∀ other ∈ rest, run.stop < other.beginOffset) : Coalesced (run :: rest) where
  extents := by
    intro other member
    obtain same | later := mem_cons.mp member
    · rw [same]
      exact extent
    · exact coalesced.extents other later
  ordered := pairwise_cons.mpr ⟨front, coalesced.ordered⟩

variable (run rest)

theorem covers_cons (byte : Nat) :
    Covers (run :: rest) byte ↔ run.Has byte ∨ Covers rest byte := by
  rw [Covers, exists_mem_cons_iff]
  rfl

theorem stop_le_of_apart (extent1 : Extent spaceDesc)
    (extent2 : Extent run) (apart : Apart spaceDesc run)
    (behind : spaceDesc.beginOffset ≤ run.beginOffset) : spaceDesc.stop ≤ run.beginOffset := by
  have sides := (apart_iff spaceDesc run extent1.positive extent2.positive).mp apart
  have positive := extent2.positive
  rw [CStoreFreeSpaceDesc.stop, CStoreFreeSpaceDesc.stop] at sides
  rw [CStoreFreeSpaceDesc.stop]
  lia

/-- An extent that touches the first run is joined to it, and the second run as well where that
touches the extent. -/
theorem merge_touching (extent : Extent spaceDesc) (coalesced : Coalesced (run :: rest))
    (apart : ∀ other ∈ run :: rest, Apart spaceDesc other)
    (touches : run.stop = spaceDesc.beginOffset) :
    Merged spaceDesc (run :: rest) (mergeSpaceDesc spaceDesc (run :: rest)).1 := by
  have runExtent := coalesced.extents run mem_cons_self
  obtain ⟨tail, front⟩ := coalesced.tail
  obtain ⟨joined, covers⟩ := Extent.join extent touches
  rw [mergeSpaceDesc, if_pos ((runExtent.add64_stop run).trans touches), extent.add64_size touches]
  cases rest with
  | nil =>
    refine ⟨Coalesced.cons joined tail (by simp), fun byte => ?_, ?_⟩
    · rw [covers_cons, covers_cons, covers byte]
      tauto
    · intro bound low _ other member
      rw [mem_singleton] at member
      rw [member]
      exact low run mem_cons_self
  | cons next more =>
    have nextExtent := coalesced.extents next (by simp)
    obtain ⟨moreTail, nextFront⟩ := tail.tail
    have behind := front next mem_cons_self
    have reaches := stop_le_of_apart spaceDesc next extent nextExtent (apart next (by simp))
      (by omega)
    have joinedStop : CStoreFreeSpaceDesc.stop ⟨run.beginOffset, run.size + spaceDesc.size⟩ =
        spaceDesc.stop := by
      rw [CStoreFreeSpaceDesc.stop] at touches ⊢
      rw [CStoreFreeSpaceDesc.stop]
      lia
    have wrapped := joined.add64_stop
    dsimp only at wrapped ⊢
    rw [wrapped, joinedStop]
    by_cases bridge : next.beginOffset = spaceDesc.stop
    · obtain ⟨whole, wholeCovers⟩ := Extent.join nextExtent (joinedStop.trans bridge.symm)
      have wholeStop : CStoreFreeSpaceDesc.stop
          ⟨run.beginOffset, run.size + spaceDesc.size + next.size⟩ = next.stop := by
        rw [CStoreFreeSpaceDesc.stop] at joinedStop ⊢
        rw [CStoreFreeSpaceDesc.stop]
        lia
      rw [if_pos bridge, nextExtent.add64_size (joinedStop.trans bridge.symm)]
      refine ⟨Coalesced.cons whole moreTail ?_, fun byte => ?_, ?_⟩
      · intro other member
        rw [wholeStop]
        exact nextFront other member
      · rw [covers_cons, covers_cons, covers_cons, wholeCovers byte, covers byte]
        tauto
      · intro bound low _ other member
        obtain same | later := mem_cons.mp member
        · rw [same]
          exact low run mem_cons_self
        · exact low other (mem_cons_of_mem _ (mem_cons_of_mem _ later))
    · rw [if_neg bridge]
      refine ⟨Coalesced.cons joined tail ?_, fun byte => ?_, ?_⟩
      · intro other member
        obtain same | later := mem_cons.mp member
        · lia
        · have further := nextFront other later
          rw [CStoreFreeSpaceDesc.stop] at further
          lia
      · rw [covers_cons, covers_cons run, covers byte]
        tauto
      · intro bound low _ other member
        obtain same | later := mem_cons.mp member
        · rw [same]
          exact low run mem_cons_self
        · exact low other (mem_cons_of_mem _ later)

/-- An extent in front of the runs is joined to the first one where it touches that, and else is a
run of its own. -/
theorem merge_before (extent : Extent spaceDesc) (coalesced : Coalesced (run :: rest))
    (apart : ∀ other ∈ run :: rest, Apart spaceDesc other)
    (before : spaceDesc.beginOffset < run.beginOffset) :
    Merged spaceDesc (run :: rest) (mergeSpaceDesc spaceDesc (run :: rest)).1 := by
  have runExtent := coalesced.extents run mem_cons_self
  obtain ⟨tail, front⟩ := coalesced.tail
  have reaches := stop_le_of_apart spaceDesc run extent runExtent (apart run (by simp)) (by omega)
  have unlike : ¬add64 run.beginOffset run.size = spaceDesc.beginOffset := by
    rw [runExtent.add64_stop, CStoreFreeSpaceDesc.stop]
    omega
  rw [mergeSpaceDesc, if_neg unlike, if_pos before, extent.add64_stop]
  by_cases bridge : spaceDesc.stop = run.beginOffset
  · obtain ⟨joined, covers⟩ := Extent.join runExtent bridge
    have size : add64 run.size spaceDesc.size = spaceDesc.size + run.size := by
      rw [← runExtent.add64_size bridge, add64, add64, Nat.add_comm]
    rw [if_pos bridge, size]
    refine ⟨Coalesced.cons joined tail ?_, fun byte => ?_, ?_⟩
    · intro other member
      have further := front other member
      rw [CStoreFreeSpaceDesc.stop] at bridge further ⊢
      lia
    · rw [covers_cons, covers_cons, covers byte]
      tauto
    · intro bound low new other member
      obtain same | later := mem_cons.mp member
      · rw [same]
        exact new
      · exact low other (mem_cons_of_mem _ later)
  · rw [if_neg bridge]
    refine ⟨Coalesced.cons extent coalesced ?_, fun byte => ?_, ?_⟩
    · intro other member
      obtain same | later := mem_cons.mp member
      · rw [same]
        omega
      · have further := front other later
        rw [CStoreFreeSpaceDesc.stop] at further
        omega
    · rw [covers_cons]
      tauto
    · intro bound low new other member
      obtain same | later := mem_cons.mp member
      · rw [same]
        exact new
      · exact low other later

/-- Merging an extent keeps the runs coalesced and adds its bytes. -/
theorem mergeSpaceDesc_spec {spaceDesc : CStoreFreeSpaceDesc} {runs : List CStoreFreeSpaceDesc}
    (extent : Extent spaceDesc) (coalesced : Coalesced runs)
    (apart : ∀ run ∈ runs, Apart spaceDesc run) :
    Merged spaceDesc runs (mergeSpaceDesc spaceDesc runs).1 := by
  induction runs with
  | nil =>
    have fits := extent.fits
    have valid : spaceDesc.beginOffset ≠ invalidCStoreOffset := by
      rw [CStoreFreeSpaceDesc.stop, minAvailableCStoreFSMSize] at fits
      rw [invalidCStoreOffset]
      omega
    rw [mergeSpaceDesc, if_pos valid]
    refine ⟨Coalesced.cons extent coalesced (by simp), fun byte => ?_, ?_⟩
    · rw [covers_cons]
      tauto
    · intro bound _ new other member
      rw [mem_singleton.mp member]
      exact new
  | cons run rest ih =>
    have runExtent := coalesced.extents run mem_cons_self
    by_cases touches : run.stop = spaceDesc.beginOffset
    · exact merge_touching spaceDesc run rest extent coalesced apart touches
    by_cases before : spaceDesc.beginOffset < run.beginOffset
    · exact merge_before spaceDesc run rest extent coalesced apart before
    obtain ⟨tail, front⟩ := coalesced.tail
    have merged := ih tail (fun other member => apart other (mem_cons_of_mem _ member))
    have behind : run.stop < spaceDesc.beginOffset := by
      have reaches := stop_le_of_apart run spaceDesc runExtent extent
        (apart run mem_cons_self).symm (by omega)
      omega
    rw [mergeSpaceDesc, if_neg (by rw [runExtent.add64_stop]; exact touches), if_neg before]
    refine ⟨Coalesced.cons runExtent merged.coalesced (merged.begins _ front behind),
      fun byte => ?_, ?_⟩
    · rw [covers_cons, covers_cons, merged.covers byte]
      tauto
    · intro bound low new other member
      obtain same | later := mem_cons.mp member
      · rw [same]
        exact low run mem_cons_self
      · exact merged.begins bound (fun other member => low other (mem_cons_of_mem _ member))
          new other later

/-- The runs of some extents, merged one after the other. -/
def mergeAll (extents : List CStoreFreeSpaceDesc) : List CStoreFreeSpaceDesc :=
  extents.foldl (fun runs spaceDesc => (mergeSpaceDesc spaceDesc runs).1) []

theorem mergeAll_concat (spaceDesc : CStoreFreeSpaceDesc) :
    mergeAll (extents ++ [spaceDesc]) = (mergeSpaceDesc spaceDesc (mergeAll extents)).1 := by
  rw [mergeAll, foldl_append]
  rfl

variable {extents}

/-- All extents merged are coalesced and cover the same bytes. -/
theorem mergeAll_spec (each : ∀ extent ∈ extents, Extent extent) (apart : extents.Pairwise Apart) :
    Coalesced (mergeAll extents) ∧ ∀ byte, Covers (mergeAll extents) byte ↔ Covers extents byte := by
  induction extents using List.reverseRecOn with
  | nil => exact ⟨⟨by simp [mergeAll], List.Pairwise.nil⟩, fun byte => Iff.rfl⟩
  | append_singleton front spaceDesc ih =>
    obtain ⟨frontApart, -, across⟩ := pairwise_append.mp apart
    obtain ⟨coalesced, covers⟩ := ih
      (fun extent member => each extent (mem_append_left _ member)) frontApart
    have away (run : CStoreFreeSpaceDesc) (member : run ∈ mergeAll front) : Apart spaceDesc run := by
      intro byte both
      obtain ⟨extent, inFront, has⟩ := (covers byte).mp ⟨run, member, both.2⟩
      exact across extent inFront spaceDesc (mem_singleton_self _) byte ⟨has, both.1⟩
    have merged := mergeSpaceDesc_spec
      (each spaceDesc (mem_append_right _ (mem_singleton_self _))) coalesced away
    rw [mergeAll_concat]
    refine ⟨merged.coalesced, fun byte => ?_⟩
    rw [merged.covers byte, covers byte, Covers, Covers]
    simp only [mem_append, mem_singleton]
    constructor
    · rintro (⟨extent, member, has⟩ | has)
      · exact ⟨extent, .inl member, has⟩
      · exact ⟨spaceDesc, .inr rfl, has⟩
    · rintro ⟨extent, member | rfl, has⟩
      · exact .inl ⟨extent, member, has⟩
      · exact .inr has

/-- A merge that joins adds no run. -/
theorem mergeSpaceDesc_length {spaceDesc : CStoreFreeSpaceDesc} {runs : List CStoreFreeSpaceDesc}
    (joined : (mergeSpaceDesc spaceDesc runs).2 = false) :
    (mergeSpaceDesc spaceDesc runs).1.length ≤ runs.length := by
  induction runs with
  | nil =>
    rw [mergeSpaceDesc] at joined ⊢
    split at joined
    · exact absurd joined (by simp)
    · rename_i invalid
      rw [if_neg invalid]
  | cons run rest ih =>
    rw [mergeSpaceDesc] at joined ⊢
    split
    · cases rest with
      | nil => simp
      | cons next more =>
        dsimp only
        split <;> simp
    · rename_i apart
      rw [if_neg apart] at joined
      split
      · rename_i before
        rw [if_pos before] at joined
        split
        · simp
        · rename_i gap
          rw [if_neg gap] at joined
          exact absurd joined (by simp)
      · rename_i behind
        rw [if_neg behind] at joined
        exact Nat.succ_le_succ (ih joined)

variable (extents)

/-- The extents of the rows. -/
def extentsOf (tuples : List CUDescTuple) : List CStoreFreeSpaceDesc :=
  tuples.filterMap CUDescTuple.spaceDesc

/-- While the runs are few, all extents are merged. -/
theorem scanDescs_some (front : List CStoreFreeSpaceDesc)
    (few : ∀ seen left, extentsOf tuples = seen ++ left →
      (mergeAll (front ++ seen)).length ≤ maxNumOfHoleFSM) :
    scanDescs tuples (mergeAll front) = some (mergeAll (front ++ extentsOf tuples)) := by
  induction tuples generalizing front with
  | nil => rw [scanDescs, extentsOf, filterMap_nil, append_nil]
  | cons tuple rest ih =>
    rw [scanDescs]
    cases extent : tuple.spaceDesc with
    | none =>
      have same : extentsOf (tuple :: rest) = extentsOf rest := filterMap_cons_none extent
      rw [same] at few ⊢
      exact ih front few
    | some spaceDesc =>
      have split : extentsOf (tuple :: rest) = spaceDesc :: extentsOf rest :=
        filterMap_cons_some extent
      rw [split] at few ⊢
      have here := few [spaceDesc] (extentsOf rest) rfl
      dsimp only
      rw [← mergeAll_concat, if_neg (fun many => Nat.not_lt.mpr here many.2),
        ih (front ++ [spaceDesc]) (fun seen left parts => by
          rw [append_assoc]
          exact few (spaceDesc :: seen) left (by rw [parts, cons_append])),
        append_assoc, singleton_append]

/-- With too many runs the scan gives up. -/
theorem scanDescs_none (front seen left : List CStoreFreeSpaceDesc)
    (few : (mergeAll front).length ≤ maxNumOfHoleFSM) (parts : extentsOf tuples = seen ++ left)
    (many : maxNumOfHoleFSM < (mergeAll (front ++ seen)).length) :
    scanDescs tuples (mergeAll front) = none := by
  induction tuples generalizing front seen with
  | nil =>
    rw [(append_eq_nil_iff.mp parts.symm).1, append_nil] at many
    omega
  | cons tuple rest ih =>
    rw [scanDescs]
    cases extent : tuple.spaceDesc with
    | none =>
      have same : extentsOf (tuple :: rest) = extentsOf rest := filterMap_cons_none extent
      rw [same] at parts
      exact ih front seen few parts many
    | some spaceDesc =>
      have split : extentsOf (tuple :: rest) = spaceDesc :: extentsOf rest :=
        filterMap_cons_some extent
      rw [split] at parts
      cases seen with
      | nil =>
        rw [append_nil] at many
        omega
      | cons first seen =>
        rw [cons_append, List.cons.injEq] at parts
        obtain ⟨rfl, parts⟩ := parts
        dsimp only
        rw [← mergeAll_concat]
        by_cases crowded : maxNumOfHoleFSM < (mergeAll (front ++ [spaceDesc])).length
        · have new : (mergeSpaceDesc spaceDesc (mergeAll front)).2 = true := by
            by_contra joined
            have grown := mergeSpaceDesc_length (Bool.eq_false_iff.mpr joined)
            rw [← mergeAll_concat] at grown
            omega
          rw [if_pos ⟨new, crowded⟩]
        · rw [if_neg fun both => crowded both.2]
          apply ih (front ++ [spaceDesc]) seen (by omega) parts
          rw [append_assoc]
          exact many

end Runs

section Pushes

/-- A range is an entry of the free space. -/
def CStoreFreeSpace.Holds (fspace : CStoreFreeSpace) (desc : CStoreFreeSpaceDesc) : Prop :=
  ∃ position, 1 ≤ position ∧ position ≤ fspace.descNum ∧ fspace.descs position = desc

variable (holes : List CStoreFreeSpaceDesc) (fspace : CStoreFreeSpace) (desc : CStoreFreeSpaceDesc)
  (runs : List CStoreFreeSpaceDesc)

theorem push_full (full : fspace.maxSize = fspace.descNum) : push fspace desc = fspace := by
  rw [push, if_pos full]

/-- With room, a hole is added. -/
theorem push_room (room : fspace.descNum < fspace.maxSize) :
    (push fspace desc).descNum = fspace.descNum + 1 ∧ (push fspace desc).maxSize = fspace.maxSize ∧
      ∀ other, (push fspace desc).Holds other ↔ fspace.Holds other ∨ other = desc := by
  rw [push, if_neg (by omega)]
  refine ⟨rfl, rfl, fun other => ?_⟩
  have rearranged := siftUp_rearranged CStoreFreeSpaceDesc.size desc (fspace.descNum + 1)
    (fspace.descNum + 1) fspace.descs (fspace.descNum + 1) (by omega) le_rfl
  rw [CStoreFreeSpace.Holds]
  rw [rearranged.mem_iff]
  constructor
  · rintro ⟨position, low, high, rfl⟩
    by_cases last : position = fspace.descNum + 1
    · rw [last, Function.update_self]
      exact .inr rfl
    · rw [Function.update_of_ne last]
      exact .inl ⟨position, low, by omega, rfl⟩
  · rintro (⟨position, low, high, rfl⟩ | rfl)
    · exact ⟨position, low, by omega, Function.update_of_ne (by omega) _ _⟩
    · exact ⟨fspace.descNum + 1, by omega, le_rfl, Function.update_self _ _ _⟩

theorem foldl_push_full
    (full : fspace.maxSize = fspace.descNum) : holes.foldl push fspace = fspace := by
  induction holes with
  | nil => rfl
  | cons hole rest ih => rw [foldl_cons, push_full fspace hole full, ih]

/-- Holes are added until the space is full. -/
theorem foldl_push (room : fspace.descNum ≤ fspace.maxSize) :
    (holes.foldl push fspace).descNum = min fspace.maxSize (fspace.descNum + holes.length) ∧
      ∀ other, (holes.foldl push fspace).Holds other ↔
        fspace.Holds other ∨ other ∈ holes.take (fspace.maxSize - fspace.descNum) := by
  induction holes generalizing fspace with
  | nil => exact ⟨by simp [room], fun other => by simp⟩
  | cons hole rest ih =>
    obtain full | more := Nat.eq_or_lt_of_le room
    · rw [foldl_push_full _ fspace full.symm]
      refine ⟨by lia, fun other => ?_⟩
      rw [full]
      simp
    · obtain ⟨count, size, holds⟩ := push_room fspace hole more
      obtain ⟨total, all⟩ := ih (push fspace hole) (by omega)
      rw [foldl_cons, length_cons]
      refine ⟨by lia, fun other => ?_⟩
      have left : fspace.maxSize - fspace.descNum =
          (fspace.maxSize - (fspace.descNum + 1)) + 1 := by grind
      rw [all other, holds other, count, size, left, take_succ_cons, mem_cons]
      tauto

/-- The hole before the first run, where it is large enough. -/
def frontHole : List CStoreFreeSpaceDesc → List CStoreFreeSpaceDesc
  | [] => []
  | run :: _ => if minAvailableCStoreFSMSize < run.beginOffset then [⟨0, run.beginOffset⟩] else []

/-- The holes between runs that are large enough. -/
def innerHoles : List CStoreFreeSpaceDesc → List CStoreFreeSpaceDesc
  | run :: next :: rest =>
    if run.stop + minAvailableCStoreFSMSize < next.beginOffset then
      ⟨run.stop, next.beginOffset - run.stop⟩ :: innerHoles (next :: rest)
    else innerHoles (next :: rest)
  | _ => []

theorem pushFront_eq : pushFront fspace runs = (frontHole runs).foldl push fspace := by
  cases runs with
  | nil => rfl
  | cons run rest =>
    rw [pushFront, frontHole]
    split <;> rfl

/-- The holes between the runs are added in order. -/
theorem pushBetween_eq (fspace : CStoreFreeSpace) (coalesced : Coalesced runs) :
    pushBetween fspace runs = (innerHoles runs).foldl push fspace := by
  induction runs generalizing fspace with
  | nil => rfl
  | cons run rest ih =>
    cases rest with
    | nil => rfl
    | cons next rest =>
      obtain ⟨tail, front⟩ := coalesced.tail
      have extent := coalesced.extents run mem_cons_self
      have nextExtent := coalesced.extents next (by simp)
      have wraps : add64 run.stop minAvailableCStoreFSMSize =
          run.stop + minAvailableCStoreFSMSize := Nat.mod_eq_of_lt extent.fits
      rw [pushBetween, innerHoles]
      dsimp only
      rw [extent.add64_stop, wraps]
      split
      · have size : sub64 next.beginOffset run.stop = next.beginOffset - run.stop := by
          have fits := nextExtent.fits
          rw [CStoreFreeSpaceDesc.stop] at fits
          rw [sub64]
          lia
        rw [size, foldl_cons]
        split
        · rename_i full
          rw [isFull, decide_eq_true_eq] at full
          rw [foldl_push_full _ _ full.symm]
        · exact ih _ tail
      · exact ih _ tail

end Pushes

section Exact

/-- A stretch without a live byte, from the begin of the file or behind a live byte, up to a live
byte. -/
structure Hole (live : Nat → Prop) (hole : CStoreFreeSpaceDesc) : Prop where
  front : hole.beginOffset = 0 ∨ live (hole.beginOffset - 1)
  behind : live hole.stop
  bare : ∀ byte, hole.Has byte → ¬live byte

theorem Coalesced.behind {run : CStoreFreeSpaceDesc} {rest : List CStoreFreeSpaceDesc}
    (coalesced : Coalesced (run :: rest)) {byte : Nat} (covered : Covers rest byte) :
    run.stop < byte := by
  obtain ⟨other, member, low, -⟩ := covered
  have front := coalesced.tail.2 other member
  omega

variable (extents : List CStoreFreeSpaceDesc) (runs : List CStoreFreeSpaceDesc)

/-- The holes between runs are the large stretches from the end of a run to the begin of a run with
no run in between. -/
theorem mem_innerHoles (coalesced : Coalesced runs) (hole : CStoreFreeSpaceDesc) :
    hole ∈ innerHoles runs ↔ minAvailableCStoreFSMSize < hole.size ∧
      (∃ run ∈ runs, run.stop = hole.beginOffset) ∧ (∃ run ∈ runs, run.beginOffset = hole.stop) ∧
      ∀ byte, hole.Has byte → ¬Covers runs byte := by
  induction runs with
  | nil => simp [innerHoles]
  | cons run rest ih =>
    cases rest with
    | nil =>
      rw [innerHoles]
      constructor
      · intro absent
        exact absurd absent (not_mem_nil)
      · rintro ⟨large, ⟨first, member, front⟩, ⟨second, member', behind⟩, -⟩
        rw [mem_singleton.mp member] at front
        rw [mem_singleton.mp member'] at behind
        rw [CStoreFreeSpaceDesc.stop] at front behind
        omega
      · exact fun _ _ _ same => absurd same (by simp)
    | cons next more =>
      obtain ⟨tail, front⟩ := coalesced.tail
      have gap := front next mem_cons_self
      have nextPositive := (coalesced.extents next (by simp)).positive
      have inner := ih tail
      have first : hole = ⟨run.stop, next.beginOffset - run.stop⟩ →
          minAvailableCStoreFSMSize < hole.size →
          (∃ other ∈ run :: next :: more, other.stop = hole.beginOffset) ∧
            (∃ other ∈ run :: next :: more, other.beginOffset = hole.stop) ∧
            ∀ byte, hole.Has byte → ¬Covers (run :: next :: more) byte := by
        rintro rfl large
        refine ⟨⟨run, by simp, rfl⟩, ⟨next, by simp, ?_⟩, ?_⟩
        · rw [CStoreFreeSpaceDesc.stop]
          lia
        · rintro byte ⟨low, high⟩ covered
          dsimp only at low high
          rw [covers_cons, covers_cons] at covered
          rcases covered with inRun | inNext | later
          · rw [CStoreFreeSpaceDesc.stop] at low
            have below := inRun.2
            omega
          · have above := inNext.1
            omega
          · have beyond := tail.behind later
            rw [CStoreFreeSpaceDesc.stop] at beyond
            omega
      have lift (found : hole ∈ innerHoles (next :: more)) : minAvailableCStoreFSMSize < hole.size ∧
          (∃ other ∈ run :: next :: more, other.stop = hole.beginOffset) ∧
            (∃ other ∈ run :: next :: more, other.beginOffset = hole.stop) ∧
            ∀ byte, hole.Has byte → ¬Covers (run :: next :: more) byte := by
        obtain ⟨large, ⟨other, member, start⟩, ⟨other', member', stop⟩, bare⟩ := inner.mp found
        refine ⟨large, ⟨other, mem_cons_of_mem _ member, start⟩,
          ⟨other', mem_cons_of_mem _ member', stop⟩, fun byte has covered => ?_⟩
        rw [covers_cons] at covered
        rcases covered with inRun | later
        · have beyond := front other member
          have below := inRun.2
          have above := has.1
          rw [CStoreFreeSpaceDesc.stop] at beyond start
          lia
        · exact bare byte has later
      have lower (large : minAvailableCStoreFSMSize < hole.size)
          (starts : ∃ other ∈ run :: next :: more, other.stop = hole.beginOffset)
          (stops : ∃ other ∈ run :: next :: more, other.beginOffset = hole.stop)
          (bare : ∀ byte, hole.Has byte → ¬Covers (run :: next :: more) byte) :
          hole = ⟨run.stop, next.beginOffset - run.stop⟩ ∨ hole ∈ innerHoles (next :: more) := by
        obtain ⟨other, member, start⟩ := starts
        obtain ⟨other', member', stop⟩ := stops
        have long : other'.beginOffset = hole.beginOffset + hole.size := stop
        have later : other' ∈ next :: more := by
          obtain same | later := mem_cons.mp member'
          · obtain same' | later' := mem_cons.mp member
            · rw [CStoreFreeSpaceDesc.stop] at start
              lia
            · have beyond := front other later'
              rw [CStoreFreeSpaceDesc.stop] at beyond start
              lia
          · exact later
        obtain same | behind := mem_cons.mp member
        · left
          rw [same] at start
          have reach : next.beginOffset = other'.beginOffset := by
            obtain same' | further := mem_cons.mp later
            · rw [same']
            · have beyond := tail.tail.2 other' further
              rw [CStoreFreeSpaceDesc.stop] at beyond
              exact absurd ⟨next, by simp, le_rfl, by omega⟩
                (bare next.beginOffset ⟨by omega, by lia⟩)
          cases hole
          simp only [CStoreFreeSpaceDesc.mk.injEq]
          exact ⟨start.symm, by lia⟩
        · right
          refine inner.mpr ⟨large, ⟨other, behind, start⟩, ⟨other', later, stop⟩, ?_⟩
          intro byte has covered
          exact bare byte has ((covers_cons run (next :: more) byte).mpr (.inr covered))
      rw [innerHoles]
      split
      · rw [mem_cons]
        constructor
        · rintro (same | found)
          · have size : minAvailableCStoreFSMSize < hole.size := by
              rw [same]
              dsimp only
              omega
            exact ⟨size, first same size⟩
          · exact lift found
        · rintro ⟨size, starts, stops, bare⟩
          exact lower size starts stops bare
      · constructor
        · exact lift
        · rintro ⟨size, starts, stops, bare⟩
          obtain same | found := lower size starts stops bare
          · rw [same] at size
            dsimp only at size
            omega
          · exact found

/-- The holes of some runs. -/
def holesOf (runs : List CStoreFreeSpaceDesc) : List CStoreFreeSpaceDesc :=
  frontHole runs ++ innerHoles runs

/-- The hole in front of the runs, if it is large enough. -/
theorem mem_frontHole (coalesced : Coalesced runs) (hole : CStoreFreeSpaceDesc) :
    hole ∈ frontHole runs ↔ minAvailableCStoreFSMSize < hole.size ∧ hole.beginOffset = 0 ∧
      Hole (Covers runs) hole := by
  cases runs with
  | nil =>
    constructor
    · intro absent
      exact absurd absent not_mem_nil
    · rintro ⟨-, -, stretch⟩
      obtain ⟨run, member, -⟩ := stretch.behind
      exact absurd member not_mem_nil
  | cons run rest =>
    have positive := (coalesced.extents run mem_cons_self).positive
    have starts (byte : Nat) (covered : Covers (run :: rest) byte) : run.beginOffset ≤ byte := by
      obtain inRun | later := (covers_cons run rest byte).mp covered
      · exact inRun.1
      · have beyond := coalesced.behind later
        rw [CStoreFreeSpaceDesc.stop] at beyond
        omega
    rw [frontHole]
    constructor
    · intro member
      split at member
      · rename_i large
        rw [mem_singleton.mp member]
        refine ⟨large, rfl, .inl rfl, ?_, fun byte has covered => ?_⟩
        · refine (covers_cons run rest _).mpr (.inl ⟨?_, ?_⟩)
          · rw [CStoreFreeSpaceDesc.stop]
            dsimp only
            omega
          · rw [CStoreFreeSpaceDesc.stop]
            dsimp only
            omega
        · have low := starts byte covered
          have high := has.2
          dsimp only at high
          omega
      · exact absurd member not_mem_nil
    · rintro ⟨large, zero, stretch⟩
      have after := starts hole.stop stretch.behind
      have size : hole.size = run.beginOffset := by
        by_contra differ
        rw [CStoreFreeSpaceDesc.stop] at after
        exact stretch.bare run.beginOffset ⟨by omega, by lia⟩
          ((covers_cons run rest _).mpr (.inl ⟨le_rfl, by omega⟩))
      rw [if_pos (by omega), mem_singleton]
      cases hole
      simp only [CStoreFreeSpaceDesc.mk.injEq]
      exact ⟨zero, size⟩

/-- The holes of the runs are the maximal gaps that are large enough. -/
theorem mem_holesOf (coalesced : Coalesced runs) (hole : CStoreFreeSpaceDesc) :
    hole ∈ holesOf runs ↔ minAvailableCStoreFSMSize < hole.size ∧ Hole (Covers runs) hole := by
  rw [holesOf, mem_append, mem_frontHole runs coalesced, mem_innerHoles runs coalesced]
  constructor
  · rintro (⟨large, -, stretch⟩ | ⟨large, ⟨run, member, start⟩, ⟨run', member', stop⟩, bare⟩)
    · exact ⟨large, stretch⟩
    · have positive := (coalesced.extents run member).positive
      have positive' := (coalesced.extents run' member').positive
      rw [CStoreFreeSpaceDesc.stop] at start
      exact ⟨large, .inr ⟨run, member, by omega, by omega⟩, ⟨run', member', by omega, by omega⟩,
        bare⟩
  · rintro ⟨large, stretch⟩
    obtain zero | before := stretch.front
    · exact .inl ⟨large, zero, stretch⟩
    · rcases Nat.eq_zero_or_pos hole.beginOffset with zero | positive
      · exact .inl ⟨large, zero, stretch⟩
      · right
        obtain ⟨run, member, low, high⟩ := before
        obtain ⟨run', member', low', high'⟩ := stretch.behind
        rw [CStoreFreeSpaceDesc.stop] at low' high'
        have start : run.stop = hole.beginOffset := by
          by_contra differ
          rw [CStoreFreeSpaceDesc.stop] at differ
          exact stretch.bare hole.beginOffset ⟨le_rfl, by omega⟩ ⟨run, member, by lia, by lia⟩
        have stop : run'.beginOffset = hole.stop := by
          by_contra differ
          rw [CStoreFreeSpaceDesc.stop] at differ
          exact stretch.bare (hole.beginOffset + hole.size - 1) ⟨by lia, by lia⟩
            ⟨run', member', by lia, by lia⟩
        exact ⟨large, ⟨run, member, start⟩, ⟨run', member', stop⟩, stretch.bare⟩

/-- The holes between the runs are in order. -/
theorem innerHoles_ordered (coalesced : Coalesced runs) :
    ((innerHoles runs).Pairwise fun first second => first.stop < second.beginOffset) ∧
      ∀ run ∈ runs.head?, ∀ hole ∈ innerHoles runs, run.stop ≤ hole.beginOffset := by
  induction runs with
  | nil => exact ⟨List.Pairwise.nil, by simp⟩
  | cons run rest ih =>
    cases rest with
    | nil => exact ⟨List.Pairwise.nil, by simp [innerHoles]⟩
    | cons next more =>
      obtain ⟨tail, front⟩ := coalesced.tail
      obtain ⟨ordered, low⟩ := ih tail
      have gap := front next mem_cons_self
      have positive := (coalesced.extents next (by simp)).positive
      have later (hole : CStoreFreeSpaceDesc) (member : hole ∈ innerHoles (next :: more)) :
          next.stop ≤ hole.beginOffset := low next rfl hole member
      have first : ∀ other ∈ (run :: next :: more).head?, other = run := by
        intro other head
        exact (Option.some.inj head).symm
      rw [innerHoles]
      split
      · refine ⟨pairwise_cons.mpr ⟨fun hole member => ?_, ordered⟩, fun other head hole member => ?_⟩
        · have beyond := later hole member
          rw [CStoreFreeSpaceDesc.stop] at beyond ⊢
          dsimp only
          omega
        · rw [first other head]
          obtain same | behind := mem_cons.mp member
          · rw [same]
          · have beyond := later hole behind
            rw [CStoreFreeSpaceDesc.stop] at beyond
            lia
      · refine ⟨ordered, fun other head hole member => ?_⟩
        have beyond := later hole member
        rw [first other head]
        rw [CStoreFreeSpaceDesc.stop] at beyond
        lia

/-- The holes of the runs are in order. -/
theorem holesOf_ordered (coalesced : Coalesced runs) :
    (holesOf runs).Pairwise fun first second => first.stop < second.beginOffset := by
  obtain ⟨ordered, low⟩ := innerHoles_ordered runs coalesced
  refine pairwise_append.mpr ⟨?_, ordered, fun hole member other member' => ?_⟩
  · cases runs with
    | nil => exact List.Pairwise.nil
    | cons run rest =>
      rw [frontHole]
      split
      · exact pairwise_singleton _ _
      · exact List.Pairwise.nil
  · cases runs with
    | nil => exact absurd member not_mem_nil
    | cons run rest =>
      have positive := (coalesced.extents run mem_cons_self).positive
      have behind := low run rfl other member'
      rw [frontHole] at member
      split at member
      · rw [mem_singleton.mp member, CStoreFreeSpaceDesc.stop]
        rw [CStoreFreeSpaceDesc.stop] at behind
        dsimp only
        omega
      · exact absurd member not_mem_nil

/-- Some moment of the scan has more runs than the limit. -/
def TooManyRuns (extents : List CStoreFreeSpaceDesc) : Prop :=
  ∃ seen left, extents = seen ++ left ∧ maxNumOfHoleFSM < (mergeAll seen).length

/-- A merge adds one run at most. -/
theorem mergeSpaceDesc_length_le (spaceDesc : CStoreFreeSpaceDesc)
    (runs : List CStoreFreeSpaceDesc) :
    (mergeSpaceDesc spaceDesc runs).1.length ≤ runs.length + 1 := by
  induction runs with
  | nil =>
    rw [mergeSpaceDesc]
    split <;> simp
  | cons run rest ih =>
    cases joined : (mergeSpaceDesc spaceDesc (run :: rest)).2 with
    | false =>
      have same := mergeSpaceDesc_length joined
      omega
    | true =>
      rw [mergeSpaceDesc] at joined ⊢
      split
      · cases rest with
        | nil => simp
        | cons next more =>
          dsimp only
          split <;> simp
      · split
        · split <;> simp
        · exact Nat.succ_le_succ ih

theorem mergeAll_length_le : (mergeAll extents).length ≤ extents.length := by
  induction extents using List.reverseRecOn with
  | nil => exact le_rfl
  | append_singleton front spaceDesc ih =>
    have grown := mergeSpaceDesc_length_le spaceDesc (mergeAll front)
    rw [mergeAll_concat, length_append, length_singleton]
    omega

variable {extents}

theorem TooManyRuns.length (many : TooManyRuns extents) : maxNumOfHoleFSM < extents.length := by
  obtain ⟨seen, left, rfl, above⟩ := many
  have few := mergeAll_length_le seen
  rw [length_append]
  omega

theorem Hole.congr (live live' : Nat → Prop) (same : ∀ byte, live byte ↔ live' byte)
    (hole : CStoreFreeSpaceDesc) : Hole live hole ↔ Hole live' hole := by
  have equal : live = live' := funext fun byte => propext (same byte)
  rw [equal]

variable (fspace : CStoreFreeSpace) (tuples : List CUDescTuple)

theorem computeFreeSpace_many
    (many : TooManyRuns (extentsOf tuples)) : computeFreeSpace fspace tuples = fspace := by
  obtain ⟨seen, left, parts, many⟩ := many
  have stopped := scanDescs_none tuples [] seen left (Nat.zero_le _) parts many
  change scanDescs tuples [] = none at stopped
  rw [computeFreeSpace, stopped]

theorem computeFreeSpace_few (each : ∀ extent ∈ extentsOf tuples, Extent extent)
    (apart : (extentsOf tuples).Pairwise Apart) (few : ¬TooManyRuns (extentsOf tuples)) :
    computeFreeSpace fspace tuples = (holesOf (mergeAll (extentsOf tuples))).foldl push fspace := by
  have scanned := scanDescs_some tuples [] (fun seen left parts =>
    Nat.not_lt.mp fun many => few ⟨seen, left, parts, many⟩)
  change scanDescs tuples [] = some (mergeAll (extentsOf tuples)) at scanned
  have coalesced := (mergeAll_spec each apart).1
  rw [computeFreeSpace, scanned]
  dsimp only
  rw [pushBetween_eq _ _ coalesced, pushFront_eq, holesOf, foldl_append]

/-- At every moment of the scan the runs are ordered, do not touch and cover exactly the extents seen.
Unless there are too many of them, the free space gets the holes of the column that are large
enough, in the order of their offsets, as many as it has room for; otherwise it gets nothing. -/
theorem computeFreeSpace_exact (fspace : CStoreFreeSpace) (tuples : List CUDescTuple)
    (room : fspace.descNum ≤ fspace.maxSize) (each : ∀ extent ∈ extentsOf tuples, Extent extent)
    (apart : (extentsOf tuples).Pairwise Apart) : (∀ seen left, extentsOf tuples = seen ++ left →
      Coalesced (mergeAll seen) ∧ ∀ byte, Covers (mergeAll seen) byte ↔ Covers seen byte) ∧
    (TooManyRuns (extentsOf tuples) → computeFreeSpace fspace tuples = fspace) ∧
    (¬TooManyRuns (extentsOf tuples) → ∃ holes : List CStoreFreeSpaceDesc,
      (holes.Pairwise fun first second => first.stop < second.beginOffset) ∧ (∀ hole, hole ∈ holes ↔
        minAvailableCStoreFSMSize < hole.size ∧ Hole (Covers (extentsOf tuples)) hole) ∧
      (computeFreeSpace fspace tuples).descNum =
        min fspace.maxSize (fspace.descNum + holes.length) ∧
      ∀ desc, (computeFreeSpace fspace tuples).Holds desc ↔
        fspace.Holds desc ∨ desc ∈ holes.take (fspace.maxSize - fspace.descNum)) := by
  refine ⟨fun seen left parts => ?_, ?_, fun few => ?_⟩
  · rw [parts] at each apart
    exact mergeAll_spec (fun extent member => each extent (mem_append_left _ member))
      (pairwise_append.mp apart).1
  · exact computeFreeSpace_many fspace tuples
  · obtain ⟨coalesced, covers⟩ := mergeAll_spec each apart
    obtain ⟨count, holds⟩ := foldl_push (holesOf (mergeAll (extentsOf tuples))) fspace room
    have result := computeFreeSpace_few fspace tuples each apart few
    refine ⟨holesOf (mergeAll (extentsOf tuples)), holesOf_ordered _ coalesced, fun hole => ?_, ?_, ?_⟩
    · rw [mem_holesOf _ coalesced, Hole.congr _ _ covers]
    · rw [result, count]
    · rw [result]
      exact holds

/-- Apart from each other and from what is kept, holes may be added. -/
theorem foldl_push_holes (holes : List CStoreFreeSpaceDesc) (fspace : CStoreFreeSpace)
    (kept : Holes fspace)
    (fits : ∀ hole ∈ holes, hole.beginOffset + hole.size < 18446744073709551616)
    (pairwise : holes.Pairwise Apart) (new : ∀ hole ∈ holes, ∀ position, fspace.Entry position →
      Apart hole (fspace.descs position)) : Holes (holes.foldl push fspace) := by
  induction holes generalizing fspace with
  | nil => exact kept
  | cons hole rest ih =>
    obtain ⟨others, pairwise⟩ := pairwise_cons.mp pairwise
    have here := new hole mem_cons_self
    have pushed : Holes (push fspace hole) :=
      ⟨push_all fspace hole (fun desc => desc.beginOffset + desc.size < 18446744073709551616)
        kept.fits (fits hole mem_cons_self), push_pairwise fspace hole kept.apart here⟩
    refine ih (push fspace hole) pushed
      (fun other later => fits other (mem_cons_of_mem _ later)) pairwise ?_
    intro other later
    exact push_all fspace hole (Apart other) (new other (mem_cons_of_mem _ later))
      (others other later).symm

/-- The free space of a column that had none recorded has holes of one file. -/
theorem computeFreeSpace_holes (fspace : CStoreFreeSpace) (tuples : List CUDescTuple)
    (empty : fspace.descNum = 0) (each : ∀ extent ∈ extentsOf tuples, Extent extent)
    (apart : (extentsOf tuples).Pairwise Apart) : Holes (computeFreeSpace fspace tuples) := by
  have none (position : Nat) : ¬fspace.Entry position := by
    rintro ⟨low, high⟩
    omega
  have kept : Holes fspace :=
    ⟨fun position entry => absurd entry (none position),
      fun position _ entry => absurd entry (none position)⟩
  by_cases many : TooManyRuns (extentsOf tuples)
  · rw [computeFreeSpace_many fspace tuples many]
    exact kept
  · rw [computeFreeSpace_few fspace tuples each apart many]
    have coalesced := (mergeAll_spec each apart).1
    refine foldl_push_holes _ fspace kept ?_ ?_
      (fun _ _ position entry => absurd entry (none position))
    · intro hole member
      obtain ⟨run, inRuns, low, high⟩ := ((mem_holesOf _ coalesced hole).mp member).2.behind
      have fits := (coalesced.extents run inRuns).fits
      rw [CStoreFreeSpaceDesc.stop] at high fits
      omega
    · refine (holesOf_ordered _ coalesced).imp fun {first second} ordered byte both => ?_
      obtain ⟨⟨_, high⟩, low, _⟩ := both
      rw [CStoreFreeSpaceDesc.stop] at ordered
      omega

/-- Three rows, in the order of the scan: two units that leave a hole between them, and one in
front of the first. -/
def scannedRows : List CUDescTuple :=
  [⟨some 16384, 8192⟩, ⟨some 4096, 4096⟩, ⟨none, 0⟩, ⟨some 8192, 2048⟩]

theorem scannedRows_extents : extentsOf scannedRows = [⟨16384, 8192⟩, ⟨4096, 4096⟩, ⟨8192, 2048⟩] :=
  rfl

theorem scannedRows_each : ∀ extent ∈ extentsOf scannedRows, Extent extent := by
  intro extent member
  rw [scannedRows_extents] at member
  simp only [mem_cons, not_mem_nil, or_false] at member
  rcases member with rfl | rfl | rfl <;> exact ⟨by decide, by decide⟩

theorem scannedRows_apart : (extentsOf scannedRows).Pairwise Apart := by
  rw [scannedRows_extents]
  simp only [pairwise_cons, mem_cons, not_mem_nil, or_false, forall_eq_or_imp,
    forall_eq, List.Pairwise.nil, and_true, IsEmpty.forall_iff, implies_true]
  refine ⟨⟨?_, ?_⟩, ?_⟩ <;> exact (apart_iff _ _ (by decide) (by decide)).mpr (by decide)

/-- The free space of the rows. -/
def scannedSpace : CStoreFreeSpace := computeFreeSpace ⟨fun _ => ⟨0, 0⟩, 0, 2000⟩ scannedRows

theorem scannedSpace_holds (desc : CStoreFreeSpaceDesc) :
    scannedSpace.Holds desc ↔ desc = ⟨0, 4096⟩ ∨ desc = ⟨10240, 6144⟩ := by
  have count : scannedSpace.descNum = 2 := by decide
  have first : scannedSpace.descs 1 = ⟨10240, 6144⟩ := by decide
  have second : scannedSpace.descs 2 = ⟨0, 4096⟩ := by decide
  rw [CStoreFreeSpace.Holds]
  constructor
  · rintro ⟨position, low, high, rfl⟩
    obtain rfl | rfl : position = 1 ∨ position = 2 := by omega
    · exact .inr first
    · exact .inl second
  · rintro (rfl | rfl)
    · exact ⟨2, by decide, le_rfl, second⟩
    · exact ⟨1, le_rfl, by decide, first⟩

/-- The holes before and between the units. -/
theorem computeFreeSpace_exact_three : scannedSpace.descNum = 2 ∧ ∀ hole,
    (1024 < hole.size ∧ Hole (Covers (extentsOf scannedRows)) hole) ↔
      hole = ⟨0, 4096⟩ ∨ hole = ⟨10240, 6144⟩ := by
  have count : scannedSpace.descNum = 2 := by decide
  have few : ¬TooManyRuns (extentsOf scannedRows) := fun many =>
    absurd many.length (by decide)
  obtain ⟨holes, -, exact, counted, holds⟩ := (computeFreeSpace_exact ⟨fun _ => ⟨0, 0⟩, 0, 2000⟩
    scannedRows (by decide) scannedRows_each scannedRows_apart).2.2 few
  have length : holes.length = 2 := by
    have both := count.symm.trans counted
    lia
  refine ⟨count, fun hole => ?_⟩
  rw [← scannedSpace_holds, scannedSpace, holds hole,
    take_of_length_le (show holes.length ≤ 2000 - 0 by omega)]
  refine (exact hole).symm.trans ⟨.inr, fun either => either.resolve_left ?_⟩
  rintro ⟨position, low, high, -⟩
  exact absurd (low.trans high) (by decide)

/-- A column of one unit behind the begin of the file: the hole pushed is not between two units. A
column of three units with two holes between them: a free space with one place gets one of them. -/
theorem computeFreeSpace_not_between :
    (computeFreeSpace ⟨fun _ => ⟨0, 0⟩, 0, 2000⟩ [⟨some 4096, 1024⟩]).descNum = 1 ∧
      (computeFreeSpace ⟨fun _ => ⟨0, 0⟩, 0, 2000⟩ [⟨some 4096, 1024⟩]).descs 1 = ⟨0, 4096⟩ ∧
      (computeFreeSpace ⟨fun _ => ⟨0, 0⟩, 0, 1⟩
        [⟨some 0, 1024⟩, ⟨some 8192, 1024⟩, ⟨some 16384, 1024⟩]).descNum = 1 := by
  decide

end Exact

end OpenGauss.CStore
