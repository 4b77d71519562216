import OpenGauss.Base.Heap
import OpenGauss.Base.Run

/-!
# Reusing free space of a column file

A column file has holes, which `CStoreFreeSpace` keeps in a heap by size. A request takes the
largest hole, moves its begin up to a multiple of the alignment, hands out the front and puts the
rest back. When the begin moves, the size of the hole is reduced by the remainder of the begin
and not by the distance it moves, so that the rest ends behind the hole whenever the remainder is
less than half the alignment. Offsets and sizes have 64 bits.
-/
namespace OpenGauss.CStore

open Function OpenGauss.Base

/-- Addition of 64-bit numbers. -/
def add64 (first second : Nat) : Nat := (first + second) % 18446744073709551616

/-- Subtraction of 64-bit numbers. -/
def sub64 (first second : Nat) : Nat :=
  (first + 18446744073709551616 - second) % 18446744073709551616

/-- `CStoreFreeSpaceDesc`. -/
structure CStoreFreeSpaceDesc where
  beginOffset : Nat
  size : Nat
  deriving DecidableEq, Repr

/-- `CStoreFreeSpace`: a heap whose entries stand at the positions from one on. -/
structure CStoreFreeSpace where
  descs : Nat → CStoreFreeSpaceDesc
  descNum : Nat
  maxSize : Nat

/-- `CStoreFreeSpace::Push`; a full heap drops the entry. -/
def push (fsm : CStoreFreeSpace) (desc : CStoreFreeSpaceDesc) : CStoreFreeSpace :=
  if fsm.maxSize = fsm.descNum then fsm
  else
    { fsm with
      descNum := fsm.descNum + 1
      descs := siftUp CStoreFreeSpaceDesc.size desc (fsm.descNum + 1) fsm.descs
        (fsm.descNum + 1) }

/-- `CStoreFreeSpace::PopDescWithMaxSize`; an empty heap leaves the argument as it is. -/
def popDescWithMaxSize (fsm : CStoreFreeSpace) (desc : CStoreFreeSpaceDesc) :
    CStoreFreeSpaceDesc × CStoreFreeSpace :=
  if fsm.descNum = 0 then (desc, fsm)
  else
    let count := fsm.descNum - 1
    (fsm.descs 1, { fsm with
      descNum := count
      descs := siftDown CStoreFreeSpaceDesc.size (fsm.descs fsm.descNum) count count fsm.descs 1 })

/-- `CStoreFreeSpace::HasEnoughSpace`. -/
def hasEnoughSpace (fsm : CStoreFreeSpace) (size : Nat) : Bool :=
  if fsm.descNum = 0 then false else size ≤ (fsm.descs 1).size

/-- `CStoreAllocator::TryAcquireSpaceFromFSM`. -/
def tryAcquireSpaceFromFSM (fsm : CStoreFreeSpace) (size alignSize : Nat) :
    Option Nat × CStoreFreeSpace :=
  if hasEnoughSpace fsm (add64 size alignSize) = false then (none, fsm)
  else
    let (desc, fsm) := popDescWithMaxSize fsm { beginOffset := 0, size := 0 }
    let remainder := desc.beginOffset % alignSize
    let desc :=
      if remainder ≠ 0 then
        { beginOffset := sub64 (add64 desc.beginOffset alignSize) remainder
          size := sub64 desc.size remainder }
      else desc
    let rest : CStoreFreeSpaceDesc :=
      { beginOffset := add64 desc.beginOffset size
        size := sub64 desc.size size }
    (some desc.beginOffset, if 0 < rest.size then push fsm rest else fsm)

/-- A request for space. -/
structure SpaceRequest where
  size : Nat
  alignSize : Nat
  fits : size < 18446744073709551616
  positive : 0 < alignSize
  /-- The alignment is an `int`. -/
  small : alignSize < 2147483648

/-- A range that was handed out, and the alignment it was asked for with. -/
structure Grant where
  range : CStoreFreeSpaceDesc
  alignSize : Nat
  deriving DecidableEq, Repr

/-- The free space, and the ranges handed out so far. -/
structure SpaceRun where
  fsm : CStoreFreeSpace
  granted : List Grant

/-- One request. -/
def acquireStep (run : SpaceRun) (request : SpaceRequest) : SpaceRun :=
  match tryAcquireSpaceFromFSM run.fsm request.size request.alignSize with
  | (none, fsm) => { run with fsm }
  | (some offset, fsm) =>
    { fsm
      granted :=
        { range := { beginOffset := offset, size := request.size }
          alignSize := request.alignSize } :: run.granted }

/-- A byte of the file belongs to a range. -/
def CStoreFreeSpaceDesc.Has (range : CStoreFreeSpaceDesc) (byte : Nat) : Prop :=
  range.beginOffset ≤ byte ∧ byte < range.beginOffset + range.size

/-- Two ranges have no byte in common. -/
def Apart (first second : CStoreFreeSpaceDesc) : Prop :=
  ∀ byte, ¬(first.Has byte ∧ second.Has byte)

/-- A range lies inside another. -/
def Inside (range whole : CStoreFreeSpaceDesc) : Prop :=
  whole.beginOffset ≤ range.beginOffset ∧
    range.beginOffset + range.size ≤ whole.beginOffset + whole.size

theorem Apart.symm (first second : CStoreFreeSpaceDesc) (apart : Apart first second) :
    Apart second first :=
  fun byte both => apart byte ⟨both.2, both.1⟩

theorem Inside.apart {range whole other : CStoreFreeSpaceDesc} (inside : Inside range whole)
    (apart : Apart whole other) : Apart range other := by
  intro byte both
  obtain ⟨⟨low, high⟩, second⟩ := both
  obtain ⟨after, before⟩ := inside
  exact apart byte ⟨⟨by omega, by omega⟩, second⟩

theorem Inside.trans {first second third : CStoreFreeSpaceDesc} (inner : Inside first second)
    (outer : Inside second third) : Inside first third := by
  obtain ⟨innerLow, innerHigh⟩ := inner
  obtain ⟨outerLow, outerHigh⟩ := outer
  exact ⟨by omega, by omega⟩

/-- The positions of a heap's entries. -/
def CStoreFreeSpace.Entry (fsm : CStoreFreeSpace) (position : Nat) : Prop :=
  1 ≤ position ∧ position ≤ fsm.descNum

/-- The entries are holes of one file: pairwise apart, with ends that fit in 64 bits. -/
structure Holes (fsm : CStoreFreeSpace) : Prop where
  fits : ∀ position, fsm.Entry position →
    (fsm.descs position).beginOffset + (fsm.descs position).size < 18446744073709551616
  apart : ∀ position other, fsm.Entry position → fsm.Entry other → position ≠ other →
    Apart (fsm.descs position) (fsm.descs other)

/-- The ranges handed out lie in the holes there were at first, are aligned, and overlap neither
each other nor the holes there are now. -/
structure Exclusive (start : CStoreFreeSpace) (run : SpaceRun) : Prop where
  recorded : ∀ position, run.fsm.Entry position →
    ∃ hole, start.Entry hole ∧ Inside (run.fsm.descs position) (start.descs hole)
  apart : ∀ position other, run.fsm.Entry position → run.fsm.Entry other → position ≠ other →
    Apart (run.fsm.descs position) (run.fsm.descs other)
  inside : ∀ grant ∈ run.granted, ∃ hole, start.Entry hole ∧ Inside grant.range (start.descs hole)
  aligned : ∀ grant ∈ run.granted, grant.alignSize ∣ grant.range.beginOffset
  pairwise : run.granted.Pairwise fun first second => Apart first.range second.range
  free : ∀ grant ∈ run.granted, ∀ position, run.fsm.Entry position →
    Apart grant.range (run.fsm.descs position)

variable (start : CStoreFreeSpace) (fsm : CStoreFreeSpace) (desc : CStoreFreeSpaceDesc)

theorem popDescWithMaxSize_rearranged (some : fsm.descNum ≠ 0) :
    (popDescWithMaxSize fsm desc).1 = fsm.descs 1 ∧
      (popDescWithMaxSize fsm desc).2.descNum = fsm.descNum - 1 ∧
      (1 ≤ fsm.descNum - 1 → Rearranged (fsm.descNum - 1)
        (update fsm.descs 1 (fsm.descs fsm.descNum))
        (popDescWithMaxSize fsm desc).2.descs) := by
  rw [popDescWithMaxSize, if_neg some]
  refine ⟨rfl, rfl, ?_⟩
  intro more
  exact siftDown_rearranged _ _ _ _ _ _ le_rfl more

theorem update_first {position : Nat} (low : 1 ≤ position) (high : position ≤ fsm.descNum - 1) :
    ∃ source, fsm.Entry source ∧ source ≠ 1 ∧
      (source = if position = 1 then fsm.descNum else position) ∧
      update fsm.descs 1 (fsm.descs fsm.descNum) position = fsm.descs source := by
  by_cases first : position = 1
  · refine ⟨fsm.descNum, ⟨by omega, le_rfl⟩, by omega, (if_pos first).symm, ?_⟩
    rw [first, update_self]
  · refine ⟨position, ⟨low, by omega⟩, first, (if_neg first).symm, ?_⟩
    rw [update_of_ne first]

theorem popDescWithMaxSize_all (some : fsm.descNum ≠ 0) (property : CStoreFreeSpaceDesc → Prop)
    (holds : ∀ position, fsm.Entry position → position ≠ 1 → property (fsm.descs position)) :
    ∀ position, (popDescWithMaxSize fsm desc).2.Entry position →
      property ((popDescWithMaxSize fsm desc).2.descs position) := by
  obtain ⟨-, count, rearranged⟩ := popDescWithMaxSize_rearranged fsm desc some
  intro position entry
  rw [CStoreFreeSpace.Entry, count] at entry
  apply (rearranged (by omega)).all _ _ _ property _ position entry.1 entry.2
  intro other low high
  obtain ⟨source, present, later, -, same⟩ := update_first fsm low high
  rw [same]
  exact holds source present later

/-- Taking the largest entry keeps the others apart. -/
theorem popDescWithMaxSize_pairwise (some : fsm.descNum ≠ 0)
    (apart : ∀ position other, fsm.Entry position → fsm.Entry other → position ≠ other →
      Apart (fsm.descs position) (fsm.descs other)) :
    ∀ position other, (popDescWithMaxSize fsm desc).2.Entry position →
      (popDescWithMaxSize fsm desc).2.Entry other → position ≠ other →
      Apart ((popDescWithMaxSize fsm desc).2.descs position)
        ((popDescWithMaxSize fsm desc).2.descs other) := by
  obtain ⟨-, count, rearranged⟩ := popDescWithMaxSize_rearranged fsm desc some
  intro position other entry entry' differ
  rw [CStoreFreeSpace.Entry, count] at entry entry'
  apply (rearranged (by omega)).pairwise _ _ _ Apart _ position other entry.1 entry.2 entry'.1
    entry'.2 differ
  intro first second low high low' high' apartPositions
  obtain ⟨source, present, -, place, same⟩ := update_first fsm low high
  obtain ⟨source', present', -, place', same'⟩ := update_first fsm low' high'
  rw [same, same']
  apply apart source source' present present'
  rw [place, place']
  split_ifs <;> omega

/-- What holds of all entries and the new one holds after. -/
theorem push_all (property : CStoreFreeSpaceDesc → Prop)
    (holds : ∀ position, fsm.Entry position → property (fsm.descs position)) (new : property desc) :
    ∀ position, (push fsm desc).Entry position → property ((push fsm desc).descs position) := by
  rw [push]
  split
  · exact holds
  · intro position entry
    have rearranged := siftUp_rearranged CStoreFreeSpaceDesc.size desc (fsm.descNum + 1)
      (fsm.descNum + 1) fsm.descs (fsm.descNum + 1) (by omega) le_rfl
    apply rearranged.all _ _ _ property _ position entry.1 entry.2
    intro other low high
    by_cases last : other = fsm.descNum + 1
    · rw [last, update_self]
      exact new
    · rw [update_of_ne last]
      exact holds other ⟨low, by omega⟩

/-- A hole apart from all entries keeps them apart. -/
theorem push_pairwise
    (apart : ∀ position other, fsm.Entry position → fsm.Entry other → position ≠ other →
      Apart (fsm.descs position) (fsm.descs other))
    (new : ∀ position, fsm.Entry position → Apart desc (fsm.descs position)) :
    ∀ position other, (push fsm desc).Entry position → (push fsm desc).Entry other →
      position ≠ other → Apart ((push fsm desc).descs position) ((push fsm desc).descs other) := by
  rw [push]
  split
  · exact apart
  · intro position other entry entry' differ
    have rearranged := siftUp_rearranged CStoreFreeSpaceDesc.size desc (fsm.descNum + 1)
      (fsm.descNum + 1) fsm.descs (fsm.descNum + 1) (by omega) le_rfl
    apply rearranged.pairwise _ _ _ Apart _ position other entry.1 entry.2 entry'.1 entry'.2 differ
    intro first second low high low' high' apartPositions
    by_cases last : first = fsm.descNum + 1
    · rw [last, update_self, update_of_ne (by omega)]
      exact new second ⟨low', by omega⟩
    · rw [update_of_ne last]
      by_cases last' : second = fsm.descNum + 1
      · rw [last', update_self]
        exact (new first ⟨low, by omega⟩).symm
      · rw [update_of_ne last']
        exact apart first second ⟨low, by omega⟩ ⟨low', by omega⟩ apartPositions

/-- The request is granted only if the begin of the largest hole needs no move or has a remainder
of at least half the alignment, and the size with the alignment fits in 64 bits. -/
def TrimSafe (run : SpaceRun) (request : SpaceRequest) : Prop :=
  hasEnoughSpace run.fsm (add64 request.size request.alignSize) = true →
    request.size + request.alignSize < 18446744073709551616 ∧
      ((run.fsm.descs 1).beginOffset % request.alignSize = 0 ∨
        request.alignSize ≤ 2 * ((run.fsm.descs 1).beginOffset % request.alignSize))

/-- The range and the rest of a granted request. -/
structure Granted (hole range rest : CStoreFreeSpaceDesc) (alignSize : Nat) : Prop where
  inside : Inside range hole
  aligned : alignSize ∣ range.beginOffset
  left : Inside rest hole
  apart : Apart range rest

/-- What is cut off a hole whose begin has a safe remainder. -/
theorem granted_of_trimSafe {hole : CStoreFreeSpaceDesc} {size alignSize : Nat}
    (fits : hole.beginOffset + hole.size < 18446744073709551616)
    (positive : 0 < alignSize) (enough : size + alignSize ≤ hole.size)
    (safe : hole.beginOffset % alignSize = 0 ∨ alignSize ≤ 2 * (hole.beginOffset % alignSize)) :
    let moved : CStoreFreeSpaceDesc :=
      if hole.beginOffset % alignSize ≠ 0 then
        { beginOffset :=
            sub64 (add64 hole.beginOffset alignSize) (hole.beginOffset % alignSize)
          size := sub64 hole.size (hole.beginOffset % alignSize) }
      else hole
    Granted hole { beginOffset := moved.beginOffset, size }
      { beginOffset := add64 moved.beginOffset size, size := sub64 moved.size size }
      alignSize := by
  intro moved
  have below := Nat.mod_lt hole.beginOffset positive
  have whole := Nat.div_add_mod hole.beginOffset alignSize
  by_cases zero : hole.beginOffset % alignSize = 0
  · have same : moved = hole := if_neg (not_not_intro zero)
    rw [same]
    refine
      { inside := ⟨le_rfl, by dsimp only; omega⟩
        aligned := Nat.dvd_of_mod_eq_zero zero
        left := ?_
        apart := ?_ }
    · simp only [Inside, add64, sub64]
      lia
    · intro byte both
      simp only [CStoreFreeSpaceDesc.Has, add64] at both
      lia
  · have same : moved =
        { beginOffset := sub64 (add64 hole.beginOffset alignSize) (hole.beginOffset % alignSize)
          size := sub64 hole.size (hole.beginOffset % alignSize) } := if_pos zero
    rw [same]
    -- The begin moves to the next multiple.
    have begins : sub64 (add64 hole.beginOffset alignSize) (hole.beginOffset % alignSize) =
        alignSize * (hole.beginOffset / alignSize) + alignSize := by
      generalize alignSize * (hole.beginOffset / alignSize) = multiple at whole ⊢
      simp only [sub64, add64]
      omega
    rw [begins]
    generalize product : alignSize * (hole.beginOffset / alignSize) = multiple at whole ⊢
    generalize hole.beginOffset % alignSize = remainder at below whole zero safe ⊢
    refine
      { inside := ?_
        aligned := ?_
        left := ?_
        apart := ?_ }
    · simp only [Inside]
      omega
    · rw [← product]
      exact Nat.dvd_add (Nat.dvd_mul_right _ _) (Nat.dvd_refl _)
    · simp only [Inside, add64, sub64]
      omega
    · intro byte both
      simp only [CStoreFreeSpaceDesc.Has, add64] at both
      omega

/-- Space is granted from the largest entry, whose rest is put back. -/
theorem tryAcquireSpaceFromFSM_spec {run : SpaceRun} {request : SpaceRequest}
    (safe : TrimSafe run request)
    (fits : ∀ position, run.fsm.Entry position → (run.fsm.descs position).beginOffset +
      (run.fsm.descs position).size < 18446744073709551616) :
    tryAcquireSpaceFromFSM run.fsm request.size request.alignSize = (none, run.fsm) ∨
    ∃ offset rest, run.fsm.Entry 1 ∧
      tryAcquireSpaceFromFSM run.fsm request.size request.alignSize = (some offset,
        if 0 < rest.size then
          push (popDescWithMaxSize run.fsm { beginOffset := 0, size := 0 }).2 rest
        else (popDescWithMaxSize run.fsm { beginOffset := 0, size := 0 }).2) ∧
      Granted (run.fsm.descs 1) { beginOffset := offset, size := request.size } rest
        request.alignSize := by
  simp only [tryAcquireSpaceFromFSM]
  split
  · exact .inl rfl
  · rename_i enough
    rw [Bool.not_eq_false] at enough
    obtain ⟨sum, remainder⟩ := safe enough
    have some : run.fsm.descNum ≠ 0 := by
      intro empty
      simp [hasEnoughSpace, empty] at enough
    have entry : run.fsm.Entry 1 := ⟨le_rfl, by omega⟩
    have large : request.size + request.alignSize ≤ (run.fsm.descs 1).size := by
      simp only [hasEnoughSpace, if_neg some, add64, Nat.mod_eq_of_lt sum, decide_eq_true_eq]
        at enough
      exact enough
    have granted := granted_of_trimSafe (fits 1 entry) request.positive large remainder
    right
    obtain ⟨first, -, -⟩ := popDescWithMaxSize_rearranged run.fsm
      { beginOffset := 0, size := 0 } some
    simp only [first]
    exact ⟨_, _, entry, rfl, granted⟩

/-- A request with a safe remainder keeps ranges and holes exclusive. -/
theorem Exclusive.step (holes : Holes start) (run : SpaceRun)
    (request : SpaceRequest) (exclusive : Exclusive start run) (safe : TrimSafe run request) :
    Exclusive start (acquireStep run request) := by
  have fits (position : Nat) (entry : run.fsm.Entry position) :
      (run.fsm.descs position).beginOffset + (run.fsm.descs position).size <
        18446744073709551616 := by
    obtain ⟨hole, present, inside⟩ := exclusive.recorded position entry
    exact lt_of_le_of_lt inside.2 (holes.fits hole present)
  rcases tryAcquireSpaceFromFSM_spec safe fits with refused | given
  · rw [acquireStep, refused]
    exact exclusive
  obtain ⟨offset, rest, first, result, granted⟩ := given
  have some : run.fsm.descNum ≠ 0 := by
    have := first.2
    omega
  rw [acquireStep, result]
  generalize popped : popDescWithMaxSize run.fsm { beginOffset := 0, size := 0 } = pop at result ⊢
  have left := popDescWithMaxSize_all run.fsm { beginOffset := 0, size := 0 } some
  have leftApart := popDescWithMaxSize_pairwise run.fsm { beginOffset := 0, size := 0 } some
    exclusive.apart
  rw [popped] at left leftApart
  -- What is inside the hole that was taken is apart from the entries left.
  have cut (range : CStoreFreeSpaceDesc) (inside : Inside range (run.fsm.descs 1)) :
      ∀ position, pop.2.Entry position → Apart range (pop.2.descs position) := by
    apply left (fun desc => Apart range desc)
    intro position entry later
    exact inside.apart (exclusive.apart 1 position first entry later.symm)
  obtain ⟨origin, originEntry, originInside⟩ := exclusive.recorded 1 first
  have entries (property : CStoreFreeSpaceDesc → Prop)
      (others : ∀ position, pop.2.Entry position → property (pop.2.descs position))
      (last : property rest) :
      ∀ position, (if 0 < rest.size then push pop.2 rest else pop.2).Entry position →
        property ((if 0 < rest.size then push pop.2 rest else pop.2).descs position) := by
    split
    · exact push_all pop.2 rest property others last
    · exact others
  refine
    { recorded := ?recorded
      apart := ?apart
      inside := ?inside
      aligned := ?aligned
      pairwise := ?pairwise
      free := ?free }
  case recorded =>
    apply entries (fun desc => ∃ hole, start.Entry hole ∧ Inside desc (start.descs hole))
    · apply left (fun desc => ∃ hole, start.Entry hole ∧ Inside desc (start.descs hole))
      exact fun position entry _ => exclusive.recorded position entry
    · exact ⟨origin, originEntry, granted.left.trans originInside⟩
  case apart =>
    dsimp only
    split
    · exact push_pairwise pop.2 rest leftApart (cut rest granted.left)
    · exact leftApart
  case inside =>
    intro grant member
    rcases List.mem_cons.mp member with new | old
    · rw [new]
      exact ⟨origin, originEntry, granted.inside.trans originInside⟩
    · exact exclusive.inside grant old
  case aligned =>
    intro grant member
    rcases List.mem_cons.mp member with new | old
    · rw [new]
      exact granted.aligned
    · exact exclusive.aligned grant old
  case pairwise =>
    apply List.Pairwise.cons
    · intro grant old
      exact granted.inside.apart (exclusive.free grant old 1 first).symm
    · exact exclusive.pairwise
  case free =>
    intro grant member
    rcases List.mem_cons.mp member with new | old
    · rw [new]
      exact entries (fun desc => Apart _ desc) (cut _ granted.inside) granted.apart
    · apply entries (fun desc => Apart grant.range desc)
      · apply left
        exact fun position entry _ => exclusive.free grant old position entry
      · exact (granted.left.apart (exclusive.free grant old 1 first).symm).symm

theorem Exclusive.initial (holes : Holes start) :
    Exclusive start { fsm := start, granted := [] } :=
  { recorded := fun position entry => ⟨position, entry, le_rfl, le_rfl⟩
    apart := holes.apart
    inside := fun _ member => absurd member List.not_mem_nil
    aligned := fun _ member => absurd member List.not_mem_nil
    pairwise := List.Pairwise.nil
    free := fun _ member => absurd member List.not_mem_nil }

/-- Free space is reused exclusively in every run of requests with safe remainders, from any heap
of holes. -/
theorem free_space_is_exclusive (start : CStoreFreeSpace) (holes : Holes start)
    (requests : List SpaceRequest)
    (safe : Along acquireStep TrimSafe { fsm := start, granted := [] } requests) :
    Exclusive start (requests.foldl acquireStep { fsm := start, granted := [] }) :=
  along_invariant acquireStep TrimSafe (Exclusive start)
    (fun run request before trim => before.step start holes run request trim) _ requests
    (Exclusive.initial start holes) safe

/-- A column file with one hole. -/
def oneHole (beginOffset size : Nat) : CStoreFreeSpace :=
  { descs := fun _ => { beginOffset, size }
    descNum := 1
    maxSize := 10 }

theorem oneHole_holes (beginOffset size : Nat)
    (fits : beginOffset + size < 18446744073709551616) : Holes (oneHole beginOffset size) :=
  { fits := fun _ _ => fits
    apart := fun position other entry entry' differ => by
      have one := entry.2
      have one' := entry'.2
      have low := entry.1
      have low' := entry'.1
      simp only [oneHole] at one one'
      omega }

/-- A request for space of a compression unit. -/
def unitRequest (size : Nat) (fits : size < 18446744073709551616) : SpaceRequest :=
  { size
    alignSize := 8192
    fits
    positive := by decide
    small := by decide }

/-- Two requests from a hole that begins at a multiple of the alignment. -/
theorem free_space_is_exclusive_aligned :
    (([unitRequest 8192 (by decide), unitRequest 16384 (by decide)].foldl acquireStep
      { fsm := oneHole 8192 65536, granted := [] }).granted.map fun grant =>
        grant.range.beginOffset) = [16384, 8192] ∧
    Exclusive (oneHole 8192 65536)
      ([unitRequest 8192 (by decide), unitRequest 16384 (by decide)].foldl acquireStep
        { fsm := oneHole 8192 65536, granted := [] }) := by
  refine ⟨by decide, free_space_is_exclusive (oneHole 8192 65536)
    (oneHole_holes 8192 65536 (by decide)) _ ⟨fun _ => ?_, fun _ => ?_, trivial⟩⟩
  · exact ⟨by decide, .inl (by decide)⟩
  · exact ⟨by decide, .inl (by decide)⟩

/-- A hole that begins 512 bytes behind a multiple of the alignment ends at 33280. After a request
of 512 bytes the rest is recorded with an end behind that, and a second request is given a range
that ends behind the hole. -/
theorem free_space_reaches_behind_hole : Holes (oneHole 512 32768) ∧
    (([unitRequest 512 (by decide), unitRequest 20480 (by decide)].foldl acquireStep
      { fsm := oneHole 512 32768, granted := [] }).granted.map fun grant => grant.range) =
      [{ beginOffset := 16384, size := 20480 }, { beginOffset := 8192, size := 512 }] ∧
    ¬∃ hole, (oneHole 512 32768).Entry hole ∧
      Inside { beginOffset := 16384, size := 20480 } ((oneHole 512 32768).descs hole) := by
  refine ⟨oneHole_holes 512 32768 (by decide), by decide, ?_⟩
  rintro ⟨hole, -, inside⟩
  have ends := inside.2
  simp only [oneHole] at ends
  omega

end OpenGauss.CStore
