import Mathlib.Data.List.Basic
import Mathlib.Data.List.GetD
import Mathlib.Data.List.Range
import Mathlib.Tactic.Linarith

/-!
# Scattered buffers

A file is a function from offsets to bytes. A buffer of several pieces of one size is stored in
numbered places of a file, and pieces whose places follow each other are moved by one call. The
module has the calls, the loops that join adjacent pieces, and what a buffer reads as after it
was stored, after others were stored elsewhere and after a hole was punched.
-/
namespace OpenGauss.Base

open List

/-- Read bytes from an offset. -/
def pread (file : Nat → UInt8) (offset count : Nat) : List UInt8 :=
  (List.range count).map fun index => file (offset + index)

/-- Write bytes at an offset. -/
def pwrite (file : Nat → UInt8) (offset : Nat) (bytes : List UInt8) : Nat → UInt8 :=
  fun position =>
    if offset ≤ position ∧ position < offset + bytes.length then bytes.getD (position - offset) 0
    else file position

/-- Punch a hole: the range reads as zeros. -/
def punch (file : Nat → UInt8) (offset count : Nat) : Nat → UInt8 :=
  fun position => if offset ≤ position ∧ position < offset + count then 0 else file position

/-- The number of entries at the front of a list that count on from a number. -/
def runLength : Nat → List Nat → Nat
  | _, [] => 0
  | previous, next :: rest => if next = previous + 1 then runLength next rest + 1 else 0

section Pieces

variable (size : Nat) (place : Nat → Nat)

/-- Read pieces one by one. -/
def readPieces (file : Nat → UInt8) (pieces : List Nat) : List UInt8 :=
  pieces.flatMap fun piece => pread file (place piece) size

/-- Write a buffer piece by piece. -/
def writePieces (file : Nat → UInt8) : List Nat → List UInt8 → Nat → UInt8
  | [], _ => file
  | piece :: rest, buffer =>
    writePieces (pwrite file (place piece) (buffer.take size)) rest (buffer.drop size)

/-- Read pieces, adjacent ones by one call. -/
def readRuns (file : Nat → UInt8) : Nat → List Nat → List UInt8
  | 0, _ => []
  | _ + 1, [] => []
  | fuel + 1, piece :: rest =>
    let more := runLength piece rest
    pread file (place piece) (size * (more + 1)) ++ readRuns file fuel (rest.drop more)

/-- The pieces at which the calls start. -/
def runStarts : Nat → List Nat → List Nat
  | 0, _ => []
  | _ + 1, [] => []
  | fuel + 1, piece :: rest => piece :: runStarts fuel (rest.drop (runLength piece rest))

/-- Write a buffer, adjacent pieces by one call. -/
def writeRuns : Nat → (Nat → UInt8) → List Nat → List UInt8 → Nat → UInt8
  | 0, file, _, _ => file
  | _ + 1, file, [], _ => file
  | fuel + 1, file, piece :: rest, buffer =>
    let more := runLength piece rest
    let amount := size * (more + 1)
    writeRuns fuel (pwrite file (place piece) (buffer.take amount)) (rest.drop more)
      (buffer.drop amount)

end Pieces

variable (previous : Nat) (entries : List Nat) (file : Nat → UInt8) (offset : Nat)
  (bytes : List UInt8)

/-- A read returns as many bytes as were asked for. -/
@[simp]
theorem pread_length (offset count : Nat) : (pread file offset count).length = count := by
  simp [pread]

/-- A read splits into two that follow each other. -/
theorem pread_add (offset first second : Nat) : pread file offset (first + second) =
      pread file offset first ++ pread file (offset + first) second := by
  simp only [pread, range_add, map_append, map_map]
  congr 1
  apply map_congr_left
  intro index _
  simp only [Function.comp_apply]
  congr 1
  omega

/-- Files that agree on a range read the same there. -/
theorem pread_congr (first second : Nat → UInt8) (offset count : Nat)
    (agree : ∀ position, offset ≤ position → position < offset + count →
      first position = second position) : pread first offset count = pread second offset count := by
  apply map_congr_left
  intro index member
  have inside := mem_range.mp member
  exact agree (offset + index) (by omega) (by omega)

/-- A write is read back. -/
theorem pread_pwrite : pread (pwrite file offset bytes) offset bytes.length = bytes := by
  apply ext_getElem
  · simp
  · intro index low high
    simp only [pread, getElem_map, getElem_range, pwrite]
    rw [if_pos ⟨by omega, by omega⟩, Nat.add_sub_cancel_left, getD_eq_getElem _ _ high]

/-- Reading inside what was written reads its source. -/
theorem pread_pwrite_inside (file source : Nat → UInt8) (offset count inner length : Nat)
    (inside : inner + length ≤ count) :
    pread (pwrite file offset (pread source 0 count)) (offset + inner) length =
      pread source inner length := by
  apply map_congr_left
  intro index member
  have low := mem_range.mp member
  rw [pwrite, pread_length, if_pos ⟨by omega, by lia⟩]
  have bound : offset + inner + index - offset < (pread source 0 count).length := by
    rw [pread_length]
    omega
  rw [getD_eq_getElem _ _ bound]
  simp only [pread, getElem_map, getElem_range]
  congr 1
  omega

variable {offset bytes}

/-- A read apart from a write does not see it. -/
theorem pread_pwrite_apart
    {other count : Nat} (apart : other + count ≤ offset ∨ offset + bytes.length ≤ other) :
    pread (pwrite file offset bytes) other count = pread file other count := by
  apply pread_congr
  intro position low high
  rw [pwrite, if_neg (by lia)]

/-- A write keeps the bytes apart from it. -/
theorem pwrite_apart {position : Nat}
    (apart : position < offset ∨ offset + bytes.length ≤ position) :
    pwrite file offset bytes position = file position := by
  unfold pwrite
  rw [if_neg (by omega)]

/-- A copied range has the bytes of its source. -/
theorem pwrite_pread (file source : Nat → UInt8) (offset start count position : Nat)
    (low : offset ≤ position) (high : position < offset + count) :
    pwrite file offset (pread source start count) position = source (start + (position - offset)) := by
  have inside : position - offset < (pread source start count).length := by
    rw [pread_length]
    omega
  unfold pwrite
  rw [if_pos (by rw [pread_length]; omega), getD_eq_getElem _ _ inside]
  simp only [pread, getElem_map, getElem_range]

/-- A read apart from a hole does not see it. -/
theorem pread_punch_apart {offset count other length : Nat}
    (apart : other + length ≤ offset ∨ offset + count ≤ other) :
    pread (punch file offset count) other length = pread file other length := by
  apply pread_congr
  intro position low high
  rw [punch, if_neg (by lia)]

variable (offset)

/-- Two parts are written one behind the other. -/
theorem pwrite_append (first second : List UInt8) : pwrite file offset (first ++ second) =
      pwrite (pwrite file offset first) (offset + first.length) second := by
  funext position
  simp only [pwrite, length_append]
  by_cases low : offset ≤ position
  · by_cases inFirst : position < offset + first.length
    · rw [if_pos ⟨low, by omega⟩, if_neg (by omega), if_pos ⟨low, inFirst⟩,
        getD_append _ _ _ _ (by omega)]
    · by_cases inSecond : position < offset + first.length + second.length
      · rw [if_pos ⟨low, by omega⟩, if_pos ⟨by omega, inSecond⟩,
          getD_append_right _ _ _ _ (by omega)]
        congr 1
        omega
      · rw [if_neg (by omega), if_neg (by omega), if_neg (by omega)]
  · rw [if_neg (by omega), if_neg (by omega), if_neg (by omega)]

/-- An empty write changes nothing. -/
theorem pwrite_nil : pwrite file offset [] = file := by
  funext position
  rw [pwrite, if_neg]
  simp only [length_nil]
  omega

/-- The entries of a run are consecutive. -/
theorem runLength_take : entries.take (runLength previous entries) =
      List.range' (previous + 1) (runLength previous entries) := by
  induction entries generalizing previous with
  | nil => rfl
  | cons next rest ih =>
    rw [runLength]
    split
    · rename_i follows
      rw [take_succ_cons, range'_succ, ih next, follows]
    · rfl

/-- A run is no longer than the list. -/
theorem runLength_le : runLength previous entries ≤ entries.length := by
  induction entries generalizing previous with
  | nil => exact le_rfl
  | cons next rest ih =>
    rw [runLength]
    split
    · exact Nat.succ_le_succ (ih next)
    · exact Nat.zero_le _

/-- A run starts at one of the pieces. -/
theorem mem_of_mem_runStarts (fuel : Nat) (pieces : List Nat) (piece : Nat)
    (start : piece ∈ runStarts fuel pieces) : piece ∈ pieces := by
  induction fuel generalizing pieces with
  | zero => simp [runStarts] at start
  | succ fuel ih =>
    cases pieces with
    | nil => simp [runStarts] at start
    | cons first rest =>
      rw [runStarts, mem_cons] at start
      obtain same | later := start
      · rw [same]
        exact mem_cons_self
      · exact mem_cons_of_mem _ (mem_of_mem_drop (ih _ later))

/-- A list is its first run and the rest. -/
theorem runLength_split (piece : Nat) (rest : List Nat) :
    piece :: rest = List.range' piece (runLength piece rest + 1) ++
      rest.drop (runLength piece rest) := by
  rw [range'_succ, ← runLength_take, cons_append, take_append_drop]

section Pieces

variable (size : Nat) (place : Nat → Nat)

/-- Pieces that count on from 1 lie side by side. -/
def SideBySide : Prop := ∀ piece, 1 ≤ piece → place (piece + 1) = place piece + size

/-- Pieces that lie side by side do not overlap. -/
theorem SideBySide.apart (beside : SideBySide size place) {first second : Nat} (low : 1 ≤ first)
    (less : first < second) : place first + size ≤ place second := by
  induction second with
  | zero => omega
  | succ second ih =>
    by_cases last : first = second
    · rw [last, beside second (by omega)]
    · rw [beside second (by omega)]
      omega

variable (file : Nat → UInt8) (first second : List Nat)

/-- Pieces in a row are read in a row. -/
theorem readPieces_append : readPieces size place file (first ++ second) =
      readPieces size place file first ++ readPieces size place file second := by
  rw [readPieces, flatMap_append, ← readPieces, ← readPieces]

/-- Consecutive pieces are one read. -/
theorem readPieces_range (beside : SideBySide size place) (first count : Nat)
    (positive : 1 ≤ first) : readPieces size place file (List.range' first count) =
      pread file (place first) (size * count) := by
  induction count generalizing first with
  | zero => rfl
  | succ count ih =>
    have rest := ih (first + 1) (by omega)
    rw [beside first positive] at rest
    rw [range'_succ, readPieces, flatMap_cons, ← readPieces, rest, Nat.mul_succ,
      Nat.add_comm (size * count) size, pread_add]

/-- Reading by runs reads all pieces in order. -/
theorem readRuns_eq (beside : SideBySide size place) (fuel : Nat)
    (pieces : List Nat) (enough : pieces.length ≤ fuel) (positive : ∀ piece ∈ pieces, 1 ≤ piece) :
    readRuns size place file fuel pieces = readPieces size place file pieces := by
  induction fuel generalizing pieces with
  | zero =>
    have empty : pieces = [] := eq_nil_of_length_eq_zero (by omega)
    rw [empty]
    rfl
  | succ fuel ih =>
    cases pieces with
    | nil => rfl
    | cons piece rest =>
      have tail := ih (rest.drop (runLength piece rest)) (by
          rw [length_drop]
          rw [length_cons] at enough
          omega)
        (fun other member => positive other (mem_cons_of_mem _ (mem_of_mem_drop member)))
      rw [readRuns, tail, runLength_split piece rest, readPieces_append,
        readPieces_range size place file beside piece _ (positive piece mem_cons_self)]

/-- Pieces in a row are written in a row. -/
theorem writePieces_append (buffer : List UInt8) :
    writePieces size place file (first ++ second) buffer =
      writePieces size place (writePieces size place file first buffer) second
        (buffer.drop (size * first.length)) := by
  induction first generalizing file buffer with
  | nil => simp [writePieces]
  | cons piece rest ih =>
    rw [cons_append, writePieces, ih, writePieces, drop_drop, length_cons,
      Nat.mul_succ, Nat.add_comm (size * rest.length) size]

section

variable (beside : SideBySide size place)
include beside

/-- Pieces in a row are written at once. -/
theorem writePieces_range (first count : Nat) (buffer : List UInt8) (positive : 1 ≤ first)
    (full : size * count ≤ buffer.length) :
    writePieces size place file (List.range' first count) buffer =
      pwrite file (place first) (buffer.take (size * count)) := by
  induction count generalizing file first buffer with
  | zero => rw [range'_zero, writePieces, Nat.mul_zero, take_zero, pwrite_nil]
  | succ count ih =>
    rw [Nat.mul_succ] at full
    have head : (buffer.take size).length = size := by
      rw [length_take]
      lia
    rw [range'_succ, writePieces,
      ih (pwrite file (place first) (buffer.take size)) (first + 1) (buffer.drop size) (by omega)
        (by
          rw [length_drop]
          omega),
      beside first positive, Nat.mul_succ, Nat.add_comm (size * count) size, take_add,
      pwrite_append, head]

/-- Writing by runs writes all pieces in order. -/
theorem writeRuns_eq (fuel : Nat)
    (pieces : List Nat) (buffer : List UInt8) (enough : pieces.length ≤ fuel)
    (positive : ∀ piece ∈ pieces, 1 ≤ piece) (full : size * pieces.length ≤ buffer.length) :
    writeRuns size place fuel file pieces buffer = writePieces size place file pieces buffer := by
  induction fuel generalizing file pieces buffer with
  | zero =>
    have empty : pieces = [] := eq_nil_of_length_eq_zero (by omega)
    rw [empty]
    rfl
  | succ fuel ih =>
    cases pieces with
    | nil => rfl
    | cons piece rest =>
      have shorter := runLength_le piece rest
      have split : size * (piece :: rest).length = size * (runLength piece rest + 1) +
          size * (rest.drop (runLength piece rest)).length := by
        rw [← Nat.mul_add]
        grind
      have left : (buffer.drop (size * (runLength piece rest + 1))).length =
          buffer.length - size * (runLength piece rest + 1) := length_drop
      rw [writeRuns,
        ih _ (rest.drop (runLength piece rest)) (buffer.drop (size * (runLength piece rest + 1)))
          (by
            rw [length_drop]
            rw [length_cons] at enough
            lia)
          (fun other member =>
            positive other (mem_cons_of_mem _ (mem_of_mem_drop member)))
          (by
            omega)]
      conv_rhs => rw [runLength_split piece rest]
      rw [writePieces_append, length_range', writePieces_range size place file beside piece _ buffer
          (positive piece mem_cons_self) (by omega)]

/-- Writing pieces keeps every other piece. -/
theorem pread_writePieces_other
    (pieces : List Nat) (buffer : List UInt8) (other : Nat) (low : 1 ≤ other)
    (positive : ∀ piece ∈ pieces, 1 ≤ piece) (absent : other ∉ pieces) :
    pread (writePieces size place file pieces buffer) (place other) size =
      pread file (place other) size := by
  induction pieces generalizing file buffer with
  | nil => rfl
  | cons piece rest ih =>
    rw [mem_cons, not_or] at absent
    rw [writePieces, ih _ _ (fun piece member => positive piece (mem_cons_of_mem _ member))
      absent.2]
    apply pread_pwrite_apart
    have short : (buffer.take size).length ≤ size := length_take_le _ _
    have pieceLow := positive piece mem_cons_self
    obtain less | more := Nat.lt_or_gt_of_ne absent.1
    · exact .inl (beside.apart size place low less)
    · have gap := beside.apart size place pieceLow more
      exact .inr (by omega)

/-- Writing some pieces keeps the others. -/
theorem readPieces_writePieces_other
    {pieces others : List Nat} (buffer : List UInt8) (positive : ∀ piece ∈ pieces, 1 ≤ piece)
    (othersPositive : ∀ piece ∈ others, 1 ≤ piece) (apart : ∀ piece ∈ others, piece ∉ pieces) :
    readPieces size place (writePieces size place file pieces buffer) others =
      readPieces size place file others := by
  apply flatMap_congr
  intro other member
  exact pread_writePieces_other size place file beside pieces buffer other
    (othersPositive other member) positive (apart other member)

/-- What is written into distinct pieces is read back. -/
theorem readPieces_writePieces
    (pieces : List Nat) (buffer : List UInt8) (positive : ∀ piece ∈ pieces, 1 ≤ piece)
    (distinct : pieces.Nodup) (full : buffer.length = size * pieces.length) :
    readPieces size place (writePieces size place file pieces buffer) pieces = buffer := by
  induction pieces generalizing file buffer with
  | nil =>
    rw [eq_nil_of_length_eq_zero full]
    rfl
  | cons piece rest ih =>
    rw [length_cons, Nat.mul_succ] at full
    obtain ⟨absent, restDistinct⟩ := nodup_cons.mp distinct
    have restPositive (other : Nat) (member : other ∈ rest) : 1 ≤ other :=
      positive other (mem_cons_of_mem _ member)
    have head : (buffer.take size).length = size := by
      rw [length_take]
      lia
    have first : pread (writePieces size place
        (pwrite file (place piece) (buffer.take size)) rest (buffer.drop size)) (place piece) size =
        buffer.take size := by
      rw [pread_writePieces_other size place _ beside rest _ piece
        (positive piece mem_cons_self) restPositive absent]
      have back := pread_pwrite file (place piece) (buffer.take size)
      rw [head] at back
      exact back
    rw [writePieces, readPieces, flatMap_cons, ← readPieces, first,
      ih _ (buffer.drop size) restPositive restDistinct (by
          rw [length_drop]
          omega),
      take_append_drop]

end

/-- A hole behind the pieces keeps them. -/
theorem readPieces_punch (pieces : List Nat) (offset count : Nat)
    (before : ∀ piece ∈ pieces, place piece + size ≤ offset) :
    readPieces size place (punch file offset count) pieces = readPieces size place file pieces := by
  apply flatMap_congr
  intro piece member
  exact pread_punch_apart file (.inl (before piece member))

end Pieces

end OpenGauss.Base
