import Mathlib.Data.List.Range
import Mathlib.Logic.Function.Basic

/-!
# Copying cells

A move copies one cell of a source to one of a target. Moves that agree on where each target cell
comes from have the same outcome in any order and any number of times, so that two lists of the same
moves do the same. A block is transposed by moves, and the cells of a grid are covered by blocks and
the lines that remain.
-/
namespace OpenGauss.Base

open List

variable {α : Type}

/-- One cell is copied. -/
structure Move where
  dst : Nat
  src : Nat

/-- Cells are copied one after the other. -/
def runMoves (source target : Nat → α) (moves : List Move) : Nat → α :=
  moves.foldl (fun target move => Function.update target move.dst (source move.src)) target

/-- Moves agree on where each target cell comes from. -/
def Consistent (moves : List Move) : Prop :=
  ∀ first ∈ moves, ∀ second ∈ moves, first.dst = second.dst → first.src = second.src

variable (size value : Nat) (source target : Nat → α) (moves : List Move)

/-- A position that no move goes to keeps its byte. -/
theorem runMoves_untouched (position : Nat) (away : ∀ move ∈ moves, move.dst ≠ position) :
    runMoves source target moves position = target position := by
  induction moves generalizing target with
  | nil => rfl
  | cons move rest ih =>
    rw [forall_mem_cons] at away
    refine (ih _ away.2).trans ?_
    exact Function.update_of_ne (Ne.symm away.1) _ _

/-- Consistent moves bring each source to its target. -/
theorem runMoves_mem (consistent : Consistent moves) (move : Move) (member : move ∈ moves) :
    runMoves source target moves move.dst = source move.src := by
  induction moves generalizing target move with
  | nil => exact nomatch member
  | cons first rest ih =>
    have restConsistent : Consistent rest := fun one isOne two isTwo =>
      consistent one (mem_cons_of_mem _ isOne) two (mem_cons_of_mem _ isTwo)
    rw [runMoves, foldl_cons]
    by_cases later : ∃ other ∈ rest, other.dst = move.dst
    · obtain ⟨other, isOther, same⟩ := later
      have equal := consistent other (mem_cons_of_mem _ isOther) move member same
      rw [← same, ← equal]
      exact ih _ restConsistent other isOther
    · have away : ∀ other ∈ rest, other.dst ≠ move.dst :=
        fun other isOther same => later ⟨other, isOther, same⟩
      refine (runMoves_untouched source _ rest move.dst away).trans ?_
      rcases mem_cons.mp member with here | there
      · rw [← here]
        exact Function.update_self _ _ _
      · exact absurd rfl (away move there)

/-- The order of consistent moves does not matter. -/
theorem runMoves_congr {first second : List Move}
    (consistent : Consistent second) (same : ∀ move, move ∈ first ↔ move ∈ second) :
    runMoves source target first = runMoves source target second := by
  have firstConsistent : Consistent first := fun one isOne two isTwo =>
    consistent one ((same one).mp isOne) two ((same two).mp isTwo)
  funext position
  by_cases copied : ∃ move ∈ second, move.dst = position
  · obtain ⟨move, member, rfl⟩ := copied
    rw [runMoves_mem source target first firstConsistent move ((same move).mpr member),
      runMoves_mem source target second consistent move member]
  · have away : ∀ move ∈ second, move.dst ≠ position :=
      fun move member here => copied ⟨move, member, here⟩
    rw [runMoves_untouched source target second position away,
      runMoves_untouched source target first position
        (fun move member => away move ((same move).mp member))]

/-- Transpose a block of lines: byte `i` of line `j` becomes byte `j` of line `i`. -/
def transposeMoves (lines columns : Nat) (src dst : Nat → Nat) : List Move :=
  (List.range columns).flatMap fun i => (List.range lines).map fun j => ⟨dst i + j, src j + i⟩

/-- The moves of a transposition. -/
theorem mem_transposeMoves (lines columns : Nat) (src dst : Nat → Nat) (move : Move) :
    move ∈ transposeMoves lines columns src dst ↔
      ∃ i < columns, ∃ j < lines, move = ⟨dst i + j, src j + i⟩ := by
  simp only [transposeMoves, mem_flatMap, mem_map, mem_range]
  constructor
  · rintro ⟨i, left, j, right, rfl⟩
    exact ⟨i, left, j, right, rfl⟩
  · rintro ⟨i, left, j, right, rfl⟩
    exact ⟨i, left, j, right, rfl⟩

/-- The numbers from `start` on below `stop`, each `step` more than the one before. -/
def upTo (start stop step : Nat) : List Nat :=
  (List.range ((stop - start + (step - 1)) / step)).map fun round => start + round * step

/-- The values a loop takes. -/
theorem mem_upTo (start stop step : Nat) (moving : 0 < step) (value : Nat) :
    value ∈ upTo start stop step ↔ ∃ round, value = start + round * step ∧ value < stop := by
  have inside (round : Nat) :
      round < (stop - start + (step - 1)) / step ↔ start + round * step < stop := by
    have next : (round + 1) * step = round * step + step := Nat.succ_mul round step
    rw [Nat.lt_iff_add_one_le, Nat.le_div_iff_mul_le moving]
    omega
  simp only [upTo, mem_map, mem_range, inside]
  constructor
  · rintro ⟨round, within, rfl⟩
    exact ⟨round, rfl, within⟩
  · rintro ⟨round, rfl, within⟩
    exact ⟨round, within, rfl⟩

/-- The values of a loop with step one. -/
theorem mem_upTo_one (start stop value : Nat) :
    value ∈ upTo start stop 1 ↔ start ≤ value ∧ value < stop := by
  rw [mem_upTo start stop 1 Nat.one_pos]
  constructor
  · rintro ⟨round, isValue, within⟩
    exact ⟨by omega, within⟩
  · rintro ⟨least, within⟩
    exact ⟨value - start, by grind, within⟩

/-- Blocks of eight reach every value below the last multiple of eight. -/
theorem mem_blocks : (∃ start ∈ upTo 0 (size - size % 8) 8, ∃ i < 8, value = start + i) ↔
      value < size - size % 8 := by
  simp only [mem_upTo 0 _ 8 (by decide : 0 < 8)]
  constructor
  · rintro ⟨start, ⟨round, isStart, within⟩, i, small, isValue⟩
    omega
  · intro within
    exact ⟨0 + value / 8 * 8, ⟨value / 8, rfl, by lia⟩, value % 8, Nat.mod_lt _ (by decide),
      by lia⟩

/-- Blocks of sixteen and one of eight reach the same values. -/
theorem mem_wideBlocks :
    ((∃ start ∈ upTo 0 (size - size % 8 - 15) 16, ∃ i < 16, value = start + i) ∨
      ((size - size % 8) / 16 * 16 + 8 ≤ size - size % 8 ∧
        ∃ i < 8, value = (size - size % 8) / 16 * 16 + i)) ↔ value < size - size % 8 := by
  simp only [mem_upTo 0 _ 16 (by decide : 0 < 16)]
  constructor
  · rintro (⟨start, ⟨round, isStart, within⟩, i, small, isValue⟩ | ⟨fits, i, small, isValue⟩)
    · omega
    · lia
  · intro within
    by_cases wide : value / 16 < (size - size % 8) / 16
    · exact .inl ⟨0 + value / 16 * 16, ⟨value / 16, rfl, by omega⟩, value % 16,
        Nat.mod_lt _ (by decide), by lia⟩
    · exact .inr ⟨by omega, value % 16, by omega, by lia⟩

end OpenGauss.Base
