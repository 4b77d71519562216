import Mathlib.Logic.Function.Basic
import Mathlib.Data.List.Range

/-!
# Runs of array cells

An array is a function from positions to values. The module names the values of a run of cells and
the copy of such a run into another array, and says how both go together with single updates.
-/

namespace OpenGauss.Base

section Cells

variable {α : Type}

/-- The values of some cells of an array. -/
def cells (array : Nat → α) (start count : Nat) : List α :=
  (List.range' start count).map array

/-- Copy some cells of an array into another. -/
def copyCells (target : Nat → α) (position : Nat) (source : Nat → α) (start count : Nat) :
    Nat → α :=
  fun index => if position ≤ index ∧ index < position + count
    then source (start + (index - position)) else target index

variable (target : Nat → α) (array : Nat → α) (position : Nat) (source : Nat → α)
  (start count : Nat)

/-- The number of the values. -/
@[simp]
theorem cells_length : (cells array start count).length = count := by
  simp [cells]

/-- No cells. -/
@[simp]
theorem cells_zero (start : Nat) : cells array start 0 = [] := rfl

/-- The cells from a start on, with the first one split off. -/
theorem cells_succ :
    cells array start (count + 1) = array start :: cells array (start + 1) count := by
  rfl

/-- Cells split into two stretches. -/
theorem cells_add (start first second : Nat) : cells array start (first + second) =
      cells array start first ++ cells array (start + first) second := by
  rw [cells, cells, cells, ← List.map_append, List.range'_append_1]

/-- The cells with the last one split off. -/
theorem cells_snoc :
    cells array start (count + 1) = cells array start count ++ [array (start + count)] :=
  cells_add array start count 1

/-- Arrays that agree on a stretch have the same cells there. -/
theorem cells_congr (first second : Nat → α) (start count : Nat)
    (same : ∀ index, start ≤ index → index < start + count → first index = second index) :
    cells first start count = cells second start count := by
  apply List.map_congr_left
  intro index member
  obtain ⟨low, high⟩ := List.mem_range'_1.mp member
  exact same index low high

/-- A write outside a stretch keeps its cells. -/
theorem cells_update_outside (value : α) {start count : Nat}
    (outside : position < start ∨ start + count ≤ position) :
    cells (Function.update array position value) start count = cells array start count := by
  apply cells_congr
  intro index low high
  exact Function.update_of_ne (by omega) _ _

/-- A copy has the cells of its source. -/
theorem cells_copyCells : cells (copyCells target position source start count) position count =
      cells source start count := by
  apply List.ext_getElem
  · rw [cells_length, cells_length]
  · intro index inTarget inSource
    rw [cells_length] at inTarget
    simp only [cells, List.getElem_map, List.getElem_range', copyCells]
    rw [if_pos (by lia), Nat.add_sub_cancel_left]

/-- A copy keeps the cells outside it. -/
theorem cells_copyCells_outside (start : Nat) {count other length : Nat}
    (outside : other + length ≤ position ∨ position + count ≤ other) :
    cells (copyCells target position source start count) other length =
      cells target other length := by
  apply cells_congr
  intro index low high
  exact if_neg (by lia)

end Cells

end OpenGauss.Base
