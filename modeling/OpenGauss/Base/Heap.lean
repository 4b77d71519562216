import Mathlib.Data.Finset.Card
import Mathlib.Logic.Function.Basic
import Mathlib.Order.Interval.Finset.Nat
import Mathlib.Order.Basic

/-!
# Sifting in a binary heap

The entries of a heap stand at the positions from one on, the children of a position at its
double and right behind it. Both sifts move entries into a hole until the new value fits. Whatever
the keys are, what the sifts leave is a rearrangement of the entries with the value in the
hole, and that is all that users who do not depend on the order need.
-/
namespace OpenGauss.Base

open Function

variable {α : Type}

/-- The entries at the positions up to the count are the given ones in another order. -/
def Rearranged (count : Nat) (before after : Nat → α) : Prop :=
  ∃ source : Nat → Nat, (∀ position, 1 ≤ position → position ≤ count →
      1 ≤ source position ∧ source position ≤ count ∧ after position = before (source position)) ∧
    ∀ position other, 1 ≤ position → position ≤ count → 1 ≤ other → other ≤ count →
      source position = source other → position = other

variable (count : Nat) (entries : Nat → α) (before after : Nat → α)

/-- Nothing is moved. -/
theorem Rearranged.refl : Rearranged count entries entries :=
  ⟨id, fun _ low high => ⟨low, high, rfl⟩, fun _ _ _ _ _ _ same => same⟩

/-- Two rearrangements make one. -/
theorem Rearranged.trans {count : Nat} {first second third : Nat → α}
    (front : Rearranged count first second) (back : Rearranged count second third) :
    Rearranged count first third := by
  obtain ⟨source, place, distinct⟩ := front
  obtain ⟨source', place', distinct'⟩ := back
  refine ⟨source ∘ source', ?_, ?_⟩
  · intro position low high
    obtain ⟨low', high', same'⟩ := place' position low high
    obtain ⟨low'', high'', same⟩ := place (source' position) low' high'
    exact ⟨low'', high'', same'.trans same⟩
  · intro position other low high low' high' same
    have inner := place' position low high
    have inner' := place' other low' high'
    apply distinct' position other low high low' high'
    exact distinct _ _ inner.1 inner.2.1 inner'.1 inner'.2.1 same

/-- What holds of every entry still does. -/
theorem Rearranged.all (rearranged : Rearranged count before after) (property : α → Prop)
    (holds : ∀ position, 1 ≤ position → position ≤ count → property (before position)) :
    ∀ position, 1 ≤ position → position ≤ count → property (after position) := by
  obtain ⟨source, place, -⟩ := rearranged
  intro position low high
  obtain ⟨low', high', same⟩ := place position low high
  rw [same]
  exact holds _ low' high'

/-- What holds of any two entries still does. -/
theorem Rearranged.pairwise (rearranged : Rearranged count before after) (relation : α → α → Prop)
    (holds : ∀ position other, 1 ≤ position → position ≤ count → 1 ≤ other → other ≤ count →
      position ≠ other → relation (before position) (before other)) :
    ∀ position other, 1 ≤ position → position ≤ count → 1 ≤ other → other ≤ count →
      position ≠ other → relation (after position) (after other) := by
  obtain ⟨source, place, distinct⟩ := rearranged
  intro position other low high low' high' differ
  obtain ⟨lowSource, highSource, same⟩ := place position low high
  obtain ⟨lowSource', highSource', same'⟩ := place other low' high'
  rw [same, same']
  apply holds _ _ lowSource highSource lowSource' highSource'
  intro equal
  exact differ (distinct position other low high low' high' equal)

/-- A rearrangement keeps the values. -/
theorem Rearranged.mem_iff (rearranged : Rearranged count before after) (value : α) :
    (∃ position, 1 ≤ position ∧ position ≤ count ∧ after position = value) ↔
      ∃ position, 1 ≤ position ∧ position ≤ count ∧ before position = value := by
  obtain ⟨source, place, distinct⟩ := rearranged
  constructor
  · rintro ⟨position, low, high, rfl⟩
    obtain ⟨sourceLow, sourceHigh, same⟩ := place position low high
    exact ⟨source position, sourceLow, sourceHigh, same.symm⟩
  · rintro ⟨position, low, high, rfl⟩
    -- an injection of the positions into themselves reaches all of them
    have onto : Set.SurjOn source (Finset.Icc 1 count) (Finset.Icc 1 count) := by
      apply Finset.surjOn_of_injOn_of_card_le source
      · intro index member
        obtain ⟨indexLow, indexHigh⟩ := Finset.mem_Icc.mp member
        obtain ⟨sourceLow, sourceHigh, -⟩ := place index indexLow indexHigh
        exact Finset.mem_Icc.mpr ⟨sourceLow, sourceHigh⟩
      · intro index member other member' same
        obtain ⟨indexLow, indexHigh⟩ := Finset.mem_Icc.mp member
        obtain ⟨otherLow, otherHigh⟩ := Finset.mem_Icc.mp member'
        exact distinct index other indexLow indexHigh otherLow otherHigh same
      · exact le_rfl
    obtain ⟨index, member, reached⟩ := onto (Finset.mem_coe.mpr (Finset.mem_Icc.mpr ⟨low, high⟩))
    obtain ⟨indexLow, indexHigh⟩ := Finset.mem_Icc.mp member
    obtain ⟨-, -, same⟩ := place index indexLow indexHigh
    exact ⟨index, indexLow, indexHigh, by rw [same, reached]⟩

/-- Moving an entry into the hole moves the hole. -/
theorem Rearranged.move (value : α) {hole other : Nat}
    (holeLow : 1 ≤ hole) (holeHigh : hole ≤ count) (otherLow : 1 ≤ other)
    (otherHigh : other ≤ count) (differ : other ≠ hole) :
    Rearranged count (update entries hole value)
      (update (update entries hole (entries other)) other value) := by
  refine ⟨fun position => if position = hole then other
    else if position = other then hole else position, ?_, ?_⟩
  · intro position low high
    dsimp only
    by_cases first : position = hole
    · rw [if_pos first, first, update_of_ne differ.symm, update_self, update_of_ne differ]
      exact ⟨otherLow, otherHigh, rfl⟩
    · rw [if_neg first]
      by_cases second : position = other
      · rw [if_pos second, second, update_self, update_self]
        exact ⟨holeLow, holeHigh, rfl⟩
      · rw [if_neg second, update_of_ne second, update_of_ne first, update_of_ne first]
        exact ⟨low, high, rfl⟩
  · intro position position' _ _ _ _ same
    dsimp only at same
    split_ifs at same <;> omega

variable (key : α → Nat)

/-- Sift up: entries with smaller keys move down into the hole. The hole halves with every move,
so that its first position is fuel enough. -/
def siftUp (value : α) : Nat → (Nat → α) → Nat → (Nat → α)
  | 0, entries, hole => update entries hole value
  | fuel + 1, entries, hole =>
    if hole ≠ 1 ∧ key (entries (hole / 2)) < key value then
      siftUp value fuel (update entries hole (entries (hole / 2))) (hole / 2)
    else update entries hole value

/-- Sift down: the larger child moves up into the hole while its key is larger. The hole at least
doubles with every move, so that the count is fuel enough. -/
def siftDown (value : α) (count : Nat) : Nat → (Nat → α) → Nat → (Nat → α)
  | 0, entries, hole => update entries hole value
  | fuel + 1, entries, hole =>
    if 2 * hole ≤ count then
      let child :=
        if 2 * hole < count ∧ key (entries (2 * hole)) < key (entries (2 * hole + 1)) then
          2 * hole + 1
        else 2 * hole
      if key (entries child) ≤ key value then update entries hole value
      else siftDown value count fuel (update entries hole (entries child)) child
    else update entries hole value

variable (value : α) (count fuel : Nat) (entries : Nat → α) (hole : Nat)

/-- Sifting up only rearranges. -/
theorem siftUp_rearranged
    (low : 1 ≤ hole) (high : hole ≤ count) : Rearranged count (update entries hole value)
      (siftUp key value fuel entries hole) := by
  induction fuel generalizing entries hole with
  | zero => exact Rearranged.refl count _
  | succ fuel ih =>
    rw [siftUp]
    split
    · have half : 1 ≤ hole / 2 := by lia
      apply Rearranged.trans (Rearranged.move count entries value low high half (by lia) (by omega))
      exact ih _ (hole / 2) half (by lia)
    · exact Rearranged.refl count _

/-- Sifting down is a rearrangement. -/
theorem siftDown_rearranged
    (low : 1 ≤ hole) (high : hole ≤ count) : Rearranged count (update entries hole value)
      (siftDown key value count fuel entries hole) := by
  induction fuel generalizing entries hole with
  | zero => exact Rearranged.refl count _
  | succ fuel ih =>
    rw [siftDown]
    split
    · dsimp only
      generalize place : (if 2 * hole < count ∧ key (entries (2 * hole)) <
        key (entries (2 * hole + 1)) then 2 * hole + 1 else 2 * hole) = child
      have bounds : 2 * hole ≤ child ∧ child ≤ count := by
        rw [← place]
        split <;> lia
      split
      · exact Rearranged.refl count _
      · apply Rearranged.trans (Rearranged.move count entries value low
          high (by lia) bounds.2 (by omega))
        exact ih _ child (by lia) bounds.2
    · exact Rearranged.refl count _

end OpenGauss.Base
