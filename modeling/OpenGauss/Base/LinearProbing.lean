import Mathlib.Data.List.Basic

/-!
# Slots searched one after the other

A table is a list of slots, some of them free. A search starts at some slot and goes on to the next
one, from the last to the first, until it meets a free slot or what it looks for. A value can be
found as long as no slot before its own is free, and taking a free slot for another value keeps that.
A table with a free slot stops every search.
-/
namespace OpenGauss.Base

open List

variable {α : Type}

/-- The slot that a search has come to after some steps. -/
def probeSlot (size start steps : Nat) : Nat := (start + steps) % size

/-- The next probe is one slot on. -/
theorem probeSlot_next (size start steps : Nat) :
    (probeSlot size start steps + 1) % size = probeSlot size start (steps + 1) := by
  rw [probeSlot, probeSlot, Nat.mod_add_mod, Nat.add_assoc]

/-- Every slot is probed within one round. -/
theorem exists_probeSlot (size start slot : Nat) (within : slot < size) :
    ∃ steps < size, probeSlot size start steps = slot := by
  have least : start % size < size := Nat.mod_lt _ (by omega)
  by_cases before : start % size ≤ slot
  · refine ⟨slot - start % size, by omega, ?_⟩
    rw [probeSlot, ← Nat.mod_add_mod, Nat.add_sub_of_le before, Nat.mod_eq_of_lt within]
  · refine ⟨slot + size - start % size, by omega, ?_⟩
    rw [probeSlot, ← Nat.mod_add_mod, Nat.add_sub_of_le (by omega), Nat.add_mod_right,
      Nat.mod_eq_of_lt within]

/-- A search meets no free slot in its first steps. -/
def Unbroken (slots : List α) (free : α) (start steps : Nat) : Prop :=
  ∀ earlier < steps, slots.getD (probeSlot slots.length start earlier) free ≠ free

/-- A search comes to the slot of a value. -/
def Reaches (slots : List α) (free : α) (start : Nat) (value : α) : Prop :=
  ∃ steps, slots.getD (probeSlot slots.length start steps) free = value ∧
    Unbroken slots free start steps

variable (slots : List α) (free : α) (start steps : Nat)

variable {slots}

/-- Reading a slot behind a write. -/
theorem getD_set (free value : α) {index : Nat} (slot : Nat) (within : index < slots.length) :
    (slots.set index value).getD slot free =
      if index = slot then value else slots.getD slot free := by
  rw [getD_eq_getElem?_getD, getD_eq_getElem?_getD]
  by_cases same : index = slot
  · subst same
    rw [if_pos rfl, getElem?_set_self within]
    rfl
  · rw [if_neg same, getElem?_set_ne same]

variable {start}

/-- Filling a slot keeps a stretch of probes unbroken. -/
theorem Unbroken.set
    (unbroken : Unbroken slots free start steps) {index : Nat} (within : index < slots.length)
    {value : α} (used : value ≠ free) : Unbroken (slots.set index value) free start steps := by
  intro earlier before
  rw [length_set, getD_set free value _ within]
  split
  · exact used
  · exact unbroken earlier before

/-- Filling a free slot keeps what is reached. -/
theorem Reaches.set {slots : List α} {free : α} {start : Nat} {value : α}
    (reaches : Reaches slots free start value) (used : value ≠ free) {index : Nat}
    (within : index < slots.length) (vacant : slots.getD index free = free) {other : α}
    (otherUsed : other ≠ free) : Reaches (slots.set index other) free start value := by
  obtain ⟨steps, here, unbroken⟩ := reaches
  have differs : index ≠ probeSlot slots.length start steps := by
    intro same
    rw [← same, vacant] at here
    exact used here.symm
  refine ⟨steps, ?_, unbroken.set free steps within otherUsed⟩
  rw [length_set, getD_set free other _ within, if_neg differs]
  exact here

/-- A value put behind an unbroken stretch is reached. -/
theorem reaches_set_self
    (unbroken : Unbroken slots free start steps) (present : 0 < slots.length) {value : α}
    (used : value ≠ free) :
    Reaches (slots.set (probeSlot slots.length start steps) value) free start value := by
  have within : probeSlot slots.length start steps < slots.length := Nat.mod_lt _ present
  refine ⟨steps, ?_, unbroken.set free steps within used⟩
  rw [length_set, getD_set free value _ within, if_pos rfl]

/-- A reachable value is met before a free slot. -/
theorem Reaches.not_free {start : Nat} {value : α}
    (reaches : Reaches slots free start value) (used : value ≠ free) {steps : Nat}
    (passed : ∀ earlier < steps, slots.getD (probeSlot slots.length start earlier) free ≠ value) :
    slots.getD (probeSlot slots.length start steps) free ≠ free := by
  obtain ⟨stop, here, unbroken⟩ := reaches
  rcases Nat.lt_trichotomy stop steps with before | same | after
  · exact absurd here (passed stop before)
  · rw [← same, here]
    exact used
  · exact unbroken steps after

variable [DecidableEq α]

variable (slots)

/-- A write fills at most one more slot. -/
theorem countP_set_free (free value : α) {index : Nat} (within : index < slots.length) :
    (slots.set index value).countP (fun slot => decide (slot ≠ free)) ≤
      slots.countP (fun slot => decide (slot ≠ free)) + 1 := by
  rw [countP_set within]
  split <;> split <;> lia

/-- Probing comes to a free slot while one is left. -/
theorem exists_free_slot (start : Nat)
    (few : slots.countP (fun slot => decide (slot ≠ free)) < slots.length) :
    ∃ steps < slots.length, slots.getD (probeSlot slots.length start steps) free = free := by
  by_contra all
  have used : ∀ slot ∈ slots, decide (slot ≠ free) = true := by
    intro slot member
    obtain ⟨index, within, rfl⟩ := mem_iff_getElem.mp member
    obtain ⟨steps, near, here⟩ := exists_probeSlot slots.length start index within
    rw [decide_eq_true_eq]
    intro vacant
    apply all
    refine ⟨steps, near, ?_⟩
    rw [here, getD_eq_getElem?_getD, getElem?_eq_getElem within]
    exact vacant
  rw [countP_eq_length.mpr used] at few
  exact Nat.lt_irrefl _ few

end OpenGauss.Base
