import Mathlib.Data.List.Basic
import Mathlib.Logic.Function.Basic
import Mathlib.Data.Nat.ModEq

/-!
# Slots that go round

The entries of a list stand in a fixed number of slots, each at its index modulo that number. As long
as fewer entries wait than there are slots, the slot of the next entry is not that of a waiting one.
Indexes of 32 bits are cut to the slots by a mask, and a masked difference is zero exactly when both
indexes denote one slot.
-/
namespace OpenGauss.Base

variable {α : Type}

/-- The entries from some index on stand in their slots. -/
def HeldIn (slots : Nat → α) (capacity taken : Nat) (entries : List α) : Prop :=
  ∀ index entry, taken ≤ index → entries[index]? = some entry → slots (index % capacity) = entry

/-- Numbers that are less than a round apart have different slots. -/
theorem slots_differ (capacity : Nat) {index count : Nat} (before : index < count)
    (near : count < index + capacity) : index % capacity ≠ count % capacity := by
  intro same
  have whole : capacity ∣ count - index := (Nat.modEq_iff_dvd' (Nat.le_of_lt before)).mp same
  have least := Nat.le_of_dvd (by omega) whole
  omega

variable (value mask : UInt32) (bits : Nat) (slots : Nat → α) (capacity taken : Nat)
  (entries : List α)

/-- Nothing is held at the beginning. -/
theorem heldIn_nil (capacity : Nat) : HeldIn slots capacity 0 [] := by
  intro index entry _ found
  exact nomatch found

section

variable (held : HeldIn slots capacity taken entries)
include held

/-- A write into a free slot keeps what is held. -/
theorem HeldIn.write (entry : α)
    (room : entries.length < taken + capacity) :
    HeldIn (Function.update slots (entries.length % capacity) entry) capacity taken entries := by
  intro index other least found
  have within := (List.getElem?_eq_some_iff.mp found).1
  rw [Function.update_of_ne (slots_differ capacity within (by omega))]
  exact held index other least found

/-- An entry that its slot has is held. -/
theorem HeldIn.append {entry : α}
    (here : slots (entries.length % capacity) = entry) :
    HeldIn slots capacity taken (entries ++ [entry]) := by
  intro index other least found
  by_cases old : index < entries.length
  · rw [List.getElem?_append_left old] at found
    exact held index other least found
  · have within := (List.getElem?_eq_some_iff.mp found).1
    rw [List.length_append, List.length_singleton] at within
    obtain rfl : index = entries.length := by omega
    rw [List.getElem?_append_right (Nat.le_refl _), Nat.sub_self] at found
    exact here.trans (Option.some.inj found)

/-- Taking the oldest entry keeps the others held. -/
theorem HeldIn.take : HeldIn slots capacity (taken + 1) entries :=
  fun index entry least => held index entry (Nat.le_of_succ_le least)

end

variable {mask bits}

/-- A mask of low bits is a remainder. -/
theorem masked_toNat (low : mask.toNat = 2 ^ bits - 1) :
    (value &&& mask).toNat = value.toNat % 2 ^ bits := by
  rw [UInt32.toNat_and, low, Nat.and_two_pow_sub_one_eq_mod]

/-- The masked successor is the remainder of the successor. -/
theorem masked_add_one (fits : bits ≤ 32) (low : mask.toNat = 2 ^ bits - 1) :
    ((value + 1) &&& mask).toNat = (value.toNat + 1) % 2 ^ bits := by
  have wraps : (2 : Nat) ^ bits ∣ 2 ^ 32 := Nat.pow_dvd_pow 2 fits
  rw [masked_toNat _ low]
  exact Nat.mod_mod_of_dvd _ wraps

/-- A masked difference is zero exactly if the slots are the same. -/
theorem masked_sub_eq_zero (first second mask : UInt32) {bits : Nat} (fits : bits ≤ 32)
    (low : mask.toNat = 2 ^ bits - 1) :
    (first - second) &&& mask = 0 ↔ first.toNat % 2 ^ bits = second.toNat % 2 ^ bits := by
  have wraps : (2 : Nat) ^ bits ∣ 2 ^ 32 := Nat.pow_dvd_pow 2 fits
  have small := second.toNat_lt
  have difference : ((first - second) &&& mask).toNat =
      (2 ^ 32 - second.toNat + first.toNat) % 2 ^ bits := by
    rw [masked_toNat _ low, UInt32.toNat_sub]
    exact Nat.mod_mod_of_dvd _ wraps
  have back : (2 ^ 32 - second.toNat + first.toNat) + second.toNat ≡ first.toNat [MOD 2 ^ bits] := by
    have total : (2 ^ 32 - second.toNat + first.toNat) + second.toNat = 2 ^ 32 + first.toNat := by
      lia
    rw [total]
    obtain ⟨rounds, isRounds⟩ := wraps
    rw [isRounds, Nat.ModEq, Nat.mul_add_mod]
  rw [← UInt32.toNat_inj, difference]
  constructor
  · intro zero
    have none : 2 ^ 32 - second.toNat + first.toNat ≡ 0 [MOD 2 ^ bits] := zero
    have same := (none.add_right second.toNat).symm.trans back
    rw [Nat.zero_add] at same
    exact same.symm
  · intro same
    have equal : (2 ^ 32 - second.toNat + first.toNat) + second.toNat ≡ 0 + second.toNat
        [MOD 2 ^ bits] := by
      rw [Nat.zero_add]
      exact back.trans same
    exact Nat.ModEq.add_right_cancel' second.toNat equal

end OpenGauss.Base
