import Mathlib.Data.Nat.Bitwise
import OpenGauss.Base.Scatter

/-!
# Arrays of bits in a memory

Bit `index` of an array of bits is bit `index % 8` of byte `index / 8`. A loop over the array keeps a
cursor, which is a byte and a mask of one bit, and moves it by one bit at a time. The module has
what setting the bit under the cursor does to the array.
-/
namespace OpenGauss.Base

/-- A bit of an array of bits that starts at a byte. -/
def bitOf (memory : Nat → UInt8) (start index : Nat) : Bool :=
  (memory (start + index / 8)).toNat.testBit (index % 8)

/-- A byte and a mask of one of its bits. -/
structure BitCursor where
  byte : Nat
  mask : Nat
  deriving DecidableEq

/-- The cursor of a bit. -/
def BitCursor.of (start index : Nat) : BitCursor := ⟨start + index / 8, 2 ^ (index % 8)⟩

/-- Move the cursor by one bit. -/
def BitCursor.next (cursor : BitCursor) : BitCursor :=
  if cursor.mask ≠ 0x80 then { cursor with mask := cursor.mask <<< 1 }
  else ⟨cursor.byte + 1, 1⟩

/-- Set the bit under the cursor. -/
def orByte (memory : Nat → UInt8) (cursor : BitCursor) : Nat → UInt8 :=
  pwrite memory cursor.byte [UInt8.ofNat ((memory cursor.byte).toNat ||| cursor.mask)]

/-- The cursor of the next bit. -/
theorem BitCursor.next_of (start index : Nat) :
    (BitCursor.of start index).next = BitCursor.of start (index + 1) := by
  by_cases last : index % 8 = 7
  · have wraps : (index + 1) % 8 = 0 := by lia
    have moves : (index + 1) / 8 = index / 8 + 1 := by lia
    simp [BitCursor.next, BitCursor.of, last, wraps, moves, Nat.add_assoc]
  · have stays : (index + 1) / 8 = index / 8 := by lia
    have shifts : (index + 1) % 8 = index % 8 + 1 := by lia
    have unlike : 2 ^ (index % 8) ≠ 0x80 := by
      intro same
      exact last (Nat.pow_right_injective le_rfl (same.trans (by decide : 0x80 = 2 ^ 7)))
    rw [BitCursor.next, if_pos (by exact unlike)]
    simp [BitCursor.of, stays, shifts, Nat.shiftLeft_eq, Nat.pow_succ]

/-- Another byte is not changed. -/
theorem orByte_apart (memory : Nat → UInt8) (cursor : BitCursor) (position : Nat)
    (apart : position ≠ cursor.byte) : orByte memory cursor position = memory position := by
  rw [orByte, pwrite, if_neg]
  rw [List.length_singleton]
  omega

/-- Setting a bit changes that bit only. -/
theorem bitOf_orByte (memory : Nat → UInt8) (start written index : Nat) :
    bitOf (orByte memory (BitCursor.of start written)) start index =
      (bitOf memory start index || decide (index = written)) := by
  have small : index % 8 < 8 := Nat.mod_lt _ (by decide)
  by_cases same : index / 8 = written / 8
  · have here : orByte memory (BitCursor.of start written) (start + index / 8) =
        UInt8.ofNat ((memory (start + index / 8)).toNat ||| 2 ^ (written % 8)) := by
      simp [orByte, pwrite, BitCursor.of, same]
    rw [bitOf, here, UInt8.toNat_ofNat', Nat.testBit_mod_two_pow, Nat.testBit_or,
      Nat.testBit_two_pow, decide_eq_true small, Bool.true_and]
    congr 1
    exact decide_eq_decide.mpr (by lia)
  · have there : orByte memory (BitCursor.of start written) (start + index / 8) =
        memory (start + index / 8) :=
      orByte_apart _ _ _ (fun equal => same (Nat.add_left_cancel equal))
    have apart : index ≠ written := fun equal => same (by rw [equal])
    rw [bitOf, bitOf, there, decide_eq_false apart, Bool.or_false]

/-- A bit depends on its byte only. -/
theorem bitOf_congr {first second : Nat → UInt8} {start index : Nat}
    (same : first (start + index / 8) = second (start + index / 8)) :
    bitOf first start index = bitOf second start index := by
  rw [bitOf, bitOf, same]

end OpenGauss.Base
