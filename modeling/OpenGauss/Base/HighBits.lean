import Mathlib.Data.Nat.Bitwise
import Mathlib.Data.List.Induction
import Mathlib.Tactic.Ring

/-!
# Bits with the highest one first

A number of some bits stands for these bits, the highest one first. A bit string is packed into bytes
in this order, and a writer that has some whole bytes and the front of one more holds a bit string. A
reader goes through the bits of a memory in the same order.
-/
namespace OpenGauss.Base

open List

/-- The low bits of a number, the highest one first. -/
def highBits : Nat → Nat → List Bool
  | 0, _ => []
  | width + 1, value => value.testBit width :: highBits width value

/-- The number that bits stand for behind those of another number. -/
def bitsNumber (number : Nat) (bits : List Bool) : Nat :=
  bits.foldl (fun number bit => 2 * number + bit.toNat) number

/-- A number gives as many bits as asked for. -/
@[simp] theorem highBits_length (width value : Nat) : (highBits width value).length = width := by
  induction width with
  | zero => rfl
  | succ width ih => rw [highBits, length_cons, ih]

/-- The bits of a wide number are those of its high and its low part. -/
theorem highBits_add (first second value : Nat) :
    highBits (first + second) value = highBits first (value >>> second) ++ highBits second value := by
  induction first with
  | zero => rw [Nat.zero_add, highBits, nil_append]
  | succ first ih =>
    rw [Nat.succ_add, highBits, highBits, ih, Nat.testBit_shiftRight, Nat.add_comm second first,
      cons_append]

variable (number : Nat) (first second : List Bool) (bits : List Bool) (memory : Nat → UInt8)
  (index : Nat) (bytes : List UInt8) (store : UInt8) (numBits : Nat)

/-- The number of two bit strings goes on from the first. -/
theorem bitsNumber_append :
    bitsNumber number (first ++ second) = bitsNumber (bitsNumber number first) second :=
  foldl_append

/-- What comes before is shifted by the length of the bits. -/
theorem bitsNumber_eq : bitsNumber number bits = number * 2 ^ bits.length + bitsNumber 0 bits := by
  induction bits using List.reverseRecOn with
  | nil =>
    rw [bitsNumber, bitsNumber, foldl_nil, foldl_nil, length_nil]
    omega
  | append_singleton bits bit ih =>
    have step (start : Nat) : bitsNumber start (bits ++ [bit]) =
        2 * bitsNumber start bits + bit.toNat := bitsNumber_append start bits [bit]
    rw [step, step, ih, length_append, length_singleton, Nat.pow_succ]
    ring

/-- The number of some bits is below their range. -/
theorem bitsNumber_lt : bitsNumber 0 bits < 2 ^ bits.length := by
  induction bits using List.reverseRecOn with
  | nil => decide
  | append_singleton bits bit ih =>
    have step : bitsNumber 0 (bits ++ [bit]) = 2 * bitsNumber 0 bits + bit.toNat :=
      bitsNumber_append 0 bits [bit]
    have small := Bool.toNat_lt bit
    rw [step, length_append, length_singleton, Nat.pow_succ]
    omega

/-- Bits give back the number modulo their range. -/
theorem bitsNumber_highBits (width value : Nat) :
    bitsNumber 0 (highBits width value) = value % 2 ^ width := by
  induction width with
  | zero => rw [Nat.pow_zero, Nat.mod_one]; rfl
  | succ width ih =>
    have first : bitsNumber 0 (highBits (width + 1) value) =
        bitsNumber (value.testBit width).toNat (highBits width value) := by
      rw [highBits, bitsNumber, foldl_cons, Nat.mul_zero, Nat.zero_add]
      rfl
    rw [first, bitsNumber_eq, ih, highBits_length, Nat.mod_pow_succ, Nat.toNat_testBit]
    ring

/-- The bits of the number of some bits are these. -/
theorem highBits_bitsNumber : highBits bits.length (bitsNumber 0 bits) = bits := by
  induction bits using List.reverseRecOn with
  | nil => rfl
  | append_singleton bits bit ih =>
    have step : bitsNumber 0 (bits ++ [bit]) = 2 * bitsNumber 0 bits + bit.toNat :=
      bitsNumber_append 0 bits [bit]
    have small := Bool.toNat_lt bit
    have upper : (2 * bitsNumber 0 bits + bit.toNat) >>> 1 = bitsNumber 0 bits := by
      rw [Nat.shiftRight_one]
      lia
    have last : highBits 1 (2 * bitsNumber 0 bits + bit.toNat) = [bit] := by
      rw [highBits, highBits, Nat.testBit_zero]
      cases bit
      · rw [Bool.toNat_false, Nat.add_zero, Nat.mul_mod_right]
        rfl
      · rw [Bool.toNat_true, Nat.mul_add_mod]
        rfl
    rw [step, length_append, length_singleton, highBits_add, upper, ih, last]

/-- The bits of a byte. -/
def byteHighBits (byte : UInt8) : List Bool := highBits 8 byte.toNat

/-- A byte that starts with some bits. -/
def highByte (bits : List Bool) : UInt8 := UInt8.ofNat (bitsNumber 0 bits * 2 ^ (8 - bits.length))

/-- A byte gives back the bits it was made of, from the top. -/
theorem byteHighBits_highByte (few : bits.length ≤ 8) :
    byteHighBits (highByte bits) = bits ++ List.replicate (8 - bits.length) false := by
  have zeros (count : Nat) : bitsNumber 0 (List.replicate count false) = 0 := by
    induction count with
    | zero => rfl
    | succ count ih => exact ih
  have whole : (bits ++ List.replicate (8 - bits.length) false).length = 8 := by
    rw [length_append, length_replicate]
    omega
  have number : bitsNumber 0 (bits ++ List.replicate (8 - bits.length) false) =
      bitsNumber 0 bits * 2 ^ (8 - bits.length) := by
    rw [bitsNumber_append, bitsNumber_eq, zeros, length_replicate, Nat.add_zero]
  have fits := bitsNumber_lt (bits ++ List.replicate (8 - bits.length) false)
  have read := highBits_bitsNumber (bits ++ List.replicate (8 - bits.length) false)
  rw [whole] at fits read
  rw [byteHighBits, highByte, ← number, UInt8.toNat_ofNat_of_lt' fits, read]

/-- Bits are added to a byte behind those it has. -/
theorem highByte_append (few : first.length + second.length ≤ 8) : highByte (first ++ second) =
      highByte first + UInt8.ofNat (bitsNumber 0 second * 2 ^ (8 - first.length - second.length)) := by
  have split : 8 - first.length = second.length + (8 - first.length - second.length) := by omega
  rw [highByte, highByte, ← UInt8.ofNat_add, bitsNumber_append, bitsNumber_eq, length_append,
    ← Nat.sub_sub]
  rw [split, Nat.add_sub_cancel_left, Nat.pow_add]
  congr 1
  ring

/-- Some bytes and the front of one more hold a bit string. -/
def HoldsBits (bytes : List UInt8) (store : UInt8) (numBits : Nat) (bits : List Bool) : Prop :=
  ∃ front, front.length = numBits % 8 ∧ store = highByte front ∧
    bits = bytes.flatMap byteHighBits ++ front

/-- A new writer holds no bits. -/
theorem holdsBits_nil : HoldsBits [] 0 0 [] := ⟨[], rfl, rfl, rfl⟩

/-- Bits that do not fill the byte are kept in it. -/
theorem HoldsBits.add {bits : List Bool}
    (holds : HoldsBits bytes store numBits bits) (width value : Nat)
    (room : numBits % 8 + width < 8) : HoldsBits bytes
      (store + UInt8.ofNat (value % 2 ^ width * 2 ^ (8 - numBits % 8 - width))) (numBits + width)
      (bits ++ highBits width value) := by
  obtain ⟨front, count, rfl, rfl⟩ := holds
  refine ⟨front ++ highBits width value, ?_, ?_, append_assoc _ _ _⟩
  · rw [length_append, highBits_length, count]
    lia
  · rw [highByte_append _ _ (by rw [highBits_length]; grind), bitsNumber_highBits, highBits_length,
      count]

/-- Bits that fill the stored byte complete it. -/
theorem HoldsBits.fill {bits : List Bool}
    (holds : HoldsBits bytes store numBits bits) (width value : Nat)
    (room : numBits % 8 + width = 8) :
    HoldsBits (bytes ++ [store + UInt8.ofNat (value % 2 ^ width)]) 0 (numBits + width)
      (bits ++ highBits width value) := by
  obtain ⟨front, count, rfl, rfl⟩ := holds
  have length : (front ++ highBits width value).length = 8 := by
    rw [length_append, highBits_length, count, room]
  have last : highByte front + UInt8.ofNat (value % 2 ^ width) =
      highByte (front ++ highBits width value) := by
    have added := highByte_append front (highBits width value) (by rw [highBits_length]; omega)
    rw [bitsNumber_highBits, highBits_length, count, show 8 - numBits % 8 - width = 0 by omega,
      Nat.pow_zero, Nat.mul_one] at added
    exact added.symm
  have read := byteHighBits_highByte (front ++ highBits width value) (Nat.le_of_eq length)
  rw [length, Nat.sub_self, replicate_zero, append_nil] at read
  refine ⟨[], ?_, rfl, ?_⟩
  · rw [length_nil]
    lia
  · rw [last, flatMap_append, flatMap_singleton, read, append_nil, append_assoc]

/-- A finished buffer has the bits and less than a byte of zeros. -/
theorem HoldsBits.finish {bits : List Bool} (holds : HoldsBits bytes store numBits bits) :
    ∃ zeros < 8, (if numBits % 8 = 0 then bytes else bytes ++ [store]).flatMap byteHighBits =
      bits ++ List.replicate zeros false := by
  obtain ⟨front, count, rfl, rfl⟩ := holds
  by_cases whole : numBits % 8 = 0
  · rw [whole] at count
    rw [if_pos whole, length_eq_zero_iff.mp count]
    exact ⟨0, by decide, by rw [append_nil, replicate_zero, append_nil]⟩
  · have read := byteHighBits_highByte front (by lia)
    rw [if_neg whole]
    refine ⟨8 - front.length, by lia, ?_⟩
    rw [flatMap_append, flatMap_singleton, read, append_assoc]

/-- Each byte has eight bits. -/
theorem byteHighBits_count : (bytes.flatMap byteHighBits).length = 8 * bytes.length := by
  induction bytes with
  | nil => rfl
  | cons byte rest ih =>
    rw [flatMap_cons, length_append, ih, byteHighBits, highBits_length, length_cons]
    lia

/-- A bit of a memory. -/
def bitAt (memory : Nat → UInt8) (position : Nat) : Bool :=
  (memory (position / 8)).toNat.testBit (7 - position % 8)

/-- Bits stand in a memory from some place on. -/
def BitsAt (memory : Nat → UInt8) : Nat → List Bool → Prop
  | _, [] => True
  | position, bit :: rest => bitAt memory position = bit ∧ BitsAt memory (position + 1) rest

/-- Bits in a row are where both parts are. -/
theorem bitsAt_append (position : Nat) (first second : List Bool) :
    BitsAt memory position (first ++ second) ↔
      BitsAt memory position first ∧ BitsAt memory (position + first.length) second := by
  induction first generalizing position with
  | nil => exact ⟨fun behind => ⟨trivial, behind⟩, fun both => both.2⟩
  | cons bit rest ih =>
    rw [cons_append, BitsAt, BitsAt, ih, length_cons, and_assoc,
      show position + 1 + rest.length = position + (rest.length + 1) by omega]

/-- A byte's bits are where the byte is. -/
theorem bitsAt_byte : BitsAt memory (8 * index) (byteHighBits (memory index)) := by
  have bits (count : Nat) (few : count ≤ 8) :
      BitsAt memory (8 * index + (8 - count)) (highBits count (memory index).toNat) := by
    induction count with
    | zero => trivial
    | succ count ih =>
      have next := ih (Nat.le_of_succ_le few)
      rw [show 8 * index + (8 - count) = 8 * index + (8 - (count + 1)) + 1 by lia] at next
      refine ⟨?_, next⟩
      rw [bitAt, show (8 * index + (8 - (count + 1))) / 8 = index by grind,
        show 7 - (8 * index + (8 - (count + 1))) % 8 = count by grind]
  exact bits 8 (Nat.le_refl _)

/-- Bytes in memory hold their bits. -/
theorem bitsAt_bytes
    (stored : ∀ offset byte, bytes[offset]? = some byte → memory (index + offset) = byte) :
    BitsAt memory (8 * index) (bytes.flatMap byteHighBits) := by
  induction bytes generalizing index with
  | nil => trivial
  | cons byte rest ih =>
    have first := stored 0 byte rfl
    rw [Nat.add_zero] at first
    have behind := ih (index + 1) (by
      intro offset other found
      have there := stored (offset + 1) other found
      rw [show index + 1 + offset = index + (offset + 1) by omega]
      exact there)
    have here := bitsAt_byte memory index
    rw [first] at here
    rw [flatMap_cons, bitsAt_append]
    refine ⟨here, ?_⟩
    exact behind

end OpenGauss.Base
