import OpenGauss.Base.Bytes
import Mathlib.Data.Nat.Bitwise
import Mathlib.Data.List.Range

/-!
# Bits and pairs of bits in bytes

Bits with the lowest one first stand for a number, and each of them is read by testing the number.
Bitmaps have eight of them in a byte, the last byte filled up with zeros, so that the set bits of all
bytes are those of the map. Codes of two bits are packed with the first one highest.
-/
namespace OpenGauss.Base

open List

/-- The number that bits stand for, the lowest one first. -/
def bitsValue : List Bool → Nat
  | [] => 0
  | bit :: rest => bit.toNat + 2 * bitsValue rest

variable (bytes : Nat) (codes : List Nat) (bits : List Bool)

/-- A bit of the number is the bit of the list. -/
theorem bitsValue_testBit (index : Nat) :
    (bitsValue bits).testBit index = bits.getD index false := by
  induction bits generalizing index with
  | nil => exact Nat.zero_testBit index
  | cons bit rest ih =>
    have shape : bitsValue (bit :: rest) = Nat.bit bit (bitsValue rest) := by
      rw [bitsValue, Nat.bit_val, Nat.add_comm]
    cases index with
    | zero => rw [shape, Nat.testBit_bit_zero, getD_cons_zero]
    | succ index => rw [shape, Nat.testBit_bit_succ, ih, getD_cons_succ]

/-- The number of some bits is below their range. -/
theorem bitsValue_lt : bitsValue bits < 2 ^ bits.length := by
  induction bits with
  | nil => decide
  | cons bit rest ih =>
    have small := Bool.toNat_lt bit
    rw [bitsValue, length_cons]
    omega

/-- The bits of a byte, the lowest one first. -/
def byteBits (byte : UInt8) : List Bool := (List.range 8).map byte.toNat.testBit

/-- A byte gives back the bits it was made of. -/
theorem byteBits_bitsValue (few : bits.length ≤ 8) :
    byteBits (UInt8.ofNat (bitsValue bits)) = bits ++ List.replicate (8 - bits.length) false := by
  have fits : bitsValue bits < 256 := by
    have below := bitsValue_lt bits
    have power : 2 ^ bits.length ≤ 2 ^ 8 := Nat.pow_le_pow_right (by decide) few
    omega
  have byte : (UInt8.ofNat (bitsValue bits)).toNat = bitsValue bits := by
    rw [UInt8.toNat_ofNat']
    exact Nat.mod_eq_of_lt fits
  rw [byteBits, byte]
  apply ext_getElem
  · rw [length_map, length_range, length_append, length_replicate]
    omega
  · intro index below _
    rw [length_map, length_range] at below
    rw [getElem_map, getElem_range, bitsValue_testBit, getElem_append]
    by_cases inside : index < bits.length
    · rw [dif_pos inside, getD_eq_getElem _ _ inside]
    · rw [dif_neg inside, getElem_replicate, getD_eq_default _ _ (by omega)]

/-- Write a bitmap of some bytes. -/
def packBitmap : Nat → List Bool → List UInt8
  | 0, _ => []
  | bytes + 1, bits => UInt8.ofNat (bitsValue (bits.take 8)) :: packBitmap bytes (bits.drop 8)

/-- Read a bitmap: some bits, and how many bits are set in all its bytes. -/
def unpackBitmap : Nat → List UInt8 → List Bool × Nat
  | _, [] => ([], 0)
  | count, byte :: rest =>
    let others := unpackBitmap (count - 8) rest
    ((byteBits byte).take count ++ others.1, (byteBits byte).count true + others.2)

/-- A packed bitmap has the bytes asked for. -/
theorem packBitmap_length : (packBitmap bytes bits).length = bytes := by
  induction bytes generalizing bits with
  | zero => rfl
  | succ bytes ih => rw [packBitmap, length_cons, ih]

/-- A packed bitmap is unpacked to its bits, with the number of those set. -/
theorem unpackBitmap_packBitmap (enough : bits.length ≤ 8 * bytes) :
    unpackBitmap bits.length (packBitmap bytes bits) = (bits, bits.count true) := by
  induction bytes generalizing bits with
  | zero =>
    obtain rfl : bits = [] := length_eq_zero_iff.mp (by omega)
    rfl
  | succ bytes ih =>
    have few : (bits.take 8).length ≤ 8 := length_take_le 8 bits
    have rest := ih (bits.drop 8) (by rw [length_drop]; omega)
    rw [length_drop] at rest
    have lengths : (bits.take 8).length = min 8 bits.length := length_take
    have first : ((bits.take 8) ++ List.replicate (8 - (bits.take 8).length) false).take bits.length =
        bits.take 8 := by
      by_cases whole : 8 ≤ bits.length
      · have none : 8 - (bits.take 8).length = 0 := by lia
        rw [none, replicate_zero, append_nil, take_take, Nat.min_eq_right whole]
      · rw [take_append_of_le_length (by omega), take_take, Nat.min_eq_left (by omega)]
        rw [take_of_length_le (Nat.le_refl _), take_of_length_le (by omega)]
    have counts : ((bits.take 8) ++ List.replicate (8 - (bits.take 8).length) false).count true =
        (bits.take 8).count true := by
      rw [count_append, count_replicate, if_neg (by decide), Nat.add_zero]
    rw [packBitmap, unpackBitmap]
    rw [rest, byteBits_bitsValue _ few, first, counts, ← count_append,
      take_append_drop]

/-- Pack codes of two bits into some bytes, the first code highest. -/
def packPairs : Nat → List Nat → List UInt8
  | 0, _ => []
  | bytes + 1, codes =>
    UInt8.ofNat (codes.getD 0 0 * 64 + codes.getD 1 0 * 16 + codes.getD 2 0 * 4 + codes.getD 3 0) ::
      packPairs bytes (codes.drop 4)

/-- Read codes of two bits. -/
def unpackPairs : Nat → List UInt8 → List Nat
  | _, [] => []
  | count, byte :: rest =>
    let packed := byte.toNat
    [packed / 64 % 4, packed / 16 % 4, packed / 4 % 4, packed % 4].take count ++
      unpackPairs (count - 4) rest

/-- Packed pairs have the bytes asked for. -/
theorem packPairs_length : (packPairs bytes codes).length = bytes := by
  induction bytes generalizing codes with
  | zero => rfl
  | succ bytes ih => rw [packPairs, length_cons, ih]

/-- Packed codes of two bits are unpacked to themselves. -/
theorem unpackPairs_packPairs (enough : codes.length ≤ 4 * bytes)
    (small : ∀ code ∈ codes, code < 4) :
    unpackPairs codes.length (packPairs bytes codes) = codes := by
  induction bytes generalizing codes with
  | zero =>
    obtain rfl : codes = [] := length_eq_zero_iff.mp (by omega)
    rfl
  | succ bytes ih =>
    have rest := ih (codes.drop 4) (by rw [length_drop]; omega)
      (fun code member => small code (mem_of_mem_drop member))
    rw [length_drop] at rest
    have below (index : Nat) : codes.getD index 0 < 4 := by
      by_cases inside : index < codes.length
      · rw [getD_eq_getElem _ _ inside]
        exact small _ (getElem_mem inside)
      · rw [getD_eq_default _ _ (by omega)]
        decide
    have below0 := below 0
    have below1 := below 1
    have below2 := below 2
    have below3 := below 3
    have fields (a b c d : Nat) (isA : a < 4) (isB : b < 4) (isC : c < 4) (isD : d < 4) :
        (UInt8.ofNat (a * 64 + b * 16 + c * 4 + d)).toNat = a * 64 + b * 16 + c * 4 + d := by
      rw [UInt8.toNat_ofNat']
      exact Nat.mod_eq_of_lt (by lia)
    have taken : [codes.getD 0 0, codes.getD 1 0, codes.getD 2 0, codes.getD 3 0].take codes.length =
        codes.take 4 := by
      match codes with
      | [] => rfl
      | [_] => rfl
      | [_, _] => rfl
      | [_, _, _] => rfl
      | _ :: _ :: _ :: _ :: others => simp
    rw [packPairs, unpackPairs]
    rw [fields _ _ _ _ below0 below1 below2 below3, rest]
    have parts : [(codes.getD 0 0 * 64 + codes.getD 1 0 * 16 + codes.getD 2 0 * 4 +
        codes.getD 3 0) / 64 % 4, (codes.getD 0 0 * 64 + codes.getD 1 0 * 16 + codes.getD 2 0 * 4 +
        codes.getD 3 0) / 16 % 4, (codes.getD 0 0 * 64 + codes.getD 1 0 * 16 + codes.getD 2 0 * 4 +
        codes.getD 3 0) / 4 % 4, (codes.getD 0 0 * 64 + codes.getD 1 0 * 16 + codes.getD 2 0 * 4 +
        codes.getD 3 0) % 4] = [codes.getD 0 0, codes.getD 1 0, codes.getD 2 0, codes.getD 3 0] := by
      congr 1
      · omega
      · congr 1
        · omega
        · congr 1
          · omega
          · congr 1
            lia
    rw [parts, taken, take_append_drop]

end OpenGauss.Base
