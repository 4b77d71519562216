import OpenGauss.CStore.IntegerRoundTrip
import Mathlib.Data.Int.DivMod

/-!
# Differences of differences

`Delta2Codec` of `time_series_compress.cpp` compresses timestamps. The first value is written whole,
the second as its difference to the first, and every other value as the difference of its difference
to that of the value before. A difference is written without its leading zero bytes behind a key with
their number and its sign, and whole if it needs all bytes. All arithmetic is that of 64 bits.
-/
namespace OpenGauss.CStore

open List OpenGauss.Base

/-- A signed number of 64 bits; what is above is cut off. -/
def asInt64 (value : Int) : Int := Int.bmod value (2 ^ 64)

/-- A range of magnitudes and their bytes (`Delta2KeyMap`). -/
structure Delta2KeyMap where
  min : Nat
  max : Nat
  byteLen : Nat

/-- The key of numbers that are written whole (`DELTA2_KEY_MAX`), and the flag of positive ones. -/
def delta2KeyMax : Nat := 8

/-- The ranges by their keys (`g_keyMap`). -/
def gKeyMap : List Delta2KeyMap :=
  [⟨0, 0, 1⟩, ⟨0, 0xFF, 1⟩, ⟨0xFF, 0xFFFF, 2⟩, ⟨0xFFFF, 0xFFFFFF, 3⟩, ⟨0xFFFFFF, 0xFFFFFFFF, 4⟩,
    ⟨0xFFFFFFFF, 0xFFFFFFFFFF, 5⟩, ⟨0xFFFFFFFFFF, 0xFFFFFFFFFFFF, 6⟩,
    ⟨0xFFFFFFFFFFFF, 0xFFFFFFFFFFFFFF, 7⟩, ⟨0xFFFFFFFFFFFFFF, 0x7FFFFFFFFFFFFFFF, 8⟩]

/-- The range of a key. -/
def keyRange (index : Nat) : Delta2KeyMap := gKeyMap.getD index ⟨0, 0, 0⟩

/-- Look for the range of a number from a key on, up or down; the key has 16 bits. -/
def findKeyLoop (value : Int) : Nat → Nat → Option Nat
  | 0, _ => none
  | rounds + 1, index =>
    let keySign := if value ≤ 0 then 0 else delta2KeyMax
    let negated := asInt64 (-value)
    if index < gKeyMap.length - 1 then
      if (value ≤ (keyRange index).max ∧ (keyRange index).min < value) ∨
          (negated ≤ (keyRange index).max ∧ (keyRange index).min < negated) then
        some (index + keySign)
      else if (keyRange index).max < value ∨ (keyRange index).max < negated then
        findKeyLoop value rounds ((index + 1) % 2 ^ 16)
      else findKeyLoop value rounds ((index + (2 ^ 16 - 1)) % 2 ^ 16)
    else some delta2KeyMax

/-- The key of a number; no result if the search did not end after some rounds. -/
def findKey (value : Int) : Option Nat := findKeyLoop value 16 (delta2KeyMax / 2)

/-- Write a difference. -/
def writeValue (value : Int) : Option (List UInt8) :=
  if value = 0 then some [0]
  else (findKey value).map fun key =>
    if key = delta2KeyMax then
      UInt8.ofNat key :: writeData (keyRange delta2KeyMax).byteLen (int64Bits value)
    else
      let keyIdx := key % 8
      let sign : Int := if key / 8 % 2 = 0 then -1 else 1
      let tmp := int64Bits (sign * value)
      UInt8.ofNat key :: writeData (keyRange keyIdx).byteLen ((keyRange keyIdx).max &&& tmp)

/-- Read a number of some bytes (`read_data_by_size`). -/
def readDataBySize (size : Nat) (inbuf : List UInt8) : Int := asInt64 (readData size inbuf)

/-- Read a difference: the difference and the bytes behind it. -/
def readValue (inbuf : List UInt8) : Int × List UInt8 :=
  let key := readData 1 inbuf
  let rest := inbuf.drop 1
  if key = 0 then (0, rest)
  else if key = delta2KeyMax then (readDataBySize 8 rest, rest.drop 8)
  else
    let sign : Int := if key / 8 % 2 = 0 then -1 else 1
    let delta2Bytes := key % 8
    (asInt64 (sign * readDataBySize delta2Bytes rest), rest.drop delta2Bytes)

/-- What is kept from value to value, in both directions. -/
structure Delta2State where
  count : Nat
  preData : Int
  preDelta : Int

/-- Write a value. -/
def Delta2State.append (dataSize : Nat) (state : Delta2State) (value : Int) :
    Option (List UInt8) × Delta2State :=
  if state.count = 0 then
    (some (writeData dataSize (int64Bits value)), ⟨state.count + 1, value, state.preDelta⟩)
  else if state.count = 1 then
    let delta := asInt64 (value - state.preData)
    (writeValue delta, ⟨state.count + 1, value, delta⟩)
  else
    let delta2 := asInt64 (asInt64 (value - state.preData) - state.preDelta)
    (writeValue delta2, ⟨state.count + 1, value, asInt64 (state.preDelta + delta2)⟩)

/-- Write the values of a buffer, as long as there are bytes for one. -/
def delta2CompressLoop (dataSize : Nat) : Nat → List UInt8 → Delta2State → Option (List UInt8)
  | 0, _, _ => none
  | rounds + 1, inbuf, state =>
    let one := state.append dataSize (readDataBySize dataSize inbuf)
    if dataSize ≤ (inbuf.drop dataSize).length then
      one.1.bind fun bytes =>
        (delta2CompressLoop dataSize rounds (inbuf.drop dataSize) one.2).map (bytes ++ ·)
    else one.1

/-- Compress the values of a buffer. -/
def delta2Compress (dataSize : Nat) (inbuf : List UInt8) : Option (List UInt8) :=
  delta2CompressLoop dataSize inbuf.length inbuf ⟨0, 0, 0⟩

/-- Read a value: what is kept behind it, and the bytes behind it. -/
def Delta2State.read (dataSize : Nat) (state : Delta2State) (inbuf : List UInt8) :
    Delta2State × List UInt8 :=
  if state.count = 0 then
    (⟨state.count + 1, readDataBySize dataSize inbuf, state.preDelta⟩, inbuf.drop dataSize)
  else
    let one := readValue inbuf
    if state.count = 1 then
      (⟨state.count + 1, asInt64 (state.preData + one.1), one.1⟩, one.2)
    else
      let delta := asInt64 (state.preDelta + one.1)
      (⟨state.count + 1, asInt64 (state.preData + delta), delta⟩, one.2)

/-- Restore values as long as there are bytes. -/
def delta2DecompressLoop (dataSize : Nat) : Nat → List UInt8 → Delta2State → List UInt8
  | 0, _, _ => []
  | rounds + 1, inbuf, state =>
    let one := state.read dataSize inbuf
    -- behind the first value the next one needs the byte of its key
    writeData dataSize (int64Bits one.1.preData) ++
      if 1 ≤ one.2.length then delta2DecompressLoop dataSize rounds one.2 one.1 else []

/-- Restore the values of compressed bytes. -/
def delta2Decompress (dataSize : Nat) (inbuf : List UInt8) : List UInt8 :=
  delta2DecompressLoop dataSize inbuf.length inbuf ⟨0, 0, 0⟩

/-- A signed number of 64 bits. -/
def IsInt64 (value : Int) : Prop := -2 ^ 63 ≤ value ∧ value < 2 ^ 63

variable (state : Delta2State) (value : Int)

theorem asInt64_emod : asInt64 value % 2 ^ 64 = value % 2 ^ 64 := Int.bmod_emod

theorem asInt64_range : IsInt64 (asInt64 value) := by
  have least := Int.le_bmod (x := value) (m := 2 ^ 64) (by decide)
  have most := Int.bmod_lt (x := value) (m := 2 ^ 64) (by decide)
  rw [IsInt64, asInt64]
  omega

theorem asInt64_eq (value other : Int) (range : IsInt64 other)
    (same : value % 2 ^ 64 = other % 2 ^ 64) : asInt64 value = other := by
  have low := asInt64_emod value
  have cut := asInt64_range value
  rw [IsInt64] at cut range
  lia

theorem readDataBySize_write (range : IsInt64 value) (rest : List UInt8) :
    readDataBySize 8 (writeData 8 (int64Bits value) ++ rest) = value := by
  have read := readData_low 8 (by decide) value rest
  have word : (256 : Int) ^ 8 = 2 ^ 64 := by decide
  rw [readDataBySize, read]
  exact asInt64_eq _ value range (Int.emod_emod_of_dvd _ (Int.dvd_refl _))

theorem keyRange_eq {index : Nat} (least : 1 ≤ index) (most : index ≤ 7) :
    keyRange index = ⟨256 ^ (index - 1) - 1, 256 ^ index - 1, index⟩ := by
  have all : ∀ index : Fin 8, 1 ≤ index.val → (keyRange index).min = 256 ^ (index.val - 1) - 1 ∧
        (keyRange index).max = 256 ^ index.val - 1 ∧ (keyRange index).byteLen = index := by decide
  have one := all ⟨index, by omega⟩ least
  exact Delta2KeyMap.mk.injEq .. ▸ one

/-- A key that fits a number: the whole number, or the range of its magnitude with its sign. -/
def KeyFits (key : Nat) (value : Int) : Prop :=
  key = delta2KeyMax ∨
    ∃ index, 1 ≤ index ∧ index ≤ 7 ∧ 256 ^ (index - 1) ≤ value.natAbs ∧ value.natAbs < 256 ^ index ∧
      key = index + if value ≤ 0 then 0 else delta2KeyMax

/-- The loop finds the key of the size of a value. -/
theorem findKeyLoop_found {target : Nat} (least : 1 ≤ target)
    (most : target ≤ 7) (above : 256 ^ (target - 1) ≤ value.natAbs)
    (below : value.natAbs < 256 ^ target) (rounds index : Nat) (first : 1 ≤ index) (last : index ≤ 7)
    (near : index - target + (target - index) < rounds) : findKeyLoop value rounds index =
      some (target + if value ≤ 0 then 0 else delta2KeyMax) := by
  have small : value.natAbs < 2 ^ 63 := by
    have power : (256 : Nat) ^ target ≤ 256 ^ 7 := Nat.pow_le_pow_right (by decide) most
    omega
  have negated : asInt64 (-value) = -value := by
    apply asInt64_eq _ _ _ rfl
    rw [IsInt64]
    lia
  induction rounds generalizing index with
  | zero => exact absurd near (Nat.not_lt_zero _)
  | succ rounds ih =>
    have positive : 0 < 256 ^ (index - 1) := Nat.pow_pos (by decide)
    have positiveTop : 0 < 256 ^ index := Nat.pow_pos (by decide)
    have inside : index < gKeyMap.length - 1 := Nat.lt_succ_of_le last
    rw [findKeyLoop, keyRange_eq first last]
    dsimp only
    rw [if_pos inside]
    rcases Nat.lt_trichotomy index target with up | here | down
    · have power : (256 : Nat) ^ index ≤ 256 ^ (target - 1) :=
        Nat.pow_le_pow_right (by decide) (by omega)
      rw [if_neg (by omega), if_pos (by lia), Nat.mod_eq_of_lt (by omega)]
      exact ih (index + 1) (by omega) (by lia) (by lia)
    · subst here
      rw [if_pos (by lia)]
    · have power : (256 : Nat) ^ target ≤ 256 ^ (index - 1) :=
        Nat.pow_le_pow_right (by decide) (by lia)
      have lower : (256 : Nat) ^ (index - 1) ≤ 256 ^ index :=
        Nat.pow_le_pow_right (by decide) (by omega)
      rw [if_neg (by lia), if_neg (by lia),
        show (index + (2 ^ 16 - 1)) % 2 ^ 16 = index - 1 by lia]
      exact ih (index - 1) (by lia) (by omega) (by grind)

/-- The loop ends at the largest key for a large value. -/
theorem findKeyLoop_large (range : IsInt64 value) (large : 256 ^ 7 ≤ value.natAbs)
    (other : value ≠ -2 ^ 63) (rounds index : Nat) (first : 1 ≤ index) (last : index ≤ 8)
    (near : 8 - index < rounds) : findKeyLoop value rounds index = some delta2KeyMax := by
  rw [IsInt64] at range
  have negated : asInt64 (-value) = -value := by
    apply asInt64_eq _ _ _ rfl
    rw [IsInt64]
    lia
  induction rounds generalizing index with
  | zero => exact absurd near (Nat.not_lt_zero _)
  | succ rounds ih =>
    rw [findKeyLoop]
    by_cases inside : index < gKeyMap.length - 1
    · have seven : index ≤ 7 := Nat.le_of_lt_succ inside
      have power : (256 : Nat) ^ index ≤ 256 ^ 7 := Nat.pow_le_pow_right (by decide) seven
      rw [keyRange_eq first seven]
      rw [if_pos inside, if_neg (by lia), if_pos (by lia), Nat.mod_eq_of_lt (by lia)]
      exact ih (index + 1) (by lia) (by omega) (by lia)
    · rw [if_neg inside]

/-- Each value but zero has a key that it fits. -/
theorem findKey_spec (range : IsInt64 value) (some : value ≠ 0) :
    ∃ key, findKey value = Option.some key ∧ KeyFits key value := by
  by_cases least : value = -2 ^ 63
  · rw [least]
    exact ⟨delta2KeyMax, by decide, .inl rfl⟩
  · by_cases large : 256 ^ 7 ≤ value.natAbs
    · exact ⟨delta2KeyMax, findKeyLoop_large value range large least 16 4 (by decide) (by decide)
        (by decide), .inl rfl⟩
    · have exists_index : ∃ index, value.natAbs < 256 ^ index := ⟨7, Nat.not_le.mp large⟩
      have below := Nat.find_spec exists_index
      have above : ∀ index < Nat.find exists_index, ¬value.natAbs < 256 ^ index :=
        fun index => Nat.find_min exists_index
      have most : Nat.find exists_index ≤ 7 := Nat.find_min' exists_index (Nat.not_le.mp large)
      generalize Nat.find exists_index = index at below above most
      have first : 1 ≤ index := by
        by_contra zero
        lia
      have lower := Nat.not_lt.mp (above (index - 1) (by omega))
      refine ⟨_, findKeyLoop_found value first most lower below 16 4 (by decide)
        (by decide) (by omega), .inr ⟨index, first, most, lower, below, rfl⟩⟩

/-- A difference is written and read back. -/
theorem readValue_writeValue (range : IsInt64 value) (rest : List UInt8) :
    ∃ bytes, writeValue value = some bytes ∧ 0 < bytes.length ∧
      readValue (bytes ++ rest) = (value, rest) := by
  have byte (key : Nat) (small : key < 256) (behind : List UInt8) :
      readData 1 (UInt8.ofNat key :: behind) = key := by
    have toNat : (UInt8.ofNat key).toNat = key := UInt8.toNat_ofNat_of_lt' small
    rw [readData, take_succ_cons, take_zero, leNat, leNat]
    omega
  rw [writeValue]
  by_cases zero : value = 0
  · rw [zero]
    exact ⟨[0], rfl, by decide, rfl⟩
  · obtain ⟨key, found, fits⟩ := findKey_spec value range zero
    rw [if_neg zero, found, Option.map_some]
    refine ⟨_, rfl, ?_, ?_⟩
    · split <;> exact Nat.succ_pos _
    · rcases fits with whole | ⟨index, first, last, above, below, isKey⟩
      · rw [if_pos whole, whole, cons_append, readValue, byte _ (by decide)]
        rw [if_neg (by decide), if_pos rfl, drop_succ_cons, drop_zero]
        have length : (keyRange delta2KeyMax).byteLen = 8 := rfl
        rw [length, readDataBySize_write value range rest, drop_writeData]
      · have low : key % 8 = index := by
          rw [isKey, delta2KeyMax]
          split <;> lia
        have notWhole : key ≠ delta2KeyMax := by
          rw [delta2KeyMax]
          lia
        have some : key ≠ 0 := by lia
        have small : key < 256 := by
          rw [isKey, delta2KeyMax]
          split <;> lia
        have narrow : value.natAbs < 2 ^ 63 := by
          have power : (256 : Nat) ^ index ≤ 256 ^ 7 := Nat.pow_le_pow_right (by decide) last
          omega
        have sign : (if key / 8 % 2 = 0 then (-1 : Int) else 1) * value = value.natAbs ∧
            (if key / 8 % 2 = 0 then (-1 : Int) else 1) * value.natAbs = value := by
          rw [isKey, delta2KeyMax]
          by_cases negative : value ≤ 0
          · lia
          · grind
        have magnitude : int64Bits value.natAbs = value.natAbs := by
          rw [int64Bits, Int.emod_eq_of_lt (by lia) (by lia), Int.toNat_natCast]
        have masked : (keyRange index).max &&& value.natAbs = value.natAbs := by
          rw [keyRange_eq first last, Nat.and_comm]
          rw [show (256 : Nat) ^ index = 2 ^ (8 * index) from (Nat.pow_mul 2 8 index).symm,
            Nat.and_two_pow_sub_one_eq_mod, Nat.pow_mul]
          exact Nat.mod_eq_of_lt below
        have bytes : (keyRange index).byteLen = index := by rw [keyRange_eq first last]
        have read : readDataBySize index (writeData index value.natAbs ++ rest) = value.natAbs := by
          rw [readDataBySize, readData_writeData rest below]
          apply asInt64_eq _ _ _ rfl
          rw [IsInt64]
          lia
        rw [if_neg notWhole]
        dsimp only
        rw [sign.1, magnitude, low, masked, bytes, cons_append, readValue, byte _ small]
        dsimp only
        rw [if_neg some, if_neg notWhole, low, drop_succ_cons, drop_zero, read, sign.2,
          drop_writeData, asInt64_eq value value range rfl]

/-- What is appended for a value is read as it. -/
theorem Delta2State.append_read (range : IsInt64 value) (rest : List UInt8) :
    ∃ bytes, (state.append 8 value).1 = some bytes ∧ 0 < bytes.length ∧
      state.read 8 (bytes ++ rest) = ((state.append 8 value).2, rest) := by
  rw [Delta2State.append]
  by_cases first : state.count = 0
  · rw [if_pos first]
    refine ⟨_, rfl, ?_, ?_⟩
    · rw [writeData, leBytes_length]
      decide
    · rw [Delta2State.read, if_pos first, readDataBySize_write value range rest, drop_writeData]
  · rw [if_neg first]
    by_cases second : state.count = 1
    · obtain ⟨bytes, written, some, read⟩ := readValue_writeValue _
        (asInt64_range (value - state.preData)) rest
      have low := asInt64_emod (value - state.preData)
      have back : asInt64 (state.preData + asInt64 (value - state.preData)) = value :=
        asInt64_eq _ _ range (by lia)
      rw [if_pos second]
      refine ⟨bytes, written, some, ?_⟩
      rw [Delta2State.read, if_neg first, if_pos second, read, back]
    · obtain ⟨bytes, written, some, read⟩ := readValue_writeValue _
        (asInt64_range (asInt64 (value - state.preData) - state.preDelta)) rest
      have difference := asInt64_emod (value - state.preData)
      have low := asInt64_emod (asInt64 (value - state.preData) - state.preDelta)
      have sum := asInt64_emod (state.preDelta +
        asInt64 (asInt64 (value - state.preData) - state.preDelta))
      have back : asInt64 (state.preData + asInt64 (state.preDelta +
          asInt64 (asInt64 (value - state.preData) - state.preDelta))) = value :=
        asInt64_eq _ _ range (by lia)
      rw [if_neg second]
      refine ⟨bytes, written, some, ?_⟩
      rw [Delta2State.read, if_neg first, if_neg second, read]
      dsimp only
      rw [back]

theorem Delta2State.append_preData : (state.append 8 value).2.preData = value := by
  rw [Delta2State.append]
  split
  · rfl
  · split <;> rfl

/-- Eight bytes that are read are written back. -/
theorem writeData_readDataBySize (inbuf : List UInt8) (present : 8 ≤ inbuf.length) :
    writeData 8 (int64Bits (readDataBySize 8 inbuf)) = inbuf.take 8 := by
  have width : (inbuf.take 8).length = 8 := by
    rw [length_take]
    lia
  have small : readData 8 inbuf < 256 ^ 8 := readData_lt 8 inbuf
  have low := asInt64_emod (readData 8 inbuf)
  have bits := int64Bits_cast (readDataBySize 8 inbuf)
  have equal : int64Bits (readDataBySize 8 inbuf) = readData 8 inbuf := by
    rw [readDataBySize] at bits ⊢
    lia
  have written := leBytes_leNat (inbuf.take 8)
  rw [width] at written
  rw [equal]
  exact written

/-- The loops restore the values from any state. -/
theorem delta2CompressLoop_restores (count : Nat) (inbuf : List UInt8)
    (whole : inbuf.length = (count + 1) * 8) (rounds : Nat) (enough : count < rounds)
    (state : Delta2State) :
    ∃ bytes, delta2CompressLoop 8 rounds inbuf state = some bytes ∧ 0 < bytes.length ∧
      ∀ readRounds, bytes.length ≤ readRounds →
        delta2DecompressLoop 8 readRounds bytes state = inbuf := by
  induction count generalizing inbuf rounds state with
  | zero =>
    obtain ⟨before, rfl⟩ := Nat.exists_eq_succ_of_ne_zero (Nat.ne_of_gt enough)
    have same := writeData_readDataBySize inbuf (by omega)
    obtain ⟨bytes, written, some, read⟩ := state.append_read (readDataBySize 8 inbuf)
      (asInt64_range _) []
    have last : ¬8 ≤ (inbuf.drop 8).length := by
      rw [length_drop]
      omega
    refine ⟨bytes, ?_, some, ?_⟩
    · rw [delta2CompressLoop, if_neg last]
      exact written
    · intro readRounds least
      obtain ⟨earlier, rfl⟩ := Nat.exists_eq_succ_of_ne_zero
        (Nat.ne_of_gt (Nat.lt_of_lt_of_le some least))
      rw [append_nil] at read
      rw [delta2DecompressLoop, read]
      dsimp only
      rw [Delta2State.append_preData, same, if_neg (by decide), append_nil]
      apply take_of_length_le
      omega
  | succ count ih =>
    obtain ⟨before, rfl⟩ := Nat.exists_eq_succ_of_ne_zero (Nat.ne_of_gt (Nat.zero_lt_of_lt enough))
    have same := writeData_readDataBySize inbuf (by omega)
    have length : (inbuf.drop 8).length = (count + 1) * 8 := by
      rw [length_drop]
      lia
    obtain ⟨later, writtenLater, someLater, readLater⟩ := ih (inbuf.drop 8) length before
      (Nat.lt_of_succ_lt_succ enough) (state.append 8 (readDataBySize 8 inbuf)).2
    obtain ⟨bytes, written, some, read⟩ := state.append_read (readDataBySize 8 inbuf)
      (asInt64_range _) later
    have total : (bytes ++ later).length = bytes.length + later.length := length_append
    refine ⟨bytes ++ later, ?_, by lia, ?_⟩
    · rw [delta2CompressLoop, if_pos (by lia)]
      rw [written, Option.bind_some, writtenLater, Option.map_some]
    · intro readRounds least
      obtain ⟨earlier, rfl⟩ := Nat.exists_eq_succ_of_ne_zero
        (Nat.ne_of_gt (Nat.lt_of_lt_of_le (show 0 < (bytes ++ later).length by lia) least))
      rw [delta2DecompressLoop, read]
      rw [Delta2State.append_preData, same, if_pos (show 1 ≤ later.length from someLater), readLater earlier (by lia),
        take_append_drop]

/-- Timestamps are compressed and restored, whatever they are, and the search for a key always ends at
one that fits. -/
theorem delta2_timestamps_are_restored (count : Nat) (present : 0 < count) (inbuf : List UInt8)
    (whole : inbuf.length = count * 8) :
    (∃ bytes, delta2Compress 8 inbuf = some bytes ∧ delta2Decompress 8 bytes = inbuf) ∧
      ∀ value, IsInt64 value → value ≠ 0 → ∃ key, findKey value = some key ∧ KeyFits key value := by
  obtain ⟨before, rfl⟩ : ∃ before, count = before + 1 := ⟨count - 1, by omega⟩
  obtain ⟨bytes, written, -, restored⟩ := delta2CompressLoop_restores before inbuf whole inbuf.length
    (by omega) ⟨0, 0, 0⟩
  exact ⟨⟨bytes, written, restored bytes.length (Nat.le_refl _)⟩, findKey_spec⟩

/-- The least number behind the largest one: the difference wraps to one. -/
theorem delta2_timestamps_are_restored_wrapped :
    (∃ bytes, delta2Compress 8 (writeData 8 (2 ^ 63 - 1) ++ writeData 8 (2 ^ 63)) = some bytes ∧
        delta2Decompress 8 bytes = writeData 8 (2 ^ 63 - 1) ++ writeData 8 (2 ^ 63)) ∧
      ∀ value, IsInt64 value → value ≠ 0 → ∃ key, findKey value = some key ∧ KeyFits key value :=
  delta2_timestamps_are_restored 2 (by decide) _ (by decide)

end OpenGauss.CStore
