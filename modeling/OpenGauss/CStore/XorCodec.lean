import OpenGauss.Base.HighBits
import OpenGauss.CStore.RunLength

/-!
# Differences of floats

`XORCodec` of `time_series_compress.cpp` compresses floats as bits. A value is written by how its bits
differ from those of the value before: one bit if they do not, else the bits from the first to the
last difference, either where those of an earlier value were or with the place in front. The same
places are kept while compressing and while restoring.
-/
namespace OpenGauss.CStore

open List OpenGauss.Base

/-- The bits of the number of leading zeros (`kLeadingZerosLengthBits`). -/
def kLeadingZerosLengthBits : Nat := 5

/-- The bits of the size of a block (`kBlockSizeLengthBits`). -/
def kBlockSizeLengthBits : Nat := 6

/-- The most leading zeros that are written (`kMaxLeadingZerosLength`). -/
def kMaxLeadingZerosLength : Nat := 2 ^ kLeadingZerosLengthBits - 1

/-- The size of a block is written less one (`kBlockSizeAdjustment`). -/
def kBlockSizeAdjustment : Nat := 1

/-- The bits of a value. -/
def floatSize : Nat := 64

/-- The zeros above the highest bit of a number of 64 bits (`__builtin_clzll`). -/
def countLeadingZeros (number : Nat) : Nat := 63 - number.log2

/-- The zeros below the lowest bit of a number, at most as many as it has bits
(`__builtin_ctzll`). -/
def countTrailingZeros : Nat → Nat → Nat
  | 0, _ => 0
  | width + 1, number =>
    if number % 2 = 1 then 0 else countTrailingZeros width (number / 2) + 1

/-- The state of the coder and the bytes it wrote. The number of bits is used modulo 8 only. -/
structure XORCodec where
  previousValue : Nat
  numBits : Nat
  previousValueLeadingZeros : Nat
  previousValueTrailingZeros : Nat
  bitsStore : UInt8
  outbuf : List UInt8

/-- A new coder. -/
def XORCodec.new : XORCodec := ⟨0, 0, 0, 0, 0, []⟩

/-- Write the byte if it is full. -/
def XORCodec.flushBitString (codec : XORCodec) : XORCodec :=
  if codec.numBits % 8 = 0 then
    { codec with outbuf := codec.outbuf ++ [codec.bitsStore], bitsStore := 0 }
  else codec

/-- Write the byte if it has bits. -/
def XORCodec.flushLastBitString (codec : XORCodec) : XORCodec :=
  if codec.numBits % 8 ≠ 0 then
    { codec with outbuf := codec.outbuf ++ [codec.bitsStore], bitsStore := 0 }
  else codec

/-- Write whole bytes as long as there are bits for one; the bits that are left. -/
def XORCodec.addWholeBytes (value : Nat) : Nat → Nat → XORCodec → XORCodec × Nat
  | 0, bitsLeft, codec => (codec, bitsLeft)
  | rounds + 1, bitsLeft, codec =>
    if 8 ≤ bitsLeft then
      let ch := UInt8.ofNat ((value >>> (bitsLeft - 8)) % 256)
      addWholeBytes value rounds (bitsLeft - 8)
        { codec with
          numBits := codec.numBits + 8
          bitsStore := codec.bitsStore + ch }.flushBitString
    else (codec, bitsLeft)

/-- Write the bits behind the byte that is not full. -/
def XORCodec.addRest (value bitsLeft : Nat) (codec : XORCodec) : XORCodec :=
  let whole := codec.addWholeBytes value bitsLeft bitsLeft
  if whole.2 ≠ 0 then
    { whole.1 with
      numBits := whole.1.numBits + whole.2
      bitsStore := whole.1.bitsStore + UInt8.ofNat (value % 2 ^ whole.2 * 2 ^ (8 - whole.2)) }
  else whole.1

/-- Write the low bits of a value. -/
def XORCodec.addValueToBitString (value bitsInValue : Nat) (codec : XORCodec) : XORCodec :=
  let bitsAvailable := if codec.numBits % 8 ≠ 0 then 8 - codec.numBits % 8 else 0
  if bitsInValue ≤ bitsAvailable then
    { codec with
      numBits := codec.numBits + bitsInValue
      bitsStore := codec.bitsStore + UInt8.ofNat (value <<< (bitsAvailable - bitsInValue)) }.flushBitString
  else if 0 < bitsAvailable then
    { codec with
      numBits := codec.numBits + bitsAvailable
      bitsStore := codec.bitsStore +
        UInt8.ofNat (value >>> (bitsInValue - bitsAvailable)) }.flushBitString.addRest value
          (bitsInValue - bitsAvailable)
  else codec.addRest value bitsInValue

/-- The leading zeros that are written. -/
def leadingZerosOf (xorWithPrevious : Nat) : Nat :=
  if kMaxLeadingZerosLength < countLeadingZeros xorWithPrevious then kMaxLeadingZerosLength
  else countLeadingZeros xorWithPrevious

/-- The zeros behind the block. -/
def trailingZerosOf (xorWithPrevious : Nat) : Nat := countTrailingZeros floatSize xorWithPrevious

/-- The size of the block of a difference. -/
def blockSizeOf (xorWithPrevious : Nat) : Nat :=
  floatSize - leadingZerosOf xorWithPrevious - trailingZerosOf xorWithPrevious

/-- Write a value. -/
def XORCodec.appendValue (codec : XORCodec) (value : Nat) : XORCodec :=
  let xorWithPrevious := codec.previousValue ^^^ value
  if xorWithPrevious = 0 then codec.addValueToBitString 0 1
  else
    let started := codec.addValueToBitString 1 1
    let leadingZeros := leadingZerosOf xorWithPrevious
    let trailingZeros := trailingZerosOf xorWithPrevious
    let blockSize := blockSizeOf xorWithPrevious
    let expectedSize := kLeadingZerosLengthBits + kBlockSizeLengthBits + blockSize
    let previousBlockInformationSize :=
      floatSize - codec.previousValueTrailingZeros - codec.previousValueLeadingZeros
    if codec.previousValueLeadingZeros ≤ leadingZeros ∧
        codec.previousValueTrailingZeros ≤ trailingZeros ∧
        previousBlockInformationSize < expectedSize then
      { ((started.addValueToBitString 1 1).addValueToBitString
          (xorWithPrevious >>> codec.previousValueTrailingZeros) previousBlockInformationSize) with
        previousValue := value }
    else
      { (((started.addValueToBitString 0 1).addValueToBitString leadingZeros
          kLeadingZerosLengthBits).addValueToBitString (blockSize - kBlockSizeAdjustment)
          kBlockSizeLengthBits).addValueToBitString (xorWithPrevious >>> trailingZeros) blockSize with
        previousValueTrailingZeros := trailingZeros
        previousValueLeadingZeros := leadingZeros
        previousValue := value }

/-- Write the values of a buffer, as long as there are bytes for one. -/
def XORCodec.compressLoop (dataSize : Nat) : Nat → List UInt8 → XORCodec → XORCodec
  | 0, _, codec => codec
  | rounds + 1, inbuf, codec =>
    let next := codec.appendValue (readData dataSize inbuf)
    if dataSize ≤ (inbuf.drop dataSize).length then
      compressLoop dataSize rounds (inbuf.drop dataSize) next
    else next

/-- Compress the values of a buffer. -/
def xorCompress (dataSize : Nat) (inbuf : List UInt8) : List UInt8 :=
  (XORCodec.new.compressLoop dataSize inbuf.length inbuf).flushLastBitString.outbuf

/-- A reader of bits. -/
structure BitReader where
  bitPos : Nat
  inPos : Nat
  bitsStore : UInt8

/-- Read bits behind those of a number, which has 64 bits. -/
def readValueFromBitString (inbuf : Nat → UInt8) : Nat → Nat → BitReader → Nat × BitReader
  | 0, value, reader => (value, reader)
  | bitsToRead + 1, value, reader =>
    let bit := (reader.bitsStore.toNat >>> (7 - reader.bitPos % 8)) % 2
    let bitPos := reader.bitPos + 1
    readValueFromBitString inbuf bitsToRead ((value * 2 % 2 ^ 64 + bit) % 2 ^ 64)
      (if bitPos % 8 = 0 then ⟨bitPos, reader.inPos + 1, inbuf reader.inPos⟩
        else { reader with bitPos := bitPos })

/-- What is kept from value to value: the value before and the place of its block. -/
structure XorWindow where
  previousValue : Nat
  leadingZeros : Nat
  trailingZeros : Nat

/-- Read a value: the value, the reader behind it and what is kept. -/
def readNextValue (inbuf : Nat → UInt8) (reader : BitReader) (window : XorWindow) :
    Nat × BitReader × XorWindow :=
  let nonZeroValue := readValueFromBitString inbuf 1 0 reader
  if nonZeroValue.1 = 0 then (window.previousValue, nonZeroValue.2, window)
  else
    let usePrevious := readValueFromBitString inbuf 1 0 nonZeroValue.2
    if usePrevious.1 ≠ 0 then
      let block := readValueFromBitString inbuf
        (floatSize - window.leadingZeros - window.trailingZeros) 0 usePrevious.2
      let value := (block.1 <<< window.trailingZeros % 2 ^ 64) ^^^ window.previousValue
      (value, block.2, { window with previousValue := value })
    else
      let leadingZeros := readValueFromBitString inbuf kLeadingZerosLengthBits 0 usePrevious.2
      let size := readValueFromBitString inbuf kBlockSizeLengthBits 0 leadingZeros.2
      let blockSize := size.1 + kBlockSizeAdjustment
      let trailingZeros := floatSize - blockSize - leadingZeros.1
      let block := readValueFromBitString inbuf blockSize 0 size.2
      let value := (block.1 <<< trailingZeros % 2 ^ 64) ^^^ window.previousValue
      (value, block.2, ⟨value, leadingZeros.1, trailingZeros⟩)

/-- Read some values. -/
def xorDecompressLoop (inbuf : Nat → UInt8) : Nat → BitReader → XorWindow → List Nat
  | 0, _, _ => []
  | loopCount + 1, reader, window =>
    let one := readNextValue inbuf reader window
    one.1 :: xorDecompressLoop inbuf loopCount one.2.1 one.2.2

/-- Restore values from a memory that starts with their bits: as many as the output has room for. -/
def xorDecompress (dataSize outsize : Nat) (inbuf : Nat → UInt8) : List UInt8 :=
  writeValues dataSize (xorDecompressLoop inbuf (outsize / dataSize) ⟨0, 1, inbuf 0⟩ ⟨0, 0, 0⟩)

/-- The bits that a coder wrote. -/
def XORCodec.Holds (codec : XORCodec) (bits : List Bool) : Prop :=
  HoldsBits codec.outbuf codec.bitsStore codec.numBits bits

/-- What a coder keeps from value to value. -/
def XORCodec.window (codec : XORCodec) : XorWindow :=
  ⟨codec.previousValue, codec.previousValueLeadingZeros, codec.previousValueTrailingZeros⟩

variable (window : XorWindow) (codec : XORCodec) (dataSize : Nat) (inbuf : Nat → UInt8)
  (values : List Nat) (bits : List Bool)

theorem XORCodec.flushBitString_window : codec.flushBitString.window = codec.window := by
  rw [XORCodec.flushBitString]
  split <;> rfl

/-- Bits are added to the byte that is open. -/
theorem XORCodec.Holds.add {codec : XORCodec} {bits : List Bool} (holds : codec.Holds bits)
    (width value : Nat) (some : 0 < width) (room : codec.numBits % 8 + width ≤ 8) :
    XORCodec.Holds { codec with
      numBits := codec.numBits + width
      bitsStore := codec.bitsStore +
        UInt8.ofNat (value % 2 ^ width * 2 ^ (8 - codec.numBits % 8 - width)) }.flushBitString
      (bits ++ highBits width value) := by
  by_cases full : codec.numBits % 8 + width = 8
  · have whole : (codec.numBits + width) % 8 = 0 := by lia
    have filled := HoldsBits.fill _ _ _ holds width value full
    rw [XORCodec.flushBitString, if_pos whole]
    rw [show 8 - codec.numBits % 8 - width = 0 by omega, Nat.pow_zero, Nat.mul_one]
    exact filled
  · have part : (codec.numBits + width) % 8 ≠ 0 := by lia
    rw [XORCodec.flushBitString, if_neg part]
    exact HoldsBits.add _ _ _ holds width value (by lia)

/-- Whole bytes are added at once. -/
theorem XORCodec.addWholeBytes_spec (value rounds bitsLeft : Nat) (codec : XORCodec)
    (bits : List Bool) (holds : codec.Holds bits) (whole : codec.numBits % 8 = 0)
    (enough : bitsLeft ≤ rounds) :
    let result := codec.addWholeBytes value rounds bitsLeft
    result.2 < 8 ∧ result.1.numBits % 8 = 0 ∧ result.1.window = codec.window ∧
      ∃ written, result.1.Holds written ∧
        written ++ highBits result.2 value = bits ++ highBits bitsLeft value := by
  induction rounds generalizing bitsLeft codec bits with
  | zero =>
    obtain rfl : bitsLeft = 0 := Nat.le_zero.mp enough
    exact ⟨Nat.zero_lt_succ 7, whole, rfl, bits, holds, rfl⟩
  | succ rounds ih =>
    rw [XORCodec.addWholeBytes]
    by_cases more : 8 ≤ bitsLeft
    · rw [if_pos more]
      have added := holds.add 8 (value >>> (bitsLeft - 8)) (by decide) (by omega)
      rw [whole, Nat.pow_zero, Nat.mul_one] at added
      have aligned : XORCodec.numBits { codec with
          numBits := codec.numBits + 8
          bitsStore := codec.bitsStore +
            UInt8.ofNat ((value >>> (bitsLeft - 8)) % 256) }.flushBitString % 8 = 0 := by
        rw [XORCodec.flushBitString]
        lia
      obtain ⟨few, wholeAfter, window, written, holdsAfter, rest⟩ :=
        ih (bitsLeft - 8) _ _ added aligned (by omega)
      refine ⟨few, wholeAfter, window.trans (XORCodec.flushBitString_window _), written,
        holdsAfter, ?_⟩
      have split := highBits_add 8 (bitsLeft - 8) value
      rw [show 8 + (bitsLeft - 8) = bitsLeft by omega] at split
      exact rest.trans (by rw [split, append_assoc])
    · rw [if_neg more]
      exact ⟨Nat.not_le.mp more, whole, rfl, bits, holds, rfl⟩

/-- The last bits are added. -/
theorem XORCodec.addRest_spec (value bitsLeft : Nat) {codec : XORCodec} {bits : List Bool}
    (holds : codec.Holds bits) (whole : codec.numBits % 8 = 0) :
    (codec.addRest value bitsLeft).Holds (bits ++ highBits bitsLeft value) ∧
      (codec.addRest value bitsLeft).window = codec.window := by
  obtain ⟨few, aligned, window, written, holdsAfter, rest⟩ :=
    XORCodec.addWholeBytes_spec value bitsLeft bitsLeft codec bits holds whole (Nat.le_refl _)
  rw [XORCodec.addRest, ← rest]
  generalize codec.addWholeBytes value bitsLeft bitsLeft = result at few aligned window holdsAfter
  by_cases some : result.2 ≠ 0
  · have added := HoldsBits.add _ _ _ holdsAfter result.2 value (by lia)
    rw [aligned] at added
    rw [if_pos some]
    exact ⟨added, window⟩
  · rw [not_not.mp some]
    refine ⟨?_, window⟩
    rw [highBits, append_nil]
    exact holdsAfter

/-- A value is added bit by bit, from the top. -/
theorem XORCodec.addValueToBitString_spec (value bitsInValue : Nat) {codec : XORCodec}
    {bits : List Bool} (holds : codec.Holds bits) (some : 0 < bitsInValue)
    (fits : value < 2 ^ bitsInValue) :
    (codec.addValueToBitString value bitsInValue).Holds (bits ++ highBits bitsInValue value) ∧
      (codec.addValueToBitString value bitsInValue).window = codec.window := by
  rw [XORCodec.addValueToBitString]
  by_cases part : codec.numBits % 8 ≠ 0
  · simp only [if_pos part]
    by_cases inside : bitsInValue ≤ 8 - codec.numBits % 8
    · have added := holds.add bitsInValue value some (by omega)
      rw [Nat.mod_eq_of_lt fits] at added
      rw [if_pos inside, Nat.shiftLeft_eq]
      exact ⟨added, XORCodec.flushBitString_window _⟩
    · have available : 0 < 8 - codec.numBits % 8 := by omega
      have upper : value >>> (bitsInValue - (8 - codec.numBits % 8)) <
          2 ^ (8 - codec.numBits % 8) := by
        rw [Nat.shiftRight_eq_div_pow]
        apply Nat.div_lt_of_lt_mul
        rw [← Nat.pow_add]
        exact Nat.lt_of_lt_of_le fits (Nat.pow_le_pow_right (by decide) (by omega))
      have added := holds.add (8 - codec.numBits % 8)
        (value >>> (bitsInValue - (8 - codec.numBits % 8))) available (by omega)
      rw [Nat.mod_eq_of_lt upper, Nat.sub_self, Nat.pow_zero, Nat.mul_one] at added
      rw [if_neg inside, if_pos available]
      have aligned : XORCodec.numBits { codec with
          numBits := codec.numBits + (8 - codec.numBits % 8)
          bitsStore := codec.bitsStore + UInt8.ofNat
            (value >>> (bitsInValue - (8 - codec.numBits % 8))) }.flushBitString % 8 = 0 := by
        have whole : (codec.numBits + (8 - codec.numBits % 8)) % 8 = 0 := by grind
        rw [XORCodec.flushBitString, if_pos whole]
        exact whole
      obtain ⟨rest, window⟩ := XORCodec.addRest_spec value (bitsInValue - (8 - codec.numBits % 8))
        added aligned
      have split := highBits_add (8 - codec.numBits % 8) (bitsInValue - (8 - codec.numBits % 8)) value
      rw [show 8 - codec.numBits % 8 + (bitsInValue - (8 - codec.numBits % 8)) = bitsInValue by
        lia] at split
      rw [append_assoc, ← split] at rest
      exact ⟨rest, window.trans (XORCodec.flushBitString_window _)⟩
  · simp only [if_neg part, if_neg (Nat.not_le.mpr some)]
    exact XORCodec.addRest_spec value bitsInValue holds (not_not.mp part)

theorem two_pow_countTrailingZeros_dvd (width number : Nat) :
    2 ^ countTrailingZeros width number ∣ number := by
  induction width generalizing number with
  | zero => exact Nat.one_dvd number
  | succ width ih =>
    rw [countTrailingZeros]
    by_cases odd : number % 2 = 1
    · rw [if_pos odd]
      exact Nat.one_dvd number
    · obtain ⟨rest, isRest⟩ := ih (number / 2)
      rw [if_neg odd, Nat.pow_succ']
      refine ⟨rest, ?_⟩
      lia

theorem blockSizeOf_spec (number : Nat) (some : number ≠ 0) (fits : number < 2 ^ 64) :
    leadingZerosOf number ≤ 31 ∧ leadingZerosOf number + trailingZerosOf number ≤ 63 ∧
      number < 2 ^ (64 - leadingZerosOf number) ∧ 2 ^ trailingZerosOf number ∣ number := by
  have divides := two_pow_countTrailingZeros_dvd floatSize number
  have most : number.log2 < 64 := (Nat.log2_lt some).mpr fits
  have least : trailingZerosOf number ≤ number.log2 :=
    (Nat.le_log2 some).mpr (Nat.le_of_dvd (Nat.pos_of_ne_zero some) divides)
  have above : number < 2 ^ (number.log2 + 1) := Nat.lt_log2_self
  have leading : leadingZerosOf number ≤ 31 ∧ leadingZerosOf number ≤ 63 - number.log2 := by
    rw [leadingZerosOf, countLeadingZeros, show kMaxLeadingZerosLength = 31 from rfl]
    split <;> omega
  refine ⟨leading.1, by omega, ?_, divides⟩
  exact Nat.lt_of_lt_of_le above (Nat.pow_le_pow_right (by decide) (by omega))

/-- Whether a difference is written where the block before was. -/
def XorWindow.Fits (window : XorWindow) (xorWithPrevious : Nat) : Prop :=
  window.leadingZeros ≤ leadingZerosOf xorWithPrevious ∧
    window.trailingZeros ≤ trailingZerosOf xorWithPrevious ∧
    floatSize - window.trailingZeros - window.leadingZeros <
      kLeadingZerosLengthBits + kBlockSizeLengthBits + blockSizeOf xorWithPrevious

/-- It can be checked. -/
instance (window : XorWindow) (xorWithPrevious : Nat) : Decidable (window.Fits xorWithPrevious) :=
  inferInstanceAs (Decidable (_ ∧ _ ∧ _))

/-- The bits of a value. -/
def XorWindow.code (window : XorWindow) (value : Nat) : List Bool :=
  let xor := window.previousValue ^^^ value
  if xor = 0 then highBits 1 0
  else if window.Fits xor then
    highBits 1 1 ++ highBits 1 1 ++
      highBits (floatSize - window.trailingZeros - window.leadingZeros)
        (xor >>> window.trailingZeros)
  else highBits 1 1 ++ highBits 1 0 ++ highBits kLeadingZerosLengthBits (leadingZerosOf xor) ++
    highBits kBlockSizeLengthBits (blockSizeOf xor - kBlockSizeAdjustment) ++
    highBits (blockSizeOf xor) (xor >>> trailingZerosOf xor)

/-- What is kept behind a value. -/
def XorWindow.next (window : XorWindow) (value : Nat) : XorWindow :=
  let xor := window.previousValue ^^^ value
  if xor = 0 then window
  else if window.Fits xor then { window with previousValue := value }
  else ⟨value, leadingZerosOf xor, trailingZerosOf xor⟩

/-- The bits of some values. -/
def XorWindow.codes : XorWindow → List Nat → List Bool
  | _, [] => []
  | window, value :: rest => window.code value ++ (window.next value).codes rest

/-- What holds of everything that is kept. -/
structure XorWindow.Valid (window : XorWindow) : Prop where
  value : window.previousValue < 2 ^ 64
  leading : window.leadingZeros ≤ 31
  block : window.leadingZeros + window.trailingZeros ≤ 63

theorem XorWindow.Valid.next {window : XorWindow} (valid : window.Valid) {value : Nat}
    (fits : value < 2 ^ 64) : (window.next value).Valid := by
  rw [XorWindow.next]
  by_cases same : window.previousValue ^^^ value = 0
  · rw [if_pos same]
    exact valid
  · have place := blockSizeOf_spec _ same (Nat.xor_lt_two_pow valid.value fits)
    rw [if_neg same]
    by_cases inside : window.Fits (window.previousValue ^^^ value)
    · rw [if_pos inside]
      exact ⟨fits, valid.leading, valid.block⟩
    · rw [if_neg inside]
      exact ⟨fits, place.1, place.2.1⟩

theorem block_fits {number leading trailing : Nat} (small : number < 2 ^ (64 - leading))
    (order : leading + trailing ≤ 63) : number >>> trailing < 2 ^ (64 - trailing - leading) := by
  rw [Nat.shiftRight_eq_div_pow]
  apply Nat.div_lt_of_lt_mul
  rw [← Nat.pow_add, show trailing + (64 - trailing - leading) = 64 - leading by lia]
  exact small

theorem small_of_leading_le {number leading : Nat} (less : leading ≤ leadingZerosOf number)
    (small : number < 2 ^ (64 - leadingZerosOf number)) : number < 2 ^ (64 - leading) :=
  Nat.lt_of_lt_of_le small (Nat.pow_le_pow_right (by decide) (by omega))

/-- The code of a value is appended. -/
theorem XORCodec.appendValue_spec (holds : codec.Holds bits)
    (valid : codec.window.Valid) {value : Nat} (fits : value < 2 ^ 64) :
    (codec.appendValue value).Holds (bits ++ codec.window.code value) ∧
      (codec.appendValue value).window = codec.window.next value := by
  have previous : codec.window.previousValue = codec.previousValue := rfl
  rw [XORCodec.appendValue, XorWindow.code, XorWindow.next, previous]
  by_cases same : codec.previousValue ^^^ value = 0
  · rw [if_pos same, if_pos same, if_pos same]
    exact XORCodec.addValueToBitString_spec 0 1 holds (by decide) (by decide)
  · have place := blockSizeOf_spec _ same (Nat.xor_lt_two_pow valid.value fits)
    rw [if_neg same, if_neg same, if_neg same]
    generalize codec.previousValue ^^^ value = xor at same place ⊢
    have started := XORCodec.addValueToBitString_spec 1 1 holds (by decide) (by decide)
    by_cases inside : codec.window.Fits xor
    · have block := block_fits (small_of_leading_le inside.1 place.2.2.1) valid.block
      have order := valid.block
      have control := XORCodec.addValueToBitString_spec 1 1 started.1 (by decide) (by decide)
      have whole := XORCodec.addValueToBitString_spec (xor >>> codec.previousValueTrailingZeros)
        (floatSize - codec.previousValueTrailingZeros - codec.previousValueLeadingZeros)
        control.1 (by
          show 0 < 64 - codec.previousValueTrailingZeros - codec.previousValueLeadingZeros
          have both : codec.previousValueLeadingZeros + codec.previousValueTrailingZeros ≤ 63 := order
          omega) block
      have window := whole.2.trans (control.2.trans started.2)
      have isInside : codec.previousValueLeadingZeros ≤ leadingZerosOf xor ∧
          codec.previousValueTrailingZeros ≤ trailingZerosOf xor ∧
          floatSize - codec.previousValueTrailingZeros - codec.previousValueLeadingZeros <
            kLeadingZerosLengthBits + kBlockSizeLengthBits + blockSizeOf xor := inside
      rw [if_pos isInside, if_pos inside, if_pos inside]
      refine ⟨?_, congrArg (fun kept : XorWindow => { kept with previousValue := value }) window⟩
      rw [← append_assoc, ← append_assoc]
      exact whole.1
    · have isOutside : ¬(codec.previousValueLeadingZeros ≤ leadingZerosOf xor ∧
          codec.previousValueTrailingZeros ≤ trailingZerosOf xor ∧
          floatSize - codec.previousValueTrailingZeros - codec.previousValueLeadingZeros <
            kLeadingZerosLengthBits + kBlockSizeLengthBits + blockSizeOf xor) := inside
      have size : blockSizeOf xor = 64 - leadingZerosOf xor - trailingZerosOf xor := rfl
      have block := block_fits place.2.2.1 place.2.1
      rw [Nat.sub_right_comm] at block
      have control := XORCodec.addValueToBitString_spec 0 1 started.1 (by decide) (by decide)
      have leading := XORCodec.addValueToBitString_spec (leadingZerosOf xor) kLeadingZerosLengthBits
         control.1 (by decide) (Nat.lt_succ_of_le place.1)
      have blockSize := XORCodec.addValueToBitString_spec (blockSizeOf xor - kBlockSizeAdjustment)
        kBlockSizeLengthBits leading.1 (by decide) (by
          show blockSizeOf xor - 1 < 64
          omega)
      have whole := XORCodec.addValueToBitString_spec (xor >>> trailingZerosOf xor)
        (blockSizeOf xor) blockSize.1 (by omega) block
      rw [if_neg isOutside, if_neg inside, if_neg inside]
      refine ⟨?_, rfl⟩
      rw [← append_assoc, ← append_assoc, ← append_assoc, ← append_assoc]
      exact whole.1

/-- The loop appends the codes of all values. -/
theorem XORCodec.compressLoop_spec (wide : 0 < dataSize) (narrow : dataSize ≤ 8)
    (count : Nat) (inbuf : List UInt8) (whole : inbuf.length = (count + 1) * dataSize)
    (rounds : Nat) (enough : count < rounds) (codec : XORCodec) (bits : List Bool)
    (holds : codec.Holds bits) (valid : codec.window.Valid) :
    (codec.compressLoop dataSize rounds inbuf).Holds
      (bits ++ codec.window.codes (readValues dataSize (count + 1) inbuf)) := by
  induction count generalizing inbuf rounds codec bits with
  | zero =>
    obtain ⟨before, rfl⟩ := Nat.exists_eq_succ_of_ne_zero (Nat.ne_of_gt enough)
    have small : readData dataSize inbuf < 2 ^ 64 :=
      Nat.lt_of_lt_of_le (readData_lt dataSize inbuf) (Nat.pow_le_pow_right (by decide) narrow)
    have one := codec.appendValue_spec bits holds valid small
    have last : ¬dataSize ≤ (inbuf.drop dataSize).length := by
      rw [length_drop]
      lia
    rw [XORCodec.compressLoop, if_neg last, readValues, readValues, XorWindow.codes,
      XorWindow.codes, append_nil]
    exact one.1
  | succ count ih =>
    obtain ⟨before, rfl⟩ := Nat.exists_eq_succ_of_ne_zero (Nat.ne_of_gt (Nat.zero_lt_of_lt enough))
    have small : readData dataSize inbuf < 2 ^ 64 :=
      Nat.lt_of_lt_of_le (readData_lt dataSize inbuf) (Nat.pow_le_pow_right (by decide) narrow)
    have one := codec.appendValue_spec bits holds valid small
    rw [Nat.succ_mul] at whole
    have length : (inbuf.drop dataSize).length = (count + 1) * dataSize := by
      rw [length_drop]
      omega
    have more : dataSize ≤ (inbuf.drop dataSize).length := by
      rw [length]
      exact Nat.le_mul_of_pos_left _ (Nat.succ_pos count)
    have behind := ih (inbuf.drop dataSize) length before (Nat.lt_of_succ_lt_succ enough) _ _ one.1
      (by
        rw [one.2]
        exact valid.next small)
    rw [one.2, append_assoc] at behind
    rw [XORCodec.compressLoop, if_pos more]
    exact behind

/-- What is kept before the first value. -/
def XorWindow.first : XorWindow := ⟨0, 0, 0⟩

/-- The compressed bytes are the codes, filled up with zeros. -/
theorem xorCompress_spec (wide : 0 < dataSize) (narrow : dataSize ≤ 8)
    {count : Nat} (present : 0 < count) {inbuf : List UInt8}
    (whole : inbuf.length = count * dataSize) :
    ∃ zeros < 8, (xorCompress dataSize inbuf).flatMap byteHighBits =
      XorWindow.first.codes (readValues dataSize count inbuf) ++ List.replicate zeros false := by
  obtain ⟨before, rfl⟩ : ∃ before, count = before + 1 := ⟨count - 1, by omega⟩
  have rounds : before < inbuf.length := by
    have least := Nat.le_mul_of_pos_right (before + 1) wide
    omega
  have holds := XORCodec.compressLoop_spec dataSize wide narrow before inbuf whole inbuf.length rounds
    XORCodec.new [] holdsBits_nil ⟨by decide, by decide, by decide⟩
  have ends := HoldsBits.finish _ _ _ holds
  rw [xorCompress, XORCodec.flushLastBitString]
  by_cases full : (XORCodec.new.compressLoop dataSize inbuf.length inbuf).numBits % 8 = 0
  · rw [if_pos full] at ends
    rw [if_neg (not_not.mpr full)]
    exact ends
  · rw [if_neg full] at ends
    rw [if_pos full]
    exact ends

/-- The number of bits of a value. -/
def XorWindow.cost (window : XorWindow) (value : Nat) : Nat :=
  let xor := window.previousValue ^^^ value
  if xor = 0 then 1
  else if window.Fits xor then 2 + (floatSize - window.trailingZeros - window.leadingZeros)
  else 2 + kLeadingZerosLengthBits + kBlockSizeLengthBits + blockSizeOf xor

/-- The number of bits of some values. -/
def XorWindow.bitsNeeded : XorWindow → List Nat → Nat
  | _, [] => 0
  | window, value :: rest => window.cost value + (window.next value).bitsNeeded rest

theorem XorWindow.code_length (value : Nat) : (window.code value).length = window.cost value := by
  rw [XorWindow.code, XorWindow.cost]
  split
  · rfl
  · split
    · simp only [length_append, highBits_length]
    · simp only [length_append, highBits_length]

theorem XorWindow.codes_length : (window.codes values).length = window.bitsNeeded values := by
  induction values generalizing window with
  | nil => rfl
  | cons value rest ih =>
    rw [XorWindow.codes, XorWindow.bitsNeeded, length_append, window.code_length, ih]

/-- A reader at some place of a memory. -/
structure ReaderAt (inbuf : Nat → UInt8) (position : Nat) (reader : BitReader) : Prop where
  bitPos : reader.bitPos = position
  inPos : reader.inPos = position / 8 + 1
  bitsStore : reader.bitsStore = inbuf (position / 8)

/-- Bits are read back as a number. -/
theorem readValueFromBitString_spec
    (position value : Nat) (reader : BitReader) (here : ReaderAt inbuf position reader)
    (there : BitsAt inbuf position bits) (fits : bitsNumber value bits < 2 ^ 64) :
    (readValueFromBitString inbuf bits.length value reader).1 = bitsNumber value bits ∧
      ReaderAt inbuf (position + bits.length)
        (readValueFromBitString inbuf bits.length value reader).2 := by
  induction bits generalizing position value reader with
  | nil => exact ⟨rfl, here⟩
  | cons bit rest ih =>
    obtain ⟨first, behind⟩ := there
    have number : bitsNumber value (bit :: rest) = bitsNumber (2 * value + bit.toNat) rest := rfl
    have grows := bitsNumber_eq (2 * value + bit.toNat) rest
    have power := Nat.le_mul_of_pos_right (2 * value + bit.toNat) (Nat.two_pow_pos rest.length)
    have read : (reader.bitsStore.toNat >>> (7 - reader.bitPos % 8)) % 2 = bit.toNat := by
      rw [here.bitsStore, here.bitPos, ← first, bitAt, Nat.toNat_testBit, Nat.shiftRight_eq_div_pow]
    have next : (value * 2 % 2 ^ 64 + bit.toNat) % 2 ^ 64 = 2 * value + bit.toNat := by
      rw [Nat.mod_add_mod, Nat.mod_eq_of_lt (by lia), Nat.mul_comm]
    have moved : ReaderAt inbuf (position + 1) (if (reader.bitPos + 1) % 8 = 0 then
          ⟨reader.bitPos + 1, reader.inPos + 1, inbuf reader.inPos⟩
        else { reader with bitPos := reader.bitPos + 1 }) := by
      rw [here.bitPos]
      by_cases last : (position + 1) % 8 = 0
      · rw [if_pos last, here.inPos]
        exact ⟨rfl, by show position / 8 + 1 + 1 = (position + 1) / 8 + 1; lia,
          congrArg inbuf (by lia)⟩
      · rw [if_neg last]
        refine ⟨rfl, ?_, ?_⟩
        · rw [here.inPos]
          lia
        · rw [here.bitsStore, show (position + 1) / 8 = position / 8 by lia]
    have others := ih (position + 1) (2 * value + bit.toNat) _ moved behind fits
    rw [length_cons, readValueFromBitString]
    rw [read, next, show position + (rest.length + 1) = position + 1 + rest.length by lia]
    exact others

variable {inbuf}

theorem readValueFromBitString_highBits {width number position : Nat}
    {reader : BitReader} (here : ReaderAt inbuf position reader)
    (there : BitsAt inbuf position (highBits width number)) (small : number < 2 ^ width)
    (narrow : width ≤ 64) : (readValueFromBitString inbuf width 0 reader).1 = number ∧
      ReaderAt inbuf (position + width) (readValueFromBitString inbuf width 0 reader).2 := by
  have value : bitsNumber 0 (highBits width number) = number := by
    rw [bitsNumber_highBits, Nat.mod_eq_of_lt small]
  have fits : number < 2 ^ 64 := Nat.lt_of_lt_of_le small (Nat.pow_le_pow_right (by decide) narrow)
  have read := readValueFromBitString_spec inbuf (highBits width number) position 0 reader here there
    (by rw [value]; exact fits)
  rw [highBits_length, value] at read
  exact read

theorem block_restores {number trailing : Nat} (fits : number < 2 ^ 64)
    (divides : 2 ^ trailing ∣ number) : (number >>> trailing) <<< trailing % 2 ^ 64 = number := by
  rw [Nat.shiftLeft_eq, Nat.shiftRight_eq_div_pow, Nat.div_mul_cancel divides, Nat.mod_eq_of_lt fits]

theorem xor_restores (previous value : Nat) : (previous ^^^ value) ^^^ previous = value := by
  rw [Nat.xor_comm, ← Nat.xor_assoc, Nat.xor_self, Nat.zero_xor]

/-- A value is read from its bits, and the same is kept as while writing it. -/
theorem readNextValue_spec {position : Nat} {reader : BitReader}
    (here : ReaderAt inbuf position reader) {window : XorWindow} (valid : window.Valid)
    {value : Nat}
    (fits : value < 2 ^ 64) (there : BitsAt inbuf position (window.code value)) :
    (readNextValue inbuf reader window).1 = value ∧
      ReaderAt inbuf (position + window.cost value) (readNextValue inbuf reader window).2.1 ∧
      (readNextValue inbuf reader window).2.2 = window.next value := by
  rw [XorWindow.code] at there
  rw [readNextValue, XorWindow.cost, XorWindow.next]
  have restores := xor_restores window.previousValue value
  have small := Nat.xor_lt_two_pow valid.value fits
  dsimp only at there ⊢
  by_cases same : window.previousValue ^^^ value = 0
  · rw [if_pos same] at there
    have control := readValueFromBitString_highBits here there (by decide) (by decide)
    rw [if_pos control.1, if_pos same, if_pos same]
    rw [same, Nat.zero_xor] at restores
    exact ⟨restores, control.2, rfl⟩
  · have place := blockSizeOf_spec _ same small
    rw [if_neg same] at there
    rw [if_neg same, if_neg same]
    generalize window.previousValue ^^^ value = xor at same place there restores small ⊢
    by_cases inside : window.Fits xor
    · rw [if_pos inside, bitsAt_append, bitsAt_append] at there
      obtain ⟨⟨first, second⟩, block⟩ := there
      have control := readValueFromBitString_highBits here first (by decide) (by decide)
      have previous := readValueFromBitString_highBits control.2 second (by decide) (by decide)
      have divides : 2 ^ window.trailingZeros ∣ xor :=
        Nat.dvd_trans (Nat.pow_dvd_pow 2 inside.2.1) place.2.2.2
      have bits := readValueFromBitString_highBits
        previous.2 block (block_fits (small_of_leading_le inside.1 place.2.2.1)
          valid.block) (by rw [floatSize]; omega)
      rw [if_neg (by rw [control.1]; decide), if_pos (by rw [previous.1]; decide), if_pos inside,
        if_pos inside, Nat.sub_right_comm, bits.1, block_restores small divides, restores]
      refine ⟨rfl, ?_, rfl⟩
      rw [← Nat.add_assoc]
      exact bits.2
    · rw [if_neg inside, bitsAt_append, bitsAt_append, bitsAt_append, bitsAt_append] at there
      obtain ⟨⟨⟨⟨first, second⟩, third⟩, fourth⟩, block⟩ := there
      have size : blockSizeOf xor = 64 - leadingZerosOf xor - trailingZerosOf xor := rfl
      have blockSmall := block_fits place.2.2.1 place.2.1
      rw [Nat.sub_right_comm] at blockSmall
      have control := readValueFromBitString_highBits here first (by decide) (by decide)
      have previous := readValueFromBitString_highBits control.2 second (by decide) (by decide)
      have leading := readValueFromBitString_highBits
         previous.2 third (Nat.lt_succ_of_le place.1) (by decide)
      have blockSize := readValueFromBitString_highBits leading.2 fourth (by
          show blockSizeOf xor - 1 < 64
          lia) (by decide)
      have adjusted : blockSizeOf xor - kBlockSizeAdjustment + kBlockSizeAdjustment =
          blockSizeOf xor := Nat.sub_add_cancel (by show 1 ≤ blockSizeOf xor; lia)
      have trailing : floatSize - blockSizeOf xor - leadingZerosOf xor = trailingZerosOf xor := by
        rw [floatSize]
        grind
      have bits := readValueFromBitString_highBits blockSize.2 block blockSmall (by grind)
      rw [if_neg (by rw [control.1]; decide), if_neg (by rw [previous.1]; decide), if_neg inside,
        if_neg inside, leading.1, blockSize.1, adjusted, trailing, bits.1,
        block_restores small place.2.2.2, restores]
      refine ⟨rfl, ?_, rfl⟩
      rw [← Nat.add_assoc]
      exact bits.2

variable (inbuf)

theorem xorDecompressLoop_spec
    (fit : ∀ value ∈ values, value < 2 ^ 64) (position : Nat) (reader : BitReader)
    (here : ReaderAt inbuf position reader) (window : XorWindow) (valid : window.Valid)
    (there : BitsAt inbuf position (window.codes values)) :
    xorDecompressLoop inbuf values.length reader window = values := by
  induction values generalizing position reader window with
  | nil => rfl
  | cons value rest ih =>
    rw [forall_mem_cons] at fit
    rw [XorWindow.codes, bitsAt_append, window.code_length] at there
    have one := readNextValue_spec here valid fit.1 there.1
    rw [length_cons, xorDecompressLoop]
    rw [one.1, one.2.2, ih fit.2 _ _ one.2.1 _ (valid.next fit.1) there.2]

/-- Compressed floats are restored from every memory that starts with the compressed bytes. -/
theorem xor_floats_are_restored (dataSize : Nat) (wide : 0 < dataSize) (narrow : dataSize ≤ 8)
    (count : Nat) (present : 0 < count) (inbuf : List UInt8)
    (whole : inbuf.length = count * dataSize) (memory : Nat → UInt8)
    (stored : ∀ index byte, (xorCompress dataSize inbuf)[index]? = some byte →
      memory index = byte) : xorDecompress dataSize (count * dataSize) memory = inbuf := by
  obtain ⟨zeros, -, compressed⟩ := xorCompress_spec dataSize wide narrow present whole
  have there := bitsAt_bytes memory 0 (xorCompress dataSize inbuf) (by
    intro index byte found
    rw [Nat.zero_add]
    exact stored index byte found)
  rw [compressed, bitsAt_append] at there
  have fit : ∀ value ∈ readValues dataSize count inbuf, value < 2 ^ 64 := by
    intro value member
    exact Nat.lt_of_lt_of_le (readValues_lt dataSize count inbuf value member)
      (Nat.pow_le_pow_right (by decide) narrow)
  have read := xorDecompressLoop_spec memory (readValues dataSize count inbuf) fit 0 ⟨0, 1, memory 0⟩
    ⟨rfl, rfl, rfl⟩ XorWindow.first ⟨by decide, by decide, by decide⟩ there.1
  rw [readValues_length] at read
  rw [xorDecompress, Nat.mul_div_cancel _ wide]
  exact (congrArg (writeValues dataSize) read).trans
    (writeValues_readValues dataSize count inbuf whole)

/-- Two floats of four bytes, and zeros behind the compressed bytes. -/
theorem xor_floats_are_restored_pair :
    xorDecompress 4 (2 * 4) (fun index => (xorCompress 4 [0, 0, 128, 63, 0, 0, 0, 64]).getD index 0) =
      [0, 0, 128, 63, 0, 0, 0, 64] :=
  xor_floats_are_restored 4 (by decide) (by decide) 2 (by decide) _ rfl _ (by
    intro index byte found
    rw [getD_eq_getElem?_getD, found]
    rfl)

/-- The bytes that `SequenceCodec` allocates for compressed values, with the eight more of every
buffer (`BufferHelperMalloc`). -/
def sequenceBufSize (valueSize insize : Nat) : Nat := insize / valueSize * (valueSize + 1) + 8

theorem xorCompress_length (wide : 0 < dataSize) (narrow : dataSize ≤ 8)
    {count : Nat} (present : 0 < count) {inbuf : List UInt8}
    (whole : inbuf.length = count * dataSize) (bytes : Nat) :
    (xorCompress dataSize inbuf).length ≤ bytes ↔
      XorWindow.first.bitsNeeded (readValues dataSize count inbuf) ≤ 8 * bytes := by
  obtain ⟨zeros, few, compressed⟩ := xorCompress_spec dataSize wide narrow present whole
  have lengths := congrArg List.length compressed
  rw [byteHighBits_count, length_append, length_replicate, XorWindow.codes_length]
    at lengths
  lia

/-- The compressed bytes stay in the allocated ones exactly if the values do not need more bits: one
for a value that repeats, two and a block where the block before was, thirteen and its own block for
any other. -/
theorem xor_stays_in_buffer_iff (dataSize : Nat) (width : dataSize = 4 ∨ dataSize = 8) (count : Nat)
    (present : 0 < count) (inbuf : List UInt8) (whole : inbuf.length = count * dataSize) :
    (xorCompress dataSize inbuf).length ≤ sequenceBufSize dataSize inbuf.length ↔
      XorWindow.first.bitsNeeded (readValues dataSize count inbuf) ≤
        8 * sequenceBufSize dataSize inbuf.length :=
  xorCompress_length dataSize (by omega) (by omega) present whole _

/-- Two floats of eight bytes. -/
theorem xor_stays_in_buffer_iff_pair : (xorCompress 8 (writeValues 8 [1, 2])).length ≤ 26 ↔
      XorWindow.first.bitsNeeded (readValues 8 2 (writeValues 8 [1, 2])) ≤ 208 :=
  xor_stays_in_buffer_iff 8 (.inr rfl) 2 (by decide) (writeValues 8 [1, 2]) rfl

/-- Values whose differences go from the first bit but one to the last and from the first to the last
but one in turn, behind a one. -/
def wideningValues : Nat → Nat → List Nat
  | 0, _ => []
  | pairs + 1, value =>
    let next := value ^^^ 0x4000000000000001
    next :: (next ^^^ 0x8000000000000002) :: wideningValues pairs (next ^^^ 0x8000000000000002)

/-- Twenty-five floats of eight bytes whose compressed bytes do not stay in the allocated ones. -/
theorem xor_leaves_buffer :
    ¬∀ (dataSize count : Nat) (inbuf : List UInt8), dataSize = 4 ∨ dataSize = 8 → 0 < count →
      inbuf.length = count * dataSize →
      (xorCompress dataSize inbuf).length ≤ sequenceBufSize dataSize inbuf.length := by
  intro stays
  have length : (writeValues 8 (1 :: wideningValues 12 1)).length = 25 * 8 := by decide +kernel
  have inside := stays 8 25 (writeValues 8 (1 :: wideningValues 12 1)) (.inr rfl) (by decide) length
  revert inside
  decide +kernel

end OpenGauss.CStore
