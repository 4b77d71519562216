import OpenGauss.CStore.DeltaPlusRle
import OpenGauss.CStore.Dictionary
import OpenGauss.Base.BitPacking
import OpenGauss.Numerics.Lossless

/-!
# Compressing columns of numerics

A batch of numerics is split into three streams: values that are integers of 32 bits once their
decimal point is left out, those of 64 bits, and the others as they are. A code for each value tells
its stream; it takes no, one or two bits by which streams exist. Each stream of integers is a single
value, distances and runs, or plain, and has one scale. The flags in front and the codes are all that
restoring the values in their order needs.
-/
namespace OpenGauss.CStore

open OpenGauss.Base OpenGauss.Numerics

/-- Whether a value has a header of one byte (`VARATT_IS_SHORT`). -/
def varattIsShort (datum : List UInt8) : Bool := (datum.headD 0).toNat % 2 = 1

/-- A numeric behind the header of its length. -/
def numericChoice (datum : List UInt8) : List UInt8 :=
  if varattIsShort datum then datum.drop 1 else datum.drop 4

/-- The header of a numeric. -/
def numericHeader (datum : List UInt8) : Nat := leNat ((numericChoice datum).take 2)

/-- The digits of a numeric. -/
def readDigits (bytes : List UInt8) : List Nat := readValues 2 (bytes.length / 2) bytes

/-- The numeric that is stored in some bytes. The first bits of its header tell the form. -/
def readNumeric (datum : List UInt8) : Numeric :=
  let choice := numericChoice datum
  let header := numericHeader datum
  if header / 0x1000 = 0xD then .bi64 (convertToInt64Data (choice.drop 2) 8) (header % 0x100)
  else if header / 0x1000 = 0xE then
    .bi128 (signedOf 16 (readData 16 (choice.drop 2))) (header % 0x100)
  else if header / 0x1000 = 0xC then .nan
  else if 0x8000 ≤ header then .normal (NumericShort.mk header (readDigits (choice.drop 2))).var
  else .normal ⟨if header / 0x4000 = 1 then .neg else .pos,
    signedOf 2 (leNat ((choice.drop 2).take 2)), header % 0x4000, readDigits (choice.drop 4)⟩

/-- Store a number of 64 bits (`MAKE_NUMERIC64`). -/
def makeNumeric64 (value : Int) (scale : Nat) : List UInt8 :=
  leBytes 4 (14 * 4) ++ leBytes 2 (0xD000 + scale) ++ leBytes 8 (int64Bits value)

/-- Try to turn a stored numeric into an integer with its scale. The conversion expects the short
form. -/
def convertShortNumericToDscaleInt64 (datum : List UInt8) : Option (Option (Int × Nat)) :=
  if varattIsShort datum ∧ 13 < (datum.headD 0).toNat / 2 % 128 then some none
  else
    match readNumeric datum with
    | .bi64 value scale => some (some (value, scale))
    | .bi128 _ _ => some none
    | .nan => some none
    | .normal numVar =>
      if getWholeScale numVar ≤ 18 then
        if numericHeader datum < 0x8000 then none
        else (convertShortNumericToInt64Byscale numVar numVar.dscale).map fun value =>
          some (value, numVar.dscale)
      else some none

/-- Try to convert the values of a batch. Rows without a value are skipped. -/
def batchConvert : List (Option (List UInt8)) → Option (List (List UInt8 × Option (Int × Nat)))
  | [] => some []
  | none :: rest => batchConvert rest
  | some datum :: rest =>
    (convertShortNumericToDscaleInt64 datum).bind fun converted =>
      (batchConvert rest).map ((datum, converted) :: ·)

/-- A stream of integers: the values and the scale they have. -/
structure IntegerPart where
  values : List Int
  sameAscale : Nat

/-- Append a value to a stream. The scale is that of the first value. -/
def IntegerPart.append (part : IntegerPart) (value : Int) (scale : Nat) : IntegerPart :=
  ⟨part.values ++ [value], if part.values = [] then scale else part.sameAscale⟩

/-- The smallest and the largest value of a stream. -/
def IntegerPart.minMax (part : IntegerPart) : Int × Int := computeMinMaxVal part.values

/-- Whether a stream exists and has one value only. -/
def IntegerPart.valuesAreSame (part : IntegerPart) : Bool :=
  part.values ≠ [] ∧ part.minMax.1 = part.minMax.2

/-- The bytes of the values of a stream. -/
def IntegerPart.bytes (size : Nat) (part : IntegerPart) : List UInt8 :=
  part.values.flatMap fun value => int64DataConvertTo value size

/-- The streams of a batch (`numerics_statistics_out`). -/
structure NumericsStatistics where
  int64 : IntegerPart
  int32 : IntegerPart
  codes : List Nat
  failed : List (List UInt8)

/-- The code of a value that is no integer (`NUMERIC_DSCALE_ENCODING`). -/
def numericDscaleEncoding : Nat := 0

/-- The code of an integer of 32 bits (`INT32_DSCALE_ENCODING`). -/
def int32DscaleEncoding : Nat := 1

/-- The code of an integer of 64 bits (`INT64_DSCALE_ENCODING`). -/
def int64DscaleEncoding : Nat := 2

/-- Put a value into its stream. -/
def statisticsStep (stat : NumericsStatistics) (row : List UInt8 × Option (Int × Nat)) :
    NumericsStatistics :=
  match row.2 with
  | some (thisValue, thisScale) =>
    if -2 ^ 31 ≤ thisValue ∧ thisValue ≤ 2 ^ 31 - 1 then
      { stat with
        int32 := stat.int32.append thisValue thisScale
        codes := stat.codes ++ [int32DscaleEncoding] }
    else
      { stat with
        int64 := stat.int64.append thisValue thisScale
        codes := stat.codes ++ [int64DscaleEncoding] }
  | none =>
    { stat with
      failed := stat.failed ++ [row.1]
      codes := stat.codes ++ [numericDscaleEncoding] }

/-- Split a batch into streams. -/
def numericStatistics (rows : List (List UInt8 × Option (Int × Nat))) : NumericsStatistics :=
  rows.foldl statisticsStep ⟨⟨[], 0⟩, ⟨[], 0⟩, [], []⟩

/-- The bytes of the values that are no integers. -/
def NumericsStatistics.failedSize (stat : NumericsStatistics) : Nat := (stat.failed.map varsizeAny).sum

/-- The bytes of the restored values. -/
def NumericsStatistics.originalSize (stat : NumericsStatistics) : Nat :=
  14 * (stat.int64.values.length + stat.int32.values.length) + stat.failedSize

/-- The compressed streams (`numerics_cmprs_out`). -/
structure NumericsCompressed where
  int64 : CompressionArg2
  int32 : CompressionArg2
  other : List UInt8
  otherApplyLz4 : Bool

/-- Compress a stream of integers that has more than one value. -/
def compressPart (adoptRle : Bool) (size : Nat) (part : IntegerPart) : CompressionArg2 :=
  if part.values ≠ [] ∧ part.minMax.1 ≠ part.minMax.2 then
    deltaPlusRleCompress adoptRle size part.minMax (part.bytes size)
  else ⟨[], 0⟩

/-- Compress each stream. -/
def numericCompressEachValuesPart (lz4 : Lz4) (adoptRle64 adoptRle32 : Bool)
    (stat : NumericsStatistics) : NumericsCompressed :=
  let source := stat.failed.flatten
  let compressed := lz4.wrapperCompress (compresslevelTables .low 0) source
  let applied : Bool := 0 < compressed.length ∧ compressed.length < stat.failedSize
  { int64 := compressPart adoptRle64 8 stat.int64
    int32 := compressPart adoptRle32 4 stat.int32
    other := if applied then compressed else source
    otherApplyLz4 := applied }

/-- The bytes of a stream of integers. -/
def partSize (size : Nat) (part : IntegerPart) (out : CompressionArg2) : Nat :=
  if out.modes ≠ 0 then out.buf.length else size * part.values.length

/-- The room for a compressed batch. -/
def numericCompressGetTotalSize (stat : NumericsStatistics) (out : NumericsCompressed)
    (alignSize : Nat) : Nat :=
  2 + alignSize + 4 + 8 * 2 + 4 + 1 + 4 * 2 + 4 + 1 + 4 + (stat.codes.length + 1) / 2 +
    partSize 8 stat.int64 out.int64 + partSize 4 stat.int32 out.int32 +
    (if stat.failed = [] then 0
      else if out.otherApplyLz4 then out.other.length else stat.failedSize)

/-- Compress a batch of numerics, unless too many of them are no integers. The share is compared with
floating point, which `tooManyFailed` stands for. -/
def numericCompressBatchValues (lz4 : Lz4) (adoptRle64 adoptRle32 : Bool)
    (tooManyFailed : Nat → Nat → Bool) (batch : List (Option (List UInt8))) :
    Option (Option (NumericsStatistics × NumericsCompressed)) :=
  (batchConvert batch).map fun rows =>
    let nSuccess := (rows.filter fun row => row.2.isSome).length
    if nSuccess = 0 ∨ tooManyFailed nSuccess rows.length then none
    else
      let stat := numericStatistics rows
      some (stat, numericCompressEachValuesPart lz4 adoptRle64 adoptRle32 stat)

/-- The flags of a stream of integers: it exists, it has one value, it has one scale, distances were
taken, runs were written. -/
def partFlags (part : IntegerPart) (out : CompressionArg2) : List Bool :=
  let coded := !part.valuesAreSame
  if part.values = [] then [false, false, false, false, false]
  else [true, part.valuesAreSame, true, coded && decide (out.modes &&& cuDeltaCompressed ≠ 0),
    coded && decide (out.modes &&& cuRLECompressed ≠ 0)]

/-- What stands in the header about a stream of integers. -/
def partHeader (size : Nat) (part : IntegerPart) (out : CompressionArg2) : List UInt8 :=
  if part.values = [] then []
  else
    (if part.valuesAreSame then int64DataConvertTo part.minMax.1 size
      else if out.modes ≠ 0 then
        (if out.modes &&& cuDeltaCompressed ≠ 0 then int64DataConvertTo part.minMax.1 size ++
            [UInt8.ofNat (deltaGetBytesNum part.minMax.1 part.minMax.2)]
          else []) ++ leBytes 4 out.buf.length
      else []) ++ [UInt8.ofNat part.sameAscale]

/-- The flags of a batch, the lowest bit first: the other values (`0x0001`) and LZ4 (`0x0002`), the
integers of 32 bits (`0x0004` to `0x0040`) and those of 64 bits (`0x0080` to `0x0800`). -/
def numericFlags (stat : NumericsStatistics) (out : NumericsCompressed) : List Bool :=
  [decide (stat.failed ≠ []), decide (stat.failed ≠ []) && out.otherApplyLz4] ++
    partFlags stat.int32 out.int32 ++ partFlags stat.int64 out.int64

/-- Write the header. -/
def numericCompressFillHeader (stat : NumericsStatistics) (out : NumericsCompressed) : List UInt8 :=
  leBytes 2 (bitsValue (numericFlags stat out)) ++ leBytes 4 stat.originalSize ++
    partHeader 8 stat.int64 out.int64 ++ partHeader 4 stat.int32 out.int32 ++
    (if stat.failed ≠ [] ∧ out.otherApplyLz4 = false then leBytes 4 stat.failedSize else [])

/-- Write the codes: a bit for two streams, two bits for three. -/
def numericCompressFillDscales (stat : NumericsStatistics) : List UInt8 :=
  let bitmap (valueIfUnset : Nat) := packBitmap ((stat.codes.length + 7) / 8)
    (stat.codes.map fun code => decide (code ≠ valueIfUnset))
  if stat.failed = [] then
    if stat.int64.values = [] then []
    else if stat.int32.values = [] then []
    else bitmap int64DscaleEncoding
  else if stat.int32.values = [] then bitmap int64DscaleEncoding
  else if stat.int64.values = [] then bitmap int32DscaleEncoding
  else packPairs ((stat.codes.length + 3) / 4) stat.codes

/-- The bytes of a stream of integers that has more than one value. -/
def partValues (size : Nat) (part : IntegerPart) (out : CompressionArg2) : List UInt8 :=
  if part.values ≠ [] ∧ part.minMax.1 ≠ part.minMax.2 then
    if out.modes ≠ 0 then out.buf else part.bytes size
  else []

/-- Write the streams. -/
def numericCompressFillValues (stat : NumericsStatistics) (out : NumericsCompressed) : List UInt8 :=
  partValues 8 stat.int64 out.int64 ++ partValues 4 stat.int32 out.int32 ++
    (if stat.failed = [] then [] else out.other)

/-- Write a compressed batch. -/
def numericCopyCompressedBatchValues (stat : NumericsStatistics) (out : NumericsCompressed) :
    List UInt8 :=
  numericCompressFillHeader stat out ++ numericCompressFillDscales stat ++
    numericCompressFillValues stat out

/-- What the header tells about a stream of integers. -/
structure ParsedPart where
  valuesAreSame : Bool
  minVal : Int
  deltaBytes : Nat
  modes : Nat
  cmprSize : Nat
  sameAscale : Nat

/-- Read what the header tells about a stream of integers whose flags start at some bit. -/
def parsePart (size flags first : Nat) (ptr : List UInt8) : ParsedPart × List UInt8 :=
  if flags.testBit first then
    let parsed : ParsedPart × List UInt8 :=
      if flags.testBit (first + 1) then
        (⟨true, convertToInt64Data ptr size, size, 0, 0, 0⟩, ptr.drop size)
      else if flags.testBit (first + 3) || flags.testBit (first + 4) then
        let modes := deltaRleModes (flags.testBit (first + 3)) (flags.testBit (first + 4))
        if flags.testBit (first + 3) then
          (⟨false, convertToInt64Data ptr size, ((ptr.drop size).headD 0).toNat, modes,
            leNat ((ptr.drop (size + 1)).take 4), 0⟩, ptr.drop (size + 1 + 4))
        else (⟨false, 0, size, modes, leNat (ptr.take 4), 0⟩, ptr.drop 4)
      else (⟨false, 0, size, 0, 0, 0⟩, ptr)
    if flags.testBit (first + 2) then
      ({ parsed.1 with sameAscale := (parsed.2.headD 0).toNat }, parsed.2.drop 1)
    else parsed
  else (⟨false, 0, size, 0, 0, 0⟩, ptr)

/-- What the header tells. -/
structure ParsedHeader where
  flags : Nat
  int64 : ParsedPart
  int32 : ParsedPart
  /-- The bytes of the other values, where LZ4 was not applied. -/
  failedSize : Nat

/-- Read the header. -/
def numericDecompressParseHeader (ptr : List UInt8) : ParsedHeader × List UInt8 :=
  let flags := leNat (ptr.take 2)
  let int64 := parsePart 8 flags 7 (ptr.drop 6)
  let int32 := parsePart 4 flags 2 int64.2
  if flags.testBit 0 && !flags.testBit 1 then
    (⟨flags, int64.1, int32.1, leNat (int32.2.take 4)⟩, int32.2.drop 4)
  else (⟨flags, int64.1, int32.1, 0⟩, int32.2)

/-- The codes of a batch and the sizes of its streams. -/
structure ParsedDscales where
  codes : List Nat
  int64Count : Nat
  int32Count : Nat
  failedCount : Nat

/-- Read a bitmap of codes: the codes, and how many of them have the bit not set (`ParseBitmap`). -/
def parseBitmap (ptr : List UInt8) (nValues valueIfSet valueIfUnset : Nat) : List Nat × Nat :=
  let bitmap := unpackBitmap nValues (ptr.take ((nValues + 7) / 8))
  (bitmap.1.map fun bit => if bit then valueIfSet else valueIfUnset, nValues - bitmap.2)

/-- Read the codes. -/
def numericDecompressParseDscales (flags nNotNulls : Nat) (ptr : List UInt8) :
    ParsedDscales × List UInt8 :=
  let afterBitmap := ptr.drop ((nNotNulls + 7) / 8)
  if flags.testBit 0 = false then
    if flags.testBit 7 = false then (⟨[], 0, nNotNulls, 0⟩, ptr)
    else if flags.testBit 2 = false then (⟨[], nNotNulls, 0, 0⟩, ptr)
    else
      let parsed := parseBitmap ptr nNotNulls int32DscaleEncoding int64DscaleEncoding
      (⟨parsed.1, parsed.2, nNotNulls - parsed.2, 0⟩, afterBitmap)
  else if flags.testBit 2 = false then
    let parsed := parseBitmap ptr nNotNulls numericDscaleEncoding int64DscaleEncoding
    (⟨parsed.1, parsed.2, 0, nNotNulls - parsed.2⟩, afterBitmap)
  else if flags.testBit 7 = false then
    let parsed := parseBitmap ptr nNotNulls numericDscaleEncoding int32DscaleEncoding
    (⟨parsed.1, 0, parsed.2, nNotNulls - parsed.2⟩, afterBitmap)
  else
    let codes := unpackPairs nNotNulls (ptr.take ((nNotNulls + 3) / 4))
    let int64Count := codes.count int64DscaleEncoding
    let int32Count := codes.count int32DscaleEncoding
    (⟨codes, int64Count, int32Count, nNotNulls - int64Count - int32Count⟩,
      ptr.drop ((nNotNulls + 3) / 4))

/-- Restore the bytes of a stream of integers. -/
def parsePartValues (size count : Nat) (part : ParsedPart) (ptr : List UInt8) :
    List UInt8 × List UInt8 :=
  if 0 < count ∧ part.valuesAreSame = false then
    if part.modes ≠ 0 then
      (deltaPlusRleDecompress part.minVal part.deltaBytes size part.modes (ptr.take part.cmprSize),
        ptr.drop part.cmprSize)
    else (ptr.take (size * count), ptr.drop (size * count))
  else ([], ptr)

/-- Take some bits off a number that has more of them, and count them. -/
def int32ValueLogStep (limit shift : Nat) (state : Nat × Nat) : Nat × Nat :=
  if limit < state.2 then (state.1 + shift, state.2 / 2 ^ shift) else state

/-- The position of the highest bit of a number (`Int32ValueLog`). -/
def int32ValueLog (value : Nat) : Nat :=
  let reduced := int32ValueLogStep 0x03 2 (int32ValueLogStep 0x0F 4 (int32ValueLogStep 0xFF 8
    (int32ValueLogStep 0xFFFF 16 (0, value))))
  if 0x01 < reduced.2 then reduced.1 + 1 else reduced.1

/-- Repeat a numeric: the copies so far are doubled as often as possible, then the rest is copied. -/
def numericDecompressRepeatOneValue (single : List UInt8) (repeats : Nat) : List (List UInt8) :=
  let loops := int32ValueLog repeats
  let remain := repeats - 2 ^ loops
  let doubled := (fun copies : List (List UInt8) => copies ++ copies)^[loops] [single]
  doubled ++ doubled.take remain

/-- A stream that is read value by value; the single value of a stream is read again. -/
def streamNext (same : Bool) (values : List Int) : Int × List Int :=
  (values.headD 0, if same then values else values.tail)

/-- Restore values from the three streams in the order of the codes. -/
def convertMixedToBINumeric (int64Same int32Same : Bool) (int32Dscale int64Dscale : Nat) :
    List Nat → List Int → List Int → List UInt8 → List (List UInt8)
  | [], _, _, _ => []
  | flag :: rest, int32Val, int64Val, otherValues =>
    if flag = int32DscaleEncoding then
      let next := streamNext int32Same int32Val
      makeNumeric64 next.1 int32Dscale ::
        convertMixedToBINumeric int64Same int32Same int32Dscale int64Dscale rest next.2 int64Val
          otherValues
    else if flag = int64DscaleEncoding then
      let next := streamNext int64Same int64Val
      makeNumeric64 next.1 int64Dscale ::
        convertMixedToBINumeric int64Same int32Same int32Dscale int64Dscale rest int32Val next.2
          otherValues
    else
      otherValues.take (varsizeAny otherValues) ::
        convertMixedToBINumeric int64Same int32Same int32Dscale int64Dscale rest int32Val int64Val
          (otherValues.drop (varsizeAny otherValues))

/-- The values of a stream: the single one, or those of its bytes. -/
def streamValues (size : Nat) (part : ParsedPart) (bytes : List UInt8) : List Int :=
  if part.valuesAreSame then [part.minVal] else intValues size bytes

/-- Restore the values of a batch from its streams. -/
def numericDecompressRestoreValues (header : ParsedHeader) (dscales : ParsedDscales) (nNotNulls : Nat)
    (int64Bytes int32Bytes otherValues : List UInt8) : List (List UInt8) :=
  let int64Values := streamValues 8 header.int64 int64Bytes
  let int32Values := streamValues 4 header.int32 int32Bytes
  let repeated (part : ParsedPart) (values : List Int) : List (List UInt8) :=
    if part.valuesAreSame then
      numericDecompressRepeatOneValue (makeNumeric64 part.minVal part.sameAscale) nNotNulls
    else (values.take nNotNulls).map (makeNumeric64 · part.sameAscale)
  if dscales.failedCount = 0 ∧ dscales.int64Count = 0 then repeated header.int32 int32Values
  else if dscales.failedCount = 0 ∧ dscales.int32Count = 0 then repeated header.int64 int64Values
  else convertMixedToBINumeric header.int64.valuesAreSame header.int32.valuesAreSame
    header.int32.sameAscale header.int64.sameAscale dscales.codes int32Values int64Values otherValues

/-- Restore a batch of numerics from its bytes and the number of its values. -/
def uncompressNumeric (lz4 : Lz4) (inBuf : List UInt8) (nNotNulls : Nat) :
    Option (List (List UInt8)) :=
  let header := numericDecompressParseHeader inBuf
  let dscales := numericDecompressParseDscales header.1.flags nNotNulls header.2
  let int64 := parsePartValues 8 dscales.1.int64Count header.1.int64 dscales.2
  let int32 := parsePartValues 4 dscales.1.int32Count header.1.int32 int64.2
  let other := if dscales.1.failedCount = 0 then some []
    else if header.1.flags.testBit 1 then lz4.wrapperDecompress int32.2
    else some (int32.2.take header.1.failedSize)
  other.map fun otherValues =>
    numericDecompressRestoreValues header.1 dscales.1 nNotNulls int64.1 int32.1 otherValues

end OpenGauss.CStore
