import OpenGauss.CStore.RunLength
import Mathlib.Tactic.Ring
import Mathlib.Algebra.Order.Ring.Int

/-!
# Compressing columns of integers

`IntegerCoder` of `cstore_compress.cpp` compresses the values of a column in up to three steps. The
values become distances from the smallest one in fewer bytes, then runs, and then the bytes go
through LZ4 or zlib. Every step is left out where it does not help, a bit mask tells which steps were
taken, and the smallest and the largest value stand in front of distances: restoring the values takes
the width of a distance from them.
-/
namespace OpenGauss.CStore

open OpenGauss.Base

/-- The bits of a signed number of 64 bits. -/
def int64Bits (value : Int) : Nat := (value % 2 ^ 64).toNat

/-- The signed number that some bytes stand for. -/
def signedOf (eachValSize bits : Nat) : Int :=
  if 2 * bits < 256 ^ eachValSize then bits else (bits : Int) - 256 ^ eachValSize

/-- Read a signed number. -/
def convertToInt64Data (inBuf : List UInt8) (eachValSize : Nat) : Int :=
  signedOf eachValSize (readData eachValSize inBuf)

/-- Write the low bytes of a signed number. -/
def int64DataConvertTo (inVal : Int) (eachValSize : Nat) : List UInt8 :=
  writeData eachValSize (int64Bits inVal)

/-- The signed numbers of a buffer. -/
def intValues (eachValSize : Nat) (inBuf : List UInt8) : List Int :=
  (readValues eachValSize (inBuf.length / eachValSize) inBuf).map (signedOf eachValSize)

/-- The smallest and the largest of some values. A value is compared with the largest only if it is
not the smallest. -/
def computeMinMaxVal : List Int → Int × Int
  | [] => (0, 0)
  | first :: rest => rest.foldl (fun found value =>
      if value < found.1 then (value, found.2)
      else if found.2 < value then (found.1, value) else found) (first, first)

/-- The index of the highest byte that is not 0. -/
def topByte : Nat → Nat → Nat
  | 0, _ => 0
  | index + 1, diff =>
    if diff / 256 ^ (index + 1) % 256 = 0 then topByte index diff else index + 1

/-- The bytes for the distance of two numbers. -/
def deltaGetBytesNum (mindata maxdata : Int) : Nat :=
  let diff := int64Bits (maxdata - mindata)
  if diff = 0 ∨ diff = 1 then 1 else topByte 7 diff + 1

/-- Add a number to every value or take it off, and write the values in another width. -/
def doDeltaOperation (plusDelta : Bool) (inValSize outValSize : Nat) (mindata : Int)
    (inbuf : List UInt8) : List UInt8 :=
  (readValues inValSize (inbuf.length / inValSize) inbuf).flatMap fun (rdata : Nat) =>
    writeData outValSize
      (int64Bits (if plusDelta then (rdata : Int) + mindata else (rdata : Int) - mindata))

/-- Write distances, if they are expected to fit. Values of one byte are not compressed. -/
def deltaCompress (mindata maxdata : Int) (inbuf : List UInt8) (outsize inDataSize : Nat) :
    List UInt8 :=
  let outValSize := deltaGetBytesNum mindata maxdata
  if outsize < outValSize * (inbuf.length / inDataSize) then []
  else if inDataSize = 1 then []
  else doDeltaOperation false inDataSize outValSize mindata inbuf

/-- Restore values from distances. Distances of 8 bytes are not expected. -/
def deltaDecompress (mindata : Int) (outValSize : Nat) (inbuf : List UInt8) (inDataSize : Nat) :
    List UInt8 :=
  if inDataSize = 8 then [] else doDeltaOperation true inDataSize outValSize mindata inbuf

/-- The library LZ4. A result without bytes stands for a failure. -/
structure Lz4 where
  /-- The most bytes of a result (`LZ4_compressBound`). -/
  compressBound : Nat → Nat
  /-- Compress into at most some bytes (`LZ4_compress_default`). -/
  compressDefault : List UInt8 → Nat → List UInt8
  /-- Compress into at most some bytes with a level (`LZ4_compress_HC`). -/
  compressHC : List UInt8 → Nat → Nat → List UInt8
  /-- Restore at most some bytes (`LZ4_decompress_safe`). -/
  decompressSafe : List UInt8 → Nat → Option (List UInt8)

/-- LZ4 restores what it compressed. -/
structure Lz4.Lossless (lz4 : Lz4) : Prop where
  ofDefault : ∀ source room, lz4.compressDefault source room ≠ [] →
    lz4.decompressSafe (lz4.compressDefault source room) source.length = some source
  ofHC : ∀ source room level, lz4.compressHC source room level ≠ [] →
    lz4.decompressSafe (lz4.compressHC source room level) source.length = some source

/-- The library zlib. -/
structure Zlib where
  /-- The most bytes of a result (`deflateBound`). -/
  deflateBound : Nat → Nat → Nat
  deflate : Nat → List UInt8 → Nat → Option (List UInt8)
  inflate : List UInt8 → Nat → Option (List UInt8)

/-- The library zlib restores what it compressed, where there is room. -/
def Zlib.Lossless (zlib : Zlib) : Prop :=
  ∀ level source room compressed, zlib.deflate level source room = some compressed →
    ∀ outsize, source.length ≤ outsize → zlib.inflate compressed outsize = some source

/-- Compress with LZ4, behind a header with the two lengths; no bytes if that does not help. -/
def Lz4.wrapperCompress (lz4 : Lz4) (compressionLevel : Nat) (source : List UInt8) : List UInt8 :=
  let room := lz4.compressBound source.length
  let data := if compressionLevel = 0 then lz4.compressDefault source room
    else lz4.compressHC source room compressionLevel
  if 0 < data.length ∧ 8 + data.length < source.length then
    leBytes 4 source.length ++ leBytes 4 data.length ++ data
  else []

/-- Restore what LZ4 compressed. -/
def Lz4.wrapperDecompress (lz4 : Lz4) (source : List UInt8) : Option (List UInt8) :=
  let rawLen := leNat (source.take 4)
  let compressLen := leNat ((source.drop 4).take 4)
  lz4.decompressSafe ((source.drop 8).take compressLen) rawLen

/-- How hard a column is compressed. -/
inductive Compression
  | low
  | middle
  | high
  deriving DecidableEq

/-- The level of the library for a kind of compression and a level of it (`compresslevel_tables`). -/
def compresslevelTables (compression : Compression) (compresslevel : Fin 4) : Nat :=
  match compression with
  | .low => [0, 1, 1 + 2, 1 + 2 * 2].getD compresslevel 0
  | .middle => [9 - 2, 9, 9 + 2, 9 + 2 * 2].getD compresslevel 0
  | .high => [6, 6 + 1, 6 + 1 * 2, 9].getD compresslevel 0

/-- Distances were taken (`CU_DeltaCompressed`). -/
def cuDeltaCompressed : Nat := 0x0001

/-- A dictionary was used (`CU_DicEncode`). -/
def cuDicEncode : Nat := 0x0002

/-- Runs were written (`CU_RLECompressed`). -/
def cuRLECompressed : Nat := 0x0008

/-- The bytes went through LZ4 (`CU_LzCompressed`). -/
def cuLzCompressed : Nat := 0x0010

/-- The bytes went through zlib (`CU_ZlibCompressed`). -/
def cuZlibCompressed : Nat := 0x0020

/-- Compressed bytes and the steps that were taken (`CompressionArg2`). -/
structure CompressionArg2 where
  buf : List UInt8
  modes : Nat

/-- The least repeats of a run of integers (`RleMinRepeats_v1`). -/
def rleMinRepeatsV1 : Nat := 4

/-- The size of a buffer after room for some bytes was asked for (`BufferHelperRemalloc`). -/
def bufferRemalloc (bufSize boundSize : Nat) : Nat :=
  if bufSize < boundSize then boundSize + 8 else bufSize

/-- The most bytes of runs (`RleGetBound1`). -/
def rleGetBound1 (inSize eachSize : Nat) : Nat := 1 + inSize + inSize / eachSize / 2

/-- A step of compressing: the bytes so far, the steps taken, the width of a value, and the room in
the temporary buffer. -/
structure IntegerStep where
  buf : List UInt8
  modes : Nat
  valSize : Nat
  tempSize : Nat

/-- Take distances, if they have fewer bytes and save more than the smallest and the largest value
cost. -/
def deltaStep (eachValSize : Nat) (minMax : Int × Int) (inBuf : List UInt8) : IntegerStep :=
  let tempSize := inBuf.length + 8
  let outValSize := deltaGetBytesNum minMax.1 minMax.2
  if outValSize < eachValSize then
    let compressed := deltaCompress minMax.1 minMax.2 inBuf tempSize eachValSize
    if compressed.length + eachValSize * 2 < inBuf.length then
      ⟨compressed, cuDeltaCompressed, outValSize, tempSize⟩
    else ⟨inBuf, 0, eachValSize, tempSize⟩
  else ⟨inBuf, 0, outValSize, tempSize⟩

/-- Write runs, if they are shorter. -/
def rleStep (adoptRle : Bool) (step : IntegerStep) : IntegerStep :=
  if adoptRle then
    let tempSize := bufferRemalloc step.tempSize (rleGetBound1 step.buf.length step.valSize)
    let compressed := rleCompress step.valSize rleMinRepeatsV1 step.buf
    if 0 < compressed.length ∧ compressed.length < step.buf.length then
      ⟨compressed, step.modes ||| cuRLECompressed, step.valSize, tempSize⟩
    else { step with tempSize := tempSize }
  else step

/-- Use LZ4 or zlib, if the result is shorter. -/
def libraryStep (lz4 : Lz4) (zlib : Zlib) (compression : Compression) (compresslevel : Fin 4)
    (step : IntegerStep) : CompressionArg2 :=
  let level := compresslevelTables compression compresslevel
  match compression with
  | .low => ⟨step.buf, step.modes⟩
  | .middle =>
    let compressed := lz4.wrapperCompress level step.buf
    if 0 < compressed.length ∧ compressed.length < step.buf.length then
      ⟨compressed, step.modes ||| cuLzCompressed⟩
    else ⟨step.buf, step.modes⟩
  | .high =>
    let tempSize := bufferRemalloc step.tempSize (zlib.deflateBound level step.buf.length)
    let compressed := (zlib.deflate level step.buf tempSize).getD []
    if 0 < compressed.length ∧ compressed.length < step.buf.length then
      ⟨compressed, step.modes ||| cuZlibCompressed⟩
    else ⟨step.buf, step.modes⟩

/-- Put the smallest and the largest value in front. -/
def insertMinMaxVal (eachValSize : Nat) (minMax : Int × Int) (buf : List UInt8) : List UInt8 :=
  int64DataConvertTo minMax.1 eachValSize ++ int64DataConvertTo minMax.2 eachValSize ++ buf

/-- Compress integers. The bounds may be known; without a step taken there are no bytes. -/
def integerCompress (lz4 : Lz4) (zlib : Zlib) (adoptRle : Bool) (eachValSize : Nat)
    (known : Option (Int × Int)) (compression : Compression) (compresslevel : Fin 4)
    (inBuf : List UInt8) : CompressionArg2 :=
  let minMax := known.getD (computeMinMaxVal (intValues eachValSize inBuf))
  let out := libraryStep lz4 zlib compression compresslevel
    (rleStep adoptRle (deltaStep eachValSize minMax inBuf))
  if out.modes = 0 then ⟨[], 0⟩
  else if out.modes &&& cuDeltaCompressed ≠ 0 then
    ⟨insertMinMaxVal eachValSize minMax out.buf, out.modes⟩
  else out

/-- Undo the library; no result if it fails. -/
def libraryUndo (lz4 : Lz4) (zlib : Zlib) (modes : Nat) (inBuf : List UInt8) (outSize : Nat) :
    Option (List UInt8) :=
  if modes &&& cuLzCompressed ≠ 0 then lz4.wrapperDecompress inBuf
  else if modes &&& cuZlibCompressed ≠ 0 then zlib.inflate inBuf outSize
  else some inBuf

/-- Restore integers. -/
def integerDecompress (lz4 : Lz4) (zlib : Zlib) (eachValSize : Nat) (arg : CompressionArg2)
    (outSize : Nat) : Option (List UInt8) :=
  if arg.modes &&& cuDeltaCompressed ≠ 0 then
    let minVal := convertToInt64Data arg.buf eachValSize
    let maxVal := convertToInt64Data (arg.buf.drop eachValSize) eachValSize
    let inValSize := deltaGetBytesNum minVal maxVal
    (libraryUndo lz4 zlib arg.modes (arg.buf.drop (eachValSize * 2)) outSize).map fun next =>
      deltaDecompress minVal eachValSize
        (if arg.modes &&& cuRLECompressed ≠ 0 then rleDecompress inValSize rleMinRepeatsV1 next
          else next) inValSize
  else
    (libraryUndo lz4 zlib arg.modes arg.buf outSize).map fun next =>
      if arg.modes &&& cuRLECompressed ≠ 0 then rleDecompress eachValSize rleMinRepeatsV1 next
      else next

end OpenGauss.CStore
