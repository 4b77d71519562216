import OpenGauss.Base.Bytes
import OpenGauss.Hll.Object

/-!
# Objects in memory

The functions of `hll.cpp` as they work on memory. An object has a pointer to its data, the bytes that
were reserved for it and the bytes in use, both as 32-bit numbers. Every access names the array it goes
to, so that one behind the end of the array is seen. The lists of `Object` are what the bytes in use
stand for. The estimate of an object is kept as the 64 bits of a double; what the functions compute
with it comes from `DoubleArithmetic`.
-/
namespace OpenGauss.Hll.Stored

open OpenGauss.Base

/-- The ways a function does not return. -/
inductive Fault
  | raised
  /-- A byte outside the reserved memory, or behind no pointer at all, is read or written. -/
  | outside
  | histogram
  deriving DecidableEq

/-- The difference of two 32-bit numbers. -/
def sub32 (left right : Nat) : Nat := (left + 2 ^ 32 - right) % 2 ^ 32

/-- Read a byte. -/
def readByte (memory : List UInt8) (index : Nat) : Except Fault Nat :=
  match memory[index]? with
  | some byte => .ok byte.toNat
  | none => .error .outside

/-- Read some bytes. -/
def readBytes (memory : List UInt8) (index count : Nat) : Except Fault (List UInt8) :=
  if index + count ≤ memory.length then .ok (slice memory index count) else .error .outside

/-- Write some bytes. -/
def writeBytes (memory : List UInt8) (index : Nat) (bytes : List UInt8) :
    Except Fault (List UInt8) :=
  if index + bytes.length ≤ memory.length then .ok (overwrite memory index bytes)
  else .error .outside

/-- Write some bytes if they are needed. -/
def writeWhen (needed : Bool) (memory : List UInt8) (index : Nat) (bytes : List UInt8) :
    Except Fault (List UInt8) :=
  if needed then writeBytes memory index bytes else .ok memory

/-- The memory behind a pointer. -/
def pointed : Option (List UInt8) → Except Fault (List UInt8)
  | some memory => .ok memory
  | none => .error .outside

/-- Copy bytes to a place behind a pointer (`memcpy_s` with its check): no bytes and no pointer at all
are reported. -/
def memcpyS (pointer : Option (List UInt8)) (index : Nat) (bytes : List UInt8) :
    Except Fault (List UInt8) :=
  if bytes.length = 0 then .error .raised
  else
    match pointer with
    | none => .error (if index = 0 then .raised else .outside)
    | some memory => writeBytes memory index bytes

/-- The bytes that are copied from a place behind a pointer: no pointer at all is reported. -/
def memcpySource (pointer : Option (List UInt8)) (index count : Nat) : Except Fault (List UInt8) :=
  match pointer with
  | none => .error (if index = 0 then .raised else .outside)
  | some memory => readBytes memory index count

/-- The form of an object. -/
inductive HllType
  | uninit
  | empty
  | explicit
  | sparse
  | full
  deriving DecidableEq

/-- The number of a form. -/
def HllType.code : HllType → Nat
  | .uninit => 0
  | .empty => 1
  | .explicit => 2
  | .sparse => 3
  | .full => 4

/-- The form with a number. -/
def HllType.ofCode : Nat → Option HllType
  | 0 => some .uninit
  | 1 => some .empty
  | 2 => some .explicit
  | 3 => some .sparse
  | 4 => some .full
  | _ => none

/-- The parameters of an object, a byte for each. -/
structure HllParaBytes where
  log2Registers : Nat
  /-- The most bytes of a list of hashes, as a logarithm. -/
  log2Explicitsize : Nat
  log2Sparsesize : Nat
  /-- Not zero if a hash that is added twice in a row is skipped. -/
  duplicateCheck : Nat
  deriving DecidableEq

/-- The parameters with the duplicate check as a truth value. -/
def HllParaBytes.toPara (para : HllParaBytes) : HllPara :=
  ⟨para.log2Registers, para.log2Explicitsize, para.log2Sparsesize, decide (para.duplicateCheck ≠ 0)⟩

/-- Whether parameters are in range. -/
def hllCheckPararange (para : HllParaBytes) : Bool :=
  Hll.hllCheckPararange para.toPara && decide (para.duplicateCheck ≤ 1)

/-- An object (`HllObjectData`). -/
structure HllObjectData where
  hlltype : HllType
  hllpara : HllParaBytes
  lenTotal : Nat
  lenUsed : Nat
  hllData : Option (List UInt8)
  ndvEstimator : UInt64
  lastHash : Nat
  deriving DecidableEq

/-- What the functions do with a double. -/
structure DoubleArithmetic where
  ofNat : Nat → UInt64
  minusOne : UInt64
  increment : UInt64 → UInt64
  estimate : List Nat → Nat → UInt64
  increment_ofNat : ∀ number < 2 ^ 53, increment (ofNat number) = ofNat (number + 1)
  ofNat_ne : ∀ number < 2 ^ 53, ofNat number ≠ minusOne

/-- The bytes an object is extended by. -/
def hllExpandSize : Nat := 256

/-- The largest amount of memory that can be reserved at once (`MaxAllocSize`). -/
def maxAllocSize : Nat := 0x3fffffff

/-- A byte in use. -/
def hllGetByte (object : HllObjectData) (index : Nat) : Except Fault Nat :=
  if object.lenUsed ≤ index then .error .raised
  else
    match pointed object.hllData with
    | .ok memory => readByte memory index
    | .error fault => .error fault

/-- Set a byte in use. -/
def hllSetByte (object : HllObjectData) (index value : Nat) : Except Fault HllObjectData :=
  if object.lenUsed ≤ index then .error .raised
  else do
    let memory ← pointed object.hllData
    let memory ← writeBytes memory index [UInt8.ofNat value]
    .ok { object with hllData := some memory }

/-- Reserve more bytes. Nothing reads the new ones before they are written, so they are taken as
zeros. -/
def hllDataExpand (object : HllObjectData) : Except Fault HllObjectData :=
  if object.lenTotal = 0 then
    .ok { object with
      hllData := some (List.replicate hllExpandSize 0)
      lenTotal := hllExpandSize }
  else do
    let memory ← pointed object.hllData
    let newSize := (object.lenTotal + hllExpandSize) % 2 ^ 32
    if newSize ≤ maxAllocSize then
      .ok { object with
        hllData := some (memory.take newSize ++ List.replicate (newSize - memory.length) 0)
        lenTotal := newSize }
    else .error .raised

/-- Reserve more bytes until there are enough for a growth. -/
def expandFor (growth : Nat) : Nat → HllObjectData → Except Fault HllObjectData
  | 0, object => .ok object
  | rounds + 1, object =>
    if sub32 object.lenTotal object.lenUsed < growth then do
      let expanded ← hllDataExpand object
      expandFor growth rounds expanded
    else .ok object

/-- Move some bytes in use to another place, if there are any and the places differ. -/
def moveBytes (object : HllObjectData) (target source moveLen : Nat) :
    Except Fault HllObjectData :=
  if target ≠ source ∧ 0 < moveLen then do
    let memory ← pointed object.hllData
    let moved ← readBytes memory source moveLen
    let memory ← writeBytes memory target moved
    .ok { object with hllData := some memory }
  else .ok object

/-- Replace some bytes by others. A growth needs at most one round of reserving for each 256 bytes of
it, and one more. -/
def hllUpdateValue (object : HllObjectData) (index : Nat) (insertValue : List UInt8)
    (originLen : Nat) : Except Fault HllObjectData :=
  if (originLen = 0 ∧ object.lenUsed < index) ∨
      (0 < originLen ∧ object.lenUsed < index + originLen) then .error .raised
  else do
    let growth := sub32 insertValue.length originLen
    let object ← expandFor growth (growth / hllExpandSize + 1) object
    let moveLen := sub32 (sub32 object.lenUsed index) originLen
    let object ← moveBytes object (index + insertValue.length) (index + originLen) moveLen
    let memory ← memcpyS object.hllData index insertValue
    .ok { object with
      hllData := some memory
      lenUsed := (object.lenUsed + growth) % 2 ^ 32 }

/-- A hash of a list (`HllGetExplictitValue`). -/
def hllGetExplicitValue (object : HllObjectData) (index : Nat) : Except Fault Nat := do
  let memory ← pointed object.hllData
  let word ← readBytes memory (index / 8 * 8) 8
  .ok (leNat word)

/-- The hashes of a list, one after the other. -/
def explicitValues (object : HllObjectData) (count : Nat) : Except Fault (List Nat) :=
  (List.range count).mapM fun index => hllGetExplicitValue object (8 * index)

/-- Write the value of a hash into its register. -/
def fullFromHash (para : HllPara) (newdata : List UInt8) (hashval : Nat) :
    Except Fault (List UInt8) :=
  writeBytes newdata (hllHashToValue para hashval).1
    [UInt8.ofNat (hllHashToValue para hashval).2]

/-- Write the registers of a byte of runs, at a place. -/
def fullFromByte (object : HllObjectData) (state : List UInt8 × Nat) (index : Nat) :
    Except Fault (List UInt8 × Nat) := do
  let byteValue ← hllGetByte object index
  match byteType byteValue with
  | 0 => .ok (state.1, state.2 + byteGetValue byteValue * 64)
  | 1 => .ok (state.1, state.2 + byteGetValue byteValue)
  | 2 => do
    let newdata ← writeBytes state.1 state.2 [UInt8.ofNat (byteGetValue byteValue)]
    .ok (newdata, state.2 + 1)
  | _ => .error .raised

/-- An object with its registers as new data. -/
def madeFull (object : HllObjectData) (newdata : List UInt8) : HllObjectData :=
  { object with
    hllData := some newdata
    hlltype := .full
    lenUsed := 2 ^ object.hllpara.log2Registers
    lenTotal := 2 ^ object.hllpara.log2Registers }

/-- Make an object full. -/
def hllTransformFull (object : HllObjectData) : Except Fault HllObjectData :=
  let newdata : List UInt8 := List.replicate (2 ^ object.hllpara.log2Registers) 0
  match object.hlltype with
  | .uninit => .error .raised
  | .empty => .ok (madeFull object newdata)
  | .explicit => do
    let hashes ← explicitValues object ((object.lenUsed + 7) / 8)
    let newdata ← hashes.foldlM (fullFromHash object.hllpara.toPara) newdata
    .ok (madeFull object newdata)
  | .sparse => do
    let state ← (List.range object.lenUsed).foldlM (fullFromByte object) (newdata, 0)
    .ok (madeFull object state.1)
  | .full => .ok object

/-- The bytes for zeros in all registers. -/
def zeroRegisterBytes (log2Registers : Nat) : Nat :=
  if 0 < log2Registers - 6 - 6 then 2 ^ (log2Registers - 6 - 6) else 1

/-- Make an empty object sparse. -/
def hllEmptyToSparse (object : HllObjectData) : Except Fault HllObjectData := do
  let nbyte := zeroRegisterBytes object.hllpara.log2Registers
  let bytes : List UInt8 :=
    if 1 < nbyte then List.replicate nbyte 63
    else [UInt8.ofNat (setLongzeroValue (2 ^ object.hllpara.log2Registers))]
  let memory ← writeBytes (List.replicate nbyte 0) 0 bytes
  .ok { object with hllData := some memory, lenTotal := nbyte, lenUsed := nbyte, hlltype := .sparse }

/-- Write a run of zeros at a place of new data; the bytes written are counted. -/
def hllSetSparseZero (hlldata : List UInt8) (place zerocount : Nat) :
    Except Fault (List UInt8 × Nat) := do
  let fullnum := if 64 ≤ zerocount then zerocount / 4096 else 0
  let hlldata ← writeWhen (decide (0 < fullnum)) hlldata place (List.replicate fullnum 63)
  let rest := if 64 ≤ zerocount then zerocount % 4096 else zerocount
  let hlldata ← writeWhen (decide (64 ≤ rest)) hlldata (place + fullnum)
    [UInt8.ofNat (setLongzeroValue rest)]
  let index := if 64 ≤ rest then fullnum + 1 else fullnum
  let left := if 64 ≤ rest then rest % 64 else rest
  let hlldata ← writeWhen (decide (0 < left)) hlldata (place + index)
    [UInt8.ofNat (setZeroValue left)]
  .ok (hlldata, if 0 < left then index + 1 else index)

/-- New data of runs while it is written: its memory, the place of the next byte, and the last register
with a value. -/
structure SparseDraft where
  newdata : List UInt8
  sparseindex : Nat
  lastindex : Int
  deriving DecidableEq

/-- Write a hash behind the runs of the hashes before it, and reserve more bytes if those for the worst
next step are not left. -/
def sparseFromHash (para : HllPara) (sparseMinsize : Nat) (draft : SparseDraft) (hashval : Nat) :
    Except Fault SparseDraft :=
  let index := (hllHashToValue para hashval).1
  let value := (hllHashToValue para hashval).2
  if value = 0 then .ok draft
  else
    let newvalue := setDenseValue value
    if (index : Int) = draft.lastindex then do
      let old ← readByte draft.newdata (sub32 draft.sparseindex 1)
      if old < newvalue then do
        let newdata ← writeBytes draft.newdata (sub32 draft.sparseindex 1) [UInt8.ofNat newvalue]
        .ok { draft with newdata }
      else .ok draft
    else do
      let zerocount := (((index : Int) - draft.lastindex - 1) % 2 ^ 32).toNat
      let zeros ← hllSetSparseZero draft.newdata draft.sparseindex zerocount
      let newdata ← writeBytes zeros.1 (draft.sparseindex + zeros.2) [UInt8.ofNat newvalue]
      let sparseindex := draft.sparseindex + zeros.2 + 1
      .ok ⟨newdata ++ (if newdata.length < sparseindex + sparseMinsize then
        List.replicate hllExpandSize 0 else []), sparseindex, index⟩

/-- Make a list of hashes sparse. -/
def hllExplicitToSparse (object : HllObjectData) : Except Fault HllObjectData := do
  let sparseMinsize := zeroRegisterBytes object.hllpara.log2Registers + 2
  let hashes ← explicitValues object (object.lenUsed / 8)
  let draft ← hashes.foldlM (sparseFromHash object.hllpara.toPara sparseMinsize)
    ⟨List.replicate sparseMinsize 0, 0, -1⟩
  let zerocount :=
    ((((2 : Int) ^ object.hllpara.log2Registers) - draft.lastindex - 1) % 2 ^ 32).toNat
  let zeros ← hllSetSparseZero draft.newdata draft.sparseindex zerocount
  .ok { object with
    hllData := some zeros.1
    lenTotal := zeros.1.length
    lenUsed := draft.sparseindex + zeros.2
    hlltype := .sparse }

/-- Make an object sparse. -/
def hllTransformSparse (object : HllObjectData) : Except Fault HllObjectData :=
  match object.hlltype with
  | .empty => hllEmptyToSparse object
  | .explicit => hllExplicitToSparse object
  | .sparse => .ok object
  | _ => .error .raised

/-- Change the form of a list of hashes that became too long. -/
def hllExplicitCheck (object : HllObjectData) : Except Fault HllObjectData :=
  if 2 ^ object.hllpara.log2Explicitsize < object.lenUsed then
    if object.hllpara.log2Explicitsize < object.hllpara.log2Sparsesize then do
      let object ← hllTransformSparse object
      if 2 ^ object.hllpara.log2Sparsesize < object.lenUsed then hllTransformFull object
      else .ok object
    else hllTransformFull object
  else .ok object

/-- The first place of a list whose hash is larger, by halving; the places left shrink in every
round. -/
def upperBound (object : HllObjectData) (hashval : Nat) : Nat → Nat → Nat → Except Fault Nat
  | 0, start, _ => .ok start
  | rounds + 1, start, last =>
    if start < last then do
      let mid := (start + last) / 2
      let currentHash ← hllGetExplicitValue object (mid * 8)
      if currentHash ≤ hashval then upperBound object hashval rounds (mid + 1) last
      else upperBound object hashval rounds start mid
    else .ok start

/-- Whether the hash in front of a place is the one that is added. -/
def alreadyThere (object : HllObjectData) (bindex hashval : Nat) : Except Fault Bool :=
  if 0 < bindex then do
    let currentHash ← hllGetExplicitValue object ((bindex - 1) * 8)
    .ok (decide (currentHash = hashval))
  else .ok false

/-- Reserve more bytes if there is no room for a hash. -/
def expandForHash (object : HllObjectData) : Except Fault HllObjectData :=
  if sub32 object.lenTotal object.lenUsed < 8 then hllDataExpand object else .ok object

section Estimates

variable (double : DoubleArithmetic)

/-- Add a hash to a list of hashes. -/
def hllSetExplicitValue (object : HllObjectData) (hashval : Nat) :
    Except Fault HllObjectData := do
  let explicitLen := object.lenUsed / 8
  let object ← expandForHash object
  let bindex ← upperBound object hashval (explicitLen + 1) 0 explicitLen
  let same ← alreadyThere object bindex hashval
  if same then .ok object
  else do
    let object ← hllUpdateValue object (8 * bindex) (leBytes 8 hashval) 0
    hllExplicitCheck { object with ndvEstimator := double.increment object.ndvEstimator }

end Estimates

/-- The byte of a register, and the place of the register in it, from a byte on. -/
def registerUnitLoop (object : HllObjectData) (registerIndex : Nat) :
    Nat → Nat → Nat → Except Fault (Nat × Nat)
  | 0, _, _ => .error .raised
  | rounds + 1, index, sum => do
    let byteValue ← hllGetByte object index
    match byteRegisters byteValue with
    | none => .error .raised
    | some current =>
      if registerIndex < sum + current then .ok (index, registerIndex - sum)
      else registerUnitLoop object registerIndex rounds (index + 1) (sum + current)

/-- The byte of a register, and the place of the register in it. -/
def hllGetRegisterUnit (object : HllObjectData) (registerIndex : Nat) :
    Except Fault (Nat × Nat) :=
  if registerIndex = 0 then .ok (0, 0)
  else registerUnitLoop object registerIndex object.lenUsed 0 0

/-- A scratch array with the place of the next byte, and the counts and values that were encoded. -/
structure Scratch where
  newByte : List UInt8
  index : Nat
  requests : List (Nat × Nat)
  deriving DecidableEq

/-- A scratch array before anything is in it. -/
def Scratch.start (size : Nat) : Scratch := ⟨List.replicate size 0, 0, []⟩

/-- Encode a count of zeros or a value as the next byte. -/
def hllSetSparseByte (scratch : Scratch) (count value : Nat) : Except Fault Scratch :=
  if value ≠ 0 ∧ count ≠ 1 then .error .raised
  else do
    let newByte ← writeBytes scratch.newByte scratch.index
      [UInt8.ofNat (Hll.hllSetSparseByte count value)]
    .ok ⟨newByte, scratch.index + 1, scratch.requests ++ [(count, value)]⟩

/-- Encode a count of zeros, if there are any, as the next byte. -/
def setZeros (scratch : Scratch) (count : Nat) : Except Fault Scratch :=
  if 0 < count then hllSetSparseByte scratch count 0 else .ok scratch

/-- Encode zeros on one side of a register: a byte for many of them and one for those that are
left. -/
def setLongZeros (scratch : Scratch) (count : Nat) : Except Fault Scratch :=
  if 64 ≤ count then do
    let scratch ← hllSetSparseByte scratch count 0
    setZeros scratch (count % 64)
  else setZeros scratch count

/-- The bytes to replace and the zeros on the right of a register in a run of many zeros: a run of a
few zeros behind it is replaced too. -/
def absorbRight (object : HllObjectData) (byteIndex right : Nat) : Except Fault (Nat × Nat) :=
  if byteIndex < sub32 object.lenUsed 1 then do
    let laterByte ← hllGetByte object (byteIndex + 1)
    if byteType laterByte = 1 then .ok (2, right + byteGetValue laterByte) else .ok (1, right)
  else .ok (1, right)

/-- The bytes that a run of many zeros becomes, and how many they replace. -/
def type1Bytes (object : HllObjectData) (byteIndex unitIndex newValue : Nat) :
    Except Fault (Scratch × Nat) := do
  let byteValue ← hllGetByte object byteIndex
  let scratch ← setLongZeros (Scratch.start 5) unitIndex
  let scratch ← hllSetSparseByte scratch 1 newValue
  let origin ← absorbRight object byteIndex
    (sub32 (sub32 (byteGetValue byteValue * 64) unitIndex) 1)
  let scratch ← setLongZeros scratch origin.2
  .ok (scratch, origin.1)

/-- The bytes that a run of a few zeros becomes, and that they replace one. -/
def type2Bytes (object : HllObjectData) (byteIndex unitIndex newValue : Nat) :
    Except Fault (Scratch × Nat) := do
  let byteValue ← hllGetByte object byteIndex
  let scratch ← setZeros (Scratch.start 3) unitIndex
  let scratch ← hllSetSparseByte scratch 1 newValue
  let scratch ← setZeros scratch (sub32 (sub32 (byteGetValue byteValue) unitIndex) 1)
  .ok (scratch, 1)

section Estimates

variable (double : DoubleArithmetic)

/-- Replace bytes by the ones of a scratch array; the estimate is lost. -/
def putScratch (object : HllObjectData) (byteIndex : Nat) (bytes : Scratch × Nat) :
    Except Fault HllObjectData := do
  let object ← hllUpdateValue object byteIndex (bytes.1.newByte.take bytes.1.index) bytes.2
  .ok { object with ndvEstimator := double.minusOne }

/-- Set a register in a run of many zeros. -/
def hllUpdateSparseType1 (object : HllObjectData) (byteIndex unitIndex newValue : Nat) :
    Except Fault HllObjectData := do
  let bytes ← type1Bytes object byteIndex unitIndex newValue
  putScratch double object byteIndex bytes

/-- Set a register in a run of a few zeros. -/
def hllUpdateSparseType2 (object : HllObjectData) (byteIndex unitIndex newValue : Nat) :
    Except Fault HllObjectData := do
  let bytes ← type2Bytes object byteIndex unitIndex newValue
  putScratch double object byteIndex bytes

/-- Set a register that has a value, if the new one is larger. -/
def hllUpdateSparseType3 (object : HllObjectData) (byteIndex newValue : Nat) :
    Except Fault HllObjectData := do
  let byteValue ← hllGetByte object byteIndex
  if newValue ≤ byteGetValue byteValue then .ok object
  else do
    let object ← hllSetByte object byteIndex (setDenseValue newValue)
    .ok { object with ndvEstimator := double.minusOne }

/-- Set a register in runs. -/
def hllUpdateSparseValue (object : HllObjectData) (byteIndex unitIndex newValue : Nat) :
    Except Fault HllObjectData :=
  if newValue = 0 then .ok object
  else do
    let byteValue ← hllGetByte object byteIndex
    match byteType byteValue with
    | 0 => hllUpdateSparseType1 double object byteIndex unitIndex newValue
    | 1 => hllUpdateSparseType2 double object byteIndex unitIndex newValue
    | 2 => hllUpdateSparseType3 double object byteIndex newValue
    | _ => .error .raised

/-- Add a hash to runs. -/
def hllSetSparseValue (object : HllObjectData) (hashval : Nat) : Except Fault HllObjectData :=
  let index := (hllHashToValue object.hllpara.toPara hashval).1
  let value := (hllHashToValue object.hllpara.toPara hashval).2
  if value = 0 then .ok object
  else do
    let unit ← hllGetRegisterUnit object index
    let object ← hllUpdateSparseValue double object unit.1 unit.2 value
    if 2 ^ object.hllpara.log2Sparsesize < object.lenUsed then hllTransformFull object
    else .ok object

/-- Add a hash to the registers. -/
def hllSetFullValue (object : HllObjectData) (hashval : Nat) : Except Fault HllObjectData :=
  let index := (hllHashToValue object.hllpara.toPara hashval).1
  let value := (hllHashToValue object.hllpara.toPara hashval).2
  if value = 0 then .ok object
  else do
    let byte ← hllGetByte object index
    if byte < value then do
      let object ← hllSetByte object index value
      .ok { object with ndvEstimator := double.minusOne }
    else .ok object

/-- Make an object empty. -/
def hllEmpty (object : HllObjectData) : HllObjectData :=
  { object with
    hlltype := .empty
    ndvEstimator := double.ofNat 0
    lastHash := 0
    hllData := none
    lenTotal := 0
    lenUsed := 0 }

/-- Add a hash to an empty object. -/
def hllSetEmptyValue (object : HllObjectData) (hashval : Nat) : Except Fault HllObjectData :=
  if object.hllpara.log2Explicitsize = 0 ∧ object.hllpara.log2Sparsesize = 0 then do
    let object ← hllTransformFull object
    hllSetFullValue double object hashval
  else if object.hllpara.log2Explicitsize = 0 then do
    let object ← hllTransformSparse object
    hllSetSparseValue double object hashval
  else hllSetExplicitValue double { object with hlltype := .explicit } hashval

/-- Add a hash in the form the object has. -/
def hllSetRegisterValue (object : HllObjectData) (hashval : Nat) : Except Fault HllObjectData :=
  match object.hlltype with
  | .uninit => hllSetEmptyValue double (hllEmpty double object) hashval
  | .empty => hllSetEmptyValue double object hashval
  | .explicit => hllSetExplicitValue double object hashval
  | .sparse => hllSetSparseValue double object hashval
  | .full => hllSetFullValue double object hashval

/-- Add a hash. -/
def hllAdd (object : HllObjectData) (hashval : Nat) : Except Fault HllObjectData :=
  if object.hllpara.duplicateCheck ≠ 0 ∧ hashval = object.lastHash then .ok object
  else do
    let object ← hllSetRegisterValue double object hashval
    .ok { object with lastHash := hashval }

/-- Whether an object has no hash. -/
def HllObjectData.isEmpty (object : HllObjectData) : Bool :=
  match object.hlltype with
  | .uninit => true
  | .empty => true
  | _ => false

/-- Copy an object that has hashes over another. -/
def hllCopy (object aHll : HllObjectData) : Except Fault HllObjectData := do
  let object :=
    if object.lenTotal < aHll.lenTotal then
      { object with
        hllData := some (List.replicate aHll.lenTotal 0)
        lenTotal := aHll.lenTotal
        lenUsed := aHll.lenUsed }
    else { object with lenUsed := aHll.lenUsed }
  let data ← memcpySource aHll.hllData 0 aHll.lenUsed
  let memory ← memcpyS object.hllData 0 data
  .ok { object with
    hllData := some memory
    hllpara := aHll.hllpara
    hlltype := aHll.hlltype
    ndvEstimator := aHll.ndvEstimator
    lastHash := aHll.lastHash }

/-- Take the larger byte of two full objects at a place. -/
def combineByte (aHll : HllObjectData) (memory : List UInt8) (index : Nat) :
    Except Fault (List UInt8) := do
  let byte ← readByte memory index
  let other ← pointed aHll.hllData
  let otherByte ← readByte other index
  if byte < otherByte then writeBytes memory index [UInt8.ofNat otherByte] else .ok memory

/-- Join two full objects. -/
def hllCombineFull (object aHll : HllObjectData) : Except Fault HllObjectData := do
  let memory ← pointed object.hllData
  let memory ← (List.range object.lenUsed).foldlM (combineByte aHll) memory
  .ok { object with
    hllData := some memory
    ndvEstimator := double.minusOne
    lastHash := 0 }

/-- The places in two lists of hashes and in the new one. -/
structure MergeState where
  newdata : List UInt8
  p1 : Nat
  p2 : Nat
  p : Nat
  deriving DecidableEq

/-- Copy a hash of a list to the place in the new one. -/
def copyWord (object : HllObjectData) (place : Nat) (newdata : List UInt8) (p : Nat) :
    Except Fault (List UInt8) := do
  let word ← memcpySource object.hllData place 8
  writeBytes newdata p word

/-- Copy the smaller hash of two lists, while both have some. Every round leaves a hash behind. -/
def mergeLoop (object aHll : HllObjectData) : Nat → MergeState → Except Fault MergeState
  | 0, state => .ok state
  | rounds + 1, state =>
    if state.p1 < object.lenUsed ∧ state.p2 < aHll.lenUsed then do
      let hashval1 ← hllGetExplicitValue object state.p1
      let hashval2 ← hllGetExplicitValue aHll state.p2
      if hashval1 < hashval2 then do
        let newdata ← copyWord object state.p1 state.newdata state.p
        mergeLoop object aHll rounds ⟨newdata, state.p1 + 8, state.p2, state.p + 8⟩
      else if hashval2 < hashval1 then do
        let newdata ← copyWord aHll state.p2 state.newdata state.p
        mergeLoop object aHll rounds ⟨newdata, state.p1, state.p2 + 8, state.p + 8⟩
      else do
        let newdata ← copyWord object state.p1 state.newdata state.p
        mergeLoop object aHll rounds ⟨newdata, state.p1 + 8, state.p2 + 8, state.p + 8⟩
    else .ok state

/-- Copy what is left of a list. -/
def copyRest (object : HllObjectData) (place leftLen : Nat) (newdata : List UInt8) (p : Nat) :
    Except Fault (List UInt8) := do
  let bytes ← memcpySource object.hllData place leftLen
  writeBytes newdata p bytes

/-- Copy what is left of the list that is not at its end. -/
def mergeRest (object aHll : HllObjectData) (state : MergeState) (leftLen : Nat) :
    Except Fault (List UInt8) :=
  if state.p1 < object.lenUsed then copyRest object state.p1 leftLen state.newdata state.p
  else if state.p2 < aHll.lenUsed then copyRest aHll state.p2 leftLen state.newdata state.p
  else .ok state.newdata

/-- Join two lists of hashes (`HllComibineExplicit`). -/
def hllCombineExplicit (object aHll : HllObjectData) : Except Fault HllObjectData := do
  let total := object.lenUsed + aHll.lenUsed
  let state ← mergeLoop object aHll total ⟨List.replicate total 0, 0, 0, 0⟩
  let leftLen := sub32 (sub32 total state.p1) state.p2
  let newdata ← mergeRest object aHll state leftLen
  let used := (state.p + leftLen) % 2 ^ 32
  hllExplicitCheck { object with
    hllData := some newdata
    lenTotal := total
    lenUsed := used
    lastHash := 0
    ndvEstimator := double.ofNat (used / 8) }

/-- Join an object with another. The other one may be made full; both are returned. -/
def hllUnion (object aHll : HllObjectData) : Except Fault (HllObjectData × HllObjectData) :=
  if aHll.isEmpty then .ok (object, aHll)
  else if object.isEmpty then do
    let copy ← hllCopy object aHll
    .ok (copy, aHll)
  else if object.hllpara ≠ aHll.hllpara then .error .raised
  else if aHll.hlltype = .explicit ∧ object.hlltype = .explicit then do
    let joined ← hllCombineExplicit double object aHll
    .ok (joined, aHll)
  else do
    let object ← hllTransformFull object
    let aHll ← hllTransformFull aHll
    let joined ← hllCombineFull double object aHll
    .ok (joined, aHll)

/-- Count a register with a value. -/
def countValue (histogram : List Nat) (value : Nat) : Except Fault (List Nat) :=
  match histogram[value]? with
  | some count => .ok (histogram.set value (count + 1))
  | none => .error .histogram

/-- Count the registers of a byte of runs. -/
def countByte (object : HllObjectData) (histogram : List Nat) (index : Nat) :
    Except Fault (List Nat) := do
  let value ← hllGetByte object index
  match byteType value with
  | 0 => .ok (histogram.set 0 (histogram.getD 0 0 + byteGetValue value * 64))
  | 1 => .ok (histogram.set 0 (histogram.getD 0 0 + byteGetValue value))
  | 2 => countValue histogram (byteGetValue value)
  | _ => .error .raised

/-- Count the register of a place. -/
def countRegister (object : HllObjectData) (histogram : List Nat) (index : Nat) :
    Except Fault (List Nat) := do
  let value ← hllGetByte object index
  countValue histogram value

/-- The registers with each value. -/
def hllGetHistogram (object : HllObjectData) : Except Fault (List Nat) :=
  let histogram := List.replicate 64 0
  match object.hlltype with
  | .uninit => .error .raised
  | .empty => .ok histogram
  | .explicit => do
    let hashes ← explicitValues object ((object.lenUsed + 7) / 8)
    let histogram ← hashes.foldlM (fun counts hashval =>
      countValue counts (hllHashToValue object.hllpara.toPara hashval).2) histogram
    .ok (histogram.set 0 (sub32 (2 ^ object.hllpara.log2Registers) (object.lenUsed / 8)))
  | .sparse => (List.range object.lenUsed).foldlM (countByte object) histogram
  | .full => (List.range object.lenUsed).foldlM (countRegister object) histogram

/-- Estimate the number of hashes. -/
def hllCalculateNDV (object : HllObjectData) : Except Fault HllObjectData :=
  match object.hlltype with
  | .uninit => .error .raised
  | .empty => .ok { object with ndvEstimator := double.ofNat 0 }
  | _ => do
    let histogram ← hllGetHistogram object
    .ok { object with ndvEstimator := double.estimate histogram object.hllpara.log2Registers }

/-- The estimate, made anew if it was lost. -/
def hllCardinality (object : HllObjectData) : Except Fault HllObjectData :=
  if object.ndvEstimator = double.minusOne then hllCalculateNDV double object else .ok object

/-- A new object with the default parameters. -/
def hllInit : HllObjectData :=
  ⟨.uninit, ⟨14, 10, 12, 0⟩, 0, 0, none, double.minusOne, 0⟩

/-- Set the parameters of an object that has no hash. -/
def hllSetPara (object : HllObjectData) (hllpara : HllParaBytes) : Except Fault HllObjectData :=
  if object.isEmpty then .ok { object with hllpara } else .error .raised

end Estimates

/-- The bytes in front of the data. -/
def hllHeadSize : Nat := 27

/-- The three letters at the start. -/
def hllFlag : List UInt8 := [72, 76, 76]

/-- Put a field behind others in a 64-bit number. -/
def packField (info bits value : Nat) : Nat := (info <<< bits ||| value) % 2 ^ 64

/-- The 64-bit number with the form, the parameters and the lengths. -/
def compressInfo (object : HllObjectData) : Nat :=
  let info := object.hlltype.code
  let info := packField info 4 (object.hllpara.log2Registers - 10)
  let info := packField info 4 object.hllpara.log2Explicitsize
  let info := packField info 4 object.hllpara.log2Sparsesize
  let info := packField info 4 object.hllpara.duplicateCheck
  let info := packField info 17 object.lenTotal
  packField info 17 object.lenUsed

/-- Write an object as bytes. -/
def hllObjectPack (object : HllObjectData) (hllsize : Nat) : Except Fault (List UInt8) :=
  if hllsize ≤ hllHeadSize + object.lenUsed then .error .raised
  else if object.hlltype = .uninit then .error .raised
  else do
    let hllbyte ← writeBytes (List.replicate hllsize 0) 0 hllFlag
    let hllbyte ← writeBytes hllbyte 3 (leBytes 8 (compressInfo object))
    let hllbyte ← writeBytes hllbyte 11 (leBytes 8 object.ndvEstimator.toNat)
    let hllbyte ← writeBytes hllbyte 19 (leBytes 8 object.lastHash)
    if 0 < object.lenUsed then do
      let data ← memcpySource object.hllData 0 object.lenUsed
      writeBytes hllbyte hllHeadSize data
    else .ok hllbyte

/-- The data of an object that is read from bytes: reserved memory with the bytes in use in front, or
the pointer that was there if no bytes are in use. -/
def unpackData (pointer : Option (List UInt8)) (lenTotal : Nat) (data : List UInt8) :
    Except Fault (Option (List UInt8)) :=
  if 0 < data.length then (writeBytes (List.replicate lenTotal 0) 0 data).map some else .ok pointer

/-- The bytes in use, in the packed number. -/
def packedUsed (info : Nat) : Nat := info % 2 ^ 17

/-- The reserved bytes, in the packed number. -/
def packedTotal (info : Nat) : Nat := info / 2 ^ 17 % 2 ^ 17

/-- The parameters, in the packed number. -/
def packedPara (info : Nat) : HllParaBytes where
  duplicateCheck := info / 2 ^ 34 % 2 ^ 4
  log2Sparsesize := info / 2 ^ 38 % 2 ^ 4
  log2Explicitsize := info / 2 ^ 42 % 2 ^ 4
  log2Registers := info / 2 ^ 46 % 2 ^ 4 + 10

/-- The form, in the packed number. -/
def packedType (info : Nat) : Option HllType := HllType.ofCode (info / 2 ^ 50 % 2 ^ 4)

/-- Read an object from bytes. The pointer of the object that is filled stays if there is no data. -/
def hllObjectUnpack (hllobject : HllObjectData) (hllbyte : List UInt8) :
    Except Fault HllObjectData :=
  if hllbyte.length < hllHeadSize then .error .raised
  else if slice hllbyte 0 3 ≠ hllFlag then .error .raised
  else
    let info := leNat (slice hllbyte 3 8)
    match packedType info with
    | none => .error .raised
    | some hlltype =>
      if hllbyte.length ≤ hllHeadSize + packedUsed info then .error .raised
      else do
        let hllData ← unpackData hllobject.hllData (packedTotal info)
          (slice hllbyte hllHeadSize (packedUsed info))
        .ok ⟨hlltype, packedPara info, packedTotal info, packedUsed info, hllData,
          UInt64.ofNat (leNat (slice hllbyte 11 8)), leNat (slice hllbyte 19 8)⟩

end OpenGauss.Hll.Stored
