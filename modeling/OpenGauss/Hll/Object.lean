import Mathlib.Data.List.Basic
import Mathlib.Order.Lattice.Nat

/-!
# HyperLogLog objects

An object of `hll.cpp` counts distinct hash values. It is empty, or it has the sorted list of all
hashes, or the registers as runs of bytes, or one byte for each register. The first bits of a hash
choose a register, and the number of zeros at its end gives a value; a register is to have the
largest value of the hashes that choose it. Adding a hash and joining two objects move an object from
one of the forms to the next when it becomes too long.
-/
namespace OpenGauss.Hll

/-- The parameters of an object (`HllPara`). -/
structure HllPara where
  log2Registers : Nat
  /-- The most bytes of a list of hashes, as a logarithm. -/
  log2Explicitsize : Nat
  log2Sparsesize : Nat
  /-- Whether a hash that is added twice in a row is skipped. -/
  duplicateCheck : Bool
  deriving DecidableEq

/-- The parameters that are admitted. -/
def hllCheckPararange (para : HllPara) : Bool :=
  decide (10 ≤ para.log2Registers) && decide (para.log2Registers ≤ 16) &&
    decide (para.log2Explicitsize ≤ 12) && decide (para.log2Sparsesize ≤ 14)

/-- The form of an object with its data (`hlltype` and `hllData`). -/
inductive HllData
  | uninit
  | empty
  | explicit (hashes : List Nat)
  | sparse (bytes : List Nat)
  | full (bytes : List Nat)
  deriving DecidableEq

/-- An object (`HllObjectData`). -/
structure HllObject where
  para : HllPara
  lastHash : Nat
  data : HllData
  deriving DecidableEq

/-- The number of registers. -/
def HllPara.registers (para : HllPara) : Nat := 2 ^ para.log2Registers

/-- The zeros at the end of a number, at most as many as its bits (`__builtin_ctzll`). -/
def trailingZeros : Nat → Nat → Nat
  | 0, _ => 0
  | bits + 1, number => if number % 2 = 1 then 0 else trailingZeros bits (number / 2) + 1

/-- The register and the value of a hash. -/
def hllHashToValue (para : HllPara) (hashval : Nat) : Nat × Nat :=
  let calzeroLen := 64 - para.log2Registers
  let value := trailingZeros 64 hashval + 1
  (hashval / 2 ^ calzeroLen, if calzeroLen < value then 0 else value)

/-- The type of a byte of runs (`BYTE_TYPE`): 64 zeros each, zeros, one value, or not used. -/
def byteType (byte : Nat) : Nat := byte / 64

/-- The value of a byte of runs (`BYTE_GET_VALUE`). -/
def byteGetValue (byte : Nat) : Nat := byte % 64 + 1

/-- A byte for many zeros (`SET_LONGZERO_VALUE`). -/
def setLongzeroValue (value : Nat) : Nat := (value / 64 - 1) ||| 0

/-- A byte for a few zeros (`SET_ZERO_VALUE`). -/
def setZeroValue (value : Nat) : Nat := (value - 1) ||| 64

/-- A byte for a value (`SET_DENSE_VALUE`). -/
def setDenseValue (value : Nat) : Nat := (value - 1) ||| 128

/-- A byte for a run of zeros, or for one value. A value always comes with a count of 1. -/
def hllSetSparseByte (count value : Nat) : Nat :=
  if value = 0 then
    if 64 ≤ count then setLongzeroValue count else setZeroValue count
  else setDenseValue value

/-- The bytes for a run of zeros. -/
def hllSetSparseZero (zerocount : Nat) : List Nat :=
  let full := if 64 ≤ zerocount then List.replicate (zerocount / 4096) 63 else []
  let rest := if 64 ≤ zerocount then zerocount % 4096 else zerocount
  let long := if 64 ≤ rest then [setLongzeroValue rest] else []
  let left := if 64 ≤ rest then rest % 64 else rest
  full ++ long ++ if 0 < left then [setZeroValue left] else []

/-- The number of registers of a byte of runs; no result for a type that is not used. -/
def byteRegisters (byte : Nat) : Option Nat :=
  match byteType byte with
  | 0 => some (64 * byteGetValue byte)
  | 1 => some (byteGetValue byte)
  | 2 => some 1
  | _ => none

/-- The registers of a byte of runs. -/
def byteUnits (byte : Nat) : List Nat :=
  match byteType byte with
  | 0 => List.replicate (64 * byteGetValue byte) 0
  | 1 => List.replicate (byteGetValue byte) 0
  | 2 => [byteGetValue byte]
  | _ => []

/-- Write the registers of runs, one after the other; no result for a type that is not used. -/
def sparseToFull : List Nat → Option (List Nat)
  | [] => some []
  | byte :: rest =>
    if byteType byte ≤ 2 then (sparseToFull rest).map (byteUnits byte ++ ·) else none

/-- Write the value of each hash into its register. -/
def explicitToFull (para : HllPara) (hashes : List Nat) : List Nat :=
  hashes.foldl (fun newdata hashval =>
    newdata.set (hllHashToValue para hashval).1 (hllHashToValue para hashval).2)
    (List.replicate para.registers 0)

/-- Make an object full. -/
def hllTransformFull (object : HllObject) : Option HllObject :=
  match object.data with
  | .uninit => none
  | .empty => some { object with data := .full (List.replicate object.para.registers 0) }
  | .explicit hashes => some { object with data := .full (explicitToFull object.para hashes) }
  | .sparse bytes => (sparseToFull bytes).map fun newdata => { object with data := .full newdata }
  | .full _ => some object

/-- The runs of an empty object. -/
def hllEmptyToSparse (para : HllPara) : List Nat :=
  let log2byte := para.log2Registers - 6 - 6
  let nbyte := if 0 < log2byte then 2 ^ log2byte else 1
  if 1 < nbyte then List.replicate nbyte 63 else [setLongzeroValue para.registers]

/-- Add a hash to the runs behind the last register that has a value. -/
def explicitToSparseStep (para : HllPara) (state : List Nat × Int) (hashval : Nat) :
    List Nat × Int :=
  let index := (hllHashToValue para hashval).1
  let value := (hllHashToValue para hashval).2
  if value = 0 then state
  else
    let newvalue := setDenseValue value
    if (index : Int) = state.2 then
      (if state.1.getLast?.getD 0 < newvalue then state.1.dropLast ++ [newvalue] else state.1,
        state.2)
    else
      (state.1 ++ hllSetSparseZero ((index : Int) - state.2 - 1).toNat ++ [newvalue], index)

/-- The runs of a list of hashes. -/
def hllExplicitToSparse (para : HllPara) (hashes : List Nat) : List Nat :=
  let state := hashes.foldl (explicitToSparseStep para) ([], -1)
  state.1 ++ hllSetSparseZero ((para.registers : Int) - state.2 - 1).toNat

/-- Make an object sparse. -/
def hllTransformSparse (object : HllObject) : Option HllObject :=
  match object.data with
  | .empty => some { object with data := .sparse (hllEmptyToSparse object.para) }
  | .explicit hashes =>
    some { object with data := .sparse (hllExplicitToSparse object.para hashes) }
  | .sparse _ => some object
  | _ => none

/-- The bytes in use. -/
def HllObject.lenUsed (object : HllObject) : Nat :=
  match object.data with
  | .uninit => 0
  | .empty => 0
  | .explicit hashes => 8 * hashes.length
  | .sparse bytes => bytes.length
  | .full bytes => bytes.length

/-- Change the form of a list of hashes that became too long. -/
def hllExplicitCheck (object : HllObject) : Option HllObject :=
  if 2 ^ object.para.log2Explicitsize < object.lenUsed then
    if object.para.log2Explicitsize < object.para.log2Sparsesize then
      match hllTransformSparse object with
      | some transformed =>
        if 2 ^ object.para.log2Sparsesize < transformed.lenUsed then hllTransformFull transformed
        else some transformed
      | none => none
    else hllTransformFull object
  else some object

/-- The first index whose hash is larger, by halving. -/
def upperBound (hashes : List Nat) (hashval : Nat) : Nat → Nat → Nat → Nat
  | 0, start, _ => start
  | rounds + 1, start, last =>
    if start < last then
      let mid := (start + last) / 2
      if hashes.getD mid 0 ≤ hashval then upperBound hashes hashval rounds (mid + 1) last
      else upperBound hashes hashval rounds start mid
    else start

/-- Add a hash to a list of hashes. -/
def hllSetExplicitValue (object : HllObject) (hashes : List Nat) (hashval : Nat) :
    Option HllObject :=
  let bindex := upperBound hashes hashval (hashes.length + 1) 0 hashes.length
  if 0 < bindex ∧ hashes.getD (bindex - 1) 0 = hashval then
    some { object with data := .explicit hashes }
  else
    hllExplicitCheck
      { object with data := .explicit (hashes.take bindex ++ hashval :: hashes.drop bindex) }

/-- The byte of a register, and the place of the register in it, from a byte on. -/
def registerUnitLoop (registerIndex : Nat) : List Nat → Nat → Nat → Option (Nat × Nat)
  | [], _, _ => none
  | byte :: rest, position, sum =>
    match byteRegisters byte with
    | none => none
    | some current =>
      if registerIndex < sum + current then some (position, registerIndex - sum)
      else registerUnitLoop registerIndex rest (position + 1) (sum + current)

/-- The byte of a register, and the place of the register in it. -/
def hllGetRegisterUnit (bytes : List Nat) (registerIndex : Nat) : Option (Nat × Nat) :=
  if registerIndex = 0 then some (0, 0) else registerUnitLoop registerIndex bytes 0 0

/-- Replace some bytes by others. -/
def hllUpdateValue (bytes : List Nat) (index : Nat) (insert : List Nat) (originLen : Nat) :
    List Nat :=
  bytes.take index ++ insert ++ bytes.drop (index + originLen)

/-- The bytes for some zeros: one for many zeros and one for those that are left. -/
def zeroBytes (count : Nat) : List Nat :=
  let left := if 64 ≤ count then count % 64 else count
  (if 64 ≤ count then [hllSetSparseByte count 0] else []) ++
    if 0 < left then [hllSetSparseByte left 0] else []

/-- Set a register in a run of many zeros. A run of a few zeros behind it is joined with what is left
on the right. -/
def hllUpdateSparseType1 (bytes : List Nat) (byteIndex unitIndex newValue byteValue : Nat) :
    List Nat :=
  let right := byteGetValue byteValue * 64 - unitIndex - 1
  match bytes[byteIndex + 1]? with
  | some laterByte =>
    if byteType laterByte = 1 then
      hllUpdateValue bytes byteIndex (zeroBytes unitIndex ++ [hllSetSparseByte 1 newValue] ++
        zeroBytes (right + byteGetValue laterByte)) 2
    else
      hllUpdateValue bytes byteIndex
        (zeroBytes unitIndex ++ [hllSetSparseByte 1 newValue] ++ zeroBytes right) 1
  | none =>
    hllUpdateValue bytes byteIndex
      (zeroBytes unitIndex ++ [hllSetSparseByte 1 newValue] ++ zeroBytes right) 1

/-- Set a register in a run of a few zeros. -/
def hllUpdateSparseType2 (bytes : List Nat) (byteIndex unitIndex newValue byteValue : Nat) :
    List Nat :=
  let right := byteGetValue byteValue - unitIndex - 1
  hllUpdateValue bytes byteIndex
    ((if 0 < unitIndex then [hllSetSparseByte unitIndex 0] else []) ++
      [hllSetSparseByte 1 newValue] ++
      if 0 < right then [hllSetSparseByte right 0] else []) 1

/-- Set a register that has a value, if the new one is larger. -/
def hllUpdateSparseType3 (bytes : List Nat) (byteIndex newValue byteValue : Nat) : List Nat :=
  if newValue ≤ byteGetValue byteValue then bytes else bytes.set byteIndex (setDenseValue newValue)

/-- Set a register in runs. -/
def hllUpdateSparseValue (bytes : List Nat) (byteIndex unitIndex newValue : Nat) :
    Option (List Nat) :=
  match bytes[byteIndex]? with
  | none => none
  | some byteValue =>
    match byteType byteValue with
    | 0 => some (hllUpdateSparseType1 bytes byteIndex unitIndex newValue byteValue)
    | 1 => some (hllUpdateSparseType2 bytes byteIndex unitIndex newValue byteValue)
    | 2 => some (hllUpdateSparseType3 bytes byteIndex newValue byteValue)
    | _ => none

/-- Add a hash to runs. -/
def hllSetSparseValue (object : HllObject) (bytes : List Nat) (hashval : Nat) :
    Option HllObject :=
  let index := (hllHashToValue object.para hashval).1
  let value := (hllHashToValue object.para hashval).2
  if value = 0 then some { object with data := .sparse bytes }
  else
    match hllGetRegisterUnit bytes index with
    | none => none
    | some unit =>
      match hllUpdateSparseValue bytes unit.1 unit.2 value with
      | none => none
      | some newBytes =>
        let updated := { object with data := .sparse newBytes }
        if 2 ^ object.para.log2Sparsesize < newBytes.length then hllTransformFull updated
        else some updated

/-- Add a hash to the registers. -/
def hllSetFullValue (object : HllObject) (bytes : List Nat) (hashval : Nat) : Option HllObject :=
  let index := (hllHashToValue object.para hashval).1
  let value := (hllHashToValue object.para hashval).2
  if value = 0 then some { object with data := .full bytes }
  else
    match bytes[index]? with
    | none => none
    | some byte =>
      some { object with data := .full (if byte < value then bytes.set index value else bytes) }

/-- Add a hash to an empty object. -/
def hllSetEmptyValue (object : HllObject) (hashval : Nat) : Option HllObject :=
  if object.para.log2Explicitsize = 0 ∧ object.para.log2Sparsesize = 0 then
    hllSetFullValue object (List.replicate object.para.registers 0) hashval
  else if object.para.log2Explicitsize = 0 then
    hllSetSparseValue object (hllEmptyToSparse object.para) hashval
  else hllSetExplicitValue object [] hashval

/-- Add a hash in the form the object has. -/
def hllSetRegisterValue (object : HllObject) (hashval : Nat) : Option HllObject :=
  match object.data with
  | .uninit => hllSetEmptyValue { object with lastHash := 0 } hashval
  | .empty => hllSetEmptyValue object hashval
  | .explicit hashes => hllSetExplicitValue object hashes hashval
  | .sparse bytes => hllSetSparseValue object bytes hashval
  | .full bytes => hllSetFullValue object bytes hashval

/-- Add a hash. -/
def hllAdd (object : HllObject) (hashval : Nat) : Option HllObject :=
  if object.para.duplicateCheck ∧ hashval = object.lastHash then some object
  else (hllSetRegisterValue object hashval).map fun added => { added with lastHash := hashval }

/-- Merge two sorted lists of hashes. -/
def mergeHashes : List Nat → List Nat → List Nat
  | [], second => second
  | first, [] => first
  | hashval1 :: rest1, hashval2 :: rest2 =>
    if hashval1 < hashval2 then hashval1 :: mergeHashes rest1 (hashval2 :: rest2)
    else if hashval2 < hashval1 then hashval2 :: mergeHashes (hashval1 :: rest1) rest2
    else hashval1 :: mergeHashes rest1 rest2
  termination_by first second => first.length + second.length

/-- Join two lists of hashes. -/
def hllCombineExplicit (object : HllObject) (hashes1 hashes2 : List Nat) : Option HllObject :=
  hllExplicitCheck
    { object with lastHash := 0, data := .explicit (mergeHashes hashes1 hashes2) }

/-- Join two full objects. -/
def hllCombineFull (object : HllObject) (bytes1 bytes2 : List Nat) : HllObject :=
  { object with
    lastHash := 0
    data := .full (List.zipWith (fun byte1 byte2 => if byte1 < byte2 then byte2 else byte1)
      bytes1 bytes2) }

/-- Whether an object has no hash. -/
def HllObject.isEmpty (object : HllObject) : Bool :=
  match object.data with
  | .uninit => true
  | .empty => true
  | _ => false

/-- Join an object with another. -/
def hllUnion (object aHll : HllObject) : Option HllObject :=
  if aHll.isEmpty then some object
  else if object.isEmpty then some aHll
  else if object.para ≠ aHll.para then none
  else
    match object.data, aHll.data with
    | .explicit hashes1, .explicit hashes2 => hllCombineExplicit object hashes1 hashes2
    | _, _ =>
      match hllTransformFull object, hllTransformFull aHll with
      | some object1, some object2 =>
        match object1.data, object2.data with
        | .full bytes1, .full bytes2 => some (hllCombineFull object1 bytes1 bytes2)
        | _, _ => none
      | _, _ => none

end OpenGauss.Hll
