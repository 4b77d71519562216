import Mathlib.Algebra.BigOperators.Group.Finset.Basic
import Mathlib.Algebra.Order.BigOperators.Group.Finset
import Mathlib.Data.List.Dedup
import OpenGauss.Base.Bytes
import OpenGauss.RowCompress.PageCompress

/-!
# Choosing the compression of a column

Before the tuples of a page are compressed their values are laid out column by column, and each
column gets a method: the distance from a base value for numbers, a dictionary of values that
repeat, a shared start of strings, or packed digits. A hint of the user is tried first and then the
methods for the type of the column one after the other. What a method has to remember goes into the
header of the page, with one byte in front that names the method.

A value is held by its word, by the bytes of a type of fixed length, as a `varlena` or as a C
string. Values stored elsewhere do not appear: their tuples were set aside before.
-/

namespace OpenGauss.RowCompress

open Function List OpenGauss.Base

/-- A value of variable length. -/
inductive Varlena where
  | short (payload : List UInt8)
  | full (payload : List UInt8)
  | compressed (payload : List UInt8)
  deriving DecidableEq

/-- The data behind the header (`VARDATA_ANY` with `VARSIZE_ANY_EXHDR` bytes). -/
def Varlena.data : Varlena → List UInt8
  | .short payload => payload
  | .full payload => payload
  | .compressed payload => payload

/-- The header and the data (`VARSIZE_ANY` bytes). -/
def Varlena.bytes : Varlena → List UInt8
  | .short payload => leBytes 1 (2 * (payload.length + 1) + 1) ++ payload
  | .full payload => leBytes 4 (4 * (payload.length + 4)) ++ payload
  | .compressed payload => leBytes 4 (4 * (payload.length + 4) + 2) ++ payload

/-- A C string without its terminator. -/
structure CString where
  chars : List UInt8
  terminated : 0 ∉ chars
  deriving DecidableEq

/-- A value of a column (`Datum`). -/
inductive Datum where
  | byVal (word : BitVec 64)
  | byRef (data : List UInt8)
  | varlena (value : Varlena)
  | cstring (value : CString)
  deriving DecidableEq

/-- The word of a value. -/
def Datum.word : Datum → BitVec 64
  | .byVal word => word
  | _ => 0

/-- The contents of a string. -/
def Datum.contents : Datum → List UInt8
  | .varlena value => value.data
  | .cstring value => value.chars
  | _ => []

/-- The functions of a number type (`NumberTypeOpt`). -/
inductive NumberTypeOpt where
  | int16
  | int32
  | uint32
  | int64
  deriving DecidableEq

/-- The number that a word stands for (`DatumGetInt16` and so on). -/
def NumberTypeOpt.number : NumberTypeOpt → BitVec 64 → Int
  | .int16, word => (word.setWidth 16).toInt
  | .int32, word => (word.setWidth 32).toInt
  | .uint32, word => (word.setWidth 32).toNat
  | .int64, word => word.toInt

/-- Compare two numbers (`int16Compare` and so on). -/
def NumberTypeOpt.compare (opt : NumberTypeOpt) (left right : BitVec 64) : Int :=
  if opt.number right < opt.number left then 1
  else if opt.number left < opt.number right then -1
  else 0

/-- The difference of two numbers, in the width of the type (`int16Minus` and so on). Numbers of two
bytes are subtracted as numbers of four. -/
def NumberTypeOpt.minus : NumberTypeOpt → BitVec 64 → BitVec 64 → Int
  | .int16, left, right => (left.setWidth 16).toInt - (right.setWidth 16).toInt
  | .int32, left, right => (left.setWidth 32 - right.setWidth 32).toInt
  | .uint32, left, right => (left.setWidth 32 - right.setWidth 32).toNat
  | .int64, left, right => (left - right).toInt

/-- The bytes of a number. -/
def NumberTypeOpt.width : NumberTypeOpt → Nat
  | .int16 => 2
  | .int32 => 4
  | .uint32 => 4
  | .int64 => 8

/-- The number types by their oids (`g_number_types`). -/
def gNumberTypes : List (Nat × NumberTypeOpt) :=
  [(20, .int64), (21, .int16), (23, .int32), (26, .uint32), (1082, .int32), (1083, .int64),
    (1114, .int64), (1184, .int64), (12089, .int64)]

/-- The functions of a type, if it is a number type (`binarySearch`). -/
def numTypeOpt (typeOid : Nat) : Option NumberTypeOpt := gNumberTypes.lookup typeOid

/-- A method of compression (`CMPR_NONE` and so on). -/
inductive CmprMode where
  | cmprNone
  | cmprDelta
  | cmprDict
  | cmprPrefix
  | cmprNumstr
  | cmprUndef
  deriving DecidableEq

/-- The byte of a method. -/
def CmprMode.byte : CmprMode → UInt8
  | .cmprNone => 0
  | .cmprDelta => 1
  | .cmprDict => 2
  | .cmprPrefix => 3
  | .cmprNumstr => 4
  | .cmprUndef => 0x7F

/-- Whether a hint is allowed for a type of a length (`VerifyAttrCompressMode`). -/
def verifyAttrCompressMode (mode : CmprMode) (attlen : Int) : Bool :=
  match mode with
  | .cmprDelta => decide (0 < attlen ∧ attlen ≤ 8)
  | .cmprPrefix => decide (attlen = -1 ∨ attlen = -2)
  | .cmprNumstr => decide (attlen = -1 ∨ attlen = -2)
  | _ => true

/-- The alignment of a type (`attalign`). -/
inductive AttAlign where
  | char
  | short
  | int
  | double
  deriving DecidableEq

/-- The bytes of an alignment. -/
def AttAlign.width : AttAlign → Nat
  | .char => 1
  | .short => 2
  | .int => 4
  | .double => 8

/-- What the catalog says of a column (`FormData_pg_attribute`). -/
structure FormPgAttribute where
  atttypid : Nat
  /-- The length of the type; -1 for `varlena` and -2 for C strings. -/
  attlen : Int
  attalign : AttAlign
  /-- Whether values keep their form in a tuple (`attstorage` is `p`). -/
  plainStorage : Bool
  attcmprmode : CmprMode
  verified : verifyAttrCompressMode attcmprmode attlen = true
  numberLen : ∀ opt ∈ numTypeOpt atttypid, attlen = opt.width
  deriving DecidableEq

/-- Whether a column was dropped (`isAttrDropped`). -/
def FormPgAttribute.isAttrDropped (attr : FormPgAttribute) : Bool := attr.atttypid == 0

/-- The values of a column, with the nulls (`ColArray`). -/
abbrev ColArray := List (Option Datum)

/-- The values that are not null. -/
def ColArray.present (colArray : ColArray) : List Datum := colArray.filterMap id

/-- Count the bits from a limit on (the loop of `getBitsOfDelta`). -/
def bitsFrom (delta : Nat) : Nat → Nat → Nat → Nat
  | 0, _, count => count
  | fuel + 1, limit, count =>
    if limit < delta then bitsFrom delta fuel (limit * 2) (count + 1) else count

/-- The bits for a distance (`getBitsOfDelta`). -/
def getBitsOfDelta (delta : Nat) : Nat :=
  if (2 ^ 64 - 1) / 2 < delta then 64 else bitsFrom delta 64 1 0

/-- The bytes of a number of bits (`getSizeOfBits`). -/
def getSizeOfBits (bits : Nat) : Nat := (bits + 7) / 8

/-- The base value, the largest value and the bytes of a distance (`DeltaCmprMeta`). -/
structure DeltaCmprMeta where
  minVal : BitVec 64
  maxVal : BitVec 64
  bytes : Nat
  deriving DecidableEq

/-- Widen a range of values by one more. -/
def NumberTypeOpt.widen (opt : NumberTypeOpt) (range : BitVec 64 × BitVec 64)
    (value : BitVec 64) : BitVec 64 × BitVec 64 :=
  if 0 < opt.compare range.1 value then (value, range.2)
  else if opt.compare range.2 value < 0 then (range.1, value)
  else range

/-- The entries of `g_max_value_in_bytes`. -/
def gNumberMaxValueInBytes : Nat := 8

/-- The base value of a column and the bytes of a distance (`DeltaGetCmprMeta`). -/
def deltaGetCmprMeta (colArray : ColArray) (opt : NumberTypeOpt) : Option DeltaCmprMeta :=
  match colArray.present.map Datum.word with
  | [] => none
  | first :: rest =>
    let range := rest.foldl opt.widen (first, first)
    let diff := opt.minus range.2 range.1
    let bytes := getSizeOfBits (getBitsOfDelta (diff % 2 ^ 64).toNat)
    if gNumberMaxValueInBytes ≤ bytes then none else some ⟨range.1, range.2, bytes⟩

/-- The key of a value in a dictionary, whose length is the size of the item (`FillHashKey`). -/
def fillHashKey (attlen : Int) : Datum → List UInt8
  | .byVal word => leBytes attlen.toNat word.toNat
  | .byRef data => data
  | .varlena value => value.bytes
  | .cstring value => value.chars ++ [0]

/-- How often a value was met and whether it was chosen (`DictItemEntry`). -/
structure DictItemEntry where
  hitCount : Nat
  beChoose : Bool

/-- The items of a dictionary (`DictCmprMeta`). -/
structure DictCmprMeta where
  dictItems : List (List UInt8)
  deriving DecidableEq

/-- How often a value has to be met to be chosen. -/
def dictThreshold (num : Nat) : Nat := max (num / 10) 3

/-- The largest number of items (`MAX_DICITEMID`). -/
def maxDictItemId : Nat := 256

/-- Count the keys and collect those that repeat often enough (the loop of `DictGetCmprMeta`). -/
def chooseItems (num : Nat) :
    List (List UInt8) → (List UInt8 → Option DictItemEntry) → List (List UInt8) → List (List UInt8)
  | [], _, items => items
  | key :: rest, table, items =>
    match table key with
    | none => chooseItems num rest (update table key (some ⟨1, false⟩)) items
    | some entry =>
      if !entry.beChoose && decide (dictThreshold num ≤ entry.hitCount + 1) then
        if maxDictItemId ≤ (items ++ [key]).length then items ++ [key]
        else
          chooseItems num rest (update table key (some ⟨entry.hitCount + 1, true⟩))
            (items ++ [key])
      else
        chooseItems num rest
          (update table key (some ⟨entry.hitCount + 1, entry.beChoose⟩)) items

/-- The failures after which a dictionary is not tried again (`DICT_MISS_THRESHOLD`). -/
def dictMissThreshold : Nat := 2

/-- The dictionary of a column, and the count of failures (`DictGetCmprMeta`). -/
def dictGetCmprMeta (colArray : ColArray) (attlen : Int) (dictMiss : Nat) :
    Option DictCmprMeta × Nat :=
  if dictMissThreshold < dictMiss then (none, dictMiss)
  else
    match chooseItems colArray.length (colArray.present.map (fillHashKey attlen))
      (fun _ => none) [] with
    | [] => (none, dictMiss + 1)
    | items => (some ⟨items⟩, dictMiss)

/-- The length of the shared start of two strings (`PrefixLen`). -/
def prefixLen : List UInt8 → List UInt8 → Nat
  | left :: lefts, right :: rights => if left = right then prefixLen lefts rights + 1 else 0
  | _, _ => 0

/-- Compare each string with its neighbour and keep the shortest shared start that is not empty (the
loop of `PrefixGetCmprMeta`). -/
def shortenStart : List UInt8 → List (List UInt8) → Nat → Nat
  | _, [], length => length
  | prev, next :: rest, length =>
    let len := prefixLen prev next
    shortenStart next rest (if len < length ∧ 0 < len then len else length)

/-- The shared start of a column; it is empty if there is none (`PrefixGetCmprMeta`). -/
def prefixGetCmprMeta (colArray : ColArray) : List UInt8 :=
  match colArray.present.map Datum.contents with
  | first :: second :: rest =>
    if prefixLen first second = 0 then []
    else first.take (shortenStart second rest (prefixLen first second))
  | _ => []

/-- Whether a character is a digit (`isDigital`). -/
def isDigital (char : UInt8) : Bool := 48 ≤ char && char ≤ 57

/-- Look at strings that are not empty until three were digits or one was not (the loop of
`NumstrEvaluate`). -/
def evaluateDigits : List (List UInt8) → Nat → Bool
  | [], numStr => numStr != 0
  | string :: rest, numStr =>
    if string.length = 0 then evaluateDigits rest numStr
    else if string.all isDigital = false then false
    else if 2 < numStr + 1 then true
    else evaluateDigits rest (numStr + 1)

/-- Whether a column looks like numbers (`NumstrEvaluate`). -/
def numstrEvaluate (colArray : ColArray) : Bool :=
  evaluateDigits (colArray.present.map Datum.contents) 0

section Distances

/-- The distances between numbers need fewer bytes than a number. -/
def DeltaFits (opt : NumberTypeOpt) (words : List (BitVec 64)) : Prop :=
  words ≠ [] ∧ ∀ low ∈ words, ∀ high ∈ words,
    opt.number high - opt.number low ≤ 2 ^ (8 * (opt.width - 1))

instance (opt : NumberTypeOpt) (words : List (BitVec 64)) : Decidable (DeltaFits opt words) :=
  inferInstanceAs (Decidable (_ ∧ _))

/-- The count of bits is bounded exactly if the distance is. -/
theorem bitsFrom_le (delta bound : Nat) : ∀ fuel count, delta ≤ 2 ^ (count + fuel) →
    (bitsFrom delta fuel (2 ^ count) count ≤ bound ↔ count ≤ bound ∧ delta ≤ 2 ^ bound)
  | 0, count, enough => by
    rw [bitsFrom]
    constructor
    · intro low
      exact ⟨low, enough.trans (Nat.pow_le_pow_right (by omega) low)⟩
    · exact fun within => within.1
  | fuel + 1, count, enough => by
    rw [bitsFrom]
    by_cases longer : 2 ^ count < delta
    · rw [if_pos longer, ← Nat.pow_succ,
        bitsFrom_le delta bound fuel (count + 1) (by rwa [show count + 1 + fuel =
          count + (fuel + 1) by omega])]
      constructor
      · exact fun within => ⟨by omega, within.2⟩
      · rintro ⟨low, within⟩
        have apart : count ≠ bound := by
          rintro rfl
          omega
        exact ⟨by omega, within⟩
    · rw [if_neg longer]
      constructor
      · intro low
        exact ⟨low, (by omega : delta ≤ 2 ^ count).trans (Nat.pow_le_pow_right (by omega) low)⟩
      · exact fun within => within.1

theorem getBitsOfDelta_le (delta bound : Nat) (narrow : bound ≤ 62) :
    getBitsOfDelta delta ≤ bound ↔ delta ≤ 2 ^ bound := by
  have small : 2 ^ bound ≤ 2 ^ 62 := Nat.pow_le_pow_right (by omega) narrow
  unfold getBitsOfDelta
  by_cases huge : (2 ^ 64 - 1) / 2 < delta
  · rw [if_pos huge]
    omega
  · rw [if_neg huge]
    have exact := bitsFrom_le delta bound 64 0 (by omega)
    rw [Nat.pow_zero] at exact
    rw [exact]
    simp

/-- A difference is small exactly if the numbers are near. -/
theorem NumberTypeOpt.minus_le (opt : NumberTypeOpt) {low high : BitVec 64}
    (ordered : opt.number low ≤ opt.number high) :
    (opt.minus high low % 2 ^ 64).toNat ≤ 2 ^ (8 * (opt.width - 1)) ↔
      opt.number high - opt.number low ≤ 2 ^ (8 * (opt.width - 1)) := by
  cases opt with
  | int16 =>
    simp only [NumberTypeOpt.number, NumberTypeOpt.minus, NumberTypeOpt.width] at *
    have lowest := BitVec.le_toInt (low.setWidth 16)
    have highest := BitVec.toInt_lt (x := high.setWidth 16)
    omega
  | int32 =>
    simp only [NumberTypeOpt.number, NumberTypeOpt.minus, NumberTypeOpt.width,
      BitVec.toInt_sub] at *
    have lowest := BitVec.le_toInt (low.setWidth 32)
    have highest := BitVec.toInt_lt (x := high.setWidth 32)
    rw [Int.bmod_def]
    split <;> omega
  | uint32 =>
    simp only [NumberTypeOpt.number, NumberTypeOpt.minus, NumberTypeOpt.width,
      BitVec.toNat_sub] at *
    omega
  | int64 =>
    simp only [NumberTypeOpt.number, NumberTypeOpt.minus, NumberTypeOpt.width,
      BitVec.toInt_sub] at *
    have lowest := BitVec.le_toInt low
    have highest := BitVec.toInt_lt (x := high)
    rw [Int.bmod_def]
    split <;> omega

/-- A range between two of the values it covers. -/
structure Covers (opt : NumberTypeOpt) (range : BitVec 64 × BitVec 64)
    (words : List (BitVec 64)) : Prop where
  low : range.1 ∈ words
  high : range.2 ∈ words
  within : ∀ word ∈ words, opt.number range.1 ≤ opt.number word ∧
    opt.number word ≤ opt.number range.2

/-- A range widened by a value covers it. -/
theorem NumberTypeOpt.widen_covers (opt : NumberTypeOpt) {range : BitVec 64 × BitVec 64}
    {words : List (BitVec 64)} (value : BitVec 64) (covers : Covers opt range words) :
    Covers opt (opt.widen range value) (words ++ [value]) := by
  have ordered := (covers.within range.1 covers.low).2
  have below : 0 < opt.compare range.1 value ↔ opt.number value < opt.number range.1 := by
    unfold NumberTypeOpt.compare
    split_ifs <;> omega
  have above : opt.compare range.2 value < 0 ↔ opt.number range.2 < opt.number value := by
    unfold NumberTypeOpt.compare
    split_ifs <;> omega
  have kept : ∀ word ∈ words, word ∈ words ++ [value] := by simp +contextual
  unfold NumberTypeOpt.widen
  split_ifs with lower higher
  · refine ⟨by simp, kept _ covers.high, fun word member => ?_⟩
    rcases mem_append.mp member with old | new
    · have bounds := covers.within word old
      dsimp only
      omega
    · rw [mem_singleton.mp new]
      dsimp only
      omega
  · refine ⟨kept _ covers.low, by simp, fun word member => ?_⟩
    rcases mem_append.mp member with old | new
    · have bounds := covers.within word old
      dsimp only
      omega
    · rw [mem_singleton.mp new]
      dsimp only
      omega
  · refine ⟨kept _ covers.low, kept _ covers.high, fun word member => ?_⟩
    rcases mem_append.mp member with old | new
    · exact covers.within word old
    · rw [mem_singleton.mp new]
      omega

theorem NumberTypeOpt.foldl_widen_covers (opt : NumberTypeOpt) :
    ∀ (rest words : List (BitVec 64)) (range : BitVec 64 × BitVec 64), Covers opt range words →
      Covers opt (rest.foldl opt.widen range) (words ++ rest)
  | [], words, range, covers => by simpa using covers
  | value :: rest, words, range, covers => by
    have next := NumberTypeOpt.foldl_widen_covers opt rest (words ++ [value]) _
      (opt.widen_covers value covers)
    rwa [append_assoc, singleton_append] at next

/-- Deltas are taken exactly if the values are near. -/
theorem deltaGetCmprMeta_fits (colArray : ColArray) (opt : NumberTypeOpt) :
    (∃ info, deltaGetCmprMeta colArray opt = some info ∧ info.bytes < opt.width) ↔
      DeltaFits opt (colArray.present.map Datum.word) := by
  unfold deltaGetCmprMeta DeltaFits
  cases values : colArray.present.map Datum.word with
  | nil => simp
  | cons first rest =>
    have covers : Covers opt (rest.foldl opt.widen (first, first)) (first :: rest) := by
      apply opt.foldl_widen_covers rest [first] (first, first)
      exact ⟨by simp, by simp, by simp⟩
    dsimp only
    generalize rest.foldl opt.widen (first, first) = range at covers ⊢
    have ordered := (covers.within range.1 covers.low).2
    have wide : opt.width ≤ 8 := by cases opt <;> decide
    have positive : 0 < opt.width := by cases opt <;> decide
    have bytes : getSizeOfBits (getBitsOfDelta (opt.minus range.2 range.1 % 2 ^ 64).toNat) <
        opt.width ↔
        opt.number range.2 - opt.number range.1 ≤ 2 ^ (8 * (opt.width - 1)) := by
      rw [← opt.minus_le ordered, ← getBitsOfDelta_le _ (8 * (opt.width - 1)) (by omega)]
      unfold getSizeOfBits
      lia
    generalize getSizeOfBits (getBitsOfDelta (opt.minus range.2 range.1 % 2 ^ 64).toNat) = size
      at bytes ⊢
    have spread : (∀ low ∈ first :: rest, ∀ high ∈ first :: rest,
        opt.number high - opt.number low ≤ 2 ^ (8 * (opt.width - 1))) ↔
        opt.number range.2 - opt.number range.1 ≤ 2 ^ (8 * (opt.width - 1)) := by
      constructor
      · exact fun all => all range.1 covers.low range.2 covers.high
      · intro ends low lowMember high highMember
        have lowest := (covers.within low lowMember).1
        have highest := (covers.within high highMember).2
        omega
    rw [spread, ← bytes]
    unfold gNumberMaxValueInBytes
    constructor
    · rintro ⟨info, found, fewer⟩
      split_ifs at found
      cases found
      exact ⟨by simp, fewer⟩
    · rintro ⟨_, fewer⟩
      rw [if_neg (by omega)]
      exact ⟨_, rfl, fewer⟩

end Distances

section Dictionaries

/-- The keys that repeat often enough for a dictionary. -/
def repeatedKeys (num : Nat) (keys : List (List UInt8)) : List (List UInt8) :=
  keys.dedup.filter (fun key => dictThreshold num ≤ keys.count key)

/-- The counts and the choice after some keys. -/
structure Counted (num : Nat) (seen : List (List UInt8))
    (table : List UInt8 → Option DictItemEntry) (items : List (List UInt8)) : Prop where
  counts : ∀ key, table key =
    if seen.count key = 0 then none else some ⟨seen.count key, decide (key ∈ items)⟩
  nodup : items.Nodup
  chosen : ∀ key, key ∈ items ↔ dictThreshold num ≤ seen.count key

variable (num : Nat)

theorem three_le_dictThreshold : 3 ≤ dictThreshold num := Nat.le_max_right _ _

section

variable {num : Nat} {seen : List (List UInt8)} {table : List UInt8 → Option DictItemEntry}
  {items : List (List UInt8)} (counted : Counted num seen table items)
include counted

/-- There are few items. -/
theorem Counted.few : items.length * dictThreshold num ≤ seen.length := by
  have often : ∀ key ∈ items.toFinset, dictThreshold num ≤ seen.count key := by
    intro key member
    exact (counted.chosen key).mp (mem_toFinset.mp member)
  have thrice := three_le_dictThreshold num
  have inside : items.toFinset ⊆ seen.toFinset := by
    intro key member
    have positive := often key member
    exact mem_toFinset.mpr (count_pos_iff.mp (by omega))
  have total := sum_toFinset_count_eq_length seen
  rw [lawful_beq_subsingleton instBEqOfDecidableEq List.instBEq] at total
  calc items.length * dictThreshold num = items.toFinset.card * dictThreshold num := by
        rw [toFinset_card_of_nodup counted.nodup]
    _ ≤ ∑ key ∈ items.toFinset, seen.count key := by
        have each := Finset.card_nsmul_le_sum _ _ _ often
        rwa [nsmul_eq_mul, Nat.cast_id] at each
    _ ≤ ∑ key ∈ seen.toFinset, seen.count key :=
        Finset.sum_le_sum_of_subset inside
    _ = seen.length := total

/-- One more key is counted. -/
theorem Counted.next (key : List UInt8) {chosen : List (List UInt8)}
    (nodup : chosen.Nodup) (same : ∀ other, other ≠ key → (other ∈ chosen ↔ other ∈ items))
    (here : key ∈ chosen ↔ dictThreshold num ≤ seen.count key + 1) :
    Counted num (seen ++ [key])
      (update table key (some ⟨seen.count key + 1, decide (key ∈ chosen)⟩)) chosen where
  counts other := by
    by_cases equal : other = key
    · subst equal
      simp
    · have unequal : ¬ key = other := fun reverse => equal reverse.symm
      rw [update_of_ne equal, counted.counts other]
      simp [unequal, same other equal]
  nodup := nodup
  chosen other := by
    by_cases equal : other = key
    · subst equal
      simpa using here
    · have unequal : ¬ key = other := fun reverse => equal reverse.symm
      rw [same other equal, counted.chosen other]
      simp [unequal]

end

/-- All keys are counted. -/
theorem chooseItems_counted (num : Nat) (few : num < 768) :
    ∀ (rest seen : List (List UInt8)) (table : List UInt8 → Option DictItemEntry)
      (items : List (List UInt8)), Counted num seen table items →
      seen.length + rest.length ≤ num →
      ∃ final, Counted num (seen ++ rest) final (chooseItems num rest table items)
  | [], seen, table, items, counted, _ => ⟨table, by simpa [chooseItems] using counted⟩
  | key :: rest, seen, table, items, counted, fits => by
    have later : (seen ++ [key]).length + rest.length ≤ num := by
      simp only [length_append, length_cons, length_nil] at fits ⊢
      omega
    have thrice := three_le_dictThreshold num
    rw [show seen ++ key :: rest = (seen ++ [key]) ++ rest by simp, chooseItems, counted.counts key]
    by_cases fresh : seen.count key = 0
    · rw [if_pos fresh]
      apply chooseItems_counted num few rest (seen ++ [key]) _ items _ later
      have unchosen : key ∉ items := by
        rw [counted.chosen key]
        omega
      have next := counted.next key counted.nodup (fun _ _ => Iff.rfl)
        ⟨fun member => absurd member unchosen, fun often => by omega⟩
      simpa only [fresh, decide_eq_false unchosen] using next
    · rw [if_neg fresh]
      dsimp only
      by_cases choose : key ∉ items ∧ dictThreshold num ≤ seen.count key + 1
      · have added := counted.next key (nodup_append.mpr ⟨counted.nodup, nodup_singleton key, by
            intro other member last lastMember
            rw [mem_singleton.mp lastMember]
            rintro rfl
            exact choose.1 member⟩)
          (fun other apart => by simp [apart]) (by simp [choose.2])
        have short := (Nat.mul_le_mul_left _ thrice).trans added.few
        have small : (items ++ [key]).length < maxDictItemId := by
          unfold maxDictItemId
          lia
        rw [if_pos (by simp [choose]), if_neg (by omega)]
        have table : decide (key ∈ items ++ [key]) = true := by simp
        rw [table] at added
        exact chooseItems_counted num few rest (seen ++ [key]) _ _ added later
      · rw [if_neg (by simpa using choose)]
        apply chooseItems_counted num few rest (seen ++ [key]) _ items _ later
        apply counted.next key counted.nodup (fun _ _ => Iff.rfl)
        constructor
        · intro member
          have often := (counted.chosen key).mp member
          omega
        · intro often
          by_contra unchosen
          exact choose ⟨unchosen, often⟩

section

variable (few : num < 768) (keys : List (List UInt8)) (fits : keys.length ≤ num)
include few keys fits

theorem chooseItems_all :
    ∃ final, Counted num keys final (chooseItems num keys (fun _ => none) []) := by
  have thrice := three_le_dictThreshold num
  have start : Counted num [] (fun _ => none) [] := by
    refine ⟨by simp, nodup_nil, fun key => ?_⟩
    rw [count_nil]
    simp only [not_mem_nil, false_iff]
    omega
  have counted := chooseItems_counted num few keys [] _ [] start (by simpa using fits)
  rwa [nil_append] at counted

variable {num}

theorem chooseItems_perm :
    (chooseItems num keys (fun _ => none) []).Perm (repeatedKeys num keys) := by
  have thrice := three_le_dictThreshold num
  obtain ⟨_, counted⟩ := chooseItems_all num few keys fits
  refine (perm_ext_iff_of_nodup counted.nodup ((nodup_dedup keys).filter _)).mpr
    fun key => ?_
  rw [counted.chosen key, mem_filter, mem_dedup, decide_eq_true_eq]
  constructor
  · intro often
    exact ⟨count_pos_iff.mp (by omega), often⟩
  · exact fun repeated => repeated.2

theorem chooseItems_few : (chooseItems num keys (fun _ => none) []).length < 14 := by
  obtain ⟨_, counted⟩ := chooseItems_all num few keys fits
  have total := counted.few
  have thrice := three_le_dictThreshold num
  have tenth : num / 10 ≤ dictThreshold num := Nat.le_max_left _ _
  by_contra many
  have least := Nat.mul_le_mul_right (dictThreshold num) (Nat.le_of_not_lt many)
  lia

end

end Dictionaries

section Strings

/-- The shared starts of neighbours. -/
def neighbourStarts (strings : List (List UInt8)) : List Nat :=
  List.zipWith prefixLen strings strings.tail

/-- The shortest shared start of neighbours that is not empty, if the first two share one. -/
def sharedStart (strings : List (List UInt8)) : Nat :=
  if (neighbourStarts strings).head? = some 0 then 0
  else (((neighbourStarts strings).filter (0 < ·)).min?).getD 0

/-- The first three strings that are not empty are digits, and there is one. -/
def LooksNumeric (strings : List (List UInt8)) : Prop :=
  (strings.filter (· ≠ [])).take 3 ≠ [] ∧
    ∀ string ∈ (strings.filter (· ≠ [])).take 3, ∀ char ∈ string, isDigital char = true

instance (strings : List (List UInt8)) : Decidable (LooksNumeric strings) :=
  inferInstanceAs (Decidable (_ ∧ _))

theorem prefixLen_le : ∀ left right : List UInt8, prefixLen left right ≤ left.length
  | [], _ => by simp [prefixLen]
  | _ :: _, [] => by simp [prefixLen]
  | left :: lefts, right :: rights => by
    have tail := prefixLen_le lefts rights
    rw [prefixLen, length_cons]
    split_ifs <;> omega

theorem shortenStart_eq : ∀ (rest : List (List UInt8)) (prev : List UInt8) (length : Nat),
    shortenStart prev rest length =
      ((List.zipWith prefixLen (prev :: rest) rest).filter (0 < ·)).foldl min length
  | [], prev, length => by simp [shortenStart]
  | next :: rest, prev, length => by
    rw [shortenStart, zipWith_cons_cons, shortenStart_eq rest next]
    by_cases shared : 0 < prefixLen prev next
    · rw [filter_cons_of_pos (by simpa using shared), foldl_cons]
      congr 1
      split_ifs <;> lia
    · rw [filter_cons_of_neg (by simpa using shared), if_neg (by omega)]

theorem shortenStart_le : ∀ (rest : List (List UInt8)) (prev : List UInt8) (length : Nat),
    shortenStart prev rest length ≤ length
  | [], prev, length => by simp [shortenStart]
  | next :: rest, prev, length => by
    have tail := shortenStart_le rest next
      (if prefixLen prev next < length ∧ 0 < prefixLen prev next then prefixLen prev next
        else length)
    rw [shortenStart]
    split_ifs at tail ⊢ <;> omega

/-- The prefix is the shared start. -/
theorem prefixGetCmprMeta_length (colArray : ColArray) :
    (prefixGetCmprMeta colArray).length = sharedStart (colArray.present.map Datum.contents) := by
  unfold prefixGetCmprMeta
  match colArray.present.map Datum.contents with
  | [] => rfl
  | [_] => rfl
  | first :: second :: rest =>
    dsimp only
    unfold sharedStart neighbourStarts
    rw [tail_cons, zipWith_cons_cons, head?_cons]
    by_cases apart : prefixLen first second = 0
    · rw [if_pos apart, if_pos (by rw [apart])]
      rfl
    · have within := prefixLen_le first second
      have shorter := shortenStart_le rest second (prefixLen first second)
      rw [if_neg apart, if_neg (by simpa using apart), length_take,
        Nat.min_eq_left (by omega), filter_cons_of_pos (by simp; omega)]
      exact shortenStart_eq rest second _

/-- Digits are taken exactly if the first strings have them. -/
theorem evaluateDigits_iff : ∀ (strings : List (List UInt8)) (numStr : Nat), numStr < 3 →
    (evaluateDigits strings numStr = true ↔
      (0 < numStr ∨ (strings.filter (· ≠ [])).take (3 - numStr) ≠ []) ∧
        ∀ string ∈ (strings.filter (· ≠ [])).take (3 - numStr), ∀ char ∈ string,
          isDigital char = true)
  | [], numStr, _ => by
    simp [evaluateDigits, Nat.pos_iff_ne_zero]
  | string :: rest, numStr, few => by
    rw [evaluateDigits]
    by_cases empty : string.length = 0
    · rw [if_pos empty, evaluateDigits_iff rest numStr few,
        filter_cons_of_neg (by simpa using empty)]
    · obtain ⟨left, more⟩ : ∃ left, 3 - numStr = left + 1 := ⟨2 - numStr, by lia⟩
      rw [if_neg empty, filter_cons_of_pos (by simpa using empty), more, take_succ_cons,
        forall_mem_cons]
      by_cases digits : string.all isDigital = true
      · have every : ∀ char ∈ string, isDigital char = true := all_eq_true.mp digits
        rw [if_neg (by simp [digits])]
        by_cases last : 2 < numStr + 1
        · have finished : left = 0 := by omega
          rw [if_pos last, finished]
          simpa using every
        · rw [if_neg last, evaluateDigits_iff rest (numStr + 1) (by omega),
            show 3 - (numStr + 1) = left by omega]
          simpa using fun _ => every
      · rw [if_pos (by simpa using digits)]
        have broken : ¬ ∀ char ∈ string, isDigital char = true :=
          fun every => digits (all_eq_true.mpr every)
        simp [broken]

theorem numstrEvaluate_iff (colArray : ColArray) :
    numstrEvaluate colArray = true ↔ LooksNumeric (colArray.present.map Datum.contents) := by
  unfold numstrEvaluate LooksNumeric
  rw [evaluateDigits_iff _ 0 (by omega)]
  simp

end Strings

end OpenGauss.RowCompress
