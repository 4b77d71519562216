import OpenGauss.Hll.StoredData

/-!
# Runs in memory

Setting a register in the runs of an object in memory does what it does on lists. The bytes that
replace a run are built in an array of 5 or 3 bytes, which always has room for them; what is encoded
in a byte always fits it; and they are never fewer than the bytes they replace.
-/
namespace OpenGauss.Hll.Stored

open List OpenGauss.Base

/-- The bytes as numbers. -/
def numbers (bytes : List UInt8) : List Nat := bytes.map UInt8.toNat

/-- The result of an operation on lists, where no result is a reported error. -/
def ofOption {α : Type} : Option α → Except Fault α
  | some value => .ok value
  | none => .error .raised

theorem numbers_ofNat {values : List Nat} (fit : ∀ value ∈ values, value < 256) :
    numbers (values.map UInt8.ofNat) = values := by
  rw [numbers, map_map]
  conv_rhs => rw [← map_id values]
  apply map_congr_left
  intro value member
  exact UInt8.toNat_ofNat_of_lt' (fit value member)

variable (count : Nat) {scratch : Scratch} {size : Nat} {values : List Nat} {object : HllObjectData}
  {bytes : List UInt8}

/-- The search for a register, in memory. -/
theorem registerUnitLoop_backed
    (backed : Backed object bytes) (registerIndex : Nat) (rest : List Nat) :
    ∀ (front : List Nat) (sum : Nat), numbers bytes = front ++ rest →
      registerUnitLoop object registerIndex rest.length front.length sum =
        ofOption (Hll.registerUnitLoop registerIndex rest front.length sum) := by
  induction rest with
  | nil =>
    intro front sum _
    rfl
  | cons byte rest ih =>
    intro front sum split
    have here : (bytes.map UInt8.toNat)[front.length]? = some byte := by
      rw [← numbers, split, getElem?_append_right le_rfl, Nat.sub_self]
      rfl
    have next := ih (front ++ [byte]) (sum + (byteRegisters byte).getD 0) (by
      rw [split, append_assoc]
      rfl)
    rw [length_append, length_singleton] at next
    rw [length_cons, registerUnitLoop, hllGetByte_backed backed here, ok_bind, Hll.registerUnitLoop]
    cases count : byteRegisters byte with
    | none => rfl
    | some current =>
      rw [count, Option.getD_some] at next
      dsimp only
      by_cases found : registerIndex < sum + current
      · rw [if_pos found, if_pos found]
        rfl
      · rw [if_neg found, if_neg found]
        exact next

theorem hllGetRegisterUnit_backed (backed : Backed object bytes) (registerIndex : Nat) :
    hllGetRegisterUnit object registerIndex =
      ofOption (Hll.hllGetRegisterUnit (numbers bytes) registerIndex) := by
  rw [hllGetRegisterUnit, Hll.hllGetRegisterUnit]
  by_cases first : registerIndex = 0
  · rw [if_pos first, if_pos first]
    rfl
  · have loop := registerUnitLoop_backed backed registerIndex (numbers bytes) [] 0 rfl
    rw [numbers, length_map, ← backed.used] at loop
    rw [if_neg first, if_neg first]
    exact loop

/-- What is encoded in a byte fits its 6 bits: 1 to 64 zeros, 1 to 64 times 64 zeros, or one register
with a value from 1 to 64. -/
def InUnits (request : Nat × Nat) : Prop :=
  if request.2 = 0 then
    if 64 ≤ request.1 then 1 ≤ request.1 / 64 ∧ request.1 / 64 ≤ 64
    else 1 ≤ request.1 ∧ request.1 ≤ 64
  else request.1 = 1 ∧ 1 ≤ request.2 ∧ request.2 ≤ 64

/-- A byte of a run is a byte. -/
theorem hllSetSparseByte_lt {count value : Nat} (units : InUnits (count, value)) :
    Hll.hllSetSparseByte count value < 256 := by
  rw [InUnits] at units
  rw [Hll.hllSetSparseByte]
  by_cases zero : value = 0
  · rw [if_pos zero] at units
    rw [if_pos zero]
    by_cases many : 64 ≤ count
    · rw [if_pos many] at units
      have plain : setLongzeroValue count = count / 64 - 1 := Nat.or_zero _
      rw [if_pos many]
      omega
    · have plain : setZeroValue count = count - 1 + 64 := (or_type (count - 1) (by omega)).1
      rw [if_neg many]
      omega
  · rw [if_neg zero] at units
    have plain : setDenseValue value = value - 1 + 128 := (or_type (value - 1) (by omega)).2
    rw [if_neg zero]
    omega

/-- A scratch array of a size that has some bytes in it. -/
structure Written (scratch : Scratch) (size : Nat) (values : List Nat) : Prop where
  size_eq : scratch.newByte.length = size
  index_eq : scratch.index = values.length
  front : scratch.newByte.take scratch.index = values.map UInt8.ofNat
  fit : ∀ value ∈ values, value < 256
  units : ∀ request ∈ scratch.requests, InUnits request
  count : scratch.requests.length = scratch.index

theorem Written.start (size : Nat) : Written (Scratch.start size) size [] :=
  ⟨length_replicate, rfl, rfl, fun _ member => absurd member not_mem_nil,
    fun _ member => absurd member not_mem_nil, rfl⟩

/-- A run is written as a byte. -/
theorem hllSetSparseByte_written
    (written : Written scratch size values) {count value : Nat} (room : values.length < size)
    (units : InUnits (count, value)) :
    ∃ scratch', hllSetSparseByte scratch count value = .ok scratch' ∧
      Written scratch' size (values ++ [Hll.hllSetSparseByte count value]) := by
  have allowed : ¬(value ≠ 0 ∧ count ≠ 1) := by
    rintro ⟨some, other⟩
    rw [InUnits, if_neg some] at units
    exact other units.1
  have index := written.index_eq
  have size_eq := written.size_eq
  have inside : scratch.index + 1 ≤ scratch.newByte.length := by lia
  refine ⟨⟨overwrite scratch.newByte scratch.index [UInt8.ofNat (Hll.hllSetSparseByte count value)],
    scratch.index + 1, scratch.requests ++ [(count, value)]⟩, ?_, ?_⟩
  · rw [hllSetSparseByte, if_neg allowed, writeBytes, length_singleton, if_pos inside, ok_bind]
  · refine ⟨?_, ?_, ?_, ?_, ?_, ?_⟩
    · rw [overwrite_length _ _ _ (by rw [length_singleton]; exact inside)]
      exact size_eq
    · rw [length_append, length_singleton]
      exact congrArg (· + 1) index
    · have taken := take_overwrite_end scratch.newByte scratch.index
        [UInt8.ofNat (Hll.hllSetSparseByte count value)] (by omega)
      rw [length_singleton, written.front] at taken
      rw [map_append]
      exact taken
    · intro other member
      obtain old | new := mem_append.mp member
      · exact written.fit other old
      · rw [mem_singleton.mp new]
        exact hllSetSparseByte_lt units
    · intro request member
      obtain old | new := mem_append.mp member
      · exact written.units request old
      · rw [mem_singleton.mp new]
        exact units
    · rw [length_append, length_singleton]
      exact congrArg (· + 1) written.count

theorem inUnits_few (low : 0 < count) (high : count < 64) : InUnits (count, 0) := by
  rw [InUnits, if_neg (Nat.not_le.mpr high)]
  exact ⟨low, high.le⟩

theorem inUnits_many (low : 64 ≤ count) (high : count < 4160) : InUnits (count, 0) := by
  rw [InUnits]
  lia

theorem inUnits_value {value : Nat} (low : 0 < value) (high : value ≤ 64) : InUnits (1, value) := by
  rw [InUnits, if_neg low.ne']
  exact ⟨rfl, low, high⟩

theorem setZeros_written (written : Written scratch size values) (count : Nat) (few : count < 64)
    (room : values.length < size) : ∃ scratch', setZeros scratch count = .ok scratch' ∧
      Written scratch' size (values ++ if 0 < count then [Hll.hllSetSparseByte count 0] else []) := by
  rw [setZeros]
  by_cases zeros : 0 < count
  · rw [if_pos zeros, if_pos zeros]
    exact hllSetSparseByte_written written room (inUnits_few count zeros few)
  · rw [if_neg zeros, if_neg zeros, append_nil]
    exact ⟨scratch, rfl, written⟩

/-- Zeros are written as two bytes at most. -/
theorem setLongZeros_written
    (written : Written scratch size values) (count : Nat) (many : count < 4160)
    (room : values.length + 2 ≤ size) : ∃ scratch', setLongZeros scratch count = .ok scratch' ∧
      Written scratch' size (values ++ zeroBytes count) := by
  rw [setLongZeros, zeroBytes]
  by_cases long : 64 ≤ count
  · obtain ⟨first, encoded, written'⟩ := hllSetSparseByte_written written (by omega)
      (inUnits_many count long many)
    simp only [if_pos long]
    rw [encoded, ← append_assoc]
    apply setZeros_written written' (count % 64) (Nat.mod_lt _ (by decide))
    rw [length_append, length_singleton]
    omega
  · simp only [if_neg long]
    exact setZeros_written written count (by omega) (by omega)

/-- Zeros take two bytes at most, and one if there are any. -/
theorem zeroBytes_length :
    (zeroBytes count).length ≤ 2 ∧ (0 < count → 0 < (zeroBytes count).length) := by
  rw [zeroBytes, length_append]
  by_cases long : 64 ≤ count
  · rw [if_pos long, if_pos long, length_singleton]
    by_cases left : 0 < count % 64
    · rw [if_pos left, length_singleton]
      omega
    · rw [if_neg left, length_nil]
      omega
  · rw [if_neg long, if_neg long, length_nil]
    by_cases left : 0 < count
    · rw [if_pos left, length_singleton]
      omega
    · rw [if_neg left, length_nil]
      lia

/-- The bytes that replace a run: they were written into a scratch array of a size, they are not fewer
than those they replace, and replacing them is what the operation on lists does. -/
structure Replacement (values : List Nat) (place size : Nat) (bytes : Scratch × Nat)
    (after : List Nat) : Prop where
  written : ∃ insert, Written bytes.1 size insert ∧ insert.length ≤ size ∧ 0 < insert.length ∧
    bytes.2 ≤ insert.length ∧ after = Hll.hllUpdateValue values place insert bytes.2
  inside : place + bytes.2 ≤ values.length

/-- A run of zeros is split, in memory. -/
theorem type2Bytes_backed
    (backed : Backed object bytes) {front back : List Nat} {byte : Nat} (place : Nat) {value : Nat}
    (split : numbers bytes = front ++ byte :: back) (inside : place < byteGetValue byte)
    (low : 0 < value) (high : value ≤ 64) :
    ∃ result, type2Bytes object front.length place value = .ok result ∧
      Replacement (numbers bytes) front.length 3 result
        (Hll.hllUpdateSparseType2 (numbers bytes) front.length place value byte) := by
  have here : (bytes.map UInt8.toNat)[front.length]? = some byte := by
    rw [← numbers, split, getElem?_append_right le_rfl, Nat.sub_self]
    rfl
  have most : byteGetValue byte ≤ 64 := by
    rw [byteGetValue]
    lia
  have right : sub32 (sub32 (byteGetValue byte) place) 1 = byteGetValue byte - place - 1 := by
    rw [sub32_eq _ place (by omega) (by omega), sub32_eq _ _ (by omega) (by omega)]
  obtain ⟨first, left, written1⟩ := setZeros_written (Written.start 3) place (by omega) (by decide)
  have count1 : ([] ++ if 0 < place then [Hll.hllSetSparseByte place 0] else []).length ≤ 1 := by
    by_cases zeros : 0 < place
    · rw [if_pos zeros]
      exact le_rfl
    · rw [if_neg zeros]
      exact Nat.zero_le 1
  obtain ⟨second, dense, written2⟩ := hllSetSparseByte_written written1 (by omega)
    (inUnits_value low high)
  obtain ⟨third, rest, written3⟩ := setZeros_written written2 (byteGetValue byte - place - 1)
    (by omega) (by rw [length_append, length_singleton]; omega)
  refine ⟨(third, 1), ?_, ⟨_, written3, ?_, ?_, ?_, ?_⟩, ?_⟩
  · rw [type2Bytes, hllGetByte_backed backed here, ok_bind, left, ok_bind, dense, ok_bind, right,
      rest, ok_bind]
  · rw [length_append, length_append, length_singleton]
    by_cases zeros : 0 < byteGetValue byte - place - 1
    · rw [if_pos zeros, length_singleton]
      omega
    · rw [if_neg zeros, length_nil]
      omega
  · rw [length_append, length_append, length_singleton]
    lia
  · rw [length_append, length_append, length_singleton]
    lia
  · rw [Hll.hllUpdateSparseType2, nil_append]
  · rw [split, length_append, length_cons]
    omega

/-- A neighbour to the right is absorbed. -/
theorem absorbRight_backed
    (backed : Backed object bytes) (word : bytes.length < 2 ^ 32) {front back : List Nat}
    (byte right : Nat) (split : numbers bytes = front ++ byte :: back) :
    absorbRight object front.length right = .ok (match back with
      | later :: _ => if byteType later = 1 then (2, right + byteGetValue later) else (1, right)
      | [] => (1, right)) := by
  have length : bytes.length = front.length + (back.length + 1) := by
    rw [← length_cons, ← length_append, ← split, numbers, length_map]
  have before : sub32 object.lenUsed 1 = front.length + back.length := by
    rw [backed.used, sub32_eq _ _ (by lia) word]
    lia
  rw [absorbRight, before]
  cases back with
  | nil => exact if_neg (by rw [length_nil]; omega)
  | cons later back =>
    have here : (bytes.map UInt8.toNat)[front.length + 1]? = some later := by
      rw [← numbers, split, getElem?_append_right (Nat.le_add_right _ _), Nat.add_sub_cancel_left]
      rfl
    rw [if_pos (by rw [length_cons]; omega), hllGetByte_backed backed here, ok_bind]
    dsimp only
    by_cases zeros : byteType later = 1
    · rw [if_pos zeros, if_pos zeros]
    · rw [if_neg zeros, if_neg zeros]

/-- The bytes that a run of many zeros becomes. -/
theorem type1Bytes_backed
    (backed : Backed object bytes) (word : bytes.length < 2 ^ 32) {front back : List Nat}
    {byte : Nat} (place : Nat) {value : Nat} (split : numbers bytes = front ++ byte :: back)
    (inside : place < 64 * byteGetValue byte) (low : 0 < value) (high : value ≤ 64) :
    ∃ result, type1Bytes object front.length place value = .ok result ∧
      Replacement (numbers bytes) front.length 5 result
        (Hll.hllUpdateSparseType1 (numbers bytes) front.length place value byte) := by
  have here : (bytes.map UInt8.toNat)[front.length]? = some byte := by
    rw [← numbers, split, getElem?_append_right le_rfl, Nat.sub_self]
    rfl
  have next : (numbers bytes)[front.length + 1]? = back[0]? := by
    rw [split, getElem?_append_right (Nat.le_add_right _ _), Nat.add_sub_cancel_left]
    rfl
  have total : (numbers bytes).length = front.length + (back.length + 1) := by
    rw [split, length_append, length_cons]
  have most : byteGetValue byte ≤ 64 := by
    rw [byteGetValue]
    lia
  have right : sub32 (sub32 (byteGetValue byte * 64) place) 1 =
      byteGetValue byte * 64 - place - 1 := by
    rw [sub32_eq _ place (by omega) (by omega), sub32_eq _ _ (by omega) (by omega)]
  obtain ⟨first, left, written1⟩ := setLongZeros_written (Written.start 5) place (by lia)
    (by decide)
  rw [nil_append] at written1
  have count1 := (zeroBytes_length place).1
  obtain ⟨second, dense, written2⟩ := hllSetSparseByte_written written1 (by omega)
    (inUnits_value low high)
  have count2 : (zeroBytes place ++ [Hll.hllSetSparseByte 1 value]).length =
      (zeroBytes place).length + 1 := by
    rw [length_append, length_singleton]
  -- The zeros on the right and the bytes that are replaced, whichever they are.
  have encode : ∀ origin zeros, zeros < 4160 → (origin = 1 ∨ origin = 2 ∧ 0 < zeros) →
      absorbRight object front.length (byteGetValue byte * 64 - place - 1) = .ok (origin, zeros) →
      front.length + origin ≤ (numbers bytes).length →
      Hll.hllUpdateSparseType1 (numbers bytes) front.length place value byte =
        Hll.hllUpdateValue (numbers bytes) front.length
          (zeroBytes place ++ [Hll.hllSetSparseByte 1 value] ++ zeroBytes zeros) origin →
      ∃ result, type1Bytes object front.length place value = .ok result ∧
        Replacement (numbers bytes) front.length 5 result
          (Hll.hllUpdateSparseType1 (numbers bytes) front.length place value byte) := by
    intro origin zeros many kind absorbed room same
    obtain ⟨third, rest, written3⟩ := setLongZeros_written written2 zeros many (by lia)
    have count3 := zeroBytes_length zeros
    refine ⟨(third, origin), ?_, ⟨_, written3, ?_, ?_, ?_, same⟩, room⟩
    · rw [type1Bytes, hllGetByte_backed backed here, ok_bind, left, ok_bind, dense, ok_bind, right,
        absorbed, ok_bind, rest, ok_bind]
    · rw [length_append]
      lia
    · rw [length_append]
      lia
    · rw [length_append]
      lia
  have absorbed := absorbRight_backed backed word byte (byteGetValue byte * 64 - place - 1) split
  cases back with
  | nil =>
    refine encode 1 _ (by omega) (.inl rfl) absorbed (by lia) ?_
    rw [Hll.hllUpdateSparseType1, next]
    rfl
  | cons later back =>
    have few : byteGetValue later ≤ 64 ∧ 0 < byteGetValue later := by
      rw [byteGetValue]
      lia
    by_cases zeros : byteType later = 1
    · dsimp only at absorbed
      rw [if_pos zeros] at absorbed
      refine encode 2 _ (by omega) (.inr ⟨rfl, by lia⟩) absorbed
        (by rw [length_cons] at total; lia) ?_
      rw [Hll.hllUpdateSparseType1, next]
      simp only [getElem?_cons_zero, if_pos zeros]
    · dsimp only at absorbed
      rw [if_neg zeros] at absorbed
      refine encode 1 _ (by omega) (.inl rfl) absorbed (by lia) ?_
      rw [Hll.hllUpdateSparseType1, next]
      simp only [getElem?_cons_zero, if_neg zeros]

/-- An object after its data was changed: form, parameters and last hash are the same, it is backed by
the new bytes, and memory that was reserved for them is at most 255 bytes too long. -/
structure Changed (before after : HllObjectData) (bytes : List UInt8) : Prop where
  hlltype : after.hlltype = before.hlltype
  hllpara : after.hllpara = before.hllpara
  lastHash : after.lastHash = before.lastHash
  backed : Backed after bytes
  tight : after.lenTotal = before.lenTotal ∨ after.lenTotal ≤ bytes.length + 255

section Estimates

variable (double : DoubleArithmetic)

section

variable {object : HllObjectData} {bytes : List UInt8} (backed : Backed object bytes)
  (word : object.lenTotal < 2 ^ 32) (small : bytes.length + 512 ≤ maxAllocSize)
include backed word small

/-- The scratch bytes are put in place. -/
theorem putScratch_backed {place size : Nat} (few : size ≤ 256)
    {result : Scratch × Nat} {after : List Nat}
    (replacement : Replacement (numbers bytes) place size result after) :
    ∃ object' bytes', putScratch double object place result = .ok object' ∧
      Changed object object' bytes' ∧ numbers bytes' = after := by
  obtain ⟨insert, written, short, filled, grows, same⟩ := replacement.written
  have inside := replacement.inside
  rw [numbers, length_map] at inside
  have whole : bytes.take place ++ (bytes.drop place).take result.2 ++ bytes.drop (place + result.2) =
      bytes := by
    rw [← drop_drop, append_assoc, take_append_drop, take_append_drop]
  have frontLength : (bytes.take place).length = place := length_take_of_le (by lia)
  have originLength : ((bytes.drop place).take result.2).length = result.2 := by
    rw [length_take, length_drop]
    lia
  have insertLength : (insert.map UInt8.ofNat).length = insert.length := length_map _
  obtain ⟨memory, total, updated, backed', -, tight⟩ := hllUpdateValue_backed (bytes.take place)
    ((bytes.drop place).take result.2) (bytes.drop (place + result.2)) (insert.map UInt8.ofNat)
    (by rw [whole]; exact backed) (by lia) (by omega) (by lia) word (by rw [whole]; exact small)
  rw [frontLength, originLength] at updated
  have put : putScratch double object place result = .ok { object with
      hllData := some memory
      lenTotal := total
      lenUsed := (bytes.take place ++ insert.map UInt8.ofNat ++
        bytes.drop (place + result.2)).length
      ndvEstimator := double.minusOne } := by
    rw [putScratch, written.front, updated, ok_bind]
  refine ⟨_, _, put, ⟨rfl, rfl, rfl, ⟨backed'.used, backed'.total, backed'.front⟩, tight⟩, ?_⟩
  have insertNumbers := numbers_ofNat written.fit
  rw [same, Hll.hllUpdateValue, numbers, map_append, map_append, ← numbers, ← numbers,
    ← numbers, insertNumbers]
  simp only [numbers, map_take, map_drop]

/-- Setting a register in the runs of an object in memory. -/
theorem hllUpdateSparseValue_backed {front back : List Nat} {byte : Nat} (place : Nat) {value : Nat}
    (split : numbers bytes = front ++ byte :: back) (used : byteType byte ≤ 2)
    (inside : place < (byteUnits byte).length) (low : 0 < value) (high : value ≤ 64) :
    ∃ object' bytes', hllUpdateSparseValue double object front.length place value = .ok object' ∧
      Changed object object' bytes' ∧
      Hll.hllUpdateSparseValue (numbers bytes) front.length place value = some (numbers bytes') := by
  have here : (bytes.map UInt8.toNat)[front.length]? = some byte := by
    rw [← numbers, split, getElem?_append_right le_rfl, Nat.sub_self]
    rfl
  have listHere : (numbers bytes)[front.length]? = some byte := here
  have bound : bytes.length < 2 ^ 32 := by
    rw [maxAllocSize] at small
    omega
  rw [hllUpdateSparseValue, if_neg low.ne', hllGetByte_backed backed here, ok_bind,
    Hll.hllUpdateSparseValue, listHere]
  dsimp only
  obtain zero | one | two : byteType byte = 0 ∨ byteType byte = 1 ∨ byteType byte = 2 := by lia
  · have run : (byteUnits byte).length = 64 * byteGetValue byte := by
      simp only [byteUnits, zero, length_replicate]
    obtain ⟨result, encoded, replacement⟩ := type1Bytes_backed backed bound place
      split (run ▸ inside) low high
    obtain ⟨object', bytes', put, changed, same⟩ := putScratch_backed double backed word small
       (by decide) replacement
    rw [zero]
    refine ⟨object', bytes', ?_, changed, congrArg some same.symm⟩
    show hllUpdateSparseType1 double object front.length place value = .ok object'
    rw [hllUpdateSparseType1, encoded, ok_bind, put]
  · have run : (byteUnits byte).length = byteGetValue byte := by
      simp only [byteUnits, one, length_replicate]
    obtain ⟨result, encoded, replacement⟩ := type2Bytes_backed backed place
      split (run ▸ inside) low high
    obtain ⟨object', bytes', put, changed, same⟩ := putScratch_backed double backed word small
       (by decide) replacement
    rw [one]
    refine ⟨object', bytes', ?_, changed, congrArg some same.symm⟩
    show hllUpdateSparseType2 double object front.length place value = .ok object'
    rw [hllUpdateSparseType2, encoded, ok_bind, put]
  · rw [two]
    show ∃ object' bytes', hllUpdateSparseType3 double object front.length value = .ok object' ∧
      Changed object object' bytes' ∧
      some (Hll.hllUpdateSparseType3 (numbers bytes) front.length value byte) =
        some (numbers bytes')
    rw [hllUpdateSparseType3, hllGetByte_backed backed here, ok_bind, Hll.hllUpdateSparseType3]
    by_cases smaller : value ≤ byteGetValue byte
    · rw [if_pos smaller, if_pos smaller]
      exact ⟨object, bytes, rfl, ⟨rfl, rfl, rfl, backed, .inl rfl⟩, rfl⟩
    · have place_lt : front.length < bytes.length := by
        have length := congrArg List.length split
        rw [numbers, length_map, length_append, length_cons] at length
        omega
      obtain ⟨memory, stored, backed'⟩ := hllSetByte_backed backed front.length
        (setDenseValue value) place_lt
      have plain := (setDenseValue_units value low high).2.2
      rw [if_neg smaller, if_neg smaller, stored]
      refine ⟨_, bytes.set front.length (UInt8.ofNat (setDenseValue value)), rfl,
        ⟨rfl, rfl, rfl, ⟨backed'.used, backed'.total, backed'.front⟩, .inl rfl⟩, ?_⟩
      rw [numbers, numbers, map_set, UInt8.toNat_ofNat_of_lt' (by
        lia)]

end

end Estimates

end OpenGauss.Hll.Stored
