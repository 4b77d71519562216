import OpenGauss.Hll.Object

/-!
# Registers as runs

A byte of a sparse object stands for a run of zeros or for one register with a value. The module
gives the registers of a list of bytes and proves that every byte the code builds stands for what it
is meant for, that a register is found in the right byte, and that setting a register in the middle of
a run changes this register only.
-/
namespace OpenGauss.Hll

open List

/-- The registers of some bytes. -/
def units (bytes : List Nat) : List Nat := bytes.flatMap byteUnits

/-- The types of some bytes are in use. -/
def UsedTypes (bytes : List Nat) : Prop := ∀ byte ∈ bytes, byteType byte ≤ 2

variable (registerIndex : Nat) (bytes : List Nat) (first second : List Nat) (byte : Nat)
  (count : Nat) (value : Nat) (front back : List Nat)

theorem units_append : units (first ++ second) = units first ++ units second := flatMap_append

theorem units_cons (rest : List Nat) :
    units (byte :: rest) = byteUnits byte ++ units rest := flatMap_cons

theorem units_singleton : units [byte] = byteUnits byte := by
  exact append_nil _

variable {first second}

theorem usedTypes_append (one : UsedTypes first)
    (other : UsedTypes second) : UsedTypes (first ++ second) := by
  intro byte member
  obtain left | right := mem_append.mp member
  · exact one byte left
  · exact other byte right

theorem setLongzeroValue_units (low : 64 ≤ value) (high : value < 4160) :
    byteType (setLongzeroValue value) ≤ 2 ∧
      byteUnits (setLongzeroValue value) = List.replicate (value / 64 * 64) 0 := by
  have plain : setLongzeroValue value = value / 64 - 1 := Nat.or_zero _
  have kind : byteType (setLongzeroValue value) = 0 := by
    rw [byteType]
    lia
  have count : 64 * byteGetValue (setLongzeroValue value) = value / 64 * 64 := by
    rw [byteGetValue]
    lia
  refine ⟨by omega, ?_⟩
  simp only [byteUnits, kind, count]

theorem or_type (small : value < 64) : value ||| 64 = value + 64 ∧ value ||| 128 = value + 128 := by
  have all : ∀ value < 64, value ||| 64 = value + 64 ∧ value ||| 128 = value + 128 := by decide
  exact all value small

theorem setZeroValue_units (low : 0 < value) (high : value ≤ 64) :
    byteType (setZeroValue value) ≤ 2 ∧
      byteUnits (setZeroValue value) = List.replicate value 0 := by
  have plain : setZeroValue value = value - 1 + 64 := (or_type (value - 1) (by omega)).1
  have kind : byteType (setZeroValue value) = 1 := by
    rw [byteType]
    lia
  have count : byteGetValue (setZeroValue value) = value := by
    rw [byteGetValue]
    lia
  refine ⟨by omega, ?_⟩
  simp only [byteUnits, kind, count]

theorem setDenseValue_units (low : 0 < value) (high : value ≤ 64) :
    byteType (setDenseValue value) = 2 ∧ byteUnits (setDenseValue value) = [value] ∧
      setDenseValue value = value + 127 := by
  have plain : setDenseValue value = value - 1 + 128 := (or_type (value - 1) (by omega)).2
  have kind : byteType (setDenseValue value) = 2 := by
    rw [byteType]
    lia
  have count : byteGetValue (setDenseValue value) = value := by
    rw [byteGetValue]
    lia
  refine ⟨kind, ?_, by lia⟩
  simp only [byteUnits, kind, count]

theorem full_units : UsedTypes (List.replicate count 63) ∧
    units (List.replicate count 63) = List.replicate (4096 * count) 0 := by
  constructor
  · intro byte member
    rw [eq_of_mem_replicate member]
    decide
  · induction count with
    | zero => rfl
    | succ count ih =>
      have one : byteUnits 63 = List.replicate 4096 0 := rfl
      rw [replicate_succ, units_cons, ih, one, replicate_append_replicate]
      congr 1
      omega

theorem smallZeros_units (few : count ≤ 64) :
    UsedTypes (if 0 < count then [setZeroValue count] else []) ∧
      units (if 0 < count then [setZeroValue count] else []) = List.replicate count 0 := by
  by_cases some : 0 < count
  · rw [if_pos some, units_singleton]
    obtain ⟨kind, same⟩ := setZeroValue_units count some few
    refine ⟨?_, same⟩
    intro byte member
    rw [mem_singleton.mp member]
    exact kind
  · have none : count = 0 := by omega
    rw [none]
    exact ⟨fun byte member => absurd member not_mem_nil, rfl⟩

theorem longZeros_units (many : count < 4160) :
    UsedTypes (if 64 ≤ count then [setLongzeroValue count] else []) ∧
      units (if 64 ≤ count then [setLongzeroValue count] else []) =
        List.replicate (count / 64 * 64) 0 := by
  by_cases some : 64 ≤ count
  · rw [if_pos some, units_singleton]
    obtain ⟨kind, same⟩ := setLongzeroValue_units count some many
    refine ⟨?_, same⟩
    intro byte member
    rw [mem_singleton.mp member]
    exact kind
  · have none : count / 64 * 64 = 0 := by lia
    rw [if_neg some, none]
    exact ⟨fun byte member => absurd member not_mem_nil, rfl⟩

theorem left_zeros : (if 64 ≤ count then count % 64 else count) = count % 64 := by
  by_cases some : 64 ≤ count
  · rw [if_pos some]
  · rw [if_neg some, Nat.mod_eq_of_lt (by omega)]

/-- A short run of zeros. -/
theorem zeroBytes_units (many : count < 4160) :
    UsedTypes (zeroBytes count) ∧ units (zeroBytes count) = List.replicate count 0 := by
  have shape : zeroBytes count = (if 64 ≤ count then [setLongzeroValue count] else []) ++
      if 0 < count % 64 then [setZeroValue (count % 64)] else [] := by
    have small : ¬64 ≤ count % 64 := by omega
    rw [zeroBytes, left_zeros]
    by_cases some : 64 ≤ count
    · simp only [hllSetSparseByte, some, small, ↓reduceIte]
    · simp only [hllSetSparseByte, some, small, ↓reduceIte]
  obtain ⟨longTypes, long⟩ := longZeros_units count many
  obtain ⟨smallTypes, small⟩ := smallZeros_units (count % 64) (by omega)
  rw [shape]
  refine ⟨usedTypes_append longTypes smallTypes, ?_⟩
  rw [units_append, long, small, replicate_append_replicate]
  congr 1
  lia

/-- A run of zeros of any length. -/
theorem hllSetSparseZero_units (zerocount : Nat) : UsedTypes (hllSetSparseZero zerocount) ∧
      units (hllSetSparseZero zerocount) = List.replicate zerocount 0 := by
  rw [hllSetSparseZero, left_zeros]
  obtain ⟨longTypes, long⟩ := longZeros_units (if 64 ≤ zerocount then zerocount % 4096 else zerocount)
    (by
      by_cases some : 64 ≤ zerocount
      · rw [if_pos some]
        omega
      · rw [if_neg some]
        omega)
  obtain ⟨smallTypes, small⟩ := smallZeros_units
    ((if 64 ≤ zerocount then zerocount % 4096 else zerocount) % 64) (by grind)
  obtain ⟨fullTypes, full⟩ := full_units (zerocount / 4096)
  have front : UsedTypes (if 64 ≤ zerocount then List.replicate (zerocount / 4096) 63 else []) ∧
      units (if 64 ≤ zerocount then List.replicate (zerocount / 4096) 63 else []) =
        List.replicate (4096 * (zerocount / 4096)) 0 := by
    by_cases some : 64 ≤ zerocount
    · rw [if_pos some]
      exact ⟨fullTypes, full⟩
    · have none : 4096 * (zerocount / 4096) = 0 := by lia
      rw [if_neg some, none]
      exact ⟨fun byte member => absurd member not_mem_nil, rfl⟩
  refine ⟨usedTypes_append (usedTypes_append front.1 longTypes) smallTypes, ?_⟩
  rw [units_append, units_append, front.2, long, small, replicate_append_replicate,
    replicate_append_replicate]
  congr 1
  by_cases some : 64 ≤ zerocount
  · rw [if_pos some]
    omega
  · rw [if_neg some]
    lia

/-- An empty object has zeros only. -/
theorem hllEmptyToSparse_units (para : HllPara) (low : 10 ≤ para.log2Registers)
    (high : para.log2Registers ≤ 16) : UsedTypes (hllEmptyToSparse para) ∧
      units (hllEmptyToSparse para) = List.replicate para.registers 0 := by
  rw [hllEmptyToSparse]
  by_cases large : 0 < para.log2Registers - 6 - 6
  · rw [if_pos large]
    have several : 1 < 2 ^ (para.log2Registers - 6 - 6) := Nat.one_lt_two_pow (by omega)
    rw [if_pos several]
    obtain ⟨types, same⟩ := full_units (2 ^ (para.log2Registers - 6 - 6))
    refine ⟨types, ?_⟩
    rw [same, HllPara.registers]
    congr 1
    calc
      4096 * 2 ^ (para.log2Registers - 6 - 6) = 2 ^ 12 * 2 ^ (para.log2Registers - 6 - 6) := rfl
      _ = 2 ^ (12 + (para.log2Registers - 6 - 6)) := (Nat.pow_add _ _ _).symm
      _ = 2 ^ para.log2Registers := by
        congr 1
        omega
  · rw [if_neg large, if_neg (by decide), units_singleton]
    have size : para.registers = 64 * 2 ^ (para.log2Registers - 6) := by
      calc
        para.registers = 2 ^ (6 + (para.log2Registers - 6)) := by
          rw [HllPara.registers]
          congr 1
          lia
        _ = 2 ^ 6 * 2 ^ (para.log2Registers - 6) := Nat.pow_add _ _ _
    have most : 2 ^ (para.log2Registers - 6) ≤ 2 ^ 6 := Nat.pow_le_pow_right (by decide) (by omega)
    have least : 0 < 2 ^ (para.log2Registers - 6) := Nat.two_pow_pos _
    obtain ⟨kind, same⟩ := setLongzeroValue_units para.registers (by lia) (by omega)
    constructor
    · intro byte member
      rw [mem_singleton.mp member]
      exact kind
    · rw [same]
      congr 1
      lia

theorem byteRegisters_units (used : byteType byte ≤ 2) :
    byteRegisters byte = some (byteUnits byte).length := by
  rw [byteRegisters, byteUnits]
  obtain zero | one | two : byteType byte = 0 ∨ byteType byte = 1 ∨ byteType byte = 2 := by lia
  · simp only [zero, length_replicate]
  · simp only [one, length_replicate]
  · simp only [two, length_singleton]

/-- The loop finds the byte that has a register. -/
theorem registerUnitLoop_finds (position sum : Nat)
    (used : UsedTypes bytes) (low : sum ≤ registerIndex)
    (high : registerIndex < sum + (units bytes).length) :
    ∃ front byte back, bytes = front ++ byte :: back ∧ sum + (units front).length ≤ registerIndex ∧
      registerIndex < sum + (units front).length + (byteUnits byte).length ∧
      registerUnitLoop registerIndex bytes position sum =
        some (position + front.length, registerIndex - (sum + (units front).length)) := by
  induction bytes generalizing position sum with
  | nil =>
    have none : (units []).length = 0 := rfl
    omega
  | cons byte rest ih =>
    rw [registerUnitLoop, byteRegisters_units byte (used byte mem_cons_self)]
    dsimp only
    by_cases here : registerIndex < sum + (byteUnits byte).length
    · rw [if_pos here]
      exact ⟨[], byte, rest, rfl, low, here, rfl⟩
    · rw [if_neg here]
      rw [units_cons, length_append] at high
      obtain ⟨front, found, back, split, above, below, result⟩ := ih (position + 1)
        (sum + (byteUnits byte).length) (fun other member => used other (mem_cons_of_mem _ member))
        (by omega) (by omega)
      refine ⟨byte :: front, found, back, ?_, ?_, ?_, ?_⟩
      · rw [split, cons_append]
      · rw [units_cons, length_append]
        lia
      · rw [units_cons, length_append]
        omega
      · rw [result, units_cons, length_append, length_cons]
        congr 2
        · lia
        · lia

theorem byteUnits_pos (used : byteType byte ≤ 2) : 0 < (byteUnits byte).length := by
  rw [byteUnits]
  obtain zero | one | two : byteType byte = 0 ∨ byteType byte = 1 ∨ byteType byte = 2 := by lia
  · simp only [zero, length_replicate, byteGetValue]
    lia
  · simp only [one, length_replicate, byteGetValue]
    omega
  · simp only [two, length_singleton]
    omega

/-- The byte of a register is found. -/
theorem hllGetRegisterUnit_finds (registerIndex : Nat) (used : UsedTypes bytes)
    (inside : registerIndex < (units bytes).length) :
    ∃ front byte back, bytes = front ++ byte :: back ∧ (units front).length ≤ registerIndex ∧
      registerIndex < (units front).length + (byteUnits byte).length ∧
      hllGetRegisterUnit bytes registerIndex =
        some (front.length, registerIndex - (units front).length) := by
  rw [hllGetRegisterUnit]
  by_cases first : registerIndex = 0
  · rw [if_pos first, first]
    cases bytes with
    | nil =>
      have none : (units []).length = 0 := rfl
      omega
    | cons byte rest =>
      refine ⟨[], byte, rest, rfl, le_rfl, ?_, rfl⟩
      have some := byteUnits_pos byte (used byte mem_cons_self)
      have none : (units []).length = 0 := rfl
      omega
  · rw [if_neg first]
    obtain ⟨front, byte, back, split, low, high, result⟩ := registerUnitLoop_finds registerIndex bytes
      0 0 used (Nat.zero_le _) (by omega)
    rw [Nat.zero_add] at low high
    rw [Nat.zero_add, Nat.zero_add] at result
    exact ⟨front, byte, back, split, low, high, result⟩

theorem set_zeros (count place value : Nat) (inside : place < count) :
    (front ++ List.replicate count 0 ++ back).set (front.length + place) value =
      front ++ (List.replicate place 0 ++ [value] ++ List.replicate (count - place - 1) 0) ++ back := by
  have split : List.replicate count 0 =
      List.replicate place 0 ++ 0 :: List.replicate (count - place - 1) (0 : Nat) := by
    rw [← replicate_succ, replicate_append_replicate]
    congr 1
    omega
  rw [split]
  simp only [append_assoc, cons_append, nil_append]
  rw [set_append_right _ _ (by omega), Nat.add_sub_cancel_left,
    set_append_right _ _ (by rw [length_replicate]), length_replicate, Nat.sub_self,
    set_cons_zero]

theorem hllUpdateValue_split (front origin back insert : List Nat) :
    hllUpdateValue (front ++ (origin ++ back)) front.length insert origin.length =
      front ++ insert ++ back := by
  rw [hllUpdateValue, take_left, ← drop_drop, drop_left, drop_left]

theorem hllSetSparseByte_dense (low : 0 < value) (high : value ≤ 64) :
    UsedTypes [hllSetSparseByte 1 value] ∧ units [hllSetSparseByte 1 value] = [value] := by
  have same : hllSetSparseByte 1 value = setDenseValue value := if_neg low.ne'
  obtain ⟨kind, dense, -⟩ := setDenseValue_units value low high
  rw [same, units_singleton]
  refine ⟨?_, dense⟩
  intro byte member
  rw [mem_singleton.mp member, kind]

theorem replaced_units {front back insert : List Nat} {count place value : Nat}
    (inside : place < count) (used : UsedTypes front ∧ UsedTypes back) (types : UsedTypes insert)
    (same : units insert = List.replicate place 0 ++ [value] ++ List.replicate (count - place - 1) 0) :
    UsedTypes (front ++ insert ++ back) ∧ units (front ++ insert ++ back) =
        (units front ++ List.replicate count 0 ++ units back).set ((units front).length + place)
          value := by
  refine ⟨usedTypes_append (usedTypes_append used.1 types) used.2, ?_⟩
  rw [units_append, units_append, same, set_zeros (units front) (units back) count place value inside]

theorem getD_zeros {count place : Nat} (inside : place < count) :
    (front ++ List.replicate count 0 ++ back).getD (front.length + place) 0 = 0 := by
  rw [append_assoc, getD_eq_getElem?_getD,
    getElem?_append_right (Nat.le_add_right _ _), Nat.add_sub_cancel_left,
    getElem?_append_left (by rw [length_replicate]; exact inside),
    getElem?_replicate_of_lt inside]
  rfl

theorem replaced_max {front back insert old : List Nat} (count : Nat) {place value : Nat}
    (inside : place < count) (used : UsedTypes front ∧ UsedTypes back) (types : UsedTypes insert)
    (same : units insert = List.replicate place 0 ++ [value] ++ List.replicate (count - place - 1) 0)
    (shape : units old = units front ++ List.replicate count 0 ++ units back) :
    UsedTypes (front ++ insert ++ back) ∧
      units (front ++ insert ++ back) = (units old).set ((units front).length + place)
        (max value ((units old).getD ((units front).length + place) 0)) := by
  rw [shape, getD_zeros (units front) (units back) inside, Nat.max_zero]
  exact replaced_units inside used types same

/-- An update splits a run of zeros. -/
theorem hllUpdateSparseType2_units {byte place value : Nat}
    (frontUsed : UsedTypes front) (backUsed : UsedTypes back) (kind : byteType byte = 1)
    (inside : place < (byteUnits byte).length) (low : 0 < value) (high : value ≤ 64) :
    UsedTypes (hllUpdateSparseType2 (front ++ byte :: back) front.length place value byte) ∧
      units (hllUpdateSparseType2 (front ++ byte :: back) front.length place value byte) =
        (units (front ++ byte :: back)).set ((units front).length + place)
          (max value ((units (front ++ byte :: back)).getD ((units front).length + place) 0)) := by
  obtain ⟨denseType, dense⟩ := hllSetSparseByte_dense value low high
  have run : byteUnits byte = List.replicate (byteGetValue byte) 0 := by
    simp only [byteUnits, kind]
  have most : byteGetValue byte ≤ 64 := by
    rw [byteGetValue]
    lia
  rw [run, length_replicate] at inside
  have small : ∀ count, count < 64 → (if 0 < count then [hllSetSparseByte count 0] else []) =
        if 0 < count then [setZeroValue count] else [] := by
    intro count few
    have short : ¬64 ≤ count := by omega
    simp only [hllSetSparseByte, short, ↓reduceIte]
  obtain ⟨leftType, left⟩ := smallZeros_units place (by omega)
  obtain ⟨rightType, right⟩ := smallZeros_units (byteGetValue byte - place - 1) (by omega)
  have shape := hllUpdateValue_split front [byte] back
    ((if 0 < place then [hllSetSparseByte place 0] else []) ++ [hllSetSparseByte 1 value] ++
      if 0 < byteGetValue byte - place - 1 then [hllSetSparseByte (byteGetValue byte - place - 1) 0]
      else [])
  rw [hllUpdateSparseType2]
  rw [singleton_append, length_singleton] at shape
  rw [shape, small place (by omega), small (byteGetValue byte - place - 1) (by omega)]
  apply replaced_max (byteGetValue byte) inside ⟨frontUsed, backUsed⟩
  · exact usedTypes_append (usedTypes_append leftType denseType) rightType
  · rw [units_append, units_append, left, dense, right]
  · rw [units_append, units_cons, run, append_assoc]

/-- Setting a register in a run of many zeros. -/
theorem hllUpdateSparseType1_units {byte place value : Nat}
    (frontUsed : UsedTypes front) (backUsed : UsedTypes back) (kind : byteType byte = 0)
    (inside : place < (byteUnits byte).length) (low : 0 < value) (high : value ≤ 64) :
    UsedTypes (hllUpdateSparseType1 (front ++ byte :: back) front.length place value byte) ∧
      units (hllUpdateSparseType1 (front ++ byte :: back) front.length place value byte) =
        (units (front ++ byte :: back)).set ((units front).length + place)
          (max value ((units (front ++ byte :: back)).getD ((units front).length + place) 0)) := by
  obtain ⟨denseType, dense⟩ := hllSetSparseByte_dense value low high
  have run : byteUnits byte = List.replicate (64 * byteGetValue byte) 0 := by
    simp only [byteUnits, kind]
  have most : byteGetValue byte ≤ 64 := by
    rw [byteGetValue]
    lia
  rw [run, length_replicate] at inside
  obtain ⟨leftType, left⟩ := zeroBytes_units place (by omega)
  -- The run without the byte behind it.
  have alone : UsedTypes (hllUpdateValue (front ++ byte :: back) front.length (zeroBytes place ++
      [hllSetSparseByte 1 value] ++ zeroBytes (byteGetValue byte * 64 - place - 1)) 1) ∧
      units (hllUpdateValue (front ++ byte :: back) front.length (zeroBytes place ++
        [hllSetSparseByte 1 value] ++ zeroBytes (byteGetValue byte * 64 - place - 1)) 1) =
        (units (front ++ byte :: back)).set ((units front).length + place)
          (max value ((units (front ++ byte :: back)).getD ((units front).length + place) 0)) := by
    obtain ⟨rightType, right⟩ := zeroBytes_units (byteGetValue byte * 64 - place - 1) (by omega)
    have shape := hllUpdateValue_split front [byte] back (zeroBytes place ++
      [hllSetSparseByte 1 value] ++ zeroBytes (byteGetValue byte * 64 - place - 1))
    rw [singleton_append, length_singleton] at shape
    rw [shape]
    apply replaced_max (64 * byteGetValue byte) inside ⟨frontUsed, backUsed⟩
    · exact usedTypes_append (usedTypes_append leftType denseType) rightType
    · rw [units_append, units_append, left, dense, right, Nat.mul_comm]
    · rw [units_append, units_cons, run, append_assoc]
  have next : (front ++ byte :: back)[front.length + 1]? = back[0]? := by
    rw [getElem?_append_right (Nat.le_add_right _ _), Nat.add_sub_cancel_left]
    rfl
  rw [hllUpdateSparseType1, next]
  cases back with
  | nil => exact alone
  | cons later back =>
    simp only [getElem?_cons_zero]
    by_cases zeros : byteType later = 1
    · rw [if_pos zeros]
      have laterRun : byteUnits later = List.replicate (byteGetValue later) 0 := by
        simp only [byteUnits, zeros]
      have laterMost : byteGetValue later ≤ 64 := by
        rw [byteGetValue]
        lia
      have restUsed : UsedTypes back := fun other member =>
        backUsed other (mem_cons_of_mem _ member)
      -- One byte for many zeros and one for a few hold the zeros of both runs on the right.
      have total : byteGetValue byte * 64 - place - 1 + byteGetValue later =
          64 * byteGetValue byte + byteGetValue later - place - 1 := by grind
      obtain ⟨rightType, right⟩ := zeroBytes_units
        (64 * byteGetValue byte + byteGetValue later - place - 1) (by omega)
      have shape := hllUpdateValue_split front [byte, later] back (zeroBytes place ++
        [hllSetSparseByte 1 value] ++
          zeroBytes (64 * byteGetValue byte + byteGetValue later - place - 1))
      rw [total]
      have two : [byte, later].length = 2 := rfl
      have joined : [byte, later] ++ back = byte :: later :: back := rfl
      rw [two, joined] at shape
      rw [shape]
      apply replaced_max (64 * byteGetValue byte + byteGetValue later)
        (by lia) ⟨frontUsed, restUsed⟩
      · exact usedTypes_append (usedTypes_append leftType denseType) rightType
      · rw [units_append, units_append, left, dense, right]
      · rw [units_append, units_cons, units_cons, run, laterRun, ← append_assoc
          (List.replicate _ _), replicate_append_replicate, append_assoc]
    · rw [if_neg zeros]
      exact alone

/-- An update changes a byte of values. -/
theorem hllUpdateSparseType3_units {byte value : Nat}
    (used : UsedTypes (front ++ byte :: back)) (kind : byteType byte = 2) (low : 0 < value)
    (high : value ≤ 64) :
    UsedTypes (hllUpdateSparseType3 (front ++ byte :: back) front.length value byte) ∧
      units (hllUpdateSparseType3 (front ++ byte :: back) front.length value byte) =
        (units (front ++ byte :: back)).set (units front).length
          (max value ((units (front ++ byte :: back)).getD (units front).length 0)) := by
  have old : units (front ++ byte :: back) = units front ++ byteGetValue byte :: units back := by
    rw [units_append, units_cons]
    simp only [byteUnits, kind, singleton_append]
  have here : (units front ++ byteGetValue byte :: units back).getD (units front).length 0 =
      byteGetValue byte := by
    rw [getD_eq_getElem?_getD, getElem?_append_right le_rfl, Nat.sub_self]
    rfl
  rw [hllUpdateSparseType3, old, here]
  by_cases smaller : value ≤ byteGetValue byte
  · rw [if_pos smaller, Nat.max_eq_right smaller, set_append_right _ _ le_rfl, Nat.sub_self,
      set_cons_zero]
    exact ⟨used, old⟩
  · obtain ⟨denseKind, dense, -⟩ := setDenseValue_units value low high
    rw [if_neg smaller, Nat.max_eq_left (by omega), set_append_right _ _ le_rfl, Nat.sub_self,
      set_cons_zero, set_append_right _ _ le_rfl, Nat.sub_self, set_cons_zero]
    constructor
    · intro other member
      obtain inFront | inBack := mem_append.mp member
      · exact used other (mem_append_left _ inFront)
      · obtain same | behind := mem_cons.mp inBack
        · rw [same, denseKind]
        · exact used other (mem_append_right _ (mem_cons_of_mem _ behind))
    · rw [units_append, units_cons, dense, singleton_append]

/-- An update sets the larger value of one register. -/
theorem hllUpdateSparseValue_units {byte : Nat} (place : Nat) {value : Nat}
    (used : UsedTypes (front ++ byte :: back)) (inside : place < (byteUnits byte).length)
    (low : 0 < value) (high : value ≤ 64) :
    ∃ after, hllUpdateSparseValue (front ++ byte :: back) front.length place value = some after ∧
      UsedTypes after ∧
      units after = (units (front ++ byte :: back)).set ((units front).length + place)
        (max value ((units (front ++ byte :: back)).getD ((units front).length + place) 0)) := by
  have kind := used byte (mem_append_right _ mem_cons_self)
  have frontUsed : UsedTypes front := fun other member => used other (mem_append_left _ member)
  have backUsed : UsedTypes back := fun other member =>
    used other (mem_append_right _ (mem_cons_of_mem _ member))
  have here : (front ++ byte :: back)[front.length]? = some byte := by
    rw [getElem?_append_right le_rfl, Nat.sub_self]
    rfl
  rw [hllUpdateSparseValue, here]
  dsimp only
  obtain zero | one | two : byteType byte = 0 ∨ byteType byte = 1 ∨ byteType byte = 2 := by lia
  · rw [zero]
    exact ⟨_, rfl, hllUpdateSparseType1_units front back frontUsed backUsed zero inside low high⟩
  · rw [one]
    exact ⟨_, rfl, hllUpdateSparseType2_units front back frontUsed backUsed one inside low high⟩
  · rw [two]
    have single : byteUnits byte = [byteGetValue byte] := by
      simp only [byteUnits, two]
    rw [single, length_singleton] at inside
    have first : place = 0 := by omega
    rw [first, Nat.add_zero]
    exact ⟨_, rfl, hllUpdateSparseType3_units front back used two low high⟩

theorem sparseToFull_units (used : UsedTypes bytes) : sparseToFull bytes = some (units bytes) := by
  induction bytes with
  | nil => rfl
  | cons byte rest ih =>
    rw [sparseToFull, if_pos (used byte mem_cons_self),
      ih fun other member => used other (mem_cons_of_mem _ member)]
    rfl

end OpenGauss.Hll
