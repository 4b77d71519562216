import OpenGauss.Base.Extremes
/-!
# Minimum and maximum of a compression unit

A compression unit describes its column by a minimum and a maximum, gathered value by value while a
batch is loaded. Fixed-length types keep the two values themselves. Strings keep at most the first
31 bytes behind a length byte, and there are two ways to gather them: `compareVarStrType` remembers
pointers to the values and `finishCompareVarStrType` copies the bytes once, `setMinMaxVarStrType`
copies them at every change. Both are shown to keep the extremes of the truncated batch. A
fixed-length minimum is the value read back from the first bytes of the buffer with the type it
was written with; date and time types are the integer ones.
-/
namespace OpenGauss.CStore

open List OpenGauss.Base

/-- `MIN_MAX_LEN`, the bytes of a minimum or maximum. -/
def minMaxLen : Nat := 32

section Fixed

variable {α : Type}

/-- The running minimum and maximum of a fixed-length type. -/
structure FixedMinMax (α : Type) where
  minval : α
  maxval : α
  first : Bool

/-- The buffers before a batch: all zero, with the first flag up. -/
def FixedMinMax.start [OfNat α 0] : FixedMinMax α where
  minval := 0
  maxval := 0
  first := true

/-- The step all fixed-length types share: the first value is both extremes, any other replaces the
minimum, or else the maximum, or neither. -/
def compareFixed [LT α] [DecidableLT α] (state : FixedMinMax α) (v : α) : FixedMinMax α :=
  if !state.first then
    if v < state.minval then { state with minval := v }
    else if v > state.maxval then { state with maxval := v }
    else state
  else { minval := v, maxval := v, first := false }

/-- `CompareChar`: a `char` is compared as the signed byte it is. -/
def compareChar : FixedMinMax Int8 → Int8 → FixedMinMax Int8 := compareFixed

/-- `CompareInt16`. -/
def compareInt16 : FixedMinMax Int16 → Int16 → FixedMinMax Int16 := compareFixed

/-- `CompareInt32`. -/
def compareInt32 : FixedMinMax Int32 → Int32 → FixedMinMax Int32 := compareFixed

/-- `CompareInt64`. -/
def compareInt64 : FixedMinMax Int64 → Int64 → FixedMinMax Int64 := compareFixed

/-- `CompareUint32`. -/
def compareUint32 : FixedMinMax UInt32 → UInt32 → FixedMinMax UInt32 := compareFixed

/-- `CompareDate`: a `DateADT` is a 32-bit integer. -/
def compareDate : FixedMinMax Int32 → Int32 → FixedMinMax Int32 := compareFixed

/-- `CompareTime`: a `TimeADT` is a 64-bit integer. -/
def compareTime : FixedMinMax Int64 → Int64 → FixedMinMax Int64 := compareFixed

/-- `CompareTimestamp`. -/
def compareTimestamp : FixedMinMax Int64 → Int64 → FixedMinMax Int64 := compareFixed

/-- `CompareTimestamptz`. -/
def compareTimestamptz : FixedMinMax Int64 → Int64 → FixedMinMax Int64 := compareFixed

/-- The part of a descriptor of a fixed-length column that rough checks read. -/
structure CuFixed (α : Type) where
  /-- `cu_min`. -/
  cuMin : α
  /-- `cu_max`. -/
  cuMax : α

/-- `FinishCompareFixedLength`: both buffers are copied into the descriptor. -/
def finishCompareFixedLength (state : FixedMinMax α) : CuFixed α where
  cuMin := state.minval
  cuMax := state.maxval

/-- The descriptor of a batch folded by a fixed-length compare function. -/
def fixedBatch [OfNat α 0] (compareDatum : FixedMinMax α → α → FixedMinMax α) (batch : List α) :
    CuFixed α :=
  finishCompareFixedLength (batch.foldl compareDatum FixedMinMax.start)

variable [LT α] [DecidableLT α] (key : α → Int) (ordered : ∀ a b : α, a < b ↔ key a < key b)
include ordered

/-- A comparison widens the range by a value. -/
theorem compareFixed_widen (range : Extremes α) (v : α) :
    compareFixed { minval := range.low, maxval := range.high, first := false } v =
      { minval := (range.widen (compareOn key) v).low
        maxval := (range.widen (compareOn key) v).high
        first := false } := by
  have below : compareOn key v range.low = .lt ↔ v < range.low := by
    rw [ordered]
    exact Int.compare_eq_lt
  have above : compareOn key v range.high = .gt ↔ v > range.high := by
    rw [gt_iff_lt, ordered]
    exact Int.compare_eq_gt
  simp only [compareFixed, Extremes.widen, below, above, Bool.not_false]
  by_cases less : v < range.low
  · simp only [less, ↓reduceIte]
  · by_cases greater : v > range.high
    · simp only [less, greater, ↓reduceIte]
    · simp only [less, greater, ↓reduceIte]

/-- The unit of a batch has its least and largest value. -/
theorem fixedBatch_encloses [OfNat α 0] {batch : List α} (filled : batch ≠ []) :
    ∃ range : Extremes α, range.Encloses (compareOn key) batch ∧
      fixedBatch compareFixed batch = { cuMin := range.low, cuMax := range.high } := by
  have run : ∀ (rest : List α) (range : Extremes α),
      rest.foldl compareFixed { minval := range.low, maxval := range.high, first := false } =
        { minval := (rest.foldl (Extremes.widen (compareOn key)) range).low
          maxval := (rest.foldl (Extremes.widen (compareOn key)) range).high
          first := false } := by
    intro rest
    induction rest with
    | nil =>
      intro range
      rfl
    | cons v rest ih =>
      intro range
      rw [foldl_cons, compareFixed_widen key ordered, ih, foldl_cons]
  cases batch with
  | nil => exact absurd rfl filled
  | cons v rest =>
    let result := rest.foldl (Extremes.widen (compareOn key)) ⟨v, v⟩
    have computed : extremes (compareOn key) (v :: rest) = some result := rfl
    have folded : (v :: rest).foldl compareFixed FixedMinMax.start =
        { minval := result.low, maxval := result.high, first := false } := by
      exact run rest ⟨v, v⟩
    refine ⟨result, extremes_encloses (compareOn key) _ _ computed, ?_⟩
    rw [fixedBatch, folded, finishCompareFixedLength]

end Fixed

section Strings

/-- A variable-length value in memory: its header of one or four bytes, and its data. -/
structure VarStr where
  header : List UInt8
  /-- The data bytes, `VARDATA_ANY`. -/
  dat : List UInt8
  header_length : header.length = 1 ∨ header.length = 4

/-- `VARSIZE_ANY`, the length with the header. -/
def VarStr.totalLen (v : VarStr) : Nat := v.header.length + v.dat.length

/-- The bytes a pointer to the value leads to. -/
def VarStr.bytes (v : VarStr) : List UInt8 := v.header ++ v.dat

/-- The data bytes of a value that a minimum or maximum can hold. -/
def VarStr.cut (v : VarStr) : List UInt8 := v.dat.take (minMaxLen - 1)

/-- `memcmp` over the given number of bytes: the sign of its result. -/
def memcmp (left right : List UInt8) (count : Nat) : Ordering :=
  firstDifference (left.take count) (right.take count)

/-- A minimum or maximum while a batch is folded: pointer, offset of the data, and data size. -/
structure VarStrBound where
  /-- The value pointed to; `none` is the null pointer. -/
  datum : Option VarStr
  /-- `varstr_dat_offset`, the size of its header. -/
  datOffset : Nat
  /-- `varstr_dat_length`, the number of data bytes that count. -/
  datLength : Nat

/-- The bytes at the pointer plus the offset. -/
def VarStrBound.dat (bound : VarStrBound) : List UInt8 :=
  match bound.datum with
  | none => []
  | some v => v.bytes.drop bound.datOffset

/-- The bound that remembers a value. -/
def VarStr.remember (v : VarStr) : VarStrBound where
  datum := some v
  datOffset := v.header.length
  datLength := min v.dat.length (minMaxLen - 1)

/-- The running minimum and maximum of a string column, by pointers. -/
structure VarStrMinMax where
  minval : VarStrBound
  maxval : VarStrBound
  first : Bool
  /-- `varstr_maxlen`, the greatest total length so far. -/
  varstrMaxlen : Nat

/-- The state before a batch: null pointers, with the first flag up. -/
def VarStrMinMax.start : VarStrMinMax where
  minval := { datum := none, datOffset := 0, datLength := 0 }
  maxval := { datum := none, datOffset := 0, datLength := 0 }
  first := true
  varstrMaxlen := 0

/-- The greatest total length takes in one more value. -/
def VarStrMinMax.noteLength (state : VarStrMinMax) (v : VarStr) : VarStrMinMax :=
  if v.totalLen > state.varstrMaxlen then { state with varstrMaxlen := v.totalLen } else state

/-- `CompareVarStrType`: the bytes in common decide, then the sizes of the compared data. -/
def compareVarStrType (state : VarStrMinMax) (v : VarStr) : VarStrMinMax :=
  let copySize := min v.dat.length (minMaxLen - 1)
  if !state.first then
    let state := state.noteLength v
    let cmpSize := min copySize state.minval.datLength
    let ret := memcmp v.dat state.minval.dat cmpSize
    if ret = .lt ∨ (ret = .eq ∧ copySize < state.minval.datLength) then
      { state with minval := v.remember }
    else
      let cmpSize := min copySize state.maxval.datLength
      let ret := memcmp v.dat state.maxval.dat cmpSize
      if ret = .gt ∨ (ret = .eq ∧ copySize > state.maxval.datLength) then
        { state with maxval := v.remember }
      else state
  else
    { minval := v.remember
      maxval := v.remember
      first := false
      varstrMaxlen := v.totalLen }

/-- A minimum or maximum in the descriptor: a length byte and the 31 bytes behind it. -/
structure CuString where
  len : Nat
  /-- The bytes behind it, of which only the first `len` belong to the value. -/
  value : List UInt8

/-- The string stored by a minimum or maximum, as every reader of the descriptor takes it. -/
def CuString.stored (cu : CuString) : List UInt8 := cu.value.take cu.len

/-- A minimum or maximum before a batch: all bytes zero. -/
def CuString.zero : CuString where
  len := 0
  value := List.replicate (minMaxLen - 1) 0

/-- `memcpy_s` of the first bytes of a source over the front of a buffer. -/
def CuString.copy (cu : CuString) (source : List UInt8) (count : Nat) : CuString where
  len := count
  value := source.take count ++ cu.value.drop count

/-- The part of a descriptor of a string column that rough checks read. -/
structure CuStrings where
  /-- `cu_min`. -/
  cuMin : CuString
  /-- `cu_max`. -/
  cuMax : CuString

/-- A descriptor before a batch. -/
def CuStrings.zero : CuStrings where
  cuMin := CuString.zero
  cuMax := CuString.zero

/-- `FinishCompareVarStrType`: unless all values were null, both strings are copied. -/
def finishCompareVarStrType (state : VarStrMinMax) (cu : CuStrings) : CuStrings :=
  match state.minval.datum with
  | none => cu
  | some _ =>
    { cuMin := cu.cuMin.copy state.minval.dat state.minval.datLength
      cuMax := cu.cuMax.copy state.maxval.dat state.maxval.datLength }

/-- The descriptor of a batch folded through pointers. -/
def varStrBatch (batch : List VarStr) : CuStrings :=
  finishCompareVarStrType (batch.foldl compareVarStrType VarStrMinMax.start) CuStrings.zero

/-- The running minimum and maximum of a string column, by copies into the descriptor. -/
structure CopiedMinMax where
  cu : CuStrings
  first : Bool

/-- `SetMinMaxVarStrType` by way of `SetMinMaxVarStrTypeInternal`. -/
def setMinMaxVarStrType (state : CopiedMinMax) (v : VarStr) : CopiedMinMax :=
  let copySize := min v.dat.length (minMaxLen - 1)
  let cu := state.cu
  if !state.first then
    let cmpSize := min copySize cu.cuMin.len
    let ret := memcmp v.dat cu.cuMin.value cmpSize
    if ret = .lt ∨ (ret = .eq ∧ copySize < cu.cuMin.len) then
      { state with cu := { cu with cuMin := cu.cuMin.copy v.dat copySize } }
    else
      let cmpSize := min copySize cu.cuMax.len
      let ret := memcmp v.dat cu.cuMax.value cmpSize
      if ret = .gt ∨ (ret = .eq ∧ copySize > cu.cuMax.len) then
        { state with cu := { cu with cuMax := cu.cuMax.copy v.dat copySize } }
      else state
  else
    { cu := { cuMin := cu.cuMin.copy v.dat copySize, cuMax := cu.cuMax.copy v.dat copySize }
      first := false }

/-- The descriptor of a batch folded through copies. -/
def copiedBatch (batch : List VarStr) : CuStrings :=
  (batch.foldl setMinMaxVarStrType { cu := CuStrings.zero, first := true }).cu

end Strings

section StringExtremes

variable (batch : List VarStr) (state : VarStrMinMax) (range : Extremes (List UInt8)) (v : VarStr)
  (bytes held : List UInt8) (len : Nat)

theorem VarStr.cut_length : v.cut.length = min v.dat.length (minMaxLen - 1) := by
  rw [VarStr.cut, length_take, Nat.min_comm]

theorem VarStr.take_copySize : v.dat.take (min v.dat.length (minMaxLen - 1)) = v.cut := by
  rw [VarStr.cut, Nat.min_comm, ← take_take, take_length]

section

variable (holds : bytes.take len = held) (length : held.length = len)
include holds length

variable {bytes}

theorem memcmp_held :
    memcmp v.dat bytes (min (min v.dat.length (minMaxLen - 1)) len) =
      firstDifference v.cut held := by
  have ofValue : v.dat.take (min (min v.dat.length (minMaxLen - 1)) len) =
      v.cut.take (min v.cut.length held.length) := by
    rw [← VarStr.take_copySize]
    grind
  have ofHeld : bytes.take (min (min v.dat.length (minMaxLen - 1)) len) =
      held.take (min v.cut.length held.length) := by
    rw [VarStr.cut_length]
    grind
  rw [memcmp, ofValue, ofHeld]
  exact firstDifference_take_take _ _ _ (Nat.le_refl _)

theorem newMinimum_iff :
    (memcmp v.dat bytes (min (min v.dat.length (minMaxLen - 1)) len) = .lt ∨
      (memcmp v.dat bytes (min (min v.dat.length (minMaxLen - 1)) len) = .eq ∧
        min v.dat.length (minMaxLen - 1) < len)) ↔ compare v.cut held = .lt := by
  rw [memcmp_held v held len holds length, ← firstDifference_then_length,
    ← VarStr.cut_length, ← length, ← Nat.compare_eq_lt]
  cases firstDifference v.cut held <;> simp

variable (bytes)

theorem newMaximum_iff :
    (memcmp v.dat bytes (min (min v.dat.length (minMaxLen - 1)) len) = .gt ∨
      (memcmp v.dat bytes (min (min v.dat.length (minMaxLen - 1)) len) = .eq ∧
        min v.dat.length (minMaxLen - 1) > len)) ↔ compare v.cut held = .gt := by
  rw [memcmp_held v held len holds length, ← firstDifference_then_length,
    ← VarStr.cut_length, ← length, gt_iff_lt, ← Nat.compare_eq_gt]
  cases firstDifference v.cut held <;> simp

end

/-- A bound remembers some value, of which it holds the given string. -/
def VarStrBound.Holds (bound : VarStrBound) (held : List UInt8) : Prop :=
  ∃ v : VarStr, bound = v.remember ∧ held = v.cut

theorem VarStr.remember_dat : v.remember.dat = v.dat := by
  exact drop_left

theorem VarStrBound.Holds.reads (bound : VarStrBound) (held : List UInt8)
    (holds : bound.Holds held) :
    bound.dat.take bound.datLength = held ∧ held.length = bound.datLength := by
  obtain ⟨v, rfl, rfl⟩ := holds
  rw [VarStr.remember_dat]
  exact ⟨VarStr.take_copySize v, VarStr.cut_length v⟩

/-- The pointer fold holds the given extremes of what it has seen. -/
structure VarStrMinMax.Tracks (state : VarStrMinMax) (range : Extremes (List UInt8)) : Prop where
  first : state.first = false
  minval : state.minval.Holds range.low
  maxval : state.maxval.Holds range.high

theorem VarStrMinMax.noteLength_keeps :
    (state.noteLength v).minval = state.minval ∧ (state.noteLength v).maxval = state.maxval ∧
      (state.noteLength v).first = state.first := by
  rw [VarStrMinMax.noteLength]
  split <;> exact ⟨rfl, rfl, rfl⟩

/-- The state by pointers tracks the range of the cut values. -/
theorem compareVarStrType_tracks (tracks : state.Tracks range) :
    (compareVarStrType state v).Tracks (range.widen compare v.cut) := by
  obtain ⟨minReads, minLength⟩ := tracks.minval.reads
  obtain ⟨maxReads, maxLength⟩ := tracks.maxval.reads
  have minimum := newMinimum_iff v range.low _ minReads minLength
  have maximum := newMaximum_iff v state.maxval.dat range.high _ maxReads maxLength
  obtain ⟨sameMin, sameMax, sameFirst⟩ := state.noteLength_keeps v
  simp only [compareVarStrType, tracks.first, Bool.not_false, sameMin, sameMax,
    minimum, maximum, Extremes.widen]
  by_cases below : compare v.cut range.low = .lt
  · simp only [below, ↓reduceIte]
    exact { first := sameFirst.trans tracks.first
            minval := ⟨v, rfl, rfl⟩
            maxval := by simpa only [sameMax] using tracks.maxval }
  · by_cases above : compare v.cut range.high = .gt
    · simp only [below, above, ↓reduceIte]
      exact { first := sameFirst.trans tracks.first
              minval := by simpa only [sameMin] using tracks.minval
              maxval := ⟨v, rfl, rfl⟩ }
    · simp only [below, above, ↓reduceIte]
      exact { first := sameFirst.trans tracks.first
              minval := by simpa only [sameMin] using tracks.minval
              maxval := by simpa only [sameMax] using tracks.maxval }

/-- A string in the descriptor is the given one: its length byte counts it and it stands behind. -/
def CuString.Holds (cu : CuString) (held : List UInt8) : Prop :=
  cu.stored = held ∧ held.length = cu.len

theorem CuString.copy_holds (cu : CuString) (v : VarStr) :
    (cu.copy v.dat (min v.dat.length (minMaxLen - 1))).Holds v.cut := by
  constructor
  · show (v.dat.take _ ++ cu.value.drop _).take _ = v.cut
    rw [VarStr.take_copySize, ← VarStr.cut_length]
    exact take_left
  · exact VarStr.cut_length v

/-- The copying fold holds the given extremes of what it has seen. -/
structure CopiedMinMax.Tracks (state : CopiedMinMax) (range : Extremes (List UInt8)) : Prop where
  first : state.first = false
  cuMin : state.cu.cuMin.Holds range.low
  cuMax : state.cu.cuMax.Holds range.high

/-- The copying state tracks the same range. -/
theorem setMinMaxVarStrType_tracks (state : CopiedMinMax) (range : Extremes (List UInt8))
    (v : VarStr) (tracks : state.Tracks range) :
    (setMinMaxVarStrType state v).Tracks (range.widen compare v.cut) := by
  have minimum := newMinimum_iff v range.low _ tracks.cuMin.1 tracks.cuMin.2
  have maximum := newMaximum_iff v state.cu.cuMax.value range.high _ tracks.cuMax.1 tracks.cuMax.2
  simp only [setMinMaxVarStrType, tracks.first, minimum, maximum,
    Extremes.widen]
  by_cases below : compare v.cut range.low = .lt
  · simp only [below]
    exact { first := rfl
            cuMin := CuString.copy_holds _ v
            cuMax := tracks.cuMax }
  · by_cases above : compare v.cut range.high = .gt
    · simp only [below, above]
      exact { first := rfl
              cuMin := tracks.cuMin
              cuMax := CuString.copy_holds _ v }
    · simp only [below, above]
      exact tracks

/-- A descriptor holds the extremes of a batch of strings. -/
structure CuStrings.Describes (cu : CuStrings) (range : Extremes (List UInt8)) : Prop where
  cuMin : cu.cuMin.Holds range.low
  cuMax : cu.cuMax.Holds range.high

theorem foldl_tracks {σ : Type} (step : σ → VarStr → σ) (tracks : σ → Extremes (List UInt8) → Prop)
    (kept : ∀ state range v, tracks state range → tracks (step state v) (range.widen compare v.cut))
    (rest : List VarStr) (state : σ) (range : Extremes (List UInt8)) (start : tracks state range) :
    tracks (rest.foldl step state)
      ((rest.map VarStr.cut).foldl (Extremes.widen compare) range) := by
  induction rest generalizing state range with
  | nil => exact start
  | cons v rest ih =>
    exact ih _ _ (kept state range v start)

/-- The finished unit describes the range. -/
theorem finishCompareVarStrType_describes (cu : CuStrings)
    (range : Extremes (List UInt8)) (tracks : state.Tracks range) :
    (finishCompareVarStrType state cu).Describes range := by
  obtain ⟨low, lowBound, lowHeld⟩ := tracks.minval
  obtain ⟨high, highBound, highHeld⟩ := tracks.maxval
  have finished : finishCompareVarStrType state cu =
      { cuMin := cu.cuMin.copy low.dat (min low.dat.length (minMaxLen - 1))
        cuMax := cu.cuMax.copy high.dat (min high.dat.length (minMaxLen - 1)) } := by
    rw [finishCompareVarStrType, lowBound, highBound, VarStr.remember_dat, VarStr.remember_dat]
    rfl
  rw [finished]
  constructor
  · rw [lowHeld]
    exact CuString.copy_holds _ low
  · rw [highHeld]
    exact CuString.copy_holds _ high

/-- Both folds of a batch describe it by the same extremes, strings of the batch cut to size that
enclose all of them. -/
theorem stringBatch_describes (filled : batch ≠ []) :
    ∃ range : Extremes (List UInt8), range.Encloses compare (batch.map VarStr.cut) ∧
      (varStrBatch batch).Describes range ∧ (copiedBatch batch).Describes range := by
  cases batch with
  | nil => exact absurd rfl filled
  | cons v rest =>
    have encloses := extremes_encloses compare ((v :: rest).map VarStr.cut) _ rfl
    refine ⟨_, encloses, ?_, ?_⟩
    · have tracks := foldl_tracks compareVarStrType VarStrMinMax.Tracks
        compareVarStrType_tracks rest (compareVarStrType VarStrMinMax.start v) ⟨v.cut, v.cut⟩
        { first := rfl, minval := ⟨v, rfl, rfl⟩, maxval := ⟨v, rfl, rfl⟩ }
      exact finishCompareVarStrType_describes _ _ _ tracks
    · have tracks := foldl_tracks setMinMaxVarStrType CopiedMinMax.Tracks
        setMinMaxVarStrType_tracks rest (setMinMaxVarStrType ⟨CuStrings.zero, true⟩ v)
        ⟨v.cut, v.cut⟩
        { first := rfl, cuMin := CuString.copy_holds _ v, cuMax := CuString.copy_holds _ v }
      exact { cuMin := tracks.cuMin, cuMax := tracks.cuMax }

theorem stringBatch_same : ((varStrBatch batch).cuMin.len = (copiedBatch batch).cuMin.len ∧
      (varStrBatch batch).cuMin.stored = (copiedBatch batch).cuMin.stored) ∧
    ((varStrBatch batch).cuMax.len = (copiedBatch batch).cuMax.len ∧
      (varStrBatch batch).cuMax.stored = (copiedBatch batch).cuMax.stored) := by
  by_cases filled : batch = []
  · rw [filled]
    exact ⟨⟨rfl, rfl⟩, rfl, rfl⟩
  · obtain ⟨range, _, pointers, copies⟩ := stringBatch_describes batch filled
    have minima := pointers.cuMin.2.symm.trans copies.cuMin.2
    have maxima := pointers.cuMax.2.symm.trans copies.cuMax.2
    exact ⟨⟨minima, pointers.cuMin.1.trans copies.cuMin.1.symm⟩,
      maxima, pointers.cuMax.1.trans copies.cuMax.1.symm⟩

end StringExtremes

end OpenGauss.CStore
