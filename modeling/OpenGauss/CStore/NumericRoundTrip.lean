import OpenGauss.CStore.NumericRestore

/-!
# Batches of numerics come back

The values that are stored are numerics in one of their forms. Those with few digits are turned into
integers with the scale they are displayed with. Restoring gives the integers the one scale of their
stream, so that a batch comes back with its numbers and scales exactly if the integers of each stream
have one scale among them. `Assert` in the source takes that for granted. Columns of floating point
numbers that are kept as numerics do not have one.
-/
namespace OpenGauss.CStore

open Option List OpenGauss.Base OpenGauss.Numerics

/-- The decimals that a numeric is displayed with. -/
def displayScale : Numeric → Nat
  | .nan => 0
  | .bi64 _ scale => scale
  | .bi128 _ scale => scale
  | .normal var => var.dscale

/-- Numerics with the same number and the same decimals. -/
def SameNumeric (first second : Numeric) : Prop :=
  first.denotes = second.denotes ∧ displayScale first = displayScale second

/-- A numeric as the server stores it: the long form is for those that the short form cannot hold
(`NUMERIC_CAN_BE_SHORT`). -/
structure IsStoredNumeric (datum : List UInt8) : Prop where
  varlena : IsVarlena datum
  valid : (readNumeric datum).Valid
  short : ∀ var, readNumeric datum = .normal var → numericHeader datum < 0x8000 →
    ¬(var.dscale ≤ 63 ∧ -64 ≤ var.weight ∧ var.weight ≤ 63)

variable (lz4 : Lz4) (size : Nat) (part : IntegerPart) (out : CompressionArg2) (value : Int)
  (scale : Nat) (batch : List (Option (List UInt8))) (rows : List NumericRow)
  (adoptRle64 adoptRle32 : Bool) (stat : NumericsStatistics)

theorem varattIsShort_makeNumeric64 : varattIsShort (makeNumeric64 value scale) = false := by
  show decide ((56 : UInt8).toNat % 2 = 1) = false
  decide

/-- A fast numeric is read as its value and scale. -/
theorem readNumeric_makeNumeric64 (fits : InInt64 value)
    (small : scale < 256) : readNumeric (makeNumeric64 value scale) = .bi64 value scale := by
  have long := varattIsShort_makeNumeric64 value scale
  have choice : numericChoice (makeNumeric64 value scale) =
      leBytes 2 (0xD000 + scale) ++ leBytes 8 (int64Bits value) := by
    rw [numericChoice, long, makeNumeric64, append_assoc, if_neg (by decide),
      drop_left' (leBytes_length 4 _)]
  have header : numericHeader (makeNumeric64 value scale) = 0xD000 + scale := by
    rw [numericHeader, choice]
    exact leNat_leBytes 2 _ (by omega)
  have read := convertToInt64Data_of_range 8 (by decide) value (by
    have word : (256 : Int) ^ 8 = 2 ^ 64 := by decide
    obtain ⟨least, most⟩ := fits
    rw [InSignedRange]
    lia) []
  rw [readNumeric, header, choice, if_pos (by lia)]
  rw [show (0xD000 + scale) % 0x100 = scale by lia]
  exact congrArg (Numeric.bi64 · scale) read

/-- What is not a short numeric has too many digits. -/
theorem wholeScale_of_long (var : NumericVar) (canonical : var.Canonical)
    (long : ¬(var.dscale ≤ 63 ∧ -64 ≤ var.weight ∧ var.weight ≤ 63)) : 18 < getWholeScale var := by
  have scales := dscale_le_wholeScale var
  by_cases many : 63 < var.dscale
  · omega
  · by_cases empty : var.digits = []
    · have weight := (canonical.zero empty).2
      omega
    · by_cases high : 63 < var.weight
      · rw [getWholeScale]
        obtain ⟨first, rest, digits⟩ := exists_cons_of_ne_nil empty
        rw [digits]
        dsimp only
        rw [if_pos (by omega)]
        split
        · lia
        · split
          · lia
          · split <;> lia
      · obtain ⟨size, unpointed⟩ := NumericVar.Canonical.unpointed var canonical empty
        have least := unpointed.least
        lia

/-- A numeric that is converted denotes its value. -/
theorem convertShortNumericToDscaleInt64_spec {datum : List UInt8}
    (stored : IsStoredNumeric datum) :
    ∃ converted, convertShortNumericToDscaleInt64 datum = some converted ∧
      ∀ value scale, converted = some (value, scale) → InInt64 value ∧ scale < 256 ∧
        (readNumeric datum).denotes = some ((value : ℚ) / 10 ^ scale) ∧
        displayScale (readNumeric datum) = scale := by
  have valid := stored.valid
  have short := stored.short
  rw [convertShortNumericToDscaleInt64]
  by_cases large : varattIsShort datum = true ∧ 13 < (datum.headD 0).toNat / 2 % 128
  · rw [if_pos large]
    exact ⟨none, rfl, nofun⟩
  · rw [if_neg large]
    cases form : readNumeric datum with
    | nan | bi128 value scale => exact ⟨none, rfl, nofun⟩
    | bi64 number scale =>
      rw [form] at valid
      refine ⟨_, rfl, ?_⟩
      rintro value other ⟨⟩
      exact ⟨valid.1, by have few := valid.2; omega, rfl, rfl⟩
    | normal var =>
      rw [form] at valid
      by_cases few : getWholeScale var ≤ 18
      · have scales := dscale_le_wholeScale var
        have notLong : ¬numericHeader datum < 0x8000 := by
          intro long
          have many := wholeScale_of_long var valid (short var form long)
          omega
        obtain ⟨number, converts, fits, value⟩ : ∃ number : Int,
            convertShortNumericToInt64Byscale var var.dscale = some number ∧ InInt64 number ∧
              var.value = number / 10 ^ var.dscale := by
          by_cases empty : var.digits = []
          · refine ⟨0, (convertShortNumeric_zero var empty).1 (by omega), by decide, ?_⟩
            rw [(NumericVar.Canonical.value_eq_zero_iff var valid).mpr empty, Int.cast_zero, zero_div]
          · obtain ⟨size, unpointed⟩ := NumericVar.Canonical.unpointed var valid empty
            have less := Unpointed.size_lt var _ size 18 unpointed few
            refine ⟨_, convertShortNumericToInt64Byscale_spec var valid empty unpointed less, ?_,
              unpointed.value⟩
            obtain ⟨least, most⟩ := signed_bounds var.sign size _ less
            constructor
            · lia
            · lia
        dsimp only
        rw [if_pos few, if_neg notLong, converts]
        refine ⟨_, rfl, ?_⟩
        rintro integer scale ⟨⟩
        refine ⟨fits, by omega, ?_, rfl⟩
        exact congrArg some value
      · dsimp only
        rw [if_neg few]
        exact ⟨none, rfl, nofun⟩

/-- The values of the batch with what they were converted to. -/
structure Converted (batch : List (Option (List UInt8))) (rows : List NumericRow) : Prop where
  values : rows.map Prod.fst = batch.filterMap id
  each : ∀ row ∈ rows, convertShortNumericToDscaleInt64 row.1 = some row.2

/-- Every batch of stored numerics is converted. -/
theorem batchConvert_converted (stored : ∀ datum, some datum ∈ batch → IsStoredNumeric datum) :
    ∃ rows, batchConvert batch = some rows ∧ Converted batch rows := by
  induction batch with
  | nil => exact ⟨[], rfl, rfl, fun _ member => absurd member not_mem_nil⟩
  | cons row rest ih =>
    obtain ⟨rows, isRows, converted⟩ := ih fun datum member =>
      stored datum (mem_cons_of_mem row member)
    cases row with
    | none => exact ⟨rows, isRows, converted.values, converted.each⟩
    | some datum =>
      obtain ⟨result, converts, -⟩ := convertShortNumericToDscaleInt64_spec
        (stored datum mem_cons_self)
      refine ⟨(datum, result) :: rows, ?_, ?_, ?_⟩
      · rw [batchConvert, converts, isRows]
        rfl
      · rw [map_cons, converted.values]
        rfl
      · rw [forall_mem_cons]
        exact ⟨converts, converted.each⟩

/-- The header of a part is short. -/
theorem partHeader_length : (partHeader size part out).length ≤ size + 6 := by
  have width (value : Int) : (int64DataConvertTo value size).length = size := leBytes_length size _
  rw [partHeader]
  by_cases empty : part.values = []
  · rw [if_pos empty]
    exact Nat.zero_le _
  · rw [if_neg empty, length_append, length_singleton]
    by_cases same : part.valuesAreSame = true
    · rw [if_pos same, width]
      omega
    · rw [if_neg same]
      by_cases taken : out.modes ≠ 0
      · rw [if_pos taken, length_append, leBytes_length]
        by_cases delta : out.modes &&& cuDeltaCompressed ≠ 0
        · rw [if_pos delta, length_append, width, length_singleton]
        · rw [if_neg delta, length_nil]
          omega
      · rw [if_neg taken, length_nil]
        omega

/-- Two codes take a byte. -/
theorem numericCompressFillDscales_length :
    (numericCompressFillDscales stat).length ≤ (stat.codes.length + 1) / 2 := by
  rw [numericCompressFillDscales]
  split
  · split
    · exact Nat.zero_le _
    · split
      · exact Nat.zero_le _
      · rw [packBitmap_length]
        lia
  · split
    · rw [packBitmap_length]
      lia
    · split
      · rw [packBitmap_length]
        lia
      · rw [packPairs_length]
        lia

theorem partValues_length : (partValues size part out).length ≤ partSize size part out := by
  rw [partValues, partSize]
  by_cases several : part.values ≠ [] ∧ part.minMax.1 ≠ part.minMax.2
  · rw [if_pos several]
    by_cases taken : out.modes ≠ 0
    · rw [if_pos taken, if_pos taken]
    · rw [if_neg taken, if_neg taken, IntegerPart.bytes_length, Nat.mul_comm]
  · rw [if_neg several]
    exact Nat.zero_le _

/-- The copied parts fit the size calculated for them. -/
theorem numericCopyCompressedBatchValues_length (varlenas : ∀ datum ∈ stat.failed, IsVarlena datum) (alignSize : Nat) :
    (numericCopyCompressedBatchValues stat
        (numericCompressEachValuesPart lz4 adoptRle64 adoptRle32 stat)).length ≤
      numericCompressGetTotalSize stat
        (numericCompressEachValuesPart lz4 adoptRle64 adoptRle32 stat) alignSize := by
  have size := NumericsStatistics.failedSize_eq stat varlenas
  have isOther : (numericCompressEachValuesPart lz4 adoptRle64 adoptRle32 stat).otherApplyLz4 = false →
      (numericCompressEachValuesPart lz4 adoptRle64 adoptRle32 stat).other = stat.failed.flatten := by
    intro unused
    have plain := of_decide_eq_false unused
    exact if_neg (by rw [decide_eq_true_iff]; exact plain)
  generalize numericCompressEachValuesPart lz4 adoptRle64 adoptRle32 stat = out at *
  have header64 := partHeader_length 8 stat.int64 out.int64
  have header32 := partHeader_length 4 stat.int32 out.int32
  have codes := numericCompressFillDscales_length stat
  have values64 := partValues_length 8 stat.int64 out.int64
  have values32 := partValues_length 4 stat.int32 out.int32
  have header : (numericCompressFillHeader stat out).length ≤ 38 := by
    have last : (if stat.failed ≠ [] ∧ out.otherApplyLz4 = false then leBytes 4 stat.failedSize
        else []).length ≤ 4 := by
      split
      · rw [leBytes_length]
      · exact Nat.zero_le _
    rw [numericCompressFillHeader, length_append, length_append, length_append,
      length_append, leBytes_length, leBytes_length]
    lia
  have others : (if stat.failed = [] then [] else out.other).length ≤
      if stat.failed = [] then 0 else if out.otherApplyLz4 then out.other.length
        else stat.failedSize := by
    by_cases empty : stat.failed = []
    · rw [if_pos empty, if_pos empty, length_nil]
    · rw [if_neg empty, if_neg empty]
      by_cases applied : out.otherApplyLz4 = true
      · rw [if_pos applied]
      · rw [if_neg applied, isOther (Bool.eq_false_iff.mpr applied), size]
  rw [numericCopyCompressedBatchValues, length_append, length_append,
    numericCompressFillValues, length_append, length_append, numericCompressGetTotalSize]
  lia

/-- Whether a compressed batch fits the room for it and gives back the number and the decimals of every
value, in their order. -/
def BatchRestored (lz4 : Lz4) (batch : List (Option (List UInt8))) (alignSize : Nat)
    (stat : NumericsStatistics) (out : NumericsCompressed) : Prop :=
  (numericCopyCompressedBatchValues stat out).length ≤ numericCompressGetTotalSize stat out alignSize ∧
    ∃ restored, uncompressNumeric lz4 (numericCopyCompressedBatchValues stat out)
        (batch.filterMap id).length = some restored ∧
      List.Forall₂ (fun datum bytes => SameNumeric (readNumeric datum) (readNumeric bytes))
        (batch.filterMap id) restored

/-- Whether the values of a batch that become integers of 32 bits have one scale among them, and those
that become integers of 64 bits too. -/
def OneScaleEach (batch : List (Option (List UInt8))) : Prop :=
  ∀ first second, some first ∈ batch → some second ∈ batch → ∀ value1 scale1 value2 scale2,
      convertShortNumericToDscaleInt64 first = some (some (value1, scale1)) →
      convertShortNumericToDscaleInt64 second = some (some (value2, scale2)) →
      (IsInt32 value1 ↔ IsInt32 value2) → scale1 = scale2

variable {batch}

theorem Converted.row_of_mem
    (converted : Converted batch rows) {datum : List UInt8} (member : some datum ∈ batch) :
    ∃ row ∈ rows, row.1 = datum := by
  have inside : datum ∈ batch.filterMap id := mem_filterMap.mpr ⟨some datum, member, rfl⟩
  rw [← converted.values] at inside
  exact mem_map.mp inside

theorem Converted.mem_of_row
    (converted : Converted batch rows) {row : NumericRow} (member : row ∈ rows) :
    some row.1 ∈ batch := by
  have inside : row.1 ∈ rows.map Prod.fst := mem_map_of_mem member
  rw [converted.values] at inside
  obtain ⟨value, isValue, is⟩ := mem_filterMap.mp inside
  exact is ▸ isValue

variable (batch)

/-- A converted batch is ready to be compressed. -/
theorem Converted.ready (converted : Converted batch rows)
    (stored : ∀ datum, some datum ∈ batch → IsStoredNumeric datum) (few : batch.length ≤ 60000)
    (small : (batch.filterMap id).flatten.length < 2 ^ 31) (present : rows ≠ []) :
    RowsReady rows := by
  refine ⟨present, ?_, ?_, ?_, ?_⟩
  · intro row member value scale is
    obtain ⟨result, converts, spec⟩ := convertShortNumericToDscaleInt64_spec
      (stored _ (Converted.mem_of_row rows converted member))
    rw [converted.each row member, some_inj] at converts
    obtain ⟨fits, scales, -⟩ := spec value scale (converts ▸ is)
    exact ⟨fits, scales⟩
  · intro row member
    exact (stored _ (Converted.mem_of_row rows converted member)).varlena
  · have lengths := congrArg List.length converted.values
    rw [length_map] at lengths
    have fewer := length_filterMap_le id batch
    omega
  · rw [converted.values]
    exact small

theorem sameAscale_of_row {code : Nat} (integer : code ≠ numericDscaleEncoding)
    {row : NumericRow} (member : row ∈ rows) (is : rowCode row = code) :
    ∃ other ∈ rows, rowCode other = code ∧
      ∃ value, other.2 = some (value, (partOf (streamOf code rows)).sameAscale) := by
  have positive : 0 < (streamOf code rows).length := by
    rw [streamOf_length integer, ← is]
    exact count_pos_iff.mpr (mem_map_of_mem member)
  obtain ⟨first, rest, stream⟩ := exists_cons_of_ne_nil (ne_nil_of_length_pos positive)
  obtain ⟨other, inside, isCode, isFirst⟩ := mem_streamOf code rows first
    (by rw [stream]; exact mem_cons_self)
  refine ⟨other, inside, isCode, first.1, ?_⟩
  rw [isFirst, stream]
  rfl

/-- The scale of the stream that an integer goes to. -/
def streamScale (rows : List NumericRow) (value : Int) : Nat :=
  if IsInt32 value then (partOf (streamOf int32DscaleEncoding rows)).sameAscale
  else (partOf (streamOf int64DscaleEncoding rows)).sameAscale

/-- The scale of a stream is that of some row. -/
theorem streamScale_of_row {row : NumericRow} (member : row ∈ rows)
    {value : Int} {scale : Nat} (is : row.2 = some (value, scale)) :
    ∃ other ∈ rows, ∃ value', (IsInt32 value ↔ IsInt32 value') ∧
      other.2 = some (value', streamScale rows value) := by
  have code := rowCode_int32 row is
  rw [streamScale]
  by_cases narrow : IsInt32 value
  · obtain ⟨other, inside, isCode, value', isOther⟩ := sameAscale_of_row rows
      (by decide) member (code.mpr narrow)
    rw [if_pos narrow]
    exact ⟨other, inside, value', iff_of_true narrow ((rowCode_int32 other isOther).mp isCode),
      isOther⟩
  · have wide : rowCode row = int64DscaleEncoding := by
      rw [rowCode, is]
      exact if_neg narrow
    obtain ⟨other, inside, isCode, value', isOther⟩ := sameAscale_of_row rows
      (by decide) member wide
    rw [if_neg narrow]
    refine ⟨other, inside, value', iff_of_false narrow fun narrow' => ?_, isOther⟩
    rw [(rowCode_int32 other isOther).mpr narrow'] at isCode
    exact absurd isCode (by decide)

/-- A row keeps its scale exactly if it has that of its stream. -/
theorem restoredRow_same_iff (ready : RowsReady rows) {row : NumericRow}
    (member : row ∈ rows) (stored : IsStoredNumeric row.1)
    (converts : convertShortNumericToDscaleInt64 row.1 = some row.2) :
    SameNumeric (readNumeric row.1) (readNumeric (restoredRow
        (partOf (streamOf int32DscaleEncoding rows)).sameAscale
        (partOf (streamOf int64DscaleEncoding rows)).sameAscale row)) ↔
      ∀ value scale, row.2 = some (value, scale) → scale = streamScale rows value := by
  cases is : row.2 with
  | none =>
    have restored (scale1 scale2 : Nat) : restoredRow scale1 scale2 row = row.1 := by
      rw [restoredRow, is]
    rw [restored]
    exact iff_of_true ⟨rfl, rfl⟩ (fun _ _ absent => by cases absent)
  | some integer =>
    obtain ⟨value, scale⟩ := integer
    obtain ⟨result, again, spec⟩ := convertShortNumericToDscaleInt64_spec stored
    rw [converts, some_inj] at again
    obtain ⟨fits, -, number, shown⟩ := spec value scale (again ▸ is)
    have small : streamScale rows value < 256 := by
      obtain ⟨other, inside, value', -, isOther⟩ := streamScale_of_row rows member is
      exact (ready.converted other inside _ _ isOther).2
    have restored : restoredRow (partOf (streamOf int32DscaleEncoding rows)).sameAscale
        (partOf (streamOf int64DscaleEncoding rows)).sameAscale row =
        makeNumeric64 value (streamScale rows value) := by
      rw [restoredRow, is]
      rfl
    rw [restored, readNumeric_makeNumeric64 value _ fits small, SameNumeric, number, shown]
    constructor
    · rintro ⟨-, scales⟩ value' scale' ⟨⟩
      exact scales
    · intro same
      have scales := same value scale rfl
      rw [← scales]
      exact ⟨rfl, rfl⟩

/-- A batch is restored exactly if each stream has one scale. -/
theorem batchRestored_iff (lossless : lz4.Lossless) (adoptRle64 adoptRle32 : Bool)
    (alignSize : Nat) {batch : List (Option (List UInt8))} (rows : List NumericRow)
    (stored : ∀ datum, some datum ∈ batch → IsStoredNumeric datum) (few : batch.length ≤ 60000)
    (small : (batch.filterMap id).flatten.length < 2 ^ 31) (converted : Converted batch rows)
    (present : rows ≠ []) : BatchRestored lz4 batch alignSize (numericStatistics rows)
        (numericCompressEachValuesPart lz4 adoptRle64 adoptRle32 (numericStatistics rows)) ↔
      OneScaleEach batch := by
  have ready := Converted.ready batch rows converted stored few small present
  have restores := uncompressNumeric_restores lz4 lossless adoptRle64 adoptRle32 ready
  have isStored (row : NumericRow) (member : row ∈ rows) : IsStoredNumeric row.1 :=
    stored _ (Converted.mem_of_row rows converted member)
  have room := numericCopyCompressedBatchValues_length lz4 adoptRle64 adoptRle32
    (numericStatistics rows) (by
      rw [numericStatistics_eq]
      intro datum member
      obtain ⟨row, inside, rfl⟩ := mem_map.mp member
      exact ready.varlenas row (mem_of_mem_filter inside)) alignSize
  have length : (batch.filterMap id).length = rows.length := by
    rw [← converted.values, length_map]
  have streams : BatchRestored lz4 batch alignSize (numericStatistics rows)
        (numericCompressEachValuesPart lz4 adoptRle64 adoptRle32 (numericStatistics rows)) ↔
      ∀ row ∈ rows, ∀ value scale, row.2 = some (value, scale) → scale = streamScale rows value := by
    rw [BatchRestored, and_iff_right room, length, restores, ← converted.values]
    rw [numericStatistics_eq]
    dsimp only
    constructor
    · rintro ⟨restored, isRestored, all⟩ row member
      obtain rfl := Option.some_inj.mp isRestored
      rw [List.forall₂_map_left_iff, List.forall₂_map_right_iff, List.forall₂_same] at all
      exact (restoredRow_same_iff rows ready member (isStored row member)
        (converted.each row member)).mp (all row member)
    · intro all
      refine ⟨_, rfl, ?_⟩
      rw [List.forall₂_map_left_iff, List.forall₂_map_right_iff, List.forall₂_same]
      intro row member
      exact (restoredRow_same_iff rows ready member (isStored row member)
        (converted.each row member)).mpr (all row member)
  rw [streams]
  constructor
  · intro all first second isFirst isSecond value1 scale1 value2 scale2 converts1 converts2 widths
    obtain ⟨row1, inside1, rfl⟩ := Converted.row_of_mem rows converted isFirst
    obtain ⟨row2, inside2, rfl⟩ := Converted.row_of_mem rows converted isSecond
    rw [converted.each row1 inside1, some_inj] at converts1
    rw [converted.each row2 inside2, some_inj] at converts2
    rw [all row1 inside1 _ _ converts1, all row2 inside2 _ _ converts2, streamScale, streamScale,
      if_congr widths rfl rfl]
  · intro one row member value scale is
    obtain ⟨other, inside, value', widths, isOther⟩ := streamScale_of_row rows member is
    exact one row.1 other.1 (Converted.mem_of_row rows converted member)
      (Converted.mem_of_row rows converted inside) value scale value' _
      (by rw [converted.each row member, is]) (by rw [converted.each other inside, isOther]) widths

/-- A fast numeric is a stored one. -/
theorem isStoredNumeric_makeNumeric64 (fits : InInt64 value)
    (small : scale ≤ 19) : IsStoredNumeric (makeNumeric64 value scale) := by
  have read := readNumeric_makeNumeric64 value scale fits (by omega)
  have bytes : makeNumeric64 value scale =
      [56, 0, 0, 0] ++ (leBytes 2 (0xD000 + scale) ++ leBytes 8 (int64Bits value)) := by
    have length : leBytes 4 (14 * 4) = [56, 0, 0, 0] := by decide
    rw [makeNumeric64, length, append_assoc]
  have length : (makeNumeric64 value scale).length = 14 := by
    rfl
  refine ⟨⟨?_, ?_⟩, ?_, ?_⟩
  · rw [bytes, cons_append, varsizeAny_cons]
    show leNat [56, 0, 0, 0] / 4 % 0x40000000 = 14
    decide
  · show (if (56 : UInt8).toNat % 2 = 1 then 1 else 4) ≤ 14
    decide
  · rw [read]
    exact ⟨fits, small⟩
  · rw [read]
    exact fun var is => absurd is (by nofun)

/-- A batch of stored numerics is converted, and if it is compressed, then it fits its room and comes
back with every number and every scale exactly if the integers of each stream have one scale. -/
theorem numeric_batches_come_back_iff (lz4 : Lz4) (lossless : lz4.Lossless)
    (adoptRle64 adoptRle32 : Bool) (tooManyFailed : Nat → Nat → Bool) (alignSize : Nat)
    (batch : List (Option (List UInt8)))
    (stored : ∀ datum, some datum ∈ batch → IsStoredNumeric datum) (few : batch.length ≤ 60000)
    (small : (batch.filterMap id).flatten.length < 2 ^ 31) :
    ∃ result, numericCompressBatchValues lz4 adoptRle64 adoptRle32 tooManyFailed batch = some result ∧
      ∀ stat out, result = some (stat, out) →
        (BatchRestored lz4 batch alignSize stat out ↔ OneScaleEach batch) := by
  obtain ⟨rows, isRows, converted⟩ := batchConvert_converted batch stored
  refine ⟨_, by rw [numericCompressBatchValues, isRows]; rfl, ?_⟩
  intro stat out accepted
  dsimp only at accepted
  by_cases refused : (rows.filter fun row => row.2.isSome).length = 0 ∨
      tooManyFailed (rows.filter fun row => row.2.isSome).length rows.length = true
  · rw [if_pos refused] at accepted
    exact absurd accepted (by nofun)
  · rw [if_neg refused, some_inj, Prod.mk.injEq] at accepted
    obtain ⟨rfl, rfl⟩ := accepted
    have present : rows ≠ [] := by
      rintro rfl
      exact refused (.inl rfl)
    exact batchRestored_iff lz4 lossless adoptRle64 adoptRle32 alignSize rows stored few small
      converted present

/-- A batch with 1.5, a missing value and 2.5 comes back. -/
theorem numeric_batches_come_back_iff_tenths :
    ∃ stat out, numericCompressBatchValues literalLz4 true true (fun _ _ => false)
        [some (makeNumeric64 15 1), none, some (makeNumeric64 25 1)] = some (some (stat, out)) ∧
      BatchRestored literalLz4 [some (makeNumeric64 15 1), none, some (makeNumeric64 25 1)] 0 stat
        out := by
  have members : ∀ datum, some datum ∈ [some (makeNumeric64 15 1), none, some (makeNumeric64 25 1)] →
      datum = makeNumeric64 15 1 ∨ datum = makeNumeric64 25 1 := by
    intro datum member
    rw [mem_cons, mem_cons, mem_singleton] at member
    rcases member with is | is | is
    · exact .inl (Option.some_inj.mp is)
    · exact absurd is (by nofun)
    · exact .inr (Option.some_inj.mp is)
  have first : convertShortNumericToDscaleInt64 (makeNumeric64 15 1) = some (some (15, 1)) := by
    decide
  have second : convertShortNumericToDscaleInt64 (makeNumeric64 25 1) = some (some (25, 1)) := by
    decide
  obtain ⟨result, compressed, come⟩ := numeric_batches_come_back_iff literalLz4 literalLz4_lossless
    true true (fun _ _ => false) 0 [some (makeNumeric64 15 1), none, some (makeNumeric64 25 1)] (by
      intro datum member
      rcases members datum member with rfl | rfl
      · exact isStoredNumeric_makeNumeric64 15 1 (by decide) (by decide)
      · exact isStoredNumeric_makeNumeric64 25 1 (by decide) (by decide)) (by decide) (by decide)
  have accepted : batchConvert [some (makeNumeric64 15 1), none, some (makeNumeric64 25 1)] =
      some [(makeNumeric64 15 1, some (15, 1)), (makeNumeric64 25 1, some (25, 1))] := by
    decide
  rw [numericCompressBatchValues, accepted] at compressed ⊢
  refine ⟨_, _, rfl, ?_⟩
  apply (come _ _ (Option.some_inj.mp compressed).symm).mpr
  have scales : ∀ datum, some datum ∈ [some (makeNumeric64 15 1), none, some (makeNumeric64 25 1)] →
      ∀ value scale, convertShortNumericToDscaleInt64 datum = some (some (value, scale)) →
        scale = 1 := by
    intro datum member value scale converts
    rcases members datum member with rfl | rfl
    · rw [first] at converts
      cases converts
      rfl
    · rw [second] at converts
      cases converts
      rfl
  intro datum1 datum2 member1 member2 value1 scale1 value2 scale2 converts1 converts2 _
  rw [scales datum1 member1 value1 scale1 converts1, scales datum2 member2 value2 scale2 converts2]

/-- The numbers 1.5 and 1.25 with the decimals they need do not come back: both are restored with one
decimal, the second one as 12.5. -/
theorem numeric_batches_lose_scales :
    let batch := [(15, 1), (125, 2)].map fun integer : Int × Nat =>
      some (makeNumeric64 integer.1 integer.2)
    (∀ datum, some datum ∈ batch → IsStoredNumeric datum) ∧
      ∃ stat out, numericCompressBatchValues literalLz4 true true (fun _ _ => false) batch =
          some (some (stat, out)) ∧ ¬BatchRestored literalLz4 batch 0 stat out := by
  intro batch
  have first : convertShortNumericToDscaleInt64 (makeNumeric64 15 1) = some (some (15, 1)) := by
    decide
  have second : convertShortNumericToDscaleInt64 (makeNumeric64 125 2) = some (some (125, 2)) := by
    decide
  have stored : ∀ datum, some datum ∈ batch → IsStoredNumeric datum := by
    intro datum member
    obtain ⟨integer, inside, is⟩ := mem_map.mp member
    obtain rfl := Option.some_inj.mp is
    exact isStoredNumeric_makeNumeric64 _ _ (by revert integer; decide) (by revert integer; decide)
  have accepted : batchConvert batch =
      some [(makeNumeric64 15 1, some (15, 1)), (makeNumeric64 125 2, some (125, 2))] := by
    decide
  refine ⟨stored, ?_⟩
  rw [numericCompressBatchValues, accepted]
  refine ⟨_, _, rfl, ?_⟩
  intro restored
  have one := (batchRestored_iff literalLz4 literalLz4_lossless true true 0
    [(makeNumeric64 15 1, some (15, 1)), (makeNumeric64 125 2, some (125, 2))] stored (by decide)
    (by decide) ⟨rfl, by decide⟩ (by nofun)).mp restored
  have same := one (makeNumeric64 15 1) (makeNumeric64 125 2) mem_cons_self
    (mem_cons_of_mem _ mem_cons_self) 15 1 125 2 first second (by decide)
  exact absurd same (by decide)

end OpenGauss.CStore
