import OpenGauss.CStore.NumericColumn

/-!
# The streams of a batch of numerics

A batch is split row by row; seen at once, each stream has the rows of its code, in their order, and
the scale of its first row. A stream of integers is then described in the header, written, and read
again in front of whatever follows. Reading gives the values of the stream, or its single value.
-/
namespace OpenGauss.CStore

open List OpenGauss.Base OpenGauss.Numerics

/-- A value of a batch, with the integer and the scale it was converted to. -/
abbrev NumericRow := List UInt8 × Option (Int × Nat)

/-- Whether an integer has 32 bits. -/
def IsInt32 (value : Int) : Prop := -2 ^ 31 ≤ value ∧ value ≤ 2 ^ 31 - 1

instance (value : Int) : Decidable (IsInt32 value) := inferInstanceAs (Decidable (_ ∧ _))

/-- The stream that a row goes to. -/
def rowCode (row : NumericRow) : Nat :=
  match row.2 with
  | some (value, _) => if IsInt32 value then int32DscaleEncoding else int64DscaleEncoding
  | none => numericDscaleEncoding

/-- The integers of the rows with some code. -/
def streamOf (code : Nat) (rows : List NumericRow) : List (Int × Nat) :=
  (rows.filter fun row => rowCode row = code).filterMap Prod.snd

/-- The values that are no integers. -/
def failedOf (rows : List NumericRow) : List (List UInt8) :=
  (rows.filter fun row => rowCode row = numericDscaleEncoding).map Prod.fst

/-- A stream with some integers. -/
def partOf (integers : List (Int × Nat)) : IntegerPart :=
  ⟨integers.map Prod.fst, (integers.map Prod.snd).headD 0⟩

theorem partOf_append (integers : List (Int × Nat)) (value : Int) (scale : Nat) :
    (partOf integers).append value scale = partOf (integers ++ [(value, scale)]) := by
  cases integers with
  | nil => rfl
  | cons first rest =>
    rw [partOf, partOf, map_append]
    rfl

variable (code : Nat) (row : NumericRow) (rows others : List NumericRow) (adoptRle : Bool)
  (size : Nat) (part : IntegerPart) (out : CompressionArg2)

theorem streamOf_append :
    streamOf code (rows ++ others) = streamOf code rows ++ streamOf code others := by
  rw [streamOf, streamOf, streamOf, filter_append, filterMap_append]

theorem streamOf_singleton :
    streamOf code [row] = if rowCode row = code then row.2.toList else [] := by
  rw [streamOf, filter_singleton]
  by_cases same : rowCode row = code
  · rw [if_pos same, decide_eq_true same]
    obtain ⟨datum, converted⟩ := row
    cases converted <;> rfl
  · rw [if_neg same, decide_eq_false same]
    rfl

theorem failedOf_append : failedOf (rows ++ others) = failedOf rows ++ failedOf others := by
  rw [failedOf, failedOf, failedOf, filter_append, map_append]

theorem failedOf_singleton :
    failedOf [row] = if rowCode row = numericDscaleEncoding then [row.1] else [] := by
  rw [failedOf, filter_singleton]
  by_cases same : rowCode row = numericDscaleEncoding
  · rw [if_pos same, decide_eq_true same]
    rfl
  · rw [if_neg same, decide_eq_false same]
    rfl

/-- The statistics are the two streams, the codes and the rest. -/
theorem numericStatistics_eq (rows : List NumericRow) :
    numericStatistics rows = ⟨partOf (streamOf int64DscaleEncoding rows),
      partOf (streamOf int32DscaleEncoding rows), rows.map rowCode, failedOf rows⟩ := by
  induction rows using List.reverseRecOn with
  | nil => rfl
  | append_singleton rows row ih =>
    have last : numericStatistics (rows ++ [row]) = statisticsStep (numericStatistics rows) row := by
      rw [numericStatistics, numericStatistics, foldl_append]
      rfl
    rw [last, ih, streamOf_append, streamOf_append, failedOf_append, streamOf_singleton,
      streamOf_singleton, failedOf_singleton, map_append, map_singleton]
    obtain ⟨datum, converted⟩ := row
    cases converted with
    | none =>
      have code : rowCode (datum, none) = numericDscaleEncoding := rfl
      rw [code, if_neg (by decide), if_neg (by decide), if_pos rfl, append_nil, append_nil]
      rfl
    | some integer =>
      obtain ⟨value, scale⟩ := integer
      by_cases narrow : IsInt32 value
      · have code : rowCode (datum, some (value, scale)) = int32DscaleEncoding := if_pos narrow
        have step (stat : NumericsStatistics) : statisticsStep stat (datum, some (value, scale)) =
            { stat with
              int32 := stat.int32.append value scale
              codes := stat.codes ++ [int32DscaleEncoding] } := if_pos narrow
        rw [code, if_neg (by decide), if_pos rfl, if_neg (by decide), append_nil, append_nil,
          step, partOf_append]
        rfl
      · have code : rowCode (datum, some (value, scale)) = int64DscaleEncoding := if_neg narrow
        have step (stat : NumericsStatistics) : statisticsStep stat (datum, some (value, scale)) =
            { stat with
              int64 := stat.int64.append value scale
              codes := stat.codes ++ [int64DscaleEncoding] } := if_neg narrow
        rw [code, if_pos rfl, if_neg (by decide), if_neg (by decide), append_nil, append_nil,
          step, partOf_append]
        rfl

/-- A stream of integers that can be written with some width. -/
structure IntegerPart.Fits (size : Nat) (part : IntegerPart) : Prop where
  range : ∀ value ∈ part.values, InSignedRange size value
  scale : part.sameAscale < 256
  few : size * part.values.length < 2 ^ 32

theorem convertToInt64Data_of_range (narrow : size ≤ 8) (value : Int)
    (range : InSignedRange size value) (rest : List UInt8) :
    convertToInt64Data (int64DataConvertTo value size ++ rest) size = value := by
  obtain ⟨bits, fits, rfl⟩ := signedOf_of_range range
  exact convertToInt64Data_convertTo narrow rest fits

theorem IntegerPart.bytes_length : (part.bytes size).length = part.values.length * size := by
  have written := writeValues_length size (part.values.map int64Bits)
  rw [writeValues, flatMap_map, length_map] at written
  exact written

/-- The bytes of a part are its values. -/
theorem IntegerPart.intValues_bytes (wide : 0 < size) (narrow : size ≤ 8)
    {part : IntegerPart} (fits : part.Fits size) : intValues size
    (part.bytes size) = part.values := by
  have count : (part.bytes size).length / size = part.values.length := by
    rw [IntegerPart.bytes_length, Nat.mul_div_cancel _ wide]
  rw [intValues, count, IntegerPart.bytes]
  have range := fits.range
  generalize part.values = values at range
  induction values with
  | nil => rfl
  | cons value rest ih =>
    rw [forall_mem_cons] at range
    have first := convertToInt64Data_of_range size narrow value range.1
      (rest.flatMap fun value => int64DataConvertTo value size)
    rw [convertToInt64Data] at first
    have behind : (int64DataConvertTo value size ++
        rest.flatMap fun value => int64DataConvertTo value size).drop size =
          rest.flatMap fun value => int64DataConvertTo value size := drop_writeData size _ _
    rw [length_cons, flatMap_cons, readValues, map_cons, first, behind, ih range.2]

/-- How a stream of integers was written. -/
inductive PartShape (size : Nat) (part : IntegerPart) (out : CompressionArg2) : Prop
  | absent (values : part.values = []) (modes : out.modes = 0)
  | single (some : part.values ≠ []) (same : part.minMax.1 = part.minMax.2) (modes : out.modes = 0)
  | several (some : part.values ≠ []) (differ : part.minMax.1 ≠ part.minMax.2) (delta rle : Bool)
    (coded : DeltaPlusRle size part.minMax (part.bytes size) out delta rle)

theorem IntegerPart.minMaxOf (some : part.values ≠ []) :
    MinMaxOf part.values part.minMax := computeMinMaxVal_minMaxOf some

/-- What compressing a part leaves. -/
theorem compressPart_shape (width : IntegerWidth size)
    {part : IntegerPart} (fits : part.Fits size) :
    PartShape size part (compressPart adoptRle size part) := by
  have wide : 0 < size := by rcases width with four | eight <;> omega
  have narrow : size ≤ 8 := by rcases width with four | eight <;> omega
  by_cases empty : part.values = []
  · refine PartShape.absent empty ?_
    rw [compressPart, if_neg (fun both => both.1 empty)]
  · by_cases same : part.minMax.1 = part.minMax.2
    · refine PartShape.single empty same ?_
      rw [compressPart, if_neg (fun both => both.2 same)]
    · have count : 0 < part.values.length := length_pos_of_ne_nil empty
      have bounds := IntegerPart.minMaxOf part empty
      rw [← IntegerPart.intValues_bytes size wide narrow fits] at bounds
      obtain ⟨delta, rle, coded⟩ := deltaPlusRleCompress_spec adoptRle
         width count (IntegerPart.bytes_length size part) bounds
      rw [compressPart, if_pos ⟨empty, same⟩]
      exact PartShape.several empty same delta rle coded

/-- The flags of a stream that start at some bit. -/
def FlagsAt (flags first : Nat) (bits : List Bool) : Prop :=
  ∀ index < bits.length, flags.testBit (first + index) = bits.getD index false

/-- What is read of a stream. -/
structure PartRead (size : Nat) (part : IntegerPart) (out : CompressionArg2) (parsed : ParsedPart) :
    Prop where
  header : ∀ flags first rest, FlagsAt flags first (partFlags part out) →
    parsePart size flags first (partHeader size part out ++ rest) = (parsed, rest)
  same : parsed.valuesAreSame = part.valuesAreSame
  value : part.valuesAreSame = true → parsed.minVal = part.minMax.1
  scale : part.values ≠ [] → parsed.sameAscale = part.sameAscale
  values : ∀ rest, parsePartValues size part.values.length parsed (partValues size part out ++ rest) =
    (if part.valuesAreSame then [] else part.bytes size, rest)

theorem deltaRleModes_bits : ∀ delta rle : Bool,
    (deltaRleModes delta rle &&& cuDeltaCompressed ≠ 0 ↔ delta = true) ∧
      (deltaRleModes delta rle &&& cuRLECompressed ≠ 0 ↔ rle = true) ∧
      (deltaRleModes delta rle ≠ 0 ↔ (delta || rle) = true) := by
  decide

theorem IntegerPart.valuesAreSame_of_some (some : part.values ≠ []) :
    part.valuesAreSame = decide (part.minMax.1 = part.minMax.2) := by
  exact decide_eq_decide.mpr (and_iff_right some)

/-- A part without values is read as none. -/
theorem partRead_absent
    (empty : part.values = []) : PartRead size part out ⟨false, 0, size, 0, 0, 0⟩ := by
  have same : part.valuesAreSame = false := by
    exact decide_eq_false fun both => both.1 empty
  have bytes : part.bytes size = [] := by
    rw [IntegerPart.bytes, empty]
    rfl
  refine ⟨?_, same.symm, fun is => ?_, fun some => absurd empty some, fun rest => ?_⟩
  · intro flags first rest bits
    rw [partFlags, if_pos empty] at bits
    have absent : flags.testBit first = false := bits 0 (by show 0 < 5; decide)
    rw [parsePart, if_neg (by rw [absent]; decide), partHeader, if_pos empty, nil_append]
  · rw [same] at is
    exact absurd is (by decide)
  · rw [parsePartValues, if_neg (by rw [empty]; exact fun both => absurd both.1 (Nat.lt_irrefl 0)),
      partValues, if_neg (fun both => both.1 empty), same, nil_append, if_neg (by decide), bytes]

/-- A part of one value is read from its header. -/
theorem partRead_single (narrow : size ≤ 8) {part : IntegerPart} (out : CompressionArg2)
    (fits : part.Fits size) (some : part.values ≠ []) (isSame : part.minMax.1 = part.minMax.2) :
    PartRead size part out ⟨true, part.minMax.1, size, 0, 0, part.sameAscale⟩ := by
  have same : part.valuesAreSame = true := by
    rw [IntegerPart.valuesAreSame_of_some part some]
    exact decide_eq_true isSame
  have least := fits.range _ (IntegerPart.minMaxOf part some).least
  have scale : (UInt8.ofNat part.sameAscale).toNat = part.sameAscale := by
    exact Nat.mod_eq_of_lt fits.scale
  refine ⟨?_, same.symm, fun _ => rfl, fun _ => rfl, fun rest => ?_⟩
  · intro flags first rest bits
    rw [partFlags, if_neg some, same] at bits
    have present : flags.testBit first = true := bits 0 (by show 0 < 5; decide)
    have one : flags.testBit (first + 1) = true := bits 1 (by show 1 < 5; decide)
    have scaled : flags.testBit (first + 2) = true := bits 2 (by show 2 < 5; decide)
    have behind : (int64DataConvertTo part.minMax.1 size ++
        ([UInt8.ofNat part.sameAscale] ++ rest)).drop size = [UInt8.ofNat part.sameAscale] ++ rest :=
      drop_writeData size _ _
    rw [partHeader, if_neg some, if_pos same, append_assoc, parsePart, if_pos present, if_pos one,
      if_pos scaled, behind, convertToInt64Data_of_range size narrow _ least]
    show (ParsedPart.mk true part.minMax.1 size 0 0 (UInt8.ofNat part.sameAscale).toNat, rest) = _
    rw [scale]
  · rw [parsePartValues, if_neg (fun both => Bool.noConfusion both.2), partValues,
      if_neg (fun both => both.2 isSame), same, if_pos rfl, nil_append]

/-- What the header tells about a stream with several integers. -/
def severalParsed (size : Nat) (part : IntegerPart) (out : CompressionArg2) (delta rle : Bool) :
    ParsedPart where
  valuesAreSame := false
  minVal := if delta then part.minMax.1 else 0
  deltaBytes := if delta then deltaGetBytesNum part.minMax.1 part.minMax.2 else size
  modes := deltaRleModes delta rle
  cmprSize := if delta || rle then out.buf.length else 0
  sameAscale := part.sameAscale

theorem partHeader_several
    (some : part.values ≠ []) (differ : part.minMax.1 ≠ part.minMax.2) {delta rle : Bool}
    (coded : DeltaPlusRle size part.minMax (part.bytes size) out delta rle) :
    partHeader size part out = (if delta then int64DataConvertTo part.minMax.1 size ++
          [UInt8.ofNat (deltaGetBytesNum part.minMax.1 part.minMax.2)] else []) ++
        (if delta || rle then leBytes 4 out.buf.length else []) ++ [UInt8.ofNat part.sameAscale] := by
  have same : part.valuesAreSame = false := by
    rw [IntegerPart.valuesAreSame_of_some part some]
    exact decide_eq_false differ
  rw [partHeader, if_neg some, same, coded.modes]
  cases delta <;> cases rle <;> rfl

/-- The header of a stream with several integers is read. -/
theorem parsePart_several (narrow : size ≤ 8) {part : IntegerPart}
    {out : CompressionArg2} (fits : part.Fits size) (some : part.values ≠ [])
    (differ : part.minMax.1 ≠ part.minMax.2) {delta rle : Bool}
    (coded : DeltaPlusRle size part.minMax (part.bytes size) out delta rle) (flags first : Nat)
    (rest : List UInt8) (bits : FlagsAt flags first (partFlags part out)) :
    parsePart size flags first (partHeader size part out ++ rest) =
      (severalParsed size part out delta rle, rest) := by
  have same : part.valuesAreSame = false := by
    rw [IntegerPart.valuesAreSame_of_some part some]
    exact decide_eq_false differ
  obtain ⟨isDelta, isRle, -⟩ := deltaRleModes_bits delta rle
  have least := fits.range _ (IntegerPart.minMaxOf part some).least
  have scale : (UInt8.ofNat part.sameAscale).toNat = part.sameAscale := by
    rw [UInt8.toNat_ofNat']
    exact Nat.mod_eq_of_lt fits.scale
  have length : leNat (leBytes 4 out.buf.length) = out.buf.length := by
    apply leNat_leBytes
    have shorter := coded.shorter
    have few := fits.few
    rw [IntegerPart.bytes_length, Nat.mul_comm] at shorter
    omega
  rw [partFlags, if_neg some, same, coded.modes] at bits
  have present : flags.testBit first = true := bits 0 (by show 0 < 5; decide)
  have one : flags.testBit (first + 1) = false := bits 1 (by show 1 < 5; decide)
  have scaled : flags.testBit (first + 2) = true := bits 2 (by show 2 < 5; decide)
  have deltas : flags.testBit (first + 3) = delta := by
    rw [bits 3 (by show 3 < 5; decide)]
    show decide (deltaRleModes delta rle &&& cuDeltaCompressed ≠ 0) = delta
    rw [Bool.eq_iff_iff, decide_eq_true_iff]
    exact isDelta
  have runs : flags.testBit (first + 4) = rle := by
    rw [bits 4 (by show 4 < 5; decide)]
    show decide (deltaRleModes delta rle &&& cuRLECompressed ≠ 0) = rle
    rw [Bool.eq_iff_iff, decide_eq_true_iff]
    exact isRle
  rw [partHeader_several size part out some differ coded, parsePart, if_pos present,
    if_neg (show ¬flags.testBit (first + 1) = true by rw [one]; decide), deltas, runs, if_pos scaled]
  cases delta with
  | true =>
    have bytes : (UInt8.ofNat (deltaGetBytesNum part.minMax.1 part.minMax.2)).toNat =
        deltaGetBytesNum part.minMax.1 part.minMax.2 := by
      rw [UInt8.toNat_ofNat']
      exact Nat.mod_eq_of_lt (by have fewer := coded.fewer rfl; omega)
    have split : int64DataConvertTo part.minMax.1 size ++
        [UInt8.ofNat (deltaGetBytesNum part.minMax.1 part.minMax.2)] ++ leBytes 4 out.buf.length ++
          [UInt8.ofNat part.sameAscale] ++ rest =
        int64DataConvertTo part.minMax.1 size ++
          (UInt8.ofNat (deltaGetBytesNum part.minMax.1 part.minMax.2) ::
            (leBytes 4 out.buf.length ++ (UInt8.ofNat part.sameAscale :: rest))) := by
      simp only [append_assoc, cons_append, nil_append]
    have behind1 (tail : List UInt8) : (int64DataConvertTo part.minMax.1 size ++ tail).drop size =
        tail := drop_writeData size _ _
    have behind2 (byte : UInt8) (tail : List UInt8) :
        (int64DataConvertTo part.minMax.1 size ++ (byte :: tail)).drop (size + 1) = tail := by
      rw [← drop_drop, behind1]
      rfl
    have behind3 (byte : UInt8) (tail : List UInt8) :
        (int64DataConvertTo part.minMax.1 size ++ (byte :: (leBytes 4 out.buf.length ++ tail))).drop
          (size + 1 + 4) = tail := by
      rw [← drop_drop, behind2, drop_left' (leBytes_length 4 _)]
    rw [if_pos rfl, if_pos (Bool.true_or rle), if_pos (Bool.true_or rle), if_pos rfl, split, behind1,
      behind2, behind3, take_left' (leBytes_length 4 _), length,
      convertToInt64Data_of_range size narrow _ least]
    show (ParsedPart.mk false part.minMax.1 (UInt8.ofNat (deltaGetBytesNum part.minMax.1
      part.minMax.2)).toNat (deltaRleModes true rle) out.buf.length
        (UInt8.ofNat part.sameAscale).toNat, rest) = _
    rw [bytes, scale]
    rfl
  | false =>
    cases rle with
    | true =>
      show (ParsedPart.mk false 0 size (deltaRleModes false true)
        (leNat ((leBytes 4 out.buf.length ++ [UInt8.ofNat part.sameAscale] ++ rest).take 4))
        (((leBytes 4 out.buf.length ++ [UInt8.ofNat part.sameAscale] ++ rest).drop 4).headD 0).toNat,
        ((leBytes 4 out.buf.length ++ [UInt8.ofNat part.sameAscale] ++ rest).drop 4).drop 1) = _
      rw [append_assoc, take_left' (leBytes_length 4 _), drop_left' (leBytes_length 4 _), length]
      show (ParsedPart.mk false 0 size (deltaRleModes false true) out.buf.length
        (UInt8.ofNat part.sameAscale).toNat, rest) = _
      rw [scale]
      rfl
    | false =>
      show (ParsedPart.mk false 0 size 0 0 (UInt8.ofNat part.sameAscale).toNat, rest) = _
      rw [scale]
      rfl

/-- A part of several values is read from its header. -/
theorem partRead_several (narrow : size ≤ 8) {part : IntegerPart}
    {out : CompressionArg2} (fits : part.Fits size) (some : part.values ≠ [])
    (differ : part.minMax.1 ≠ part.minMax.2) {delta rle : Bool}
    (coded : DeltaPlusRle size part.minMax (part.bytes size) out delta rle) :
    PartRead size part out (severalParsed size part out delta rle) := by
  have same : part.valuesAreSame = false := by
    rw [IntegerPart.valuesAreSame_of_some part some]
    exact decide_eq_false differ
  refine ⟨parsePart_several size narrow fits some differ coded, same.symm,
    fun is => ?_, fun _ => rfl, fun rest => ?_⟩
  · rw [same] at is
    exact absurd is (by decide)
  · have steps := (deltaRleModes_bits delta rle).2.2
    have modes : (severalParsed size part out delta rle).modes = deltaRleModes delta rle := rfl
    rw [parsePartValues, if_pos ⟨length_pos_of_ne_nil some, rfl⟩, modes, same,
      if_neg (show ¬false = true by decide), partValues,
      if_pos (show part.values ≠ [] ∧ part.minMax.1 ≠ part.minMax.2 from ⟨some, differ⟩), coded.modes]
    by_cases taken : (delta || rle) = true
    · have size' : (severalParsed size part out delta rle).cmprSize = out.buf.length := if_pos taken
      have restored := coded.restores taken
      have least : deltaPlusRleDecompress (severalParsed size part out delta rle).minVal
          (severalParsed size part out delta rle).deltaBytes size (deltaRleModes delta rle) out.buf =
          part.bytes size := by
        rw [← restored, deltaPlusRleDecompress_modes, deltaPlusRleDecompress_modes]
        cases delta <;> rfl
      rw [if_pos (steps.mpr taken), if_pos (steps.mpr taken), size', take_left, drop_left, least]
    · have width := IntegerPart.bytes_length size part
      rw [if_neg (fun some => taken (steps.mp some)), if_neg (fun some => taken (steps.mp some)),
        Nat.mul_comm size, ← width, take_left, drop_left]

theorem compressPart_read (width : IntegerWidth size) {part : IntegerPart} (fits : part.Fits size) :
    ∃ parsed, PartRead size part (compressPart adoptRle size part) parsed := by
  have narrow : size ≤ 8 := by rcases width with four | eight <;> omega
  rcases compressPart_shape adoptRle size width fits with
    ⟨empty, -⟩ | ⟨some, same, -⟩ | ⟨some, differ, delta, rle, coded⟩
  · exact ⟨_, partRead_absent size part _ empty⟩
  · exact ⟨_, partRead_single size narrow _ fits some same⟩
  · exact ⟨_, partRead_several size narrow fits some differ coded⟩

end OpenGauss.CStore
