import OpenGauss.CStore.NumericStreams
import Mathlib.Logic.Function.Iterate

/-!
# Restoring a batch of numerics

The header is read part by part, each in front of the rest; the codes are read from their bits; and
the streams are merged by the codes. A stream with one value feeds it again and again, a stream with
several feeds them one after the other, and both give what was split off. What is restored is every
value that is no integer as it was, and every integer with the scale of its stream.
-/
namespace OpenGauss.CStore

open List OpenGauss.Base OpenGauss.Numerics

variable (lz4 : Lz4) (single : List UInt8) (codes : List Nat) (row : NumericRow) (code : Nat)
  (part : IntegerPart) (stat : NumericsStatistics) (out : NumericsCompressed)
  (rows : List NumericRow)

theorem partFlags_length (out : CompressionArg2) : (partFlags part out).length = 5 := by
  rw [partFlags]
  split <;> rfl

theorem partFlags_first (out : CompressionArg2) :
    (partFlags part out).getD 0 false = decide (part.values ≠ []) := by
  rw [partFlags]
  by_cases empty : part.values = []
  · rw [if_pos empty, decide_eq_false (fun some => some empty)]
    rfl
  · rw [if_neg empty, decide_eq_true empty]
    rfl

/-- The flags of both parts are read at their places. -/
theorem numericFlags_at :
    FlagsAt (bitsValue (numericFlags stat out)) 2 (partFlags stat.int32 out.int32) ∧
      FlagsAt (bitsValue (numericFlags stat out)) 7 (partFlags stat.int64 out.int64) := by
  have length := partFlags_length stat.int32 out.int32
  constructor
  · intro index inside
    rw [bitsValue_testBit, numericFlags, append_assoc, getD_append_right _ _ _ _ (by
      show 2 ≤ 2 + index; lia), getD_append _ _ _ _ (by show 2 + index - 2 < _; lia)]
    show List.getD _ (2 + index - 2) false = _
    rw [Nat.add_sub_cancel_left]
  · intro index inside
    rw [bitsValue_testBit, numericFlags, getD_append_right _ _ _ _ (by
      rw [length_append, length]; show 2 + 5 ≤ 7 + index; omega), length_append, length]
    show List.getD _ (7 + index - 7) false = _
    rw [Nat.add_sub_cancel_left]

/-- The flags that tell which streams exist. -/
structure StreamFlags (stat : NumericsStatistics) (out : NumericsCompressed) (flags : Nat) :
    Prop where
  other : flags.testBit 0 = decide (stat.failed ≠ [])
  lz4 : flags.testBit 1 = (decide (stat.failed ≠ []) && out.otherApplyLz4)
  int32 : flags.testBit 2 = decide (stat.int32.values ≠ [])
  int64 : flags.testBit 7 = decide (stat.int64.values ≠ [])

theorem numericFlags_streams : StreamFlags stat out (bitsValue (numericFlags stat out)) := by
  obtain ⟨narrow, wide⟩ := numericFlags_at stat out
  have first32 := narrow 0 (by rw [partFlags_length]; decide)
  have first64 := wide 0 (by rw [partFlags_length]; decide)
  rw [partFlags_first] at first32 first64
  refine ⟨?_, ?_, first32, first64⟩
  · rw [bitsValue_testBit]
    rfl
  · rw [bitsValue_testBit]
    rfl

/-- The bytes of the values that are no integers, where the header tells them. -/
def headerFailedSize (stat : NumericsStatistics) (out : NumericsCompressed) : Nat :=
  if stat.failed ≠ [] ∧ out.otherApplyLz4 = false then stat.failedSize else 0

/-- The header is parsed to what was filled in. -/
theorem numericDecompressParseHeader_fillHeader
    {int64 int32 : ParsedPart} (read64 : PartRead 8 stat.int64 out.int64 int64)
    (read32 : PartRead 4 stat.int32 out.int32 int32) (small : stat.failedSize < 2 ^ 32)
    (rest : List UInt8) :
    numericDecompressParseHeader (numericCompressFillHeader stat out ++ rest) =
      (⟨bitsValue (numericFlags stat out), int64, int32, headerFailedSize stat out⟩, rest) := by
  have flags := numericFlags_streams stat out
  obtain ⟨at32, at64⟩ := numericFlags_at stat out
  have length : (numericFlags stat out).length = 12 := by
    rw [numericFlags, length_append, length_append, partFlags_length, partFlags_length]
    rfl
  have below := bitsValue_lt (numericFlags stat out)
  rw [length] at below
  have isFlags : leNat (leBytes 2 (bitsValue (numericFlags stat out))) =
      bitsValue (numericFlags stat out) :=
    leNat_leBytes 2 _ (Nat.lt_of_lt_of_le below (by decide))
  have isSize : leNat (leBytes 4 stat.failedSize) = stat.failedSize :=
    leNat_leBytes 4 _ (Nat.lt_of_lt_of_le small (by decide))
  rw [numericCompressFillHeader]
  generalize bitsValue (numericFlags stat out) = value at flags at32 at64 isFlags
  simp only [append_assoc]
  have skip (tail : List UInt8) :
      (leBytes 2 value ++ (leBytes 4 stat.originalSize ++ tail)).drop 6 = tail := by
    rw [show 6 = 2 + 4 by rfl, ← drop_drop, drop_left' (leBytes_length 2 _),
      drop_left' (leBytes_length 4 _)]
  rw [numericDecompressParseHeader, take_left' (leBytes_length 2 _), isFlags, skip,
    read64.header value 7 _ at64]
  dsimp only
  rw [read32.header value 2 _ at32, flags.other, flags.lz4, headerFailedSize]
  by_cases plain : stat.failed ≠ [] ∧ out.otherApplyLz4 = false
  · rw [if_pos plain, if_pos plain, decide_eq_true plain.1, plain.2]
    dsimp only
    rw [if_pos (by decide), take_left' (leBytes_length 4 _), isSize,
      drop_left' (leBytes_length 4 _)]
  · rw [if_neg plain, if_neg plain, nil_append, if_neg]
    intro both
    rw [Bool.and_eq_true, decide_eq_true_iff, Bool.not_eq_true', Bool.and_eq_false_iff] at both
    rcases both.2 with absent | unused
    · exact of_decide_eq_false absent both.1
    · exact plain ⟨both.1, unused⟩

/-- How many codes there are of each kind. -/
structure CodeCounts (stat : NumericsStatistics) : Prop where
  int64 : stat.int64.values.length = stat.codes.count int64DscaleEncoding
  int32 : stat.int32.values.length = stat.codes.count int32DscaleEncoding
  failed : stat.failed.length = stat.codes.count numericDscaleEncoding
  known : ∀ code ∈ stat.codes, code = 0 ∨ code = 1 ∨ code = 2

/-- Each row has one of three codes. -/
theorem count_codes (known : ∀ code ∈ codes, code = 0 ∨ code = 1 ∨ code = 2) :
    codes.count 0 + codes.count 1 + codes.count 2 = codes.length := by
  induction codes with
  | nil => rfl
  | cons code rest ih =>
    rw [forall_mem_cons] at known
    have others := ih known.2
    rw [count_cons, count_cons, count_cons, length_cons]
    rcases known.1 with rfl | rfl | rfl
    · rw [if_pos (by decide), if_neg (by decide), if_neg (by decide)]
      lia
    · rw [if_neg (by decide), if_pos (by decide), if_neg (by decide)]
      lia
    · rw [if_neg (by decide), if_neg (by decide), if_pos (by decide)]
      lia

/-- A packed bitmap of two codes is parsed. -/
theorem parseBitmap_pack {valueIfSet valueIfUnset : Nat} (differ : valueIfSet ≠ valueIfUnset)
    (two : ∀ code ∈ codes, code = valueIfSet ∨ code = valueIfUnset) (rest : List UInt8) :
    parseBitmap (packBitmap ((codes.length + 7) / 8)
        (codes.map fun code => decide (code ≠ valueIfUnset)) ++ rest) codes.length valueIfSet
        valueIfUnset = (codes, codes.count valueIfUnset) ∧ (packBitmap ((codes.length + 7) / 8)
        (codes.map fun code => decide (code ≠ valueIfUnset)) ++ rest).drop ((codes.length + 7) / 8) =
          rest := by
  have length := packBitmap_length ((codes.length + 7) / 8)
    (codes.map fun code => decide (code ≠ valueIfUnset))
  have unpacked := unpackBitmap_packBitmap ((codes.length + 7) / 8)
    (codes.map fun code => decide (code ≠ valueIfUnset)) (by rw [length_map]; lia)
  rw [length_map] at unpacked
  refine ⟨?_, drop_left' length⟩
  rw [parseBitmap, take_left' length, unpacked]
  have restored : (codes.map fun code => decide (code ≠ valueIfUnset)).map
      (fun bit => if bit then valueIfSet else valueIfUnset) = codes := by
    rw [map_map]
    refine Eq.trans (map_congr_left ?_) (map_id codes)
    intro code member
    show (if decide (code ≠ valueIfUnset) = true then valueIfSet else valueIfUnset) = code
    rcases two code member with rfl | rfl
    · rw [if_pos (decide_eq_true differ)]
    · rw [if_neg (by rw [decide_eq_true_iff]; exact fun is => is rfl)]
  have counted : (codes.map fun code => decide (code ≠ valueIfUnset)).count true +
      codes.count valueIfUnset = codes.length := by
    rw [List.count, countP_map, List.count, Nat.add_comm]
    rw [length_eq_countP_add_countP (fun code => code == valueIfUnset)]
    congr 1
    apply countP_congr
    intro code _
    show ((decide (code ≠ valueIfUnset) == true) = true) ↔ decide (¬(code == valueIfUnset) = true) = true
    rw [beq_iff_eq, decide_eq_true_iff, decide_eq_true_iff, beq_iff_eq]
  dsimp only
  rw [restored]
  congr 1
  omega

/-- What is read of the codes. -/
structure DscalesRead (stat : NumericsStatistics) (dscales : ParsedDscales) : Prop where
  int64 : dscales.int64Count = stat.int64.values.length
  int32 : dscales.int32Count = stat.int32.values.length
  failed : dscales.failedCount = stat.failed.length
  codes : ¬(stat.failed = [] ∧ (stat.int64.values = [] ∨ stat.int32.values = [])) →
    dscales.codes = stat.codes

/-- The codes are read in front of what follows. -/
theorem numericDecompressParseDscales_fillDscales (counts : CodeCounts stat) (flags : Nat)
    (streams : StreamFlags stat out flags) (rest : List UInt8) :
    ∃ dscales, numericDecompressParseDscales flags stat.codes.length
        (numericCompressFillDscales stat ++ rest) = (dscales, rest) ∧ DscalesRead stat dscales := by
  have all := count_codes stat.codes counts.known
  have count64 : stat.int64.values.length = stat.codes.count 2 := counts.int64
  have count32 : stat.int32.values.length = stat.codes.count 1 := counts.int32
  have count0 : stat.failed.length = stat.codes.count 0 := counts.failed
  have missing (values : List Int) (code : Nat) (count : values.length = stat.codes.count code)
      (empty : values = []) : ∀ other ∈ stat.codes, other ≠ code := by
    intro other member same
    rw [empty, length_nil] at count
    have positive := count_pos_iff.mpr (same ▸ member)
    omega
  rw [numericDecompressParseDscales, numericCompressFillDscales, streams.other, streams.int32,
    streams.int64]
  by_cases noOther : stat.failed = []
  · have none0 : stat.failed.length = 0 := by rw [noOther]; rfl
    rw [decide_eq_false (fun is => is noOther), if_pos rfl, if_pos noOther]
    by_cases no64 : stat.int64.values = []
    · have none64 : stat.int64.values.length = 0 := by rw [no64]; rfl
      rw [decide_eq_false (fun is => is no64), if_pos rfl, if_pos no64]
      refine ⟨_, rfl, none64.symm, ?_, none0.symm, fun both => absurd ⟨noOther, .inl no64⟩ both⟩
      show stat.codes.length = _
      lia
    · rw [decide_eq_true no64, if_neg (by decide), if_neg no64]
      by_cases no32 : stat.int32.values = []
      · have none32 : stat.int32.values.length = 0 := by rw [no32]; rfl
        rw [decide_eq_false (fun is => is no32), if_pos rfl, if_pos no32]
        refine ⟨_, rfl, ?_, none32.symm, none0.symm, fun both => absurd ⟨noOther, .inr no32⟩ both⟩
        show stat.codes.length = _
        lia
      · rw [decide_eq_true no32, if_neg (by decide), if_neg no32]
        have two : ∀ code ∈ stat.codes, code = int32DscaleEncoding ∨ code = int64DscaleEncoding := by
          intro code member
          rcases counts.known code member with zero | one | two
          · have positive := count_pos_iff.mpr (zero ▸ member)
            lia
          · exact .inl one
          · exact .inr two
        obtain ⟨parsed, behind⟩ := parseBitmap_pack stat.codes (by decide) two rest
        rw [parsed, behind]
        refine ⟨_, rfl, counts.int64.symm, ?_, none0.symm, fun _ => rfl⟩
        show stat.codes.length - stat.codes.count 2 = _
        grind
  · rw [decide_eq_true noOther, if_neg (by decide), if_neg noOther]
    by_cases no32 : stat.int32.values = []
    · have none32 : stat.int32.values.length = 0 := by rw [no32]; rfl
      have two : ∀ code ∈ stat.codes, code = numericDscaleEncoding ∨ code = int64DscaleEncoding := by
        intro code member
        rcases counts.known code member with zero | one | two
        · exact .inl zero
        · exact absurd one (missing _ 1 count32 no32 code member)
        · exact .inr two
      obtain ⟨parsed, behind⟩ := parseBitmap_pack stat.codes (by decide) two rest
      rw [decide_eq_false (fun is => is no32), if_pos rfl, if_pos no32, parsed, behind]
      refine ⟨_, rfl, counts.int64.symm, none32.symm, ?_, fun _ => rfl⟩
      show stat.codes.length - stat.codes.count 2 = _
      grind
    · rw [decide_eq_true no32, if_neg (by decide), if_neg no32]
      by_cases no64 : stat.int64.values = []
      · have none64 : stat.int64.values.length = 0 := by rw [no64]; rfl
        have two : ∀ code ∈ stat.codes, code = numericDscaleEncoding ∨ code = int32DscaleEncoding := by
          intro code member
          rcases counts.known code member with zero | one | two
          · exact .inl zero
          · exact .inr one
          · exact absurd two (missing _ 2 count64 no64 code member)
        obtain ⟨parsed, behind⟩ := parseBitmap_pack stat.codes (by decide) two rest
        rw [decide_eq_false (fun is => is no64), if_pos rfl, if_pos no64, parsed, behind]
        refine ⟨_, rfl, none64.symm, counts.int32.symm, ?_, fun _ => rfl⟩
        show stat.codes.length - stat.codes.count 1 = _
        grind
      · have length := packPairs_length ((stat.codes.length + 3) / 4) stat.codes
        have unpacked := unpackPairs_packPairs ((stat.codes.length + 3) / 4) stat.codes (by lia)
          (fun code member => by rcases counts.known code member with is | is | is <;> omega)
        rw [decide_eq_true no64, if_neg (by decide), if_neg no64]
        rw [take_left' length, drop_left' length, unpacked]
        refine ⟨_, rfl, counts.int64.symm, counts.int32.symm, ?_, fun _ => rfl⟩
        show stat.codes.length - stat.codes.count 2 - stat.codes.count 1 = _
        lia

/-- What a row is restored to, by the scales of the streams of integers. -/
def restoredRow (int32Dscale int64Dscale : Nat) (row : NumericRow) : List UInt8 :=
  match row.2 with
  | some (value, _) => makeNumeric64 value (if IsInt32 value then int32Dscale else int64Dscale)
  | none => row.1

/-- A stream that gives some values when it is read value by value. -/
def Feeds (same : Bool) (stream values : List Int) : Prop :=
  if same then ∀ value ∈ values, stream.headD 0 = value else stream = values

theorem streamNext_feeds {same : Bool} {stream : List Int} {value : Int} {rest : List Int}
    (feeds : Feeds same stream (value :: rest)) :
    (streamNext same stream).1 = value ∧ Feeds same (streamNext same stream).2 rest := by
  cases same with
  | true =>
    have all : ∀ other ∈ value :: rest, stream.headD 0 = other := feeds
    rw [forall_mem_cons] at all
    exact all
  | false =>
    have is : stream = value :: rest := feeds
    rw [is]
    exact ⟨rfl, rfl⟩

/-- Rows of all codes are restored in order. -/
theorem convertMixedToBINumeric_restores (int64Same int32Same : Bool) (int32Dscale int64Dscale : Nat)
    (rows : List NumericRow) (int32Val int64Val : List Int)
    (feeds32 : Feeds int32Same int32Val ((streamOf int32DscaleEncoding rows).map Prod.fst))
    (feeds64 : Feeds int64Same int64Val ((streamOf int64DscaleEncoding rows).map Prod.fst))
    (varlenas : ∀ row ∈ rows, IsVarlena row.1) :
    convertMixedToBINumeric int64Same int32Same int32Dscale int64Dscale (rows.map rowCode) int32Val
      int64Val (failedOf rows).flatten = rows.map (restoredRow int32Dscale int64Dscale) := by
  induction rows generalizing int32Val int64Val with
  | nil => rfl
  | cons row rest ih =>
    rw [forall_mem_cons] at varlenas
    have split : row :: rest = [row] ++ rest := rfl
    rw [split, streamOf_append, streamOf_singleton] at feeds32 feeds64
    have failed : failedOf (row :: rest) = (if rowCode row = numericDscaleEncoding then [row.1]
        else []) ++ failedOf rest := by
      rw [split, failedOf_append, failedOf_singleton]
    rw [failed, map_cons, map_cons, convertMixedToBINumeric]
    obtain ⟨datum, converted⟩ := row
    cases converted with
    | none =>
      have code : rowCode (datum, none) = numericDscaleEncoding := rfl
      rw [code, if_neg (by decide), nil_append] at feeds32 feeds64
      have size := varsizeAny_append datum (failedOf rest).flatten varlenas.1
      rw [code, if_neg (by decide), if_neg (by decide), if_pos rfl, singleton_append,
        flatten_cons, size, take_left, drop_left, ih int32Val int64Val feeds32 feeds64
        varlenas.2]
      rfl
    | some integer =>
      obtain ⟨value, scale⟩ := integer
      by_cases narrow : IsInt32 value
      · have code : rowCode (datum, some (value, scale)) = int32DscaleEncoding := if_pos narrow
        have restored : restoredRow int32Dscale int64Dscale (datum, some (value, scale)) =
            makeNumeric64 value int32Dscale := by
          show makeNumeric64 value (if IsInt32 value then int32Dscale else int64Dscale) = _
          rw [if_pos narrow]
        rw [code, if_pos rfl] at feeds32
        rw [code, if_neg (by decide), nil_append] at feeds64
        obtain ⟨first, others⟩ := streamNext_feeds feeds32
        rw [code, if_pos rfl, if_neg (by decide), nil_append, restored]
        dsimp only
        rw [first, ih _ int64Val others feeds64 varlenas.2]
      · have code : rowCode (datum, some (value, scale)) = int64DscaleEncoding := if_neg narrow
        have restored : restoredRow int32Dscale int64Dscale (datum, some (value, scale)) =
            makeNumeric64 value int64Dscale := by
          show makeNumeric64 value (if IsInt32 value then int32Dscale else int64Dscale) = _
          rw [if_neg narrow]
        rw [code, if_pos rfl] at feeds64
        rw [code, if_neg (by decide), nil_append] at feeds32
        obtain ⟨first, others⟩ := streamNext_feeds feeds64
        rw [code, if_neg (by decide), if_pos rfl, if_neg (by decide), nil_append, restored]
        dsimp only
        rw [first, ih int32Val _ feeds32 others varlenas.2]

/-- One step of the logarithm. -/
theorem int32ValueLogStep_spec (value shift : Nat) (state : Nat × Nat)
    (part : state.2 = value / 2 ^ state.1) (positive : 0 < state.2)
    (fits : state.2 < 2 ^ shift * 2 ^ shift) : (int32ValueLogStep (2 ^ shift - 1) shift state).2 =
        value / 2 ^ (int32ValueLogStep (2 ^ shift - 1) shift state).1 ∧
      0 < (int32ValueLogStep (2 ^ shift - 1) shift state).2 ∧
      (int32ValueLogStep (2 ^ shift - 1) shift state).2 < 2 ^ shift := by
  have power : 0 < 2 ^ shift := Nat.two_pow_pos shift
  rw [int32ValueLogStep]
  by_cases large : 2 ^ shift - 1 < state.2
  · rw [if_pos large]
    refine ⟨?_, Nat.div_pos (by omega) power, ?_⟩
    · dsimp only
      rw [part, Nat.div_div_eq_div_mul, Nat.pow_add]
    · exact Nat.div_lt_of_lt_mul fits
  · rw [if_neg large]
    exact ⟨part, positive, by omega⟩

/-- The logarithm is that of the value. -/
theorem int32ValueLog_spec {value : Nat} (positive : 0 < value) (fits : value < 2 ^ 32) :
    2 ^ int32ValueLog value ≤ value ∧ value < 2 ^ (int32ValueLog value + 1) := by
  have step1 := int32ValueLogStep_spec value 16 (0, value) (by dsimp only; rw [Nat.pow_zero, Nat.div_one])
    positive (by dsimp only; omega)
  have step2 := int32ValueLogStep_spec value 8 _ step1.1 step1.2.1 step1.2.2
  have step3 := int32ValueLogStep_spec value 4 _ step2.1 step2.2.1 step2.2.2
  have step4 := int32ValueLogStep_spec value 2 _ step3.1 step3.2.1 step3.2.2
  obtain ⟨part, some, few⟩ := step4
  have isLog : int32ValueLog value = if 0x01 < (int32ValueLogStep (2 ^ 2 - 1) 2 (int32ValueLogStep
      (2 ^ 4 - 1) 4 (int32ValueLogStep (2 ^ 8 - 1) 8 (int32ValueLogStep (2 ^ 16 - 1) 16
        (0, value))))).2 then (int32ValueLogStep (2 ^ 2 - 1) 2 (int32ValueLogStep
      (2 ^ 4 - 1) 4 (int32ValueLogStep (2 ^ 8 - 1) 8 (int32ValueLogStep (2 ^ 16 - 1) 16
        (0, value))))).1 + 1 else (int32ValueLogStep (2 ^ 2 - 1) 2 (int32ValueLogStep
      (2 ^ 4 - 1) 4 (int32ValueLogStep (2 ^ 8 - 1) 8 (int32ValueLogStep (2 ^ 16 - 1) 16
        (0, value))))).1 := rfl
  rw [isLog]
  generalize int32ValueLogStep (2 ^ 2 - 1) 2 _ = reduced at part some few
  obtain ⟨bits, high⟩ := reduced
  dsimp only at part some few ⊢
  have power : 0 < 2 ^ bits := Nat.two_pow_pos bits
  have low : high * 2 ^ bits ≤ value := by rw [part]; exact Nat.div_mul_le_self value _
  have top : value < (high + 1) * 2 ^ bits := by
    rw [part]
    exact Nat.lt_mul_of_div_lt (Nat.lt_succ_self _) power
  have double : 2 ^ (bits + 1) = 2 * 2 ^ bits := by rw [Nat.pow_succ, Nat.mul_comm]
  have again : 2 ^ (bits + 1 + 1) = 4 * 2 ^ bits := by rw [Nat.pow_succ, double]; lia
  by_cases several : 1 < high
  · rw [if_pos several, double, again]
    have two : 2 * 2 ^ bits ≤ high * 2 ^ bits := Nat.mul_le_mul_right _ several
    have four : (high + 1) * 2 ^ bits ≤ 4 * 2 ^ bits := Nat.mul_le_mul_right _ (by grind)
    lia
  · obtain rfl : high = 1 := by lia
    rw [if_neg several, double]
    lia

theorem iterate_double (loops : Nat) :
    (fun copies : List (List UInt8) => copies ++ copies)^[loops] [single] =
      List.replicate (2 ^ loops) single := by
  induction loops with
  | zero => rfl
  | succ loops ih =>
    rw [Function.iterate_succ_apply', ih, replicate_append_replicate, Nat.pow_succ, Nat.mul_two]

theorem numericDecompressRepeatOneValue_eq (repeats : Nat)
    (positive : 0 < repeats) (fits : repeats < 2 ^ 32) :
    numericDecompressRepeatOneValue single repeats = List.replicate repeats single := by
  obtain ⟨low, high⟩ := int32ValueLog_spec positive fits
  unfold numericDecompressRepeatOneValue
  generalize int32ValueLog repeats = loops at low high
  dsimp only
  rw [iterate_double, take_replicate, replicate_append_replicate]
  congr 1
  omega

/-- A batch that can be compressed. -/
structure RowsReady (rows : List NumericRow) : Prop where
  present : rows ≠ []
  converted : ∀ row ∈ rows, ∀ value scale, row.2 = some (value, scale) → InInt64 value ∧ scale < 256
  varlenas : ∀ row ∈ rows, IsVarlena row.1
  few : rows.length ≤ 60000
  small : (rows.map Prod.fst).flatten.length < 2 ^ 31

theorem mem_streamOf (integer : Int × Nat) (member : integer ∈ streamOf code rows) :
    ∃ row ∈ rows, rowCode row = code ∧ row.2 = some integer := by
  rw [streamOf, mem_filterMap] at member
  obtain ⟨row, inside, is⟩ := member
  rw [mem_filter, decide_eq_true_iff] at inside
  exact ⟨row, inside.1, inside.2, is⟩

theorem rowCode_integer (integer : rowCode row ≠ numericDscaleEncoding) :
    ∃ value scale, row.2 = some (value, scale) := by
  obtain ⟨datum, converted⟩ := row
  cases converted with
  | none => exact absurd rfl integer
  | some pair => exact ⟨pair.1, pair.2, rfl⟩

theorem rowCode_cases : rowCode row = 0 ∨ rowCode row = 1 ∨ rowCode row = 2 := by
  obtain ⟨datum, converted⟩ := row
  cases converted with
  | none => exact .inl rfl
  | some pair =>
    by_cases narrow : IsInt32 pair.1
    · exact .inr (.inl (if_pos narrow))
    · exact .inr (.inr (if_neg narrow))

theorem rowCode_int32 {value : Int} {scale : Nat} (is : row.2 = some (value, scale)) :
    rowCode row = int32DscaleEncoding ↔ IsInt32 value := by
  rw [rowCode, is]
  by_cases narrow : IsInt32 value
  · exact iff_of_true (if_pos narrow) narrow
  · refine iff_of_false ?_ narrow
    show (if IsInt32 value then int32DscaleEncoding else int64DscaleEncoding) ≠ int32DscaleEncoding
    rw [if_neg narrow]
    decide

variable {code}

theorem streamOf_length (integers : code ≠ numericDscaleEncoding)
    (rows : List NumericRow) : (streamOf code rows).length = (rows.map rowCode).count code := by
  induction rows with
  | nil => rfl
  | cons row rest ih =>
    have split : row :: rest = [row] ++ rest := rfl
    rw [split, streamOf_append, streamOf_singleton, length_append, ih, map_append,
      count_append, map_singleton, count_singleton]
    by_cases same : rowCode row = code
    · obtain ⟨value, scale, is⟩ := rowCode_integer row (by rw [same]; exact integers)
      rw [if_pos same, is, if_pos (by rw [same]; exact beq_self_eq_true code)]
      rfl
    · rw [if_neg same, if_neg (fun is => same (beq_iff_eq.mp is))]
      rfl

theorem failedOf_length :
    (failedOf rows).length = (rows.map rowCode).count numericDscaleEncoding := by
  rw [failedOf, length_map, ← countP_eq_length_filter, List.count, countP_map]
  rfl

theorem numericStatistics_counts : CodeCounts (numericStatistics rows) := by
  rw [numericStatistics_eq]
  refine ⟨?_, ?_, failedOf_length rows, ?_⟩
  · show ((streamOf _ rows).map Prod.fst).length = _
    rw [length_map]
    exact streamOf_length (by decide) rows
  · show ((streamOf _ rows).map Prod.fst).length = _
    rw [length_map]
    exact streamOf_length (by decide) rows
  · intro code member
    obtain ⟨row, -, rfl⟩ := mem_map.mp member
    exact rowCode_cases row

/-- The values of a part fit its width. -/
theorem RowsReady.fits (ready : RowsReady rows) {code size : Nat}
    (narrow : size ≤ 8) (integers : code ≠ numericDscaleEncoding)
    (range : ∀ row ∈ rows, rowCode row = code → ∀ value scale, row.2 = some (value, scale) →
      InSignedRange size value) : (partOf (streamOf code rows)).Fits size := by
  refine ⟨?_, ?_, ?_⟩
  · intro value member
    obtain ⟨integer, inside, rfl⟩ := mem_map.mp member
    obtain ⟨row, isRow, isCode, is⟩ := mem_streamOf code rows integer inside
    exact range row isRow isCode _ _ is
  · show ((streamOf code rows).map Prod.snd).headD 0 < 256
    cases stream : streamOf code rows with
    | nil => decide
    | cons integer rest =>
      obtain ⟨row, isRow, -, is⟩ := mem_streamOf code rows integer
        (by rw [stream]; exact mem_cons_self)
      exact (ready.converted row isRow _ _ is).2
  · show size * ((streamOf code rows).map Prod.fst).length < 2 ^ 32
    have count := count_le_length (a := code) (l := rows.map rowCode)
    rw [length_map] at count
    rw [length_map, streamOf_length integers]
    have few := ready.few
    have product := Nat.mul_le_mul narrow (count.trans few)
    omega

theorem RowsReady.fits32 (ready : RowsReady rows) :
    (partOf (streamOf int32DscaleEncoding rows)).Fits 4 := by
  apply RowsReady.fits rows ready (by decide) (by decide)
  intro row _ code value scale is
  obtain ⟨least, most⟩ := (rowCode_int32 row is).mp code
  have word : (256 : Int) ^ 4 = 2 ^ 32 := by decide
  rw [InSignedRange]
  lia

theorem RowsReady.fits64 (ready : RowsReady rows) :
    (partOf (streamOf int64DscaleEncoding rows)).Fits 8 := by
  apply RowsReady.fits rows ready (by decide) (by decide)
  intro row isRow _ value scale is
  obtain ⟨least, most⟩ := (ready.converted row isRow value scale is).1
  have word : (256 : Int) ^ 8 = 2 ^ 64 := by decide
  rw [InSignedRange]
  lia

/-- A part that is read feeds its values. -/
theorem PartRead.feeds {size : Nat} (wide : 0 < size) (narrow : size ≤ 8) {part : IntegerPart}
    {out : CompressionArg2} {parsed : ParsedPart} (fits : part.Fits size)
    (read : PartRead size part out parsed) : Feeds parsed.valuesAreSame (streamValues size parsed
      (if part.valuesAreSame then [] else part.bytes size)) part.values := by
  rw [streamValues, read.same]
  by_cases same : part.valuesAreSame = true
  · rw [if_pos same, read.value same, same]
    have both : part.values ≠ [] ∧ part.minMax.1 = part.minMax.2 := of_decide_eq_true same
    have between := (IntegerPart.minMaxOf part both.1).between
    intro value member
    show part.minMax.1 = value
    have near := between value member
    lia
  · rw [if_neg same, if_neg same, IntegerPart.intValues_bytes size wide narrow fits, Feeds,
      if_neg same]

/-- Rows of one code are restored from one stream. -/
theorem restoredRow_one (int32Dscale int64Dscale : Nat) {code : Nat} {rows : List NumericRow}
    (integers : code ≠ numericDscaleEncoding) (all : ∀ row ∈ rows, rowCode row = code) :
    rows.map (restoredRow int32Dscale int64Dscale) =
      ((streamOf code rows).map Prod.fst).map fun value =>
        makeNumeric64 value (if code = int32DscaleEncoding then int32Dscale else int64Dscale) := by
  induction rows with
  | nil => rfl
  | cons row rest ih =>
    rw [forall_mem_cons] at all
    obtain ⟨value, scale, is⟩ := rowCode_integer row (by rw [all.1]; exact integers)
    have narrow := rowCode_int32 row is
    have split : row :: rest = [row] ++ rest := rfl
    have restored : restoredRow int32Dscale int64Dscale row =
        makeNumeric64 value (if code = int32DscaleEncoding then int32Dscale else int64Dscale) := by
      rw [restoredRow, is, ← all.1]
      dsimp only
      rw [if_congr narrow rfl rfl]
    rw [map_cons, ih all.2, split, streamOf_append, streamOf_singleton, if_pos all.1, is, restored]
    rfl

/-- Equal values are restored from one. -/
theorem restored_repeated {parsed : ParsedPart} {stream : List Int}
    (same : parsed.valuesAreSame = part.valuesAreSame)
    (value : part.valuesAreSame = true → parsed.minVal = part.minMax.1)
    (feeds : Feeds parsed.valuesAreSame stream part.values) (some : part.values ≠ [])
    (few : part.values.length < 2 ^ 32) :
    (if parsed.valuesAreSame then numericDecompressRepeatOneValue
        (makeNumeric64 parsed.minVal parsed.sameAscale) part.values.length
      else (stream.take part.values.length).map (makeNumeric64 · parsed.sameAscale)) =
      part.values.map fun value => makeNumeric64 value parsed.sameAscale := by
  by_cases one : parsed.valuesAreSame = true
  · rw [same] at one
    have both : part.values ≠ [] ∧ part.minMax.1 = part.minMax.2 := of_decide_eq_true one
    have between := (IntegerPart.minMaxOf part both.1).between
    rw [if_pos (same.trans one), numericDecompressRepeatOneValue_eq _ _ (length_pos_of_ne_nil some)
      few, value one]
    symm
    rw [eq_replicate_iff]
    refine ⟨length_map _, ?_⟩
    intro bytes member
    obtain ⟨integer, inside, rfl⟩ := mem_map.mp member
    have near := between integer inside
    rw [show integer = part.minMax.1 by lia]
  · have plain : stream = part.values := by
      rw [Feeds, if_neg one] at feeds
      exact feeds
    rw [if_neg one, plain, take_length]

/-- When all rows have one code. -/
theorem rows_of_one_code (code : Nat) {other : Nat}
    (two : ∀ row, rowCode row = 0 ∨ rowCode row = code ∨ rowCode row = other) (integer : other ≠ 0)
    (noFailed : failedOf rows = []) (noOther : streamOf other rows = []) :
    ∀ row ∈ rows, rowCode row = code := by
  intro row member
  have positive : 0 < (rows.map rowCode).count (rowCode row) :=
    count_pos_iff.mpr (mem_map_of_mem member)
  rcases two row with failed | same | differ
  · have counted := failedOf_length rows
    rw [noFailed, length_nil] at counted
    rw [failed] at positive
    exact absurd counted.symm (Nat.ne_of_gt positive)
  · exact same
  · rw [differ, ← streamOf_length integer, noOther, length_nil] at positive
    exact absurd positive (Nat.lt_irrefl 0)

theorem NumericsStatistics.failedSize_eq (varlenas : ∀ datum ∈ stat.failed, IsVarlena datum) :
    stat.failedSize = stat.failed.flatten.length := by
  rw [NumericsStatistics.failedSize, length_flatten]
  congr 1
  exact map_congr_left fun datum member => (varlenas datum member).1

/-- The numerics that were not converted are restored. -/
theorem other_restored (lossless : lz4.Lossless) (adoptRle64 adoptRle32 : Bool)
    (stat : NumericsStatistics) (varlenas : ∀ datum ∈ stat.failed, IsVarlena datum)
    (small : stat.failed.flatten.length < 2 ^ 31) (flags : Nat)
    (streams : StreamFlags stat (numericCompressEachValuesPart lz4 adoptRle64 adoptRle32 stat) flags) :
    (if stat.failed.length = 0 then some []
      else if flags.testBit 1 then lz4.wrapperDecompress (if stat.failed = [] then []
        else (numericCompressEachValuesPart lz4 adoptRle64 adoptRle32 stat).other)
      else some ((if stat.failed = [] then []
        else (numericCompressEachValuesPart lz4 adoptRle64 adoptRle32 stat).other).take
          (headerFailedSize stat (numericCompressEachValuesPart lz4 adoptRle64 adoptRle32 stat)))) =
      some stat.failed.flatten := by
  have size := NumericsStatistics.failedSize_eq stat varlenas
  have used := streams.lz4
  by_cases empty : stat.failed = []
  · rw [if_pos (length_eq_zero_iff.mpr empty), empty]
    rfl
  · rw [if_neg (fun none => empty (length_eq_zero_iff.mp none)), if_neg empty, used,
      decide_eq_true empty, Bool.true_and, headerFailedSize]
    by_cases applied : 0 < (lz4.wrapperCompress (compresslevelTables .low 0) stat.failed.flatten).length ∧
        (lz4.wrapperCompress (compresslevelTables .low 0) stat.failed.flatten).length < stat.failedSize
    · have isApplied : (numericCompressEachValuesPart lz4 adoptRle64 adoptRle32 stat).otherApplyLz4 =
          true := decide_eq_true applied
      have isOther : (numericCompressEachValuesPart lz4 adoptRle64 adoptRle32 stat).other =
          lz4.wrapperCompress (compresslevelTables .low 0) stat.failed.flatten :=
        if_pos (decide_eq_true applied)
      rw [isApplied, if_pos rfl, isOther]
      exact wrapperDecompress_wrapperCompress lz4 lossless small applied.1
    · have isApplied : (numericCompressEachValuesPart lz4 adoptRle64 adoptRle32 stat).otherApplyLz4 =
          false := decide_eq_false applied
      have isOther : (numericCompressEachValuesPart lz4 adoptRle64 adoptRle32 stat).other =
          stat.failed.flatten := if_neg (by rw [decide_eq_true_iff]; exact applied)
      rw [isApplied, if_neg (by decide), if_pos ⟨empty, rfl⟩, isOther, size, take_length]

/-- The streams are merged into the rows. -/
theorem numericDecompressRestoreValues_restores (ready : RowsReady rows)
    (header : ParsedHeader) (dscales : ParsedDscales) (out : NumericsCompressed)
    (read64 : PartRead 8 (numericStatistics rows).int64 out.int64 header.int64)
    (read32 : PartRead 4 (numericStatistics rows).int32 out.int32 header.int32)
    (codes : DscalesRead (numericStatistics rows) dscales) :
    numericDecompressRestoreValues header dscales rows.length
        (if (numericStatistics rows).int64.valuesAreSame then []
          else (numericStatistics rows).int64.bytes 8)
        (if (numericStatistics rows).int32.valuesAreSame then []
          else (numericStatistics rows).int32.bytes 4) (numericStatistics rows).failed.flatten =
      rows.map (restoredRow (numericStatistics rows).int32.sameAscale
        (numericStatistics rows).int64.sameAscale) := by
  have few := ready.few
  have positive : 0 < rows.length := length_pos_of_ne_nil ready.present
  have lengths (code : Nat) (integers : code ≠ numericDscaleEncoding)
      (all : ∀ row ∈ rows, rowCode row = code) :
      (partOf (streamOf code rows)).values.length = rows.length := by
    show ((streamOf code rows).map Prod.fst).length = rows.length
    rw [length_map, streamOf_length integers, count_eq_length.mpr, length_map]
    intro other member
    obtain ⟨row, isRow, rfl⟩ := mem_map.mp member
    exact (all row isRow).symm
  rw [numericStatistics_eq] at read64 read32 codes ⊢
  have feeds64 := PartRead.feeds (by decide) (by decide) (RowsReady.fits64 rows ready) read64
  have feeds32 := PartRead.feeds (by decide) (by decide) (RowsReady.fits32 rows ready) read32
  have counts64 := codes.int64
  have counts32 := codes.int32
  have counts0 := codes.failed
  have same64 := read64.same
  have same32 := read32.same
  have value64 := read64.value
  have value32 := read32.value
  have scale64 := read64.scale
  have scale32 := read32.scale
  have isCodes := codes.codes
  dsimp only at counts64 counts32 counts0 feeds64 feeds32 same64 same32
  dsimp only at value64 value32 scale64 scale32 isCodes ⊢
  have empty (code : Nat) (none : (partOf (streamOf code rows)).values = []) :
      streamOf code rows = [] := map_eq_nil_iff.mp none
  rw [numericDecompressRestoreValues]
  by_cases only32 : dscales.failedCount = 0 ∧ dscales.int64Count = 0
  · have noFailed : failedOf rows = [] := length_eq_zero_iff.mp (by omega)
    have no64 := empty int64DscaleEncoding (length_eq_zero_iff.mp (by omega))
    have all := rows_of_one_code rows int32DscaleEncoding rowCode_cases (by decide) noFailed no64
    have length := lengths int32DscaleEncoding (by decide) all
    have some : (partOf (streamOf int32DscaleEncoding rows)).values ≠ [] :=
      ne_nil_of_length_pos (by omega)
    have repeated := restored_repeated _ same32 value32 feeds32 some (by omega)
    rw [length, scale32 some] at repeated
    rw [if_pos only32, restoredRow_one _ _ (by decide) all, if_pos rfl]
    dsimp only
    rw [scale32 some]
    exact repeated
  · rw [if_neg only32]
    by_cases only64 : dscales.failedCount = 0 ∧ dscales.int32Count = 0
    · have noFailed : failedOf rows = [] := length_eq_zero_iff.mp (by omega)
      have no32 := empty int32DscaleEncoding (length_eq_zero_iff.mp (by omega))
      have all := rows_of_one_code rows int64DscaleEncoding
        (fun row => (rowCode_cases row).imp id Or.symm) (by decide) noFailed no32
      have length := lengths int64DscaleEncoding (by decide) all
      have some : (partOf (streamOf int64DscaleEncoding rows)).values ≠ [] :=
        ne_nil_of_length_pos (by omega)
      have repeated := restored_repeated _ same64 value64 feeds64 some (by omega)
      rw [length, scale64 some] at repeated
      rw [if_pos only64, restoredRow_one _ _ (by decide) all,
        if_neg (show int64DscaleEncoding ≠ int32DscaleEncoding by decide)]
      dsimp only
      rw [scale64 some]
      exact repeated
    · rw [if_neg only64]
      have mixed : ¬(failedOf rows = [] ∧ ((partOf (streamOf int64DscaleEncoding rows)).values = [] ∨
          (partOf (streamOf int32DscaleEncoding rows)).values = [])) := by
        rintro ⟨noFailed, no64 | no32⟩
        · rw [noFailed, length_nil] at counts0
          rw [no64, length_nil] at counts64
          exact only32 ⟨counts0, counts64⟩
        · rw [noFailed, length_nil] at counts0
          rw [no32, length_nil] at counts32
          exact only64 ⟨counts0, counts32⟩
      rw [isCodes mixed, convertMixedToBINumeric_restores _ _ _ _ rows _ _ feeds32 feeds64
        ready.varlenas]
      apply map_congr_left
      intro row member
      have some (code : Nat) (integer : code ≠ numericDscaleEncoding) (is : rowCode row = code) :
          (partOf (streamOf code rows)).values ≠ [] := by
        apply ne_nil_of_length_pos
        show 0 < ((streamOf code rows).map Prod.fst).length
        rw [length_map, streamOf_length integer, ← is]
        exact count_pos_iff.mpr (mem_map_of_mem member)
      obtain ⟨datum, converted⟩ := row
      cases converted with
      | none => rfl
      | some integer =>
        obtain ⟨value, scale⟩ := integer
        show makeNumeric64 value (if IsInt32 value then _ else _) =
          makeNumeric64 value (if IsInt32 value then _ else _)
        by_cases narrow : IsInt32 value
        · rw [if_pos narrow, if_pos narrow, scale32 (some _ (by decide) (if_pos narrow))]
        · rw [if_neg narrow, if_neg narrow, scale64 (some _ (by decide) (if_neg narrow))]

/-- A compressed batch is restored, every integer with the scale of its stream. -/
theorem uncompressNumeric_restores (lossless : lz4.Lossless) (adoptRle64 adoptRle32 : Bool)
    {rows : List NumericRow} (ready : RowsReady rows) :
    uncompressNumeric lz4 (numericCopyCompressedBatchValues (numericStatistics rows)
        (numericCompressEachValuesPart lz4 adoptRle64 adoptRle32 (numericStatistics rows)))
        rows.length = some (rows.map (restoredRow (numericStatistics rows).int32.sameAscale
        (numericStatistics rows).int64.sameAscale)) := by
  have counts := numericStatistics_counts rows
  have parts := numericStatistics_eq rows
  have fits64 := RowsReady.fits64 rows ready
  have fits32 := RowsReady.fits32 rows ready
  have is64 : (numericStatistics rows).int64 = partOf (streamOf int64DscaleEncoding rows) := by
    rw [parts]
  have is32 : (numericStatistics rows).int32 = partOf (streamOf int32DscaleEncoding rows) := by
    rw [parts]
  have isFailed : (numericStatistics rows).failed = failedOf rows := by rw [parts]
  have isCodes : (numericStatistics rows).codes.length = rows.length := by
    rw [parts]
    exact length_map _
  have varlenas : ∀ datum ∈ (numericStatistics rows).failed, IsVarlena datum := by
    rw [isFailed]
    intro datum member
    obtain ⟨row, inside, rfl⟩ := mem_map.mp member
    exact ready.varlenas row (mem_of_mem_filter inside)
  have small : (numericStatistics rows).failed.flatten.length < 2 ^ 31 := by
    have sub : ((rows.filter fun row => rowCode row = numericDscaleEncoding).map Prod.fst).Sublist
        (rows.map Prod.fst) := filter_sublist.map Prod.fst
    rw [isFailed]
    exact Nat.lt_of_le_of_lt sub.flatten.length_le ready.small
  have size := NumericsStatistics.failedSize_eq _ varlenas
  rw [← is64] at fits64
  rw [← is32] at fits32
  obtain ⟨int64, read64⟩ := compressPart_read adoptRle64 8 (.inr rfl) fits64
  obtain ⟨int32, read32⟩ := compressPart_read adoptRle32 4 (.inl rfl) fits32
  have restore (header : ParsedHeader) (dscales : ParsedDscales) :=
    numericDecompressRestoreValues_restores rows ready header dscales
      (numericCompressEachValuesPart lz4 adoptRle64 adoptRle32 (numericStatistics rows))
  rw [← isCodes] at restore ⊢
  generalize numericStatistics rows = stat at *
  replace read64 : PartRead 8 stat.int64
    (numericCompressEachValuesPart lz4 adoptRle64 adoptRle32 stat).int64 int64 := read64
  replace read32 : PartRead 4 stat.int32
    (numericCompressEachValuesPart lz4 adoptRle64 adoptRle32 stat).int32 int32 := read32
  obtain ⟨dscales, codes, read⟩ := numericDecompressParseDscales_fillDscales stat
    (numericCompressEachValuesPart lz4 adoptRle64 adoptRle32 stat) counts _
    (numericFlags_streams stat _) (numericCompressFillValues stat
      (numericCompressEachValuesPart lz4 adoptRle64 adoptRle32 stat))
  have others := other_restored lz4 lossless adoptRle64 adoptRle32 stat varlenas small _
    (numericFlags_streams stat _)
  rw [uncompressNumeric, numericCopyCompressedBatchValues, append_assoc,
    numericDecompressParseHeader_fillHeader stat _ read64 read32 (by omega)]
  dsimp only
  rw [codes, numericCompressFillValues, append_assoc]
  dsimp only
  rw [read.int64, read.int32, read.failed, read64.values]
  dsimp only
  rw [read32.values]
  dsimp only
  rw [others, Option.map_some, restore ⟨_, int64, int32, _⟩ dscales read64 read32 read]

end OpenGauss.CStore
