import OpenGauss.CStore.IntegerCoder

/-!
# Integer columns are restored

The steps of `IntegerCoder` are undone in the opposite order. The distance of two values of a column
never wraps where it is used: it fits the width that the smallest and the largest value give, and the
bounds stored in the width of the column are read as the same numbers, so that the width found again
is the one that was written.
-/
namespace OpenGauss.CStore

open List OpenGauss.Base

variable (lz4 : Lz4) (zlib : Zlib) (size : Nat) (inBuf : List UInt8) (value : Int)

theorem int64Bits_cast : (int64Bits value : Int) = value % 2 ^ 64 :=
  Int.toNat_of_nonneg (Int.emod_nonneg value (by decide))

theorem pow_dvd_word (narrow : size ≤ 8) : (256 : Int) ^ size ∣ 2 ^ 64 := by
  exact pow_dvd_pow 256 narrow

theorem int64Bits_low (narrow : size ≤ 8) (value : Int) :
    ((int64Bits value % 256 ^ size : Nat) : Int) = value % 256 ^ size := by
  rw [Int.natCast_emod, int64Bits_cast]
  exact Int.emod_emod_of_dvd value (pow_dvd_word size narrow)

theorem readData_low (narrow : size ≤ 8) (value : Int) (rest : List UInt8) :
    (readData size (writeData size (int64Bits value) ++ rest) : Int) = value % 256 ^ size := by
  rw [readData, writeData, take_left' (leBytes_length size _), leNat_leBytes_mod]
  exact int64Bits_low size narrow value

theorem writeData_congr {size first second : Nat}
    (same : first % 256 ^ size = second % 256 ^ size) :
    writeData size first = writeData size second := by
  have one := leBytes_leNat (leBytes size first)
  have other := leBytes_leNat (leBytes size second)
  rw [leBytes_length, leNat_leBytes_mod] at one other
  rw [writeData, writeData, ← one, ← other, same]

theorem signedOf_emod {size bits : Nat} (fits : bits < 256 ^ size) :
    signedOf size bits % 256 ^ size = bits := by
  have range : (bits : Int) % 256 ^ size = bits := by
    apply Int.emod_eq_of_lt (Int.natCast_nonneg bits)
    exact_mod_cast fits
  rw [signedOf]
  by_cases positive : 2 * bits < 256 ^ size
  · rw [if_pos positive, range]
  · rw [if_neg positive, Int.sub_emod_right, range]

theorem signedOf_range {size bits : Nat} (fits : bits < 256 ^ size) :
    -(256 : Int) ^ size ≤ 2 * signedOf size bits ∧ 2 * signedOf size bits < 256 ^ size := by
  have power : ((256 ^ size : Nat) : Int) = 256 ^ size := by push_cast; rfl
  rw [signedOf]
  by_cases positive : 2 * bits < 256 ^ size
  · lia
  · lia

theorem convertToInt64Data_convertTo {size bits : Nat} (narrow : size ≤ 8) (rest : List UInt8)
    (fits : bits < 256 ^ size) :
    convertToInt64Data (int64DataConvertTo (signedOf size bits) size ++ rest) size =
      signedOf size bits := by
  have low := readData_low size narrow (signedOf size bits) rest
  rw [signedOf_emod fits] at low
  rw [convertToInt64Data, int64DataConvertTo, Int.natCast_inj.mp low]

/-- The top byte gives the least number of bytes. -/
theorem topByte_spec (index diff : Nat) (fits : diff < 256 ^ (index + 1)) :
    diff < 256 ^ (topByte index diff + 1) ∧
      ∀ size, 0 < size → diff < 256 ^ size → topByte index diff + 1 ≤ size := by
  induction index with
  | zero => exact ⟨fits, fun size some _ => some⟩
  | succ index ih =>
    rw [topByte]
    have high : diff / 256 ^ (index + 1) < 256 := by
      rw [Nat.div_lt_iff_lt_mul (Nat.pow_pos (by decide)), ← Nat.pow_succ']
      exact fits
    by_cases zero : diff / 256 ^ (index + 1) % 256 = 0
    · rw [if_pos zero]
      apply ih
      rw [Nat.mod_eq_of_lt high] at zero
      exact (Nat.div_eq_zero_iff_lt (Nat.pow_pos (by decide))).mp zero
    · rw [if_neg zero]
      refine ⟨fits, ?_⟩
      intro size some within
      by_contra less
      have smaller : 256 ^ size ≤ 256 ^ (index + 1) :=
        Nat.pow_le_pow_right (by decide) (by omega)
      rw [Nat.div_eq_of_lt (by omega)] at zero
      exact zero rfl

/-- The width is the least that holds the distance. -/
theorem deltaGetBytesNum_spec (mindata maxdata : Int) :
    int64Bits (maxdata - mindata) < 256 ^ deltaGetBytesNum mindata maxdata ∧
      0 < deltaGetBytesNum mindata maxdata ∧
      ∀ size, 0 < size → int64Bits (maxdata - mindata) < 256 ^ size →
        deltaGetBytesNum mindata maxdata ≤ size := by
  have word : int64Bits (maxdata - mindata) < 256 ^ (7 + 1) := by
    have cast := int64Bits_cast (maxdata - mindata)
    have below := Int.emod_lt_of_pos (maxdata - mindata) (show (0 : Int) < 2 ^ 64 by decide)
    have power : (256 : Nat) ^ (7 + 1) = 2 ^ 64 := by decide
    rw [power]
    omega
  have spec := topByte_spec 7 _ word
  rw [deltaGetBytesNum]
  by_cases small : int64Bits (maxdata - mindata) = 0 ∨ int64Bits (maxdata - mindata) = 1
  · rw [if_pos small]
    exact ⟨by omega, Nat.one_pos, fun size some _ => some⟩
  · rw [if_neg small]
    exact ⟨spec.1, Nat.succ_pos _, spec.2⟩

/-- The smallest and the largest of some values. -/
structure MinMaxOf (values : List Int) (minMax : Int × Int) : Prop where
  least : minMax.1 ∈ values
  most : minMax.2 ∈ values
  between : ∀ value ∈ values, minMax.1 ≤ value ∧ value ≤ minMax.2

/-- The least and the largest value are found. -/
theorem computeMinMaxVal_minMaxOf {values : List Int} (some : values ≠ []) :
    MinMaxOf values (computeMinMaxVal values) := by
  cases values with
  | nil => exact absurd rfl some
  | cons first rest =>
    have start : MinMaxOf [first] (first, first) := by
      refine ⟨mem_singleton_self _, mem_singleton_self _, ?_⟩
      intro value member
      rw [mem_singleton.mp member]
      exact ⟨Int.le_refl _, Int.le_refl _⟩
    -- the invariant of the loop: the bounds of the values seen so far
    have loop (seen rest : List Int) (found : Int × Int) (before : MinMaxOf seen found) :
        MinMaxOf (seen ++ rest) (rest.foldl (fun found value =>
          if value < found.1 then (value, found.2)
          else if found.2 < value then (found.1, value) else found) found) := by
      induction rest generalizing seen found with
      | nil => rw [append_nil]; exact before
      | cons value rest ih =>
        have order := before.between found.1 before.least
        have next : MinMaxOf (seen ++ [value]) (if value < found.1 then (value, found.2)
            else if found.2 < value then (found.1, value) else found) := by
          have inside (least most : Int) (isLeast : least ∈ seen ++ [value])
              (isMost : most ∈ seen ++ [value]) (low : least ≤ found.1 ∧ least ≤ value)
              (high : found.2 ≤ most ∧ value ≤ most) : MinMaxOf (seen ++ [value]) (least, most) := by
            refine ⟨isLeast, isMost, ?_⟩
            intro other member
            rcases mem_append.mp member with old | new
            · have range := before.between other old
              exact ⟨low.1.trans range.1, range.2.trans high.1⟩
            · rw [mem_singleton.mp new]
              exact ⟨low.2, high.2⟩
          have last : value ∈ seen ++ [value] := mem_append_right _ (mem_singleton_self _)
          have least := mem_append_left [value] before.least
          have most := mem_append_left [value] before.most
          by_cases smaller : value < found.1
          · rw [if_pos smaller]
            exact inside value found.2 last most ⟨by omega, by omega⟩ ⟨by omega, by omega⟩
          · rw [if_neg smaller]
            by_cases larger : found.2 < value
            · rw [if_pos larger]
              exact inside found.1 value least last ⟨by omega, by omega⟩ ⟨by omega, by omega⟩
            · rw [if_neg larger]
              exact inside found.1 found.2 least most ⟨by omega, by omega⟩ ⟨by omega, by omega⟩
        have all := ih (seen ++ [value]) _ next
        rw [append_assoc] at all
        exact all
    exact loop [first] rest (first, first) start

/-- Deltas are added back to the values. -/
theorem doDeltaOperation_restores {size outSize count : Nat} {mindata : Int} {inBuf : List UInt8}
    (some : 0 < outSize) (fewer : outSize ≤ size) (narrow : size ≤ 8)
    (whole : inBuf.length = count * size)
    (near : ∀ bits ∈ readValues size count inBuf, mindata ≤ signedOf size bits ∧
      signedOf size bits - mindata < 256 ^ outSize) :
    (doDeltaOperation false size outSize mindata inBuf).length = count * outSize ∧
      doDeltaOperation true outSize size mindata
        (doDeltaOperation false size outSize mindata inBuf) = inBuf := by
  have values : inBuf.length / size = count := by rw [whole, Nat.mul_div_cancel _ (by omega)]
  let distance (rdata : Nat) : Nat := int64Bits ((rdata : Int) - mindata) % 256 ^ outSize
  have written : doDeltaOperation false size outSize mindata inBuf =
      writeValues outSize ((readValues size count inBuf).map distance) := by
    rw [doDeltaOperation, values, writeValues, flatMap_map]
    congr 1
    funext rdata
    exact writeData_congr (Nat.mod_mod _ _).symm
  have length : (doDeltaOperation false size outSize mindata inBuf).length = count * outSize := by
    rw [written, writeValues_length, length_map, readValues_length]
  refine ⟨length, ?_⟩
  have fit : ∀ value ∈ (readValues size count inBuf).map distance, value < 256 ^ outSize := by
    intro value member
    obtain ⟨rdata, -, rfl⟩ := mem_map.mp member
    exact Nat.mod_lt _ (Nat.pow_pos (by decide))
  have read := readValues_writeValues outSize _ fit
  rw [length_map, readValues_length] at read
  rw [doDeltaOperation, length, Nat.mul_div_cancel _ some, written, read, flatMap_map]
  have restored : (readValues size count inBuf).flatMap (fun rdata => writeData size
      (int64Bits (if true = true then (distance rdata : Int) + mindata
        else (distance rdata : Int) - mindata))) =
      writeValues size (readValues size count inBuf) := by
    rw [writeValues]
    apply flatMap_congr
    intro rdata member
    have fits := readValues_lt size count inBuf rdata member
    have close := near rdata member
    apply writeData_congr
    rw [Nat.mod_eq_of_lt fits]
    -- the distance is that of the signed numbers, and adding it gives the number back
    have whatDistance : (distance rdata : Int) = signedOf size rdata - mindata := by
      have low : (distance rdata : Int) = ((rdata : Int) - mindata) % 256 ^ outSize :=
        int64Bits_low outSize (by omega) _
      have same : ((rdata : Int) - mindata) % 256 ^ outSize =
          (signedOf size rdata - mindata) % 256 ^ outSize := by
        have signs := signedOf_emod fits
        rw [← signs, Int.sub_emod, Int.emod_emod_of_dvd _ (pow_dvd_pow 256 fewer), ← Int.sub_emod]
      rw [low, same, Int.emod_eq_of_lt (by omega) close.2]
    have sum : (int64Bits (if true = true then (distance rdata : Int) + mindata
        else (distance rdata : Int) - mindata) % 256 ^ size : Nat) = (rdata : Int) := by
      rw [int64Bits_low size narrow, if_pos rfl, whatDistance, Int.sub_add_cancel]
      exact signedOf_emod fits
    exact Int.natCast_inj.mp sum
  exact restored.trans (writeValues_readValues size count inBuf whole)

/-- Whether a number fits the signed numbers of a width. -/
def InSignedRange (size : Nat) (value : Int) : Prop :=
  -(256 : Int) ^ size ≤ 2 * value ∧ 2 * value < 256 ^ size

variable {value size}

theorem signedOf_of_range (range : InSignedRange size value) :
    ∃ bits, bits < 256 ^ size ∧ signedOf size bits = value := by
  have power : ((256 ^ size : Nat) : Int) = 256 ^ size := by push_cast; rfl
  rw [InSignedRange, ← power] at range
  by_cases negative : value < 0
  · refine ⟨(value + (256 ^ size : Nat)).toNat, by omega, ?_⟩
    rw [signedOf, if_neg (by omega), ← power]
    lia
  · refine ⟨value.toNat, by omega, ?_⟩
    rw [signedOf, if_pos (by omega)]
    lia

theorem intValues_range (member : value ∈ intValues size inBuf) : InSignedRange size value := by
  obtain ⟨bits, isBits, rfl⟩ := mem_map.mp member
  exact signedOf_range (readValues_lt size _ inBuf bits isBits)

/-- A distance of values fits their width, unsigned. -/
theorem int64Bits_distance (narrow : size ≤ 8) {low high : Int}
    (lowRange : InSignedRange size low) (highRange : InSignedRange size high) (order : low ≤ high) :
    (int64Bits (high - low) : Int) = high - low ∧ int64Bits (high - low) < 256 ^ size := by
  have power : ((256 ^ size : Nat) : Int) = 256 ^ size := by push_cast; rfl
  have word : 256 ^ size ≤ 2 ^ 64 := by
    have eight : (2 : Nat) ^ 64 = 256 ^ 8 := by decide
    rw [eight]
    exact Nat.pow_le_pow_right (by decide) narrow
  rw [InSignedRange, ← power] at lowRange highRange
  have value : (int64Bits (high - low) : Int) = high - low := by
    rw [int64Bits_cast]
    apply Int.emod_eq_of_lt (by omega)
    have bound : ((256 ^ size : Nat) : Int) ≤ ((2 ^ 64 : Nat) : Int) := Int.ofNat_le.mpr word
    push_cast at bound
    lia
  exact ⟨value, by omega⟩

/-- What is known of the values behind a step of taking distances. -/
structure DeltaTaken (eachValSize : Nat) (minMax : Int × Int) (inBuf : List UInt8)
    (step : IntegerStep) (delta : Bool) : Prop where
  modes : step.modes = if delta then cuDeltaCompressed else 0
  valSize : step.valSize = if delta then deltaGetBytesNum minMax.1 minMax.2 else eachValSize
  wide : 0 < step.valSize
  whole : ∃ count, 0 < count ∧ step.buf.length = count * step.valSize
  shorter : step.buf.length ≤ inBuf.length
  restores : (if delta then deltaDecompress minMax.1 eachValSize step.buf
    (deltaGetBytesNum minMax.1 minMax.2) else step.buf) = inBuf

/-- The step of deltas is taken or leaves the values. -/
theorem deltaStep_taken {eachValSize count : Nat} {minMax : Int × Int} {inBuf : List UInt8}
    (wide : 0 < eachValSize) (narrow : eachValSize ≤ 8) (some : 0 < count)
    (whole : inBuf.length = count * eachValSize)
    (bounds : MinMaxOf (intValues eachValSize inBuf) minMax) :
    ∃ delta, DeltaTaken eachValSize minMax inBuf (deltaStep eachValSize minMax inBuf) delta := by
  have least := intValues_range inBuf bounds.least
  have most := intValues_range inBuf bounds.most
  have order := (bounds.between _ bounds.least).2
  have distance := int64Bits_distance narrow least most order
  have width := deltaGetBytesNum_spec minMax.1 minMax.2
  have values : inBuf.length / eachValSize = count := by rw [whole, Nat.mul_div_cancel _ wide]
  have same (size tempSize : Nat) (isSize : size = eachValSize) :
      DeltaTaken eachValSize minMax inBuf ⟨inBuf, 0, size, tempSize⟩ false := by
    subst isSize
    exact ⟨rfl, rfl, wide, ⟨count, some, whole⟩, Nat.le_refl _, rfl⟩
  rw [deltaStep]
  by_cases fewer : deltaGetBytesNum minMax.1 minMax.2 < eachValSize
  · rw [if_pos fewer]
    have near : ∀ bits ∈ readValues eachValSize count inBuf, minMax.1 ≤ signedOf eachValSize bits ∧
          signedOf eachValSize bits - minMax.1 < 256 ^ deltaGetBytesNum minMax.1 minMax.2 := by
      intro bits member
      have between := bounds.between (signedOf eachValSize bits) (by
        rw [intValues, values]
        exact mem_map_of_mem member)
      have fits : (int64Bits (minMax.2 - minMax.1) : Int) <
          256 ^ deltaGetBytesNum minMax.1 minMax.2 := by exact_mod_cast width.1
      exact ⟨between.1, by omega⟩
    have room : ¬inBuf.length + 8 < deltaGetBytesNum minMax.1 minMax.2 * count := by
      have less := Nat.mul_le_mul_right count (Nat.le_of_lt fewer)
      rw [Nat.mul_comm eachValSize count] at less
      omega
    obtain ⟨length, restored⟩ := doDeltaOperation_restores
      width.2.1 (Nat.le_of_lt fewer) narrow whole near
    have compressed : deltaCompress minMax.1 minMax.2 inBuf (inBuf.length + 8) eachValSize =
        doDeltaOperation false eachValSize (deltaGetBytesNum minMax.1 minMax.2) minMax.1 inBuf := by
      rw [deltaCompress, values, if_neg room, if_neg (by omega)]
    simp only [compressed]
    by_cases saves : (doDeltaOperation false eachValSize (deltaGetBytesNum minMax.1 minMax.2)
        minMax.1 inBuf).length + eachValSize * 2 < inBuf.length
    · rw [if_pos saves]
      refine ⟨true, rfl, rfl, width.2.1, ⟨count, some, length⟩, ?_, ?_⟩
      · dsimp only
        omega
      · rw [if_pos rfl, deltaDecompress, if_neg (by lia)]
        exact restored
    · rw [if_neg saves]
      exact ⟨false, same eachValSize _ rfl⟩
  · rw [if_neg fewer]
    exact ⟨false, same _ _ (Nat.le_antisymm (width.2.2 eachValSize wide distance.2)
      (Nat.not_lt.mp fewer))⟩

/-- The step of runs is undone. -/
theorem rleStep_restores (adoptRle : Bool) (step : IntegerStep) (wide : 0 < step.valSize)
    (whole : ∃ count, 0 < count ∧ step.buf.length = count * step.valSize) :
    ∃ rle : Bool, (rleStep adoptRle step).modes =
        step.modes ||| (if rle then cuRLECompressed else 0) ∧
      (rleStep adoptRle step).buf.length ≤ step.buf.length ∧
      (if rle then rleDecompress step.valSize rleMinRepeatsV1 (rleStep adoptRle step).buf
        else (rleStep adoptRle step).buf) = step.buf := by
  rw [rleStep]
  by_cases adopted : adoptRle = true
  · rw [if_pos adopted]
    by_cases saves : 0 < (rleCompress step.valSize rleMinRepeatsV1 step.buf).length ∧
        (rleCompress step.valSize rleMinRepeatsV1 step.buf).length < step.buf.length
    · simp only [if_pos saves]
      obtain ⟨count, some, length⟩ := whole
      exact ⟨true, rfl, Nat.le_of_lt saves.2, rleDecompress_rleCompress
        rleMinRepeatsV1 wide (by decide) (by decide) some length⟩
    · simp only [if_neg saves]
      exact ⟨false, (Nat.or_zero _).symm, Nat.le_refl _, rfl⟩
  · rw [if_neg adopted]
    exact ⟨false, (Nat.or_zero _).symm, Nat.le_refl _, rfl⟩

/-- The LZ4 wrapper is undone. -/
theorem wrapperDecompress_wrapperCompress (lossless : lz4.Lossless) {level : Nat}
    {source : List UInt8} (small : source.length < 2 ^ 31)
    (present : 0 < (lz4.wrapperCompress level source).length) :
    lz4.wrapperDecompress (lz4.wrapperCompress level source) = some source := by
  rw [Lz4.wrapperCompress] at present ⊢
  have restored (data : List UInt8) (benefited : 0 < data.length ∧ 8 + data.length < source.length)
      (undone : lz4.decompressSafe data source.length = some source) :
      lz4.wrapperDecompress (leBytes 4 source.length ++ leBytes 4 data.length ++ data) =
        some source := by
    have rawLen : leNat (leBytes 4 source.length) = source.length :=
      leNat_leBytes 4 _ (by have four : (256 : Nat) ^ 4 = 2 ^ 32 := rfl; omega)
    have compressLen : leNat (leBytes 4 data.length) = data.length :=
      leNat_leBytes 4 _ (by have four : (256 : Nat) ^ 4 = 2 ^ 32 := rfl; lia)
    have behind : (leBytes 4 source.length ++ (leBytes 4 data.length ++ data)).drop 8 = data := by
      rw [← append_assoc]
      apply drop_left'
      rw [length_append, leBytes_length, leBytes_length]
    rw [Lz4.wrapperDecompress, append_assoc, take_left' (leBytes_length 4 _),
      drop_left' (leBytes_length 4 _), take_left' (leBytes_length 4 _), rawLen, compressLen,
      behind, take_length]
    exact undone
  by_cases fast : level = 0
  · simp only [if_pos fast] at present ⊢
    by_cases benefited : 0 < (lz4.compressDefault source (lz4.compressBound source.length)).length ∧
        8 + (lz4.compressDefault source (lz4.compressBound source.length)).length < source.length
    · rw [if_pos benefited]
      exact restored _ benefited (lossless.ofDefault source _ (ne_nil_of_length_pos benefited.1))
    · rw [if_neg benefited] at present
      exact absurd present (Nat.lt_irrefl 0)
  · simp only [if_neg fast] at present ⊢
    by_cases benefited : 0 < (lz4.compressHC source (lz4.compressBound source.length) level).length ∧
        8 + (lz4.compressHC source (lz4.compressBound source.length) level).length < source.length
    · rw [if_pos benefited]
      exact restored _ benefited (lossless.ofHC source _ level (ne_nil_of_length_pos benefited.1))
    · rw [if_neg benefited] at present
      exact absurd present (Nat.lt_irrefl 0)

/-- The step of the libraries is undone. -/
theorem libraryStep_restores (lossless : lz4.Lossless)
    (zlibLossless : zlib.Lossless) (compression : Compression) (compresslevel : Fin 4)
    (step : IntegerStep) (outSize : Nat) (small : step.buf.length < 2 ^ 31)
    (room : step.buf.length ≤ outSize) :
    ∃ lz deflated : Bool, (libraryStep lz4 zlib compression compresslevel step).modes =
        step.modes ||| (if lz then cuLzCompressed else 0) |||
          (if deflated then cuZlibCompressed else 0) ∧
      (if lz then lz4.wrapperDecompress (libraryStep lz4 zlib compression compresslevel step).buf
        else if deflated then
          zlib.inflate (libraryStep lz4 zlib compression compresslevel step).buf outSize
        else some (libraryStep lz4 zlib compression compresslevel step).buf) = some step.buf := by
  have untaken : step.modes = step.modes ||| (if false = true then cuLzCompressed else 0) |||
      (if false = true then cuZlibCompressed else 0) := by
    rw [if_neg Bool.false_ne_true, if_neg Bool.false_ne_true, Nat.or_zero, Nat.or_zero]
  cases compression with
  | low => exact ⟨false, false, untaken, rfl⟩
  | middle =>
    let compressed := lz4.wrapperCompress (compresslevelTables .middle compresslevel) step.buf
    by_cases saves : 0 < compressed.length ∧ compressed.length < step.buf.length
    · have result : libraryStep lz4 zlib .middle compresslevel step =
          ⟨compressed, step.modes ||| cuLzCompressed⟩ := if_pos saves
      rw [result]
      exact ⟨true, false, (Nat.or_zero _).symm,
        wrapperDecompress_wrapperCompress lz4 lossless small saves.1⟩
    · have result : libraryStep lz4 zlib .middle compresslevel step = ⟨step.buf, step.modes⟩ :=
        if_neg saves
      rw [result]
      exact ⟨false, false, untaken, rfl⟩
  | high =>
    let level := compresslevelTables .high compresslevel
    let tempSize := bufferRemalloc step.tempSize (zlib.deflateBound level step.buf.length)
    let compressed := (zlib.deflate level step.buf tempSize).getD []
    by_cases saves : 0 < compressed.length ∧ compressed.length < step.buf.length
    · have result : libraryStep lz4 zlib .high compresslevel step =
          ⟨compressed, step.modes ||| cuZlibCompressed⟩ := if_pos saves
      have finished : zlib.deflate level step.buf tempSize = some compressed := by
        cases deflated : zlib.deflate level step.buf tempSize with
        | none =>
          have nothing : compressed = [] := congrArg (fun found => Option.getD found []) deflated
          rw [nothing] at saves
          exact absurd saves.1 (Nat.lt_irrefl 0)
        | some bytes =>
          have bytesEq : compressed = bytes := congrArg (fun found => Option.getD found []) deflated
          rw [bytesEq]
      rw [result]
      exact ⟨false, true, by rw [if_neg Bool.false_ne_true, Nat.or_zero]; rfl,
        zlibLossless level step.buf tempSize compressed finished outSize room⟩
    · have result : libraryStep lz4 zlib .high compresslevel step = ⟨step.buf, step.modes⟩ :=
        if_neg saves
      rw [result]
      exact ⟨false, false, untaken, rfl⟩

/-- The bits of the steps that were taken. -/
def stepModes (delta dic rle lz deflated : Bool) : Nat :=
  (if delta then cuDeltaCompressed else 0) ||| (if rle then cuRLECompressed else 0) |||
    (if lz then cuLzCompressed else 0) ||| (if deflated then cuZlibCompressed else 0) |||
    (if dic then cuDicEncode else 0)

theorem stepModes_bits : ∀ delta dic rle lz deflated : Bool,
    (stepModes delta dic rle lz deflated &&& cuDeltaCompressed ≠ 0 ↔ delta = true) ∧
      (stepModes delta dic rle lz deflated &&& cuRLECompressed ≠ 0 ↔ rle = true) ∧
      (stepModes delta dic rle lz deflated &&& cuLzCompressed ≠ 0 ↔ lz = true) ∧
      (stepModes delta dic rle lz deflated &&& cuZlibCompressed ≠ 0 ↔ deflated = true) := by
  decide

variable (size)

/-- The least and the largest value are read back from the front. -/
theorem insertMinMaxVal_read (narrow : size ≤ 8) (minMax : Int × Int)
    (buf : List UInt8) (least : InSignedRange size minMax.1) (most : InSignedRange size minMax.2) :
    convertToInt64Data (insertMinMaxVal size minMax buf) size = minMax.1 ∧
      convertToInt64Data ((insertMinMaxVal size minMax buf).drop size) size = minMax.2 ∧
      (insertMinMaxVal size minMax buf).drop (size * 2) = buf := by
  obtain ⟨lowBits, lowFits, low⟩ := signedOf_of_range least
  obtain ⟨highBits, highFits, high⟩ := signedOf_of_range most
  rw [insertMinMaxVal, ← low, ← high]
  refine ⟨?_, ?_, ?_⟩
  · rw [append_assoc]
    exact convertToInt64Data_convertTo narrow _ lowFits
  · rw [append_assoc, int64DataConvertTo, drop_writeData]
    exact convertToInt64Data_convertTo narrow _ highFits
  · apply drop_left'
    rw [length_append, int64DataConvertTo, int64DataConvertTo, writeData, writeData,
      leBytes_length, leBytes_length, Nat.mul_two]

theorem libraryUndo_stepModes (delta dic rle lz deflated : Bool)
    (inBuf : List UInt8) (outSize : Nat) :
    libraryUndo lz4 zlib (stepModes delta dic rle lz deflated) inBuf outSize =
      if lz then lz4.wrapperDecompress inBuf
      else if deflated then zlib.inflate inBuf outSize else some inBuf := by
  have bits := stepModes_bits delta dic rle lz deflated
  simp only [libraryUndo, bits.2.2.1, bits.2.2.2]

section

variable (lossless : lz4.Lossless) (zlibLossless : zlib.Lossless) (adoptRle : Bool)
  (eachValSize count : Nat) (wide : 0 < eachValSize) (narrow : eachValSize ≤ 8)
include lossless zlibLossless adoptRle eachValSize count wide narrow

variable {eachValSize count}

/-- All steps are undone by the modes they set. -/
theorem integerSteps_restore {minMax : Int × Int}
    (compression : Compression) (compresslevel : Fin 4) {inBuf : List UInt8} (some : 0 < count)
    (whole : inBuf.length = count * eachValSize) (small : inBuf.length < 2 ^ 31)
    (bounds : MinMaxOf (intValues eachValSize inBuf) minMax) {outSize : Nat}
    (room : inBuf.length ≤ outSize) :
    ∃ delta rle lz deflated : Bool, ∃ next,
      let out := libraryStep lz4 zlib compression compresslevel
        (rleStep adoptRle (deltaStep eachValSize minMax inBuf))
      let valSize := if delta then deltaGetBytesNum minMax.1 minMax.2 else eachValSize
      out.modes = stepModes delta false rle lz deflated ∧ (if lz then lz4.wrapperDecompress out.buf
          else if deflated then zlib.inflate out.buf outSize else Option.some out.buf) =
            Option.some next ∧
        (if delta then deltaDecompress minMax.1 eachValSize
            (if rle then rleDecompress valSize rleMinRepeatsV1 next else next)
            (deltaGetBytesNum minMax.1 minMax.2)
          else if rle then rleDecompress valSize rleMinRepeatsV1 next else next) = inBuf := by
  obtain ⟨delta, taken⟩ := deltaStep_taken wide narrow some whole bounds
  generalize deltaStep eachValSize minMax inBuf = step1 at taken ⊢
  obtain ⟨rle, rleModes, rleShorter, rleRestores⟩ := rleStep_restores adoptRle step1 taken.wide
    taken.whole
  generalize rleStep adoptRle step1 = step2 at rleModes rleShorter rleRestores ⊢
  have shorter := taken.shorter
  obtain ⟨lz, deflated, libraryModes, libraryRestores⟩ := libraryStep_restores lz4 zlib lossless
    zlibLossless compression compresslevel step2 outSize (by lia) (by grind)
  refine ⟨delta, rle, lz, deflated, step2.buf, ?_, libraryRestores, ?_⟩
  · rw [libraryModes, rleModes, taken.modes]
    exact (Nat.or_zero _).symm
  · rw [← taken.valSize, rleRestores]
    exact taken.restores

/-- Compressed integers are restored, whether a dictionary was used in front or not. -/
theorem integerDecompress_integerCompress (known : Option (Int × Int))
    (compression : Compression) (compresslevel : Fin 4) {inBuf : List UInt8} (present : 0 < count)
    (whole : inBuf.length = count * eachValSize) (small : inBuf.length < 2 ^ 31)
    (right : ∀ minMax, known = some minMax → MinMaxOf (intValues eachValSize inBuf) minMax)
    (dic : Bool) (outSize : Nat) (room : inBuf.length ≤ outSize) :
    let out := integerCompress lz4 zlib adoptRle eachValSize known compression compresslevel inBuf
    out.modes ≠ 0 → integerDecompress lz4 zlib eachValSize
      ⟨out.buf, out.modes ||| (if dic then cuDicEncode else 0)⟩ outSize = some inBuf := by
  intro out taken
  have values : intValues eachValSize inBuf ≠ [] := by
    apply ne_nil_of_length_pos
    rw [intValues, length_map, readValues_length, whole, Nat.mul_div_cancel _ wide]
    exact present
  have bounds : MinMaxOf (intValues eachValSize inBuf)
      (known.getD (computeMinMaxVal (intValues eachValSize inBuf))) := by
    cases isKnown : known with
    | none => exact computeMinMaxVal_minMaxOf values
    | some minMax => exact right minMax isKnown
  have unfolded : out = integerCompress lz4 zlib adoptRle eachValSize known compression
    compresslevel inBuf := rfl
  rw [integerCompress] at unfolded
  generalize known.getD (computeMinMaxVal (intValues eachValSize inBuf)) = minMax at bounds unfolded
  obtain ⟨delta, rle, lz, deflated, next, modes, undone, restored⟩ := integerSteps_restore lz4 zlib
    lossless zlibLossless adoptRle wide narrow compression compresslevel
    present whole small bounds room
  generalize libraryStep lz4 zlib compression compresslevel
    (rleStep adoptRle (deltaStep eachValSize minMax inBuf)) = steps at modes undone unfolded
  have someStep : steps.modes ≠ 0 := by
    intro noStep
    simp only [if_pos noStep] at unfolded
    rw [unfolded] at taken
    exact taken rfl
  have allModes : steps.modes ||| (if dic then cuDicEncode else 0) =
      stepModes delta dic rle lz deflated := by
    rw [modes]
    simp only [stepModes, Bool.false_eq_true, if_false, Nat.or_zero]
  have bits := stepModes_bits delta dic rle lz deflated
  have deltaBit : steps.modes &&& cuDeltaCompressed ≠ 0 ↔ delta = true := by
    rw [modes]
    exact (stepModes_bits delta false rle lz deflated).1
  rw [if_neg someStep] at unfolded
  simp only [deltaBit] at unfolded
  cases delta with
  | true =>
    rw [if_pos rfl] at unfolded
    obtain ⟨low, high, rest⟩ := insertMinMaxVal_read eachValSize narrow minMax steps.buf
      (intValues_range _ bounds.least) (intValues_range _ bounds.most)
    rw [unfolded]
    dsimp only
    rw [allModes, integerDecompress, if_pos (bits.1.mpr rfl)]
    simp only [low, high, rest, libraryUndo_stepModes, undone, Option.map_some, bits.2.1]
    exact congrArg some restored
  | false =>
    rw [if_neg Bool.false_ne_true] at unfolded
    rw [unfolded, allModes, integerDecompress, if_neg (fun isDelta =>
      Bool.false_ne_true (bits.1.mp isDelta))]
    simp only [libraryUndo_stepModes, undone, Option.map_some, bits.2.1]
    exact congrArg some restored

end

/-- Integers of 1, 2, 4 or 8 bytes are restored from what was compressed, at every level, with runs or
without and with known bounds or without. The width of a distance that is found from stored bounds is
the one of the bounds themselves, for any two numbers of the width. -/
theorem integer_columns_are_restored (lz4 : Lz4) (zlib : Zlib) (lossless : lz4.Lossless)
    (zlibLossless : zlib.Lossless) (eachValSize : Nat) (size : eachValSize ∈ [1, 2, 4, 8]) :
    (∀ (adoptRle : Bool) (known : Option (Int × Int)) (compression : Compression)
        (compresslevel : Fin 4) (inBuf : List UInt8),
      inBuf ≠ [] → eachValSize ∣ inBuf.length → inBuf.length < 2 ^ 31 →
      (∀ minMax, known = some minMax → MinMaxOf (intValues eachValSize inBuf) minMax) →
      (integerCompress lz4 zlib adoptRle eachValSize known compression compresslevel inBuf).modes ≠ 0 →
        integerDecompress lz4 zlib eachValSize (integerCompress lz4 zlib adoptRle eachValSize known
          compression compresslevel inBuf) inBuf.length = some inBuf) ∧
    ∀ (low high : Int) (buf : List UInt8), InSignedRange eachValSize low →
      InSignedRange eachValSize high →
        deltaGetBytesNum (convertToInt64Data (insertMinMaxVal eachValSize (low, high) buf) eachValSize)
          (convertToInt64Data ((insertMinMaxVal eachValSize (low, high) buf).drop eachValSize)
            eachValSize) = deltaGetBytesNum low high := by
  have range : 0 < eachValSize ∧ eachValSize ≤ 8 := by
    simp only [mem_cons, not_mem_nil, or_false] at size
    omega
  constructor
  · intro adoptRle known compression compresslevel inBuf some whole small right taken
    obtain ⟨count, length⟩ := whole
    rw [Nat.mul_comm] at length
    have present : 0 < count := by
      apply Nat.pos_of_ne_zero
      intro zero
      rw [zero, Nat.zero_mul] at length
      exact some (length_eq_zero_iff.mp length)
    have restored := integerDecompress_integerCompress lz4 zlib lossless zlibLossless adoptRle
       range.1 range.2 known compression compresslevel present length small
      right false inBuf.length (Nat.le_refl _) taken
    rw [if_neg Bool.false_ne_true, Nat.or_zero] at restored
    exact restored
  · intro low high buf least most
    obtain ⟨isLow, isHigh, -⟩ := insertMinMaxVal_read eachValSize range.2 (low, high) buf least most
    rw [isLow, isHigh]

/-- LZ4 on a few bytes: a token with their number, and the bytes as they are. -/
def literalLz4 : Lz4 where
  compressBound length := length + length / 255 + 16
  compressDefault source _ := if source.length < 13 then UInt8.ofNat (16 * source.length) :: source
    else []
  compressHC source _ _ := if source.length < 13 then UInt8.ofNat (16 * source.length) :: source
    else []
  decompressSafe source _ := source.tail?

theorem literalLz4_lossless : literalLz4.Lossless := by
  have restored (source : List UInt8)
      (compressed : (if source.length < 13 then UInt8.ofNat (16 * source.length) :: source
        else []) ≠ []) :
      (if source.length < 13 then UInt8.ofNat (16 * source.length) :: source else []).tail? =
        some source := by
    by_cases short : source.length < 13
    · rw [if_pos short]
      rfl
    · rw [if_neg short] at compressed
      exact absurd rfl compressed
  exact ⟨fun source _ => restored source, fun source _ _ => restored source⟩

/-- A library that has no room for a result. -/
def fullZlib : Zlib where
  deflateBound _ length := length
  deflate _ _ _ := none
  inflate _ _ := none

/-- Five times the number -2 and the number 5 in 8 bytes each: distances in one byte and runs of
them. -/
theorem integer_columns_are_restored_run :
    let column := writeValues 8 ((List.replicate 5 (-2 : Int) ++ [5]).map int64Bits)
    (integerCompress literalLz4 fullZlib true 8 none .middle 0 column).modes =
        cuDeltaCompressed ||| cuRLECompressed ∧
      integerDecompress literalLz4 fullZlib 8
        (integerCompress literalLz4 fullZlib true 8 none .middle 0 column) 48 = some column := by
  have taken : (integerCompress literalLz4 fullZlib true 8 none .middle 0
      (writeValues 8 ((List.replicate 5 (-2 : Int) ++ [5]).map int64Bits))).modes =
      cuDeltaCompressed ||| cuRLECompressed := by decide
  refine ⟨taken, ?_⟩
  refine (integer_columns_are_restored literalLz4 fullZlib literalLz4_lossless
    (fun _ _ _ _ some => nomatch some) 8 (by decide)).1 true none .middle 0 _ (by decide)
    ⟨6, by decide⟩ (by decide) (fun _ isKnown => nomatch isKnown) ?_
  rw [taken]
  decide

end OpenGauss.CStore
