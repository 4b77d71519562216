import OpenGauss.CStore.Dictionary
import OpenGauss.CStore.IntegerRoundTrip

/-!
# Compressing columns of strings

`StringCoder` of `cstore_compress.cpp` tries a dictionary first. The numbers of the values are
compressed like a column of integers behind the dictionary, and the steps taken for them share the bit
mask with the dictionary. Where a dictionary does not help, or is not wanted, the bytes go through LZ4
or zlib. Restoring splits the bytes by the size in the header of the dictionary alone.
-/
namespace OpenGauss.CStore

open Option List OpenGauss.Base

/-- Compress with LZ4 or zlib: the bytes and the step, with no step where the result does not help
or does not fit the buffer. -/
def compressWithoutDict (lz4 : Lz4) (zlib : Zlib) (compression : Compression)
    (compresslevel : Fin 4) (inBuf : List UInt8) (outBufSize : Nat) : CompressionArg2 :=
  let level := compresslevelTables compression compresslevel
  let out : CompressionArg2 :=
    if compression = .high then
      let boundSize := zlib.deflateBound level inBuf.length
      let tempSize := if boundSize ≤ outBufSize then outBufSize else boundSize + 8
      ⟨(zlib.deflate level inBuf tempSize).getD [], cuZlibCompressed⟩
    else ⟨lz4.wrapperCompress level inBuf, cuLzCompressed⟩
  if 0 < out.buf.length ∧ out.buf.length < inBuf.length ∧ out.buf.length ≤ outBufSize then out
  else { out with modes := 0 }

/-- Compress the numbers of the values, which are those up to a largest one, or copy them. -/
def compressNumbers (lz4 : Lz4) (zlib : Zlib) (adoptRle : Bool) (compression : Compression)
    (compresslevel : Fin 4) (max : Int) (dicCodes : List Nat) : CompressionArg2 :=
  let input := writeValues 2 dicCodes
  let output := integerCompress lz4 zlib adoptRle 2 (some (0, max)) compression compresslevel input
  if 0 < output.buf.length then output else ⟨input, 0⟩

/-- Compress with a dictionary; no result if it does not help. -/
def compressWithDict (lz4 : Lz4) (zlib : Zlib) (hashAny : List UInt8 → Nat) (adoptRle : Bool)
    (compression : Compression) (compresslevel : Fin 4) (inBuf : List UInt8) (numVals : Nat) :
    Option CompressionArg2 :=
  match dicCompress hashAny inBuf numVals with
  | none => none
  | some (dicCodes, dict) =>
    let dicCodeSize := 2 * numVals
    if 0 < dicCodeSize ∧ 0 < dict.totalSize ∧ dicCodeSize + dict.totalSize < inBuf.length then
      let numbers := compressNumbers lz4 zlib adoptRle compression compresslevel
        ((dict.curItemCount : Int) - 1) dicCodes
      some ⟨dict.onDisk ++ numbers.buf, cuDicEncode ||| numbers.modes⟩
    else none

/-- Compress strings. -/
def stringCompress (lz4 : Lz4) (zlib : Zlib) (hashAny : List UInt8 → Nat)
    (adoptRle adoptDict useDict : Bool) (compression : Compression) (compresslevel : Fin 4)
    (inBuf : List UInt8) (numVals outBufSize : Nat) : CompressionArg2 :=
  let byDict := if useDict && adoptDict then
      compressWithDict lz4 zlib hashAny adoptRle compression compresslevel inBuf numVals
    else none
  match byDict with
  | some out => out
  | none =>
    let out := compressWithoutDict lz4 zlib compression compresslevel inBuf outBufSize
    if 0 < out.buf.length ∧ out.buf.length < inBuf.length then out else ⟨[], 0⟩

/-- Restore what LZ4 or zlib compressed. -/
def decompressWithoutDict (lz4 : Lz4) (zlib : Zlib) (arg : CompressionArg2) (outBufSize : Nat) :
    Option (List UInt8) :=
  if arg.modes &&& cuZlibCompressed ≠ 0 then zlib.inflate arg.buf outBufSize
  else if arg.modes &&& cuLzCompressed ≠ 0 then lz4.wrapperDecompress arg.buf
  else some []

/-- Restore strings. -/
def stringDecompress (lz4 : Lz4) (zlib : Zlib) (arg : CompressionArg2) (outBufSize : Nat) :
    Option (List UInt8) :=
  if arg.modes &&& cuDicEncode = 0 then decompressWithoutDict lz4 zlib arg outBufSize
  else
    let totalSize := leNat (arg.buf.take 4)
    (integerDecompress lz4 zlib 2 ⟨arg.buf.drop totalSize, arg.modes⟩ outBufSize).map fun numbers =>
      dicDecompress arg.buf (readValues 2 (numbers.length / 2) numbers)

variable (codes : List Nat) (lz4 : Lz4) (zlib : Zlib) (adoptRle : Bool) (eachValSize : Nat)
  (buf : List UInt8) (outBufSize : Nat)

theorem decompressWithoutDict_lz :
    decompressWithoutDict lz4 zlib ⟨buf, cuLzCompressed⟩ outBufSize = lz4.wrapperDecompress buf := by
  rw [decompressWithoutDict, if_neg (show ¬cuLzCompressed &&& cuZlibCompressed ≠ 0 by decide),
    if_pos (show cuLzCompressed &&& cuLzCompressed ≠ 0 by decide)]

theorem decompressWithoutDict_zlib :
    decompressWithoutDict lz4 zlib ⟨buf, cuZlibCompressed⟩ outBufSize =
      zlib.inflate buf outBufSize := by
  rw [decompressWithoutDict, if_pos (show cuZlibCompressed &&& cuZlibCompressed ≠ 0 by decide)]

theorem integerDecompress_copied (outSize : Nat) :
    integerDecompress lz4 zlib eachValSize ⟨buf, cuDicEncode⟩ outSize = some buf := by
  have bits := stepModes_bits false true false false false
  have alone : stepModes false true false false false = cuDicEncode := by decide
  rw [alone] at bits
  rw [integerDecompress, if_neg (fun delta => Bool.false_ne_true (bits.1.mp delta)), libraryUndo,
    if_neg (fun lz => Bool.false_ne_true (bits.2.2.1.mp lz)),
    if_neg (fun deflated => Bool.false_ne_true (bits.2.2.2.mp deflated)), map_some,
    if_neg (fun rle => Bool.false_ne_true (bits.2.1.mp rle))]

/-- Numbers that are not compressed leave no bytes. -/
theorem integerCompress_untaken
    {known : Option (Int × Int)} {compression : Compression} {compresslevel : Fin 4}
    {inBuf : List UInt8} (untaken : (integerCompress lz4 zlib adoptRle eachValSize known compression
      compresslevel inBuf).modes = 0) :
    (integerCompress lz4 zlib adoptRle eachValSize known compression compresslevel inBuf).buf =
      [] := by
  rw [integerCompress] at untaken ⊢
  generalize libraryStep lz4 zlib compression compresslevel (rleStep adoptRle (deltaStep eachValSize
    (known.getD (computeMinMaxVal (intValues eachValSize inBuf))) inBuf)) = out at untaken ⊢
  by_cases none : out.modes = 0
  · rw [if_pos none]
  · rw [if_neg none] at untaken
    by_cases delta : out.modes &&& cuDeltaCompressed ≠ 0
    · rw [if_pos delta] at untaken
      exact absurd untaken none
    · rw [if_neg delta] at untaken
      exact absurd untaken none

/-- Strings without a dictionary are restored. -/
theorem decompressWithoutDict_restores (lossless : lz4.Lossless)
    (zlibLossless : zlib.Lossless) {compression : Compression} {compresslevel : Fin 4}
    {inBuf : List UInt8} {outBufSize : Nat} (small : inBuf.length < 2 ^ 31)
    (taken : (compressWithoutDict lz4 zlib compression compresslevel inBuf outBufSize).modes ≠ 0) :
    (compressWithoutDict lz4 zlib compression compresslevel inBuf outBufSize).modes &&&
        cuDicEncode = 0 ∧ decompressWithoutDict lz4 zlib
        (compressWithoutDict lz4 zlib compression compresslevel inBuf outBufSize) inBuf.length =
          some inBuf := by
  -- a step that is taken has bytes
  have stays (out : CompressionArg2)
      (isOut : compressWithoutDict lz4 zlib compression compresslevel inBuf outBufSize =
        if 0 < out.buf.length ∧ out.buf.length < inBuf.length ∧ out.buf.length ≤ outBufSize then out
        else { out with modes := 0 }) :
      compressWithoutDict lz4 zlib compression compresslevel inBuf outBufSize = out ∧
        0 < out.buf.length := by
    by_cases helps : 0 < out.buf.length ∧ out.buf.length < inBuf.length ∧
        out.buf.length ≤ outBufSize
    · rw [if_pos helps] at isOut
      exact ⟨isOut, helps.1⟩
    · rw [if_neg helps] at isOut
      rw [isOut] at taken
      exact absurd rfl taken
  have throughLz4 (level : Nat) (isOut : compressWithoutDict lz4 zlib compression compresslevel inBuf
      outBufSize = ⟨lz4.wrapperCompress level inBuf, cuLzCompressed⟩)
      (present : 0 < (lz4.wrapperCompress level inBuf).length) :
      (compressWithoutDict lz4 zlib compression compresslevel inBuf outBufSize).modes &&&
          cuDicEncode = 0 ∧
        decompressWithoutDict lz4 zlib
          (compressWithoutDict lz4 zlib compression compresslevel inBuf outBufSize) inBuf.length =
            some inBuf := by
    rw [isOut, decompressWithoutDict_lz]
    exact ⟨show cuLzCompressed &&& cuDicEncode = 0 by decide,
      wrapperDecompress_wrapperCompress lz4 lossless small present⟩
  cases compression with
  | low | middle =>
    obtain ⟨isOut, present⟩ := stays _ rfl
    exact throughLz4 _ isOut present
  | high =>
    let level := compresslevelTables .high compresslevel
    let boundSize := zlib.deflateBound level inBuf.length
    let tempSize := if boundSize ≤ outBufSize then outBufSize else boundSize + 8
    obtain ⟨isOut, present⟩ := stays
      ⟨(zlib.deflate level inBuf tempSize).getD [], cuZlibCompressed⟩ rfl
    rw [isOut, decompressWithoutDict_zlib]
    refine ⟨show cuZlibCompressed &&& cuDicEncode = 0 by decide, ?_⟩
    cases deflated : zlib.deflate level inBuf tempSize with
    | none =>
      rw [deflated] at present
      exact absurd present (Nat.lt_irrefl 0)
    | some compressed =>
      exact zlibLossless level inBuf tempSize compressed deflated inBuf.length (Nat.le_refl _)

theorem intValues_codes (small : ∀ code ∈ codes, code < 2 ^ 15) :
    intValues 2 (writeValues 2 codes) = codes.map Int.ofNat := by
  have fit : ∀ code ∈ codes, code < 256 ^ 2 := by
    intro code member
    have bound := small code member
    omega
  rw [intValues, writeValues_length, Nat.mul_div_cancel _ (by decide),
    readValues_writeValues 2 codes fit]
  apply map_congr_left
  intro code member
  have bound := small code member
  rw [signedOf, if_pos (by omega)]
  rfl

/-- The codes reach from zero to the last item. -/
theorem codes_minMaxOf {count : Nat} (some : codes ≠ [])
    (within : ∀ code ∈ codes, code < count) (used : ∀ index, index < count → index ∈ codes) :
    MinMaxOf (codes.map Int.ofNat) (0, (count : Int) - 1) := by
  have present : 0 < count := by
    obtain ⟨code, member⟩ := exists_mem_of_ne_nil codes some
    have bound := within code member
    omega
  refine ⟨?_, ?_, ?_⟩
  · exact mem_map.mpr ⟨0, used 0 present, rfl⟩
  · refine mem_map.mpr ⟨count - 1, used (count - 1) (by omega), ?_⟩
    show ((count - 1 : Nat) : Int) = (count : Int) - 1
    omega
  · intro value member
    obtain ⟨code, isCode, rfl⟩ := mem_map.mp member
    have bound := within code isCode
    show (0 : Int) ≤ (code : Int) ∧ (code : Int) ≤ (count : Int) - 1
    omega

/-- The codes of a dictionary are restored. -/
theorem compressNumbers_restores (lossless : lz4.Lossless)
    (zlibLossless : zlib.Lossless) (adoptRle : Bool) (compression : Compression)
    (compresslevel : Fin 4) {max : Int} {codes : List Nat} (present : codes ≠ [])
    (bounds : MinMaxOf (intValues 2 (writeValues 2 codes)) (0, max)) {outSize : Nat}
    (room : 2 * codes.length ≤ outSize) (small : outSize < 2 ^ 31) :
    let numbers := compressNumbers lz4 zlib adoptRle compression compresslevel max codes
    integerDecompress lz4 zlib 2 ⟨numbers.buf, cuDicEncode ||| numbers.modes⟩ outSize =
      some (writeValues 2 codes) := by
  have length := writeValues_length 2 codes
  intro numbers
  have isNumbers : numbers = compressNumbers lz4 zlib adoptRle compression compresslevel max codes :=
    rfl
  rw [compressNumbers] at isNumbers
  by_cases compressed : 0 < (integerCompress lz4 zlib adoptRle 2 (some (0, max)) compression
      compresslevel (writeValues 2 codes)).buf.length
  · simp only [if_pos compressed] at isNumbers
    have taken : (integerCompress lz4 zlib adoptRle 2 (some (0, max)) compression compresslevel
        (writeValues 2 codes)).modes ≠ 0 := by
      intro untaken
      rw [integerCompress_untaken lz4 zlib _ _ untaken] at compressed
      exact absurd compressed (Nat.lt_irrefl 0)
    have restored := integerDecompress_integerCompress lz4 zlib lossless zlibLossless adoptRle
      (by decide) (by decide) (some (0, max)) compression compresslevel
      (length_pos_iff.mpr present) length (by lia)
      (fun minMax isKnown => by rw [← some.inj isKnown]; exact bounds) true outSize (by lia)
      taken
    rw [isNumbers, Nat.or_comm]
    exact restored
  · simp only [if_neg compressed] at isNumbers
    rw [isNumbers, Nat.or_zero]
    exact integerDecompress_copied lz4 zlib 2 _ outSize

theorem onDisk_length (dict : DicData) : dict.onDisk.length = dict.totalSize := by
  rw [DicData.onDisk, length_append, length_append, leBytes_length, leBytes_length,
    DicData.totalSize]

/-- Values are restored from a dictionary and their numbers. -/
theorem compressWithDict_restores (lossless : lz4.Lossless)
    (zlibLossless : zlib.Lossless) {hashAny : List UInt8 → Nat} {adoptRle : Bool}
    {compression : Compression} {compresslevel : Fin 4} {values : List (List UInt8)}
    (_present : values ≠ []) (varlenas : ∀ value ∈ values, IsVarlena value)
    (few : values.length < 2 ^ 16) (small : values.flatten.length < 2 ^ 31) {out : CompressionArg2}
    (result : compressWithDict lz4 zlib hashAny adoptRle compression compresslevel values.flatten
      values.length = some out) :
    stringDecompress lz4 zlib out values.flatten.length = some values.flatten := by
  rw [compressWithDict] at result
  cases compressed : dicCompress hashAny values.flatten values.length with
  | none =>
    rw [compressed] at result
    cases result
  | some pair =>
    obtain ⟨codes, dict⟩ := pair
    rw [compressed] at result
    dsimp only at result
    by_cases helps : 0 < 2 * values.length ∧ 0 < dict.totalSize ∧
        2 * values.length + dict.totalSize < values.flatten.length
    · rw [if_pos helps, some.injEq] at result
      have loop := (Option.filter_eq_some_iff.mp compressed).1
      obtain ⟨items, holds, maxCount, lookups, used⟩ := dicCompressLoop_spec hashAny values varlenas
        _ _ [] (initDictData_holds _ _) codes dict loop
      rw [nil_append] at holds lookups used
      have length : codes.length = values.length := by
        have lengths := congrArg List.length lookups
        rw [length_map, length_map] at lengths
        exact lengths
      have some : codes ≠ [] := by
        apply ne_nil_of_length_pos
        lia
      have within : ∀ code ∈ codes, code < items.length := by
        intro code member
        have isValue : items[code]? ∈ values.map Option.some := by
          rw [← lookups]
          exact mem_map_of_mem member
        obtain ⟨value, -, found⟩ := mem_map.mp isValue
        exact (List.getElem?_eq_some_iff.mp found.symm).1
      have room : items.length < 2 ^ 15 := by
        have bound := holds.room
        have most : (initDictData (dictGetMaxNumber values.flatten.length)
            (dictGetMaxNumber values.length)).maxItemCount =
            (values.length / 4 + 1) % 2 ^ 16 := rfl
        lia
      have bounds : MinMaxOf (intValues 2 (writeValues 2 codes))
          (0, (dict.curItemCount : Int) - 1) := by
        rw [intValues_codes codes (fun code member => (within code member).trans room), holds.count]
        exact codes_minMaxOf codes some within (fun index below => used index (Nat.zero_le _) below)
      have numbers := compressNumbers_restores lz4 zlib lossless zlibLossless adoptRle compression
        compresslevel some bounds (by lia) small
      generalize compressNumbers lz4 zlib adoptRle compression compresslevel
        ((dict.curItemCount : Int) - 1) codes = coded at numbers result
      have flagged : ¬(cuDicEncode ||| coded.modes) &&& cuDicEncode = 0 := by
        rw [Nat.and_or_distrib_right]
        have least := Nat.left_le_or (n := cuDicEncode &&& cuDicEncode)
          (m := coded.modes &&& cuDicEncode)
        have bit : cuDicEncode &&& cuDicEncode = 2 := by decide
        omega
      have size : leNat ((dict.onDisk ++ coded.buf).take 4) = dict.totalSize := by
        exact leNat_leBytes 4 _ (by lia)
      rw [← result, stringDecompress, if_neg flagged]
      dsimp only
      rw [size, drop_left' (onDisk_length dict), numbers, map_some, writeValues_length,
        Nat.mul_div_cancel _ (by decide), readValues_writeValues 2 codes (by
          intro code member
          have bound := within code member
          lia),
        dicDecompress_restores dict items holds coded.buf codes values lookups few (by lia)]
    · rw [if_neg helps] at result
      cases result

/-- Strings are restored from what was compressed, at every level, with a dictionary or without,
whatever the hashes are. A unit of a column has at most 60000 values, and its size has 31 bits. -/
theorem string_columns_are_restored (lz4 : Lz4) (zlib : Zlib) (lossless : lz4.Lossless)
    (zlibLossless : zlib.Lossless) (hashAny : List UInt8 → Nat) (values : List (List UInt8))
    (present : values ≠ []) (varlenas : ∀ value ∈ values, IsVarlena value)
    (few : values.length ≤ 60000) (small : values.flatten.length < 2 ^ 31)
    (adoptRle adoptDict useDict : Bool) (compression : Compression) (compresslevel : Fin 4)
    (outBufSize : Nat)
    (taken : (stringCompress lz4 zlib hashAny adoptRle adoptDict useDict compression compresslevel
      values.flatten values.length outBufSize).modes ≠ 0) :
    stringDecompress lz4 zlib (stringCompress lz4 zlib hashAny adoptRle adoptDict useDict compression
      compresslevel values.flatten values.length outBufSize) values.flatten.length =
        some values.flatten := by
  rw [stringCompress] at taken ⊢
  cases byDict : (if (useDict && adoptDict) = true then compressWithDict lz4 zlib hashAny adoptRle
      compression compresslevel values.flatten values.length else none) with
  | some out =>
    by_cases wanted : (useDict && adoptDict) = true
    · rw [if_pos wanted] at byDict
      exact compressWithDict_restores lz4 zlib lossless zlibLossless
         present varlenas (by omega) small byDict
    · rw [if_neg wanted] at byDict
      exact nomatch byDict
  | none =>
    rw [byDict] at taken
    by_cases helps : 0 < (compressWithoutDict lz4 zlib compression compresslevel values.flatten
        outBufSize).buf.length ∧ (compressWithoutDict lz4 zlib compression compresslevel
        values.flatten outBufSize).buf.length < values.flatten.length
    · rw [if_pos helps] at taken ⊢
      obtain ⟨noDict, restored⟩ := decompressWithoutDict_restores lz4 zlib lossless zlibLossless
         small taken
      rw [stringDecompress, if_pos noDict]
      exact restored
    · rw [if_neg helps] at taken
      exact absurd rfl taken

/-- A value of nine bytes with a short header. -/
def nineBytes : List UInt8 := 21 :: List.replicate 9 97

/-- Eight equal values: one value in the dictionary, and its number eight times as a run of
distances. -/
theorem string_columns_are_restored_repeats :
    let out := stringCompress literalLz4 fullZlib (fun _ => 7) true true true .middle 0
      (List.replicate 8 nineBytes).flatten 8 100
    out.modes = cuDicEncode ||| (cuDeltaCompressed ||| cuRLECompressed) ∧
      stringDecompress literalLz4 fullZlib out 80 = some (List.replicate 8 nineBytes).flatten := by
  have taken : (stringCompress literalLz4 fullZlib (fun _ => 7) true true true .middle 0
      (List.replicate 8 nineBytes).flatten 8 100).modes =
      cuDicEncode ||| (cuDeltaCompressed ||| cuRLECompressed) := by decide
  refine ⟨taken, ?_⟩
  refine string_columns_are_restored literalLz4 fullZlib literalLz4_lossless
    (fun _ _ _ _ done => nomatch done) (fun _ => 7) (List.replicate 8 nineBytes) (by decide) ?_
    (by decide) (by decide) true true true .middle 0 100 ?_
  · intro value member
    rw [eq_of_mem_replicate member]
    exact ⟨by decide, by decide⟩
  · decide

end OpenGauss.CStore
