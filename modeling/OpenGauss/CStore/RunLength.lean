import OpenGauss.Base.Bytes
import Mathlib.Data.List.Basic
import Mathlib.Data.Nat.Bitwise

/-!
# Runs of equal values

`RleCoder` of `compress_kits.cpp` writes the values of a column one after the other, each in the
bytes of its width. Values that repeat often enough become a run: a marker of the same width, the
number of repeats in one or two bytes, and the value. The marker itself is a possible value; it is
written with the number of its repeats, which is smaller than that of any run.
-/
namespace OpenGauss.CStore

open List OpenGauss.Base

/-- A value of some bytes, low byte first (`readData`); 64 bits at most. -/
def readData (datasize : Nat) (inbuf : List UInt8) : Nat := leNat (inbuf.take datasize)

/-- The low bytes of a value (`writeData`). -/
def writeData (datasize data : Nat) : List UInt8 := leBytes datasize data

/-- The values of a buffer. -/
def readValues (datasize : Nat) : Nat → List UInt8 → List Nat
  | 0, _ => []
  | count + 1, inbuf => readData datasize inbuf :: readValues datasize count (inbuf.drop datasize)

/-- The buffer of some values. -/
def writeValues (datasize : Nat) (values : List Nat) : List UInt8 :=
  values.flatMap (writeData datasize)

/-- The marker of a run: the byte 0xFE as often as a value is wide (`RleMarker`). -/
def rleMarker (eachValSize : Nat) : Nat := leNat (List.replicate eachValSize 0xFE)

/-- The most repeats of a run. -/
def rleMaxRepeats : Nat := 0x7fff

/-- Write a value that repeats less often than a run does. -/
def writeNonRuns (eachValSize symbol count : Nat) : List UInt8 :=
  if rleMarker eachValSize ≠ symbol then writeValues eachValSize (List.replicate count symbol)
  else writeData eachValSize symbol ++ [UInt8.ofNat count]

/-- Write a run. -/
def writeRuns (eachValSize symbol count : Nat) : List UInt8 :=
  writeData eachValSize (rleMarker eachValSize) ++
    (if 128 ≤ count then [UInt8.ofNat ((count ||| 0x8000) / 256), UInt8.ofNat count]
      else [UInt8.ofNat count]) ++
    writeData eachValSize symbol

/-- Write a value with its repeats. -/
def writeRepeats (eachValSize minRepeats symbol count : Nat) : List UInt8 :=
  if minRepeats ≤ count then writeRuns eachValSize symbol count
  else writeNonRuns eachValSize symbol count

/-- Count the repeats of a value, up to the most of a run: the value read last, the count, and the
values that are left. -/
def scanRepeats (data1 : Nat) : Nat → Nat → List Nat → Nat × Nat × List Nat
  | data2, count, [] => (data2, count, [])
  | data2, count, next :: rest =>
    if data1 = data2 ∧ count < rleMaxRepeats then scanRepeats data1 next (count + 1) rest
    else (data2, count, next :: rest)

/-- The main loop of compressing. It reads two values; a value that is left alone at the end is
written like one that does not repeat. -/
def rleCompressLoop (eachValSize minRepeats : Nat) : Nat → List Nat → List UInt8
  | 0, _ => []
  | _ + 1, [] => []
  | _ + 1, [data1] => writeNonRuns eachValSize data1 1
  | rounds + 1, data1 :: data2 :: rest =>
    if data1 = data2 then
      let scanned := scanRepeats data1 data2 2 rest
      if data1 = scanned.1 then
        writeRepeats eachValSize minRepeats data1 scanned.2.1 ++
          rleCompressLoop eachValSize minRepeats rounds scanned.2.2
      else
        writeRepeats eachValSize minRepeats data1 (scanned.2.1 - 1) ++
          rleCompressLoop eachValSize minRepeats rounds (scanned.1 :: scanned.2.2)
    else
      writeNonRuns eachValSize data1 1 ++
        rleCompressLoop eachValSize minRepeats rounds (data2 :: rest)

/-- Compress values. Every round of the loop writes at least one. -/
def rleCompress (eachValSize minRepeats : Nat) (inbuf : List UInt8) : List UInt8 :=
  rleCompressLoop eachValSize minRepeats (inbuf.length / eachValSize)
    (readValues eachValSize (inbuf.length / eachValSize) inbuf)

/-- Read a value, or a run, or some markers: the values, and the bytes that are left. -/
def rleDecompressOne (eachValSize minRepeats : Nat) (inptr : List UInt8) :
    List Nat × List UInt8 :=
  let symbol := readData eachValSize inptr
  let rest := inptr.drop eachValSize
  if rleMarker eachValSize = symbol then
    let markerCount := (rest.headD 0).toNat
    if minRepeats ≤ markerCount then
      let long := markerCount &&& 0x80 ≠ 0
      let symbolCount :=
        if long then (markerCount * 256 + ((rest.drop 1).headD 0).toNat) &&& 0x7fff
        else markerCount
      let behind := rest.drop (if long then 2 else 1)
      (List.replicate symbolCount (readData eachValSize behind), behind.drop eachValSize)
    else (List.replicate markerCount symbol, rest.drop 1)
  else ([symbol], rest)

/-- Read values as long as there are bytes for one. -/
def rleDecompressLoop (eachValSize minRepeats : Nat) : Nat → List UInt8 → List Nat
  | 0, _ => []
  | rounds + 1, inptr =>
    let one := rleDecompressOne eachValSize minRepeats inptr
    one.1 ++
      if eachValSize ≤ one.2.length then rleDecompressLoop eachValSize minRepeats rounds one.2
      else []

/-- Decompress values. Every round reads at least one byte. -/
def rleDecompress (eachValSize minRepeats : Nat) (inbuf : List UInt8) : List UInt8 :=
  writeValues eachValSize (rleDecompressLoop eachValSize minRepeats inbuf.length inbuf)

variable (datasize : Nat) (values : List Nat) (eachValSize minRepeats symbol count : Nat)

theorem readData_lt (inbuf : List UInt8) : readData datasize inbuf < 256 ^ datasize := by
  have short : (inbuf.take datasize).length ≤ datasize := by
    rw [length_take]
    exact Nat.min_le_left _ _
  exact Nat.lt_of_lt_of_le (leNat_lt _) (Nat.pow_le_pow_right (by decide) short)

theorem readData_writeData {datasize data : Nat} (rest : List UInt8)
    (fits : data < 256 ^ datasize) :
    readData datasize (writeData datasize data ++ rest) = data := by
  rw [readData, writeData, take_left' (leBytes_length datasize data),
    leNat_leBytes datasize data fits]

theorem drop_writeData (datasize data : Nat) (rest : List UInt8) :
    (writeData datasize data ++ rest).drop datasize = rest :=
  drop_left' (leBytes_length datasize data)

variable (inbuf : List UInt8)

theorem readValues_lt :
    ∀ value ∈ readValues datasize count inbuf, value < 256 ^ datasize := by
  induction count generalizing inbuf with
  | zero => exact fun value member => absurd member not_mem_nil
  | succ count ih =>
    rw [readValues, forall_mem_cons]
    exact ⟨readData_lt datasize inbuf, ih _⟩

theorem readValues_length :
    (readValues datasize count inbuf).length = count := by
  induction count generalizing inbuf with
  | zero => rfl
  | succ count ih => rw [readValues, length_cons, ih]

/-- Values that are read are written back. -/
theorem writeValues_readValues (whole : inbuf.length = count * datasize) :
    writeValues datasize (readValues datasize count inbuf) = inbuf := by
  induction count generalizing inbuf with
  | zero =>
    rw [Nat.zero_mul] at whole
    rw [length_eq_zero_iff.mp whole]
    rfl
  | succ count ih =>
    rw [Nat.succ_mul] at whole
    have width : (inbuf.take datasize).length = datasize := by
      rw [length_take]
      lia
    have first : writeData datasize (readData datasize inbuf) = inbuf.take datasize := by
      have written := leBytes_leNat (inbuf.take datasize)
      rw [width] at written
      exact written
    have others := ih (inbuf.drop datasize) (by rw [length_drop]; omega)
    rw [writeValues] at others
    rw [readValues, writeValues, flatMap_cons, first, others, take_append_drop]

theorem writeValues_length : (writeValues datasize values).length = values.length * datasize := by
  induction values with
  | nil => rw [length_nil, Nat.zero_mul]; rfl
  | cons value rest ih =>
    rw [writeValues, flatMap_cons, length_append, ← writeValues, ih, writeData,
      leBytes_length, length_cons, Nat.succ_mul, Nat.add_comm]

theorem readValues_writeValues (fit : ∀ value ∈ values, value < 256 ^ datasize) :
    readValues datasize values.length (writeValues datasize values) = values := by
  induction values with
  | nil => rfl
  | cons value rest ih =>
    rw [forall_mem_cons] at fit
    rw [length_cons, readValues, writeValues, flatMap_cons, ← writeValues,
      readData_writeData _ fit.1, drop_writeData, ih fit.2]

theorem rleMarker_lt (eachValSize : Nat) : rleMarker eachValSize < 256 ^ eachValSize := by
  have bound := leNat_lt (List.replicate eachValSize 0xFE)
  rw [length_replicate] at bound
  exact bound

theorem rleDecompressOne_plain (eachValSize minRepeats symbol : Nat) (rest : List UInt8)
    (fits : symbol < 256 ^ eachValSize) (plain : rleMarker eachValSize ≠ symbol) :
    rleDecompressOne eachValSize minRepeats (writeData eachValSize symbol ++ rest) =
      ([symbol], rest) := by
  simp only [rleDecompressOne, readData_writeData rest fits, drop_writeData, if_neg plain]

theorem rleDecompressOne_markers (eachValSize minRepeats count : Nat) (rest : List UInt8)
    (few : count < minRepeats) (small : minRepeats ≤ 128) : rleDecompressOne eachValSize minRepeats
        (writeData eachValSize (rleMarker eachValSize) ++ UInt8.ofNat count :: rest) =
      (List.replicate count (rleMarker eachValSize), rest) := by
  have byte : (UInt8.ofNat count).toNat = count := UInt8.toNat_ofNat_of_lt' (by
    show count < 256
    omega)
  simp only [rleDecompressOne, readData_writeData _ (rleMarker_lt eachValSize),
    drop_writeData, if_true, headD_cons, byte, if_neg (Nat.not_le.mpr few), drop_succ_cons,
    drop_zero]

/-- A run is read back. -/
theorem rleDecompressOne_runs (rest : List UInt8)
    (fits : symbol < 256 ^ eachValSize) (small : minRepeats ≤ 128) (enough : minRepeats ≤ count)
    (most : count ≤ rleMaxRepeats) :
    rleDecompressOne eachValSize minRepeats (writeRuns eachValSize symbol count ++ rest) =
      (List.replicate count symbol, rest) := by
  rw [rleMaxRepeats] at most
  by_cases two : 128 ≤ count
  · have high : ((count ||| 0x8000) / 256) = count / 256 + 128 := by
      have disjoint : count ||| 0x8000 = count + 0x8000 := by
        have joined := Nat.two_pow_add_eq_or_of_lt (show count < 2 ^ 15 by omega) 1
        rw [Nat.or_comm] at joined
        exact joined.symm.trans (Nat.add_comm _ _)
      lia
    have byte1 : (UInt8.ofNat (count / 256 + 128)).toNat = count / 256 + 128 :=
      UInt8.toNat_ofNat_of_lt' (by
        lia)
    have byte2 : (UInt8.ofNat count).toNat = count % 256 := UInt8.toNat_ofNat'
    have long : (count / 256 + 128) &&& 0x80 ≠ 0 := by
      have flag := Nat.and_two_pow (count / 256 + 128) 7
      have set : (count / 256 + 128).testBit 7 = true := by
        rw [Nat.testBit_eq_decide_div_mod_eq, decide_eq_true_eq]
        omega
      rw [set] at flag
      exact ne_of_eq_of_ne flag (by decide)
    have length : ((count / 256 + 128) * 256 + count % 256) &&& 0x7fff = count := by
      have low := Nat.and_two_pow_sub_one_eq_mod ((count / 256 + 128) * 256 + count % 256) 15
      lia
    have behind : minRepeats ≤ count / 256 + 128 := by lia
    simp only [rleDecompressOne, writeRuns, if_pos two, high, append_assoc, cons_append,
      nil_append, readData_writeData _ (rleMarker_lt eachValSize),
      drop_writeData, if_true, headD_cons, byte1, if_pos behind, drop_succ_cons,
      drop_zero, byte2, if_pos long, length, readData_writeData rest fits]
  · have byte : (UInt8.ofNat count).toNat = count := UInt8.toNat_ofNat_of_lt' (by
      show count < 256
      omega)
    have short : ¬count &&& 0x80 ≠ 0 := by
      have flag := Nat.and_two_pow count 7
      have clear : count.testBit 7 = false := Nat.testBit_lt_two_pow (by lia)
      rw [clear] at flag
      exact not_not.mpr (flag.trans (by decide))
    simp only [rleDecompressOne, writeRuns, if_neg two, append_assoc, cons_append,
      nil_append, readData_writeData _ (rleMarker_lt eachValSize),
      drop_writeData, if_true, headD_cons, byte, if_pos enough, drop_succ_cons,
      drop_zero, if_neg short, readData_writeData rest fits]

/-- Bytes that are read as some values in front of any others. -/
def Decodes (eachValSize minRepeats : Nat) (bytes : List UInt8) (values : List Nat) : Prop :=
  ∀ rest rounds, bytes.length + rest.length ≤ rounds → ∃ left, rest.length ≤ left ∧
    rleDecompressLoop eachValSize minRepeats rounds (bytes ++ rest) = values ++
      if eachValSize ≤ rest.length then rleDecompressLoop eachValSize minRepeats left rest else []

theorem Decodes.of_one (eachValSize minRepeats : Nat) (bytes : List UInt8) (values : List Nat)
    (some : 0 < bytes.length)
    (one : ∀ rest, rleDecompressOne eachValSize minRepeats (bytes ++ rest) = (values, rest)) :
    Decodes eachValSize minRepeats bytes values := by
  intro rest rounds enough
  cases rounds with
  | zero => omega
  | succ rounds =>
    refine ⟨rounds, by omega, ?_⟩
    rw [rleDecompressLoop]
    simp only [one]

theorem Decodes.append {eachValSize minRepeats : Nat} {bytes1 bytes2 : List UInt8}
    {values1 values2 : List Nat} (one : Decodes eachValSize minRepeats bytes1 values1)
    (other : Decodes eachValSize minRepeats bytes2 values2) (wide : eachValSize ≤ bytes2.length) :
    Decodes eachValSize minRepeats (bytes1 ++ bytes2) (values1 ++ values2) := by
  intro rest rounds enough
  rw [length_append] at enough
  obtain ⟨left1, enough1, result1⟩ := one (bytes2 ++ rest) rounds (by
    rw [length_append]
    omega)
  rw [length_append] at enough1
  obtain ⟨left2, enough2, result2⟩ := other rest left1 enough1
  refine ⟨left2, enough2, ?_⟩
  rw [append_assoc, result1, if_pos (by rw [length_append]; omega), result2,
    append_assoc]

/-- Values that are no marker are read back. -/
theorem decodes_plain (wide : 0 < eachValSize)
    (fits : symbol < 256 ^ eachValSize) (plain : rleMarker eachValSize ≠ symbol) :
    Decodes eachValSize minRepeats (writeValues eachValSize (List.replicate (count + 1) symbol))
      (List.replicate (count + 1) symbol) := by
  have single : Decodes eachValSize minRepeats (writeData eachValSize symbol) [symbol] := by
    apply Decodes.of_one
    · rw [writeData, leBytes_length]
      exact wide
    · intro rest
      exact rleDecompressOne_plain eachValSize minRepeats symbol rest fits plain
  induction count with
  | zero =>
    have one : writeValues eachValSize (List.replicate (0 + 1) symbol) =
        writeData eachValSize symbol := append_nil _
    rw [one]
    exact single
  | succ count ih =>
    apply Decodes.append single ih
    rw [writeValues_length, length_replicate]
    exact Nat.le_mul_of_pos_left _ (Nat.succ_pos count)

section

variable (wide : 0 < eachValSize) (small : minRepeats ≤ 128) (fits : symbol < 256 ^ eachValSize)
  (present : 0 < count)
include wide small fits present

/-- A short run is read back. -/
theorem writeNonRuns_decodes (few : count < minRepeats) :
    Decodes eachValSize minRepeats (writeNonRuns eachValSize symbol count)
        (List.replicate count symbol) ∧
      eachValSize ≤ (writeNonRuns eachValSize symbol count).length := by
  rw [writeNonRuns]
  by_cases plain : rleMarker eachValSize ≠ symbol
  · rw [if_pos plain]
    obtain ⟨before, rfl⟩ : ∃ before, count = before + 1 := ⟨count - 1, by omega⟩
    refine ⟨decodes_plain eachValSize minRepeats symbol before wide fits plain, ?_⟩
    rw [writeValues_length, length_replicate]
    exact Nat.le_mul_of_pos_left _ present
  · rw [if_neg plain, ← not_not.mp plain]
    have length : (writeData eachValSize (rleMarker eachValSize) ++ [UInt8.ofNat count]).length =
        eachValSize + 1 := by
      rw [length_append, writeData, leBytes_length]
      rfl
    refine ⟨?_, by omega⟩
    apply Decodes.of_one
    · lia
    · intro rest
      rw [append_assoc]
      exact rleDecompressOne_markers eachValSize minRepeats count rest few small

/-- Repeats are read back. -/
theorem writeRepeats_decodes (most : count ≤ rleMaxRepeats) :
    Decodes eachValSize minRepeats (writeRepeats eachValSize minRepeats symbol count)
        (List.replicate count symbol) ∧
      eachValSize ≤ (writeRepeats eachValSize minRepeats symbol count).length := by
  rw [writeRepeats]
  by_cases enough : minRepeats ≤ count
  · rw [if_pos enough]
    have length : eachValSize ≤ (writeRuns eachValSize symbol count).length := by
      rw [writeRuns, length_append, writeData, writeData, leBytes_length]
      exact Nat.le_add_left _ _
    refine ⟨?_, length⟩
    apply Decodes.of_one
    · omega
    · intro rest
      exact rleDecompressOne_runs eachValSize minRepeats symbol count rest fits small enough most
  · rw [if_neg enough]
    exact writeNonRuns_decodes eachValSize minRepeats symbol count wide small fits present
      (Nat.not_le.mp enough)

end

/-- The scan splits the repeats off. -/
theorem scanRepeats_spec (data1 count : Nat) (rest : List Nat) (room : count ≤ rleMaxRepeats) :
    let scanned := scanRepeats data1 data1 count rest
    (data1 = scanned.1 ∧ count ≤ scanned.2.1 ∧ scanned.2.1 ≤ rleMaxRepeats ∧
      List.replicate count data1 ++ rest = List.replicate scanned.2.1 data1 ++ scanned.2.2) ∨
    (data1 ≠ scanned.1 ∧ count ≤ scanned.2.1 - 1 ∧ scanned.2.1 - 1 ≤ rleMaxRepeats ∧
      List.replicate count data1 ++ rest =
        List.replicate (scanned.2.1 - 1) data1 ++ scanned.1 :: scanned.2.2) := by
  induction rest generalizing count with
  | nil => exact .inl ⟨rfl, Nat.le_refl _, room, rfl⟩
  | cons next rest ih =>
    rw [scanRepeats]
    by_cases goes : data1 = data1 ∧ count < rleMaxRepeats
    · rw [if_pos goes]
      by_cases same : data1 = next
      · subst same
        have moved : List.replicate count data1 ++ data1 :: rest =
            List.replicate (count + 1) data1 ++ rest := by
          rw [replicate_succ', append_assoc]
          rfl
        rw [moved]
        rcases ih (count + 1) goes.2 with found | found
        · exact .inl ⟨found.1, Nat.le_of_succ_le found.2.1, found.2.2⟩
        · exact .inr ⟨found.1, Nat.le_of_succ_le found.2.1, found.2.2⟩
      · have stops : scanRepeats data1 next (count + 1) rest = (next, count + 1, rest) := by
          cases rest with
          | nil => rfl
          | cons later rest => rw [scanRepeats, if_neg (fun both => same both.1)]
        rw [stops]
        exact .inr ⟨same, Nat.le_refl _, room, rfl⟩
    · rw [if_neg goes]
      exact .inl ⟨rfl, Nat.le_refl _, room, rfl⟩

/-- What is decoded may be followed by the rest of the loop. -/
theorem decodes_then (eachValSize minRepeats rounds : Nat) (bytes : List UInt8)
    (values later : List Nat) (read : Decodes eachValSize minRepeats bytes values)
    (wide : eachValSize ≤ bytes.length) (rest : later ≠ [] → Decodes eachValSize minRepeats
        (rleCompressLoop eachValSize minRepeats rounds later) later ∧
      eachValSize ≤ (rleCompressLoop eachValSize minRepeats rounds later).length) :
    Decodes eachValSize minRepeats
        (bytes ++ rleCompressLoop eachValSize minRepeats rounds later) (values ++ later) ∧
      eachValSize ≤ (bytes ++ rleCompressLoop eachValSize minRepeats rounds later).length := by
  rw [length_append]
  refine ⟨?_, by omega⟩
  by_cases none : later = []
  · have nothing : rleCompressLoop eachValSize minRepeats rounds [] = [] := by
      cases rounds <;> rfl
    rw [none, nothing, append_nil, append_nil]
    exact read
  · exact Decodes.append read (rest none).1 (rest none).2

/-- What the main loop writes is read as the values it was given. -/
theorem rleCompressLoop_decodes (eachValSize minRepeats : Nat) (wide : 0 < eachValSize)
    (least : 2 ≤ minRepeats) (small : minRepeats ≤ 128) (rounds : Nat) (values : List Nat)
    (fit : ∀ value ∈ values, value < 256 ^ eachValSize) (present : values ≠ [])
    (enough : values.length ≤ rounds) :
    Decodes eachValSize minRepeats (rleCompressLoop eachValSize minRepeats rounds values) values ∧
      eachValSize ≤ (rleCompressLoop eachValSize minRepeats rounds values).length := by
  induction rounds generalizing values with
  | zero =>
    rw [length_eq_zero_iff.mp (Nat.le_zero.mp enough)] at present
    exact absurd rfl present
  | succ rounds ih =>
    match values with
    | [] => exact absurd rfl present
    | [data1] =>
      exact writeNonRuns_decodes eachValSize minRepeats data1 1 wide small
        (fit data1 (mem_singleton_self _)) Nat.one_pos least
    | data1 :: data2 :: rest =>
      have fits := fit data1 mem_cons_self
      rw [length_cons, length_cons] at enough
      rw [rleCompressLoop]
      by_cases same : data1 = data2
      · subst same
        have spec := scanRepeats_spec data1 2 rest (by decide)
        generalize scanRepeats data1 data1 2 rest = scanned at spec ⊢
        have total : data1 :: data1 :: rest = List.replicate 2 data1 ++ rest := rfl
        rcases spec with ⟨again, least2, most, all⟩ | ⟨other, least2, most, all⟩
        · have lengths := congrArg List.length all
          rw [length_append, length_append, length_replicate, length_replicate] at lengths
          have one := writeRepeats_decodes eachValSize minRepeats data1 scanned.2.1 wide small fits
            (by omega) most
          simp only [if_pos again]
          rw [total, all]
          apply decodes_then eachValSize minRepeats rounds _ _ _ one.1 one.2
          intro some
          apply ih scanned.2.2 _ some (by lia)
          intro value member
          apply fit
          rw [total, all]
          exact mem_append_right _ member
        · have lengths := congrArg List.length all
          rw [length_append, length_append, length_replicate,
            length_replicate, length_cons] at lengths
          have one := writeRepeats_decodes eachValSize minRepeats data1 (scanned.2.1 - 1) wide small
            fits (by omega) most
          simp only [if_neg other]
          rw [total, all]
          apply decodes_then eachValSize minRepeats rounds _ _ _ one.1 one.2
          intro some
          apply ih (scanned.1 :: scanned.2.2) _ some (by rw [length_cons]; lia)
          intro value member
          apply fit
          rw [total, all]
          exact mem_append_right _ member
      · rw [if_neg same]
        have one := writeNonRuns_decodes eachValSize minRepeats data1 1 wide small fits Nat.one_pos
          least
        apply decodes_then eachValSize minRepeats rounds _ [data1] _ one.1 one.2
        intro some
        apply ih (data2 :: rest) _ some (by rw [length_cons]; omega)
        exact fun value member => fit value (mem_cons_of_mem _ member)

/-- Runs are restored. -/
theorem rleDecompress_rleCompress {eachValSize : Nat} (minRepeats : Nat) (wide : 0 < eachValSize)
    (least : 2 ≤ minRepeats) (small : minRepeats ≤ 128) {count : Nat} {inbuf : List UInt8}
    (present : 0 < count) (whole : inbuf.length = count * eachValSize) :
    rleDecompress eachValSize minRepeats (rleCompress eachValSize minRepeats inbuf) = inbuf := by
  have values : inbuf.length / eachValSize = count := by
    rw [whole, Nat.mul_div_cancel _ wide]
  have length := readValues_length eachValSize count inbuf
  obtain ⟨read, long⟩ := rleCompressLoop_decodes eachValSize minRepeats wide least small count
    (readValues eachValSize count inbuf) (readValues_lt eachValSize count inbuf) (by
      intro none
      rw [none] at length
      exact absurd length.symm (Nat.ne_of_gt present)) (by omega)
  rw [rleDecompress, rleCompress, values]
  obtain ⟨left, -, result⟩ := read [] _ (Nat.le_refl _)
  rw [append_nil, length_nil, Nat.add_zero, if_neg (by omega), append_nil] at result
  rw [result, writeValues_readValues eachValSize count inbuf whole]

end OpenGauss.CStore
