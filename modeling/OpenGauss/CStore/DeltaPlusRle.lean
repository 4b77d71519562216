import OpenGauss.CStore.IntegerRoundTrip

/-!
# Distances and runs without a header

`DeltaPlusRLEv2` of `cstore_compress.cpp` compresses integers of one width that came out of numerics.
Distances from the smallest value are taken whenever they have fewer bytes, and runs are written if
they are shorter. The smallest value and the width of a distance are not part of the result; the
caller keeps them.
-/
namespace OpenGauss.CStore

open OpenGauss.Base

/-- The least repeats of a run, by the width of a value (`RleMinRepeats_v2`). -/
def rleMinRepeatsV2 (eachValSize : Nat) : Nat := [0, 4, 3, 3, 3, 3, 3, 3, 3].getD eachValSize 0

/-- The most bytes of runs (`RleGetBound2`). -/
def rleGetBound2 (nVals eachSize : Nat) : Nat := 1 + eachSize * nVals + nVals / 2

/-- Compress integers; no bytes and no steps if nothing helps. -/
def deltaPlusRleCompress (adoptRle : Bool) (valueBytes : Nat) (minMax : Int × Int)
    (inBuf : List UInt8) : CompressionArg2 :=
  let deltaBytes := deltaGetBytesNum minMax.1 minMax.2
  let nValues := inBuf.length / valueBytes
  if deltaBytes < valueBytes then
    let delta := deltaCompress minMax.1 minMax.2 inBuf (rleGetBound2 nValues deltaBytes) valueBytes
    if adoptRle then
      let rle := rleCompress deltaBytes (rleMinRepeatsV2 deltaBytes) delta
      if 0 < rle.length ∧ rle.length < delta.length then ⟨rle, cuDeltaCompressed ||| cuRLECompressed⟩
      else ⟨delta, cuDeltaCompressed⟩
    else ⟨delta, cuDeltaCompressed⟩
  else if adoptRle then
    let rle := rleCompress valueBytes (rleMinRepeatsV2 valueBytes) inBuf
    if 0 < rle.length ∧ rle.length < inBuf.length then ⟨rle, cuRLECompressed⟩ else ⟨[], 0⟩
  else ⟨[], 0⟩

/-- Restore integers from the smallest one, the width of a distance and the steps taken. -/
def deltaPlusRleDecompress (minVal : Int) (deltaBytes valueBytes modes : Nat) (inBuf : List UInt8) :
    List UInt8 :=
  let unrun := if modes &&& cuRLECompressed ≠ 0 then
    rleDecompress deltaBytes (rleMinRepeatsV2 deltaBytes) inBuf else inBuf
  if modes &&& cuDeltaCompressed ≠ 0 then deltaDecompress minVal valueBytes unrun deltaBytes else unrun

/-- A width of integers from numerics. -/
def IntegerWidth (valueBytes : Nat) : Prop := valueBytes = 4 ∨ valueBytes = 8

theorem rleMinRepeatsV2_range {eachValSize : Nat} (wide : 0 < eachValSize)
    (narrow : eachValSize ≤ 8) :
    2 ≤ rleMinRepeatsV2 eachValSize ∧ rleMinRepeatsV2 eachValSize ≤ 128 := by
  have all : ∀ size : Fin 9, 0 < size.val →
      2 ≤ rleMinRepeatsV2 size ∧ rleMinRepeatsV2 size ≤ 128 := by decide
  exact all ⟨eachValSize, by omega⟩ wide

/-- The bits of the steps that were taken. -/
def deltaRleModes (delta rle : Bool) : Nat :=
  (if delta then cuDeltaCompressed else 0) ||| if rle then cuRLECompressed else 0

theorem deltaPlusRleDecompress_modes (delta rle : Bool) (minVal : Int) (deltaBytes valueBytes : Nat)
    (inBuf : List UInt8) :
    deltaPlusRleDecompress minVal deltaBytes valueBytes (deltaRleModes delta rle) inBuf =
      (if delta then deltaDecompress minVal valueBytes (if rle then
          rleDecompress deltaBytes (rleMinRepeatsV2 deltaBytes) inBuf else inBuf) deltaBytes
        else if rle then rleDecompress deltaBytes (rleMinRepeatsV2 deltaBytes) inBuf else inBuf) := by
  cases delta <;> cases rle <;> rfl

/-- What compressing integers gives. -/
structure DeltaPlusRle (valueBytes : Nat) (minMax : Int × Int) (inBuf : List UInt8)
    (out : CompressionArg2) (delta rle : Bool) : Prop where
  modes : out.modes = deltaRleModes delta rle
  fewer : delta = true → deltaGetBytesNum minMax.1 minMax.2 < valueBytes
  shorter : out.buf.length ≤ inBuf.length
  restores : (delta || rle) = true → deltaPlusRleDecompress minMax.1
    (if delta then deltaGetBytesNum minMax.1 minMax.2 else valueBytes) valueBytes
      (deltaRleModes delta rle) out.buf = inBuf

/-- Integers are restored from their distances and runs. -/
theorem deltaPlusRleCompress_spec (adoptRle : Bool) {valueBytes count : Nat} {minMax : Int × Int}
    {inBuf : List UInt8} (width : IntegerWidth valueBytes) (some : 0 < count)
    (whole : inBuf.length = count * valueBytes)
    (bounds : MinMaxOf (intValues valueBytes inBuf) minMax) :
    ∃ delta rle, DeltaPlusRle valueBytes minMax inBuf
      (deltaPlusRleCompress adoptRle valueBytes minMax inBuf) delta rle := by
  have wide : 0 < valueBytes := by rcases width with four | eight <;> omega
  have narrow : valueBytes ≤ 8 := by rcases width with four | eight <;> omega
  have values : inBuf.length / valueBytes = count := by rw [whole, Nat.mul_div_cancel _ wide]
  have bytes := deltaGetBytesNum_spec minMax.1 minMax.2
  rw [deltaPlusRleCompress]
  by_cases fewer : deltaGetBytesNum minMax.1 minMax.2 < valueBytes
  · have least := intValues_range inBuf bounds.least
    have most := intValues_range inBuf bounds.most
    have order := (bounds.between _ bounds.least).2
    have distance := int64Bits_distance narrow least most order
    have near : ∀ bits ∈ readValues valueBytes count inBuf, minMax.1 ≤ signedOf valueBytes bits ∧
          signedOf valueBytes bits - minMax.1 < 256 ^ deltaGetBytesNum minMax.1 minMax.2 := by
      intro bits member
      have between := bounds.between (signedOf valueBytes bits) (by
        rw [intValues, values]
        exact List.mem_map_of_mem member)
      have fits : (int64Bits (minMax.2 - minMax.1) : Int) <
          256 ^ deltaGetBytesNum minMax.1 minMax.2 := by exact_mod_cast bytes.1
      exact ⟨between.1, by omega⟩
    obtain ⟨length, restored⟩ := doDeltaOperation_restores bytes.2.1
      (Nat.le_of_lt fewer) narrow whole near
    have room : ¬rleGetBound2 count (deltaGetBytesNum minMax.1 minMax.2) <
        deltaGetBytesNum minMax.1 minMax.2 * count := by
      rw [rleGetBound2]
      lia
    have compressed : deltaCompress minMax.1 minMax.2 inBuf
        (rleGetBound2 count (deltaGetBytesNum minMax.1 minMax.2)) valueBytes =
        doDeltaOperation false valueBytes (deltaGetBytesNum minMax.1 minMax.2) minMax.1 inBuf := by
      rw [deltaCompress, values, if_neg room, if_neg (by rcases width with four | eight <;> omega)]
    have shorter : (doDeltaOperation false valueBytes (deltaGetBytesNum minMax.1 minMax.2) minMax.1
        inBuf).length ≤ inBuf.length := by
      rw [length, whole]
      exact Nat.mul_le_mul_left count (Nat.le_of_lt fewer)
    have undone : deltaDecompress minMax.1 valueBytes (doDeltaOperation false valueBytes
        (deltaGetBytesNum minMax.1 minMax.2) minMax.1 inBuf) (deltaGetBytesNum minMax.1 minMax.2) =
        inBuf := by
      rw [deltaDecompress, if_neg (by lia)]
      exact restored
    have repeats := rleMinRepeatsV2_range bytes.2.1 (by lia)
    rw [if_pos fewer, values, compressed]
    have plain : DeltaPlusRle valueBytes minMax inBuf
        ⟨doDeltaOperation false valueBytes (deltaGetBytesNum minMax.1 minMax.2) minMax.1 inBuf,
          cuDeltaCompressed⟩ true false := by
      refine ⟨rfl, fun _ => fewer, shorter, fun _ => ?_⟩
      exact undone
    by_cases adopted : adoptRle = true
    · rw [if_pos adopted]
      by_cases saves : 0 < (rleCompress (deltaGetBytesNum minMax.1 minMax.2)
          (rleMinRepeatsV2 (deltaGetBytesNum minMax.1 minMax.2)) (doDeltaOperation false valueBytes
            (deltaGetBytesNum minMax.1 minMax.2) minMax.1 inBuf)).length ∧
          (rleCompress (deltaGetBytesNum minMax.1 minMax.2)
            (rleMinRepeatsV2 (deltaGetBytesNum minMax.1 minMax.2)) (doDeltaOperation false valueBytes
              (deltaGetBytesNum minMax.1 minMax.2) minMax.1 inBuf)).length <
            (doDeltaOperation false valueBytes (deltaGetBytesNum minMax.1 minMax.2) minMax.1
              inBuf).length
      · rw [if_pos saves]
        refine ⟨true, true, rfl, fun _ => fewer, saves.2.le.trans shorter, fun _ => ?_⟩
        rw [deltaPlusRleDecompress_modes, if_pos rfl, if_pos rfl, if_pos rfl,
          rleDecompress_rleCompress _ bytes.2.1 repeats.1 repeats.2 some length]
        exact undone
      · rw [if_neg saves]
        exact ⟨true, false, plain⟩
    · rw [if_neg adopted]
      exact ⟨true, false, plain⟩
  · rw [if_neg fewer]
    have none : DeltaPlusRle valueBytes minMax inBuf ⟨[], 0⟩ false false :=
      ⟨rfl, (fun isDelta => by cases isDelta), Nat.zero_le _, (fun isCoded => by cases isCoded)⟩
    by_cases adopted : adoptRle = true
    · rw [if_pos adopted]
      by_cases saves : 0 < (rleCompress valueBytes (rleMinRepeatsV2 valueBytes) inBuf).length ∧
          (rleCompress valueBytes (rleMinRepeatsV2 valueBytes) inBuf).length < inBuf.length
      · rw [if_pos saves]
        have repeats := rleMinRepeatsV2_range wide narrow
        refine ⟨false, true, rfl, (fun isDelta => by cases isDelta), saves.2.le, fun _ => ?_⟩
        exact rleDecompress_rleCompress _ wide repeats.1 repeats.2 some whole
      · rw [if_neg saves]
        exact ⟨false, false, none⟩
    · rw [if_neg adopted]
      exact ⟨false, false, none⟩

end OpenGauss.CStore
