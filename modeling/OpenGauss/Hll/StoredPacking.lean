import OpenGauss.Hll.StoredUnion

/-!
# Packed objects

An object is packed as three letters, a number with seven fields, the estimate, the last hash and its
bytes in use. Reading that gives the object again, if every field fits its bits. The fields of every
object that represents one of lists do.
-/
namespace OpenGauss.Hll.Stored

open Option List OpenGauss.Base

theorem packField_eq (info bits value : Nat) (fits : value < 2 ^ bits)
    (small : info * 2 ^ bits + value < 2 ^ 64) :
    packField info bits value = info * 2 ^ bits + value := by
  rw [packField, ← Nat.shiftLeft_add_eq_or_of_lt fits, Nat.shiftLeft_eq, Nat.mod_eq_of_lt small]

/-- Every field of an object fits its bits. -/
structure FitsHeader (object : HllObjectData) : Prop where
  registers : 10 ≤ object.hllpara.log2Registers ∧ object.hllpara.log2Registers < 26
  explicitsize : object.hllpara.log2Explicitsize < 16
  sparsesize : object.hllpara.log2Sparsesize < 16
  duplicateCheck : object.hllpara.duplicateCheck < 16
  lenTotal : object.lenTotal < 131072
  lenUsed : object.lenUsed < 131072
  lastHash : object.lastHash < 2 ^ 64

theorem hlltype_code (hlltype : HllType) :
    hlltype.code < 16 ∧ HllType.ofCode hlltype.code = some hlltype := by
  cases hlltype with
  | uninit | empty | explicit | sparse | full => exact ⟨by decide, rfl⟩

variable (object : HllObjectData)

/-- The fields of a header as one number. -/
theorem compressInfo_eq (fits : FitsHeader object) :
    compressInfo object = object.lenUsed + 131072 * (object.lenTotal +
      131072 * (object.hllpara.duplicateCheck + 16 * (object.hllpara.log2Sparsesize +
        16 * (object.hllpara.log2Explicitsize + 16 * (object.hllpara.log2Registers - 10 +
          16 * object.hlltype.code))))) := by
  obtain ⟨registers, explicitsize, sparsesize, duplicate, total, used, -⟩ := fits
  have code := (hlltype_code object.hlltype).1
  rw [compressInfo]
  rw [packField_eq object.hlltype.code 4 _ (by omega) (by omega),
    packField_eq _ 4 object.hllpara.log2Explicitsize (by omega) (by omega),
    packField_eq _ 4 object.hllpara.log2Sparsesize (by omega) (by lia),
    packField_eq _ 4 object.hllpara.duplicateCheck (by omega) (by lia),
    packField_eq _ 17 object.lenTotal (by omega) (by lia),
    packField_eq _ 17 object.lenUsed (by omega) (by lia)]
  ring

/-- The fields are read back. -/
theorem compressInfo_fields (fits : FitsHeader object) :
    packedUsed (compressInfo object) = object.lenUsed ∧
      packedTotal (compressInfo object) = object.lenTotal ∧
      packedPara (compressInfo object) = object.hllpara ∧
      packedType (compressInfo object) = some object.hlltype ∧ compressInfo object < 256 ^ 8 := by
  obtain ⟨code, found⟩ := hlltype_code object.hlltype
  have info := compressInfo_eq object fits
  obtain ⟨registers, explicitsize, sparsesize, duplicate, total, used, -⟩ := fits
  generalize compressInfo object = number at info
  have usedField : number % 131072 = object.lenUsed := by lia
  have totalField : number / 131072 % 131072 = object.lenTotal := by lia
  have duplicateField : number / 17179869184 % 16 = object.hllpara.duplicateCheck := by omega
  have sparseField : number / 274877906944 % 16 = object.hllpara.log2Sparsesize := by omega
  have explicitField : number / 4398046511104 % 16 = object.hllpara.log2Explicitsize := by omega
  have registersField : number / 70368744177664 % 16 + 10 = object.hllpara.log2Registers := by omega
  have typeField : number / 1125899906842624 % 16 = object.hlltype.code := by lia
  refine ⟨usedField, totalField, ?_, ?_, ?_⟩
  · show (⟨number / 70368744177664 % 16 + 10, number / 4398046511104 % 16,
      number / 274877906944 % 16, number / 17179869184 % 16⟩ : HllParaBytes) = object.hllpara
    rw [registersField, explicitField, sparseField, duplicateField]
  · show HllType.ofCode (number / 1125899906842624 % 16) = some object.hlltype
    rw [typeField, found]
  · lia

/-- The bytes in front of the data. -/
def packedHead (object : HllObjectData) : List UInt8 :=
  hllFlag ++ leBytes 8 (compressInfo object) ++ leBytes 8 object.ndvEstimator.toNat ++
    leBytes 8 object.lastHash

theorem packedHead_length : (packedHead object).length = 27 := by
  rfl

theorem writeBytes_behind (memory front patch : List UInt8) (place : Nat)
    (here : front.length = place) (room : front.length + patch.length ≤ memory.length) :
    writeBytes (overwrite memory 0 front) place patch = .ok (overwrite memory 0 (front ++ patch)) := by
  have length := overwrite_length memory 0 front (by lia)
  have joined := overwrite_overwrite memory 0 front patch (by lia)
  rw [Nat.zero_add] at joined
  rw [writeBytes, length, ← here, if_pos room, joined]

/-- The image is the header, the bytes and zeros. -/
theorem hllObjectPack_eq {bytes : List UInt8} (backed : Backed object bytes)
    (started : object.hlltype ≠ .uninit) (hllsize : Nat) (room : 27 + bytes.length < hllsize) :
    hllObjectPack object hllsize =
      .ok (packedHead object ++ bytes ++ List.replicate (hllsize - 27 - bytes.length) 0) := by
  have used := backed.used
  have reserved := backed.used_le
  have zeros : (List.replicate hllsize (0 : UInt8)).length = hllsize := length_replicate
  have head := packedHead_length object
  have flag : hllFlag.length = 3 := rfl
  have first : writeBytes (List.replicate hllsize 0) 0 hllFlag =
      .ok (overwrite (List.replicate hllsize 0) 0 hllFlag) := by
    rw [writeBytes, if_pos (by lia)]
  have second := writeBytes_behind (List.replicate hllsize 0) hllFlag
    (leBytes 8 (compressInfo object)) 3 rfl (by rw [leBytes_length]; lia)
  have third := writeBytes_behind (List.replicate hllsize 0)
    (hllFlag ++ leBytes 8 (compressInfo object)) (leBytes 8 object.ndvEstimator.toNat) 11
    (by rw [length_append]; rfl)
    (by rw [length_append, leBytes_length, leBytes_length]; lia)
  have fourth := writeBytes_behind (List.replicate hllsize 0)
    (hllFlag ++ leBytes 8 (compressInfo object) ++ leBytes 8 object.ndvEstimator.toNat)
    (leBytes 8 object.lastHash) 19
    (by rw [length_append]; rfl) (by
      rw [length_append, length_append, leBytes_length, leBytes_length, leBytes_length]
      lia)
  rw [← packedHead] at fourth
  have whole (patch : List UInt8) : overwrite (List.replicate hllsize 0) 0 patch =
        patch ++ List.replicate (hllsize - patch.length) 0 := by
    rw [overwrite, take_zero, nil_append, Nat.zero_add, drop_replicate]
  rw [hllObjectPack, hllHeadSize, if_neg (by lia), if_neg started, first, ok_bind, second, ok_bind,
    third, ok_bind, fourth, ok_bind]
  by_cases some : 0 < object.lenUsed
  · obtain ⟨spare, data, total⟩ := backed.memory (by omega)
    have read : memcpySource object.hllData 0 object.lenUsed = .ok bytes := by
      rw [data, used, memcpySource, readBytes, if_pos (by rw [length_append]; lia), slice,
        drop_zero, take_left]
    have write := writeBytes_behind (List.replicate hllsize 0) (packedHead object) bytes 27 head
      (by rw [zeros]; lia)
    rw [if_pos some, read, ok_bind, write, whole, length_append]
    congr 3
    omega
  · have nothing : bytes = [] := length_eq_zero_iff.mp (by omega)
    rw [if_neg some, whole, head, nothing]
    rfl

theorem slice_middle {front middle : List UInt8} (back : List UInt8) {place count : Nat}
    (here : front.length = place) (many : middle.length = count) :
    slice (front ++ middle ++ back) place count = middle := by
  rw [slice, ← here, ← many, append_assoc, drop_left, take_left]

/-- An object that was packed is read as it was, but reserved bytes are zeros, and no bytes in use
are no memory. -/
theorem hllObjectUnpack_packed (object fresh : HllObjectData) {bytes : List UInt8}
    (backed : Backed object bytes) (fits : FitsHeader object) (padding : Nat)
    (padded : 0 < padding) :
    hllObjectUnpack fresh (packedHead object ++ bytes ++ List.replicate padding 0) =
      .ok { object with
        hllData :=
          if 0 < bytes.length then
            some (bytes ++ List.replicate (object.lenTotal - bytes.length) 0)
          else fresh.hllData } := by
  have used := backed.used
  have reserved := backed.used_le
  have head := packedHead_length object
  obtain ⟨usedField, totalField, paraField, typeField, small⟩ := compressInfo_fields object fits
  generalize whole : packedHead object ++ bytes ++ List.replicate padding 0 = image
  have length : image.length = 27 + bytes.length + padding := by
    rw [← whole, length_append, length_append, head, length_replicate]
  have rest : image = hllFlag ++ leBytes 8 (compressInfo object) ++
      (leBytes 8 object.ndvEstimator.toNat ++ leBytes 8 object.lastHash ++ bytes ++
        List.replicate padding 0) := by
    rw [← whole, packedHead]
    simp only [append_assoc]
  have flag : slice image 0 3 = hllFlag := by
    rw [rest, slice, drop_zero]
    rfl
  have info : slice image 3 8 = leBytes 8 (compressInfo object) := by
    rw [rest]
    exact slice_middle _ rfl (leBytes_length 8 _)
  have ndv : slice image 11 8 = leBytes 8 object.ndvEstimator.toNat := by
    have split : image = hllFlag ++ leBytes 8 (compressInfo object) ++
        leBytes 8 object.ndvEstimator.toNat ++
          (leBytes 8 object.lastHash ++ bytes ++ List.replicate padding 0) := by
      rw [rest]
      simp only [append_assoc]
    rw [split]
    exact slice_middle _ (by rw [length_append]; rfl) (leBytes_length 8 _)
  have last : slice image 19 8 = leBytes 8 object.lastHash := by
    have split : image = hllFlag ++ leBytes 8 (compressInfo object) ++
        leBytes 8 object.ndvEstimator.toNat ++ leBytes 8 object.lastHash ++
          (bytes ++ List.replicate padding 0) := by
      rw [rest]
      simp only [append_assoc]
    rw [split]
    exact slice_middle _ (by rw [length_append]; rfl)
      (leBytes_length 8 _)
  have data : slice image 27 bytes.length = bytes := by
    rw [← whole]
    exact slice_middle _ head rfl
  have number := leNat_leBytes 8 (compressInfo object) small
  have estimate : leNat (leBytes 8 object.ndvEstimator.toNat) = object.ndvEstimator.toNat :=
    leNat_leBytes 8 _ object.ndvEstimator.toNat_lt
  have hashval : leNat (leBytes 8 object.lastHash) = object.lastHash :=
    leNat_leBytes 8 _ fits.lastHash
  rw [hllObjectUnpack, hllHeadSize, if_neg (by lia), if_neg (not_not.mpr flag)]
  simp only [info, number, typeField]
  rw [usedField, totalField, paraField, if_neg (by lia), used, data, ndv, last, estimate, hashval,
    UInt64.ofNat_toNat, unpackData]
  by_cases some : 0 < bytes.length
  · have write : writeBytes (List.replicate object.lenTotal 0) 0 bytes =
        .ok (bytes ++ List.replicate (object.lenTotal - bytes.length) 0) := by
      rw [writeBytes, length_replicate, if_pos (by lia), overwrite, take_zero,
        nil_append, Nat.zero_add, drop_replicate]
    rw [if_pos some, if_pos some, write]
    rfl
  · rw [if_neg some, if_neg some]
    rfl

theorem Represents.fitsHeader {stored : HllObjectData} {object : HllObject}
    (represents : Represents 4096 stored object) (bytes : List UInt8) (backed : Backed stored bytes) :
    FitsHeader stored := by
  obtain ⟨low, high, explicitMost, sparseMost, duplicate⟩ :=
    hllCheckPararange_range represents.valid
  have reserved := represents.reserved
  have used := backed.used
  have room := backed.used_le
  rw [capacity] at reserved
  exact ⟨⟨low, by omega⟩, by omega, by omega, by omega, by omega, by omega, represents.word⟩

theorem Represents.backed {most : Nat} {stored : HllObjectData} {object : HllObject}
    (represents : Represents most stored object) : ∃ bytes, Backed stored bytes := by
  have holds := represents.holds
  obtain ⟨para, lastHash, data⟩ := object
  cases data with
  | uninit | empty => exact ⟨[], holds.2.backed⟩
  | explicit hashes => exact ⟨_, holds.2⟩
  | sparse values | full values => exact ⟨_, holds.2.choose_spec.1⟩

/-- An object is as another one, but for bytes that are reserved and not in use. -/
structure SameObject (object other : HllObjectData) : Prop where
  fields : other = { object with hllData := other.hllData }
  pointer : other.hllData.isSome = object.hllData.isSome
  length : (other.hllData.getD []).length = (object.hllData.getD []).length
  used : (other.hllData.getD []).take object.lenUsed = (object.hllData.getD []).take object.lenUsed

/-- An image is unpacked to the same object. -/
theorem unpack_pack {object fresh : HllObjectData} {bytes : List UInt8}
    (backed : Backed object bytes) (fits : FitsHeader object) (vacant : fresh.hllData = none)
    (tidy : object.lenUsed = 0 → object.hllData = none) (started : object.hlltype ≠ .uninit)
    {hllsize : Nat} (room : 27 + object.lenUsed < hllsize) :
    ∃ image object', hllObjectPack object hllsize = .ok image ∧
      hllObjectUnpack fresh image = .ok object' ∧ SameObject object object' := by
  have used := backed.used
  have reserved := backed.used_le
  have packed := hllObjectPack_eq object backed started hllsize (by omega)
  have unpacked := hllObjectUnpack_packed object fresh backed fits
    (hllsize - 27 - bytes.length) (by omega)
  refine ⟨_, _, packed, unpacked, rfl, ?_, ?_, ?_⟩
  · by_cases some : 0 < bytes.length
    · obtain ⟨spare, data, -⟩ := backed.memory (by omega)
      dsimp only
      rw [if_pos some, data]
      rfl
    · rw [if_neg some, vacant, tidy (by omega)]
  · by_cases some : 0 < bytes.length
    · obtain ⟨spare, data, total⟩ := backed.memory (by omega)
      rw [if_pos some, data, getD_some, getD_some, length_append,
        length_append, length_replicate]
      lia
    · rw [if_neg some, vacant, tidy (by omega)]
  · by_cases some : 0 < bytes.length
    · obtain ⟨spare, data, -⟩ := backed.memory (by omega)
      rw [if_pos some, data, getD_some, getD_some, used, take_left, take_left]
    · rw [if_neg some, vacant, tidy (by omega)]

theorem SameObject.backed {object other : HllObjectData} (same : SameObject object other)
    {bytes : List UInt8} (backed : Backed object bytes) : Backed other bytes := by
  obtain ⟨spare, front⟩ := backed.front
  have used := backed.used
  have taken := same.used
  rw [front, used, take_left] at taken
  have fields := same.fields
  refine ⟨?_, ?_, (other.hllData.getD []).drop bytes.length, ?_⟩
  · rw [fields]
    exact used
  · rw [same.length, ← backed.total, fields]
  · conv_lhs => rw [← take_append_drop bytes.length (other.hllData.getD []), taken]

/-- The same object represents the same. -/
theorem SameObject.represents {stored other : HllObjectData} (same : SameObject stored other)
    {most : Nat} {object : HllObject} (represents : Represents most stored object) :
    Represents most other object := by
  have fields := same.fields
  have pointer := same.pointer
  have kept (bytes : List UInt8) (backed : Backed stored bytes) : Backed other bytes :=
    same.backed backed
  have holds := represents.holds
  have hlltype : other.hlltype = stored.hlltype := by rw [fields]
  have vacant (nothing : Vacant stored) : Vacant other := by
    refine ⟨?_, ?_, ?_⟩
    · rw [fields]
      exact nothing.lenTotal
    · rw [fields]
      exact nothing.lenUsed
    · rw [nothing.hllData] at pointer
      exact Option.isSome_eq_false_iff.mp pointer |> Option.isNone_iff_eq_none.mp
  refine ⟨?_, ?_, ?_, ?_, ?_, represents.sound, ?_⟩
  · rw [fields]
    exact represents.para
  · rw [fields]
    exact represents.valid
  · rw [fields]
    exact represents.lastHash
  · rw [fields]
    exact represents.word
  · obtain ⟨para, lastHash, data⟩ := object
    cases data with
    | uninit | empty => exact ⟨hlltype.trans holds.1, vacant holds.2⟩
    | explicit hashes => exact ⟨hlltype.trans holds.1, kept _ holds.2⟩
    | sparse values | full values =>
      obtain ⟨kind, bytes, backed, values_eq⟩ := holds
      exact ⟨hlltype.trans kind, bytes, kept _ backed, values_eq⟩
  · rw [fields]
    exact represents.reserved

end OpenGauss.Hll.Stored
