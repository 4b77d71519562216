import Mathlib.Data.List.TakeWhile
import OpenGauss.RowCompress.CmprHeader

/-!
# Compressing and restoring the values of a column

With the method of its column, a value of a tuple is stored as its distance from the base value, as
the number of a dictionary item, without the shared start or as packed digits. Two forms take no
byte at all: distances of no bytes and a dictionary with one item. A value that does not suit the
method stays as it is. To restore a value, the method and what it remembers are read from the header
of the page, where counts and lengths are single bytes.

A memory is the list of its bytes from a pointer on.
-/

namespace OpenGauss.RowCompress

open List OpenGauss.Base

/-- A byte as a number with a sign (`char`). -/
def signedChar (byte : UInt8) : Int :=
  if byte.toNat < 128 then byte.toNat else byte.toNat - 256

/-- The word of some bytes (`fetch_att`). -/
def fetchAtt (attlen : Int) (memory : List UInt8) : BitVec 64 :=
  BitVec.ofNat 64 (leNat (memory.take attlen.toNat))

/-- The size of a `varlena` (`VARSIZE_ANY`). -/
def varsizeAny (memory : List UInt8) : Nat :=
  if (memory.getD 0 0).toNat % 2 = 1 then (memory.getD 0 0).toNat / 2
  else leNat (memory.take 4) / 4

/-- The `varlena` at a place. -/
def varlenaAt (memory : List UInt8) : Varlena :=
  if (memory.getD 0 0).toNat % 2 = 1 then .short ((memory.drop 1).take (varsizeAny memory - 1))
  else if (memory.getD 0 0).toNat % 4 = 2 then
    .compressed ((memory.drop 4).take (varsizeAny memory - 4))
  else .full ((memory.drop 4).take (varsizeAny memory - 4))

/-- The C string at a place: the bytes before the terminator. -/
def cstringAt (memory : List UInt8) : CString where
  chars := memory.takeWhile (· ≠ 0)
  terminated member := by simpa using mem_takeWhile_imp member

/-- Whether the bytes of a value start like a compressed `varlena` (`VARATT_IS_4B_C`). -/
def varattIs4BC (memory : List UInt8) : Bool := (memory.getD 0 0).toNat % 4 == 2

/-- The base value plus a distance (`int16Plus` and so on). -/
def NumberTypeOpt.plus : NumberTypeOpt → BitVec 64 → Int → BitVec 64
  | .int16, base, diff => (base.setWidth 16 + BitVec.ofInt 16 diff).setWidth 64
  | .int32, base, diff => (base.setWidth 32 + BitVec.ofInt 32 diff).setWidth 64
  | .uint32, base, diff => (base.setWidth 32 + BitVec.ofInt 32 diff).setWidth 64
  | .int64, base, diff => base + BitVec.ofInt 64 diff

/-- The largest distances in some bytes (`g_max_value_in_bytes`). -/
def gMaxValueInBytes : List Int :=
  [0x0000000000000000, 0x00000000000000FF, 0x000000000000FFFF, 0x0000000000FFFFFF,
    0x00000000FFFFFFFF, 0x000000FFFFFFFFFF, 0x0000FFFFFFFFFFFF, 0x00FFFFFFFFFFFFFF]

/-- A distance, high byte first, if it fits (`DeltaCompress`). -/
def deltaCompress (info : DeltaCmprMeta) (opt : NumberTypeOpt) (val : BitVec 64) :
    Option (List UInt8) :=
  let diff := opt.minus val info.minVal
  if diff < 0 ∨ gMaxValueInBytes.getD info.bytes 0 < diff then none
  else some (leBytes info.bytes diff.toNat).reverse

/-- The number at a distance (`DeltaUncompress`). -/
def deltaUncompress (bytes : Nat) (minVal : BitVec 64) (opt : NumberTypeOpt)
    (deltaBuf : List UInt8) : BitVec 64 :=
  opt.plus minVal (leNat (deltaBuf.take bytes).reverse)

/-- The string behind the shared start, if a value has it (`PrefixCompress`). A C string is compared
with its terminator. -/
def prefixCompress (start : List UInt8) (val : Datum) : Option (List UInt8) :=
  match val with
  | .varlena value =>
    if value.data.take start.length ≠ start then none
    else
      let suffix := value.data.drop start.length
      some (if suffix.length + 1 ≤ 0x7F then (Varlena.short suffix).bytes
        else (Varlena.full suffix).bytes)
  | .cstring value =>
    if (value.chars ++ [0]).take start.length ≠ start then none
    else some ((value.chars ++ [0]).drop start.length)
  | _ => none

/-- The string with the shared start, and the size of its compressed form (`PrefixUncompress`). -/
def prefixUncompress (attlen : Int) (start : List UInt8) (memory : List UInt8) : Datum × Nat :=
  if attlen = -1 then
    (.varlena (.full (start ++ (varlenaAt memory).data)), varsizeAny memory)
  else
    (.cstring (cstringAt (start ++ (cstringAt memory).chars ++ [0])),
      (cstringAt memory).chars.length + 1)

/-- Two digits in a byte. -/
def packPair (first second : UInt8) : UInt8 := ((first - 48) ||| ((second - 48) <<< (4 : UInt8))) + 1

/-- Pack digits, two in a byte and the last of an odd number alone; no result for other characters
(the loop of `NumstrCompress`). -/
def packDigits : List UInt8 → Option (List UInt8)
  | [] => some []
  | [last] => if isDigital last then some [(last - 48) ||| 0xF0] else none
  | first :: second :: rest =>
    if isDigital first && isDigital second then
      (packDigits rest).map (packPair first second :: ·)
    else none

/-- A string of packed digits; an empty string is not packed (`NumstrCompress`). -/
def numstrCompress (val : Datum) : Option (List UInt8) :=
  if val.contents.length = 0 then none
  else
    match packDigits val.contents, val with
    | some packed, .varlena _ =>
      some (if packed.length + 1 ≤ 0x7F then (Varlena.short packed).bytes
        else (Varlena.full packed).bytes)
    | some packed, .cstring _ => some (packed ++ [0])
    | _, _ => none

/-- The two digits of a byte. -/
def unpackPair (byte : UInt8) : List UInt8 :=
  [((byte - 1) &&& 0x0F) + 48, (((byte - 1) &&& 0xF0) >>> (4 : UInt8)) + 48]

/-- The digits of packed bytes (the loop of `NumstrUncompress`). -/
def unpackDigits : List UInt8 → List UInt8
  | [] => []
  | [last] => if last &&& 0xF0 = 0xF0 then [(last &&& 0x0F) + 48] else unpackPair last
  | byte :: next :: rest => unpackPair byte ++ unpackDigits (next :: rest)

/-- The string of packed digits, and the size of its compressed form (`NumstrUncompress`). -/
def numstrUncompress (attlen : Int) (memory : List UInt8) : Datum × Nat :=
  if attlen = -1 then
    (.varlena (.full (unpackDigits (varlenaAt memory).data)), varsizeAny memory)
  else
    (.cstring (cstringAt (unpackDigits (cstringAt memory).chars ++ [0])),
      (cstringAt memory).chars.length + 1)

/-- The number of a dictionary item (`GetDictItemId`). -/
def DictCmprMeta.getDictItemId (info : DictCmprMeta) (key : List UInt8) : Option Nat :=
  info.dictItems.findIdx? (· = key)

/-- The value of a dictionary item; no result for a length that no number has (`DictUncompress`). -/
def dictUncompress (dictItems : List (List UInt8)) (id : Nat) (attlen : Int) : Option Datum :=
  if 0 < attlen then
    if attlen = 2 ∨ attlen = 4 ∨ attlen = 8 then
      some (.byVal (fetchAtt attlen (dictItems.getD id [])))
    else none
  else if attlen = -1 then some (.varlena (varlenaAt (dictItems.getD id [])))
  else some (.cstring (cstringAt (dictItems.getD id [])))

/-- The compressed form of a value that is not null; no result if it stays as it is
(`CompressOneAttr`). -/
def compressOneAttr (attr : FormPgAttribute) (method : CmprMethod) (val : Datum) :
    Option (List UInt8) :=
  match method with
  | .cmprDelta info => (numTypeOpt attr.atttypid).bind fun opt => deltaCompress info opt val.word
  | .cmprDict info =>
    (info.getDictItemId (fillHashKey attr.attlen val)).map fun id =>
      if info.dictItems.length = 1 then [] else [UInt8.ofNat id]
  | .cmprPrefix start =>
    if varattIs4BC (fillHashKey attr.attlen val) then none else prefixCompress start val
  | .cmprNumstr => numstrCompress val
  | .cmprNone => none

/-- What is read from the header (`CmprMetaUnion`). -/
inductive FetchedMeta where
  | cmprNone
  | cmprDelta (bytes : Int) (minVal : BitVec 64)
  | cmprDict (dictItemNum : Int) (dictItems : List (List UInt8))
  | cmprPrefix (start : List UInt8)
  | cmprNumstr
  deriving DecidableEq

/-- The size of a dictionary item in the header. -/
def dictItemSize (attlen : Int) (memory : List UInt8) : Nat :=
  if 0 < attlen then attlen.toNat
  else if attlen = -1 then varsizeAny memory
  else (cstringAt memory).chars.length + 1

/-- Read some items one behind the other. -/
def fetchDictItems (attlen : Int) : Nat → List UInt8 → List (List UInt8)
  | 0, _ => []
  | items + 1, memory =>
    memory.take (dictItemSize attlen memory) ::
      fetchDictItems attlen items (memory.drop (dictItemSize attlen memory))

/-- The method of a column, what it remembers and the size of both in the header
(`FetchAttrCmprMeta`). -/
def fetchAttrCmprMeta (metaStart : List UInt8) (attrRawLen : Int) : Option (FetchedMeta × Nat) :=
  if metaStart.getD 0 0 = CmprMode.cmprDelta.byte then
    some (.cmprDelta (signedChar (metaStart.getD 1 0)) (fetchAtt attrRawLen (metaStart.drop 2)),
      2 + attrRawLen.toNat)
  else if metaStart.getD 0 0 = CmprMode.cmprDict.byte then
    let dictItemNum := signedChar (metaStart.getD 1 0)
    let dictItems := fetchDictItems attrRawLen dictItemNum.toNat (metaStart.drop 2)
    some (.cmprDict dictItemNum dictItems, 2 + (dictItems.map List.length).sum)
  else if metaStart.getD 0 0 = CmprMode.cmprPrefix.byte then
    let len := (metaStart.getD 1 0).toNat
    some (.cmprPrefix ((metaStart.drop 2).take len), 2 + len)
  else if metaStart.getD 0 0 = CmprMode.cmprNumstr.byte then some (.cmprNumstr, 1)
  else if metaStart.getD 0 0 = CmprMode.cmprNone.byte then some (.cmprNone, 1)
  else none

/-- The value of a compressed form and the size of this form (`UncompressOneAttr`). -/
def uncompressOneAttr (metaInfo : FetchedMeta) (typeOid : Nat) (attlen : Int)
    (attrStart : List UInt8) : Option (Datum × Nat) :=
  match metaInfo with
  | .cmprDelta bytes minVal =>
    if bytes = 0 then some (.byVal minVal, 0)
    else if typeOid = 0 then some (.byVal 0, bytes.toNat)
    else (numTypeOpt typeOid).map fun opt =>
      (.byVal (deltaUncompress bytes.toNat minVal opt attrStart), bytes.toNat)
  | .cmprDict dictItemNum dictItems =>
    if dictItemNum = 1 then (dictUncompress dictItems 0 attlen).map fun value => (value, 0)
    else (dictUncompress dictItems (attrStart.getD 0 0).toNat attlen).map fun value => (value, 1)
  | .cmprPrefix start => some (prefixUncompress attlen start attrStart)
  | .cmprNumstr => some (numstrUncompress attlen attrStart)
  | .cmprNone => none

section Reading

/-- The sizes that the values of a tuple on a page have. A compressed value was not so large before
that all four bytes of its size are digits. -/
def Varlena.Sized : Varlena → Prop
  | .short payload => payload.length + 1 ≤ 0x7F
  | .full payload => payload.length + 4 ≤ toastTupleThreshold
  | .compressed payload => payload.length + 4 ≤ toastTupleThreshold ∧ 4 ≤ payload.length ∧
      leNat (payload.take 4) < 0x30303030

theorem leNat_header (length tag : Nat) (small : length + 4 < 2 ^ 30) (low : tag < 4)
    (payload rest : List UInt8) :
    leNat ((leBytes 4 (4 * (length + 4) + tag) ++ payload ++ rest).take 4) =
      4 * (length + 4) + tag := by
  rw [append_assoc, take_left' (leBytes_length _ _), leNat_leBytes _ _ (by omega)]

theorem getD_header (length tag : Nat) (low : tag < 4) (payload rest : List UInt8) :
    ((leBytes 4 (4 * (length + 4) + tag) ++ payload ++ rest).getD 0 0).toNat % 4 = tag := by
  simp only [leBytes, cons_append, getD_cons_zero, UInt8.toNat_ofNat']
  omega

/-- A varlena is read from its bytes. -/
theorem varlenaAt_bytes (value : Varlena) (sized : value.Sized) (rest : List UInt8) :
    varlenaAt (value.bytes ++ rest) = value ∧
      varsizeAny (value.bytes ++ rest) = value.bytes.length := by
  cases value with
  | short payload =>
    simp only [Varlena.Sized] at sized
    have first : (((Varlena.short payload).bytes ++ rest).getD 0 0).toNat =
        2 * (payload.length + 1) + 1 := by
      simp only [Varlena.bytes, leBytes, cons_append, getD_cons_zero,
        UInt8.toNat_ofNat']
      lia
    have size : varsizeAny ((Varlena.short payload).bytes ++ rest) = payload.length + 1 := by
      unfold varsizeAny
      lia
    unfold varlenaAt
    rw [size]
    simp [Varlena.bytes, leBytes]
  | full payload =>
    simp only [Varlena.Sized, toastTupleThreshold] at sized
    have first := getD_header payload.length 0 (by omega) payload rest
    have word := leNat_header payload.length 0 (by omega) (by omega) payload rest
    have size : varsizeAny ((Varlena.full payload).bytes ++ rest) = payload.length + 4 := by
      unfold varsizeAny
      rw [Varlena.bytes]
      lia
    unfold varlenaAt
    rw [size, Varlena.bytes, ← Nat.add_zero (4 * (payload.length + 4)), if_neg (by omega),
      if_neg (by omega), append_assoc,
      drop_left' (leBytes_length 4 (4 * (payload.length + 4) + 0)), Nat.add_sub_cancel,
      take_left, length_append, leBytes_length]
    exact ⟨rfl, by omega⟩
  | compressed payload =>
    obtain ⟨fits, _, _⟩ := sized
    unfold toastTupleThreshold at fits
    have first := getD_header payload.length 2 (by omega) payload rest
    have word := leNat_header payload.length 2 (by lia) (by omega) payload rest
    have size : varsizeAny ((Varlena.compressed payload).bytes ++ rest) = payload.length + 4 := by
      unfold varsizeAny
      rw [Varlena.bytes]
      lia
    unfold varlenaAt
    rw [size, Varlena.bytes, if_neg (by omega), if_pos (by omega), append_assoc,
      drop_left' (leBytes_length 4 (4 * (payload.length + 4) + 2)), Nat.add_sub_cancel,
      take_left, length_append, leBytes_length]
    exact ⟨rfl, by omega⟩

theorem cstringAt_chars (value : CString) (rest : List UInt8) :
    cstringAt (value.chars ++ [0] ++ rest) = value := by
  obtain ⟨chars, terminated⟩ := value
  have stops : (chars ++ [0] ++ rest).takeWhile (· ≠ 0) = chars := by
    rw [append_assoc, takeWhile_append_of_pos]
    · simp
    · intro char member
      have apart : char ≠ 0 := fun zero => terminated (zero ▸ member)
      simpa using apart
  unfold cstringAt
  congr 1

theorem fetchAtt_leBytes {attlen : Int} {word : BitVec 64} (rest : List UInt8)
    (fits : word.toNat < 256 ^ attlen.toNat) :
    fetchAtt attlen (leBytes attlen.toNat word.toNat ++ rest) = word := by
  unfold fetchAtt
  rw [take_left' (leBytes_length _ _), leNat_leBytes _ _ fits, BitVec.ofNat_toNat,
    BitVec.setWidth_eq]

end Reading

section Codecs

theorem setWidth_setWidth_of_lt {bits : Nat} {word : BitVec 64} (fits : word.toNat < 2 ^ bits) :
    (word.setWidth bits).setWidth 64 = word := by
  apply BitVec.eq_of_toNat_eq
  rw [BitVec.toNat_setWidth, BitVec.toNat_setWidth, Nat.mod_eq_of_lt fits,
    Nat.mod_eq_of_lt word.isLt]

variable (attlen : Int) {value : Varlena} (payload : List UInt8) (opt : NumberTypeOpt)

/-- A difference is added back. -/
theorem NumberTypeOpt.plus_minus (word base : BitVec 64)
    (fits : word.toNat < 256 ^ opt.width) : opt.plus base (opt.minus word base) = word := by
  cases opt with
  | int16 =>
    have difference : BitVec.ofInt 16 ((word.setWidth 16).toInt - (base.setWidth 16).toInt) =
        word.setWidth 16 - base.setWidth 16 := by
      apply BitVec.eq_of_toInt_eq
      rw [BitVec.toInt_ofInt, BitVec.toInt_sub]
    rw [NumberTypeOpt.plus, NumberTypeOpt.minus, difference, BitVec.add_comm, BitVec.sub_add_cancel]
    exact setWidth_setWidth_of_lt fits
  | int32 =>
    rw [NumberTypeOpt.plus, NumberTypeOpt.minus, BitVec.ofInt_toInt, BitVec.add_comm,
      BitVec.sub_add_cancel]
    exact setWidth_setWidth_of_lt fits
  | uint32 =>
    rw [NumberTypeOpt.plus, NumberTypeOpt.minus, BitVec.ofInt_natCast, BitVec.ofNat_toNat,
      BitVec.setWidth_eq, BitVec.add_comm, BitVec.sub_add_cancel]
    exact setWidth_setWidth_of_lt fits
  | int64 =>
    rw [NumberTypeOpt.plus, NumberTypeOpt.minus, BitVec.ofInt_toInt, BitVec.add_comm,
      BitVec.sub_add_cancel]

theorem gMaxValueInBytes_eq : ∀ bytes < 8,
    gMaxValueInBytes.getD bytes 0 = ((256 ^ bytes - 1 : Nat) : Int) := by
  decide

theorem NumberTypeOpt.minus_self (word : BitVec 64) : opt.minus word word = 0 := by
  cases opt <;> simp [NumberTypeOpt.minus]

/-- A delta is restored. -/
theorem deltaCompress_restores {info : DeltaCmprMeta} {opt : NumberTypeOpt} {val : BitVec 64}
    (narrow : info.bytes < 8) (base : info.minVal.toNat < 256 ^ opt.width)
    (fits : val.toNat < 256 ^ opt.width) {buf : List UInt8}
    (stored : deltaCompress info opt val = some buf) (rest : List UInt8) :
    buf.length = info.bytes ∧ (info.bytes = 0 → info.minVal = val) ∧
      deltaUncompress info.bytes info.minVal opt (buf ++ rest) = val := by
  have back := opt.plus_minus val info.minVal fits
  have still := opt.plus_minus info.minVal info.minVal base
  rw [opt.minus_self] at still
  simp only [deltaCompress, gMaxValueInBytes_eq info.bytes narrow] at stored
  generalize opt.minus val info.minVal = diff at stored back
  split_ifs at stored with outside
  cases stored
  have positive : 0 < 256 ^ info.bytes := Nat.pow_pos (by omega)
  have length : (leBytes info.bytes diff.toNat).reverse.length = info.bytes := by
    rw [length_reverse, leBytes_length]
  refine ⟨length, fun none => ?_, ?_⟩
  · rw [none] at outside
    have zero : diff = 0 := by omega
    rw [zero, still] at back
    exact back
  · have word := leNat_leBytes info.bytes diff.toNat (by omega)
    unfold deltaUncompress
    rw [take_left' length, reverse_reverse, word, Int.toNat_of_nonneg (by omega), back]

/-- The values that a column of a type of variable length has. -/
inductive IsString : Int → Datum → Prop where
  | varlena (value : Varlena) (sized : value.Sized) : IsString (-1) (.varlena value)
  | cstring (value : CString) : IsString (-2) (.cstring value)

/-- The same value, possibly with another header. -/
def Datum.SameValue : Datum → Datum → Prop
  | .varlena left, .varlena right =>
    left.data = right.data ∧ varattIs4BC left.bytes = varattIs4BC right.bytes
  | left, right => left = right

theorem varattIs4BC_bytes :
    (payload.length + 1 ≤ 0x7F → varattIs4BC (Varlena.short payload).bytes = false) ∧
      varattIs4BC (Varlena.full payload).bytes = false := by
  constructor
  · intro short
    simp only [varattIs4BC, Varlena.bytes, leBytes, cons_append, getD_cons_zero,
      UInt8.toNat_ofNat', beq_eq_false_iff_ne]
    omega
  · have first := getD_header payload.length 0 (by omega) payload []
    rw [append_nil] at first
    rw [varattIs4BC, Varlena.bytes, ← Nat.add_zero (4 * (payload.length + 4)), first]
    rfl

theorem varlenaAt_packed (payload rest : List UInt8) (fits : payload.length + 4 ≤ toastTupleThreshold) :
    (varlenaAt ((if payload.length + 1 ≤ 0x7F then (Varlena.short payload).bytes
        else (Varlena.full payload).bytes) ++ rest)).data = payload ∧
      varsizeAny ((if payload.length + 1 ≤ 0x7F then (Varlena.short payload).bytes
        else (Varlena.full payload).bytes) ++ rest) =
        (if payload.length + 1 ≤ 0x7F then (Varlena.short payload).bytes
          else (Varlena.full payload).bytes).length := by
  split_ifs with short
  · obtain ⟨read, size⟩ := varlenaAt_bytes (.short payload) short rest
    rw [read, size]
    exact ⟨rfl, rfl⟩
  · obtain ⟨read, size⟩ := varlenaAt_bytes (.full payload) fits rest
    rw [read, size]
    exact ⟨rfl, rfl⟩

theorem Varlena.Sized.data_le (sized : value.Sized) :
    value.data.length + 4 ≤ toastTupleThreshold := by
  cases value with
  | short payload =>
    simp only [Varlena.Sized] at sized
    simp only [Varlena.data, toastTupleThreshold]
    omega
  | full payload => exact sized
  | compressed payload => exact sized.1

/-- A string without its prefix is restored. -/
theorem prefixCompress_restores {start : List UInt8} {val : Datum}
    (string : IsString attlen val) (plain : varattIs4BC (fillHashKey attlen val) = false)
    (chars : attlen = -2 → 0 ∉ start) {buf : List UInt8}
    (stored : prefixCompress start val = some buf) (rest : List UInt8) :
    (prefixUncompress attlen start (buf ++ rest)).2 = buf.length ∧
      (prefixUncompress attlen start (buf ++ rest)).1.SameValue val := by
  cases string with
  | varlena value sized =>
    simp only [prefixCompress] at stored
    by_cases apart : value.data.take start.length = start
    · rw [if_neg (not_not.mpr apart)] at stored
      cases stored
      have shares : start ++ value.data.drop start.length = value.data := by
        nth_rewrite 1 [← apart]
        exact take_append_drop _ _
      have long := sized.data_le
      obtain ⟨read, size⟩ := varlenaAt_packed (value.data.drop start.length) rest
        (by rw [length_drop]; omega)
      unfold prefixUncompress
      rw [read, size, shares]
      exact ⟨rfl, rfl, by rw [(varattIs4BC_bytes value.data).2]; exact plain.symm⟩
    · rw [if_pos apart] at stored
      cases stored
  | cstring value =>
    simp only [prefixCompress] at stored
    by_cases apart : (value.chars ++ [0]).take start.length = start
    · rw [if_neg (not_not.mpr apart)] at stored
      cases stored
      have within : start.length ≤ value.chars.length := by
        by_contra long
        apply chars rfl
        rw [← apart, take_of_length_le (by
          rw [length_append, length_singleton]
          omega)]
        simp
      rw [take_append_of_le_length within] at apart
      have shares : start ++ value.chars.drop start.length = value.chars := by
        nth_rewrite 1 [← apart]
        exact take_append_drop _ _
      have absent : 0 ∉ value.chars.drop start.length :=
        fun member => value.terminated (mem_of_mem_drop member)
      have read := cstringAt_chars ⟨value.chars.drop start.length, absent⟩ rest
      have whole := cstringAt_chars value []
      rw [append_nil] at whole
      rw [drop_append_of_le_length within]
      unfold prefixUncompress
      rw [read, shares, whole, length_append]
      exact ⟨rfl, rfl⟩
    · rw [if_pos apart] at stored
      cases stored

theorem unpackPair_packPair : ∀ first < 10, ∀ second < 10,
    unpackPair (packPair (UInt8.ofNat (48 + first)) (UInt8.ofNat (48 + second))) =
        [UInt8.ofNat (48 + first), UInt8.ofNat (48 + second)] ∧
      packPair (UInt8.ofNat (48 + first)) (UInt8.ofNat (48 + second)) ≠ 0 ∧
      packPair (UInt8.ofNat (48 + first)) (UInt8.ofNat (48 + second)) &&& 0xF0 ≠ 0xF0 := by
  decide

theorem unpackLast : ∀ last < 10, ((UInt8.ofNat (48 + last) - 48) ||| 0xF0) &&& 0xF0 = 0xF0 ∧
      (((UInt8.ofNat (48 + last) - 48) ||| 0xF0) &&& 0x0F) + 48 = UInt8.ofNat (48 + last) ∧
      (UInt8.ofNat (48 + last) - 48) ||| 0xF0 ≠ 0 := by
  decide

theorem isDigital_ofNat {char : UInt8} (digit : isDigital char = true) :
    ∃ value < 10, char = UInt8.ofNat (48 + value) := by
  unfold isDigital at digit
  rw [Bool.and_eq_true, decide_eq_true_eq, decide_eq_true_eq] at digit
  have low : 48 ≤ char.toNat := digit.1
  have high : char.toNat ≤ 57 := digit.2
  refine ⟨char.toNat - 48, by omega, ?_⟩
  rw [show 48 + (char.toNat - 48) = char.toNat by omega, UInt8.ofNat_toNat]

/-- Packed digits are unpacked. -/
theorem packDigits_restores : ∀ (digits packed : List UInt8), packDigits digits = some packed →
    unpackDigits packed = digits ∧ 0 ∉ packed ∧ packed.length ≤ digits.length
  | [], packed, done => by
    cases done
    simp [unpackDigits]
  | [last], packed, done => by
    rw [packDigits] at done
    split_ifs at done with digit
    cases done
    obtain ⟨value, small, rfl⟩ := isDigital_ofNat digit
    obtain ⟨marked, restored, present⟩ := unpackLast value small
    rw [unpackDigits, if_pos marked, restored]
    simpa using present.symm
  | first :: second :: rest, packed, done => by
    rw [packDigits] at done
    split_ifs at done with both
    obtain ⟨tail, packs, rfl⟩ := Option.map_eq_some_iff.mp done
    rw [Bool.and_eq_true] at both
    obtain ⟨left, leftSmall, rfl⟩ := isDigital_ofNat both.1
    obtain ⟨right, rightSmall, rfl⟩ := isDigital_ofNat both.2
    obtain ⟨restored, present, unmarked⟩ := unpackPair_packPair left leftSmall right rightSmall
    obtain ⟨restores, absent, shorter⟩ := packDigits_restores rest tail packs
    refine ⟨?_, not_mem_cons_of_ne_of_not_mem present.symm absent, by
      simp only [length_cons]
      omega⟩
    cases tail with
    | nil =>
      rw [unpackDigits, if_neg unmarked, restored, ← restores]
      rfl
    | cons next tail =>
      rw [unpackDigits, restores, restored]
      rfl

/-- Only digits are packed. -/
theorem packDigits_digits : ∀ (digits packed : List UInt8), packDigits digits = some packed →
    ∀ char ∈ digits, isDigital char = true
  | [], _, _, _, member => absurd member not_mem_nil
  | [last], packed, done, char, member => by
    rw [packDigits] at done
    split_ifs at done with digit
    rwa [mem_singleton.mp member]
  | first :: second :: rest, packed, done, char, member => by
    rw [packDigits] at done
    split_ifs at done with both
    obtain ⟨tail, packs, _⟩ := Option.map_eq_some_iff.mp done
    rw [Bool.and_eq_true] at both
    rcases mem_cons.mp member with rfl | later
    · exact both.1
    · rcases mem_cons.mp later with rfl | last
      · exact both.2
      · exact packDigits_digits rest tail packs char last

/-- Four digits are a large number. -/
theorem leNat_digits (long : 4 ≤ payload.length)
    (digits : ∀ char ∈ payload, isDigital char = true) : 0x30303030 ≤ leNat (payload.take 4) := by
  match payload with
  | first :: second :: third :: fourth :: rest =>
    have each : ∀ char ∈ first :: second :: third :: fourth :: rest, 48 ≤ char.toNat := by
      intro char member
      obtain ⟨value, small, rfl⟩ := isDigital_ofNat (digits char member)
      rw [UInt8.toNat_ofNat']
      omega
    have one := each first (by simp)
    have two := each second (by simp)
    have three := each third (by simp)
    have four := each fourth (by simp)
    simp only [take_succ_cons, leNat]
    lia

theorem Varlena.Sized.plain (sized : value.Sized) (packed : List UInt8)
    (packs : packDigits value.data = some packed) : varattIs4BC value.bytes = false := by
  cases value with
  | short payload => exact (varattIs4BC_bytes payload).1 sized
  | full payload => exact (varattIs4BC_bytes payload).2
  | compressed payload =>
    have large := leNat_digits payload sized.2.1 (packDigits_digits payload packed packs)
    have small := sized.2.2
    omega

/-- A string of digits is restored. -/
theorem numstrCompress_restores {val : Datum} (string : IsString attlen val)
    {buf : List UInt8} (stored : numstrCompress val = some buf) (rest : List UInt8) :
    (numstrUncompress attlen (buf ++ rest)).2 = buf.length ∧
      (numstrUncompress attlen (buf ++ rest)).1.SameValue val := by
  unfold numstrCompress at stored
  split_ifs at stored with empty
  cases string with
  | varlena value sized =>
    cases packs : packDigits value.data with
    | none =>
      rw [show (Datum.varlena value).contents = value.data from rfl, packs] at stored
      cases stored
    | some packed =>
      rw [show (Datum.varlena value).contents = value.data from rfl, packs] at stored
      cases stored
      obtain ⟨restores, _, shorter⟩ := packDigits_restores value.data packed packs
      have long := sized.data_le
      obtain ⟨read, size⟩ := varlenaAt_packed packed rest (by omega)
      unfold numstrUncompress
      rw [read, size, restores]
      exact ⟨rfl, rfl, by
        rw [(varattIs4BC_bytes value.data).2]
        exact (sized.plain packed packs).symm⟩
  | cstring value =>
    cases packs : packDigits value.chars with
    | none =>
      rw [show (Datum.cstring value).contents = value.chars from rfl, packs] at stored
      cases stored
    | some packed =>
      rw [show (Datum.cstring value).contents = value.chars from rfl, packs] at stored
      cases stored
      obtain ⟨restores, absent, _⟩ := packDigits_restores value.chars packed packs
      have read := cstringAt_chars ⟨packed, absent⟩ rest
      have whole := cstringAt_chars value []
      rw [append_nil] at whole
      unfold numstrUncompress
      rw [read, restores, whole, length_append]
      exact ⟨rfl, rfl⟩

end Codecs

end OpenGauss.RowCompress
