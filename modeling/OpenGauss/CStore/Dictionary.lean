import OpenGauss.CStore.RunLength
import Mathlib.Algebra.Order.BigOperators.Group.List
import Mathlib.Data.Nat.Cast.Basic

/-!
# Dictionaries of values

`DicCoder` of `compress_kits.cpp` numbers the different values of a column in the order they appear.
A value is found again through slots that its hash chooses, one slot after the other. The dictionary
on disk is a header with its size and the number of its values, and the values one after the other:
where a value starts is found by walking over the sizes the values have in their own headers.
-/
namespace OpenGauss.CStore

open List OpenGauss.Base

/-- The size of a pointer to a value that is stored elsewhere, by its tag (`VARTAG_SIZE`). -/
def vartagSize (tag : Nat) : Nat :=
  match tag % 128 with
  | 1 => 8
  | 8 => 18
  | 18 => 16
  | 28 => 16
  | _ => 1

/-- The size of a value with its header (`VARSIZE_ANY`). -/
def varsizeAny (datum : List UInt8) : Nat :=
  let header := (datum.headD 0).toNat
  if header = 0x01 then 2 + vartagSize ((datum.drop 1).headD 0).toNat
  else if header % 2 = 1 then header / 2 % 128
  else leNat (datum.take 4) / 4 % 0x40000000

/-- Bytes that are a value with its header. -/
def IsVarlena (datum : List UInt8) : Prop :=
  varsizeAny datum = datum.length ∧ (if (datum.headD 0).toNat % 2 = 1 then 1 else 4) ≤ datum.length

/-- A dictionary in memory (`DictDataInMemory`). -/
structure DicData where
  itemsMaxSize : Nat
  maxItemCount : Nat
  curItemCount : Nat
  data : List UInt8
  itemOffset : List Nat
  slots : List Nat

/-- A slot without a value. -/
def freeHashSlot : Nat := 0xFFFF

/-- The values or bytes that a dictionary may have at most, from those of the column. -/
def dictGetMaxNumber (number : Nat) : Nat := number / 4 + 1

/-- A dictionary without values. -/
def initDictData (itemsMaxSize itemsMaxCount : Nat) : DicData where
  itemsMaxSize := itemsMaxSize
  maxItemCount := itemsMaxCount % 2 ^ 16
  curItemCount := 0
  data := []
  itemOffset := [0]
  slots := List.replicate (itemsMaxCount % 2 ^ 16 * 2) freeHashSlot

/-- Whether there is room for one more value. -/
def DicData.isEnoughToAppend (dict : DicData) (appendSize : Nat) : Bool :=
  decide (dict.data.length + appendSize ≤ dict.itemsMaxSize) &&
    decide (dict.curItemCount < dict.maxItemCount)

/-- The bytes from the start of a value on. -/
def DicData.item (dict : DicData) (index : Nat) : List UInt8 :=
  dict.data.drop (dict.itemOffset.getD index 0)

/-- Add a value, and its number to a slot. -/
def DicData.append (dict : DicData) (slotIndex : Nat) (datum : List UInt8) : DicData :=
  { dict with
    curItemCount := dict.curItemCount + 1
    data := dict.data ++ datum
    itemOffset := dict.itemOffset ++ [dict.itemOffset.getD dict.curItemCount 0 + datum.length]
    slots := dict.slots.set slotIndex dict.curItemCount }

/-- Look for a value from a slot on, and add it in the first free one; no result without room. -/
def encodeLoop (dict : DicData) (datum : List UInt8) : Nat → Nat → Option (Nat × DicData)
  | 0, _ => none
  | rounds + 1, slotIndex =>
    let dictItemIdx := dict.slots.getD slotIndex freeHashSlot
    if dictItemIdx = freeHashSlot then
      if dict.isEnoughToAppend datum.length then
        some (dict.curItemCount, dict.append slotIndex datum)
      else none
    else if varsizeAny (dict.item dictItemIdx) = datum.length ∧
        (dict.item dictItemIdx).take datum.length = datum then
      some (dictItemIdx, dict)
    else encodeLoop dict datum rounds ((slotIndex + 1) % (dict.maxItemCount * 2))

/-- The number of a value, which is added if it is not there. -/
def encodeOneValue (hashAny : List UInt8 → Nat) (dict : DicData) (datum : List UInt8) :
    Option (Nat × DicData) :=
  let slotCount := dict.maxItemCount * 2
  encodeLoop dict datum slotCount (hashAny datum % slotCount)

/-- The numbers of the values of a buffer; no result if one has no room. -/
def dicCompressLoop (hashAny : List UInt8 → Nat) : Nat → DicData → List UInt8 →
    Option (List Nat × DicData)
  | 0, _, _ => none
  | rounds + 1, dict, inBuf =>
    if inBuf = [] then some ([], dict)
    else
      match encodeOneValue hashAny dict (inBuf.take (varsizeAny inBuf)) with
      | none => none
      | some (code, next) =>
        (dicCompressLoop hashAny rounds next (inBuf.drop (varsizeAny inBuf))).map fun found =>
          (code :: found.1, found.2)

/-- The numbers of the values and the dictionary; no result if the dictionary is not shorter. -/
def dicCompress (hashAny : List UInt8 → Nat) (inBuf : List UInt8) (numVals : Nat) :
    Option (List Nat × DicData) :=
  let dict := initDictData (dictGetMaxNumber inBuf.length) (dictGetMaxNumber numVals)
  (dicCompressLoop hashAny (inBuf.length + 1) dict inBuf).filter fun found =>
    decide (found.2.data.length + 8 < inBuf.length)

/-- The size of a dictionary with its header. -/
def DicData.totalSize (dict : DicData) : Nat := 8 + dict.data.length

/-- A dictionary as it is on disk. -/
def DicData.onDisk (dict : DicData) : List UInt8 :=
  leBytes 4 dict.totalSize ++ leBytes 4 dict.curItemCount ++ dict.data

/-- Where the values of a dictionary start, by their sizes. -/
def itemOffsets (data : List UInt8) (dictDataSize : Nat) : Nat → Nat → List Nat
  | 0, offset => [offset]
  | rounds + 1, offset =>
    if offset < dictDataSize then
      offset :: itemOffsets data dictDataSize rounds (offset + varsizeAny (data.drop offset))
    else [offset]

/-- Restore values from their numbers. The number of values has 16 bits. -/
def dicDecompress (dictInDisk : List UInt8) (codes : List Nat) : List UInt8 :=
  let dictDataSize := leNat (dictInDisk.take 4) - 8
  let data := dictInDisk.drop 8
  let offsets := itemOffsets data dictDataSize dictDataSize 0
  let itemCount := codes.length % 2 ^ 16
  (codes.take itemCount).flatMap fun code =>
    let pItem := data.drop (offsets.getD code 0)
    pItem.take (varsizeAny pItem)

theorem varsizeAny_cons (first : UInt8) (others : List UInt8) : varsizeAny (first :: others) =
      if first.toNat = 0x01 then 2 + vartagSize (others.headD 0).toNat
      else if first.toNat % 2 = 1 then first.toNat / 2 % 128
      else leNat ((first :: others).take 4) / 4 % 0x40000000 :=
  rfl

/-- The size of a datum is read from its own bytes. -/
theorem varsizeAny_append (datum rest : List UInt8) (value : IsVarlena datum) :
    varsizeAny (datum ++ rest) = datum.length := by
  obtain ⟨size, header⟩ := value
  match datum with
  | [] => exact absurd header (by decide)
  | first :: others =>
    rw [← size, cons_append, varsizeAny_cons, varsizeAny_cons]
    rw [varsizeAny_cons] at size
    rw [headD_cons] at header
    by_cases external : first.toNat = 0x01
    · rw [if_pos external] at size
      rw [if_pos external, if_pos external]
      cases others with
      | nil => exact absurd size (show ¬2 + vartagSize 0 = 1 by decide)
      | cons tag others => rfl
    · rw [if_neg external, if_neg external]
      by_cases oneByte : first.toNat % 2 = 1
      · rw [if_pos oneByte, if_pos oneByte]
      · rw [if_neg oneByte] at header
        rw [if_neg oneByte, if_neg oneByte, ← cons_append, take_append_of_le_length header]

variable (dict : DicData) (items : List (List UInt8)) (index : Nat) (datum : List UInt8)

variable {datum}

theorem IsVarlena.pos (value : IsVarlena datum) : 0 < datum.length := by
  have header := value.2
  by_cases odd : (datum.headD 0).toNat % 2 = 1
  · rw [if_pos odd] at header
    omega
  · rw [if_neg odd] at header
    omega

/-- Where a value of a list starts when the values stand one after the other. -/
def startOf (items : List (List UInt8)) (index : Nat) : Nat := (items.take index).flatten.length

/-- The starts of the values, and the end of the last one. -/
def startsOf (items : List (List UInt8)) : List Nat :=
  (List.range (items.length + 1)).map (startOf items)

theorem startsOf_getD (within : index ≤ items.length) :
    (startsOf items).getD index 0 = startOf items index := by
  rw [startsOf, getD_eq_getElem?_getD, getElem?_map, getElem?_range (by omega)]
  rfl

theorem drop_startOf (found : items[index]? = some datum) :
    items.flatten.drop (startOf items index) = datum ++ (items.drop (index + 1)).flatten := by
  obtain ⟨within, isDatum⟩ := List.getElem?_eq_some_iff.mp found
  have split : items = items.take index ++ datum :: items.drop (index + 1) := by
    rw [← isDatum, ← drop_eq_getElem_cons within, take_append_drop]
  have joined : items.flatten =
      (items.take index).flatten ++ (datum ++ (items.drop (index + 1)).flatten) := by
    rw [← flatten_cons, ← flatten_append, ← split]
  rw [joined]
  exact drop_left

/-- A dictionary in memory that holds some values. -/
structure Holds (dict : DicData) (items : List (List UInt8)) : Prop where
  values : ∀ item ∈ items, IsVarlena item
  data : dict.data = items.flatten
  offsets : dict.itemOffset = startsOf items
  count : dict.curItemCount = items.length
  room : items.length ≤ dict.maxItemCount
  slots : ∀ index ∈ dict.slots, index = freeHashSlot ∨ index < items.length

theorem initDictData_holds (itemsMaxSize itemsMaxCount : Nat) :
    Holds (initDictData itemsMaxSize itemsMaxCount) [] := by
  refine ⟨fun _ member => absurd member not_mem_nil, rfl, rfl, rfl, Nat.zero_le _, ?_⟩
  intro index member
  exact .inl (eq_of_mem_replicate member)

variable (datum)

theorem startOf_append {index : Nat}
    (within : index ≤ items.length) : startOf (items ++ [datum]) index = startOf items index := by
  rw [startOf, startOf, take_append_of_le_length within]

/-- A dictionary with room takes another item. -/
theorem Holds.append (holds : Holds dict items)
    (slotIndex : Nat) (datum : List UInt8) (value : IsVarlena datum)
    (room : dict.curItemCount < dict.maxItemCount) :
    Holds (dict.append slotIndex datum) (items ++ [datum]) := by
  have length : (items ++ [datum]).length = items.length + 1 := length_append
  refine ⟨?_, ?_, ?_, ?_, ?_, ?_⟩
  · intro item member
    rcases mem_append.mp member with old | new
    · exact holds.values item old
    · rw [mem_singleton.mp new]
      exact value
  · show dict.data ++ datum = (items ++ [datum]).flatten
    rw [holds.data, flatten_append, flatten_singleton]
  · show dict.itemOffset ++ [dict.itemOffset.getD dict.curItemCount 0 + datum.length] = _
    have same : (List.range (items.length + 1)).map (startOf (items ++ [datum])) =
        (List.range (items.length + 1)).map (startOf items) := by
      apply map_congr_left
      intro index member
      exact startOf_append items datum (Nat.le_of_lt_succ (mem_range.mp member))
    have last : startOf (items ++ [datum]) (items.length + 1) =
        startOf items items.length + datum.length := by
      rw [startOf, startOf, ← length, take_length, take_length, flatten_append,
        flatten_singleton, length_append]
    rw [holds.offsets, holds.count, startsOf_getD items _ (Nat.le_refl _), startsOf, startsOf,
      length, range_succ (n := items.length + 1), map_append, same, map_singleton,
      last]
  · show dict.curItemCount + 1 = _
    rw [holds.count, length]
  · rw [length]
    have count := holds.count
    show items.length + 1 ≤ dict.maxItemCount
    omega
  · intro index member
    rw [length]
    rcases mem_or_eq_of_mem_set member with old | new
    · exact (holds.slots index old).imp_right Nat.lt_succ_of_lt
    · rw [new, holds.count]
      exact .inr (Nat.lt_succ_self _)

theorem Holds.item_bytes (holds : Holds dict items)
    (index : Nat) (datum : List UInt8) (found : items[index]? = some datum) :
    dict.item index = datum ++ (items.drop (index + 1)).flatten := by
  have within : index < items.length := (List.getElem?_eq_some_iff.mp found).1
  rw [DicData.item, holds.offsets, startsOf_getD items index (Nat.le_of_lt within), holds.data]
  exact drop_startOf items index found

/-- A code is that of an equal item, or of the new one. -/
theorem encodeLoop_spec (holds : Holds dict items)
    (datum : List UInt8) (value : IsVarlena datum) (rounds slotIndex code : Nat) (next : DicData)
    (result : encodeLoop dict datum rounds slotIndex = some (code, next)) :
    (items[code]? = some datum ∧ next = dict) ∨
      (code = items.length ∧ Holds next (items ++ [datum]) ∧
        next.maxItemCount = dict.maxItemCount) := by
  induction rounds generalizing slotIndex with
  | zero => exact nomatch result
  | succ rounds ih =>
    rw [encodeLoop] at result
    by_cases free : dict.slots.getD slotIndex freeHashSlot = freeHashSlot
    · simp only [if_pos free] at result
      by_cases enough : dict.isEnoughToAppend datum.length = true
      · rw [if_pos enough, Option.some.injEq, Prod.mk.injEq] at result
        rw [DicData.isEnoughToAppend, Bool.and_eq_true, decide_eq_true_eq, decide_eq_true_eq]
          at enough
        right
        rw [← result.1, ← result.2]
        exact ⟨holds.count, holds.append dict items slotIndex datum value enough.2, rfl⟩
      · rw [if_neg enough] at result
        exact nomatch result
    · simp only [if_neg free] at result
      by_cases same : varsizeAny (dict.item (dict.slots.getD slotIndex freeHashSlot)) =
          datum.length ∧
          (dict.item (dict.slots.getD slotIndex freeHashSlot)).take datum.length = datum
      · rw [if_pos same, Option.some.injEq, Prod.mk.injEq] at result
        left
        refine ⟨?_, result.2.symm⟩
        rw [result.1] at same free
        have used : code < items.length := by
          by_cases inside : slotIndex < dict.slots.length
          · have member : code ∈ dict.slots := by
              rw [← result.1, getD_eq_getElem?_getD, getElem?_eq_getElem inside]
              exact getElem_mem inside
            exact (holds.slots code member).resolve_left free
          · rw [← result.1, getD_eq_getElem?_getD, getElem?_eq_none (Nat.not_lt.mp inside)] at free
            exact absurd rfl free
        have found := getElem?_eq_getElem used
        have bytes := holds.item_bytes dict items code _ found
        rw [bytes, varsizeAny_append _ _ (holds.values _ (getElem_mem used))] at same
        rw [← same.1, take_left] at same
        rw [found, same.2]
      · rw [if_neg same] at result
        exact ih _ result

/-- Numbering values extends the dictionary: every value has its number in it, and every new number
is used. -/
theorem dicCompressLoop_spec (hashAny : List UInt8 → Nat) (values : List (List UInt8))
    (varlenas : ∀ value ∈ values, IsVarlena value) (rounds : Nat) (dict : DicData)
    (items : List (List UInt8)) (holds : Holds dict items) (codes : List Nat) (final : DicData)
    (result : dicCompressLoop hashAny rounds dict values.flatten = some (codes, final)) :
    ∃ later, Holds final (items ++ later) ∧ final.maxItemCount = dict.maxItemCount ∧
      codes.map ((items ++ later)[·]?) = values.map some ∧
      ∀ index, items.length ≤ index → index < (items ++ later).length → index ∈ codes := by
  induction values generalizing rounds dict items codes with
  | nil =>
    cases rounds with
    | zero => exact nomatch result
    | succ rounds =>
      rw [dicCompressLoop, if_pos flatten_nil, Option.some.injEq, Prod.mk.injEq] at result
      refine ⟨[], ?_, ?_, ?_, ?_⟩
      · rw [append_nil, ← result.2]
        exact holds
      · rw [← result.2]
      · rw [← result.1]
        rfl
      · intro index least most
        rw [append_nil] at most
        omega
  | cons value rest ih =>
    rw [forall_mem_cons] at varlenas
    have size := varsizeAny_append value rest.flatten varlenas.1
    cases rounds with
    | zero => exact nomatch result
    | succ rounds =>
      have some : ¬(value :: rest).flatten = [] := by
        apply ne_nil_of_length_pos
        rw [flatten_cons, length_append]
        have positive := IsVarlena.pos varlenas.1
        omega
      rw [dicCompressLoop, if_neg some, flatten_cons, size, take_left, drop_left]
        at result
      cases encoded : encodeOneValue hashAny dict value with
      | none =>
        rw [encoded] at result
        exact nomatch result
      | some pair =>
        obtain ⟨code, next⟩ := pair
        rw [encoded] at result
        obtain ⟨⟨others, last⟩, loop, pairEq⟩ := Option.map_eq_some_iff.mp result
        obtain ⟨rfl, rfl⟩ := pairEq
        rcases encodeLoop_spec dict items holds value varlenas.1 _ _ code next encoded with
          ⟨found, same⟩ | ⟨isLast, holdsNext, countNext⟩
        · subst same
          obtain ⟨later, holdsLast, countLast, lookups, used⟩ := ih varlenas.2 rounds next items
            holds others loop
          refine ⟨later, holdsLast, countLast, ?_, ?_⟩
          · have within := (List.getElem?_eq_some_iff.mp found).1
            rw [map_cons, map_cons, lookups, getElem?_append_left within, found]
          · exact fun index least most => mem_cons_of_mem _ (used index least most)
        · obtain ⟨later, holdsLast, countLast, lookups, used⟩ := ih varlenas.2 rounds next
            (items ++ [value]) holdsNext others loop
          rw [append_assoc] at holdsLast lookups used
          refine ⟨[value] ++ later, holdsLast, countLast.trans countNext, ?_, ?_⟩
          · rw [map_cons, lookups, isLast,
              getElem?_append_right (Nat.le_refl _), Nat.sub_self]
            rfl
          · intro index least most
            by_cases new : index = items.length
            · rw [new, ← isLast]
              exact mem_cons_self
            · apply mem_cons_of_mem
              apply used index _ most
              rw [length_append, length_singleton]
              lia

/-- The offsets that are read are the starts of the items. -/
theorem itemOffsets_startsOf (varlenas : ∀ item ∈ items, IsVarlena item)
    (tail : List UInt8) (rounds index : Nat) (within : index ≤ items.length)
    (enough : items.length ≤ index + rounds) :
    itemOffsets (items.flatten ++ tail) items.flatten.length rounds (startOf items index) =
      (startsOf items).drop index := by
  have starts : (startsOf items).length = items.length + 1 := by
    rw [startsOf, length_map, length_range]
  have first (index : Nat) (within : index ≤ items.length) : (startsOf items).drop index =
      startOf items index :: (startsOf items).drop (index + 1) := by
    rw [drop_eq_getElem_cons (by omega), ← getD_eq_getElem _ 0,
      startsOf_getD items index within]
  have total : startOf items items.length = items.flatten.length := by
    rw [startOf, take_length]
  have atEnd : (startsOf items).drop items.length = [startOf items items.length] := by
    rw [first _ (Nat.le_refl _), drop_eq_nil_of_le (by omega)]
  induction rounds generalizing index with
  | zero =>
    obtain rfl : index = items.length := by omega
    rw [atEnd]
    rfl
  | succ rounds ih =>
    rw [itemOffsets]
    by_cases more : index < items.length
    · have found := getElem?_eq_getElem more
      have value := varlenas _ (getElem_mem more)
      have behind := drop_startOf items index found
      have lengths := congrArg List.length behind
      rw [length_drop, length_append] at lengths
      have positive := IsVarlena.pos value
      have size : varsizeAny ((items.flatten ++ tail).drop (startOf items index)) =
          items[index].length := by
        rw [drop_append_of_le_length (by omega), behind, append_assoc]
        exact varsizeAny_append _ _ value
      have next : startOf items (index + 1) = startOf items index + items[index].length := by
        rw [startOf, startOf, take_succ_eq_append_getElem more, flatten_append,
          length_append, flatten_singleton]
      rw [if_pos (by omega), size, ← next, first index within, ih (index + 1) more (by lia)]
    · obtain rfl : index = items.length := by omega
      rw [if_neg (by omega), atEnd]

/-- Codes are decompressed to the values they stand for. -/
theorem dicDecompress_restores
    (holds : Holds dict items) (tail : List UInt8) (codes : List Nat) (values : List (List UInt8))
    (lookups : codes.map (items[·]?) = values.map some) (few : values.length < 2 ^ 16)
    (small : dict.totalSize < 2 ^ 31) :
    dicDecompress (dict.onDisk ++ tail) codes = values.flatten := by
  have count : codes.length = values.length := by
    have lengths := congrArg List.length lookups
    rw [length_map, length_map] at lengths
    exact lengths
  have size : leNat ((dict.onDisk ++ tail).take 4) = dict.totalSize := by
    exact leNat_leBytes 4 _ (by omega)
  have data : (dict.onDisk ++ tail).drop 8 = items.flatten ++ tail := by
    rw [DicData.onDisk, append_assoc, ← holds.data]
    apply drop_left'
    rw [length_append, leBytes_length, leBytes_length]
  have bytes : dict.totalSize - 8 = items.flatten.length := by
    rw [DicData.totalSize, holds.data, Nat.add_sub_cancel_left]
  have rounds : items.length ≤ items.flatten.length := by
    have positive : ∀ length ∈ items.map List.length, 1 ≤ length := by
      intro length member
      obtain ⟨item, isItem, rfl⟩ := mem_map.mp member
      exact IsVarlena.pos (holds.values item isItem)
    have sums := card_nsmul_le_sum _ 1 positive
    rw [length_map, nsmul_eq_mul, Nat.mul_one, ← length_flatten] at sums
    exact sums
  have offsets := itemOffsets_startsOf items holds.values tail items.flatten.length 0
    (Nat.zero_le _) (by omega)
  have start : startOf items 0 = 0 := rfl
  rw [start, drop_zero] at offsets
  rw [dicDecompress]
  dsimp only
  rw [size, data, bytes, offsets, count, Nat.mod_eq_of_lt few, ← count, take_length]
  -- the numbers and the values go along together
  clear count few small
  induction codes generalizing values with
  | nil =>
    cases values with
    | nil => rfl
    | cons value rest => exact nomatch lookups
  | cons code codes ih =>
    cases values with
    | nil => exact nomatch lookups
    | cons value rest =>
      rw [map_cons, map_cons, List.cons.injEq] at lookups
      have within : code < items.length := (List.getElem?_eq_some_iff.mp lookups.1).1
      have isValue := holds.values value (mem_of_getElem? lookups.1)
      have behind := drop_startOf items code lookups.1
      have lengths := congrArg List.length behind
      rw [length_drop, length_append] at lengths
      have positive := IsVarlena.pos isValue
      rw [flatMap_cons, flatten_cons, ih rest lookups.2,
        startsOf_getD items code (Nat.le_of_lt within),
        drop_append_of_le_length (by omega), behind, append_assoc,
        varsizeAny_append value _ isValue, take_left]

end OpenGauss.CStore
