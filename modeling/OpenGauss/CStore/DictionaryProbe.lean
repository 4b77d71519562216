import OpenGauss.CStore.Dictionary
import OpenGauss.Base.LinearProbing

/-!
# The values of a dictionary are found again

The slots of `DicCoder` are at least twice as many as the values, so that a search always stops: at
the value itself or at a free slot. A value is added only where its search found a free slot, and no
slot becomes free again. So a value that is in the dictionary is found before any free slot, and is
never added twice.
-/
namespace OpenGauss.CStore

open Option List OpenGauss.Base

/-- The values of a dictionary. -/
def DicData.items (dict : DicData) : List (List UInt8) :=
  (List.range dict.curItemCount).map fun index =>
    (dict.item index).take (varsizeAny (dict.item index))

/-- The number of a slot is that of the value. -/
def DicData.matchesAt (dict : DicData) (datum : List UInt8) (slotIndex : Nat) : Prop :=
  varsizeAny (dict.item (dict.slots.getD slotIndex freeHashSlot)) = datum.length ∧
    (dict.item (dict.slots.getD slotIndex freeHashSlot)).take datum.length = datum

/-- A search ends at a slot: it is free, or its number is that of the value. -/
def DicData.stopsAt (dict : DicData) (datum : List UInt8) (slotIndex : Nat) : Prop :=
  dict.slots.getD slotIndex freeHashSlot = freeHashSlot ∨ dict.matchesAt datum slotIndex

/-- A search for a value from its hash on ends, at a free slot or at the value. -/
def DicData.SearchEnds (dict : DicData) (hash : Nat) (datum : List UInt8) : Prop :=
  ∃ steps < dict.maxItemCount * 2,
    dict.stopsAt datum (probeSlot (dict.maxItemCount * 2) hash steps) ∧
      ∀ earlier < steps, ¬dict.stopsAt datum (probeSlot (dict.maxItemCount * 2) hash earlier)

/-- Values are numbered one after the other. -/
def encodeAll (hashAny : List UInt8 → Nat) : DicData → List (List UInt8) →
    Option (List Nat × DicData)
  | dict, [] => some ([], dict)
  | dict, value :: rest =>
    match encodeOneValue hashAny dict value with
    | none => none
    | some (code, next) => (encodeAll hashAny next rest).map fun found => (code :: found.1, found.2)

/-- A dictionary that holds some values, each of which is found from its hash on. -/
structure Probed (hashAny : List UInt8 → Nat) (dict : DicData) (items : List (List UInt8)) :
    Prop where
  holds : Holds dict items
  distinct : items.Nodup
  size : dict.slots.length = dict.maxItemCount * 2
  limits : 0 < dict.maxItemCount ∧ dict.maxItemCount ≤ freeHashSlot
  used : dict.slots.countP (fun slot => decide (slot ≠ freeHashSlot)) ≤ items.length
  reached : ∀ code item, items[code]? = some item →
    Reaches dict.slots freeHashSlot (hashAny item) code

variable (hashAny : List UInt8 → Nat) (values : List (List UInt8)) (dict : DicData)
  (items : List (List UInt8))

theorem Holds.items_eq (holds : Holds dict items) : dict.items = items := by
  apply ext_getElem?
  intro index
  rw [DicData.items, holds.count, getElem?_map]
  by_cases within : index < items.length
  · have found := getElem?_eq_getElem within
    rw [getElem?_range within, map_some, holds.item_bytes dict items index _ found,
      varsizeAny_append _ _ (holds.values _ (getElem_mem within)), take_left, found]
  · rw [getElem?_eq_none (Nat.not_lt.mp within),
      getElem?_eq_none (by rw [length_range]; exact Nat.not_lt.mp within)]
    rfl

theorem Holds.slot_lt (holds : Holds dict items)
    {slotIndex : Nat} (taken : dict.slots.getD slotIndex freeHashSlot ≠ freeHashSlot) :
    dict.slots.getD slotIndex freeHashSlot < items.length := by
  by_cases inside : slotIndex < dict.slots.length
  · rw [getD_eq_getElem?_getD, getElem?_eq_getElem inside] at taken ⊢
    exact (holds.slots _ (getElem_mem inside)).resolve_left taken
  · rw [getD_eq_getElem?_getD, getElem?_eq_none (Nat.not_lt.mp inside)] at taken
    exact absurd rfl taken

/-- A slot matches a datum exactly if its item is equal. -/
theorem Holds.matchesAt_iff (holds : Holds dict items) (datum : List UInt8) {slotIndex : Nat}
    (taken : dict.slots.getD slotIndex freeHashSlot ≠ freeHashSlot) :
    dict.matchesAt datum slotIndex ↔
      items[dict.slots.getD slotIndex freeHashSlot]? = some datum := by
  have within := holds.slot_lt dict items taken
  have found := getElem?_eq_getElem within
  have value := holds.values _ (getElem_mem within)
  rw [DicData.matchesAt, holds.item_bytes dict items _ _ found, varsizeAny_append _ _ value, found,
    some.injEq]
  constructor
  · intro same
    have bytes := same.2
    rw [← same.1, take_left] at bytes
    exact bytes
  · intro same
    rw [same, take_left]
    exact ⟨rfl, rfl⟩

/-- A free slot behind slots that do not match shows a datum is new. -/
theorem Probed.not_mem (probed : Probed hashAny dict items) {datum : List UInt8} {steps : Nat}
    (passed : ∀ earlier < steps,
      ¬dict.stopsAt datum (probeSlot (dict.maxItemCount * 2) (hashAny datum) earlier))
    (vacant : dict.slots.getD (probeSlot (dict.maxItemCount * 2) (hashAny datum) steps)
      freeHashSlot = freeHashSlot) : datum ∉ items := by
  intro member
  obtain ⟨code, isDatum⟩ := mem_iff_getElem?.mp member
  have within := (List.getElem?_eq_some_iff.mp isDatum).1
  have room := probed.holds.room
  have limit := probed.limits.2
  rw [← probed.size] at passed vacant
  apply (probed.reached code datum isDatum).not_free freeHashSlot (by omega) _ vacant
  intro earlier before same
  have goes := passed earlier before
  rw [DicData.stopsAt, not_or] at goes
  apply goes.2
  rw [probed.holds.matchesAt_iff dict items datum goes.1, same]
  exact isDatum

/-- The new item is found by probing. -/
theorem Probed.append {hashAny : List UInt8 → Nat} {dict : DicData} {items : List (List UInt8)}
    (probed : Probed hashAny dict items) {datum : List UInt8} (value : IsVarlena datum)
    (room : dict.curItemCount < dict.maxItemCount) {steps : Nat} (passed : ∀ earlier < steps,
      ¬dict.stopsAt datum (probeSlot (dict.maxItemCount * 2) (hashAny datum) earlier))
    (vacant : dict.slots.getD (probeSlot (dict.maxItemCount * 2) (hashAny datum) steps)
      freeHashSlot = freeHashSlot) :
    Probed hashAny (dict.append (probeSlot (dict.maxItemCount * 2) (hashAny datum) steps) datum)
      (items ++ [datum]) := by
  have new := probed.not_mem hashAny dict items passed vacant
  have count := probed.holds.count
  have limit := probed.limits.2
  have size := probed.size
  have within : probeSlot (dict.maxItemCount * 2) (hashAny datum) steps < dict.slots.length := by
    rw [size]
    exact Nat.mod_lt _ (by omega)
  have codeUsed : dict.curItemCount ≠ freeHashSlot := by omega
  exact {
    holds := probed.holds.append dict items _ datum value room
    distinct := by
      rw [nodup_append]
      refine ⟨probed.distinct, by simp, ?_⟩
      intro item member other isDatum same
      rw [same, mem_singleton.mp isDatum] at member
      exact new member
    size := by
      show (dict.slots.set _ _).length = _
      rw [length_set]
      exact size
    limits := probed.limits
    used := by
      have more := countP_set_free dict.slots freeHashSlot dict.curItemCount within
      rw [length_append]
      exact Nat.le_trans more (Nat.add_le_add_right probed.used 1)
    reached := by
      intro code item isItem
      by_cases old : code < items.length
      · rw [getElem?_append_left old] at isItem
        exact (probed.reached code item isItem).set (by lia) within vacant codeUsed
      · have last := (List.getElem?_eq_some_iff.mp isItem).1
        rw [length_append, length_singleton] at last
        have isLast : code = items.length := by omega
        rw [isLast, getElem?_append_right (Nat.le_refl _), Nat.sub_self] at isItem
        have same : datum = item := some.inj isItem
        rw [isLast, ← count, ← same, ← size]
        apply reaches_set_self freeHashSlot steps _ (by lia) codeUsed
        intro earlier before
        have goes := passed earlier before
        rw [← size, DicData.stopsAt, not_or] at goes
        exact goes.1 }

/-- The loop ends at the first slot that is free or matches. -/
theorem encodeLoop_stops (datum : List UInt8) (hash rounds steps code : Nat) (next : DicData)
    (passed : ∀ earlier < steps,
      ¬dict.stopsAt datum (probeSlot (dict.maxItemCount * 2) hash earlier))
    (result : encodeLoop dict datum rounds (probeSlot (dict.maxItemCount * 2) hash steps) =
      some (code, next)) : next = dict ∨ ∃ stop,
      (∀ earlier < stop, ¬dict.stopsAt datum (probeSlot (dict.maxItemCount * 2) hash earlier)) ∧
      dict.slots.getD (probeSlot (dict.maxItemCount * 2) hash stop) freeHashSlot = freeHashSlot ∧
      dict.curItemCount < dict.maxItemCount ∧
      next = dict.append (probeSlot (dict.maxItemCount * 2) hash stop) datum := by
  induction rounds generalizing steps with
  | zero => cases result
  | succ rounds ih =>
    rw [encodeLoop] at result
    by_cases free : dict.slots.getD (probeSlot (dict.maxItemCount * 2) hash steps) freeHashSlot =
        freeHashSlot
    · simp only [if_pos free] at result
      by_cases enough : dict.isEnoughToAppend datum.length = true
      · rw [if_pos enough, some.injEq, Prod.mk.injEq] at result
        rw [DicData.isEnoughToAppend, Bool.and_eq_true, decide_eq_true_eq, decide_eq_true_eq]
          at enough
        exact .inr ⟨steps, passed, free, enough.2, result.2.symm⟩
      · rw [if_neg enough] at result
        cases result
    · simp only [if_neg free] at result
      by_cases same : dict.matchesAt datum (probeSlot (dict.maxItemCount * 2) hash steps)
      · rw [DicData.matchesAt] at same
        rw [if_pos same, some.injEq, Prod.mk.injEq] at result
        exact .inl result.2.symm
      · rw [DicData.matchesAt] at same
        rw [if_neg same, probeSlot_next] at result
        apply ih (steps + 1) _ result
        intro earlier before
        by_cases now : earlier = steps
        · rw [now, DicData.stopsAt, not_or]
          exact ⟨free, same⟩
        · exact passed earlier (by omega)

theorem encodeOneValue_probed (probed : Probed hashAny dict items) (datum : List UInt8)
    (value : IsVarlena datum) (code : Nat) (next : DicData)
    (result : encodeOneValue hashAny dict datum = some (code, next)) :
    ∃ later, Probed hashAny next later ∧ next.maxItemCount = dict.maxItemCount := by
  rcases encodeLoop_stops dict datum (hashAny datum) _ 0 code next
    (fun _ none => absurd none (Nat.not_lt_zero _)) result with same | ⟨stop, passed, vacant, room, new⟩
  · subst same
    exact ⟨items, probed, rfl⟩
  · subst new
    exact ⟨items ++ [datum], probed.append value room passed vacant, rfl⟩

/-- Encoding keeps all items to be found by probing. -/
theorem encodeAll_probed
    (varlenas : ∀ value ∈ values, IsVarlena value) (dict : DicData) (items : List (List UInt8))
    (probed : Probed hashAny dict items) (codes : List Nat) (final : DicData)
    (result : encodeAll hashAny dict values = some (codes, final)) :
    ∃ later, Probed hashAny final later ∧ final.maxItemCount = dict.maxItemCount := by
  induction values generalizing dict items codes with
  | nil =>
    rw [encodeAll, some.injEq, Prod.mk.injEq] at result
    rw [← result.2]
    exact ⟨items, probed, rfl⟩
  | cons value rest ih =>
    rw [forall_mem_cons] at varlenas
    rw [encodeAll] at result
    cases encoded : encodeOneValue hashAny dict value with
    | none =>
      rw [encoded] at result
      exact nomatch result
    | some pair =>
      rw [encoded] at result
      obtain ⟨⟨others, last⟩, loop, pairEq⟩ := Option.map_eq_some_iff.mp result
      obtain ⟨-, rfl⟩ := pairEq
      have ⟨between, kept, count⟩ := encodeOneValue_probed hashAny dict items probed value varlenas.1
        pair.1 pair.2 encoded
      have ⟨later, keptLast, countLast⟩ := ih varlenas.2 pair.2 between kept others loop
      exact ⟨later, keptLast, countLast.trans count⟩

/-- If all values are encoded, so are the first ones. -/
theorem encodeAll_append (before after : List (List UInt8))
    (dict : DicData) (all : List Nat × DicData)
    (result : encodeAll hashAny dict (before ++ after) = some all) :
    ∃ found, encodeAll hashAny dict before = some found := by
  induction before generalizing dict all with
  | nil => exact ⟨_, rfl⟩
  | cons value rest ih =>
    rw [cons_append, encodeAll] at result
    rw [encodeAll]
    cases encoded : encodeOneValue hashAny dict value with
    | none =>
      rw [encoded] at result
      exact nomatch result
    | some pair =>
      rw [encoded] at result
      obtain ⟨others, loop, -⟩ := Option.map_eq_some_iff.mp result
      have ⟨found, first⟩ := ih pair.2 others loop
      exact ⟨(pair.1 :: found.1, found.2), congrArg (Option.map _) first⟩

/-- The loop over the bytes encodes their values. -/
theorem dicCompressLoop_values
    (varlenas : ∀ value ∈ values, IsVarlena value) (rounds : Nat) (dict : DicData)
    (enough : values.flatten.length < rounds) :
    dicCompressLoop hashAny rounds dict values.flatten = encodeAll hashAny dict values := by
  induction values generalizing rounds dict with
  | nil =>
    obtain ⟨left, rfl⟩ : ∃ left, rounds = left + 1 := ⟨rounds - 1, by lia⟩
    rw [dicCompressLoop, if_pos flatten_nil, encodeAll]
  | cons value rest ih =>
    rw [forall_mem_cons] at varlenas
    have size := varsizeAny_append value rest.flatten varlenas.1
    have positive := IsVarlena.pos varlenas.1
    rw [flatten_cons, length_append] at enough
    obtain ⟨left, rfl⟩ : ∃ left, rounds = left + 1 := ⟨rounds - 1, by lia⟩
    have present : ¬(value :: rest).flatten = [] := by
      apply ne_nil_of_length_pos
      rw [flatten_cons, length_append]
      omega
    rw [dicCompressLoop, if_neg present, flatten_cons, size, take_left, drop_left, encodeAll]
    cases encodeOneValue hashAny dict value with
    | none => rfl
    | some pair =>
      obtain ⟨code, next⟩ := pair
      dsimp only
      rw [ih varlenas.2 left next (by omega)]

/-- An empty dictionary has no item to be found. -/
theorem initDictData_probed (itemsMaxSize number : Nat) (few : number < 2 ^ 16) :
    Probed hashAny (initDictData itemsMaxSize (dictGetMaxNumber number)) [] := by
  have small : dictGetMaxNumber number % 2 ^ 16 = number / 4 + 1 :=
    Nat.mod_eq_of_lt (by rw [dictGetMaxNumber]; lia)
  exact {
    holds := initDictData_holds itemsMaxSize _
    distinct := nodup_nil
    size := by
      rw [initDictData, length_replicate]
    limits := by
      show 0 < dictGetMaxNumber number % 2 ^ 16 ∧ dictGetMaxNumber number % 2 ^ 16 ≤ freeHashSlot
      rw [freeHashSlot]
      lia
    used := by
      rw [initDictData, countP_replicate]
      exact Nat.zero_le _
    reached := fun _ _ absent => nomatch absent }

theorem Probed.searchEnds (probed : Probed hashAny dict items) (hash : Nat) (datum : List UInt8) :
    dict.SearchEnds hash datum := by
  classical
  have room := probed.holds.room
  have limits := probed.limits
  have used := probed.used
  have size := probed.size
  have ⟨steps, near, vacant⟩ := exists_free_slot dict.slots freeHashSlot hash (by omega)
  rw [size] at near vacant
  have ends : ∃ steps, dict.stopsAt datum (probeSlot (dict.maxItemCount * 2) hash steps) :=
    ⟨steps, .inl vacant⟩
  exact ⟨Nat.find ends, Nat.lt_of_le_of_lt (Nat.find_min' ends (.inl vacant)) near,
    Nat.find_spec ends, fun _ before => Nat.find_min ends before⟩

/-- Values are restored from their numbers and the dictionary on disk. There is one number for each
value, smaller than the number of values in the dictionary, which are all different. Each value is
looked for in the dictionary of those before it, and the search ends at the value or at a free
slot. -/
theorem dictionary_restores_values (hashAny : List UInt8 → Nat) (values : List (List UInt8))
    (varlenas : ∀ value ∈ values, IsVarlena value) (few : values.length < 2 ^ 16)
    (small : values.flatten.length < 2 ^ 31) (codes : List Nat) (final : DicData)
    (result : dicCompress hashAny values.flatten values.length = some (codes, final))
    (tail : List UInt8) :
    final.items.Nodup ∧ codes.length = values.length ∧ (∀ code ∈ codes, code < final.curItemCount) ∧
      (∀ before value after, values = before ++ value :: after →
        ∃ found, dicCompressLoop hashAny (before.flatten.length + 1)
            (initDictData (dictGetMaxNumber values.flatten.length) (dictGetMaxNumber values.length))
            before.flatten = some found ∧ found.2.SearchEnds (hashAny value) value) ∧
      dicDecompress (final.onDisk ++ tail) codes = values.flatten := by
  rw [dicCompress, filter_eq_some_iff, decide_eq_true_eq] at result
  obtain ⟨loop, shorter⟩ := result
  have init := initDictData_probed hashAny (dictGetMaxNumber values.flatten.length) values.length few
  obtain ⟨items, holds, -, lookups, -⟩ := dicCompressLoop_spec hashAny values varlenas _ _ []
    init.holds codes final loop
  rw [nil_append] at holds lookups
  have same := dicCompressLoop_values hashAny values varlenas (values.flatten.length + 1)
    (initDictData (dictGetMaxNumber values.flatten.length) (dictGetMaxNumber values.length))
    (Nat.lt_succ_self _)
  rw [same] at loop
  refine ⟨?_, ?_, ?_, ?_, ?_⟩
  · have ⟨later, probed, _⟩ := encodeAll_probed hashAny values varlenas _ [] init codes final loop
    rw [probed.holds.items_eq]
    exact probed.distinct
  · have lengths := congrArg List.length lookups
    rw [length_map, length_map] at lengths
    exact lengths
  · intro code member
    have found : items[code]? ∈ values.map some := by
      rw [← lookups]
      exact mem_map_of_mem member
    obtain ⟨value, -, isValue⟩ := mem_map.mp found
    rw [holds.count]
    exact (List.getElem?_eq_some_iff.mp isValue.symm).1
  · intro before value after split
    have first : ∀ value ∈ before, IsVarlena value := by
      intro value member
      apply varlenas
      rw [split]
      exact mem_append_left _ member
    have loopSplit := loop
    rw [split] at loopSplit
    have ⟨found, isFound⟩ := encodeAll_append hashAny before (value :: after) _ _ loopSplit
    have ⟨later, probed, _⟩ := encodeAll_probed hashAny before first _ [] (by
      rw [← split]
      exact init) found.1 found.2 isFound
    refine ⟨found, ?_, probed.searchEnds hashAny found.2 later (hashAny value) value⟩
    rw [dicCompressLoop_values hashAny before first _ _ (Nat.lt_succ_self _), split]
    exact isFound
  · apply dicDecompress_restores final items holds tail codes values lookups few
    have less : final.data.length + 8 < values.flatten.length := shorter
    rw [DicData.totalSize]
    omega

/-- Two different values with one hash, which have one number each. -/
theorem dictionary_restores_values_colliding :
    dicDecompress ((⟨9, 2, 2, [0x0B, 1, 2, 3, 4, 0x05, 9], [0, 5, 7], [0xFFFF, 0, 1, 0xFFFF]⟩ :
      DicData).onDisk ++ []) [0, 0, 1, 0, 0, 0, 0] =
      List.flatten [[0x0B, 1, 2, 3, 4], [0x0B, 1, 2, 3, 4], [0x05, 9], [0x0B, 1, 2, 3, 4],
        [0x0B, 1, 2, 3, 4], [0x0B, 1, 2, 3, 4], [0x0B, 1, 2, 3, 4]] := by
  have varlenas : ∀ value ∈ [[0x0B, 1, 2, 3, 4], [0x0B, 1, 2, 3, 4], [0x05, 9], [0x0B, 1, 2, 3, 4],
      [0x0B, 1, 2, 3, 4], [0x0B, 1, 2, 3, 4], [0x0B, 1, 2, 3, (4 : UInt8)]],
      varsizeAny value = value.length ∧
        (if (value.headD 0).toNat % 2 = 1 then 1 else 4) ≤ value.length := by decide
  exact (dictionary_restores_values (fun _ => 5) _ varlenas (by decide) (by decide) _ _ rfl
    []).2.2.2.2

end OpenGauss.CStore
