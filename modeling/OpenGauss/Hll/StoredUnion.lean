import OpenGauss.Hll.StoredObjects

/-!
# Joining objects in memory

Joining two objects in memory that represent objects of lists does what it does on lists, without
reaching a byte outside the memory of either. It reports an error instead if the parameters differ, or
if an object that has no hash is to become a list of hashes with none in it.
-/
namespace OpenGauss.Hll.Stored

open List OpenGauss.Base

theorem isEmpty_represents {most : Nat} {stored : HllObjectData} {object : HllObject}
    (represents : Represents most stored object) : stored.isEmpty = object.isEmpty := by
  have holds := represents.holds
  obtain ⟨para, lastHash, data⟩ := object
  rw [HllObjectData.isEmpty]
  cases data with
  | uninit | empty | explicit hashes | sparse values | full values => rw [holds.1]; rfl

/-- The parameters are the same in memory. -/
theorem hllpara_represents {most : Nat} {stored stored' : HllObjectData} {object object' : HllObject}
    (represents : Represents most stored object) (represents' : Represents most stored' object') :
    stored.hllpara = stored'.hllpara ↔ object.para = object'.para := by
  obtain ⟨-, -, -, -, one⟩ := hllCheckPararange_range represents.valid
  obtain ⟨-, -, -, -, other⟩ := hllCheckPararange_range represents'.valid
  rw [← represents.para, ← represents'.para]
  constructor
  · intro same
    rw [same]
  · intro same
    generalize stored.hllpara = first at one same ⊢
    generalize stored'.hllpara = second at other same ⊢
    obtain ⟨registers, explicitSize, sparseSize, duplicate⟩ := first
    simp only [HllParaBytes.toPara, HllPara.mk.injEq] at same
    obtain ⟨rfl, rfl, rfl, flag⟩ := same
    congr 1
    lia

/-- The larger of two bytes. -/
def largerByte (first second : UInt8) : UInt8 :=
  if first.toNat < second.toNat then second else first

/-- The larger bytes are written one by one. -/
theorem combineBytes_backed {aHll : HllObjectData} {bytes2 : List UInt8}
    (backed2 : Backed aHll bytes2) (bytes1 spare : List UInt8) (same : bytes1.length = bytes2.length)
    (count : Nat) (inside : count ≤ bytes1.length) :
    (List.range count).foldlM (combineByte aHll) (bytes1 ++ spare) =
      .ok ((List.zipWith largerByte bytes1 bytes2).take count ++ bytes1.drop count ++ spare) := by
  induction count with
  | zero => rfl
  | succ count ih =>
    have room := backed2.used_le
    obtain ⟨spare2, data2, -⟩ := backed2.memory (by omega)
    obtain ⟨byte1, here1⟩ : ∃ byte, bytes1[count]? = some byte :=
      ⟨_, getElem?_eq_getElem (by omega)⟩
    obtain ⟨byte2, here2⟩ : ∃ byte, bytes2[count]? = some byte :=
      ⟨_, getElem?_eq_getElem (by omega)⟩
    have zipped : (List.zipWith largerByte bytes1 bytes2)[count]? = some (largerByte byte1 byte2) := by
      rw [getElem?_zipWith, here1, here2]
    have front : ((List.zipWith largerByte bytes1 bytes2).take count).length = count := by
      rw [length_take_of_le (by rw [length_zipWith]; lia)]
    have rest : bytes1.drop count = byte1 :: bytes1.drop (count + 1) := by
      obtain ⟨less, value⟩ := List.getElem?_eq_some_iff.mp here1
      rw [drop_eq_getElem_cons less, value]
    have next : (List.zipWith largerByte bytes1 bytes2).take (count + 1) =
        (List.zipWith largerByte bytes1 bytes2).take count ++ [largerByte byte1 byte2] := by
      rw [take_add_one, zipped]
      rfl
    have read : readByte ((List.zipWith largerByte bytes1 bytes2).take count ++
        bytes1.drop count ++ spare) count = .ok byte1.toNat := by
      have found : ((List.zipWith largerByte bytes1 bytes2).take count ++
          bytes1.drop count ++ spare)[count]? = some byte1 := by
        rw [append_assoc, getElem?_append_right (by omega), front, Nat.sub_self, rest]
        rfl
      rw [readByte, found]
    have read2 : readByte (bytes2 ++ spare2) count = .ok byte2.toNat := by
      rw [readByte, getElem?_append_left (by omega), here2]
    rw [range_succ, foldlM_append, ih (by lia), ok_bind, foldlM_cons, combineByte, read,
      ok_bind, data2, pointed, ok_bind, read2, ok_bind, next]
    by_cases less : byte1.toNat < byte2.toNat
    · have larger : largerByte byte1 byte2 = byte2 := if_pos less
      have write : writeBytes ((List.zipWith largerByte bytes1 bytes2).take count ++
          bytes1.drop count ++ spare) count [UInt8.ofNat byte2.toNat] =
            .ok ((List.zipWith largerByte bytes1 bytes2).take count ++ [byte2] ++
              bytes1.drop (count + 1) ++ spare) := by
        have place := overwrite_append ((List.zipWith largerByte bytes1 bytes2).take count)
          (byte1 :: (bytes1.drop (count + 1) ++ spare)) [byte2]
        rw [front] at place
        rw [rest, UInt8.ofNat_toNat, writeBytes, if_pos (by
          simp only [length_append, length_cons, length_nil]
          lia), append_assoc, cons_append, place, append_assoc _ _ spare]
        rfl
      rw [if_pos less, write, larger]
      rfl
    · have larger : largerByte byte1 byte2 = byte1 := if_neg less
      rw [if_neg less, larger, rest, append_assoc _ [byte1]]
      rfl

section Estimates

variable (double : DoubleArithmetic)

variable (most : Nat) (stored1 stored2 : HllObjectData) (para : HllPara) (lastHash1 lastHash2 : Nat)

/-- The union of registers, in memory. -/
theorem hllCombineFull_represents {values1 values2 : List Nat}
    (represents1 : Represents most stored1 ⟨para, lastHash1, .full values1⟩)
    (represents2 : Represents most stored2 ⟨para, lastHash2, .full values2⟩) (exact : Prop) :
    ∃ stored', hllCombineFull double stored1 stored2 = .ok stored' ∧ Outcome double most stored'
        (Hll.hllCombineFull ⟨para, lastHash1, .full values1⟩ values1 values2) exact := by
  obtain ⟨kind1, bytes1, backed1, same1⟩ := represents1.holds
  obtain ⟨kind2, bytes2, backed2, same2⟩ := represents2.holds
  have length1 : values1.length = para.registers := represents1.sound
  have length2 : values2.length = para.registers := represents2.sound
  have size1 := congrArg List.length same1
  have size2 := congrArg List.length same2
  rw [numbers, length_map] at size1 size2
  have room := backed1.used_le
  have positive : 0 < para.registers := Nat.two_pow_pos _
  obtain ⟨spare, data, total⟩ := backed1.memory (by lia)
  have combined := combineBytes_backed backed2 bytes1 spare (by lia) bytes1.length le_rfl
  have zipLength : (List.zipWith largerByte bytes1 bytes2).length = bytes1.length := by
    grind
  rw [take_of_length_le zipLength.le, drop_length, append_nil] at combined
  have zipped : numbers (List.zipWith largerByte bytes1 bytes2) =
      List.zipWith (fun byte1 byte2 => if byte1 < byte2 then byte2 else byte1) values1 values2 := by
    rw [← same1, ← same2, numbers, numbers, numbers, map_zipWith, zipWith_map]
    congr 1
    funext first second
    rw [largerByte]
    by_cases less : first.toNat < second.toNat
    · rw [if_pos less, if_pos less]
    · rw [if_neg less, if_neg less]
  have joined : hllCombineFull double stored1 stored2 = .ok { stored1 with
      hllData := some (List.zipWith largerByte bytes1 bytes2 ++ spare)
      ndvEstimator := double.minusOne
      lastHash := 0 } := by
    rw [hllCombineFull, data, pointed, ok_bind, backed1.used, combined, ok_bind]
  refine ⟨_, joined, Outcome.of_full double most _ _ ?_⟩
  · refine ⟨represents1.para, represents1.valid, rfl, Nat.two_pow_pos 64,
      ⟨kind1, _, ?_, zipped⟩, ?_, represents1.reserved⟩
    · apply backed_of_memory spare rfl
      · rw [zipLength]
        exact backed1.used
      · rw [zipLength]
        exact total
    · show (List.zipWith _ values1 values2).length = para.registers
      rw [length_zipWith, length1, length2, Nat.min_self]

/-- The union of lists, in memory. -/
theorem hllCombineExplicit_represents (enough : 4096 ≤ most) (bounded : most ≤ 2 ^ 17)
    {stored1 stored2 : HllObjectData} {para : HllPara} {lastHash1 lastHash2 : Nat}
    {hashes1 hashes2 : List Nat}
    (represents1 : Represents most stored1 ⟨para, lastHash1, .explicit hashes1⟩)
    (represents2 : Represents most stored2 ⟨para, lastHash2, .explicit hashes2⟩)
    (limited1 : 8 * hashes1.length ≤ most) (limited2 : 8 * hashes2.length ≤ most) :
    ∃ stored' object', hllCombineExplicit double stored1 stored2 = .ok stored' ∧
      Hll.hllCombineExplicit ⟨para, lastHash1, .explicit hashes1⟩ hashes1 hashes2 = some object' ∧
      Outcome double most stored' object' True := by
  obtain ⟨kind1, backed1⟩ := represents1.holds
  obtain ⟨kind2, backed2⟩ := represents2.holds
  obtain ⟨sorted1, fit1⟩ := represents1.sound
  obtain ⟨sorted2, fit2⟩ := represents2.sound
  have used1 := backed1.used
  have used2 := backed2.used
  rw [words_length] at used1 used2
  obtain ⟨state, leftLen, newdata, spare, loop, left, rest, count, front, length⟩ := merged_backed
    backed1 backed2 fit1 fit2 (by lia)
  obtain ⟨sorted, members⟩ := mergeHashes_sorted sorted1 sorted2
  have eighth : (words (mergeHashes hashes1 hashes2)).length / 8 =
      (mergeHashes hashes1 hashes2).length := by
    rw [words_length]
    lia
  have merged : Represents most { stored1 with
      hllData := some newdata
      lenTotal := stored1.lenUsed + stored2.lenUsed
      lenUsed := (words (mergeHashes hashes1 hashes2)).length
      lastHash := 0
      ndvEstimator := double.ofNat ((words (mergeHashes hashes1 hashes2)).length / 8) }
        ⟨para, 0, .explicit (mergeHashes hashes1 hashes2)⟩ := by
    refine ⟨represents1.para, represents1.valid, rfl, Nat.two_pow_pos 64, ⟨kind1, ?_⟩, ⟨sorted, ?_⟩, ?_⟩
    · apply backed_of_memory spare (by rw [front]) rfl
      rw [← length_append, ← front]
      exact length.symm
    · intro hashval member
      obtain inFirst | inSecond := (members hashval).mp member
      · exact fit1 hashval inFirst
      · exact fit2 hashval inSecond
    · rw [capacity]
      lia
  obtain ⟨stored', object', checked, listChecked, outcome⟩ := hllExplicitCheck_represents double
    enough merged
  refine ⟨stored', object', ?_, listChecked, outcome.represents, outcome.limited, ?_⟩
  · rw [hllCombineExplicit]
    dsimp only
    rw [loop, ok_bind, left, rest, count]
    exact checked
  · intro _
    apply outcome.counted
    rw [eighth]

/-- A copy, in memory. -/
theorem hllCopy_represents {object : HllObject}
    (vacant : Vacant stored1) (represents : Represents most stored2 object)
    (limited : Limited most object) (filled : object.isEmpty = false) :
    hllCopy stored1 stored2 = .error .raised ∨ ∃ stored', hllCopy stored1 stored2 = .ok stored' ∧
        Outcome double most stored' object (Counted double stored2 object.data) := by
  -- The bytes in use are copied, whatever the form is.
  have copied : ∀ bytes, Backed stored2 bytes → hllCopy stored1 stored2 = .error .raised ∨
        ∃ memory, hllCopy stored1 stored2 = .ok { stored2 with hllData := some memory } ∧
          Backed { stored2 with hllData := some memory } bytes := by
    intro bytes backed
    have room := backed.used_le
    by_cases none : bytes.length = 0
    · refine .inl ?_
      have empty : memcpySource stored2.hllData 0 stored2.lenUsed = .error .raised ∨
          memcpySource stored2.hllData 0 stored2.lenUsed = .ok [] := by
        rw [backed.used, none]
        cases stored2.hllData with
        | none => exact .inl rfl
        | some memory =>
          refine .inr ?_
          rfl
      rw [hllCopy]
      obtain raised | nothing := empty
      · rw [raised]
        rfl
      · rw [nothing]
        rfl
    · obtain ⟨spare, data, total⟩ := backed.memory (by omega)
      have read : memcpySource stored2.hllData 0 stored2.lenUsed = .ok bytes := by
        rw [data, backed.used, memcpySource, readBytes, if_pos (by rw [length_append]; omega), slice,
          drop_zero, take_left]
      have write : memcpyS (some (List.replicate stored2.lenTotal 0)) 0 bytes =
          .ok (bytes ++ List.replicate (stored2.lenTotal - bytes.length) 0) := by
        rw [memcpyS, if_neg none]
        rw [writeBytes, length_replicate, if_pos (by omega), overwrite, take_zero,
          nil_append, Nat.zero_add, drop_replicate]
      refine .inr ⟨bytes ++ List.replicate (stored2.lenTotal - bytes.length) 0, ?_, ?_⟩
      · rw [hllCopy, if_pos (by rw [vacant.lenTotal]; lia), read, ok_bind]
        rw [write, ok_bind]
      · refine backed_of_memory (List.replicate (stored2.lenTotal - bytes.length) 0) rfl ?_ ?_
        · exact backed.used
        · grind
  -- The copy is the object with other memory.
  have done : ∀ memory, Holds { stored2 with hllData := some memory } object.data →
      Outcome double most { stored2 with hllData := some memory } object
        (Counted double stored2 object.data) := by
    intro memory holds
    refine ⟨⟨represents.para, represents.valid, represents.lastHash, represents.word, holds,
      represents.sound, represents.reserved⟩, limited, ?_⟩
    intro counted
    obtain ⟨para, lastHash, data⟩ := object
    cases data with
    | uninit | sparse values | full values => trivial
    | empty | explicit hashes => exact counted
  have holds := represents.holds
  obtain ⟨para, lastHash, data⟩ := object
  cases data with
  | uninit | empty => cases filled
  | explicit hashes =>
    obtain raised | ⟨memory, copy, backed⟩ := copied _ holds.2
    · exact .inl raised
    · exact .inr ⟨_, copy, done memory ⟨holds.1, backed⟩⟩
  | sparse values | full values =>
    obtain ⟨kind, bytes, backed, same⟩ := holds
    obtain raised | ⟨memory, copy, backed'⟩ := copied bytes backed
    · exact .inl raised
    · exact .inr ⟨_, copy, done memory ⟨kind, bytes, backed', same⟩⟩

/-- The result of joining two objects: an error, or both objects as they are afterwards. The second one
may be made full. -/
def JoinOutcome (most : Nat) (stored1 stored2 : HllObjectData) (object aHll : HllObject) : Prop :=
  hllUnion double stored1 stored2 = .error .raised ∨
    ∃ stored1' stored2' object' aHll', hllUnion double stored1 stored2 = .ok (stored1', stored2') ∧
      Hll.hllUnion object aHll = some object' ∧
      Outcome double most stored1' object'
        (Counted double stored1 object.data ∧ Counted double stored2 aHll.data) ∧
      Outcome double most stored2' aHll' (Counted double stored2 aHll.data) ∧
      (aHll' = aHll ∨ ∃ values, aHll'.data = .full values)

variable {most}

/-- Both objects are made full, in memory. -/
theorem bothFull_represents {data1 data2 : HllData}
    (represents1 : Represents most stored1 ⟨para, lastHash1, data1⟩)
    (represents2 : Represents most stored2 ⟨para, lastHash2, data2⟩)
    (started1 : data1 ≠ .uninit) (started2 : data2 ≠ .uninit) (exact : Prop) (exact2 : Prop) :
    ∃ stored1' stored2' object' aHll',
      (hllTransformFull stored1 >>= fun object => hllTransformFull stored2 >>= fun aHll =>
        hllCombineFull double object aHll >>= fun joined => .ok (joined, aHll)) =
          .ok (stored1', stored2') ∧
      (match Hll.hllTransformFull ⟨para, lastHash1, data1⟩,
          Hll.hllTransformFull ⟨para, lastHash2, data2⟩ with
        | some object1, some object2 =>
          match object1.data, object2.data with
          | .full bytes1, .full bytes2 => some (Hll.hllCombineFull object1 bytes1 bytes2)
          | _, _ => none
        | _, _ => none) = some object' ∧
      Outcome double most stored1' object' exact ∧ Outcome double most stored2' aHll' exact2 ∧
      (aHll' = ⟨para, lastHash2, data2⟩ ∨ ∃ values, aHll'.data = .full values) := by
  obtain ⟨full1, values1, made1, listMade1, result1⟩ := hllTransformFull_represents most _
    represents1 started1
  obtain ⟨full2, values2, made2, listMade2, result2⟩ := hllTransformFull_represents most _
    represents2 started2
  obtain ⟨joined, combined, outcome⟩ := hllCombineFull_represents double most full1 full2 para lastHash1
    lastHash2 result1 result2 exact
  refine ⟨joined, full2, _, _, ?_, ?_, outcome, Outcome.of_full double most _ _ result2,
    .inr ⟨values2, rfl⟩⟩
  · rw [made1, ok_bind, made2, ok_bind, combined, ok_bind]
  · simp only [listMade1, listMade2]

/-- A union, in memory. -/
theorem hllUnion_represents (enough : 4096 ≤ most) (bounded : most ≤ 2 ^ 17)
    {stored1 stored2 : HllObjectData} {object aHll : HllObject}
    (represents1 : Represents most stored1 object) (represents2 : Represents most stored2 aHll)
    (limited1 : Limited most object) (limited2 : Limited most aHll) :
    JoinOutcome double most stored1 stored2 object aHll := by
  have same2 : Outcome double most stored2 aHll (Counted double stored2 aHll.data) :=
    ⟨represents2, limited2, fun exact => exact⟩
  rw [JoinOutcome, hllUnion, Hll.hllUnion, isEmpty_represents represents1,
    isEmpty_represents represents2]
  by_cases none2 : aHll.isEmpty = true
  · rw [if_pos none2, if_pos none2]
    exact .inr ⟨stored1, stored2, object, aHll, rfl, rfl, ⟨represents1, limited1, And.left⟩, same2,
      .inl rfl⟩
  · rw [if_neg none2, if_neg none2]
    by_cases none1 : object.isEmpty = true
    · have vacant : Vacant stored1 := by
        have holds := represents1.holds
        obtain ⟨para, lastHash, data⟩ := object
        cases data with
        | uninit | empty => exact holds.2
        | explicit hashes | sparse values | full values => cases none1
      rw [if_pos none1, if_pos none1]
      obtain raised | ⟨stored', copied, outcome⟩ := hllCopy_represents double most stored1 stored2
        vacant represents2 limited2 (Bool.not_eq_true _ ▸ none2)
      · rw [raised]
        exact .inl rfl
      · rw [copied]
        exact .inr ⟨stored', stored2, aHll, aHll, rfl, rfl,
          ⟨outcome.represents, outcome.limited, fun both => outcome.counted both.2⟩, same2,
          .inl rfl⟩
    · rw [if_neg none1, if_neg none1]
      by_cases differ : object.para ≠ aHll.para
      · rw [if_pos (mt (hllpara_represents represents1 represents2).mp differ)]
        exact .inl rfl
      · rw [if_neg (not_not.mpr ((hllpara_represents represents1 represents2).mpr (not_not.mp differ))),
          if_neg differ]
        refine .inr ?_
        have para_eq := not_not.mp differ
        have holds1 := represents1.holds
        have holds2 := represents2.holds
        obtain ⟨para, lastHash1, data1⟩ := object
        obtain ⟨para', lastHash2, data2⟩ := aHll
        obtain rfl : para = para' := para_eq
        -- Unless both are lists of hashes, both are made full.
        have full (other : ¬(stored2.hlltype = .explicit ∧ stored1.hlltype = .explicit))
            (started1 : data1 ≠ .uninit) (started2 : data2 ≠ .uninit) :=
          bothFull_represents double stored1 stored2 para lastHash1 lastHash2
            represents1 represents2 started1 started2
            (Counted double stored1 data1 ∧ Counted double stored2 data2)
            (Counted double stored2 data2)
        cases data1 with
        | uninit | empty => exact absurd rfl none1
        | explicit hashes1 =>
          cases data2 with
          | uninit | empty => exact absurd rfl none2
          | explicit hashes2 =>
            obtain ⟨stored', object', joined, listJoined, outcome⟩ := hllCombineExplicit_represents
              double most enough bounded
              represents1 represents2 (limited1 hashes1 rfl) (limited2 hashes2 rfl)
            rw [if_pos ⟨holds2.1, holds1.1⟩, joined]
            exact ⟨stored', stored2, object', _, rfl, listJoined,
              ⟨outcome.represents, outcome.limited, fun _ => outcome.counted trivial⟩, same2,
              .inl rfl⟩
          | sparse values2 | full values2 =>
            have other : ¬(stored2.hlltype = .explicit ∧ stored1.hlltype = .explicit) := by
              rw [holds2.1]
              exact fun both => HllType.noConfusion both.1
            rw [if_neg other]
            exact full other HllData.noConfusion HllData.noConfusion
        | sparse values1 | full values1 =>
          have other : ¬(stored2.hlltype = .explicit ∧ stored1.hlltype = .explicit) := by
            rw [holds1.1]
            exact fun both => HllType.noConfusion both.2
          rw [if_neg other]
          cases data2 with
          | uninit | empty => exact absurd rfl none2
          | explicit hashes2 => exact full other HllData.noConfusion HllData.noConfusion
          | sparse values2 => exact full other HllData.noConfusion HllData.noConfusion
          | full values2 => exact full other HllData.noConfusion HllData.noConfusion

end Estimates

end OpenGauss.Hll.Stored
