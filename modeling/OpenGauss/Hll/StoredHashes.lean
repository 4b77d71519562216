import OpenGauss.Hll.StoredData

/-!
# Lists of hashes in memory

A list of hashes is kept as 8 bytes for each. Reading a hash, looking for the place of one by halving,
putting one in and merging two lists stay inside the memory of objects that are backed by such bytes,
and give what the operations on lists do.
-/
namespace OpenGauss.Hll.Stored

open List OpenGauss.Base

/-- The bytes of some hashes. -/
def words (hashes : List Nat) : List UInt8 := hashes.flatMap (leBytes 8)

theorem words_append (first second : List Nat) :
    words (first ++ second) = words first ++ words second := flatMap_append

theorem words_cons (hashval : Nat) (rest : List Nat) :
    words (hashval :: rest) = leBytes 8 hashval ++ words rest := flatMap_cons

theorem words_length (hashes : List Nat) : (words hashes).length = 8 * hashes.length := by
  induction hashes with
  | nil => rfl
  | cons hashval rest ih =>
    rw [words_cons, length_append, leBytes_length, length_cons]
    lia

theorem words_split {hashes : List Nat} {index hashval : Nat}
    (here : hashes[index]? = some hashval) :
    words hashes = words (hashes.take index) ++ leBytes 8 hashval ++
        words (hashes.drop (index + 1)) ∧
      (words (hashes.take index)).length = 8 * index ∧ index < hashes.length := by
  obtain ⟨inside, same⟩ := List.getElem?_eq_some_iff.mp here
  have split : hashes = hashes.take index ++ hashval :: hashes.drop (index + 1) := by
    rw [← same, getElem_cons_drop, take_append_drop]
  refine ⟨?_, ?_, inside⟩
  · conv_lhs => rw [split]
    rw [words_append, words_cons, append_assoc]
  · rw [words_length, length_take_of_le inside.le]

theorem slice_words {hashes : List Nat} (spare : List UInt8) {index hashval : Nat}
    (here : hashes[index]? = some hashval) :
    slice (words hashes ++ spare) (8 * index) 8 = leBytes 8 hashval := by
  obtain ⟨split, length, -⟩ := words_split here
  rw [slice, split, ← length, append_assoc, append_assoc, drop_left,
    take_left' (leBytes_length 8 hashval)]

variable {object : HllObjectData} {hashes : List Nat}

section

variable (backed : Backed object (words hashes))
include backed

theorem Backed.words_memory {index : Nat} (inside : index < hashes.length) :
    ∃ spare, object.hllData = some (words hashes ++ spare) ∧
      8 * index + 8 ≤ (words hashes ++ spare).length := by
  have room := backed.used_le
  have length := words_length hashes
  obtain ⟨spare, data, -⟩ := backed.memory (by lia)
  refine ⟨spare, data, ?_⟩
  rw [length_append]
  lia

theorem hllGetExplicitValue_backed (index : Nat) {hashval : Nat}
    (here : hashes[index]? = some hashval) (word : hashval < 2 ^ 64) :
    hllGetExplicitValue object (8 * index) = .ok hashval := by
  have inside := (words_split here).2.2
  obtain ⟨spare, data, room⟩ := backed.words_memory inside
  have place : 8 * index / 8 * 8 = 8 * index := by lia
  rw [hllGetExplicitValue, data, pointed, ok_bind, place, readBytes, if_pos room, ok_bind,
    slice_words spare here, leNat_leBytes 8 hashval word]

section

variable (fit : ∀ hashval ∈ hashes, hashval < 2 ^ 64)
include fit

theorem explicitValues_backed (count : Nat) (inside : count ≤ hashes.length) :
    explicitValues object count = .ok (hashes.take count) := by
  induction count with
  | zero => rfl
  | succ count ih =>
    have here : hashes[count]? = some hashes[count] := getElem?_eq_getElem inside
    have read := hllGetExplicitValue_backed backed count here (fit _ (getElem_mem inside))
    have before := ih (by omega)
    rw [explicitValues] at before
    rw [explicitValues, range_succ, mapM_append, before, mapM_cons, read, take_add_one, here]
    rfl

/-- The bound in memory is that in the list. -/
theorem upperBound_backed (hashval rounds : Nat) :
    ∀ start last, last ≤ hashes.length → upperBound object hashval rounds start last =
      .ok (Hll.upperBound hashes hashval rounds start last) := by
  induction rounds with
  | zero =>
    intro start last _
    rfl
  | succ rounds ih =>
    intro start last inside
    rw [upperBound, Hll.upperBound]
    by_cases left : start < last
    · have middle : (start + last) / 2 < hashes.length := by lia
      have read := hllGetExplicitValue_backed backed ((start + last) / 2)
        (getElem?_eq_getElem middle) (fit _ (getElem_mem middle))
      rw [Nat.mul_comm] at read
      rw [if_pos left, if_pos left]
      dsimp only
      rw [read, ok_bind, getD_eq_getElem _ _ middle]
      by_cases smaller : hashes[(start + last) / 2] ≤ hashval
      · rw [if_pos smaller, if_pos smaller]
        exact ih _ _ inside
      · rw [if_neg smaller, if_neg smaller]
        exact ih _ _ middle.le
    · rw [if_neg left, if_neg left]

theorem alreadyThere_backed
    {bindex : Nat} (hashval : Nat)
    (inside : bindex ≤ hashes.length) : alreadyThere object bindex hashval =
      .ok (decide (0 < bindex ∧ hashes.getD (bindex - 1) 0 = hashval)) := by
  rw [alreadyThere]
  by_cases front : 0 < bindex
  · have before : bindex - 1 < hashes.length := by omega
    have read := hllGetExplicitValue_backed backed (bindex - 1)
      (getElem?_eq_getElem before) (fit _ (getElem_mem before))
    rw [Nat.mul_comm] at read
    rw [if_pos front, read, ok_bind, getD_eq_getElem _ _ before]
    simp only [front, true_and]
  · rw [if_neg front]
    simp only [front, false_and, decide_false]

end

end

/-- The memory is expanded for one more hash. -/
theorem expandForHash_backed {bytes : List UInt8}
    (backed : Backed object bytes) (word : object.lenTotal < 2 ^ 32)
    (small : bytes.length + 512 ≤ maxAllocSize) :
    ∃ data total, expandForHash object = .ok { object with hllData := data, lenTotal := total } ∧
      Backed { object with hllData := data, lenTotal := total } bytes ∧
      (total = object.lenTotal ∨ total ≤ bytes.length + 263) := by
  have room := backed.used_le
  have left : sub32 object.lenTotal object.lenUsed = object.lenTotal - bytes.length := by
    rw [backed.used]
    exact sub32_eq _ _ room word
  rw [expandForHash, left]
  by_cases short : object.lenTotal - bytes.length < 8
  · obtain ⟨memory, expanded, backed'⟩ := hllDataExpand_backed backed (by lia)
    rw [if_pos short]
    exact ⟨_, object.lenTotal + 256, expanded, backed', .inr (by lia)⟩
  · rw [if_neg short]
    exact ⟨object.hllData, object.lenTotal, rfl, backed, .inl rfl⟩

/-- A word is inserted. -/
theorem insertWord_backed (backed : Backed object (words hashes)) (word : object.lenTotal < 2 ^ 32)
    (small : (words hashes).length + 512 ≤ maxAllocSize) (place hashval : Nat)
    (inside : place ≤ hashes.length) :
    ∃ memory total, hllUpdateValue object (8 * place) (leBytes 8 hashval) 0 = .ok { object with
          hllData := some memory
          lenTotal := total
          lenUsed := (words (hashes.take place ++ hashval :: hashes.drop place)).length } ∧
      Backed { object with
          hllData := some memory
          lenTotal := total
          lenUsed := (words (hashes.take place ++ hashval :: hashes.drop place)).length }
        (words (hashes.take place ++ hashval :: hashes.drop place)) ∧
      (total = object.lenTotal ∨
        total ≤ (words (hashes.take place ++ hashval :: hashes.drop place)).length + 255) := by
  have whole : words (hashes.take place) ++ [] ++ words (hashes.drop place) = words hashes := by
    rw [append_nil, ← words_append, take_append_drop]
  have front : (words (hashes.take place)).length = 8 * place := by
    rw [words_length, length_take_of_le inside]
  have after : words (hashes.take place ++ hashval :: hashes.drop place) =
      words (hashes.take place) ++ leBytes 8 hashval ++ words (hashes.drop place) := by
    rw [words_append, words_cons, append_assoc]
  have size := leBytes_length 8 hashval
  obtain ⟨memory, total, updated, backed', -, tight⟩ := hllUpdateValue_backed
    (words (hashes.take place)) [] (words (hashes.drop place)) (leBytes 8 hashval)
    (by rw [whole]; exact backed) (by rw [length_nil]; omega) (by omega) (by omega) word
    (by rw [whole]; exact small)
  rw [front] at updated
  rw [after]
  exact ⟨memory, total, updated, backed', tight⟩

theorem mergeHashes_nil (first : List Nat) : mergeHashes first [] = first := by
  cases first with
  | nil => rw [mergeHashes]
  | cons hashval rest =>
    rw [mergeHashes]
    exact cons_ne_nil _ _

/-- A word is copied. -/
theorem copyWord_backed
    (backed : Backed object (words hashes)) {front rest done : List Nat} {hashval : Nat}
    (split : hashes = front ++ hashval :: rest) {newdata : List UInt8}
    (written : newdata.take (8 * done.length) = words done)
    (room : 8 * done.length + 8 ≤ newdata.length) :
    ∃ newdata', copyWord object (8 * front.length) newdata (8 * done.length) = .ok newdata' ∧
      newdata'.length = newdata.length ∧
      newdata'.take (8 * (done ++ [hashval]).length) = words (done ++ [hashval]) := by
  have here : hashes[front.length]? = some hashval := by
    rw [split, getElem?_append_right le_rfl, Nat.sub_self]
    rfl
  have inside := (words_split here).2.2
  obtain ⟨spare, data, reach⟩ := backed.words_memory inside
  have size := leBytes_length 8 hashval
  have length := overwrite_length newdata (8 * done.length) (leBytes 8 hashval) (by lia)
  refine ⟨overwrite newdata (8 * done.length) (leBytes 8 hashval), ?_, length, ?_⟩
  · rw [copyWord, data, memcpySource]
    rw [readBytes, if_pos reach, ok_bind, slice_words spare here, writeBytes, if_pos (by lia)]
  · have taken := take_overwrite_end newdata (8 * done.length) (leBytes 8 hashval) (by lia)
    have single : words [hashval] = leBytes 8 hashval := by
      exact append_nil _
    rw [size, written] at taken
    rw [length_append, length_singleton, Nat.mul_add, taken, words_append, single]

/-- Merging two lists until one of them is at its end. -/
theorem mergeLoop_backed {object aHll : HllObjectData} {hashes1 hashes2 : List Nat}
    (backed1 : Backed object (words hashes1)) (backed2 : Backed aHll (words hashes2))
    (fit1 : ∀ hashval ∈ hashes1, hashval < 2 ^ 64) (fit2 : ∀ hashval ∈ hashes2, hashval < 2 ^ 64)
    (rounds : Nat) : ∀ (front1 rest1 front2 rest2 done : List Nat) (newdata : List UInt8),
      hashes1 = front1 ++ rest1 → hashes2 = front2 ++ rest2 →
      newdata.take (8 * done.length) = words done →
      8 * (done.length + rest1.length + rest2.length) ≤ newdata.length →
      rest1.length + rest2.length ≤ rounds →
      ∃ (front1' rest1' front2' rest2' done' : List Nat) (newdata' : List UInt8),
        mergeLoop object aHll rounds
            ⟨newdata, 8 * front1.length, 8 * front2.length, 8 * done.length⟩ =
          .ok ⟨newdata', 8 * front1'.length, 8 * front2'.length, 8 * done'.length⟩ ∧
        hashes1 = front1' ++ rest1' ∧ hashes2 = front2' ++ rest2' ∧
        newdata'.take (8 * done'.length) = words done' ∧ newdata'.length = newdata.length ∧
        8 * (done'.length + rest1'.length + rest2'.length) ≤ newdata.length ∧
        (rest1' = [] ∨ rest2' = []) ∧
        done ++ mergeHashes rest1 rest2 = done' ++ (rest1' ++ rest2') := by
  induction rounds with
  | zero =>
    intro front1 rest1 front2 rest2 done newdata split1 split2 written room enough
    obtain rfl : rest1 = [] := length_eq_zero_iff.mp (by omega)
    obtain rfl : rest2 = [] := length_eq_zero_iff.mp (by omega)
    exact ⟨front1, [], front2, [], done, newdata, rfl, split1, split2, written, rfl, room, .inl rfl,
      by rw [mergeHashes]; rfl⟩
  | succ rounds ih =>
    intro front1 rest1 front2 rest2 done newdata split1 split2 written room enough
    have length1 := congrArg List.length split1
    have length2 := congrArg List.length split2
    rw [length_append] at length1 length2
    have used1 := backed1.used
    have used2 := backed2.used
    rw [words_length] at used1 used2
    rw [mergeLoop]
    cases rest1 with
    | nil =>
      rw [length_nil] at length1
      rw [if_neg (by lia)]
      exact ⟨front1, [], front2, rest2, done, newdata, rfl, split1, split2, written, rfl, room,
        .inl rfl, by rw [mergeHashes]; rfl⟩
    | cons hashval1 rest1 =>
      cases rest2 with
      | nil =>
        rw [length_nil] at length2
        rw [if_neg (by lia)]
        exact ⟨front1, hashval1 :: rest1, front2, [], done, newdata, rfl, split1, split2, written, rfl,
          room, .inr rfl, by rw [mergeHashes_nil, append_nil]⟩
      | cons hashval2 rest2 =>
        rw [length_cons] at length1 length2 room enough
        have here1 : hashes1[front1.length]? = some hashval1 := by
          rw [split1, getElem?_append_right le_rfl, Nat.sub_self]
          rfl
        have here2 : hashes2[front2.length]? = some hashval2 := by
          rw [split2, getElem?_append_right le_rfl, Nat.sub_self]
          rfl
        have read1 := hllGetExplicitValue_backed backed1 _ here1 (fit1 _ (by
          rw [split1]
          exact mem_append_right _ mem_cons_self))
        have read2 := hllGetExplicitValue_backed backed2 _ here2 (fit2 _ (by
          rw [split2]
          exact mem_append_right _ mem_cons_self))
        obtain ⟨newdata1, copied1, same1, written1⟩ := copyWord_backed backed1
          split1 written (by omega)
        obtain ⟨newdata2, copied2, same2, written2⟩ := copyWord_backed backed2
          split2 written (by lia)
        have next1 : hashes1 = (front1 ++ [hashval1]) ++ rest1 := by
          rw [split1, append_assoc]
          rfl
        have next2 : hashes2 = (front2 ++ [hashval2]) ++ rest2 := by
          rw [split2, append_assoc]
          rfl
        have step (front : List Nat) (hashval : Nat) :
            8 * (front ++ [hashval]).length = 8 * front.length + 8 := by
          rw [length_append, length_singleton, Nat.mul_add]
        rw [if_pos (by lia), read1, ok_bind, read2, ok_bind]
        by_cases less : hashval1 < hashval2
        · obtain ⟨front1', rest1', front2', rest2', done', newdata', loop, one, two, taken, size, fits,
            ended, merged⟩ := ih (front1 ++ [hashval1]) rest1 front2 (hashval2 :: rest2)
              (done ++ [hashval1]) newdata1 next1 split2 written1
              (by rw [length_append]; grind)
              (by rw [length_cons]; grind)
          rw [step, step] at loop
          rw [if_pos less, copied1, ok_bind]
          refine ⟨front1', rest1', front2', rest2', done', newdata', loop, one, two, taken,
            size.trans same1, by lia, ended, ?_⟩
          rw [← merged, mergeHashes, if_pos less, append_assoc]
          rfl
        · by_cases greater : hashval2 < hashval1
          · obtain ⟨front1', rest1', front2', rest2', done', newdata', loop, one, two, taken, size,
              fits, ended, merged⟩ := ih front1 (hashval1 :: rest1) (front2 ++ [hashval2]) rest2
                (done ++ [hashval2]) newdata2 split1 next2 written2
                (by rw [length_cons]; grind)
                (by rw [length_cons]; grind)
            rw [step, step] at loop
            rw [if_neg less, if_pos greater, copied2, ok_bind]
            refine ⟨front1', rest1', front2', rest2', done', newdata', loop, one, two, taken,
              size.trans same2, by lia, ended, ?_⟩
            rw [← merged, mergeHashes, if_neg less, if_pos greater, append_assoc]
            rfl
          · obtain ⟨front1', rest1', front2', rest2', done', newdata', loop, one, two, taken, size,
              fits, ended, merged⟩ := ih (front1 ++ [hashval1]) rest1 (front2 ++ [hashval2]) rest2
                (done ++ [hashval1]) newdata1 next1 next2 written1
                (by rw [length_append]; grind) (by grind)
            rw [step, step, step] at loop
            rw [if_neg less, if_neg greater, copied1]
            refine ⟨front1', rest1', front2', rest2', done', newdata', loop, one, two, taken,
              size.trans same1, by lia, ended, ?_⟩
            rw [← merged, mergeHashes, if_neg less, if_neg greater, append_assoc]
            rfl

/-- The rest of a list is copied. -/
theorem copyRest_backed (backed : Backed object (words hashes)) {front rest done : List Nat}
    (split : hashes = front ++ rest) (left : 0 < rest.length) {newdata : List UInt8}
    (written : newdata.take (8 * done.length) = words done)
    (room : 8 * (done.length + rest.length) ≤ newdata.length) :
    ∃ newdata', copyRest object (8 * front.length) (8 * rest.length) newdata (8 * done.length) =
        .ok newdata' ∧ newdata'.length = newdata.length ∧
      newdata'.take (8 * (done ++ rest).length) = words (done ++ rest) := by
  have reserved := backed.used_le
  have frontLength := words_length front
  have restLength := words_length rest
  have bytes : words hashes = words front ++ words rest := by rw [split, words_append]
  have total := congrArg List.length bytes
  rw [length_append] at total
  obtain ⟨spare, data, -⟩ := backed.memory (by lia)
  have length := overwrite_length newdata (8 * done.length) (words rest) (by lia)
  have taken : slice (words hashes ++ spare) (8 * front.length) (8 * rest.length) = words rest := by
    rw [slice, bytes, ← frontLength, ← restLength, append_assoc, drop_left, take_left]
  refine ⟨overwrite newdata (8 * done.length) (words rest), ?_, length, ?_⟩
  · rw [copyRest, data, memcpySource]
    rw [readBytes, if_pos (by rw [length_append]; lia), ok_bind, taken, writeBytes,
      if_pos (by lia)]
  · have ends := take_overwrite_end newdata (8 * done.length) (words rest) (by lia)
    rw [restLength, written] at ends
    rw [length_append, Nat.mul_add, ends, words_append]

/-- Merging two lists in new memory with room for both. -/
theorem merged_backed {object aHll : HllObjectData} {hashes1 hashes2 : List Nat}
    (backed1 : Backed object (words hashes1)) (backed2 : Backed aHll (words hashes2))
    (fit1 : ∀ hashval ∈ hashes1, hashval < 2 ^ 64) (fit2 : ∀ hashval ∈ hashes2, hashval < 2 ^ 64)
    (small : object.lenUsed + aHll.lenUsed < 2 ^ 32) :
    ∃ (state : MergeState) (leftLen : Nat) (newdata spare : List UInt8),
      mergeLoop object aHll (object.lenUsed + aHll.lenUsed)
          ⟨List.replicate (object.lenUsed + aHll.lenUsed) 0, 0, 0, 0⟩ = .ok state ∧
      sub32 (sub32 (object.lenUsed + aHll.lenUsed) state.p1) state.p2 = leftLen ∧
      mergeRest object aHll state leftLen = .ok newdata ∧
      (state.p + leftLen) % 2 ^ 32 = (words (mergeHashes hashes1 hashes2)).length ∧
      newdata = words (mergeHashes hashes1 hashes2) ++ spare ∧
      newdata.length = object.lenUsed + aHll.lenUsed := by
  have used1 := backed1.used
  have used2 := backed2.used
  rw [words_length] at used1 used2
  obtain ⟨front1, rest1, front2, rest2, done, newdata, loop, split1, split2, taken, size, fits, ended,
    merged⟩ := mergeLoop_backed backed1 backed2 fit1 fit2 (object.lenUsed + aHll.lenUsed) [] hashes1 []
      hashes2 [] (List.replicate (object.lenUsed + aHll.lenUsed) 0) rfl rfl rfl
      (by rw [length_replicate, length_nil]; lia) (by lia)
  rw [length_replicate] at size fits
  rw [nil_append] at merged
  have length1 := congrArg List.length split1
  have length2 := congrArg List.length split2
  rw [length_append] at length1 length2
  have left : sub32 (sub32 (object.lenUsed + aHll.lenUsed) (8 * front1.length)) (8 * front2.length) =
      8 * (rest1 ++ rest2).length := by
    rw [sub32_eq _ (8 * front1.length) (by lia) (by omega), sub32_eq _ _ (by lia) (by lia),
      length_append]
    omega
  -- What is left of the list that is not at its end is copied.
  have rest : ∃ newdata', mergeRest object aHll
      ⟨newdata, 8 * front1.length, 8 * front2.length, 8 * done.length⟩ (8 * (rest1 ++ rest2).length) =
        .ok newdata' ∧ newdata'.length = newdata.length ∧
      newdata'.take (8 * (done ++ (rest1 ++ rest2)).length) = words (done ++ (rest1 ++ rest2)) := by
    rw [mergeRest]
    by_cases more1 : 8 * front1.length < object.lenUsed
    · have nothing : rest2 = [] := by
        obtain none | none := ended
        · rw [none, length_nil] at length1
          lia
        · exact none
      rw [if_pos more1, nothing, append_nil]
      exact copyRest_backed backed1 split1 (by lia) taken (by lia)
    · have nothing : rest1 = [] := length_eq_zero_iff.mp (by lia)
      rw [if_neg more1, nothing, nil_append]
      by_cases more2 : 8 * front2.length < aHll.lenUsed
      · rw [if_pos more2]
        exact copyRest_backed backed2 split2 (by lia) taken (by lia)
      · have nothing2 : rest2 = [] := length_eq_zero_iff.mp (by lia)
        rw [if_neg more2, nothing2, append_nil]
        exact ⟨newdata, rfl, rfl, taken⟩
  obtain ⟨newdata', copied, same, written⟩ := rest
  rw [← merged] at written
  have count := words_length (mergeHashes hashes1 hashes2)
  refine ⟨_, _, newdata', newdata'.drop (words (mergeHashes hashes1 hashes2)).length, loop, left,
    copied, ?_, ?_, same.trans size⟩
  · have whole := congrArg List.length merged
    rw [length_append, length_append] at whole
    rw [length_append]
    lia
  · rw [← count] at written
    conv_lhs => rw [← take_append_drop (words (mergeHashes hashes1 hashes2)).length newdata']
    rw [written]

end OpenGauss.Hll.Stored
