import OpenGauss.Hll.Stored
import OpenGauss.Hll.Registers

/-!
# The bytes in use

An object is backed by some bytes if its pointer leads to as many bytes as it has reserved and the
bytes in use come first. Reading and setting a byte in use, reserving more bytes and replacing some of
the bytes in use by others never leave the reserved memory of a backed object, and the object stays
backed, by the bytes that the operation on lists gives.
-/
namespace OpenGauss.Hll.Stored

open Option List OpenGauss.Base

theorem ok_bind {α β : Type} (value : α) (next : α → Except Fault β) :
    (Except.ok value >>= next) = next value := rfl

theorem sub32_eq (left right : Nat) (ordered : right ≤ left) (small : left < 2 ^ 32) :
    sub32 left right = left - right := by
  rw [sub32]
  grind

/-- An object whose reserved memory starts with the bytes in use. -/
structure Backed (object : HllObjectData) (bytes : List UInt8) : Prop where
  used : object.lenUsed = bytes.length
  total : object.lenTotal = (object.hllData.getD []).length
  front : ∃ spare, object.hllData.getD [] = bytes ++ spare

theorem Backed.memory {object : HllObjectData} {bytes : List UInt8} (backed : Backed object bytes)
    (reserved : 0 < object.lenTotal) : ∃ spare, object.hllData = some (bytes ++ spare) ∧
      object.lenTotal = bytes.length + spare.length := by
  obtain ⟨spare, front⟩ := backed.front
  have total := backed.total
  cases data : object.hllData with
  | none =>
    rw [data, getD_none, length_nil] at total
    omega
  | some memory =>
    rw [data, getD_some] at front total
    rw [front, length_append] at total
    exact ⟨spare, by rw [front], total⟩

variable {object : HllObjectData} {bytes : List UInt8}

theorem Backed.used_le (backed : Backed object bytes) : bytes.length ≤ object.lenTotal := by
  obtain ⟨spare, front⟩ := backed.front
  rw [backed.total, front, length_append]
  exact Nat.le_add_right _ _

theorem backed_of_memory {object : HllObjectData} {bytes : List UInt8} (spare : List UInt8)
    (data : object.hllData = some (bytes ++ spare)) (used : object.lenUsed = bytes.length)
    (total : object.lenTotal = bytes.length + spare.length) : Backed object bytes := by
  refine ⟨used, ?_, spare, ?_⟩
  · rw [data, getD_some, length_append]
    exact total
  · rw [data]
    rfl

section

variable (backed : Backed object bytes)
include backed

/-- A byte is read. -/
theorem hllGetByte_backed {index byte : Nat}
    (here : (bytes.map UInt8.toNat)[index]? = some byte) : hllGetByte object index = .ok byte := by
  rw [getElem?_map, map_eq_some_iff] at here
  obtain ⟨stored, found, same⟩ := here
  have inside : index < bytes.length := (List.getElem?_eq_some_iff.mp found).1
  have room := backed.used_le
  obtain ⟨spare, data, -⟩ := backed.memory (by omega)
  have read : (bytes ++ spare)[index]? = some stored := by
    rw [getElem?_append_left inside]
    exact found
  rw [hllGetByte, backed.used, if_neg (Nat.not_le.mpr inside), data]
  dsimp only [pointed]
  rw [readByte, read]
  dsimp only
  rw [same]

/-- A byte is written. -/
theorem hllSetByte_backed (index value : Nat) (inside : index < bytes.length) :
    ∃ memory, hllSetByte object index value = .ok { object with hllData := some memory } ∧
      Backed { object with hllData := some memory } (bytes.set index (UInt8.ofNat value)) := by
  have room := backed.used_le
  obtain ⟨spare, data, total⟩ := backed.memory (by omega)
  have write : overwrite (bytes ++ spare) index [UInt8.ofNat value] =
      bytes.set index (UInt8.ofNat value) ++ spare := by
    rw [overwrite, length_singleton, take_append_of_le_length (by omega),
      drop_append_of_le_length (by lia), set_eq_take_append_cons_drop, if_pos inside]
    simp only [append_assoc, cons_append, nil_append]
  refine ⟨bytes.set index (UInt8.ofNat value) ++ spare, ?_, ?_⟩
  · rw [hllSetByte, backed.used, if_neg (Nat.not_le.mpr inside), data, pointed, ok_bind, writeBytes,
      length_singleton, if_pos (by rw [length_append]; lia), ok_bind, write]
  · refine backed_of_memory spare rfl ?_ ?_
    · rw [length_set]
      exact backed.used
    · rw [length_set]
      exact total

/-- The memory is expanded. -/
theorem hllDataExpand_backed (small : object.lenTotal + 256 ≤ maxAllocSize) :
    ∃ memory, hllDataExpand object =
        .ok { object with hllData := some memory, lenTotal := object.lenTotal + 256 } ∧
      Backed { object with hllData := some memory, lenTotal := object.lenTotal + 256 } bytes := by
  have room := backed.used_le
  by_cases zero : object.lenTotal = 0
  · have nothing : bytes = [] := length_eq_zero_iff.mp (by omega)
    refine ⟨List.replicate 256 0, ?_, ?_⟩
    · rw [hllDataExpand, zero]
      rfl
    · refine backed_of_memory (List.replicate 256 0) ?_ backed.used ?_
      · rw [nothing, nil_append]
      · rw [nothing, length_nil, length_replicate]
        dsimp only
        omega
  · obtain ⟨spare, data, total⟩ := backed.memory (by omega)
    have size : (object.lenTotal + hllExpandSize) % 2 ^ 32 = object.lenTotal + 256 := by
      rw [hllExpandSize]
      rw [maxAllocSize] at small
      lia
    have whole : (bytes ++ spare).take (object.lenTotal + 256) = bytes ++ spare :=
      take_of_length_le (by rw [length_append]; omega)
    have extra : object.lenTotal + 256 - (bytes ++ spare).length = 256 := by
      rw [length_append]
      omega
    refine ⟨bytes ++ (spare ++ List.replicate 256 0), ?_, ?_⟩
    · rw [hllDataExpand, if_neg zero, data, pointed, ok_bind]
      rw [size, if_pos small, whole, extra, append_assoc]
    · refine backed_of_memory _ rfl backed.used ?_
      rw [length_append, length_replicate]
      lia

/-- Reserving bytes for a growth changes the memory of an object only, which has room for the growth
then and is at most 255 bytes too long. -/
theorem expandFor_backed (growth : Nat) {rounds : Nat} (few : growth ≤ 256) (often : 0 < rounds)
    (word : object.lenTotal < 2 ^ 32) (small : bytes.length + growth + 256 ≤ maxAllocSize) :
    ∃ data total, expandFor growth rounds object =
        .ok { object with hllData := data, lenTotal := total } ∧
      Backed { object with hllData := data, lenTotal := total } bytes ∧
      bytes.length + growth ≤ total ∧ object.lenTotal ≤ total ∧
      (total = object.lenTotal ∨ total ≤ bytes.length + growth + 255) := by
  have room := backed.used_le
  obtain ⟨rounds, rfl⟩ := Nat.exists_eq_succ_of_ne_zero often.ne'
  have left : sub32 object.lenTotal object.lenUsed = object.lenTotal - bytes.length := by
    rw [backed.used]
    exact sub32_eq _ _ room word
  rw [Nat.succ_eq_add_one, expandFor, left]
  by_cases short : object.lenTotal - bytes.length < growth
  · obtain ⟨memory, expanded, backed'⟩ := hllDataExpand_backed backed (by omega)
    rw [if_pos short, expanded, ok_bind]
    refine ⟨_, object.lenTotal + 256, ?_, backed', by lia, by omega, .inr (by omega)⟩
    cases rounds with
    | zero => rfl
    | succ rounds =>
      have now : ¬sub32 (object.lenTotal + 256) object.lenUsed < growth := by
        rw [maxAllocSize] at small
        rw [backed.used, sub32_eq _ _ (by omega) (by lia)]
        lia
      exact if_neg now
  · rw [if_neg short]
    exact ⟨object.hllData, object.lenTotal, rfl, backed, by omega, le_rfl, .inl rfl⟩

end

/-- Bytes are moved and others put between. -/
theorem moved_memory (front origin back insert spare : List UInt8)
    (room : front.length + insert.length + back.length ≤
      (front ++ origin ++ back ++ spare).length) :
    ∃ rest, overwrite (overwrite (front ++ origin ++ back ++ spare)
        (front.length + insert.length) back) front.length insert =
      front ++ insert ++ back ++ rest := by
  have start : (overwrite (front ++ origin ++ back ++ spare) (front.length + insert.length)
      back).take front.length = front := by
    have less := congrArg (List.take front.length) (take_overwrite (front ++ origin ++ back ++ spare)
      (front.length + insert.length) back (by omega))
    rw [take_take, take_take, Nat.min_eq_left (Nat.le_add_right _ _)] at less
    rw [less, append_assoc, append_assoc, take_left]
  refine ⟨(front ++ origin ++ back ++ spare).drop (front.length + insert.length + back.length), ?_⟩
  rw [overwrite, start, drop_overwrite _ _ _ (by omega)]
  simp only [append_assoc]

/-- Replacing some bytes in use by others that are not fewer. -/
theorem hllUpdateValue_backed (front origin back insert : List UInt8)
    (backed : Backed object (front ++ origin ++ back)) (grows : origin.length ≤ insert.length)
    (filled : 0 < insert.length) (few : insert.length ≤ 256) (word : object.lenTotal < 2 ^ 32)
    (small : (front ++ origin ++ back).length + 512 ≤ maxAllocSize) :
    ∃ memory total, hllUpdateValue object front.length insert origin.length = .ok { object with
          hllData := some memory
          lenTotal := total
          lenUsed := (front ++ insert ++ back).length } ∧
      Backed { object with
          hllData := some memory
          lenTotal := total
          lenUsed := (front ++ insert ++ back).length } (front ++ insert ++ back) ∧
      object.lenTotal ≤ total ∧
      (total = object.lenTotal ∨ total ≤ (front ++ insert ++ back).length + 255) := by
  have room := backed.used_le
  have used := backed.used
  have bound : (front ++ origin ++ back).length < 2 ^ 31 := by
    rw [maxAllocSize] at small
    lia
  simp only [length_append] at room used bound
  have growth : sub32 insert.length origin.length = insert.length - origin.length :=
    sub32_eq _ _ grows (by omega)
  obtain ⟨data, total, expanded, backed', enough, larger, tight⟩ := expandFor_backed backed
    (insert.length - origin.length) (by lia)
    (Nat.succ_pos _) word (by lia)
  simp only [length_append] at enough tight
  have inside : ¬((origin.length = 0 ∧ object.lenUsed < front.length) ∨
      (0 < origin.length ∧ object.lenUsed < front.length + origin.length)) := by
    lia
  have move : sub32 (sub32 object.lenUsed front.length) origin.length = back.length := by
    rw [sub32_eq object.lenUsed front.length (by lia) (by omega), sub32_eq _ _ (by lia) (by omega)]
    omega
  obtain ⟨spare, memory, count⟩ := backed'.memory (show 0 < total by grind)
  dsimp only at memory count
  have length : (front ++ origin ++ back ++ spare).length = total := by
    rw [length_append]
    exact count.symm
  have size : (object.lenUsed + (insert.length - origin.length)) % 2 ^ 32 =
      (front ++ insert ++ back).length := by
    simp only [length_append]
    lia
  -- The bytes in use come first in the memory that is written last.
  suffices written : ∃ rest, moveBytes { object with hllData := data, lenTotal := total }
          (front.length + insert.length) (front.length + origin.length) back.length =
        .ok { object with hllData := some rest, lenTotal := total } ∧
      rest.length = total ∧
      ∃ spare', overwrite rest front.length insert = front ++ insert ++ back ++ spare' by
    obtain ⟨rest, moved, restLength, spare', final⟩ := written
    have done : memcpyS (some rest) front.length insert =
        .ok (front ++ insert ++ back ++ spare') := by
      rw [memcpyS, if_neg (by omega)]
      rw [writeBytes, if_pos (by grind), final]
    have finalLength := overwrite_length rest front.length insert (by grind)
    rw [final, length_append, restLength] at finalLength
    refine ⟨front ++ insert ++ back ++ spare', total, ?_, ?_, larger, ?_⟩
    · rw [hllUpdateValue, if_neg inside]
      dsimp only
      rw [growth, expanded, ok_bind]
      rw [move, moved, ok_bind]
      rw [done, ok_bind, size]
    · exact backed_of_memory spare' rfl rfl finalLength.symm
    · lia
  rw [moveBytes]
  by_cases moves : front.length + insert.length ≠ front.length + origin.length ∧ 0 < back.length
  · rw [if_pos moves, memory, pointed, ok_bind, readBytes, length, if_pos (by lia), ok_bind]
    have taken : slice (front ++ origin ++ back ++ spare) (front.length + origin.length)
        back.length = back := by
      rw [slice, append_assoc, ← length_append, drop_left, take_left]
    rw [taken, writeBytes, length, if_pos (by grind), ok_bind]
    refine ⟨_, rfl, ?_, moved_memory front origin back insert spare (by lia)⟩
    rw [overwrite_length _ _ _ (by lia), length]
  · have start : (front ++ origin ++ back ++ spare).take front.length = front := by
      rw [append_assoc, append_assoc, take_left]
    rw [if_neg moves, memory]
    refine ⟨front ++ origin ++ back ++ spare, rfl, length, ?_⟩
    by_cases same : insert.length = origin.length
    · have rest : (front ++ origin ++ back ++ spare).drop (front.length + origin.length) =
          back ++ spare := by
        rw [append_assoc, ← length_append, drop_left]
      refine ⟨spare, ?_⟩
      rw [overwrite, same, start, rest, ← append_assoc]
    · have nothing : back = [] := length_eq_zero_iff.mp (by lia)
      refine ⟨(front ++ origin ++ back ++ spare).drop (front.length + insert.length), ?_⟩
      rw [overwrite, start, nothing, append_nil, append_nil]

end OpenGauss.Hll.Stored
