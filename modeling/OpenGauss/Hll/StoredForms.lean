import OpenGauss.Base.Doubles
import OpenGauss.Hll.StoredHashes
import OpenGauss.Hll.StoredSparse

/-!
# Changes of form in memory

Making an object sparse or full writes new data into memory that was reserved before. The module
proves that the writes stay inside: a run of zeros takes at most one byte more than the zeros of all
registers, and a list of hashes is made sparse with room for the worst next step at every time. The
new data is the one of the operation on lists.
-/
namespace OpenGauss.Hll.Stored

open List OpenGauss.Base

variable (needed : Prop) [Decidable needed] (object : HllObjectData) (para : HllPara)
  (zerocount : Nat)

theorem writeWhen_inside (memory bytes : List UInt8)
    (place : Nat) (room : place + (if needed then bytes else []).length ≤ memory.length) :
    writeWhen (decide needed) memory place bytes =
      .ok (overwrite memory place (if needed then bytes else [])) := by
  rw [writeWhen]
  by_cases yes : needed
  · rw [if_pos yes] at room
    rw [if_pos (decide_eq_true yes), if_pos yes, writeBytes, if_pos room]
  · rw [if_neg (by simpa using yes), if_neg yes, overwrite_nil]

theorem optional_length {α : Type} (needed : Prop) [Decidable needed] (value : α) :
    (if needed then [value] else []).length = if needed then 1 else 0 := by
  by_cases yes : needed
  · rw [if_pos yes, if_pos yes]
    rfl
  · rw [if_neg yes, if_neg yes]
    rfl

theorem optional_bytes (value : Nat) : (if needed then [value] else []).map UInt8.ofNat =
      if needed then [UInt8.ofNat value] else [] := by
  by_cases yes : needed
  · rw [if_pos yes, if_pos yes]
    rfl
  · rw [if_neg yes, if_neg yes]
    rfl

/-- The zeros that are left behind the bytes for 4096 of them. -/
def zeroRest (zerocount : Nat) : Nat := if 64 ≤ zerocount then zerocount % 4096 else zerocount

/-- The bytes for 4096 zeros each. -/
def zeroFull (zerocount : Nat) : Nat := if 64 ≤ zerocount then zerocount / 4096 else 0

/-- Zeros are written as full runs, a long run and a short one. -/
theorem hllSetSparseZero_parts :
    Hll.hllSetSparseZero zerocount = List.replicate (zeroFull zerocount) 63 ++
      (if 64 ≤ zeroRest zerocount then [setLongzeroValue (zeroRest zerocount)] else []) ++
      (if 0 < zeroRest zerocount % 64 then [setZeroValue (zeroRest zerocount % 64)] else []) := by
  rw [Hll.hllSetSparseZero, left_zeros, ← zeroRest, zeroFull]
  by_cases many : 64 ≤ zerocount
  · rw [if_pos many, if_pos many]
  · rw [if_neg many, if_neg many]
    rfl

theorem zeroRest_lt : zeroRest zerocount < 4096 := by
  rw [zeroRest]
  by_cases many : 64 ≤ zerocount
  · rw [if_pos many]
    omega
  · rw [if_neg many]
    omega

theorem hllSetSparseZero_fit : ∀ value ∈ Hll.hllSetSparseZero zerocount, value < 256 := by
  have rest := zeroRest_lt zerocount
  intro value member
  rw [hllSetSparseZero_parts, mem_append, mem_append] at member
  obtain (full | long) | left := member
  · rw [eq_of_mem_replicate full]
    decide
  · by_cases many : 64 ≤ zeroRest zerocount
    · rw [if_pos many, mem_singleton] at long
      have plain : setLongzeroValue (zeroRest zerocount) = zeroRest zerocount / 64 - 1 :=
        Nat.or_zero _
      rw [long, plain]
      omega
    · rw [if_neg many] at long
      exact absurd long not_mem_nil
  · by_cases few : 0 < zeroRest zerocount % 64
    · rw [if_pos few, mem_singleton] at left
      have plain : setZeroValue (zeroRest zerocount % 64) = zeroRest zerocount % 64 - 1 + 64 :=
        (or_type _ (by omega)).1
      rw [left, plain]
      omega
    · rw [if_neg few] at left
      exact absurd left not_mem_nil

/-- How many bytes zeros take. -/
theorem hllSetSparseZero_length : (Hll.hllSetSparseZero zerocount).length =
      zeroFull zerocount + (if 64 ≤ zeroRest zerocount then 1 else 0) +
        if 0 < zeroRest zerocount % 64 then 1 else 0 := by
  rw [hllSetSparseZero_parts, length_append, length_append, length_replicate,
    optional_length, optional_length]

theorem zeroRegisterBytes_eq {log2Registers : Nat} (low : 10 ≤ log2Registers)
    (high : log2Registers ≤ 16) :
    (zeroRegisterBytes log2Registers = 1 ∧ 2 ^ log2Registers ≤ 4096 ∧ 1024 ≤ 2 ^ log2Registers) ∨
      (0 < zeroRegisterBytes log2Registers ∧ zeroRegisterBytes log2Registers ≤ 16 ∧
        2 ^ log2Registers = 4096 * zeroRegisterBytes log2Registers) := by
  have all : ∀ bits : Fin 17, 10 ≤ bits.val →
      (zeroRegisterBytes bits = 1 ∧ 2 ^ bits.val ≤ 4096 ∧ 1024 ≤ 2 ^ bits.val) ∨
        (0 < zeroRegisterBytes bits ∧ zeroRegisterBytes bits ≤ 16 ∧
          2 ^ bits.val = 4096 * zeroRegisterBytes bits) := by
    decide
  exact all ⟨log2Registers, by omega⟩ low

/-- The zeros of all registers take at most one byte more than are reserved. -/
theorem hllSetSparseZero_short {log2Registers : Nat} (zerocount : Nat) (low : 10 ≤ log2Registers)
    (high : log2Registers ≤ 16) (most : zerocount ≤ 2 ^ log2Registers) :
    (Hll.hllSetSparseZero zerocount).length ≤ zeroRegisterBytes log2Registers + 1 := by
  have size := zeroRegisterBytes_eq low high
  rw [hllSetSparseZero_length, zeroFull, zeroRest]
  by_cases many : 64 ≤ zerocount
  · simp only [if_pos many]
    split
    · split
      · omega
      · lia
    · split
      · lia
      · lia
  · simp only [if_neg many]
    split
    · omega
    · omega

/-- Where there is room, the zeros are written over the memory. -/
theorem hllSetSparseZero_inside (memory : List UInt8) (place zerocount : Nat)
    (room : place + (Hll.hllSetSparseZero zerocount).length ≤ memory.length) :
    hllSetSparseZero memory place zerocount =
      .ok (overwrite memory place ((Hll.hllSetSparseZero zerocount).map UInt8.ofNat),
        (Hll.hllSetSparseZero zerocount).length) := by
  have length := hllSetSparseZero_length zerocount
  have parts := congrArg (List.map UInt8.ofNat) (hllSetSparseZero_parts zerocount)
  rw [length] at room
  rw [parts, length, map_append, map_append, optional_bytes, optional_bytes]
  have longLength := optional_length (64 ≤ zeroRest zerocount)
    (UInt8.ofNat (setLongzeroValue (zeroRest zerocount)))
  have leftLength := optional_length (0 < zeroRest zerocount % 64)
    (UInt8.ofNat (setZeroValue (zeroRest zerocount % 64)))
  have full : (if 0 < zeroFull zerocount then List.replicate (zeroFull zerocount) (63 : UInt8)
      else []) = (List.replicate (zeroFull zerocount) 63).map UInt8.ofNat := by
    by_cases some : 0 < zeroFull zerocount
    · rw [if_pos some, map_replicate]
      rfl
    · rw [if_neg some, Nat.eq_zero_of_not_pos some]
      rfl
  have fullLength : ((List.replicate (zeroFull zerocount) 63).map UInt8.ofNat).length =
      zeroFull zerocount := by
    rw [length_map, length_replicate]
  have first := writeWhen_inside (0 < zeroFull zerocount) memory
    (List.replicate (zeroFull zerocount) 63) place (by rw [full, fullLength]; lia)
  rw [full] at first
  generalize (List.replicate (zeroFull zerocount) 63).map UInt8.ofNat = start at *
  have startInside : place + start.length ≤ memory.length := by lia
  have second := writeWhen_inside (64 ≤ zeroRest zerocount) (overwrite memory place start)
    [UInt8.ofNat (setLongzeroValue (zeroRest zerocount))] (place + zeroFull zerocount)
    (by rw [longLength, overwrite_length _ _ _ startInside]; lia)
  rw [← fullLength, overwrite_overwrite _ _ _ _ startInside] at second
  generalize (if 64 ≤ zeroRest zerocount then
    [UInt8.ofNat (setLongzeroValue (zeroRest zerocount))] else []) = middle at *
  have middleInside : place + (start ++ middle).length ≤ memory.length := by
    rw [length_append]
    lia
  have third := writeWhen_inside (0 < zeroRest zerocount % 64)
    (overwrite memory place (start ++ middle))
    [UInt8.ofNat (setZeroValue (zeroRest zerocount % 64))] (place + (start ++ middle).length)
    (by rw [leftLength, overwrite_length _ _ _ middleInside, length_append]; lia)
  rw [overwrite_overwrite _ _ _ _ middleInside] at third
  have index : (if 64 ≤ zeroRest zerocount then zeroFull zerocount + 1 else zeroFull zerocount) =
      (start ++ middle).length := by
    rw [length_append, longLength, fullLength]
    by_cases many : 64 ≤ zeroRest zerocount
    · rw [if_pos many, if_pos many]
    · rw [if_neg many, if_neg many]
      rfl
  rw [hllSetSparseZero]
  dsimp only
  rw [← zeroFull, ← zeroRest, left_zeros, index, first, ok_bind, ← fullLength, second, ok_bind, third,
    ok_bind, length_append, longLength]
  by_cases few : 0 < zeroRest zerocount % 64
  · simp only [if_pos few]
  · simp only [if_neg few]
    rfl

/-- Every byte stands for a register at least. -/
theorem length_le_units {values : List Nat} (used : UsedTypes values) :
    values.length ≤ (units values).length := by
  induction values with
  | nil => exact Nat.zero_le _
  | cons byte rest ih =>
    have here := byteUnits_pos byte (used byte mem_cons_self)
    have behind := ih fun other member => used other (mem_cons_of_mem _ member)
    rw [units_cons, length_append, length_cons]
    omega

/-- An empty object becomes one run of zeros. -/
theorem hllEmptyToSparse_backed
    (low : 10 ≤ object.hllpara.log2Registers) (high : object.hllpara.log2Registers ≤ 16) :
    ∃ bytes, hllEmptyToSparse object = .ok { object with
        hllData := some bytes
        lenTotal := bytes.length
        lenUsed := bytes.length
        hlltype := .sparse } ∧
      numbers bytes = Hll.hllEmptyToSparse object.hllpara.toPara ∧ bytes.length ≤ 16 := by
  have size := zeroRegisterBytes_eq low high
  have shape : Hll.hllEmptyToSparse object.hllpara.toPara =
      if 1 < zeroRegisterBytes object.hllpara.log2Registers then
        List.replicate (zeroRegisterBytes object.hllpara.log2Registers) 63
      else [setLongzeroValue (2 ^ object.hllpara.log2Registers)] := rfl
  rw [hllEmptyToSparse, shape]
  generalize zeroRegisterBytes object.hllpara.log2Registers = nbyte at size ⊢
  have whole (bytes : List UInt8) (length : bytes.length = nbyte) :
      writeBytes (List.replicate nbyte 0) 0 bytes = .ok bytes := by
    rw [writeBytes, length_replicate, if_pos (by omega), overwrite, Nat.zero_add,
      length, drop_of_length_le (by rw [length_replicate]), append_nil]
    rfl
  by_cases several : 1 < nbyte
  · have length : (List.replicate nbyte (63 : UInt8)).length = nbyte := length_replicate
    refine ⟨List.replicate nbyte 63, ?_, ?_, ?_⟩
    · rw [if_pos several, whole _ length, ok_bind, length]
    · rw [if_pos several, numbers, map_replicate]
      rfl
    · omega
  · have one : nbyte = 1 := by lia
    have plain : setLongzeroValue (2 ^ object.hllpara.log2Registers) =
        2 ^ object.hllpara.log2Registers / 64 - 1 := Nat.or_zero _
    refine ⟨[UInt8.ofNat (setLongzeroValue (2 ^ object.hllpara.log2Registers))], ?_, ?_, ?_⟩
    · rw [one]
      rfl
    · rw [if_neg several, numbers, map_singleton, UInt8.toNat_ofNat_of_lt' (by
        show setLongzeroValue (2 ^ object.hllpara.log2Registers) < 256
        omega)]
    · rw [length_singleton]
      omega

theorem overwrite_append (front rest patch : List UInt8) :
    overwrite (front ++ rest) front.length patch = front ++ patch ++ rest.drop patch.length := by
  rw [overwrite, take_left, ← drop_drop, drop_left]

/-- New data of runs in memory: the runs come first, and there is room for the worst next step. -/
structure Drafts (draft : SparseDraft) (sparseMinsize : Nat) (state : List Nat × Int) : Prop where
  data : ∃ spare, draft.newdata = state.1.map UInt8.ofNat ++ spare
  index : draft.sparseindex = state.1.length
  last : draft.lastindex = state.2
  fit : ∀ value ∈ state.1, value < 256
  room : draft.sparseindex + sparseMinsize ≤ draft.newdata.length
  tight : draft.newdata.length ≤ draft.sparseindex + sparseMinsize + 255

/-- Another hash behind the runs of the hashes before it, in memory. -/
theorem sparseFromHash_drafts (low : 10 ≤ para.log2Registers)
    (high : para.log2Registers ≤ 16) {hashes bytes : List Nat} {next hashval : Nat}
    (word : hashval < 2 ^ 64) (runs : RunsFor para hashes bytes next)
    (order : next ≤ registerOf para hashval + 1) {draft : SparseDraft}
    (drafts : Drafts draft (zeroRegisterBytes para.log2Registers + 2) (bytes, (next : Int) - 1)) :
    ∃ draft', sparseFromHash para (zeroRegisterBytes para.log2Registers + 2) draft hashval =
        .ok draft' ∧ Drafts draft' (zeroRegisterBytes para.log2Registers + 2)
        (explicitToSparseStep para (bytes, (next : Int) - 1) hashval) := by
  have inside := registerOf_lt para (by omega) word
  have most := valueOf_le para hashval
  have size := zeroRegisterBytes_eq low high
  have registers : para.registers ≤ 65536 := Nat.pow_le_pow_right (by decide) high
  have small := length_le_units runs.used
  have units := runs.length
  have bound := runs.bound
  obtain ⟨spare, data⟩ := drafts.data
  have index := drafts.index
  have last := drafts.last
  have room := drafts.room
  have tight := drafts.tight
  dsimp only at data index last
  rw [explicitToSparseStep_eq, sparseFromHash]
  dsimp only
  rw [← registerOf, ← valueOf, last]
  by_cases zero : valueOf para hashval = 0
  · rw [if_pos zero, if_pos zero]
    exact ⟨draft, rfl, drafts⟩
  · have dense := (setDenseValue_units (valueOf para hashval) (by lia) most).2.2
    rw [if_neg zero, if_neg zero]
    by_cases same : (registerOf para hashval : Int) = (next : Int) - 1
    · obtain ⟨-, front, old, split, oldLow, oldHigh⟩ := runs.last (by lia)
      have oldDense := (setDenseValue_units old oldLow oldHigh).2.2
      have lastByte : bytes.getLast?.getD 0 = setDenseValue old := by
        rw [split, getLast?_concat]
        rfl
      have before : sub32 draft.sparseindex 1 = (front.map UInt8.ofNat).length := by
        have length := congrArg List.length split
        rw [length_append, length_singleton] at length
        rw [sub32_eq _ _ (by lia) (by lia), length_map]
        lia
      have memory : draft.newdata = front.map UInt8.ofNat ++
          ([UInt8.ofNat (setDenseValue old)] ++ spare) := by
        rw [data, split, map_append, append_assoc]
        rfl
      have read : readByte draft.newdata (front.map UInt8.ofNat).length = .ok (setDenseValue old) := by
        have here : draft.newdata[(front.map UInt8.ofNat).length]? =
            some (UInt8.ofNat (setDenseValue old)) := by
          rw [memory, getElem?_append_right le_rfl, Nat.sub_self]
          rfl
        rw [readByte, here]
        dsimp only
        rw [UInt8.toNat_ofNat_of_lt' (by
          show setDenseValue old < 256
          lia)]
      rw [if_pos same, if_pos same, lastByte, before, read, ok_bind]
      by_cases larger : setDenseValue old < setDenseValue (valueOf para hashval)
      · have write : writeBytes draft.newdata (front.map UInt8.ofNat).length
            [UInt8.ofNat (setDenseValue (valueOf para hashval))] =
              .ok (front.map UInt8.ofNat ++ [UInt8.ofNat (setDenseValue (valueOf para hashval))] ++
                spare) := by
          rw [writeBytes, memory, if_pos (by simp only [length_append, length_singleton]; lia),
            overwrite_append]
          rfl
        have length := congrArg List.length memory
        rw [if_pos larger, if_pos larger, write, ok_bind]
        refine ⟨_, rfl, ⟨spare, ?_⟩, ?_, rfl, ?_, ?_, ?_⟩
        · rw [split, dropLast_concat, map_append]
          rfl
        · rw [split, dropLast_concat]
          dsimp only
          rw [index, split, length_append, length_append]
          rfl
        · intro value member
          rw [split, dropLast_concat] at member
          obtain inFront | new := mem_append.mp member
          · exact drafts.fit value (by rw [split]; exact mem_append_left _ inFront)
          · rw [mem_singleton.mp new]
            lia
        · simp only [length_append, length_singleton] at length ⊢
          lia
        · simp only [length_append, length_singleton] at length ⊢
          lia
      · rw [if_neg larger, if_neg larger]
        refine ⟨draft, rfl, ⟨spare, data⟩, index, last, drafts.fit, room, tight⟩
    · have count : ((registerOf para hashval : Int) - ((next : Int) - 1) - 1).toNat =
          registerOf para hashval - next := by lia
      have wrapped : (((registerOf para hashval : Int) - ((next : Int) - 1) - 1) % 2 ^ 32).toNat =
          registerOf para hashval - next := by
        rw [Int.emod_eq_of_lt (by lia) (by lia), count]
      have short := hllSetSparseZero_short (registerOf para hashval - next) low high
        (by rw [HllPara.registers] at inside; lia)
      have fit := hllSetSparseZero_fit (registerOf para hashval - next)
      have front : (bytes.map UInt8.ofNat).length = draft.sparseindex := by
        rw [length_map, index]
      have zeros := hllSetSparseZero_inside draft.newdata draft.sparseindex
        (registerOf para hashval - next) (by lia)
      rw [if_neg same, if_neg same, wrapped, count]
      generalize Hll.hllSetSparseZero (registerOf para hashval - next) = run at short fit zeros ⊢
      have runLength : (run.map UInt8.ofNat).length = run.length := length_map _
      have nextPlace : draft.sparseindex + run.length =
          draft.sparseindex + (run.map UInt8.ofNat).length := by rw [runLength]
      have overwritten := overwrite_length draft.newdata draft.sparseindex (run.map UInt8.ofNat)
        (by lia)
      have write : writeBytes (overwrite draft.newdata draft.sparseindex (run.map UInt8.ofNat))
          (draft.sparseindex + run.length) [UInt8.ofNat (setDenseValue (valueOf para hashval))] =
            .ok (overwrite draft.newdata draft.sparseindex
              (run.map UInt8.ofNat ++ [UInt8.ofNat (setDenseValue (valueOf para hashval))])) := by
        rw [writeBytes, overwritten, length_singleton, if_pos (by lia), nextPlace,
          overwrite_overwrite _ _ _ _ (by lia)]
      have final : overwrite draft.newdata draft.sparseindex
          (run.map UInt8.ofNat ++ [UInt8.ofNat (setDenseValue (valueOf para hashval))]) =
            (bytes ++ run ++ [setDenseValue (valueOf para hashval)]).map UInt8.ofNat ++
              spare.drop (run.length + 1) := by
        rw [data, ← front, overwrite_append, length_append, runLength, length_singleton,
          map_append, map_append, map_singleton]
        simp only [append_assoc]
      have finalLength := overwrite_length draft.newdata draft.sparseindex
        (run.map UInt8.ofNat ++ [UInt8.ofNat (setDenseValue (valueOf para hashval))])
        (by rw [length_append, length_singleton]; lia)
      rw [zeros, ok_bind]
      dsimp only
      rw [write, ok_bind, final]
      rw [final] at finalLength
      refine ⟨_, rfl, ⟨_, append_assoc _ _ _⟩, ?_, rfl, ?_, ?_, ?_⟩
      · simp only [length_append, length_singleton]
        lia
      · intro other member
        obtain old | new := mem_append.mp member
        · obtain inBytes | inRun := mem_append.mp old
          · exact drafts.fit other inBytes
          · exact fit other inRun
        · rw [mem_singleton.mp new]
          lia
      · dsimp only
        rw [length_append, finalLength]
        split
        · rw [length_replicate, hllExpandSize]
          lia
        · rw [length_nil]
          lia
      · dsimp only
        rw [length_append, finalLength]
        split
        · rw [length_replicate, hllExpandSize]
          lia
        · rw [length_nil]
          lia

/-- The draft in memory is the list that the mathematical one builds. -/
theorem sparseDraft_backed (low : 10 ≤ para.log2Registers)
    (high : para.log2Registers ≤ 16) {hashes : List Nat} (sorted : hashes.Pairwise (· < ·))
    (fit : ∀ hashval ∈ hashes, hashval < 2 ^ 64) :
    ∃ (draft : SparseDraft) (bytes : List Nat) (next : Nat),
      hashes.foldlM (sparseFromHash para (zeroRegisterBytes para.log2Registers + 2))
        ⟨List.replicate (zeroRegisterBytes para.log2Registers + 2) 0, 0, -1⟩ = .ok draft ∧
      hashes.foldl (explicitToSparseStep para) ([], -1) = (bytes, (next : Int) - 1) ∧
      RunsFor para hashes bytes next ∧
      Drafts draft (zeroRegisterBytes para.log2Registers + 2) (bytes, (next : Int) - 1) := by
  induction hashes using List.reverseRecOn with
  | nil =>
    obtain ⟨bytes, next, state, runs⟩ := explicitToSparse_runs para (by omega) List.Pairwise.nil fit
    obtain ⟨rfl, last⟩ := Prod.mk.inj state
    refine ⟨_, [], next, rfl, state, runs, ⟨_, rfl⟩, rfl, last, ?_, ?_, ?_⟩
    · intro value member
      exact absurd member not_mem_nil
    · dsimp only
      rw [length_replicate]
      omega
    · rw [length_replicate]
      omega
  | append_singleton hashes hashval ih =>
    rw [pairwise_append] at sorted
    obtain ⟨draft, bytes, next, folded, state, runs, drafts⟩ := ih sorted.1
      fun other member => fit other (mem_append_left _ member)
    have word := fit hashval (mem_append_right _ mem_cons_self)
    have behind : ∀ other ∈ hashes, other < hashval :=
      fun other member => sorted.2.2 other member hashval mem_cons_self
    obtain ⟨bytes', next', step, runs'⟩ := explicitToSparseStep_runs para (by omega) word
      behind runs
    obtain ⟨draft', written, drafts'⟩ := sparseFromHash_drafts para low high
      word runs (runs.order behind) drafts
    rw [step] at drafts'
    refine ⟨draft', bytes', next', ?_, ?_, runs', drafts'⟩
    · rw [foldlM_append, folded, ok_bind, foldlM_cons, written]
      rfl
    · rw [foldl_append, state]
      exact step

/-- A list of hashes becomes the runs of its registers. -/
theorem hllExplicitToSparse_backed {hashes : List Nat}
    (backed : Backed object (words hashes)) (low : 10 ≤ object.hllpara.log2Registers)
    (high : object.hllpara.log2Registers ≤ 16) (sorted : hashes.Pairwise (· < ·))
    (fit : ∀ hashval ∈ hashes, hashval < 2 ^ 64) :
    ∃ bytes spare, hllExplicitToSparse object = .ok { object with
        hllData := some (bytes ++ spare)
        lenTotal := (bytes ++ spare).length
        lenUsed := bytes.length
        hlltype := .sparse } ∧
      numbers bytes = Hll.hllExplicitToSparse object.hllpara.toPara hashes ∧
      (bytes ++ spare).length ≤ bytes.length + 273 := by
  have size := zeroRegisterBytes_eq low high
  have used := backed.used
  rw [words_length] at used
  have count : object.lenUsed / 8 = hashes.length := by lia
  have read := explicitValues_backed backed fit hashes.length le_rfl
  rw [take_length] at read
  obtain ⟨draft, bytes, next, folded, state, runs, drafts⟩ := sparseDraft_backed
    object.hllpara.toPara low high sorted fit
  obtain ⟨spare, data⟩ := drafts.data
  have index := drafts.index
  have last := drafts.last
  have room := drafts.room
  have tight := drafts.tight
  have bound := runs.bound
  have registers : object.hllpara.toPara.registers = 2 ^ object.hllpara.log2Registers := rfl
  have zerocount : ((((2 : Int) ^ object.hllpara.log2Registers) - draft.lastindex - 1) %
      2 ^ 32).toNat = object.hllpara.toPara.registers - next := by
    lia
  have listCount : ((object.hllpara.toPara.registers : Int) - ((next : Int) - 1) - 1).toNat =
      object.hllpara.toPara.registers - next := by grind
  have shape : Hll.hllExplicitToSparse object.hllpara.toPara hashes =
      bytes ++ Hll.hllSetSparseZero (object.hllpara.toPara.registers - next) := by
    rw [Hll.hllExplicitToSparse, state, listCount]
  have short := hllSetSparseZero_short (object.hllpara.toPara.registers - next) low high (by grind)
  have runFit := hllSetSparseZero_fit (object.hllpara.toPara.registers - next)
  have minsize : zeroRegisterBytes object.hllpara.toPara.log2Registers =
      zeroRegisterBytes object.hllpara.log2Registers := rfl
  rw [minsize] at room tight folded
  have zeros := hllSetSparseZero_inside draft.newdata draft.sparseindex
    (object.hllpara.toPara.registers - next) (by lia)
  rw [shape]
  generalize Hll.hllSetSparseZero (object.hllpara.toPara.registers - next) = run at short runFit zeros ⊢
  have front : (bytes.map UInt8.ofNat).length = draft.sparseindex := by
    rw [length_map, index]
  have runLength : (run.map UInt8.ofNat).length = run.length := length_map _
  have final : overwrite draft.newdata draft.sparseindex (run.map UInt8.ofNat) =
      (bytes ++ run).map UInt8.ofNat ++ spare.drop run.length := by
    rw [data, ← front, overwrite_append, runLength, map_append]
  have length := overwrite_length draft.newdata draft.sparseindex (run.map UInt8.ofNat) (by lia)
  have whole : ((bytes ++ run).map UInt8.ofNat).length = draft.sparseindex + run.length := by
    rw [length_map, length_append, index]
  rw [final] at zeros length
  refine ⟨(bytes ++ run).map UInt8.ofNat, spare.drop run.length, ?_, ?_, ?_⟩
  · rw [hllExplicitToSparse, count, read, ok_bind, folded, ok_bind, zerocount]
    dsimp only
    rw [zeros, ok_bind, whole]
  · apply numbers_ofNat
    intro value member
    obtain old | new := mem_append.mp member
    · exact drafts.fit value old
    · exact runFit value new
  · lia

/-- The registers of a list of hashes, in memory. -/
theorem fullFromHashes_backed (few : para.log2Registers ≤ 64) (hashes : List Nat)
    (fit : ∀ hashval ∈ hashes, hashval < 2 ^ 64) :
    ∃ newdata, hashes.foldlM (fullFromHash para) (List.replicate (2 ^ para.log2Registers) 0) =
        .ok newdata ∧ numbers newdata = explicitToFull para hashes := by
  induction hashes using List.reverseRecOn with
  | nil =>
    refine ⟨List.replicate (2 ^ para.log2Registers) 0, rfl, ?_⟩
    rw [numbers, map_replicate]
    rfl
  | append_singleton hashes hashval ih =>
    obtain ⟨newdata, folded, same⟩ := ih fun other member => fit other (mem_append_left _ member)
    have inside := registerOf_lt para few (fit hashval (mem_append_right _ mem_cons_self))
    have most := valueOf_le para hashval
    have length := congrArg List.length same
    rw [numbers, length_map, explicitToFull_length] at length
    refine ⟨newdata.set (registerOf para hashval) (UInt8.ofNat (valueOf para hashval)), ?_, ?_⟩
    · have write : overwrite newdata (registerOf para hashval)
          [UInt8.ofNat (valueOf para hashval)] =
            newdata.set (registerOf para hashval) (UInt8.ofNat (valueOf para hashval)) := by
        rw [set_eq_take_append_cons_drop, if_pos (by omega), overwrite,
          append_assoc]
        rfl
      rw [foldlM_append, folded, ok_bind, foldlM_cons, fullFromHash, ← registerOf, ← valueOf,
        writeBytes, length_singleton, if_pos (by omega), write]
      rfl
    · rw [explicitToFull_concat, ← same, numbers, numbers, map_set, UInt8.toNat_ofNat_of_lt' (by
        show valueOf para hashval < 256
        omega)]

/-- The registers of some bytes of runs, in memory. -/
theorem fullFromBytes_backed {object : HllObjectData} {bytes : List UInt8}
    (backed : Backed object bytes) {size : Nat} (used : UsedTypes (numbers bytes))
    (length : (units (numbers bytes)).length = size) (count : Nat) (inside : count ≤ bytes.length) :
    ∃ newdata, (List.range count).foldlM (fullFromByte object) (List.replicate size 0, 0) =
        .ok (newdata, (units ((numbers bytes).take count)).length) ∧
      numbers newdata = units ((numbers bytes).take count) ++
        List.replicate (size - (units ((numbers bytes).take count)).length) 0 := by
  induction count with
  | zero =>
    refine ⟨List.replicate size 0, rfl, ?_⟩
    rw [numbers, map_replicate, take_zero]
    rfl
  | succ count ih =>
    obtain ⟨newdata, folded, same⟩ := ih (by omega)
    have total : (numbers bytes).length = bytes.length := length_map _
    obtain ⟨byte, here⟩ : ∃ byte, (numbers bytes)[count]? = some byte :=
      ⟨_, getElem?_eq_getElem (by omega)⟩
    have next : (numbers bytes).take (count + 1) = (numbers bytes).take count ++ [byte] := by
      rw [take_add_one, here]
      rfl
    have split : units (numbers bytes) = units ((numbers bytes).take count) ++ byteUnits byte ++
        units ((numbers bytes).drop (count + 1)) := by
      conv_lhs => rw [← take_append_drop (count + 1) (numbers bytes), units_append, next,
        units_append, units_singleton]
    have sizes := congrArg List.length split
    rw [length, length_append, length_append] at sizes
    have kind := used byte (mem_of_getElem? here)
    rw [range_succ, foldlM_append, folded, ok_bind, foldlM_cons, fullFromByte,
      hllGetByte_backed backed here, ok_bind, next, units_append, units_singleton]
    generalize units ((numbers bytes).take count) = front at *
    have zeros (run : Nat) (fits : front.length + run ≤ size) :
        front ++ List.replicate (size - front.length) 0 =
          front ++ List.replicate run 0 ++ List.replicate (size - (front.length + run)) 0 := by
      rw [append_assoc, replicate_append_replicate]
      congr 2
      lia
    obtain zero | one | two : byteType byte = 0 ∨ byteType byte = 1 ∨ byteType byte = 2 := by lia
    · have run : byteUnits byte = List.replicate (byteGetValue byte * 64) 0 := by
        simp only [byteUnits, zero, Nat.mul_comm]
      rw [run, length_replicate] at sizes
      rw [zero, run, length_append, length_replicate, ← zeros _ (by lia)]
      exact ⟨newdata, rfl, same⟩
    · have run : byteUnits byte = List.replicate (byteGetValue byte) 0 := by
        simp only [byteUnits, one]
      rw [run, length_replicate] at sizes
      rw [one, run, length_append, length_replicate, ← zeros _ (by omega)]
      exact ⟨newdata, rfl, same⟩
    · have single : byteUnits byte = [byteGetValue byte] := by
        simp only [byteUnits, two]
      have most : byteGetValue byte ≤ 64 := by
        rw [byteGetValue]
        lia
      rw [single, length_singleton] at sizes
      have newLength := congrArg List.length same
      rw [numbers, length_map, length_append, length_replicate] at newLength
      have write : overwrite newdata front.length [UInt8.ofNat (byteGetValue byte)] =
          newdata.set front.length (UInt8.ofNat (byteGetValue byte)) := by
        rw [set_eq_take_append_cons_drop, if_pos (by omega), overwrite, length_singleton,
          append_assoc]
        rfl
      rw [two, single, length_append, length_singleton]
      refine ⟨newdata.set front.length (UInt8.ofNat (byteGetValue byte)), ?_, ?_⟩
      · show ((writeBytes newdata front.length [UInt8.ofNat (byteGetValue byte)] >>= fun newdata' =>
          .ok (newdata', front.length + 1)) >>= fun state =>
            List.foldlM (fullFromByte object) state []) = _
        rw [writeBytes, length_singleton, if_pos (by omega), ok_bind, write]
        rfl
      · have rest : List.replicate (size - front.length) 0 =
            0 :: List.replicate (size - (front.length + 1)) (0 : Nat) := by
          rw [← replicate_succ]
          congr 1
          omega
        rw [numbers, map_set, ← numbers, same, set_append_right _ _ le_rfl, Nat.sub_self, rest,
          set_cons_zero, UInt8.toNat_ofNat_of_lt' (by
            show byteGetValue byte < 256
            omega), append_assoc]
        rfl

/-- What is written into a scratch array of a size while a register is set: it stays inside the array,
every count and value fits the bits it is encoded in, and the bytes are not fewer than those they
replace. -/
def StaysInScratch (size : Nat) (result : Except Fault (Scratch × Nat)) : Prop :=
  ∃ bytes, result = .ok bytes ∧ bytes.1.index ≤ size ∧ bytes.2 ≤ bytes.1.index ∧
    bytes.1.requests.length = bytes.1.index ∧ ∀ request ∈ bytes.1.requests, InUnits request

/-- A replacement is made within the scratch bytes. -/
theorem Replacement.stays {values after : List Nat} {place size : Nat} {bytes : Scratch × Nat}
    (replacement : Replacement values place size bytes after) :
    StaysInScratch size (.ok bytes) := by
  obtain ⟨insert, written, short, -, grows, -⟩ := replacement.written
  have index := written.index_eq
  exact ⟨bytes, rfl, by omega, by omega, written.count, written.units⟩

/-- The bytes of runs in memory that stand for all registers. -/
structure RunsInMemory (object : HllObjectData) (bytes : List UInt8) : Prop where
  backed : Backed object bytes
  used : UsedTypes (numbers bytes)
  total : (units (numbers bytes)).length = 2 ^ object.hllpara.log2Registers

/-- Setting a register of an object in memory. -/
structure SetsRegister (double : DoubleArithmetic) (object : HllObjectData) (bytes : List UInt8)
    (registerIndex value : Nat) (unit : Nat × Nat) : Prop where
  found : hllGetRegisterUnit object registerIndex = .ok unit
  set : ∃ after bytes', hllUpdateSparseValue double object unit.1 unit.2 value = .ok after ∧
    after.hllpara = object.hllpara ∧ RunsInMemory after bytes' ∧
    units (numbers bytes') = (units (numbers bytes)).set registerIndex
      (max value ((units (numbers bytes)).getD registerIndex 0))
  five : ∀ byte, hllGetByte object unit.1 = .ok byte → byteType byte = 0 →
    StaysInScratch 5 (type1Bytes object unit.1 unit.2 value)
  three : ∀ byte, hllGetByte object unit.1 = .ok byte → byteType byte = 1 →
    StaysInScratch 3 (type2Bytes object unit.1 unit.2 value)

/-- Setting a register of runs in memory sets it and stays inside. -/
theorem setsRegister_of_runs (double : DoubleArithmetic) {object : HllObjectData}
    {bytes : List UInt8} (runs : RunsInMemory object bytes) (word : object.lenTotal < 2 ^ 32)
    (valid : hllCheckPararange object.hllpara = true) {registerIndex value : Nat}
    (inside : registerIndex < 2 ^ object.hllpara.log2Registers) (low : 1 ≤ value)
    (high : value ≤ 64) : ∃ unit, SetsRegister double object bytes registerIndex value unit := by
  obtain ⟨backed, used, total⟩ := runs
  have few : 2 ^ object.hllpara.log2Registers ≤ 2 ^ 16 := by
    simp only [hllCheckPararange, Hll.hllCheckPararange, Bool.and_eq_true, decide_eq_true_eq] at valid
    exact Nat.pow_le_pow_right (by decide) valid.1.1.1.2
  have short := length_le_units used
  rw [total, numbers, length_map] at short
  obtain ⟨front, byte, back, split, above, below, found⟩ := hllGetRegisterUnit_finds (numbers bytes)
    registerIndex used (by rw [total]; exact inside)
  have kind := used byte (by rw [split]; exact mem_append_right _ mem_cons_self)
  have here : (bytes.map UInt8.toNat)[front.length]? = some byte := by
    rw [← numbers, split, getElem?_append_right le_rfl, Nat.sub_self]
    rfl
  have read := hllGetByte_backed backed here
  obtain ⟨after, bytes', updated, changed, listUpdated⟩ := hllUpdateSparseValue_backed double backed
    word (by rw [maxAllocSize]; lia) (registerIndex - (units front).length) split
    kind (by omega) low high
  obtain ⟨listAfter, same, types, newUnits⟩ := hllUpdateSparseValue_units front back
    (registerIndex - (units front).length) (split ▸ used) (by omega) low high
  rw [← split] at same newUnits
  rw [listUpdated] at same
  obtain rfl := Option.some.inj same
  rw [Nat.add_sub_cancel' above] at newUnits
  refine ⟨(front.length, registerIndex - (units front).length), ?_, ?_, ?_, ?_⟩
  · rw [hllGetRegisterUnit_backed backed, found]
    rfl
  · refine ⟨after, bytes', updated, changed.hllpara, ⟨changed.backed, types, ?_⟩, newUnits⟩
    rw [newUnits, length_set, total, changed.hllpara]
  · intro other again zeros
    obtain rfl := Except.ok.inj (read.symm.trans again)
    have run : (byteUnits byte).length = 64 * byteGetValue byte := by
      simp only [byteUnits, zeros, length_replicate]
    obtain ⟨result, encoded, replacement⟩ := type1Bytes_backed backed (by lia)
      (registerIndex - (units front).length) split (by grind) low high
    rw [encoded]
    exact replacement.stays
  · intro other again zeros
    obtain rfl := Except.ok.inj (read.symm.trans again)
    have run : (byteUnits byte).length = byteGetValue byte := by
      simp only [byteUnits, zeros, length_replicate]
    obtain ⟨result, encoded, replacement⟩ := type2Bytes_backed backed
      (registerIndex - (units front).length) split (by omega) low high
    rw [encoded]
    exact replacement.stays

/-- Setting a register in runs sets this register to the larger value and no other one, with at most
five or three bytes in between that fit their bits and their array. The runs of an empty object and of
a list of hashes stand for all registers, and a run of zeros is written into the bytes that are
reserved for it. -/
theorem sparse_updates_stay_inside (double : DoubleArithmetic) (para : HllParaBytes)
    (valid : hllCheckPararange para = true) :
    (∀ (object : HllObjectData) (bytes : List UInt8), object.hllpara = para →
      object.lenTotal < 2 ^ 32 → RunsInMemory object bytes →
      ∀ registerIndex < 2 ^ para.log2Registers, ∀ value, 1 ≤ value →
        value ≤ 64 - para.log2Registers →
          ∃ unit, SetsRegister double object bytes registerIndex value unit) ∧
    (∀ object : HllObjectData, object.hllpara = para →
      ∃ after bytes, hllEmptyToSparse object = .ok after ∧ after.hllpara = para ∧
        RunsInMemory after bytes) ∧
    (∀ (object : HllObjectData) (hashes : List Nat), object.hllpara = para →
      Backed object (words hashes) → hashes.Pairwise (· < ·) →
      (∀ hashval ∈ hashes, hashval < 2 ^ 64) →
        ∃ after bytes, hllExplicitToSparse object = .ok after ∧ after.hllpara = para ∧
          RunsInMemory after bytes) ∧
    (∀ (hlldata : List UInt8) (place zerocount : Nat), zerocount ≤ 2 ^ para.log2Registers →
      place + (zeroRegisterBytes para.log2Registers + 1) ≤ hlldata.length →
        ∃ after run, hllSetSparseZero hlldata place zerocount = .ok (after, run.length) ∧
          after = overwrite hlldata place run ∧
          run.length ≤ zeroRegisterBytes para.log2Registers + 1 ∧ UsedTypes (numbers run) ∧
          units (numbers run) = List.replicate zerocount 0) := by
  have range : 10 ≤ para.log2Registers ∧ para.log2Registers ≤ 16 := by
    simp only [hllCheckPararange, Hll.hllCheckPararange, Bool.and_eq_true, decide_eq_true_eq] at valid
    exact ⟨valid.1.1.1.1, valid.1.1.1.2⟩
  refine ⟨?_, ?_, ?_, ?_⟩
  · rintro object bytes rfl word runs registerIndex inside value low high
    exact setsRegister_of_runs double runs word valid inside low (by omega)
  · rintro object rfl
    obtain ⟨bytes, made, same, -⟩ := hllEmptyToSparse_backed object range.1 range.2
    obtain ⟨types, zeros⟩ := hllEmptyToSparse_units object.hllpara.toPara range.1 range.2
    refine ⟨_, bytes, made, rfl, ?_, by rw [same]; exact types, ?_⟩
    · exact backed_of_memory [] (by rw [append_nil]) rfl rfl
    · rw [same, zeros, length_replicate]
      rfl
  · rintro object hashes rfl backed sorted fit
    obtain ⟨bytes, spare, made, same, -⟩ := hllExplicitToSparse_backed object backed range.1
      range.2 sorted fit
    obtain ⟨types, length, -⟩ := hllExplicitToSparse_largest object.hllpara.toPara
      (by show object.hllpara.log2Registers ≤ 64; omega) sorted fit
    refine ⟨_, bytes, made, rfl, ?_, by rw [same]; exact types, ?_⟩
    · exact backed_of_memory spare rfl rfl length_append
    · rw [same, length]
      rfl
  · intro hlldata place zerocount most room
    have short := hllSetSparseZero_short zerocount range.1 range.2 most
    obtain ⟨types, zeros⟩ := hllSetSparseZero_units zerocount
    have fit := numbers_ofNat (hllSetSparseZero_fit zerocount)
    refine ⟨_, (Hll.hllSetSparseZero zerocount).map UInt8.ofNat, ?_, rfl, ?_, ?_, ?_⟩
    · rw [length_map]
      exact hllSetSparseZero_inside hlldata place zerocount (by omega)
    · rw [length_map]
      exact short
    · rw [fit]
      exact types
    · rw [fit]
      exact zeros

/-- The bits of a whole number are not those of -1. -/
theorem wholeBits_unsigned {number : Nat} (small : number < 2 ^ 53) :
    (UInt64.ofNat (wholeBits number)).toNat = wholeBits number ∧
      UInt64.ofNat (wholeBits number) ≠ 0xbff0000000000000 := by
  have bound := wholeBits_lt number small
  have plain : (UInt64.ofNat (wholeBits number)).toNat = wholeBits number :=
    UInt64.toNat_ofNat_of_lt' (by
      show wholeBits number < 2 ^ 64
      omega)
  refine ⟨plain, ?_⟩
  intro same
  have numbers := congrArg UInt64.toNat same
  have minus : (0xbff0000000000000 : UInt64).toNat = 13830554455654793216 := rfl
  omega

/-- The doubles of whole numbers; the estimate of registers is left out. -/
def wholeDoubles : DoubleArithmetic where
  ofNat number := UInt64.ofNat (wholeBits number)
  minusOne := 0xbff0000000000000
  increment bits :=
    if bits = 0xbff0000000000000 then 0 else UInt64.ofNat (wholeBits (bitsWhole bits.toNat + 1))
  estimate _ _ := 0
  increment_ofNat := by
    intro number small
    obtain ⟨plain, signed⟩ := wholeBits_unsigned small
    rw [if_neg signed, plain, bitsWhole_wholeBits number small]
  ofNat_ne := fun number small => (wholeBits_unsigned small).2

/-- An object with 1024 registers: 960 zeros, 63 zeros and a value. -/
def threeRuns : HllObjectData :=
  ⟨.sparse, ⟨10, 0, 4, 0⟩, 8, 3, some [14, 126, 132, 0, 0, 0, 0, 0], 0, 0⟩

/-- A register in the first run is set, which splits this run and takes in the second one. -/
theorem sparse_updates_stay_inside_split : hllGetRegisterUnit threeRuns 500 = .ok (0, 500) ∧
      ∃ unit, SetsRegister wholeDoubles threeRuns [14, 126, 132] 500 7 unit :=
  ⟨rfl, (sparse_updates_stay_inside wholeDoubles ⟨10, 0, 4, 0⟩ (by decide)).1 threeRuns
    [14, 126, 132] rfl (by decide)
    ⟨⟨rfl, rfl, _, rfl⟩, by simp [UsedTypes, numbers, byteType], by decide +kernel⟩ 500 (by decide) 7
    (by decide) (by decide)⟩

end OpenGauss.Hll.Stored
