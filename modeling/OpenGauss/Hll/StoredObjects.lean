import OpenGauss.Hll.StoredForms

/-!
# Objects in memory and their lists

An object in memory represents an object of lists if its parameters are in range, its bytes in use are
those of the lists, and not more memory is reserved than the longest lists ask for. The module proves
that making an object full, checking a list of hashes and adding a hash keep that: they reach no byte
outside the reserved memory, and they do what the operations on lists do. It also follows the estimate
of lists of hashes, which is their number.
-/
namespace OpenGauss.Hll.Stored

open List OpenGauss.Base

/-- No memory is reserved. -/
structure Vacant (stored : HllObjectData) : Prop where
  lenTotal : stored.lenTotal = 0
  lenUsed : stored.lenUsed = 0
  hllData : stored.hllData = none

/-- The data in memory is some data of lists. -/
def Holds (stored : HllObjectData) : HllData → Prop
  | .uninit => stored.hlltype = .uninit ∧ Vacant stored
  | .empty => stored.hlltype = .empty ∧ Vacant stored
  | .explicit hashes => stored.hlltype = .explicit ∧ Backed stored (words hashes)
  | .sparse values => stored.hlltype = .sparse ∧
      ∃ bytes, Backed stored bytes ∧ numbers bytes = values
  | .full values => stored.hlltype = .full ∧ ∃ bytes, Backed stored bytes ∧ numbers bytes = values

/-- The most memory that is reserved for objects whose lists of hashes have at most some bytes. -/
def capacity (most : Nat) : Nat := 2 * most + 66560

/-- An object in memory represents one of lists. -/
structure Represents (most : Nat) (stored : HllObjectData) (object : HllObject) : Prop where
  para : stored.hllpara.toPara = object.para
  valid : hllCheckPararange stored.hllpara = true
  lastHash : stored.lastHash = object.lastHash
  word : stored.lastHash < 2 ^ 64
  holds : Holds stored object.data
  sound : object.Sound
  reserved : stored.lenTotal ≤ capacity most

/-- A list of hashes has at most some bytes. -/
def Limited (most : Nat) (object : HllObject) : Prop :=
  ∀ hashes, object.data = .explicit hashes → 8 * hashes.length ≤ most

/-- The estimate of an object without a hash, or with a list of hashes, is their number. -/
def Counted (double : DoubleArithmetic) (stored : HllObjectData) : HllData → Prop
  | .empty => stored.ndvEstimator = double.ofNat 0
  | .explicit hashes => stored.ndvEstimator = double.ofNat hashes.length
  | _ => True

variable (para : HllParaBytes) (double : DoubleArithmetic) (most : Nat) (stored : HllObjectData)
  (object : HllObject)

variable {para}

theorem hllCheckPararange_range (valid : hllCheckPararange para = true) :
    10 ≤ para.log2Registers ∧ para.log2Registers ≤ 16 ∧ para.log2Explicitsize ≤ 12 ∧
      para.log2Sparsesize ≤ 14 ∧ para.duplicateCheck ≤ 1 := by
  simp only [hllCheckPararange, Hll.hllCheckPararange, Bool.and_eq_true, decide_eq_true_eq] at valid
  obtain ⟨⟨⟨⟨low, high⟩, explicitMost⟩, sparseMost⟩, duplicate⟩ := valid
  exact ⟨low, high, explicitMost, sparseMost, duplicate⟩

theorem Vacant.backed {stored : HllObjectData} (vacant : Vacant stored) : Backed stored [] := by
  refine ⟨vacant.lenUsed, ?_, [], ?_⟩
  · rw [vacant.hllData, vacant.lenTotal]
    rfl
  · rw [vacant.hllData]
    rfl

theorem registers_le (valid : hllCheckPararange para = true) : 2 ^ para.log2Registers ≤ 65536 :=
  Nat.pow_le_pow_right (by decide) (hllCheckPararange_range valid).2.1

variable {stored}

/-- An object made full represents its bytes. -/
theorem madeFull_represents (represents : Represents most stored object) (newdata : List UInt8)
    (length : newdata.length = 2 ^ stored.hllpara.log2Registers) :
    Represents most (madeFull stored newdata) { object with data := .full (numbers newdata) } := by
  have registers := registers_le represents.valid
  refine ⟨represents.para, represents.valid, represents.lastHash, represents.word,
    ⟨rfl, newdata, ?_, rfl⟩, ?_, ?_⟩
  · apply backed_of_memory [] (by rw [append_nil]; rfl)
    · exact length.symm
    · exact length.symm
  · show (numbers newdata).length = object.para.registers
    rw [numbers, length_map, length, ← represents.para]
    rfl
  · show 2 ^ stored.hllpara.log2Registers ≤ capacity most
    rw [capacity]
    lia

/-- Making full, in memory. -/
theorem hllTransformFull_represents
    (represents : Represents most stored object) (started : object.data ≠ .uninit) :
    ∃ stored' values, hllTransformFull stored = .ok stored' ∧
      Hll.hllTransformFull object = some { object with data := .full values } ∧
      Represents most stored' { object with data := .full values } := by
  have range := hllCheckPararange_range represents.valid
  have made := madeFull_represents most object represents
  have holds := represents.holds
  have sound := represents.sound
  have para := represents.para
  obtain ⟨listPara, lastHash, data⟩ := object
  dsimp only at para
  cases data with
  | uninit => exact absurd rfl started
  | empty =>
    have result := made (List.replicate (2 ^ stored.hllpara.log2Registers) 0) length_replicate
    refine ⟨_, _, ?_, ?_, result⟩
    · rw [hllTransformFull, holds.1]
    · rw [Hll.hllTransformFull, numbers, map_replicate, ← para]
      rfl
  | explicit hashes =>
    obtain ⟨sorted, fit⟩ := sound
    have used := holds.2.used
    rw [words_length] at used
    have count : (stored.lenUsed + 7) / 8 = hashes.length := by lia
    have read := explicitValues_backed holds.2 fit hashes.length le_rfl
    rw [take_length] at read
    obtain ⟨newdata, written, same⟩ := fullFromHashes_backed stored.hllpara.toPara
      (by show stored.hllpara.log2Registers ≤ 64; omega) hashes fit
    have length := congrArg List.length same
    rw [numbers, length_map, explicitToFull_length] at length
    have result := made newdata length
    have size : 2 ^ stored.hllpara.toPara.log2Registers = 2 ^ stored.hllpara.log2Registers := rfl
    rw [size] at written
    refine ⟨_, _, ?_, ?_, result⟩
    · rw [hllTransformFull, holds.1]
      show (explicitValues stored ((stored.lenUsed + 7) / 8) >>= fun hashes =>
        List.foldlM (fullFromHash stored.hllpara.toPara)
          (List.replicate (2 ^ stored.hllpara.log2Registers) 0) hashes >>= fun newdata =>
            .ok (madeFull stored newdata)) = _
      rw [count, read, ok_bind, written, ok_bind]
    · rw [same, para]
      rfl
  | sparse values =>
    obtain ⟨kind, bytes, backed, same⟩ := holds
    obtain ⟨types, length⟩ := sound
    have total : (units (numbers bytes)).length = 2 ^ stored.hllpara.log2Registers := by
      rw [same, length, ← para]
      rfl
    obtain ⟨newdata, written, registers⟩ := fullFromBytes_backed backed
      (by rw [same]; exact types) total bytes.length le_rfl
    have whole : (numbers bytes).take bytes.length = numbers bytes :=
      take_of_length_le (by rw [numbers, length_map])
    rw [whole, total, Nat.sub_self, replicate_zero, append_nil] at registers
    have newLength := congrArg List.length registers
    rw [total, numbers, length_map] at newLength
    have result := made newdata newLength
    refine ⟨_, _, ?_, ?_, result⟩
    · rw [hllTransformFull, kind]
      rw [backed.used, written, ok_bind]
    · rw [registers, same]
      simp only [Hll.hllTransformFull, sparseToFull_units values types, Option.map_some]
  | full values =>
    refine ⟨stored, values, ?_, rfl, represents⟩
    rw [hllTransformFull, holds.1]

variable (stored)

/-- An object that represents one of lists, with a list of hashes that is short enough, and counted if
the object was. -/
structure Outcome (double : DoubleArithmetic) (most : Nat) (stored : HllObjectData)
    (object : HllObject) (exact : Prop) : Prop where
  represents : Represents most stored object
  limited : Limited most object
  counted : exact → Counted double stored object.data

variable (para : HllPara) (lastHash : Nat) (values : List Nat) (exact : Prop)

variable {stored para values}

theorem Outcome.of_full (represents : Represents most stored ⟨para, lastHash, .full values⟩) :
    Outcome double most stored ⟨para, lastHash, .full values⟩ exact :=
  ⟨represents, fun _ other => HllData.noConfusion other, fun _ => trivial⟩

variable {most}

theorem Outcome.of_sparse (represents : Represents most stored ⟨para, lastHash, .sparse values⟩) :
    Outcome double most stored ⟨para, lastHash, .sparse values⟩ exact :=
  ⟨represents, fun _ other => HllData.noConfusion other, fun _ => trivial⟩

/-- The check of a list, in memory. -/
theorem hllExplicitCheck_represents (enough : 4096 ≤ most)
    {stored : HllObjectData} {para : HllPara} {lastHash : Nat} {hashes : List Nat}
    (represents : Represents most stored ⟨para, lastHash, .explicit hashes⟩) :
    ∃ stored' object', hllExplicitCheck stored = .ok stored' ∧
      Hll.hllExplicitCheck ⟨para, lastHash, .explicit hashes⟩ = some object' ∧
      Outcome double most stored' object' (stored.ndvEstimator = double.ofNat hashes.length) := by
  obtain ⟨low, high, explicitMost, sparseMost, -⟩ :=
    hllCheckPararange_range represents.valid
  obtain ⟨kind, backed⟩ := represents.holds
  obtain ⟨sorted, fit⟩ := represents.sound
  have used : stored.lenUsed = HllObject.lenUsed ⟨para, lastHash, .explicit hashes⟩ := by
    rw [backed.used, words_length]
    rfl
  have para_eq : stored.hllpara.toPara = para := represents.para
  have explicitSize : stored.hllpara.log2Explicitsize = para.log2Explicitsize :=
    congrArg HllPara.log2Explicitsize para_eq
  have sparseSize : stored.hllpara.log2Sparsesize = para.log2Sparsesize :=
    congrArg HllPara.log2Sparsesize para_eq
  rw [hllExplicitCheck, Hll.hllExplicitCheck, used, explicitSize, sparseSize]
  dsimp only
  by_cases long : 2 ^ para.log2Explicitsize < HllObject.lenUsed ⟨para, lastHash, .explicit hashes⟩
  · rw [if_pos long, if_pos long]
    by_cases larger : para.log2Explicitsize < para.log2Sparsesize
    · obtain ⟨bytes, spare, made, same, tight⟩ := hllExplicitToSparse_backed stored backed low
        high sorted fit
      obtain ⟨types, length, -⟩ := hllExplicitToSparse_largest para
        (by rw [← para_eq]; show stored.hllpara.log2Registers ≤ 64; omega) sorted fit
      rw [para_eq] at same
      have registers := registers_le represents.valid
      have size : para.registers = 2 ^ stored.hllpara.log2Registers := by
        rw [← para_eq]
        rfl
      have short := length_le_units types
      rw [length, size, ← same, numbers, length_map] at short
      have transformed : hllTransformSparse stored = .ok { stored with
          hllData := some (bytes ++ spare)
          lenTotal := (bytes ++ spare).length
          lenUsed := bytes.length
          hlltype := .sparse } := by
        rw [hllTransformSparse, kind]
        exact made
      have listTransformed : Hll.hllTransformSparse ⟨para, lastHash, .explicit hashes⟩ =
          some ⟨para, lastHash, .sparse (Hll.hllExplicitToSparse para hashes)⟩ := rfl
      have sparse : Represents most { stored with
          hllData := some (bytes ++ spare)
          lenTotal := (bytes ++ spare).length
          lenUsed := bytes.length
          hlltype := .sparse } ⟨para, lastHash, .sparse (Hll.hllExplicitToSparse para hashes)⟩ := by
        refine ⟨represents.para, represents.valid, represents.lastHash, represents.word,
          ⟨rfl, bytes, ?_, same⟩, ⟨types, length⟩, ?_⟩
        · exact backed_of_memory spare rfl rfl length_append
        · dsimp only
          rw [capacity]
          lia
      have lengths : bytes.length =
          HllObject.lenUsed ⟨para, lastHash, .sparse (Hll.hllExplicitToSparse para hashes)⟩ := by
        show bytes.length = (Hll.hllExplicitToSparse para hashes).length
        rw [← same, numbers, length_map]
      rw [if_pos larger, if_pos larger, transformed, ok_bind, listTransformed]
      dsimp only
      rw [sparseSize, lengths]
      by_cases tooLong : 2 ^ para.log2Sparsesize <
          HllObject.lenUsed ⟨para, lastHash, .sparse (Hll.hllExplicitToSparse para hashes)⟩
      · obtain ⟨stored', values, full, listFull, result⟩ := hllTransformFull_represents most _ sparse
          HllData.noConfusion
        rw [lengths] at full
        rw [if_pos tooLong, if_pos tooLong]
        exact ⟨stored', _, full, listFull, Outcome.of_full double most _ _ result⟩
      · rw [if_neg tooLong, if_neg tooLong, ← lengths]
        exact ⟨_, _, rfl, rfl, Outcome.of_sparse double _ _ sparse⟩
    · obtain ⟨stored', values, full, listFull, result⟩ := hllTransformFull_represents most _
        represents HllData.noConfusion
      rw [if_neg larger, if_neg larger]
      exact ⟨stored', _, full, listFull, Outcome.of_full double most _ _ result⟩
  · rw [if_neg long, if_neg long]
    refine ⟨stored, _, rfl, rfl, represents, ?_, fun exact => exact⟩
    intro other same
    obtain rfl := HllData.explicit.inj same
    have power : 2 ^ para.log2Explicitsize ≤ 2 ^ 12 :=
      Nat.pow_le_pow_right (by decide) (by omega)
    have bytes : HllObject.lenUsed ⟨para, lastHash, .explicit hashes⟩ = 8 * hashes.length := rfl
    lia

section Estimates

variable (double : DoubleArithmetic)

variable (most : Nat)

variable {most}

/-- Adding to a list, in memory. -/
theorem hllSetExplicitValue_represents (enough : 4096 ≤ most) (bounded : most ≤ 2 ^ 17)
    {stored : HllObjectData} {para : HllPara} {lastHash : Nat} {hashes : List Nat}
    (represents : Represents most stored ⟨para, lastHash, .explicit hashes⟩)
    (limited : 8 * hashes.length ≤ most) {hashval : Nat} (word : hashval < 2 ^ 64) :
    ∃ stored' object', hllSetExplicitValue double stored hashval = .ok stored' ∧
      (∀ data, Hll.hllSetExplicitValue ⟨para, lastHash, data⟩ hashes hashval = some object') ∧
      Outcome double most stored' object' (stored.ndvEstimator = double.ofNat hashes.length) := by
  obtain ⟨kind, backed⟩ := represents.holds
  obtain ⟨sorted, fit⟩ := represents.sound
  have reserved := represents.reserved
  have length := words_length hashes
  have used : stored.lenUsed / 8 = hashes.length := by
    rw [backed.used, length]
    lia
  rw [capacity] at reserved
  obtain ⟨data, total, expanded, backed', tight⟩ := expandForHash_backed backed (by lia)
    (by rw [maxAllocSize]; lia)
  have place := upperBound_backed backed' fit hashval (hashes.length + 1) 0 hashes.length le_rfl
  obtain ⟨inside, -, -⟩ := upperBound_place hashes hashval sorted (hashes.length + 1) 0 hashes.length
    (by lia) (Nat.zero_le _) le_rfl (fun index less => absurd less (Nat.not_lt_zero _))
    (fun index least bound => absurd bound (Nat.not_lt.mpr least))
  have there := alreadyThere_backed backed' fit hashval inside
  have inserted := insertHash_sorted hashval sorted
  rw [hllSetExplicitValue, used]
  rw [expanded, ok_bind, place, ok_bind, there, ok_bind]
  simp only [Hll.hllSetExplicitValue]
  rw [insertHash] at inserted
  generalize Hll.upperBound hashes hashval (hashes.length + 1) 0 hashes.length = bindex at *
  by_cases old : 0 < bindex ∧ hashes.getD (bindex - 1) 0 = hashval
  · rw [if_pos (decide_eq_true old)]
    refine ⟨_, ⟨para, lastHash, .explicit hashes⟩, rfl, fun _ => if_pos old, ?_, ?_, fun exact => exact⟩
    · refine ⟨represents.para, represents.valid, represents.lastHash, represents.word,
        ⟨kind, backed'⟩, ⟨sorted, fit⟩, ?_⟩
      dsimp only
      rw [capacity]
      lia
    · intro other same
      obtain rfl := HllData.explicit.inj same
      exact limited
  · obtain ⟨memory, total', updated, backed'', tight'⟩ := insertWord_backed backed'
      (by dsimp only; lia) (by rw [maxAllocSize]; lia) bindex hashval inside
    rw [if_neg old] at inserted
    have newLength : (hashes.take bindex ++ hashval :: hashes.drop bindex).length =
        hashes.length + 1 := by
      rw [length_append, length_cons, length_drop, length_take_of_le inside]
      grind
    have newWords := words_length (hashes.take bindex ++ hashval :: hashes.drop bindex)
    rw [if_neg (by rw [decide_eq_true_eq]; exact old), updated, ok_bind]
    simp only [if_neg old]
    generalize hashes.take bindex ++ hashval :: hashes.drop bindex = newHashes at *
    dsimp only at tight'
    have newFit : ∀ other ∈ newHashes, other < 2 ^ 64 := by
      intro other member
      obtain before | new := mem_append.mp ((inserted.2 other).mp member)
      · exact fit other before
      · rw [mem_singleton.mp new]
        exact word
    have newRepresents : Represents most { stored with
        lenTotal := total'
        lenUsed := (words newHashes).length
        hllData := some memory
        ndvEstimator := double.increment stored.ndvEstimator }
          ⟨para, lastHash, .explicit newHashes⟩ := by
      refine ⟨represents.para, represents.valid, represents.lastHash, represents.word,
        ⟨kind, backed''.used, backed''.total, backed''.front⟩, ⟨inserted.1, newFit⟩, ?_⟩
      dsimp only
      rw [capacity]
      lia
    obtain ⟨stored', object', checked, listChecked, outcome⟩ := hllExplicitCheck_represents double
      enough newRepresents
    refine ⟨stored', object', checked, fun _ => listChecked, outcome.represents, outcome.limited, ?_⟩
    intro exact
    apply outcome.counted
    dsimp only
    rw [exact, newLength]
    exact double.increment_ofNat hashes.length (by lia)

/-- Adding to runs, in memory. -/
theorem hllSetSparseValue_represents (bounded : most ≤ 2 ^ 17)
    {stored : HllObjectData} {para : HllPara} {lastHash : Nat} {values : List Nat}
    (represents : Represents most stored ⟨para, lastHash, .sparse values⟩) {hashval : Nat}
    (word : hashval < 2 ^ 64) (exact : Prop) :
    ∃ stored' object', hllSetSparseValue double stored hashval = .ok stored' ∧
      (∀ data, Hll.hllSetSparseValue ⟨para, lastHash, data⟩ values hashval = some object') ∧
      Outcome double most stored' object' exact := by
  obtain ⟨low, high, -, -, -⟩ := hllCheckPararange_range represents.valid
  obtain ⟨kind, bytes, backed, same⟩ := represents.holds
  obtain ⟨types, length⟩ := represents.sound
  have reserved := represents.reserved
  have registers := registers_le represents.valid
  have para_eq := represents.para
  dsimp only at para_eq length
  subst para_eq
  subst same
  have size : stored.hllpara.toPara.registers = 2 ^ stored.hllpara.log2Registers := rfl
  have inside : registerOf stored.hllpara.toPara hashval < (units (numbers bytes)).length := by
    rw [length]
    exact registerOf_lt _ (by show stored.hllpara.log2Registers ≤ 64; omega) word
  have short := length_le_units types
  rw [length, size, numbers, length_map] at short
  rw [capacity] at reserved
  rw [hllSetSparseValue]
  simp only [hllSetSparseValue_eq]
  rw [← registerOf, ← valueOf]
  by_cases zero : valueOf stored.hllpara.toPara hashval = 0
  · rw [if_pos zero, if_pos zero]
    exact ⟨stored, _, rfl, fun _ => rfl, Outcome.of_sparse double _ _ represents⟩
  · have most64 := valueOf_le stored.hllpara.toPara hashval
    obtain ⟨front, byte, back, split, above, below, found⟩ := hllGetRegisterUnit_finds (numbers bytes)
      (registerOf stored.hllpara.toPara hashval) types inside
    have found' : hllGetRegisterUnit stored (registerOf stored.hllpara.toPara hashval) =
        .ok (front.length, registerOf stored.hllpara.toPara hashval - (units front).length) := by
      rw [hllGetRegisterUnit_backed backed, found]
      rfl
    have used := types byte (by rw [split]; exact mem_append_right _ mem_cons_self)
    obtain ⟨stored', bytes', updated, changed, listUpdated⟩ := hllUpdateSparseValue_backed double backed
      (by lia) (by rw [maxAllocSize]; lia)
      (registerOf stored.hllpara.toPara hashval - (units front).length)
      split used (by lia) (by lia) most64
    obtain ⟨after, listAfter, newTypes, newUnits⟩ := hllUpdateSparseValue_units front back
      (registerOf stored.hllpara.toPara hashval - (units front).length)
      (split ▸ types) (by lia) (by lia) most64
    rw [← split] at listAfter newUnits
    obtain rfl : numbers bytes' = after := by
      rw [listUpdated] at listAfter
      exact Option.some.inj listAfter
    have newLength : (units (numbers bytes')).length = stored.hllpara.toPara.registers := by
      rw [newUnits, length_set, length]
    have newShort := length_le_units newTypes
    rw [newLength, size, numbers, length_map] at newShort
    have tight := changed.tight
    have newRepresents : Represents most stored'
        ⟨stored.hllpara.toPara, lastHash, .sparse (numbers bytes')⟩ := by
      refine ⟨?_, ?_, ?_, ?_, ⟨?_, bytes', changed.backed, rfl⟩, ⟨newTypes, newLength⟩, ?_⟩
      · rw [changed.hllpara]
      · rw [changed.hllpara]
        exact represents.valid
      · exact changed.lastHash.trans represents.lastHash
      · rw [changed.lastHash]
        exact represents.word
      · exact changed.hlltype.trans kind
      · rw [capacity]
        lia
    have lengths : stored'.lenUsed = (numbers bytes').length := by
      rw [changed.backed.used, numbers, length_map]
    rw [if_neg zero, if_neg zero, found', ok_bind, updated, ok_bind, found]
    simp only [listUpdated]
    rw [changed.hllpara, lengths]
    have log : stored.hllpara.toPara.log2Sparsesize = stored.hllpara.log2Sparsesize := rfl
    rw [log]
    by_cases long : 2 ^ stored.hllpara.log2Sparsesize < (numbers bytes').length
    · obtain ⟨full, values, made, listMade, result⟩ := hllTransformFull_represents most _
        newRepresents HllData.noConfusion
      rw [if_pos long, if_pos long]
      exact ⟨full, _, made, fun _ => listMade, Outcome.of_full double most _ _ result⟩
    · rw [if_neg long, if_neg long]
      exact ⟨stored', _, rfl, fun _ => rfl, Outcome.of_sparse double _ _ newRepresents⟩

/-- Adding to bytes, in memory. -/
theorem hllSetFullValue_represents {stored : HllObjectData} {para : HllPara}
    {lastHash : Nat} {values : List Nat}
    (represents : Represents most stored ⟨para, lastHash, .full values⟩) {hashval : Nat}
    (word : hashval < 2 ^ 64) (exact : Prop) :
    ∃ stored' object', hllSetFullValue double stored hashval = .ok stored' ∧
      (∀ data, Hll.hllSetFullValue ⟨para, lastHash, data⟩ values hashval = some object') ∧
      Outcome double most stored' object' exact := by
  obtain ⟨low, high, -, -, -⟩ := hllCheckPararange_range represents.valid
  obtain ⟨kind, bytes, backed, same⟩ := represents.holds
  have length : values.length = para.registers := represents.sound
  have para_eq := represents.para
  dsimp only at para_eq
  subst para_eq
  subst same
  have inside : registerOf stored.hllpara.toPara hashval < (numbers bytes).length := by
    rw [length]
    exact registerOf_lt _ (by show stored.hllpara.log2Registers ≤ 64; omega) word
  have total : (numbers bytes).length = bytes.length := length_map _
  rw [hllSetFullValue]
  simp only [hllSetFullValue_eq]
  rw [← registerOf, ← valueOf]
  by_cases zero : valueOf stored.hllpara.toPara hashval = 0
  · rw [if_pos zero, if_pos zero]
    exact ⟨stored, _, rfl, fun _ => rfl, Outcome.of_full double most _ _ represents⟩
  · have most64 := valueOf_le stored.hllpara.toPara hashval
    obtain ⟨byte, here⟩ : ∃ byte, (numbers bytes)[registerOf stored.hllpara.toPara hashval]? =
        some byte := ⟨_, getElem?_eq_getElem inside⟩
    rw [if_neg zero, if_neg zero, hllGetByte_backed backed here, ok_bind, here]
    dsimp only
    by_cases less : byte < valueOf stored.hllpara.toPara hashval
    · obtain ⟨memory, written, backed'⟩ := hllSetByte_backed backed
        (registerOf stored.hllpara.toPara hashval) (valueOf stored.hllpara.toPara hashval) (by omega)
      have newValues : numbers (bytes.set (registerOf stored.hllpara.toPara hashval)
          (UInt8.ofNat (valueOf stored.hllpara.toPara hashval))) =
            (numbers bytes).set (registerOf stored.hllpara.toPara hashval)
              (valueOf stored.hllpara.toPara hashval) := by
        rw [numbers, numbers, map_set, UInt8.toNat_ofNat_of_lt' (by
          show valueOf stored.hllpara.toPara hashval < 256
          omega)]
      rw [if_pos less, if_pos less, written, ok_bind]
      refine ⟨_, _, rfl, fun _ => rfl, Outcome.of_full double most _ _ ?_⟩
      refine ⟨rfl, represents.valid, represents.lastHash, represents.word,
        ⟨kind, _, ⟨backed'.used, backed'.total, backed'.front⟩, newValues⟩, ?_, represents.reserved⟩
      show ((numbers bytes).set _ _).length = _
      rw [length_set]
      exact length
    · rw [if_neg less, if_neg less]
      exact ⟨stored, _, rfl, fun _ => rfl, Outcome.of_full double most _ _ represents⟩

/-- Adding to an empty object, in memory. -/
theorem hllSetEmptyValue_represents (enough : 4096 ≤ most) (bounded : most ≤ 2 ^ 17)
    {stored : HllObjectData} {para : HllPara} {lastHash : Nat}
    (represents : Represents most stored ⟨para, lastHash, .empty⟩) {hashval : Nat}
    (word : hashval < 2 ^ 64) :
    ∃ stored' object', hllSetEmptyValue double stored hashval = .ok stored' ∧
      (∀ data, Hll.hllSetEmptyValue ⟨para, lastHash, data⟩ hashval = some object') ∧
      Outcome double most stored' object' (stored.ndvEstimator = double.ofNat 0) := by
  obtain ⟨low, high, -, -, -⟩ := hllCheckPararange_range represents.valid
  obtain ⟨kind, vacant⟩ := represents.holds
  have para_eq := represents.para
  dsimp only at para_eq
  subst para_eq
  have explicitSize : stored.hllpara.toPara.log2Explicitsize = stored.hllpara.log2Explicitsize := rfl
  have sparseSize : stored.hllpara.toPara.log2Sparsesize = stored.hllpara.log2Sparsesize := rfl
  rw [hllSetEmptyValue]
  simp only [Hll.hllSetEmptyValue, explicitSize, sparseSize]
  by_cases none : stored.hllpara.log2Explicitsize = 0 ∧ stored.hllpara.log2Sparsesize = 0
  · have made := madeFull_represents most _ represents
      (List.replicate (2 ^ stored.hllpara.log2Registers) 0) length_replicate
    have zeros : numbers (List.replicate (2 ^ stored.hllpara.log2Registers) 0) =
        List.replicate stored.hllpara.toPara.registers 0 := by
      rw [numbers, map_replicate]
      rfl
    rw [zeros] at made
    have transformed : hllTransformFull stored =
        .ok (madeFull stored (List.replicate (2 ^ stored.hllpara.log2Registers) 0)) := by
      rw [hllTransformFull, kind]
    simp only [if_pos none]
    rw [transformed, ok_bind]
    exact hllSetFullValue_represents double made word _
  · simp only [if_neg none]
    by_cases noList : stored.hllpara.log2Explicitsize = 0
    · obtain ⟨bytes, made, same, few⟩ := hllEmptyToSparse_backed stored low high
      obtain ⟨types, zeros⟩ := hllEmptyToSparse_units stored.hllpara.toPara low high
      have transformed : hllTransformSparse stored = .ok { stored with
          hllData := some bytes
          lenTotal := bytes.length
          lenUsed := bytes.length
          hlltype := .sparse } := by
        rw [hllTransformSparse, kind]
        exact made
      have sparse : Represents most { stored with
          hllData := some bytes
          lenTotal := bytes.length
          lenUsed := bytes.length
          hlltype := .sparse }
            ⟨stored.hllpara.toPara, lastHash, .sparse (Hll.hllEmptyToSparse stored.hllpara.toPara)⟩ := by
        refine ⟨rfl, represents.valid, represents.lastHash, represents.word, ⟨rfl, bytes, ?_, same⟩,
          ⟨types, ?_⟩, ?_⟩
        · exact backed_of_memory [] (by rw [append_nil]) rfl rfl
        · rw [zeros, length_replicate]
        · dsimp only
          rw [capacity]
          lia
      simp only [if_pos noList]
      rw [transformed, ok_bind]
      exact hllSetSparseValue_represents double bounded sparse word _
    · have explicit : Represents most { stored with hlltype := .explicit }
          ⟨stored.hllpara.toPara, lastHash, .explicit []⟩ := by
        refine ⟨rfl, represents.valid, represents.lastHash, represents.word, ⟨rfl, ?_⟩, ⟨List.Pairwise.nil, ?_⟩,
          represents.reserved⟩
        · exact ⟨vacant.backed.used, vacant.backed.total, vacant.backed.front⟩
        · exact fun _ member => absurd member not_mem_nil
      simp only [if_neg noList]
      exact hllSetExplicitValue_represents double enough bounded explicit (Nat.zero_le _) word

/-- An add, in memory. -/
theorem hllAdd_represents (enough : 4096 ≤ most) (bounded : most ≤ 2 ^ 17)
    {stored : HllObjectData} {object : HllObject} (represents : Represents most stored object)
    (limited : Limited most object) {hashval : Nat} (word : hashval < 2 ^ 64) :
    ∃ stored' object', hllAdd double stored hashval = .ok stored' ∧
      Hll.hllAdd object hashval = some object' ∧
      Outcome double most stored' object' (Counted double stored object.data) := by
  have duplicate : (stored.hllpara.duplicateCheck ≠ 0 ∧ hashval = stored.lastHash) ↔
      (object.para.duplicateCheck = true ∧ hashval = object.lastHash) := by
    rw [← represents.para, represents.lastHash, HllParaBytes.toPara, decide_eq_true_eq]
  rw [hllAdd, Hll.hllAdd]
  by_cases skipped : object.para.duplicateCheck = true ∧ hashval = object.lastHash
  · rw [if_pos (duplicate.mpr skipped), if_pos skipped]
    exact ⟨stored, object, rfl, rfl, represents, limited, fun exact => exact⟩
  · rw [if_neg (mt duplicate.mp skipped), if_neg skipped]
    -- The hash is added in the form the object has, and remembered.
    have added : ∃ stored' object', hllSetRegisterValue double stored hashval = .ok stored' ∧
        Hll.hllSetRegisterValue object hashval = some object' ∧
        Outcome double most stored' object' (Counted double stored object.data) := by
      obtain ⟨para, lastHash, data⟩ := object
      have holds := represents.holds
      rw [hllSetRegisterValue]
      cases data with
      | uninit =>
        have emptied : Represents most (hllEmpty double stored) ⟨para, 0, .empty⟩ :=
          ⟨represents.para, represents.valid, rfl, Nat.two_pow_pos 64, ⟨rfl, rfl, rfl, rfl⟩, trivial,
            Nat.zero_le _⟩
        obtain ⟨stored', object', result, listResult, outcome⟩ := hllSetEmptyValue_represents double
          enough bounded emptied word
        rw [holds.1]
        exact ⟨stored', object', result, listResult _, outcome.represents, outcome.limited,
          fun _ => outcome.counted rfl⟩
      | empty =>
        obtain ⟨stored', object', result, listResult, outcome⟩ := hllSetEmptyValue_represents double
          enough bounded represents word
        rw [holds.1]
        exact ⟨stored', object', result, listResult _, outcome⟩
      | explicit hashes =>
        obtain ⟨stored', object', result, listResult, outcome⟩ := hllSetExplicitValue_represents double
          enough bounded represents (limited hashes rfl) word
        rw [holds.1]
        exact ⟨stored', object', result, listResult _, outcome⟩
      | sparse values =>
        obtain ⟨stored', object', result, listResult, outcome⟩ := hllSetSparseValue_represents double
          bounded represents word _
        rw [holds.1]
        exact ⟨stored', object', result, listResult _, outcome⟩
      | full values =>
        obtain ⟨stored', object', result, listResult, outcome⟩ := hllSetFullValue_represents double
           represents word _
        rw [holds.1]
        exact ⟨stored', object', result, listResult _, outcome⟩
    obtain ⟨stored', object', result, listResult, outcome⟩ := added
    rw [result, ok_bind, listResult]
    refine ⟨_, _, rfl, rfl, ?_, outcome.limited, ?_⟩
    · obtain ⟨para, valid, -, -, holds, sound, reserved⟩ := outcome.represents
      refine ⟨para, valid, rfl, word, ?_, sound, reserved⟩
      obtain ⟨objectPara, objectLast, data⟩ := object'
      cases data with
      | uninit | empty => exact ⟨holds.1, holds.2.lenTotal, holds.2.lenUsed, holds.2.hllData⟩
      | explicit hashes => exact ⟨holds.1, holds.2.used, holds.2.total, holds.2.front⟩
      | sparse values | full values =>
        obtain ⟨kind, bytes, backed, same⟩ := holds
        exact ⟨kind, bytes, ⟨backed.used, backed.total, backed.front⟩, same⟩
    · intro exact
      have counted := outcome.counted exact
      obtain ⟨objectPara, objectLast, data⟩ := object'
      cases data with
      | uninit | sparse values | full values => trivial
      | empty | explicit hashes => exact counted

end Estimates

end OpenGauss.Hll.Stored
