import OpenGauss.Hll.Hashes

/-!
# What an object stands for

Every form of an object stands for an array of registers. Adding a hash and joining objects are to
give every register the largest value of the hashes that choose it, whatever forms the objects go
through. That holds along every tree of operations in which no list of hashes is made full while the
last hash of a register has a smaller value than another one. The other ways between the forms always
keep the registers.
-/
namespace OpenGauss.Hll

open List

/-- The register of an object. -/
def HllObject.register (object : HllObject) (register : Nat) : Nat :=
  match object.data with
  | .uninit => 0
  | .empty => 0
  | .explicit hashes => largestOf object.para hashes register
  | .sparse bytes => (units bytes).getD register 0
  | .full bytes => bytes.getD register 0

/-- The data of an object is as its form asks. -/
def HllObject.Sound (object : HllObject) : Prop :=
  match object.data with
  | .uninit => True
  | .empty => True
  | .explicit hashes => hashes.Pairwise (· < ·) ∧ ∀ hashval ∈ hashes, hashval < 2 ^ 64
  | .sparse bytes => UsedTypes bytes ∧ (units bytes).length = object.para.registers
  | .full bytes => bytes.length = object.para.registers

/-- An object is safe to be made full: if it is a list of hashes, the last ones are the largest. -/
def HllObject.FullSafe (object : HllObject) : Prop :=
  match object.data with
  | .explicit hashes => LastIsLargest object.para hashes
  | _ => True

/-- Changing the form of an object keeps its parameters, its last hash and its registers. -/
structure SameRegisters (before after : HllObject) : Prop where
  para : after.para = before.para
  lastHash : after.lastHash = before.lastHash
  sound : after.Sound
  register : ∀ register, after.register register = before.register register

theorem getD_replicate_zero (count register : Nat) :
    (List.replicate count 0).getD register 0 = 0 := by
  rw [getD_eq_getElem?_getD, getElem?_getD_replicate_default_eq]

variable (para : HllPara) (object : HllObject) (lastHash : Nat) (data : HllData) (bytes : List Nat)
  (hashes : List Nat) (hashval : Nat)

variable {object}

/-- Making an object full keeps its registers. -/
theorem hllTransformFull_same (few : object.para.log2Registers ≤ 64)
    (sound : object.Sound) (started : object.data ≠ .uninit) (safe : object.FullSafe) :
    ∃ bytes, hllTransformFull object = some { object with data := .full bytes } ∧
      SameRegisters object { object with data := .full bytes } := by
  obtain ⟨para, lastHash, data⟩ := object
  cases data with
  | uninit => exact absurd rfl started
  | empty =>
    refine ⟨List.replicate para.registers 0, rfl, rfl, rfl, length_replicate, ?_⟩
    intro register
    exact getD_replicate_zero _ _
  | explicit hashes =>
    refine ⟨explicitToFull para hashes, rfl, rfl, rfl, explicitToFull_length para hashes, ?_⟩
    intro register
    exact Largest.eq para (fun _ => Iff.rfl) (explicitToFull_largest para few sound.1 sound.2 safe)
      (largestOf_largest para hashes) register
  | sparse bytes =>
    refine ⟨units bytes, ?_, rfl, rfl, sound.2, fun _ => rfl⟩
    simp only [hllTransformFull, sparseToFull_units bytes sound.1, Option.map_some]
  | full bytes => exact ⟨bytes, rfl, rfl, rfl, sound, fun _ => rfl⟩

/-- A list of hashes that is checked is made full at once. -/
def FullAtOnce (para : HllPara) (hashes : List Nat) : Prop :=
  2 ^ para.log2Explicitsize < 8 * hashes.length ∧ ¬para.log2Explicitsize < para.log2Sparsesize

variable {hashes}

/-- The check of a list keeps its registers. -/
theorem hllExplicitCheck_same (few : para.log2Registers ≤ 64) (sorted : hashes.Pairwise (· < ·))
    (words : ∀ hashval ∈ hashes, hashval < 2 ^ 64)
    (safe : FullAtOnce para hashes → LastIsLargest para hashes) :
    ∃ after, hllExplicitCheck ⟨para, lastHash, .explicit hashes⟩ = some after ∧
      SameRegisters ⟨para, lastHash, .explicit hashes⟩ after ∧ after.data ≠ .uninit := by
  have sound : HllObject.Sound ⟨para, lastHash, .explicit hashes⟩ := ⟨sorted, words⟩
  have used : HllObject.lenUsed ⟨para, lastHash, .explicit hashes⟩ = 8 * hashes.length := rfl
  rw [hllExplicitCheck, used]
  dsimp only
  by_cases long : 2 ^ para.log2Explicitsize < 8 * hashes.length
  · rw [if_pos long]
    by_cases larger : para.log2Explicitsize < para.log2Sparsesize
    · rw [if_pos larger]
      obtain ⟨types, length, largest⟩ := hllExplicitToSparse_largest para few sorted words
      have same : SameRegisters ⟨para, lastHash, .explicit hashes⟩
          ⟨para, lastHash, .sparse (hllExplicitToSparse para hashes)⟩ := by
        refine ⟨rfl, rfl, ⟨types, length⟩, ?_⟩
        intro register
        exact Largest.eq para (fun _ => Iff.rfl) largest (largestOf_largest para hashes) register
      have transformed : hllTransformSparse ⟨para, lastHash, .explicit hashes⟩ =
          some ⟨para, lastHash, .sparse (hllExplicitToSparse para hashes)⟩ := rfl
      rw [transformed]
      dsimp only
      by_cases tooLong : 2 ^ para.log2Sparsesize <
          HllObject.lenUsed ⟨para, lastHash, .sparse (hllExplicitToSparse para hashes)⟩
      · rw [if_pos tooLong]
        obtain ⟨bytes, result, again⟩ := hllTransformFull_same few same.sound
          HllData.noConfusion trivial
        refine ⟨_, result, ⟨again.para, again.lastHash, again.sound, ?_⟩, HllData.noConfusion⟩
        exact fun register => (again.register register).trans (same.register register)
      · rw [if_neg tooLong]
        exact ⟨_, rfl, same, HllData.noConfusion⟩
    · rw [if_neg larger]
      obtain ⟨bytes, result, same⟩ := hllTransformFull_same few
        sound HllData.noConfusion (safe ⟨long, larger⟩)
      exact ⟨_, result, same, HllData.noConfusion⟩
  · rw [if_neg long]
    exact ⟨_, rfl, ⟨rfl, rfl, sound, fun _ => rfl⟩, HllData.noConfusion⟩

variable (hashes)

/-- The list of hashes after one was put in. -/
def insertHash (hashes : List Nat) (hashval : Nat) : List Nat :=
  let bindex := upperBound hashes hashval (hashes.length + 1) 0 hashes.length
  if 0 < bindex ∧ hashes.getD (bindex - 1) 0 = hashval then hashes
  else hashes.take bindex ++ hashval :: hashes.drop bindex

variable {hashes}

/-- A hash is inserted into a sorted list. -/
theorem insertHash_sorted (sorted : hashes.Pairwise (· < ·)) :
    (insertHash hashes hashval).Pairwise (· < ·) ∧
      ∀ other, other ∈ insertHash hashes hashval ↔ other ∈ hashes ++ [hashval] := by
  obtain ⟨inside, before, behind⟩ := upperBound_place hashes hashval sorted (hashes.length + 1) 0
    hashes.length (by omega) (Nat.zero_le _) le_rfl (fun index less => absurd less (Nat.not_lt_zero _))
    (fun index least bound => absurd bound (Nat.not_lt.mpr least))
  rw [insertHash]
  generalize upperBound hashes hashval (hashes.length + 1) 0 hashes.length = place at inside before behind
  by_cases old : 0 < place ∧ hashes.getD (place - 1) 0 = hashval
  · rw [if_pos old]
    refine ⟨sorted, ?_⟩
    intro other
    have member : hashval ∈ hashes := by
      rw [← old.2, getD_eq_getElem _ _ (by omega)]
      exact getElem_mem _
    rw [mem_append, mem_singleton]
    constructor
    · exact .inl
    · rintro (inList | same)
      · exact inList
      · rw [same]
        exact member
  · rw [if_neg old]
    refine ⟨insert_sorted hashes sorted inside before behind old, ?_⟩
    intro other
    have whole : other ∈ hashes ↔ other ∈ hashes.take place ∨ other ∈ hashes.drop place := by
      rw [← mem_append, take_append_drop]
    rw [mem_append, mem_cons, mem_append, mem_singleton, whole]
    constructor
    · rintro (front | same | back)
      · exact .inl (.inl front)
      · exact .inr same
      · exact .inl (.inr back)
    · rintro ((front | back) | same)
      · exact .inl front
      · exact .inr (.inr back)
      · exact .inr (.inl same)

/-- An object after a hash was added. -/
structure AddsTo (before after : HllObject) (hashval : Nat) : Prop where
  para : after.para = before.para
  sound : after.Sound
  adds : Adds before.para before.register after.register hashval

/-- Adding to a list adds to the registers. -/
theorem hllSetExplicitValue_adds (few : para.log2Registers ≤ 64) (sorted : hashes.Pairwise (· < ·))
    (words : ∀ other ∈ hashes, other < 2 ^ 64) (word : hashval < 2 ^ 64) (data : HllData)
    (safe : FullAtOnce para (insertHash hashes hashval) →
      LastIsLargest para (insertHash hashes hashval)) :
    ∃ after, hllSetExplicitValue ⟨para, lastHash, data⟩ hashes hashval = some after ∧
      AddsTo ⟨para, lastHash, .explicit hashes⟩ after hashval := by
  obtain ⟨sortedAfter, members⟩ := insertHash_sorted hashval sorted
  have wordsAfter : ∀ other ∈ insertHash hashes hashval, other < 2 ^ 64 := by
    intro other member
    obtain old | new := mem_append.mp ((members other).mp member)
    · exact words other old
    · rw [mem_singleton.mp new]
      exact word
  -- The registers of the list with the hash in it.
  have adds : Adds para (largestOf para hashes) (largestOf para (insertHash hashes hashval))
      hashval := by
    intro register bound
    rw [largestOf_largest, largestOf_largest]
    constructor
    · intro all
      exact ⟨fun other old => all other ((members other).mpr (mem_append_left _ old)),
        all hashval ((members hashval).mpr (mem_append_right _ mem_cons_self))⟩
    · rintro ⟨others, own⟩ other member
      obtain old | new := mem_append.mp ((members other).mp member)
      · exact others other old
      · rw [mem_singleton.mp new]
        exact own
  rw [hllSetExplicitValue]
  dsimp only
  by_cases old : 0 < upperBound hashes hashval (hashes.length + 1) 0 hashes.length ∧
      hashes.getD (upperBound hashes hashval (hashes.length + 1) 0 hashes.length - 1) 0 = hashval
  · have same : insertHash hashes hashval = hashes := if_pos old
    rw [if_pos old]
    rw [same] at adds
    exact ⟨_, rfl, rfl, ⟨sorted, words⟩, adds⟩
  · have result : insertHash hashes hashval =
        hashes.take (upperBound hashes hashval (hashes.length + 1) 0 hashes.length) ++
          hashval :: hashes.drop (upperBound hashes hashval (hashes.length + 1) 0 hashes.length) :=
      if_neg old
    rw [if_neg old, ← result]
    obtain ⟨after, checked, same, -⟩ := hllExplicitCheck_same para lastHash
      few sortedAfter wordsAfter safe
    refine ⟨after, checked, same.para, same.sound, ?_⟩
    intro register bound
    rw [same.register]
    exact adds register bound

/-- The larger value of a register adds a hash. -/
theorem adds_set_max {registers : List Nat} {hashval : Nat}
    (inside : registerOf para hashval < registers.length) :
    Adds para (fun register => registers.getD register 0)
      (fun register => (registers.set (registerOf para hashval)
        (max (valueOf para hashval) (registers.getD (registerOf para hashval) 0))).getD register 0)
      hashval := by
  intro register bound
  dsimp only
  by_cases here : registerOf para hashval = register
  · subst here
    have value : (registers.set (registerOf para hashval) (max (valueOf para hashval)
        (registers.getD (registerOf para hashval) 0))).getD (registerOf para hashval) 0 =
          max (valueOf para hashval) (registers.getD (registerOf para hashval) 0) := by
      rw [getD_eq_getElem?_getD, getElem?_set_self inside]
      rfl
    rw [value, max_le_iff]
    exact ⟨fun both => ⟨both.2, fun _ => both.1⟩, fun both => ⟨both.2 rfl, both.1⟩⟩
  · rw [getD_eq_getElem?_getD, getElem?_set_ne here]
    exact ⟨fun below => ⟨below, fun same => absurd same here⟩, fun both => both.1⟩

theorem adds_zero (registers : Nat → Nat) {hashval : Nat}
    (zero : valueOf para hashval = 0) : Adds para registers registers hashval := by
  intro register bound
  rw [zero]
  exact ⟨fun below => ⟨below, fun _ => Nat.zero_le _⟩, fun both => both.1⟩

theorem hllSetSparseValue_eq : hllSetSparseValue ⟨para, lastHash, data⟩ bytes hashval =
      if valueOf para hashval = 0 then some ⟨para, lastHash, .sparse bytes⟩
      else
        match hllGetRegisterUnit bytes (registerOf para hashval) with
        | none => none
        | some unit =>
          match hllUpdateSparseValue bytes unit.1 unit.2 (valueOf para hashval) with
          | none => none
          | some newBytes =>
            if 2 ^ para.log2Sparsesize < newBytes.length then
              hllTransformFull ⟨para, lastHash, .sparse newBytes⟩
            else some ⟨para, lastHash, .sparse newBytes⟩ := rfl

/-- Adding to runs adds to the registers. -/
theorem hllSetSparseValue_adds (few : para.log2Registers ≤ 64) (used : UsedTypes bytes)
    (length : (units bytes).length = para.registers) (word : hashval < 2 ^ 64) (data : HllData) :
    ∃ after, hllSetSparseValue ⟨para, lastHash, data⟩ bytes hashval = some after ∧
      AddsTo ⟨para, lastHash, .sparse bytes⟩ after hashval := by
  have inside : registerOf para hashval < (units bytes).length := by
    rw [length]
    exact registerOf_lt para few word
  rw [hllSetSparseValue_eq]
  by_cases zero : valueOf para hashval = 0
  · rw [if_pos zero]
    exact ⟨_, rfl, rfl, ⟨used, length⟩, adds_zero para _ zero⟩
  · rw [if_neg zero]
    obtain ⟨front, byte, back, split, low, high, found⟩ := hllGetRegisterUnit_finds bytes
      (registerOf para hashval) used inside
    rw [split] at used
    obtain ⟨after, updated, types, same⟩ := hllUpdateSparseValue_units front back
      (registerOf para hashval - (units front).length) used (by omega)
      (by omega) (valueOf_le para hashval)
    rw [← split, Nat.add_sub_cancel' low] at same
    rw [← split] at updated
    have newSound : HllObject.Sound ⟨para, lastHash, .sparse after⟩ := by
      refine ⟨types, ?_⟩
      rw [same, length_set]
      exact length
    have adds := adds_set_max para inside
    rw [← same] at adds
    simp only [found, updated]
    by_cases long : 2 ^ para.log2Sparsesize < after.length
    · rw [if_pos long]
      obtain ⟨full, result, kept⟩ := hllTransformFull_same few newSound HllData.noConfusion trivial
      refine ⟨_, result, rfl, kept.sound, ?_⟩
      intro register bound
      rw [kept.register]
      exact adds register bound
    · rw [if_neg long]
      exact ⟨_, rfl, rfl, newSound, adds⟩

theorem hllSetFullValue_eq : hllSetFullValue ⟨para, lastHash, data⟩ bytes hashval =
      if valueOf para hashval = 0 then some ⟨para, lastHash, .full bytes⟩
      else
        match bytes[registerOf para hashval]? with
        | none => none
        | some byte =>
          some ⟨para, lastHash, .full (if byte < valueOf para hashval then
            bytes.set (registerOf para hashval) (valueOf para hashval) else bytes)⟩ := rfl

variable {bytes}

/-- Adding to bytes adds to the registers. -/
theorem hllSetFullValue_adds
    (few : para.log2Registers ≤ 64) (length : bytes.length = para.registers)
    (word : hashval < 2 ^ 64) (data : HllData) :
    ∃ after, hllSetFullValue ⟨para, lastHash, data⟩ bytes hashval = some after ∧
      AddsTo ⟨para, lastHash, .full bytes⟩ after hashval := by
  have inside : registerOf para hashval < bytes.length := by
    rw [length]
    exact registerOf_lt para few word
  rw [hllSetFullValue_eq]
  by_cases zero : valueOf para hashval = 0
  · rw [if_pos zero]
    exact ⟨_, rfl, rfl, length, adds_zero para _ zero⟩
  · rw [if_neg zero]
    have here : bytes[registerOf para hashval]? =
        some (bytes.getD (registerOf para hashval) 0) := by
      rw [getD_eq_getElem _ _ inside]
      exact getElem?_eq_getElem inside
    have larger : (if bytes.getD (registerOf para hashval) 0 < valueOf para hashval then
        bytes.set (registerOf para hashval) (valueOf para hashval) else bytes) =
          bytes.set (registerOf para hashval)
            (max (valueOf para hashval) (bytes.getD (registerOf para hashval) 0)) := by
      by_cases less : bytes.getD (registerOf para hashval) 0 < valueOf para hashval
      · rw [if_pos less, Nat.max_eq_left less.le]
      · rw [if_neg less, Nat.max_eq_right (Nat.not_lt.mp less), getD_eq_getElem _ _ inside,
          set_getElem_self]
    rw [here]
    dsimp only
    rw [larger]
    exact ⟨_, rfl, rfl, (length_set).trans length, adds_set_max para inside⟩

theorem AddsTo.of_same {before after : HllObject} {hashval : Nat}
    (adds : AddsTo before after hashval) {first : HllObject} (para : before.para = first.para)
    (same : ∀ register, before.register register = first.register register) :
    AddsTo first after hashval := by
  refine ⟨adds.para.trans para, adds.sound, ?_⟩
  intro register bound
  rw [adds.adds register bound, same, para]

variable (object hashes)

/-- The condition of storing a hash: a list of hashes that is made full at once by it has the largest
values last. -/
def StoreSafe (object : HllObject) (hashval : Nat) : Prop :=
  match object.data with
  | .explicit hashes => FullAtOnce object.para (insertHash hashes hashval) →
      LastIsLargest object.para (insertHash hashes hashval)
  | _ => True

/-- The condition of adding a hash, unless the duplicate check skips it. -/
def AddSafe (object : HllObject) (hashval : Nat) : Prop :=
  ¬(object.para.duplicateCheck = true ∧ hashval = object.lastHash) → StoreSafe object hashval

theorem insertHash_nil_safe : LastIsLargest para (insertHash [] hashval) := by
  intro last isLast _ other isOther _
  rw [mem_singleton.mp isLast, mem_singleton.mp isOther]

/-- Adding to an empty object adds to the registers. -/
theorem hllSetEmptyValue_adds
    (low : 10 ≤ para.log2Registers) (high : para.log2Registers ≤ 16) (word : hashval < 2 ^ 64) :
    ∃ after, hllSetEmptyValue ⟨para, lastHash, data⟩ hashval = some after ∧
      AddsTo ⟨para, lastHash, .empty⟩ after hashval := by
  rw [hllSetEmptyValue]
  by_cases none : para.log2Explicitsize = 0 ∧ para.log2Sparsesize = 0
  · rw [if_pos none]
    obtain ⟨after, added, adds⟩ := hllSetFullValue_adds para lastHash
      hashval (by omega) length_replicate word data
    exact ⟨after, added, adds.of_same rfl fun register => getD_replicate_zero _ _⟩
  · rw [if_neg none]
    by_cases noList : para.log2Explicitsize = 0
    · rw [if_pos noList]
      obtain ⟨types, zeros⟩ := hllEmptyToSparse_units para low high
      obtain ⟨after, added, adds⟩ := hllSetSparseValue_adds para lastHash (hllEmptyToSparse para)
        hashval (by omega) types (by rw [zeros, length_replicate]) word data
      refine ⟨after, added, adds.of_same rfl ?_⟩
      intro register
      show (units (hllEmptyToSparse para)).getD register 0 = 0
      rw [zeros]
      exact getD_replicate_zero _ _
    · rw [if_neg noList]
      obtain ⟨after, added, adds⟩ := hllSetExplicitValue_adds para lastHash hashval (by omega)
        List.Pairwise.nil (fun other member => absurd member not_mem_nil) word data
        (fun _ => insertHash_nil_safe para hashval)
      exact ⟨after, added, adds.of_same rfl fun register => rfl⟩

/-- Adding a hash adds to the registers in every mode. -/
theorem hllSetRegisterValue_adds
    (low : 10 ≤ object.para.log2Registers) (high : object.para.log2Registers ≤ 16)
    (sound : object.Sound) (word : hashval < 2 ^ 64) (safe : StoreSafe object hashval) :
    ∃ after, hllSetRegisterValue object hashval = some after ∧ AddsTo object after hashval := by
  obtain ⟨para, lastHash, data⟩ := object
  dsimp only at low high
  cases data with
  | uninit =>
    obtain ⟨after, added, adds⟩ := hllSetEmptyValue_adds para 0 .uninit hashval low high word
    exact ⟨after, added, adds.of_same rfl fun register => rfl⟩
  | empty =>
    obtain ⟨after, added, adds⟩ := hllSetEmptyValue_adds para lastHash .empty hashval low high word
    exact ⟨after, added, adds⟩
  | explicit hashes =>
    exact hllSetExplicitValue_adds para lastHash hashval (by omega) sound.1 sound.2 word _ safe
  | sparse bytes =>
    exact hllSetSparseValue_adds para lastHash bytes hashval (by omega) sound.1 sound.2 word _
  | full bytes => exact hllSetFullValue_adds para lastHash hashval (by omega) sound word _

/-- An object stands for the largest values of some hashes, and its last hash is one of them or has
no value. -/
structure StandsFor (para : HllPara) (object : HllObject) (hashes : List Nat) : Prop where
  para_eq : object.para = para
  sound : object.Sound
  largest : Largest para object.register hashes
  last : valueOf para object.lastHash ≤ object.register (registerOf para object.lastHash)

/-- An add extends the hashes that an object stands for. -/
theorem hllAdd_standsFor (valid : hllCheckPararange para = true)
    {object : HllObject} {hashes : List Nat} (stands : StandsFor para object hashes) {hashval : Nat}
    (word : hashval < 2 ^ 64) (safe : AddSafe object hashval) :
    ∃ after, hllAdd object hashval = some after ∧ StandsFor para after (hashes ++ [hashval]) := by
  have range : 10 ≤ para.log2Registers ∧ para.log2Registers ≤ 16 := by
    simp only [hllCheckPararange, Bool.and_eq_true, decide_eq_true_eq] at valid
    exact ⟨valid.1.1.1, valid.1.1.2⟩
  rw [hllAdd]
  by_cases skipped : object.para.duplicateCheck = true ∧ hashval = object.lastHash
  · rw [if_pos skipped]
    refine ⟨object, rfl, stands.para_eq, stands.sound, ?_, stands.last⟩
    apply stands.largest.add
    intro register bound
    constructor
    · intro below
      refine ⟨below, ?_⟩
      intro chosen
      have last := stands.last
      rw [← skipped.2, chosen] at last
      exact le_trans last below
    · exact fun both => both.1
  · rw [if_neg skipped]
    obtain ⟨after, added, adds⟩ := hllSetRegisterValue_adds object hashval
      (by rw [stands.para_eq]; exact range.1) (by rw [stands.para_eq]; exact range.2) stands.sound word
      (safe skipped)
    have grown := adds.adds
    rw [stands.para_eq] at grown
    refine ⟨{ after with lastHash := hashval }, ?_, adds.para.trans stands.para_eq, adds.sound, ?_, ?_⟩
    · rw [added]
      rfl
    · exact stands.largest.add para grown
    · exact ((grown (registerOf para hashval) _).mp le_rfl).2 rfl

theorem Largest.union {first second both : Nat → Nat} {hashes others : List Nat}
    (one : Largest para first hashes) (other : Largest para second others)
    (larger : ∀ register bound, both register ≤ bound ↔
      first register ≤ bound ∧ second register ≤ bound) : Largest para both (hashes ++ others) := by
  intro register bound
  rw [larger, one, other]
  constructor
  · rintro ⟨left, right⟩ hashval member
    obtain inFirst | inSecond := mem_append.mp member
    · exact left hashval inFirst
    · exact right hashval inSecond
  · intro all
    exact ⟨fun hashval member => all hashval (mem_append_left _ member),
      fun hashval member => all hashval (mem_append_right _ member)⟩

/-- The condition of joining two objects: a list of hashes that is made full has the largest values
last. -/
def UnionSafe (object aHll : HllObject) : Prop :=
  match object.data, aHll.data with
  | .uninit, _ => True
  | .empty, _ => True
  | _, .uninit => True
  | _, .empty => True
  | .explicit hashes1, .explicit hashes2 =>
      FullAtOnce object.para (mergeHashes hashes1 hashes2) →
        LastIsLargest object.para (mergeHashes hashes1 hashes2)
  | _, _ => object.FullSafe ∧ aHll.FullSafe

theorem valueOf_zero : valueOf para 0 = 0 := by
  have zeros : trailingZeros 64 0 = 64 := by decide
  rw [valueOf, hllHashToValue]
  rw [if_pos (by omega)]

variable {para}

theorem StandsFor.of_largest
    (same : object.para = para) (reset : object.lastHash = 0) (sound : object.Sound)
    (largest : Largest para object.register hashes) : StandsFor para object hashes := by
  refine ⟨same, sound, largest, ?_⟩
  rw [reset, valueOf_zero]
  exact Nat.zero_le _

/-- The larger bytes are bounded exactly if both are. -/
theorem zipWith_larger {bytes1 bytes2 : List Nat} (same : bytes1.length = bytes2.length)
    (register bound : Nat) :
    (List.zipWith (fun byte1 byte2 => if byte1 < byte2 then byte2 else byte1) bytes1
      bytes2).getD register 0 ≤ bound ↔
      bytes1.getD register 0 ≤ bound ∧ bytes2.getD register 0 ≤ bound := by
  simp only [getD_eq_getElem?_getD, getElem?_zipWith]
  by_cases inside : register < bytes1.length
  · rw [getElem?_eq_getElem inside, getElem?_eq_getElem (same ▸ inside)]
    simp only [Option.getD_some]
    by_cases less : bytes1[register] < bytes2[register]
    · rw [if_pos less]
      omega
    · rw [if_neg less]
      omega
  · rw [getElem?_eq_none (Nat.not_lt.mp inside), getElem?_eq_none (same ▸ Nat.not_lt.mp inside)]
    simp only [and_self]

/-- A union of registers stands for both. -/
theorem combineFull_standsFor (few : para.log2Registers ≤ 64)
    {object aHll : HllObject} {hashes others : List Nat} (one : StandsFor para object hashes)
    (other : StandsFor para aHll others) (filled : object.data ≠ .uninit)
    (otherFilled : aHll.data ≠ .uninit) (safe : object.FullSafe) (otherSafe : aHll.FullSafe) :
    ∃ bytes1 bytes2, hllTransformFull object = some { object with data := .full bytes1 } ∧
      hllTransformFull aHll = some { aHll with data := .full bytes2 } ∧
      StandsFor para (hllCombineFull { object with data := .full bytes1 } bytes1 bytes2)
        (hashes ++ others) := by
  obtain ⟨bytes1, result1, same1⟩ := hllTransformFull_same (by rw [one.para_eq]; exact few)
    one.sound filled safe
  obtain ⟨bytes2, result2, same2⟩ := hllTransformFull_same (by rw [other.para_eq]; exact few)
    other.sound otherFilled otherSafe
  have length1 : bytes1.length = para.registers := by
    rw [← one.para_eq]
    exact same1.sound
  have length2 : bytes2.length = para.registers := by
    rw [← other.para_eq]
    exact same2.sound
  refine ⟨bytes1, bytes2, result1, result2, StandsFor.of_largest _ _ one.para_eq rfl ?_ ?_⟩
  · show (List.zipWith _ bytes1 bytes2).length = object.para.registers
    rw [length_zipWith, length1, length2, one.para_eq, Nat.min_self]
  · apply one.largest.union para other.largest
    intro register bound
    have larger := zipWith_larger (length1.trans length2.symm) register bound
    have first : bytes1.getD register 0 = object.register register := same1.register register
    have second : bytes2.getD register 0 = aHll.register register := same2.register register
    rw [first, second] at larger
    exact larger

/-- A union of lists stands for both. -/
theorem combineExplicit_standsFor (few : para.log2Registers ≤ 64)
    {lastHash lastHash' : Nat} {hashes1 hashes2 hashes others : List Nat}
    (one : StandsFor para ⟨para, lastHash, .explicit hashes1⟩ hashes)
    (other : StandsFor para ⟨para, lastHash', .explicit hashes2⟩ others)
    (safe : FullAtOnce para (mergeHashes hashes1 hashes2) →
      LastIsLargest para (mergeHashes hashes1 hashes2)) :
    ∃ after, hllCombineExplicit ⟨para, lastHash, .explicit hashes1⟩ hashes1 hashes2 = some after ∧
      StandsFor para after (hashes ++ others) := by
  have sound1 : hashes1.Pairwise (· < ·) ∧ ∀ hashval ∈ hashes1, hashval < 2 ^ 64 := one.sound
  have sound2 : hashes2.Pairwise (· < ·) ∧ ∀ hashval ∈ hashes2, hashval < 2 ^ 64 := other.sound
  obtain ⟨sorted, members⟩ := mergeHashes_sorted sound1.1 sound2.1
  obtain ⟨after, checked, same, -⟩ := hllExplicitCheck_same para 0 few sorted (by
      intro hashval member
      obtain inFirst | inSecond := (members hashval).mp member
      · exact sound1.2 hashval inFirst
      · exact sound2.2 hashval inSecond) safe
  refine ⟨after, checked, StandsFor.of_largest after _ same.para same.lastHash same.sound ?_⟩
  apply one.largest.union para other.largest
  intro register bound
  rw [same.register]
  show largestOf para (mergeHashes hashes1 hashes2) register ≤ bound ↔
    largestOf para hashes1 register ≤ bound ∧ largestOf para hashes2 register ≤ bound
  rw [largestOf_largest, largestOf_largest, largestOf_largest]
  constructor
  · intro all
    exact ⟨fun hashval member => all hashval ((members hashval).mpr (.inl member)),
      fun hashval member => all hashval ((members hashval).mpr (.inr member))⟩
  · rintro ⟨left, right⟩ hashval member
    obtain inFirst | inSecond := (members hashval).mp member
    · exact left hashval inFirst
    · exact right hashval inSecond

end OpenGauss.Hll
