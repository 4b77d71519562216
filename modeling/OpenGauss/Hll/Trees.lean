import OpenGauss.Hll.Registers

/-!
# Trees of operations

Objects are built from empty ones by adding hashes and joining objects, in any order. The module
proves that the registers of the result are fixed by the hashes alone, along every tree that makes no
list of hashes full in which the last hash of a register is not the largest.
-/
namespace OpenGauss.Hll

open Option

theorem register_of_isEmpty {object : HllObject} (empty : object.isEmpty = true) (register : Nat) :
    object.register register = 0 := by
  obtain ⟨para, lastHash, data⟩ := object
  cases data with
  | uninit | empty => rfl
  | explicit hashes | sparse bytes | full bytes => cases empty

variable (para : HllPara)

section

variable (few : para.log2Registers ≤ 64) (object aHll : HllObject) (hashes others : List Nat)
  (one : StandsFor para object hashes) (other : StandsFor para aHll others)
include few object aHll hashes others one other

variable {object aHll others}

theorem bothFull_standsFor (filled : object.data ≠ .uninit)
    (otherFilled : aHll.data ≠ .uninit) (safe : object.FullSafe ∧ aHll.FullSafe) :
    ∃ after, (match hllTransformFull object, hllTransformFull aHll with
        | some object1, some object2 =>
          match object1.data, object2.data with
          | .full bytes1, .full bytes2 => some (hllCombineFull object1 bytes1 bytes2)
          | _, _ => none
        | _, _ => none) = some after ∧ StandsFor para after (hashes ++ others) := by
  obtain ⟨bytes1, bytes2, result1, result2, stands⟩ := combineFull_standsFor few
     one other filled otherFilled safe.1 safe.2
  refine ⟨_, ?_, stands⟩
  simp only [result1, result2]

/-- A union stands for the hashes of both. -/
theorem hllUnion_standsFor (safe : UnionSafe object aHll) :
    ∃ after, hllUnion object aHll = some after ∧ StandsFor para after (hashes ++ others) := by
  rw [hllUnion]
  by_cases noHash : aHll.isEmpty = true
  · rw [if_pos noHash]
    refine ⟨object, rfl, one.para_eq, one.sound, ?_, one.last⟩
    apply one.largest.union para other.largest
    intro register bound
    rw [register_of_isEmpty noHash]
    exact ⟨fun below => ⟨below, Nat.zero_le _⟩, fun both => both.1⟩
  · rw [if_neg noHash]
    by_cases empty : object.isEmpty = true
    · rw [if_pos empty]
      refine ⟨aHll, rfl, other.para_eq, other.sound, ?_, other.last⟩
      apply one.largest.union para other.largest
      intro register bound
      rw [register_of_isEmpty empty]
      exact ⟨fun below => ⟨Nat.zero_le _, below⟩, fun both => both.2⟩
    · rw [if_neg empty, if_neg (by rw [one.para_eq, other.para_eq]; exact fun differ => differ rfl)]
      obtain ⟨para1, lastHash1, data1⟩ := object
      obtain ⟨para2, lastHash2, data2⟩ := aHll
      obtain rfl : para1 = para := one.para_eq
      obtain rfl : para2 = para1 := other.para_eq
      have full := bothFull_standsFor para2 few hashes one other
      cases data1 with
      | uninit | empty => exact absurd rfl empty
      | explicit hashes1 =>
        cases data2 with
        | uninit | empty => exact absurd rfl noHash
        | explicit hashes2 =>
          exact combineExplicit_standsFor few one other safe
        | sparse bytes | full bytes => exact full HllData.noConfusion HllData.noConfusion safe
      | sparse bytes | full bytes =>
        cases data2 with
        | uninit | empty => exact absurd rfl noHash
        | explicit hashes2 | sparse bytes => exact full HllData.noConfusion HllData.noConfusion safe
        | full bytes => exact full HllData.noConfusion HllData.noConfusion safe

end

/-- A tree of operations: objects without a hash at the leaves, hashes added to a tree, and two trees
joined. -/
inductive HllTree
  | uninit
  | empty
  | add (tree : HllTree) (hashval : UInt64)
  | union (first second : HllTree)

/-- The hashes of a tree. -/
def HllTree.hashes : HllTree → List Nat
  | .uninit => []
  | .empty => []
  | .add tree hashval => tree.hashes ++ [hashval.toNat]
  | .union first second => first.hashes ++ second.hashes

/-- Run a tree; no result if an operation reports an error. -/
def HllTree.run (para : HllPara) : HllTree → Option HllObject
  | .uninit => some ⟨para, 0, .uninit⟩
  | .empty => some ⟨para, 0, .empty⟩
  | .add tree hashval =>
    match tree.run para with
    | some object => hllAdd object hashval.toNat
    | none => none
  | .union first second =>
    match first.run para, second.run para with
    | some object, some aHll => hllUnion object aHll
    | _, _ => none

/-- Whether no step of a tree makes a list of hashes full at once in which the last hash of a register
is not the one with the largest value. -/
def HllTree.Safe (para : HllPara) : HllTree → Prop
  | .uninit => True
  | .empty => True
  | .add tree hashval =>
    tree.Safe para ∧ ∀ object, tree.run para = some object → AddSafe object hashval.toNat
  | .union first second =>
    first.Safe para ∧ second.Safe para ∧
      ∀ object aHll, first.run para = some object → second.run para = some aHll →
        UnionSafe object aHll

theorem standsFor_leaf (data : HllData) (sound : (⟨para, 0, data⟩ : HllObject).Sound)
    (empty : (⟨para, 0, data⟩ : HllObject).isEmpty = true) : StandsFor para ⟨para, 0, data⟩ [] := by
  apply StandsFor.of_largest _ _ rfl rfl sound
  intro register bound
  rw [register_of_isEmpty empty]
  constructor
  · intro _ hashval member
    exact absurd member List.not_mem_nil
  · intro _
    exact Nat.zero_le bound

/-- A tree of operations stands for its hashes. -/
theorem HllTree.run_standsFor (valid : hllCheckPararange para = true)
    (tree : HllTree) (safe : tree.Safe para) :
    ∃ object, tree.run para = some object ∧ StandsFor para object tree.hashes := by
  have few : para.log2Registers ≤ 64 := by
    simp only [hllCheckPararange, Bool.and_eq_true, decide_eq_true_eq] at valid
    omega
  induction tree with
  | uninit => exact ⟨_, rfl, standsFor_leaf para .uninit trivial rfl⟩
  | empty => exact ⟨_, rfl, standsFor_leaf para .empty trivial rfl⟩
  | add tree hashval ih =>
    obtain ⟨object, result, stands⟩ := ih safe.1
    obtain ⟨after, added, still⟩ := hllAdd_standsFor para valid stands
      hashval.toNat_lt (safe.2 object result)
    refine ⟨after, ?_, still⟩
    rw [HllTree.run, result]
    exact added
  | union first second ih1 ih2 =>
    obtain ⟨object, result1, stands1⟩ := ih1 safe.1
    obtain ⟨aHll, result2, stands2⟩ := ih2 safe.2.1
    obtain ⟨after, joined, still⟩ := hllUnion_standsFor para few first.hashes
      stands1 stands2 (safe.2.2 object aHll result1 result2)
    refine ⟨after, ?_, still⟩
    rw [HllTree.run, result1, result2]
    exact joined

/-- Along every safe tree each register has the largest value of the hashes that choose it, and trees
with the same hashes have the same registers, however the hashes are ordered and joined. -/
theorem registers_are_largest (para : HllPara) (valid : hllCheckPararange para = true)
    (tree : HllTree) (safe : tree.Safe para) : ∃ object, tree.run para = some object ∧
      (∀ register, object.register register = largestOf para tree.hashes register) ∧
      ∀ other : HllTree, other.Safe para →
        (∀ hashval, hashval ∈ tree.hashes ↔ hashval ∈ other.hashes) →
          ∃ otherObject, other.run para = some otherObject ∧
            ∀ register, object.register register = otherObject.register register := by
  obtain ⟨object, result, stands⟩ := tree.run_standsFor para valid safe
  refine ⟨object, result, ?_, ?_⟩
  · exact Largest.eq para (fun _ => Iff.rfl) stands.largest (largestOf_largest para tree.hashes)
  · intro other otherSafe same
    obtain ⟨otherObject, otherResult, otherStands⟩ := other.run_standsFor para valid otherSafe
    exact ⟨otherObject, otherResult, Largest.eq para same stands.largest otherStands.largest⟩

/-- Hashes of one register: the third one makes the list full, and an object with a list is joined. -/
def fullThenJoined : HllTree := .union (.add (.add (.add .empty 4) 1) 2) (.add .empty 3)

theorem fullThenJoined_safe : fullThenJoined.Safe ⟨10, 4, 0, false⟩ := by
  refine ⟨⟨⟨⟨trivial, ?_⟩, ?_⟩, ?_⟩, ⟨trivial, ?_⟩, ?_⟩
  · intro object result
    obtain rfl := some.inj result
    exact fun _ => trivial
  · intro object result
    have stored : (HllTree.add .empty 4).run ⟨10, 4, 0, false⟩ =
        some ⟨⟨10, 4, 0, false⟩, 4, .explicit [4]⟩ := by decide
    obtain rfl := some.inj (stored.symm.trans result)
    exact fun _ full => absurd full.1 (by decide)
  · intro object result
    have stored : (HllTree.add (.add .empty 4) 1).run ⟨10, 4, 0, false⟩ =
        some ⟨⟨10, 4, 0, false⟩, 1, .explicit [1, 4]⟩ := by decide
    obtain rfl := some.inj (stored.symm.trans result)
    intro _ _
    unfold LastIsLargest
    decide
  · intro object result
    obtain rfl := some.inj result
    exact fun _ => trivial
  · intro object aHll result other
    have stored : (HllTree.add .empty 3).run ⟨10, 4, 0, false⟩ =
        some ⟨⟨10, 4, 0, false⟩, 3, .explicit [3]⟩ := by decide
    obtain rfl := some.inj (stored.symm.trans other)
    have full : (HllTree.add (.add (.add .empty 4) 1) 2).run ⟨10, 4, 0, false⟩ =
        some ⟨⟨10, 4, 0, false⟩, 2, .full (explicitToFull ⟨10, 4, 0, false⟩ [1, 2, 4])⟩ := by
      decide +kernel
    obtain rfl := some.inj (full.symm.trans result)
    refine ⟨trivial, ?_⟩
    show LastIsLargest _ _
    unfold LastIsLargest
    decide

/-- The joined object keeps the largest value of the register. -/
theorem registers_are_largest_joined :
    ∃ object, fullThenJoined.run ⟨10, 4, 0, false⟩ = some object ∧ object.register 0 = 3 := by
  obtain ⟨object, result, largest, -⟩ :=
    registers_are_largest ⟨10, 4, 0, false⟩ (by decide) fullThenJoined fullThenJoined_safe
  refine ⟨object, result, ?_⟩
  rw [largest]
  decide

/-- Two hashes of one register in lists of at most 1 hash: the list of 2 is made full, and the second hash takes
the register from the first one, which has the larger value. -/
theorem later_hash_lowers_register : hllCheckPararange ⟨10, 3, 0, false⟩ = true ∧
      ((HllTree.add (.add .empty 2) 3).run ⟨10, 3, 0, false⟩).map (·.register 0) = some 1 ∧
      largestOf ⟨10, 3, 0, false⟩ (HllTree.add (.add .empty 2) 3).hashes 0 = 2 := by
  decide

end OpenGauss.Hll
