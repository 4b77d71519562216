import OpenGauss.Hll.StoredPacking

/-!
# Exact lists of hashes

While an object keeps a list of hashes, the list is to have exactly the hashes that were added, and
the estimate is to be their number. The hash that was added last is skipped if the duplicate check is
on, and 0 stands for no such hash; but 0 is a hash as well. The module proves the property along every
run of operations in which 0 is not added to an object that remembers no last hash and does not have
0 in its list.
-/
namespace OpenGauss.Hll

open Option List

/-- An object with a byte for each register or for each run. -/
def HllObject.Dense (object : HllObject) : Prop :=
  match object.data with
  | .sparse _ => True
  | .full _ => True
  | _ => False

/-- The list of an object has exactly some hashes, and the last hash is one of them or 0. An object
with registers is not asked for anything. -/
def HllObject.Exact (object : HllObject) (added : List Nat) : Prop :=
  match object.data with
  | .uninit => added = [] ∧ object.lastHash = 0
  | .empty => added = [] ∧ object.lastHash = 0
  | .explicit hashes => (∀ hashval, hashval ∈ hashes ↔ hashval ∈ added) ∧
      (object.lastHash = 0 ∨ object.lastHash ∈ hashes)
  | _ => True

theorem HllObject.Dense.exact {object : HllObject} (dense : object.Dense) (added : List Nat) :
    object.Exact added := by
  obtain ⟨para, lastHash, data⟩ := object
  cases data with
  | uninit | empty | explicit hashes => exact dense.elim
  | sparse bytes | full bytes => trivial

variable (object after : HllObject) (hashes : List Nat) (bytes : List Nat) (hashval : Nat)

/-- A full object has registers. -/
theorem hllTransformFull_dense (made : hllTransformFull object = some after) : after.Dense := by
  obtain ⟨para, lastHash, data⟩ := object
  cases data with
  | uninit => cases made
  | empty | explicit hashes | full bytes =>
    obtain rfl := some.inj made
    trivial
  | sparse bytes =>
    obtain ⟨newdata, -, same⟩ := Option.map_eq_some_iff.mp made
    obtain rfl := same
    trivial

/-- The check keeps the list or makes registers. -/
theorem hllExplicitCheck_cases {para : HllPara} {lastHash : Nat} {hashes : List Nat}
    {after : HllObject}
    (checked : hllExplicitCheck ⟨para, lastHash, .explicit hashes⟩ = some after) :
    after = ⟨para, lastHash, .explicit hashes⟩ ∨ after.Dense := by
  rw [hllExplicitCheck] at checked
  by_cases long : 2 ^ para.log2Explicitsize < HllObject.lenUsed ⟨para, lastHash, .explicit hashes⟩
  · rw [if_pos long] at checked
    by_cases larger : para.log2Explicitsize < para.log2Sparsesize
    · have transformed : hllTransformSparse ⟨para, lastHash, .explicit hashes⟩ =
          some ⟨para, lastHash, .sparse (hllExplicitToSparse para hashes)⟩ := rfl
      rw [if_pos larger, transformed] at checked
      dsimp only at checked
      by_cases tooLong : 2 ^ para.log2Sparsesize <
          HllObject.lenUsed ⟨para, lastHash, .sparse (hllExplicitToSparse para hashes)⟩
      · rw [if_pos tooLong] at checked
        exact .inr (hllTransformFull_dense _ _ checked)
      · rw [if_neg tooLong] at checked
        obtain rfl := some.inj checked
        exact .inr trivial
    · rw [if_neg larger] at checked
      exact .inr (hllTransformFull_dense _ _ checked)
  · rw [if_neg long] at checked
    exact .inl (some.inj checked).symm

/-- A hash is put into the list, or the object gets registers. -/
theorem hllSetExplicitValue_cases (added : hllSetExplicitValue object hashes hashval = some after) :
    after.data = .explicit (insertHash hashes hashval) ∨ after.Dense := by
  rw [hllSetExplicitValue] at added
  rw [insertHash]
  generalize upperBound hashes hashval (hashes.length + 1) 0 hashes.length = bindex at *
  by_cases old : 0 < bindex ∧ hashes.getD (bindex - 1) 0 = hashval
  · rw [if_pos old] at added
    rw [if_pos old]
    obtain rfl := some.inj added
    exact .inl rfl
  · rw [if_neg old] at added
    rw [if_neg old]
    obtain same | dense := hllExplicitCheck_cases added
    · rw [same]
      exact .inl rfl
    · exact .inr dense

/-- A sparse object keeps registers. -/
theorem hllSetSparseValue_dense
    (added : hllSetSparseValue object bytes hashval = some after) : after.Dense := by
  obtain ⟨para, lastHash, data⟩ := object
  rw [hllSetSparseValue_eq] at added
  by_cases zero : valueOf para hashval = 0
  · rw [if_pos zero] at added
    obtain rfl := some.inj added
    trivial
  · rw [if_neg zero] at added
    cases found : hllGetRegisterUnit bytes (registerOf para hashval) with
    | none =>
      rw [found] at added
      cases added
    | some unit =>
      rw [found] at added
      dsimp only at added
      cases new : hllUpdateSparseValue bytes unit.1 unit.2 (valueOf para hashval) with
      | none =>
        rw [new] at added
        cases added
      | some newBytes =>
        rw [new] at added
        dsimp only at added
        by_cases long : 2 ^ para.log2Sparsesize < newBytes.length
        · rw [if_pos long] at added
          exact hllTransformFull_dense _ _ added
        · rw [if_neg long] at added
          obtain rfl := some.inj added
          trivial

/-- A full object keeps registers. -/
theorem hllSetFullValue_dense
    (added : hllSetFullValue object bytes hashval = some after) : after.Dense := by
  obtain ⟨para, lastHash, data⟩ := object
  rw [hllSetFullValue_eq] at added
  by_cases zero : valueOf para hashval = 0
  · rw [if_pos zero] at added
    obtain rfl := some.inj added
    trivial
  · rw [if_neg zero] at added
    cases here : bytes[registerOf para hashval]? with
    | none =>
      rw [here] at added
      cases added
    | some byte =>
      rw [here] at added
      obtain rfl := some.inj added
      trivial

theorem hllSetEmptyValue_cases (added : hllSetEmptyValue object hashval = some after) :
    after.data = .explicit (insertHash [] hashval) ∨ after.Dense := by
  rw [hllSetEmptyValue] at added
  by_cases none : object.para.log2Explicitsize = 0 ∧ object.para.log2Sparsesize = 0
  · rw [if_pos none] at added
    exact .inr (hllSetFullValue_dense _ _ _ _ added)
  · rw [if_neg none] at added
    by_cases noList : object.para.log2Explicitsize = 0
    · rw [if_pos noList] at added
      exact .inr (hllSetSparseValue_dense _ _ _ _ added)
    · rw [if_neg noList] at added
      exact hllSetExplicitValue_cases _ _ _ _ added

/-- The hashes of a list, if an object has one. -/
def HllObject.listed (object : HllObject) : List Nat :=
  match object.data with
  | .explicit hashes => hashes
  | _ => []

theorem hllSetRegisterValue_cases (added : hllSetRegisterValue object hashval = some after) :
    after.data = .explicit (insertHash object.listed hashval) ∨ after.Dense := by
  obtain ⟨para, lastHash, data⟩ := object
  cases data with
  | uninit | empty => exact hllSetEmptyValue_cases _ _ _ added
  | explicit hashes => exact hllSetExplicitValue_cases _ _ _ _ added
  | sparse bytes => exact .inr (hllSetSparseValue_dense _ _ _ _ added)
  | full bytes => exact .inr (hllSetFullValue_dense _ _ _ _ added)

theorem listed_sorted {object : HllObject} (sound : object.Sound) :
    object.listed.Pairwise (· < ·) := by
  obtain ⟨para, lastHash, data⟩ := object
  cases data with
  | uninit | empty | sparse bytes | full bytes => exact List.Pairwise.nil
  | explicit hashes => exact sound.1

/-- A hash is not skipped, unless it is in the list or there are registers. -/
def AddKept (object : HllObject) (hashval : Nat) : Prop :=
  object.para.duplicateCheck = true → hashval = object.lastHash →
    hashval ∈ object.listed ∨ object.Dense

/-- Adding a hash that is not skipped keeps a list exact. -/
theorem hllAdd_exact {added : List Nat} {hashval : Nat}
    (sound : object.Sound) (exact : object.Exact added) (kept : AddKept object hashval)
    (result : hllAdd object hashval = some after) : after.Exact (added ++ [hashval]) := by
  rw [hllAdd] at result
  by_cases skipped : object.para.duplicateCheck = true ∧ hashval = object.lastHash
  · rw [if_pos skipped] at result
    obtain rfl := some.inj result
    obtain inList | dense := kept skipped.1 skipped.2
    · obtain ⟨para, lastHash, data⟩ := object
      cases data with
      | uninit | empty => exact absurd inList not_mem_nil
      | explicit hashes =>
        refine ⟨?_, exact.2⟩
        intro other
        rw [exact.1 other, mem_append, mem_singleton]
        constructor
        · exact .inl
        · rintro (old | new)
          · exact old
          · rw [new]
            exact (exact.1 hashval).mp inList
      | sparse bytes | full bytes => trivial
    · exact dense.exact _
  · rw [if_neg skipped] at result
    obtain ⟨stored, set, rfl⟩ := Option.map_eq_some_iff.mp result
    obtain explicit | dense := hllSetRegisterValue_cases _ _ _ set
    · obtain ⟨-, members⟩ := insertHash_sorted hashval (listed_sorted sound)
      obtain ⟨para, lastHash, data⟩ := stored
      dsimp only at explicit
      subst explicit
      -- The object had a list with the hashes added before, or no registers at all.
      have before : object.Dense ∨ ∀ other, other ∈ object.listed ↔ other ∈ added := by
        obtain ⟨para', lastHash', data'⟩ := object
        cases data' with
        | uninit | empty => exact .inr (by rw [exact.1]; exact fun _ => Iff.rfl)
        | explicit hashes => exact .inr exact.1
        | sparse bytes | full bytes => exact .inl trivial
      obtain dense | listed := before
      · obtain ⟨para', lastHash', data'⟩ := object
        cases data' with
        | uninit | empty | explicit hashes => exact dense.elim
        | sparse bytes =>
          exact absurd (hllSetSparseValue_dense _ _ _ _ set) (fun impossible => impossible.elim)
        | full bytes =>
          exact absurd (hllSetFullValue_dense _ _ _ _ set) (fun impossible => impossible.elim)
      · refine ⟨?_, .inr ((members hashval).mpr (mem_append_right _ mem_cons_self))⟩
        intro other
        rw [members other, mem_append, mem_append, listed other]
    · obtain ⟨para, lastHash, data⟩ := stored
      cases data with
      | uninit | empty | explicit hashes => exact dense.elim
      | sparse bytes | full bytes => trivial

/-- A union is one of the two, the merged list, or has registers. -/
theorem hllUnion_cases {object aHll after : HllObject}
    (result : hllUnion object aHll = some after) :
    (aHll.isEmpty = true ∧ after = object) ∨ (object.isEmpty = true ∧ after = aHll) ∨
      (∃ para lastHash1 lastHash2 hashes1 hashes2, object = ⟨para, lastHash1, .explicit hashes1⟩ ∧
        aHll = ⟨para, lastHash2, .explicit hashes2⟩ ∧
        after = ⟨para, 0, .explicit (mergeHashes hashes1 hashes2)⟩) ∨ after.Dense := by
  rw [hllUnion] at result
  by_cases none2 : aHll.isEmpty = true
  · rw [if_pos none2] at result
    exact .inl ⟨none2, (some.inj result).symm⟩
  · rw [if_neg none2] at result
    by_cases none1 : object.isEmpty = true
    · rw [if_pos none1] at result
      exact .inr (.inl ⟨none1, (some.inj result).symm⟩)
    · rw [if_neg none1] at result
      refine .inr (.inr ?_)
      by_cases differ : object.para ≠ aHll.para
      · rw [if_pos differ] at result
        cases result
      · rw [if_neg differ] at result
        have para_eq := not_not.mp differ
        obtain ⟨para1, lastHash1, data1⟩ := object
        obtain ⟨para2, lastHash2, data2⟩ := aHll
        obtain rfl : para1 = para2 := para_eq
        dsimp only at result
        split at result
        · rename_i hashes1 hashes2
          obtain same | dense := hllExplicitCheck_cases result
          · exact .inl ⟨para1, lastHash1, lastHash2, hashes1, hashes2, rfl, rfl, same⟩
          · exact .inr dense
        · -- Any two other forms are joined register by register.
          split at result
          · split at result
            · obtain rfl := some.inj result
              exact .inr trivial
            · cases result
          · cases result

theorem HllObject.Exact.nothing {object : HllObject} {added : List Nat} (exact : object.Exact added)
    (empty : object.isEmpty = true) : added = [] := by
  obtain ⟨para, lastHash, data⟩ := object
  cases data with
  | uninit | empty => exact exact.1
  | explicit hashes | sparse bytes | full bytes => cases empty

/-- A union keeps lists exact. -/
theorem hllUnion_exact {object aHll after : HllObject} {added others : List Nat}
    (sound1 : object.Sound) (sound2 : aHll.Sound) (exact1 : object.Exact added)
    (exact2 : aHll.Exact others) (result : hllUnion object aHll = some after) :
    after.Exact (added ++ others) := by
  obtain ⟨empty, rfl⟩ | ⟨empty, rfl⟩ | ⟨para, lastHash1, lastHash2, hashes1, hashes2, rfl, rfl, rfl⟩ |
    dense := hllUnion_cases result
  · rw [exact2.nothing empty, append_nil]
    exact exact1
  · rw [exact1.nothing empty]
    exact exact2
  · obtain ⟨-, members⟩ := mergeHashes_sorted sound1.1 sound2.1
    refine ⟨?_, .inl rfl⟩
    intro hashval
    rw [members hashval, mem_append, exact1.1 hashval, exact2.1 hashval]
  · exact dense.exact _

/-- An object has no list of hashes, or one with a hash. -/
def HllObject.Filled (object : HllObject) : Prop := object.data ≠ .explicit []

theorem HllObject.Dense.filled {object : HllObject} (dense : object.Dense) : object.Filled := by
  intro listed
  rw [HllObject.Dense, listed] at dense
  exact dense

theorem filled_of_mem {object : HllObject} {hashes : List Nat} {hashval : Nat}
    (listed : object.data = .explicit hashes) (member : hashval ∈ hashes) : object.Filled := by
  intro nothing
  rw [listed] at nothing
  rw [HllData.explicit.inj nothing] at member
  exact not_mem_nil member

theorem hllAdd_filled (sound : object.Sound)
    (filled : object.Filled) (result : hllAdd object hashval = some after) : after.Filled := by
  rw [hllAdd] at result
  by_cases skipped : object.para.duplicateCheck = true ∧ hashval = object.lastHash
  · rw [if_pos skipped] at result
    obtain rfl := some.inj result
    exact filled
  · rw [if_neg skipped] at result
    obtain ⟨stored, set, rfl⟩ := Option.map_eq_some_iff.mp result
    obtain explicit | dense := hllSetRegisterValue_cases _ _ _ set
    · obtain ⟨-, members⟩ := insertHash_sorted hashval (listed_sorted sound)
      exact filled_of_mem explicit ((members hashval).mpr (mem_append_right _ mem_cons_self))
    · exact show HllObject.Filled { stored with lastHash := hashval } from HllObject.Dense.filled dense

theorem hllUnion_filled {object aHll after : HllObject} (sound1 : object.Sound)
    (sound2 : aHll.Sound) (filled1 : object.Filled) (filled2 : aHll.Filled)
    (result : hllUnion object aHll = some after) : after.Filled := by
  obtain ⟨empty, rfl⟩ | ⟨empty, rfl⟩ | ⟨para, lastHash1, lastHash2, hashes1, hashes2, rfl, rfl, rfl⟩ |
    dense := hllUnion_cases result
  · exact filled1
  · exact filled2
  · obtain ⟨-, members⟩ := mergeHashes_sorted sound1.1 sound2.1
    cases hashes1 with
    | nil => exact absurd rfl filled1
    | cons hashval rest =>
      exact filled_of_mem rfl ((members hashval).mpr (.inl mem_cons_self))
  · exact dense.filled

end OpenGauss.Hll
