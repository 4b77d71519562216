import OpenGauss.Hll.Runs
import Mathlib.Data.List.GetD

/-!
# Lists of hashes

The sorted list of hashes of an explicit object: how a hash is put in, how two lists are merged, and
how the registers are built from a list. A hash chooses its register by its first bits, so the hashes
of a register stand side by side. The way to runs keeps the largest value of a register. The way to
full registers keeps the value of the last hash of a register, which is the largest only where the
hashes happen to be so.
-/
namespace OpenGauss.Hll

open List

/-- The register of a hash. -/
def registerOf (para : HllPara) (hashval : Nat) : Nat := (hllHashToValue para hashval).1

/-- The value of a hash. -/
def valueOf (para : HllPara) (hashval : Nat) : Nat := (hllHashToValue para hashval).2

variable (para : HllPara) (hashes : List Nat) (hashval : Nat)

theorem valueOf_le : valueOf para hashval ≤ 64 := by
  rw [valueOf, hllHashToValue]
  by_cases large : 64 - para.log2Registers < trailingZeros 64 hashval + 1
  · simp only [large, ↓reduceIte]
    omega
  · simp only [large, ↓reduceIte]
    omega

variable {hashval}

theorem registerOf_lt (few : para.log2Registers ≤ 64)
    (word : hashval < 2 ^ 64) : registerOf para hashval < para.registers := by
  have split : (2 : Nat) ^ 64 = 2 ^ (64 - para.log2Registers) * 2 ^ para.log2Registers := by
    rw [← Nat.pow_add, Nat.sub_add_cancel few]
  rw [split] at word
  exact Nat.div_lt_of_lt_mul word

theorem registerOf_mono {first second : Nat} (ordered : first ≤ second) :
    registerOf para first ≤ registerOf para second := Nat.div_le_div_right ordered

variable (hashval)

/-- The values of some registers are at most those of the hashes that choose them, and not less. -/
def Largest (para : HllPara) (registers : Nat → Nat) (hashes : List Nat) : Prop :=
  ∀ register bound, registers register ≤ bound ↔
    ∀ hashval ∈ hashes, registerOf para hashval = register → valueOf para hashval ≤ bound

/-- Registers after a hash was added. -/
def Adds (para : HllPara) (before after : Nat → Nat) (hashval : Nat) : Prop :=
  ∀ register bound, after register ≤ bound ↔
    before register ≤ bound ∧ (registerOf para hashval = register → valueOf para hashval ≤ bound)

theorem Largest.add {before after : Nat → Nat} {hashes : List Nat} {hashval : Nat}
    (largest : Largest para before hashes) (adds : Adds para before after hashval) :
    Largest para after (hashes ++ [hashval]) := by
  intro register bound
  rw [adds, largest]
  constructor
  · rintro ⟨others, own⟩ hash member
    obtain old | new := mem_append.mp member
    · exact others hash old
    · rw [mem_singleton.mp new]
      exact own
  · intro all
    exact ⟨fun hash old => all hash (mem_append_left _ old),
      all hashval (mem_append_right _ mem_cons_self)⟩

theorem Largest.eq {first second : Nat → Nat} {hashes others : List Nat}
    (same : ∀ hashval, hashval ∈ hashes ↔ hashval ∈ others) (one : Largest para first hashes)
    (other : Largest para second others) (register : Nat) : first register = second register := by
  apply eq_of_forall_ge_iff
  intro bound
  rw [one, other]
  constructor
  · exact fun all hashval member => all hashval ((same hashval).mpr member)
  · exact fun all hashval member => all hashval ((same hashval).mp member)

/-- The largest value of the hashes of a register. -/
def largestOf (para : HllPara) (hashes : List Nat) (register : Nat) : Nat :=
  hashes.foldr (fun hashval most =>
    if registerOf para hashval = register then max (valueOf para hashval) most else most) 0

/-- The largest values of some hashes. -/
theorem largestOf_largest : Largest para (largestOf para hashes) hashes := by
  intro register bound
  induction hashes with
  | nil =>
    constructor
    · intro _ hashval member
      exact absurd member not_mem_nil
    · intro _
      exact Nat.zero_le _
  | cons hashval rest ih =>
    rw [largestOf, foldr_cons, forall_mem_cons, ← ih]
    by_cases here : registerOf para hashval = register
    · rw [if_pos here, max_le_iff]
      exact ⟨fun both => ⟨fun _ => both.1, both.2⟩, fun both => ⟨both.1 here, both.2⟩⟩
    · rw [if_neg here]
      exact ⟨fun below => ⟨fun same => absurd same here, below⟩, fun both => both.2⟩

/-- The bound is the place behind the hashes that are not above. -/
theorem upperBound_place (sorted : hashes.Pairwise (· < ·))
    (rounds start last : Nat) (enough : last - start < rounds) (ordered : start ≤ last)
    (inside : last ≤ hashes.length) (before : ∀ index < start, hashes.getD index 0 ≤ hashval)
    (behind : ∀ index, last ≤ index → index < hashes.length → hashval < hashes.getD index 0) :
    upperBound hashes hashval rounds start last ≤ hashes.length ∧
      (∀ index < upperBound hashes hashval rounds start last, hashes.getD index 0 ≤ hashval) ∧
      ∀ index, upperBound hashes hashval rounds start last ≤ index → index < hashes.length →
        hashval < hashes.getD index 0 := by
  have mono : ∀ first second, first ≤ second → second < hashes.length →
      hashes.getD first 0 ≤ hashes.getD second 0 := by
    intro first second less bound
    rw [getD_eq_getElem _ _ (by omega), getD_eq_getElem _ _ bound]
    obtain same | smaller := Nat.eq_or_lt_of_le less
    · subst same
      exact le_rfl
    · exact (pairwise_iff_getElem.mp sorted first second _ bound smaller).le
  induction rounds generalizing start last with
  | zero => omega
  | succ rounds ih =>
    rw [upperBound]
    by_cases more : start < last
    · rw [if_pos more]
      by_cases low : hashes.getD ((start + last) / 2) 0 ≤ hashval
      · rw [if_pos low]
        apply ih _ _ (by omega) (by omega) inside _ behind
        intro index less
        exact le_trans (mono index ((start + last) / 2) (by omega) (by omega)) low
      · rw [if_neg low]
        apply ih _ _ (by omega) (by omega) (by omega) before
        intro index least bound
        exact lt_of_lt_of_le (Nat.not_le.mp low) (mono ((start + last) / 2) index least bound)
    · rw [if_neg more]
      have same : start = last := by omega
      subst same
      exact ⟨inside, before, behind⟩

/-- A new hash put at its place keeps the list sorted. -/
theorem insert_sorted {hashval place : Nat} (sorted : hashes.Pairwise (· < ·))
    (inside : place ≤ hashes.length) (before : ∀ index < place, hashes.getD index 0 ≤ hashval)
    (behind : ∀ index, place ≤ index → index < hashes.length → hashval < hashes.getD index 0)
    (new : ¬(0 < place ∧ hashes.getD (place - 1) 0 = hashval)) :
    (hashes.take place ++ hashval :: hashes.drop place).Pairwise (· < ·) := by
  have apart := sorted
  rw [← take_append_drop place hashes, pairwise_append] at apart
  have less : ∀ first ∈ hashes.take place, first < hashval := by
    intro first member
    obtain ⟨index, bound, value⟩ := mem_take_iff_getElem.mp member
    have small : index < place := by lia
    have most := before index small
    rw [getD_eq_getElem _ _ (by omega), value] at most
    refine lt_of_le_of_ne most ?_
    intro same
    -- An equal hash could only stand right before the place.
    apply new
    refine ⟨by omega, ?_⟩
    have last := before (place - 1) (by omega)
    rw [getD_eq_getElem _ _ (by grind)] at last ⊢
    apply le_antisymm last
    rw [← same, ← value]
    obtain equal | smaller := Nat.eq_or_lt_of_le (show index ≤ place - 1 by omega)
    · subst equal
      exact le_rfl
    · exact (pairwise_iff_getElem.mp sorted index (place - 1) _ (by grind) smaller).le
  have more : ∀ second ∈ hashes.drop place, hashval < second := by
    intro second member
    obtain ⟨index, bound, value⟩ := mem_drop_iff_getElem.mp member
    have least := behind (place + index) (Nat.le_add_right _ _) (by omega)
    rw [getD_eq_getElem _ _ (by omega)] at least
    rw [← value]
    exact least
  rw [pairwise_append]
  refine ⟨apart.1, pairwise_cons.mpr ⟨more, apart.2.1⟩, ?_⟩
  intro first inFront second inBack
  obtain same | inside := mem_cons.mp inBack
  · rw [same]
    exact less first inFront
  · exact apart.2.2 first inFront second inside

/-- Merging sorted lists gives a sorted list of the hashes of both. -/
theorem mergeHashes_sorted {first second : List Nat} (one : first.Pairwise (· < ·))
    (other : second.Pairwise (· < ·)) : (mergeHashes first second).Pairwise (· < ·) ∧
      ∀ hashval, hashval ∈ mergeHashes first second ↔ hashval ∈ first ∨ hashval ∈ second := by
  induction first, second using mergeHashes.induct with
  | case1 second =>
    rw [mergeHashes]
    exact ⟨other, fun hashval => by simp⟩
  | case2 first filled =>
    cases first with
    | nil => exact absurd rfl filled
    | cons hashval rest =>
      rw [mergeHashes]
      · exact ⟨one, fun hashval => by simp⟩
      · exact cons_ne_nil _ _
  | case3 hashval1 rest1 hashval2 rest2 less ih =>
    rw [pairwise_cons] at one
    obtain ⟨sorted, members⟩ := ih one.2 other
    rw [mergeHashes, if_pos less]
    refine ⟨pairwise_cons.mpr ⟨?_, sorted⟩, ?_⟩
    · intro hashval member
      obtain left | right := (members hashval).mp member
      · exact one.1 hashval left
      · obtain same | behind := mem_cons.mp right
        · rw [same]
          exact less
        · exact lt_trans less ((pairwise_cons.mp other).1 hashval behind)
    · intro hashval
      simp only [mem_cons, members, or_assoc]
  | case4 hashval1 rest1 hashval2 rest2 notLess less ih =>
    rw [pairwise_cons] at other
    obtain ⟨sorted, members⟩ := ih one other.2
    rw [mergeHashes, if_neg notLess, if_pos less]
    refine ⟨pairwise_cons.mpr ⟨?_, sorted⟩, ?_⟩
    · intro hashval member
      obtain left | right := (members hashval).mp member
      · obtain same | behind := mem_cons.mp left
        · rw [same]
          exact less
        · exact lt_trans less ((pairwise_cons.mp one).1 hashval behind)
      · exact other.1 hashval right
    · intro hashval
      simp only [mem_cons, members]
      exact or_left_comm
  | case5 hashval1 rest1 hashval2 rest2 notLess notMore ih =>
    have same : hashval1 = hashval2 := by omega
    subst same
    rw [pairwise_cons] at one other
    obtain ⟨sorted, members⟩ := ih one.2 other.2
    rw [mergeHashes, if_neg notLess, if_neg notMore]
    refine ⟨pairwise_cons.mpr ⟨?_, sorted⟩, ?_⟩
    · intro hashval member
      obtain left | right := (members hashval).mp member
      · exact one.1 hashval left
      · exact other.1 hashval right
    · intro hashval
      simp only [mem_cons, members]
      exact or_or_distrib_left

/-- The largest hash of a register, among some hashes, has the largest value of the register. -/
def LastIsLargest (para : HllPara) (hashes : List Nat) : Prop :=
  ∀ last ∈ hashes,
    (∀ hashval ∈ hashes, registerOf para hashval = registerOf para last → hashval ≤ last) →
    ∀ hashval ∈ hashes, registerOf para hashval = registerOf para last →
      valueOf para hashval ≤ valueOf para last

theorem explicitToFull_concat : explicitToFull para (hashes ++ [hashval]) =
      (explicitToFull para hashes).set (registerOf para hashval) (valueOf para hashval) := by
  rw [explicitToFull, foldl_append]
  rfl

theorem explicitToFull_length : (explicitToFull para hashes).length = para.registers := by
  induction hashes using List.reverseRecOn with
  | nil => exact length_replicate
  | append_singleton hashes hashval ih => rw [explicitToFull_concat, length_set, ih]

/-- A register gets the value of its last hash. -/
theorem explicitToFull_last (few : para.log2Registers ≤ 64) {hashes : List Nat}
    (sorted : hashes.Pairwise (· < ·)) (words : ∀ hashval ∈ hashes, hashval < 2 ^ 64)
    (register : Nat) : (∀ hashval ∈ hashes, registerOf para hashval ≠ register) ∧
        (explicitToFull para hashes).getD register 0 = 0 ∨
      ∃ last ∈ hashes, registerOf para last = register ∧
        (∀ hashval ∈ hashes, registerOf para hashval = register → hashval ≤ last) ∧
        (explicitToFull para hashes).getD register 0 = valueOf para last := by
  induction hashes using List.reverseRecOn with
  | nil =>
    refine .inl ⟨fun hashval member => absurd member not_mem_nil, ?_⟩
    rw [explicitToFull, foldl_nil, getD_eq_getElem?_getD, getElem?_getD_replicate_default_eq]
  | append_singleton hashes hashval ih =>
    rw [pairwise_append] at sorted
    have own := words hashval (mem_append_right _ mem_cons_self)
    have bound := registerOf_lt para few own
    rw [explicitToFull_concat]
    by_cases here : registerOf para hashval = register
    · refine .inr ⟨hashval, mem_append_right _ mem_cons_self, here, ?_, ?_⟩
      · intro other member _
        obtain old | new := mem_append.mp member
        · exact (sorted.2.2 other old hashval mem_cons_self).le
        · exact (mem_singleton.mp new).le
      · rw [← here, getD_eq_getElem?_getD, getElem?_set_self
          (by rw [explicitToFull_length]; exact bound)]
        rfl
    · have kept : ((explicitToFull para hashes).set (registerOf para hashval)
          (valueOf para hashval)).getD register 0 = (explicitToFull para hashes).getD register 0 := by
        rw [getD_eq_getElem?_getD, getElem?_set_ne here, ← getD_eq_getElem?_getD]
      rw [kept]
      obtain ⟨none, zero⟩ | ⟨last, member, chosen, most, value⟩ :=
        ih sorted.1 fun other old => words other (mem_append_left _ old)
      · refine .inl ⟨?_, zero⟩
        intro other member
        obtain old | new := mem_append.mp member
        · exact none other old
        · rw [mem_singleton.mp new]
          exact here
      · refine .inr ⟨last, mem_append_left _ member, chosen, ?_, value⟩
        intro other otherMember same
        obtain old | new := mem_append.mp otherMember
        · exact most other old same
        · rw [mem_singleton.mp new] at same
          exact absurd same here

/-- This is the largest one where it belongs to the last hash. -/
theorem explicitToFull_largest (few : para.log2Registers ≤ 64) {hashes : List Nat}
    (sorted : hashes.Pairwise (· < ·)) (words : ∀ hashval ∈ hashes, hashval < 2 ^ 64)
    (lasts : LastIsLargest para hashes) :
    Largest para (fun register => (explicitToFull para hashes).getD register 0) hashes := by
  intro register bound
  dsimp only
  obtain ⟨none, zero⟩ | ⟨last, member, chosen, most, value⟩ :=
    explicitToFull_last para few sorted words register
  · rw [zero]
    constructor
    · intro _ hashval inside same
      exact absurd same (none hashval inside)
    · intro _
      exact Nat.zero_le _
  · rw [value]
    have ends := lasts last member (fun hashval inside same => most hashval inside (same.trans chosen))
    constructor
    · intro small hashval inside same
      exact le_trans (ends hashval inside (same.trans chosen.symm)) small
    · intro all
      exact all last member chosen

/-- A value behind zeros. -/
theorem getD_behind_zeros (front : List Nat) (zeros value register : Nat) :
    (front ++ List.replicate zeros 0 ++ [value]).getD register 0 =
      if register = front.length + zeros then value else front.getD register 0 := by
  simp only [getD_eq_getElem?_getD]
  by_cases here : register = front.length + zeros
  · rw [if_pos here, getElem?_append_right (by
      rw [length_append, length_replicate]
      omega), length_append, length_replicate, here, Nat.sub_self]
    rfl
  · rw [if_neg here]
    by_cases inside : register < front.length
    · rw [append_assoc, getElem?_append_left inside]
    · rw [getElem?_eq_none (Nat.not_lt.mp inside)]
      by_cases zero : register < front.length + zeros
      · rw [getElem?_append_left (by
          rw [length_append, length_replicate]
          exact zero), getElem?_append_right (Nat.not_lt.mp inside),
          getElem?_replicate_of_lt (by omega)]
        rfl
      · rw [getElem?_eq_none (by
          rw [length_append, length_append, length_replicate, length_singleton]
          omega)]

/-- The runs for some hashes, up to the last register that has a value. -/
structure RunsFor (para : HllPara) (hashes : List Nat) (bytes : List Nat) (next : Nat) : Prop where
  used : UsedTypes bytes
  length : (units bytes).length = next
  bound : next ≤ para.registers
  largest : Largest para (fun register => (units bytes).getD register 0) hashes
  last : 0 < next → (∃ hashval ∈ hashes, registerOf para hashval + 1 = next) ∧
    ∃ front value, bytes = front ++ [setDenseValue value] ∧ 0 < value ∧ value ≤ 64

theorem RunsFor.order {para : HllPara} {hashes bytes : List Nat} {next : Nat}
    (runs : RunsFor para hashes bytes next) {hashval : Nat}
    (behind : ∀ other ∈ hashes, other < hashval) : next ≤ registerOf para hashval + 1 := by
  by_cases some : 0 < next
  · obtain ⟨⟨other, member, chosen⟩, -⟩ := runs.last some
    have mono := registerOf_mono para (behind other member).le
    omega
  · omega

theorem explicitToSparseStep_eq (bytes : List Nat) (last : Int) (hashval : Nat) :
    explicitToSparseStep para (bytes, last) hashval =
      if valueOf para hashval = 0 then (bytes, last)
      else if (registerOf para hashval : Int) = last then
        (if bytes.getLast?.getD 0 < setDenseValue (valueOf para hashval) then
          bytes.dropLast ++ [setDenseValue (valueOf para hashval)] else bytes, last)
      else
        (bytes ++ hllSetSparseZero ((registerOf para hashval : Int) - last - 1).toNat ++
          [setDenseValue (valueOf para hashval)], (registerOf para hashval : Int)) :=
  rfl

/-- Another hash behind the ones that were written as runs. -/
theorem explicitToSparseStep_runs (few : para.log2Registers ≤ 64)
    {hashes : List Nat} {hashval : Nat} (word : hashval < 2 ^ 64)
    (behind : ∀ other ∈ hashes, other < hashval) {bytes : List Nat} {next : Nat}
    (runs : RunsFor para hashes bytes next) :
    ∃ (bytes' : List Nat) (next' : Nat), explicitToSparseStep para (bytes, (next : Int) - 1) hashval =
      (bytes', (next' : Int) - 1) ∧ RunsFor para (hashes ++ [hashval]) bytes' next' := by
  have bound := registerOf_lt para few word
  have most := valueOf_le para hashval
  have order := runs.order behind
  rw [explicitToSparseStep_eq]
  by_cases zero : valueOf para hashval = 0
  · refine ⟨bytes, next, if_pos zero, runs.used, runs.length, runs.bound, ?_, ?_⟩
    · apply runs.largest.add
      intro register bound
      exact ⟨fun below => ⟨below, fun _ => by omega⟩, fun both => both.1⟩
    · intro some
      obtain ⟨⟨other, member, chosen⟩, dense⟩ := runs.last some
      exact ⟨⟨other, mem_append_left _ member, chosen⟩, dense⟩
  · rw [if_neg zero]
    obtain ⟨kind, dense, shape⟩ := setDenseValue_units (valueOf para hashval) (by omega) most
    by_cases same : (registerOf para hashval : Int) = (next : Int) - 1
    · rw [if_pos same]
      have some : 0 < next := by omega
      obtain ⟨-, front, value, split, low, high⟩ := runs.last some
      obtain ⟨-, oldDense, oldShape⟩ := setDenseValue_units value low high
      have oldLength := runs.length
      have used := runs.used
      have largest := runs.largest
      rw [split, units_append, units_singleton, oldDense, length_append,
        length_singleton] at oldLength
      rw [split] at used
      have oldUnits : units bytes = units front ++ List.replicate 0 0 ++ [value] := by
        rw [split, units_append, units_singleton, oldDense, replicate_zero, append_nil]
      -- The byte of the register has the larger value of the two.
      have result : (if bytes.getLast?.getD 0 < setDenseValue (valueOf para hashval) then
          bytes.dropLast ++ [setDenseValue (valueOf para hashval)] else bytes) =
            front ++ [setDenseValue (max value (valueOf para hashval))] := by
        rw [split, getLast?_concat, dropLast_concat, Option.getD_some, oldShape, shape]
        by_cases larger : value < valueOf para hashval
        · rw [if_pos (by lia), Nat.max_eq_right larger.le, shape]
        · rw [if_neg (by lia), Nat.max_eq_left (Nat.not_lt.mp larger), oldShape]
      obtain ⟨newKind, newDense, -⟩ := setDenseValue_units (max value (valueOf para hashval))
        (by grind) (by lia)
      have newUnits : units (front ++ [setDenseValue (max value (valueOf para hashval))]) =
          units front ++ List.replicate 0 0 ++ [max value (valueOf para hashval)] := by
        rw [units_append, units_singleton, newDense, replicate_zero, append_nil]
      refine ⟨front ++ [setDenseValue (max value (valueOf para hashval))], next, ?_, ?_, ?_, ?_, ?_, ?_⟩
      · rw [result]
      · apply usedTypes_append
        · exact fun byte member => used byte (mem_append_left _ member)
        · intro byte member
          rw [mem_singleton.mp member, newKind]
      · rw [newUnits, length_append, length_append, length_replicate, length_singleton]
        omega
      · exact runs.bound
      · apply largest.add
        intro register bound
        dsimp only
        rw [newUnits, oldUnits, getD_behind_zeros, getD_behind_zeros]
        by_cases here : register = (units front).length + 0
        · rw [if_pos here, if_pos here, max_le_iff]
          have chosen : registerOf para hashval = register := by lia
          exact ⟨fun both => ⟨both.1, fun _ => both.2⟩, fun both => ⟨both.1, both.2 chosen⟩⟩
        · rw [if_neg here, if_neg here]
          have apart : registerOf para hashval ≠ register := by lia
          exact ⟨fun below => ⟨below, fun chosen => absurd chosen apart⟩, fun both => both.1⟩
      · intro _
        exact ⟨⟨hashval, mem_append_right _ mem_cons_self, by lia⟩, front, _, rfl,
          by grind, by lia⟩
    · rw [if_neg same]
      have count : ((registerOf para hashval : Int) - ((next : Int) - 1) - 1).toNat =
          registerOf para hashval - next := by lia
      obtain ⟨zeroTypes, zeros⟩ := hllSetSparseZero_units (registerOf para hashval - next)
      have newUnits : units (bytes ++ hllSetSparseZero (registerOf para hashval - next) ++
          [setDenseValue (valueOf para hashval)]) =
            units bytes ++ List.replicate (registerOf para hashval - next) 0 ++
              [valueOf para hashval] := by
        rw [units_append, units_append, zeros, units_singleton, dense]
      have length := runs.length
      refine ⟨bytes ++ hllSetSparseZero (registerOf para hashval - next) ++
        [setDenseValue (valueOf para hashval)], registerOf para hashval + 1, ?_, ?_, ?_, ?_, ?_, ?_⟩
      · rw [count]
        congr 1
        omega
      · apply usedTypes_append (usedTypes_append runs.used zeroTypes)
        intro byte member
        rw [mem_singleton.mp member, kind]
      · rw [newUnits, length_append, length_append, length_replicate, length_singleton, length]
        lia
      · omega
      · apply runs.largest.add
        intro register bound
        dsimp only
        rw [newUnits, getD_behind_zeros]
        by_cases here : register = (units bytes).length + (registerOf para hashval - next)
        · rw [if_pos here]
          have chosen : registerOf para hashval = register := by lia
          have empty : (units bytes).getD register 0 = 0 := by
            rw [getD_eq_getElem?_getD, getElem?_eq_none (by omega)]
            rfl
          rw [empty]
          exact ⟨fun below => ⟨Nat.zero_le _, fun _ => below⟩, fun both => both.2 chosen⟩
        · rw [if_neg here]
          have apart : registerOf para hashval ≠ register := by lia
          exact ⟨fun below => ⟨below, fun chosen => absurd chosen apart⟩, fun both => both.1⟩
      · intro _
        exact ⟨⟨hashval, mem_append_right _ mem_cons_self, rfl⟩, _, _, rfl, by lia, most⟩

/-- The runs of a sorted list of hashes. -/
theorem explicitToSparse_runs (few : para.log2Registers ≤ 64) {hashes : List Nat}
    (sorted : hashes.Pairwise (· < ·)) (words : ∀ hashval ∈ hashes, hashval < 2 ^ 64) :
    ∃ (bytes : List Nat) (next : Nat),
      hashes.foldl (explicitToSparseStep para) ([], -1) = (bytes, (next : Int) - 1) ∧
      RunsFor para hashes bytes next := by
  induction hashes using List.reverseRecOn with
  | nil =>
    refine ⟨[], 0, rfl, fun byte member => absurd member not_mem_nil, rfl, Nat.zero_le _, ?_,
      fun some => absurd some (lt_irrefl 0)⟩
    intro register bound
    exact ⟨fun _ hashval member => absurd member not_mem_nil, fun _ => Nat.zero_le _⟩
  | append_singleton hashes hashval ih =>
    rw [pairwise_append] at sorted
    obtain ⟨bytes, next, state, runs⟩ := ih sorted.1
      fun other member => words other (mem_append_left _ member)
    obtain ⟨bytes', next', step, runs'⟩ := explicitToSparseStep_runs para few
      (words hashval (mem_append_right _ mem_cons_self))
      (fun other member => sorted.2.2 other member hashval mem_cons_self) runs
    refine ⟨bytes', next', ?_, runs'⟩
    rw [foldl_append, state]
    exact step

/-- The runs have the largest value of each register. -/
theorem hllExplicitToSparse_largest (few : para.log2Registers ≤ 64)
    {hashes : List Nat} (sorted : hashes.Pairwise (· < ·))
    (words : ∀ hashval ∈ hashes, hashval < 2 ^ 64) : UsedTypes (hllExplicitToSparse para hashes) ∧
      (units (hllExplicitToSparse para hashes)).length = para.registers ∧
      Largest para (fun register => (units (hllExplicitToSparse para hashes)).getD register 0)
        hashes := by
  obtain ⟨bytes, next, state, runs⟩ := explicitToSparse_runs para few sorted words
  obtain ⟨zeroTypes, zeros⟩ := hllSetSparseZero_units (para.registers - next)
  have bound := runs.bound
  have count : ((para.registers : Int) - ((next : Int) - 1) - 1).toNat = para.registers - next := by
    lia
  have result : hllExplicitToSparse para hashes =
      bytes ++ hllSetSparseZero (para.registers - next) := by
    rw [hllExplicitToSparse, state, count]
  have same : units (hllExplicitToSparse para hashes) =
      units bytes ++ List.replicate (para.registers - next) 0 := by
    rw [result, units_append, zeros]
  refine ⟨?_, ?_, ?_⟩
  · rw [result]
    exact usedTypes_append runs.used zeroTypes
  · rw [same, length_append, runs.length]
    grind
  · intro register most
    rw [← runs.largest register most, same]
    dsimp only
    have value : (units bytes ++ List.replicate (para.registers - next) 0).getD register 0 =
        (units bytes).getD register 0 := by
      simp only [getD_eq_getElem?_getD]
      by_cases inside : register < (units bytes).length
      · rw [getElem?_append_left inside]
      · rw [getElem?_append_right (Nat.not_lt.mp inside), getElem?_replicate,
          getElem?_eq_none (Nat.not_lt.mp inside)]
        by_cases zero : register - (units bytes).length < para.registers - next
        · rw [if_pos zero]
          rfl
        · rw [if_neg zero]
    rw [value]

end OpenGauss.Hll
