import Mathlib.Algebra.BigOperators.Intervals
import Mathlib.Data.Nat.Count

/-!
# Bitmaps

A bitmap is a function from positions to bits, of which the positions below a bound count. The
module has the number of set bits, what setting and clearing one bit does to it, and the scan
for the first clear bit.
-/
namespace OpenGauss.Base

/-- The bitmap with one bit changed. -/
def writeBit (bitmap : Nat → Bool) (position : Nat) (value : Bool) : Nat → Bool :=
  fun other => if other = position then value else bitmap other

/-- The number of set bits below the bound. -/
def setBits (bitmap : Nat → Bool) (bound : Nat) : Nat :=
  Nat.count (fun position => bitmap position = true) bound

variable (bitmap : Nat → Bool) (bound : Nat)

/-- The changed bit has its new value. -/
@[simp]
theorem writeBit_self (position : Nat) (value : Bool) :
    writeBit bitmap position value position = value := by
  simp [writeBit]

/-- Another bit is not changed. -/
theorem writeBit_other (position other : Nat) (value : Bool) (differ : other ≠ position) :
    writeBit bitmap position value other = bitmap other := by
  simp [writeBit, differ]

/-- Bitmaps that agree have as many set bits. -/
theorem setBits_congr (first second : Nat → Bool) (bound : Nat)
    (agree : ∀ position < bound, first position = second position) :
    setBits first bound = setBits second bound := by
  induction bound with
  | zero => rfl
  | succ bound ih =>
    rw [setBits, setBits, Nat.count_succ, Nat.count_succ, agree bound (by omega)]
    have before := ih (fun position below => agree position (by omega))
    rw [setBits, setBits] at before
    rw [before]

variable {bitmap}

/-- Setting a clear bit adds one to the count. -/
theorem setBits_writeBit_true {position bound : Nat}
    (inside : position < bound) (clear : bitmap position = false) :
    setBits (writeBit bitmap position true) bound = setBits bitmap bound + 1 := by
  induction bound with
  | zero => omega
  | succ bound ih =>
    rw [setBits, setBits, Nat.count_succ, Nat.count_succ]
    by_cases last : position = bound
    · subst last
      have before := setBits_congr (writeBit bitmap position true) bitmap position
        (fun other below => writeBit_other bitmap position other true (by omega))
      rw [setBits, setBits] at before
      simp [before, clear]
    · have before := ih (by omega)
      rw [setBits, setBits] at before
      rw [writeBit_other bitmap position bound true (by omega)]
      lia

variable (bitmap)

/-- Clearing a set bit takes one away. -/
theorem setBits_writeBit_false {position bound : Nat}
    (inside : position < bound) (set : bitmap position = true) :
    setBits (writeBit bitmap position false) bound + 1 = setBits bitmap bound := by
  have back : writeBit (writeBit bitmap position false) position true = bitmap := by
    funext other
    by_cases same : other = position
    · rw [same, writeBit_self, set]
    · rw [writeBit_other _ _ _ _ same, writeBit_other _ _ _ _ same]
  have count := setBits_writeBit_true inside (writeBit_self bitmap position false)
  rw [back] at count
  exact count.symm

/-- An empty bitmap has no set bits. -/
theorem setBits_clear : setBits (fun _ => false) bound = 0 := by
  induction bound with
  | zero => rfl
  | succ bound ih =>
    rw [setBits] at ih
    rw [setBits]
    simp

/-- There are no more set bits than bits. -/
theorem setBits_le : setBits bitmap bound ≤ bound :=
  Nat.count_le _

/-- All bits are set exactly if none is clear. -/
theorem setBits_eq_iff :
    setBits bitmap bound = bound ↔ ∀ position < bound, bitmap position = true := by
  rw [setBits, Nat.count_iff_forall]

/-- The scan for a clear bit from a position on, over the given number of bits. -/
def firstClear (bitmap : Nat → Bool) : Nat → Nat → Option Nat
  | 0, _ => none
  | remaining + 1, position =>
    if bitmap position = false then some position
    else firstClear bitmap remaining (position + 1)

/-- The first clear bit has only set bits before it. -/
theorem firstClear_some (remaining position found : Nat)
    (result : firstClear bitmap remaining position = some found) :
    position ≤ found ∧ found < position + remaining ∧ bitmap found = false ∧
      ∀ other, position ≤ other → other < found → bitmap other = true := by
  induction remaining generalizing position with
  | zero => simp [firstClear] at result
  | succ remaining ih =>
    rw [firstClear] at result
    split at result
    · rename_i clear
      rw [Option.some.injEq] at result
      subst result
      exact ⟨le_rfl, by omega, clear, fun other reached below => by omega⟩
    · rename_i set
      obtain ⟨after, before, clear, skipped⟩ := ih (position + 1) result
      refine ⟨by omega, by omega, clear, ?_⟩
      intro other reached below
      by_cases here : other = position
      · rw [here]
        simpa using set
      · exact skipped other (by omega) below

/-- Where no clear bit is found, all are set. -/
theorem firstClear_none (remaining position : Nat)
    (result : firstClear bitmap remaining position = none) (other : Nat)
    (reached : position ≤ other) (below : other < position + remaining) : bitmap other = true := by
  induction remaining generalizing position with
  | zero => omega
  | succ remaining ih =>
    rw [firstClear] at result
    split at result
    · simp at result
    · rename_i set
      by_cases here : other = position
      · rw [here]
        simpa using set
      · exact ih (position + 1) result (by omega) (by omega)

/-- A sum grows by one where one term does. -/
theorem sum_range_add_one (first second : Nat → Nat) (bound position : Nat)
    (inside : position < bound) (grows : second position = first position + 1)
    (same : ∀ other < bound, other ≠ position → second other = first other) :
    ∑ index ∈ Finset.range bound, second index = ∑ index ∈ Finset.range bound, first index + 1 := by
  induction bound with
  | zero => omega
  | succ bound ih =>
    rw [Finset.sum_range_succ, Finset.sum_range_succ]
    by_cases last : position = bound
    · subst last
      have before : ∑ index ∈ Finset.range position, second index =
          ∑ index ∈ Finset.range position, first index := by
        apply Finset.sum_congr rfl
        intro index member
        have below := Finset.mem_range.mp member
        exact same index (by omega) (by omega)
      lia
    · have before := ih (by omega) (fun other below => same other (by omega))
      have last := same bound (by omega) (by omega)
      lia

/-- A sum whose first summand differs from the others. -/
theorem sum_range_first (values : Nat → Nat) (count first rest : Nat) (zero : values 0 = first)
    (others : ∀ index < count, values (index + 1) = rest) :
    ∑ index ∈ Finset.range (count + 1), values index = first + count * rest := by
  have equal : ∑ index ∈ Finset.range count, values (index + 1) = count * rest := by
    rw [Finset.sum_const_nat (fun index member => others index (Finset.mem_range.mp member)),
      Finset.card_range]
  rw [Finset.sum_range_succ', equal, zero, Nat.add_comm]

end OpenGauss.Base
