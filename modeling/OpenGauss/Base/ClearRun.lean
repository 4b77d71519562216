import OpenGauss.Base.Bits
import Mathlib.Data.Finset.Card
import Mathlib.Order.Interval.Finset.Nat

/-!
# Runs of clear bits

An allocator that hands out adjacent units keeps one bit for each unit and looks for a run of
clear bits: around a place it already has, or anywhere from the left. The module has these scans,
the marking of a range of bits, what each scan guarantees of the bits it passed, and how marking
changes the number of clear bits.
-/
namespace OpenGauss.Base

/-- The bitmap with a range of bits given one value. -/
def writeRange (bitmap : Nat → Bool) (start count : Nat) (value : Bool) : Nat → Bool :=
  fun other => if start ≤ other ∧ other < start + count then value else bitmap other

/-- The bitmap with the listed bits given one value. -/
def writeAll (bitmap : Nat → Bool) (positions : List Nat) (value : Bool) : Nat → Bool :=
  fun other => if other ∈ positions then value else bitmap other

/-- The number of clear bits right before a position, at most the given number; position 0 is
never counted. -/
def clearBefore (bitmap : Nat → Bool) (position : Nat) : Nat → Nat
  | 0 => 0
  | remaining + 1 =>
    if 0 < position - 1 ∧ bitmap (position - 1) = false then
      clearBefore bitmap (position - 1) remaining + 1
    else 0

/-- The number of clear bits right after a position and up to a last one, at most the given
number. -/
def clearAfter (bitmap : Nat → Bool) (last position : Nat) : Nat → Nat
  | 0 => 0
  | remaining + 1 =>
    if position + 1 ≤ last ∧ bitmap (position + 1) = false then
      clearAfter bitmap last (position + 1) remaining + 1
    else 0

/-- The scan for a run of clear bits of the given length, where `seen` clear bits lie right
before the position. -/
def firstClearRun (bitmap : Nat → Bool) (length : Nat) : Nat → Nat → Nat → Option Nat
  | 0, _, _ => none
  | remaining + 1, position, seen =>
    if bitmap position = false then
      if seen + 1 = length then some (position + 1 - length)
      else firstClearRun bitmap length remaining (position + 1) (seen + 1)
    else firstClearRun bitmap length remaining (position + 1) 0

/-- The number of clear bits from position 1 up to a last one. -/
def clearUpTo (bitmap : Nat → Bool) (last : Nat) : Nat :=
  ((Finset.Icc 1 last).filter fun position => bitmap position = false).card

variable (bitmap : Nat → Bool) (last : Nat) (positions : List Nat) (start count other : Nat)

/-- A bit inside the range is written. -/
theorem writeRange_inside (value : Bool) (low : start ≤ other) (high : other < start + count) :
    writeRange bitmap start count value other = value := by
  rw [writeRange, if_pos ⟨low, high⟩]

/-- Setting a range keeps set bits. -/
theorem writeRange_true_of_set
    (set : bitmap other = true) : writeRange bitmap start count true other = true := by
  rw [writeRange]
  split
  · rfl
  · exact set

/-- A listed bit is written. -/
theorem writeAll_listed {other : Nat} (value : Bool)
    (listed : other ∈ positions) : writeAll bitmap positions value other = value := by
  rw [writeAll, if_pos listed]

/-- Other bits are not changed. -/
theorem writeAll_unlisted {other : Nat} (value : Bool) (unlisted : other ∉ positions) :
    writeAll bitmap positions value other = bitmap other := by
  rw [writeAll, if_neg unlisted]

/-- The bits counted before a position are clear. -/
theorem clearBefore_spec (position remaining : Nat) (positive : 0 < position) :
    clearBefore bitmap position remaining < position ∧
      ∀ other, position - clearBefore bitmap position remaining ≤ other → other < position →
        bitmap other = false := by
  induction remaining generalizing position with
  | zero =>
    refine ⟨positive, ?_⟩
    intro other low high
    rw [clearBefore] at low
    lia
  | succ remaining ih =>
    rw [clearBefore]
    by_cases clear : 0 < position - 1 ∧ bitmap (position - 1) = false
    · rw [if_pos clear]
      obtain ⟨fewer, free⟩ := ih (position - 1) clear.1
      refine ⟨by omega, ?_⟩
      intro other low high
      by_cases last : other = position - 1
      · rw [last]
        exact clear.2
      · exact free other (by lia) (by lia)
    · rw [if_neg clear]
      refine ⟨positive, ?_⟩
      intro other low high
      lia

/-- The bits counted behind a position are clear, and inside. -/
theorem clearAfter_spec (last position remaining : Nat) :
    (0 < clearAfter bitmap last position remaining →
        position + clearAfter bitmap last position remaining ≤ last) ∧
      ∀ other, position < other → other ≤ position + clearAfter bitmap last position remaining →
        bitmap other = false := by
  induction remaining generalizing position with
  | zero =>
    refine ⟨?_, ?_⟩
    · intro counted
      rw [clearAfter] at counted
      omega
    · intro other low high
      rw [clearAfter] at high
      omega
  | succ remaining ih =>
    rw [clearAfter]
    by_cases clear : position + 1 ≤ last ∧ bitmap (position + 1) = false
    · rw [if_pos clear]
      obtain ⟨inside, free⟩ := ih (position + 1)
      refine ⟨by omega, ?_⟩
      intro other low high
      by_cases next : other = position + 1
      · rw [next]
        exact clear.2
      · exact free other (by lia) (by omega)
    · rw [if_neg clear]
      refine ⟨by omega, ?_⟩
      intro other low high
      omega

/-- The first run of clear bits is clear, long enough and inside. -/
theorem firstClearRun_spec (length remaining position seen found : Nat)
    (nonempty : 0 < length) (short : seen < length) (room : seen ≤ position)
    (before : ∀ other, position - seen ≤ other → other < position → bitmap other = false)
    (result : firstClearRun bitmap length remaining position seen = some found) :
    position - seen ≤ found ∧ found + length ≤ position + remaining ∧
      ∀ other, found ≤ other → other < found + length → bitmap other = false := by
  induction remaining generalizing position seen with
  | zero => simp [firstClearRun] at result
  | succ remaining ih =>
    rw [firstClearRun] at result
    by_cases clear : bitmap position = false
    · rw [if_pos clear] at result
      have passed (other : Nat) (low : position - seen ≤ other) (high : other < position + 1) :
          bitmap other = false := by
        by_cases last : other = position
        · rw [last]
          exact clear
        · exact before other low (by omega)
      by_cases full : seen + 1 = length
      · rw [if_pos full, Option.some.injEq] at result
        refine ⟨by omega, by omega, ?_⟩
        intro other low high
        exact passed other (by omega) (by omega)
      · rw [if_neg full] at result
        obtain ⟨low, high, free⟩ := ih (position + 1) (seen + 1) (by omega) (by omega)
          (fun other low high => passed other (by lia) high) result
        exact ⟨by lia, by lia, free⟩
    · rw [if_neg clear] at result
      obtain ⟨low, high, free⟩ := ih (position + 1) 0 nonempty (by omega)
        (fun other low high => absurd high (by lia)) result
      exact ⟨by grind, by lia, free⟩

/-- There are no more clear bits than bits. -/
theorem clearUpTo_le : clearUpTo bitmap last ≤ last := by
  have count : (Finset.Icc 1 last).card = last := by
    rw [Nat.card_Icc, Nat.add_sub_cancel]
  calc
    clearUpTo bitmap last ≤ (Finset.Icc 1 last).card := Finset.card_filter_le _ _
    _ = last := count

/-- More clear bits add their number. -/
theorem clearUpTo_extend (last more : Nat)
    (free : ∀ position, last < position → position ≤ last + more → bitmap position = false) :
    clearUpTo bitmap (last + more) = clearUpTo bitmap last + more := by
  have split : (Finset.Icc 1 (last + more)).filter (fun position => bitmap position = false) =
      (Finset.Icc 1 last).filter (fun position => bitmap position = false) ∪
        Finset.Ioc last (last + more) := by
    ext position
    simp only [Finset.mem_filter, Finset.mem_union, Finset.mem_Icc, Finset.mem_Ioc]
    constructor
    · rintro ⟨range, clear⟩
      by_cases low : position ≤ last
      · exact .inl ⟨⟨range.1, low⟩, clear⟩
      · exact .inr ⟨by omega, range.2⟩
    · rintro (⟨range, clear⟩ | range)
      · exact ⟨⟨range.1, by omega⟩, clear⟩
      · exact ⟨⟨by omega, range.2⟩, free position range.1 range.2⟩
  have apart : Disjoint ((Finset.Icc 1 last).filter fun position => bitmap position = false)
      (Finset.Ioc last (last + more)) := by
    apply Finset.disjoint_left.mpr
    intro position inside behind
    have low := (Finset.mem_Icc.mp (Finset.mem_filter.mp inside).1).2
    have high := (Finset.mem_Ioc.mp behind).1
    omega
  rw [clearUpTo, split, Finset.card_union_of_disjoint apart, Nat.card_Ioc, clearUpTo]
  lia

/-- Setting a run of clear bits takes its length off the count. -/
theorem clearUpTo_writeRange (last start count : Nat) (positive : 1 ≤ start)
    (inside : start + count ≤ last + 1) (free : ∀ index < count, bitmap (start + index) = false) :
    clearUpTo (writeRange bitmap start count true) last + count = clearUpTo bitmap last := by
  have split : (Finset.Icc 1 last).filter (fun position => bitmap position = false) =
      (Finset.Icc 1 last).filter
          (fun position => writeRange bitmap start count true position = false) ∪
        Finset.Ico start (start + count) := by
    ext position
    simp only [Finset.mem_filter, Finset.mem_union, Finset.mem_Icc, Finset.mem_Ico]
    by_cases range : start ≤ position ∧ position < start + count
    · have clear := free (position - start) (by omega)
      rw [Nat.add_sub_cancel' range.1] at clear
      exact ⟨fun _ => .inr range, fun _ => ⟨by omega, clear⟩⟩
    · rw [writeRange, if_neg range]
      exact ⟨.inl, fun either => either.resolve_right range⟩
  have apart : Disjoint ((Finset.Icc 1 last).filter
      fun position => writeRange bitmap start count true position = false)
      (Finset.Ico start (start + count)) := by
    apply Finset.disjoint_left.mpr
    intro position clear range
    obtain ⟨low, high⟩ := Finset.mem_Ico.mp range
    have set := writeRange_inside bitmap start count position true low high
    rw [(Finset.mem_filter.mp clear).2] at set
    exact Bool.false_ne_true set
  rw [clearUpTo, clearUpTo, split, Finset.card_union_of_disjoint apart, Nat.card_Ico,
    Nat.add_sub_cancel_left]

variable {positions}

/-- Clearing set bits adds their number. -/
theorem clearUpTo_writeAll (once : positions.Nodup)
    (set : ∀ position ∈ positions, 1 ≤ position ∧ position ≤ last ∧ bitmap position = true) :
    clearUpTo (writeAll bitmap positions false) last =
      clearUpTo bitmap last + positions.length := by
  have split : (Finset.Icc 1 last).filter
      (fun position => writeAll bitmap positions false position = false) =
      (Finset.Icc 1 last).filter (fun position => bitmap position = false) ∪
        positions.toFinset := by
    ext position
    simp only [Finset.mem_filter, Finset.mem_union, Finset.mem_Icc, List.mem_toFinset]
    by_cases listed : position ∈ positions
    · obtain ⟨low, high, -⟩ := set position listed
      rw [writeAll_listed _ _ _ listed]
      exact ⟨fun _ => .inr listed, fun _ => ⟨⟨low, high⟩, rfl⟩⟩
    · rw [writeAll_unlisted _ _ _ listed]
      exact ⟨.inl, fun either => either.resolve_right listed⟩
  have apart : Disjoint ((Finset.Icc 1 last).filter fun position => bitmap position = false)
      positions.toFinset := by
    apply Finset.disjoint_left.mpr
    intro position clear listed
    have taken := (set position (List.mem_toFinset.mp listed)).2.2
    rw [(Finset.mem_filter.mp clear).2] at taken
    exact Bool.false_ne_true taken
  rw [clearUpTo, split, Finset.card_union_of_disjoint apart, List.toFinset_card_of_nodup once,
    clearUpTo]

end OpenGauss.Base
