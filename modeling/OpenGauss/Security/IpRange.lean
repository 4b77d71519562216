import OpenGauss.Base.Run
import Mathlib.Data.Set.Lattice

/-!
# Sets of IP address ranges

`IPRange` keeps a set of 128-bit addresses as a list of ranges. Adding a range merges it with the
ranges it meets, removing one trims, splits or drops the ranges it meets. Both compare addresses
with an order of their own, which asks whether one of the two halves is smaller, and both step to
the next or previous address with an addition that treats every address whose second word is
`0xFFFF` as a mapped IPv4 address. The module proves that the list stays sorted and disjoint and
denotes the right set of addresses along every run whose steps compare and step rightly.
-/

namespace OpenGauss.Security

open List OpenGauss.Base

/-- A 128-bit address as four words, the lowest first. -/
structure IPV6 where
  a : BitVec 32
  b : BitVec 32
  c : BitVec 32
  d : BitVec 32
  deriving DecidableEq

/-- The lower half of an address. -/
def IPV6.lower (ip : IPV6) : Nat := 4294967296 * ip.b.toNat + ip.a.toNat

/-- The upper half of an address. -/
def IPV6.upper (ip : IPV6) : Nat := 4294967296 * ip.d.toNat + ip.c.toNat

/-- Whether one of the halves is smaller (`operator<`). -/
def IPV6.lt (lhs rhs : IPV6) : Bool :=
  decide (lhs.upper < rhs.upper) || decide (lhs.lower < rhs.lower)

/-- The order the other way (`operator>`). -/
def IPV6.gt (lhs rhs : IPV6) : Bool := rhs.lt lhs

/-- Not after (`operator<=`). -/
def IPV6.le (lhs rhs : IPV6) : Bool := !lhs.gt rhs

/-- Not before (`operator>=`). -/
def IPV6.ge (lhs rhs : IPV6) : Bool := !lhs.lt rhs

/-- The larger of two addresses (`std::max`). -/
def IPV6.max (first second : IPV6) : IPV6 := if first.lt second then second else first

/-- The smaller of two addresses (`std::min`). -/
def IPV6.min (first second : IPV6) : IPV6 := if second.lt first then second else first

/-- The second word that marks a mapped IPv4 address. -/
def mappedWord : BitVec 32 := 0xFFFF#32

/-- Add an address to another (`operator+`). -/
def IPV6.add (lhs rhs : IPV6) : IPV6 :=
  if lhs.b = mappedWord then { a := lhs.a + rhs.a, b := mappedWord, c := 0, d := 0 }
  else
    let first := lhs.a.toNat + rhs.a.toNat
    let second := lhs.b.toNat + rhs.b.toNat + first / 4294967296
    let third := lhs.c.toNat + rhs.c.toNat + second / 4294967296
    let fourth := lhs.d.toNat + rhs.d.toNat + third / 4294967296
    { a := BitVec.ofNat 32 first
      b := BitVec.ofNat 32 second
      c := BitVec.ofNat 32 third
      d := BitVec.ofNat 32 fourth }

/-- Subtract an address from another (`operator-`). A negative difference of words borrows one from
the next word. -/
def IPV6.sub (lhs rhs : IPV6) : IPV6 :=
  if lhs.b = mappedWord then { a := lhs.a - rhs.a, b := mappedWord, c := 0, d := 0 }
  else
    let borrow : Int → Int := fun difference => if difference < 0 then 1 else 0
    let first : Int := lhs.a.toNat - rhs.a.toNat
    let second : Int := lhs.b.toNat - rhs.b.toNat - borrow first
    let third : Int := lhs.c.toNat - rhs.c.toNat - borrow second
    let fourth : Int := lhs.d.toNat - rhs.d.toNat - borrow third
    { a := BitVec.ofInt 32 first
      b := BitVec.ofInt 32 second
      c := BitVec.ofInt 32 third
      d := BitVec.ofInt 32 fourth }

/-- The address 1. -/
def oneAddress : IPV6 where
  a := 1
  b := 0
  c := 0
  d := 0

/-- The next address. -/
def IPV6.next (ip : IPV6) : IPV6 := ip.add oneAddress

/-- The previous address. -/
def IPV6.previous (ip : IPV6) : IPV6 := ip.sub oneAddress

/-- A range of addresses. -/
structure Range where
  /-- Its first address (`from`). -/
  first : IPV6
  /-- Its last address (`to`). -/
  last : IPV6
  deriving DecidableEq

/-- Grow a new range by a stored one that it meets; no result if it does not. -/
def handleAddIntersection (newRange existRange : Range) : Option Range :=
  let rangeMin := newRange.first.max existRange.first
  let rangeMax := newRange.last.min existRange.last
  if rangeMin.gt rangeMax then none
  else some { first := newRange.first.min existRange.first,
              last := newRange.last.max existRange.last }

/-- The loop of `add_range`: merge the stored ranges that meet the new one and copy the others. -/
def addLoop (newRange : Range) (hadIntersection : Bool) : List Range → List Range
  | [] => if hadIntersection then [newRange] else []
  | existRange :: rest =>
    match handleAddIntersection newRange existRange with
    | some merged => addLoop merged true rest
    | none =>
      if hadIntersection then newRange :: existRange :: rest
      else if newRange.last.lt existRange.first then newRange :: existRange :: rest
      else existRange :: addLoop newRange false rest

/-- Add a range. -/
def addRange (ranges : List Range) (newRange : Range) : List Range :=
  match ranges.head?, ranges.getLast? with
  | some front, some back =>
    if newRange.last.lt front.first then newRange :: ranges
    else if newRange.first.gt back.last then ranges ++ [newRange]
    else addLoop newRange false ranges
  | _, _ => [newRange]

/-- What is left of a stored range. -/
def handleRemoveIntersection (removeRange existRange : Range) : List Range :=
  let rangeMin := removeRange.first.max existRange.first
  let rangeMax := removeRange.last.min existRange.last
  if rangeMin.gt rangeMax then [existRange]
  else if removeRange.first.le existRange.first && removeRange.last.ge existRange.last then []
  else if removeRange.first.le existRange.first then
    [{ existRange with first := removeRange.last.next }]
  else if removeRange.last.ge existRange.last then
    [{ existRange with last := removeRange.first.previous }]
  else
    [{ existRange with last := removeRange.first.previous },
      { existRange with first := removeRange.last.next }]

/-- Remove a range. -/
def removeRange (ranges : List Range) (range : Range) : List Range :=
  ranges.flatMap (handleRemoveIntersection range)

/-- What happens to the ranges. -/
inductive RangeOperation
  | add (range : Range)
  | remove (range : Range)

/-- The range of an operation. -/
def RangeOperation.range : RangeOperation → Range
  | .add range => range
  | .remove range => range

/-- Carry out an operation. -/
def rangeStep (ranges : List Range) : RangeOperation → List Range
  | .add range => addRange ranges range
  | .remove range => removeRange ranges range

/-- The number that an address stands for. -/
def IPV6.number (ip : IPV6) : Nat := 18446744073709551616 * ip.upper + ip.lower

/-- The addresses of a range. -/
def Range.addresses (range : Range) : Set IPV6 :=
  { ip | range.first.number ≤ ip.number ∧ ip.number ≤ range.last.number }

/-- The addresses of a list of ranges. -/
def addressesOf (ranges : List Range) : Set IPV6 := { ip | ∃ range ∈ ranges, ip ∈ range.addresses }

/-- The effect of an operation on a set of addresses. -/
def setStep (addresses : Set IPV6) : RangeOperation → Set IPV6
  | .add range => addresses ∪ range.addresses
  | .remove range => addresses \ range.addresses

/-- The ranges are not empty, and sorted without an address in two of them. -/
structure Tidy (ranges : List Range) : Prop where
  valid : ∀ range ∈ ranges, range.first.number ≤ range.last.number
  sorted : ranges.Pairwise fun range later => range.last.number < later.first.number

/-- The bounds of some ranges. -/
def boundsOf (ranges : List Range) : List IPV6 :=
  ranges.flatMap fun range => [range.first, range.last]

/-- The order of the addresses is that of their numbers. -/
def OrdersWell (bounds : List IPV6) : Prop :=
  ∀ first ∈ bounds, ∀ second ∈ bounds, first.lt second = true ↔ first.number < second.number

/-- A removal cuts rightly: where a stored range goes on behind the removed one, the next address
is the one with the next number, and where it begins before, the previous address is the one with
the previous number. -/
def CutsWell (ranges : List Range) (range : Range) : Prop :=
  ∀ stored ∈ ranges,
    (stored.first.number ≤ range.last.number → range.last.number < stored.last.number →
      range.last.next.number = range.last.number + 1) ∧
    (stored.first.number < range.first.number → range.first.number ≤ stored.last.number →
      range.first.previous.number + 1 = range.first.number)

/-- The loop of `add_range` compares rightly: the new range, grown by the stored ranges that it has
met, with each stored range that the loop comes to. -/
def LoopComparesWell (newRange : Range) (hadIntersection : Bool) : List Range → Prop
  | [] => True
  | existRange :: rest => OrdersWell (boundsOf [newRange, existRange]) ∧
    match handleAddIntersection newRange existRange with
    | some merged => LoopComparesWell merged true rest
    | none => hadIntersection = false → newRange.last.lt existRange.first = false →
      LoopComparesWell newRange false rest

/-- An addition compares rightly: with the first and the last stored range, and in the loop. -/
def AddsWell (ranges : List Range) (newRange : Range) : Prop :=
  match ranges.head?, ranges.getLast? with
  | some front, some back => OrdersWell [newRange.last, front.first] ∧
    (newRange.last.lt front.first = false → OrdersWell [newRange.first, back.last] ∧
      (newRange.first.gt back.last = false → LoopComparesWell newRange false ranges))
  | _, _ => True

/-- A removal compares rightly: the removed range with each stored range. -/
def RemovesWell (ranges : List Range) (range : Range) : Prop :=
  ∀ stored ∈ ranges, OrdersWell (boundsOf [range, stored])

/-- A step compares and cuts rightly. -/
def StepsWell (ranges : List Range) : RangeOperation → Prop
  | .add range => AddsWell ranges range
  | .remove range => RemovesWell ranges range ∧ CutsWell ranges range

variable (range : Range) (ranges : List Range)

theorem addsWell_stored (newRange : Range) {front back : Range}
    (isFirst : ranges.head? = some front) (isLast : ranges.getLast? = some back) :
    AddsWell ranges newRange ↔ OrdersWell [newRange.last, front.first] ∧
      (newRange.last.lt front.first = false → OrdersWell [newRange.first, back.last] ∧
        (newRange.first.gt back.last = false → LoopComparesWell newRange false ranges)) := by
  rw [AddsWell, isFirst, isLast]

theorem addsWell_none (newRange : Range) (empty : ranges.head? = none ∨ ranges.getLast? = none) :
    AddsWell ranges newRange := by
  rw [head?_eq_none_iff, getLast?_eq_none_iff, or_self] at empty
  rw [empty]
  exact trivial

variable {ranges}

theorem mem_boundsOf {range : Range} (stored : range ∈ ranges) :
    range.first ∈ boundsOf ranges ∧ range.last ∈ boundsOf ranges := by
  constructor
  · exact mem_flatMap.mpr ⟨range, stored, mem_cons_self⟩
  · exact mem_flatMap.mpr ⟨range, stored, mem_cons_of_mem _ mem_cons_self⟩

variable (ranges)

theorem tidy_cons : Tidy (range :: ranges) ↔ range.first.number ≤ range.last.number ∧
      (∀ later ∈ ranges, range.last.number < later.first.number) ∧ Tidy ranges := by
  constructor
  · intro tidy
    obtain ⟨before, sorted⟩ := pairwise_cons.mp tidy.sorted
    exact ⟨tidy.valid range mem_cons_self, before,
      fun other stored => tidy.valid other (mem_cons_of_mem _ stored), sorted⟩
  · rintro ⟨valid, before, tidy⟩
    refine ⟨?_, pairwise_cons.mpr ⟨before, tidy.sorted⟩⟩
    intro other stored
    obtain same | later := mem_cons.mp stored
    · rw [same]
      exact valid
    · exact tidy.valid other later

theorem addressesOf_cons :
    addressesOf (range :: ranges) = range.addresses ∪ addressesOf ranges := by
  ext ip
  simp [addressesOf]

theorem tidy_append {range : Range} (tidy : Tidy ranges)
    (valid : range.first.number ≤ range.last.number)
    (behind : ∀ stored ∈ ranges, stored.last.number < range.first.number) :
    Tidy (ranges ++ [range]) := by
  refine ⟨?_, pairwise_append.mpr ⟨tidy.sorted, pairwise_singleton _ _, ?_⟩⟩
  · intro other stored
    obtain inside | same := mem_append.mp stored
    · exact tidy.valid other inside
    · rw [mem_singleton.mp same]
      exact valid
  · intro stored inside later same
    rw [mem_singleton.mp same]
    exact behind stored inside

theorem Tidy.last_le {back : Range} (tidy : Tidy ranges)
    (isLast : ranges.getLast? = some back) {range : Range} (stored : range ∈ ranges) :
    range.last.number ≤ back.last.number := by
  obtain ⟨front, split⟩ := getLast?_eq_some_iff.mp isLast
  subst split
  obtain before | same := mem_append.mp stored
  · have less := (pairwise_append.mp tidy.sorted).2.2 range before back mem_cons_self
    have valid := tidy.valid back (mem_append_right _ mem_cons_self)
    omega
  · rw [mem_singleton.mp same]

theorem tidy_singleton (valid : range.first.number ≤ range.last.number) : Tidy [range] :=
  (tidy_cons range []).mpr ⟨valid, fun _ none => absurd none not_mem_nil,
    ⟨fun _ none => absurd none not_mem_nil, List.Pairwise.nil⟩⟩

theorem addressesOf_singleton : addressesOf [range] = range.addresses := by
  ext ip
  simp [addressesOf]

section Adding

variable (bounds : List IPV6) (well : OrdersWell bounds)

include well

variable (first second : IPV6)

section

variable (one : first ∈ bounds) (other : second ∈ bounds)
include one other

variable {bounds first second}

theorem max_number : first.max second ∈ bounds ∧
      (first.max second).number = Max.max first.number second.number := by
  have order := well first one second other
  rw [IPV6.max]
  by_cases less : first.lt second = true
  · rw [if_pos less]
    exact ⟨other, (Nat.max_eq_right (order.mp less).le).symm⟩
  · rw [if_neg less]
    exact ⟨one, (Nat.max_eq_left (Nat.not_lt.mp fun lower => less (order.mpr lower))).symm⟩

theorem min_number : first.min second ∈ bounds ∧
      (first.min second).number = Min.min first.number second.number := by
  have order := well second other first one
  rw [IPV6.min]
  by_cases less : second.lt first = true
  · rw [if_pos less]
    exact ⟨other, (Nat.min_eq_right (order.mp less).le).symm⟩
  · rw [if_neg less]
    exact ⟨one, (Nat.min_eq_left (Nat.not_lt.mp fun lower => less (order.mpr lower))).symm⟩

theorem le_iff_number :
    first.le second = true ↔ first.number ≤ second.number := by
  rw [IPV6.le, IPV6.gt, Bool.not_eq_true', Bool.eq_false_iff, Ne,
    well second other first one, Nat.not_lt]

variable (bounds first second)

theorem ge_iff_number :
    first.ge second = true ↔ second.number ≤ first.number := by
  rw [IPV6.ge, Bool.not_eq_true', Bool.eq_false_iff, Ne, well first one second other, Nat.not_lt]

end

/-- Ranges that are not merged lie apart. -/
theorem handleAddIntersection_none (newRange existRange : Range)
    (newFirst : newRange.first ∈ bounds) (newLast : newRange.last ∈ bounds)
    (existFirst : existRange.first ∈ bounds) (existLast : existRange.last ∈ bounds)
    (newValid : newRange.first.number ≤ newRange.last.number)
    (existValid : existRange.first.number ≤ existRange.last.number)
    (apart : handleAddIntersection newRange existRange = none) :
    newRange.last.number < existRange.first.number ∨
      existRange.last.number < newRange.first.number := by
  obtain ⟨maxIn, maxValue⟩ := max_number well newFirst existFirst
  obtain ⟨minIn, minValue⟩ := min_number well newLast existLast
  rw [handleAddIntersection] at apart
  by_cases after : (newRange.first.max existRange.first).gt
      (newRange.last.min existRange.last) = true
  · have less := (well _ minIn _ maxIn).mp after
    omega
  · rw [if_neg after] at apart
    cases apart

/-- Ranges that are merged meet, and are joined. -/
theorem handleAddIntersection_some {newRange existRange merged : Range}
    (newFirst : newRange.first ∈ bounds) (newLast : newRange.last ∈ bounds)
    (existFirst : existRange.first ∈ bounds) (existLast : existRange.last ∈ bounds)
    (meets : handleAddIntersection newRange existRange = some merged) :
    merged.first ∈ bounds ∧ merged.last ∈ bounds ∧
      merged.first.number = Min.min newRange.first.number existRange.first.number ∧
      merged.last.number = Max.max newRange.last.number existRange.last.number ∧
      newRange.first.number ≤ existRange.last.number ∧
      existRange.first.number ≤ newRange.last.number := by
  obtain ⟨maxIn, maxValue⟩ := max_number well newFirst existFirst
  obtain ⟨minIn, minValue⟩ := min_number well newLast existLast
  obtain ⟨firstIn, firstValue⟩ := min_number well newFirst existFirst
  obtain ⟨lastIn, lastValue⟩ := max_number well newLast existLast
  rw [handleAddIntersection] at meets
  by_cases after : (newRange.first.max existRange.first).gt
      (newRange.last.min existRange.last) = true
  · rw [if_pos after] at meets
    cases meets
  · rw [if_neg after] at meets
    cases meets
    have order := well _ minIn _ maxIn
    rw [maxValue, minValue] at order
    have overlap : ¬Min.min newRange.last.number existRange.last.number <
        Max.max newRange.first.number existRange.first.number := fun less =>
      after (order.mpr less)
    exact ⟨firstIn, lastIn, firstValue, lastValue, by grind, by grind⟩

end Adding

/-- What the loop makes of the stored ranges from one on. -/
structure Added (newRange : Range) (ranges result : List Range) : Prop where
  tidy : Tidy result
  addresses : addressesOf result = addressesOf ranges ∪ newRange.addresses
  begins : ∀ bound, bound < newRange.first.number → (∀ range ∈ ranges, bound < range.first.number) →
      ∀ range ∈ result, bound < range.first.number

/-- The loop adds the range, whether it has met stored ranges already or not. -/
theorem addLoop_added (ranges : List Range) (newRange : Range) (hadIntersection : Bool)
    (well : LoopComparesWell newRange hadIntersection ranges)
    (newValid : newRange.first.number ≤ newRange.last.number) (tidy : Tidy ranges)
    (had : hadIntersection = true → ∀ range ∈ ranges, newRange.first.number ≤ range.last.number)
    (hadNot : hadIntersection = false → ∃ range ∈ ranges,
      newRange.first.number ≤ range.last.number) :
    Added newRange ranges (addLoop newRange hadIntersection ranges) := by
  induction ranges generalizing newRange hadIntersection with
  | nil =>
    cases hadIntersection with
    | false =>
      obtain ⟨range, none, _⟩ := hadNot rfl
      exact absurd none not_mem_nil
    | true =>
      refine ⟨tidy_singleton newRange newValid, ?_, ?_⟩
      · show addressesOf [newRange] = addressesOf [] ∪ newRange.addresses
        rw [addressesOf_cons, Set.union_comm]
      · intro bound lower _ range stored
        rw [mem_singleton.mp stored]
        exact lower
  | cons existRange rest ih =>
    obtain ⟨existValid, before, tidyRest⟩ := (tidy_cons existRange rest).mp tidy
    obtain ⟨newFirst, newLast⟩ :=
      mem_boundsOf mem_cons_self
    obtain ⟨existFirst, existLast⟩ :=
      mem_boundsOf (mem_cons_of_mem _ mem_cons_self)
    obtain ⟨wellHere, wellRest⟩ := well
    simp only [addLoop]
    cases meets : handleAddIntersection newRange existRange with
    | some merged =>
      obtain ⟨-, -, firstValue, lastValue, low, high⟩ :=
        handleAddIntersection_some _ wellHere newFirst newLast existFirst existLast meets
      rw [meets] at wellRest
      have added := ih merged true wellRest (by grind) tidyRest (by
          intro _ range stored
          have behind := before range stored
          have valid := tidyRest.valid range stored
          lia)
        (fun none => Bool.noConfusion none)
      refine ⟨added.tidy, ?_, ?_⟩
      · rw [added.addresses, addressesOf_cons]
        ext ip
        simp only [Set.mem_union, Range.addresses, Set.mem_ofPred_eq]
        constructor
        · rintro (stored | ⟨from', to'⟩)
          · exact .inl (.inr stored)
          · by_cases inExist : existRange.first.number ≤ ip.number ∧
                ip.number ≤ existRange.last.number
            · exact .inl (.inl inExist)
            · exact .inr (by lia)
        · rintro ((inExist | stored) | inNew)
          · exact .inr (by lia)
          · exact .inl stored
          · exact .inr (by lia)
      · intro bound lower all range stored
        apply added.begins bound _ _ range stored
        · have := all existRange mem_cons_self
          lia
        · exact fun other later => all other (mem_cons_of_mem _ later)
    | none =>
      have apart := handleAddIntersection_none _ wellHere newRange existRange newFirst newLast
        existFirst existLast newValid existValid meets
      rw [meets] at wellRest
      have placed (inFront : newRange.last.number < existRange.first.number) :
          Added newRange (existRange :: rest) (newRange :: existRange :: rest) := by
        refine ⟨?_, ?_, ?_⟩
        · refine (tidy_cons _ _).mpr ⟨newValid, ?_, tidy⟩
          intro later stored
          obtain same | behind := mem_cons.mp stored
          · rw [same]
            exact inFront
          · have := before later behind
            omega
        · rw [addressesOf_cons newRange, Set.union_comm]
        · intro bound lower all range stored
          obtain same | behind := mem_cons.mp stored
          · rw [same]
            exact lower
          · exact all range behind
      cases hadIntersection with
      | true =>
        apply placed
        have := had rfl existRange mem_cons_self
        omega
      | false =>
        simp only [Bool.false_eq_true, ↓reduceIte]
        have order := wellHere newRange.last newLast existRange.first existFirst
        by_cases inFront : newRange.last.lt existRange.first = true
        · rw [if_pos inFront]
          exact placed (order.mp inFront)
        · rw [if_neg inFront]
          have behind : existRange.last.number < newRange.first.number := by
            obtain lower | upper := apart
            · exact absurd (order.mpr lower) inFront
            · exact upper
          have added := ih newRange false (wellRest rfl (Bool.eq_false_iff.mpr inFront)) newValid
            tidyRest
            (fun none => Bool.noConfusion none)
            (by
              intro _
              obtain ⟨range, stored, reaches⟩ := hadNot rfl
              obtain same | later := mem_cons.mp stored
              · rw [same] at reaches
                omega
              · exact ⟨range, later, reaches⟩)
          refine ⟨?_, ?_, ?_⟩
          · exact (tidy_cons _ _).mpr ⟨existValid,
              added.begins existRange.last.number behind before, added.tidy⟩
          · rw [addressesOf_cons, added.addresses, addressesOf_cons, Set.union_assoc]
          · intro bound lower all range stored
            obtain same | later := mem_cons.mp stored
            · rw [same]
              exact all existRange mem_cons_self
            · exact added.begins bound lower
                (fun other rest => all other (mem_cons_of_mem _ rest)) range later

variable (ranges : List Range)

/-- An addition keeps the ranges tidy and adds its addresses. -/
theorem addRange_tidy {newRange : Range} (tidy : Tidy ranges)
    (valid : newRange.first.number ≤ newRange.last.number)
    (well : AddsWell ranges newRange) : Tidy (addRange ranges newRange) ∧
      addressesOf (addRange ranges newRange) = addressesOf ranges ∪ newRange.addresses := by
  rw [AddsWell] at well
  rw [addRange]
  cases isFirst : ranges.head? with
  | none =>
    have empty := head?_eq_none_iff.mp isFirst
    subst empty
    refine ⟨tidy_singleton newRange valid, ?_⟩
    show addressesOf [newRange] = _
    rw [addressesOf_cons, Set.union_comm]
  | some front =>
    cases isLast : ranges.getLast? with
    | none =>
      rw [getLast?_eq_none_iff] at isLast
      rw [isLast] at isFirst
      cases isFirst
    | some back =>
      obtain ⟨rest, split⟩ := head?_eq_some_iff.mp isFirst
      have backStored := mem_of_getLast? isLast
      simp only [isFirst, isLast] at well
      obtain ⟨wellFront, wellRest⟩ := well
      dsimp only
      by_cases inFront : newRange.last.lt front.first = true
      · rw [if_pos inFront]
        have less := (wellFront _ mem_cons_self _ (mem_cons_of_mem _ mem_cons_self)).mp inFront
        refine ⟨(tidy_cons _ _).mpr ⟨valid, ?_, tidy⟩, ?_⟩
        · rw [split] at tidy ⊢
          obtain ⟨frontValid, before, _⟩ := (tidy_cons front rest).mp tidy
          intro later stored
          obtain same | behind := mem_cons.mp stored
          · rw [same]
            exact less
          · have := before later behind
            omega
        · rw [addressesOf_cons, Set.union_comm]
      · rw [if_neg inFront]
        obtain ⟨wellBack, wellLoop⟩ := wellRest (Bool.eq_false_iff.mpr inFront)
        have order := wellBack _ (mem_cons_of_mem _ mem_cons_self) _ mem_cons_self
        by_cases behind : newRange.first.gt back.last = true
        · rw [if_pos behind]
          have less := order.mp behind
          refine ⟨tidy_append ranges tidy valid ?_, ?_⟩
          · intro stored inside
            have := tidy.last_le ranges isLast inside
            omega
          · ext ip
            simp [addressesOf, or_and_right, exists_or]
        · rw [if_neg behind]
          have added := addLoop_added ranges newRange false
            (wellLoop (Bool.eq_false_iff.mpr behind)) valid tidy (fun none => Bool.noConfusion none)
            (fun _ => ⟨back, backStored, Nat.not_lt.mp fun less => behind (order.mpr less)⟩)
          exact ⟨added.tidy, added.addresses⟩

/-- What is left of a stored range: tidy ranges inside of it, with its addresses but the removed
ones. -/
theorem handleRemoveIntersection_tidy {bounds : List IPV6} (well : OrdersWell bounds)
    {range stored : Range} (first : range.first ∈ bounds) (last : range.last ∈ bounds)
    (storedFirst : stored.first ∈ bounds) (storedLast : stored.last ∈ bounds)
    (valid : range.first.number ≤ range.last.number)
    (storedValid : stored.first.number ≤ stored.last.number)
    (up : stored.first.number ≤ range.last.number → range.last.number < stored.last.number →
      range.last.next.number = range.last.number + 1)
    (down : stored.first.number < range.first.number → range.first.number ≤ stored.last.number →
      range.first.previous.number + 1 = range.first.number) :
    Tidy (handleRemoveIntersection range stored) ∧ (∀ piece ∈ handleRemoveIntersection range stored,
        stored.first.number ≤ piece.first.number ∧ piece.last.number ≤ stored.last.number) ∧
      addressesOf (handleRemoveIntersection range stored) = stored.addresses \ range.addresses := by
  obtain ⟨maxIn, maxValue⟩ := max_number well first storedFirst
  obtain ⟨minIn, minValue⟩ := min_number well last storedLast
  have after := well _ minIn _ maxIn
  rw [maxValue, minValue] at after
  have covers := le_iff_number well first storedFirst
  have reaches := ge_iff_number bounds well range.last stored.last last storedLast
  have single (piece : Range) (pieceValid : piece.first.number ≤ piece.last.number)
      (low : stored.first.number ≤ piece.first.number)
      (high : piece.last.number ≤ stored.last.number)
      (same : piece.addresses = stored.addresses \ range.addresses) :
      Tidy [piece] ∧ (∀ other ∈ [piece], stored.first.number ≤ other.first.number ∧
        other.last.number ≤ stored.last.number) ∧
        addressesOf [piece] = stored.addresses \ range.addresses := by
    refine ⟨tidy_singleton piece pieceValid, ?_, ?_⟩
    · intro other inside
      rw [mem_singleton.mp inside]
      exact ⟨low, high⟩
    · rw [addressesOf_singleton, same]
  rw [handleRemoveIntersection]
  by_cases apart : (range.first.max stored.first).gt (range.last.min stored.last) = true
  · rw [if_pos apart]
    have less := after.mp apart
    apply single stored storedValid le_rfl le_rfl
    ext ip
    simp only [Set.mem_sdiff, Range.addresses, Set.mem_ofPred_eq]
    omega
  · rw [if_neg apart]
    have overlap : ¬Min.min range.last.number stored.last.number <
        Max.max range.first.number stored.first.number := fun less => apart (after.mpr less)
    by_cases begins : range.first.le stored.first = true
    · have low := covers.mp begins
      by_cases ends : range.last.ge stored.last = true
      · have high := reaches.mp ends
        rw [if_pos (by simp [begins, ends])]
        refine ⟨⟨fun other none => absurd none not_mem_nil, List.Pairwise.nil⟩,
          fun other none => absurd none not_mem_nil, ?_⟩
        ext ip
        constructor
        · rintro ⟨piece, none, _⟩
          exact absurd none not_mem_nil
        · rintro ⟨⟨above, below⟩, outside⟩
          exact absurd ⟨by omega, by omega⟩ outside
      · have short : ¬stored.last.number ≤ range.last.number := fun high =>
          ends (reaches.mpr high)
        rw [if_neg (by simp [ends]), if_pos begins]
        apply single
        · show range.last.next.number ≤ stored.last.number
          omega
        · show stored.first.number ≤ range.last.next.number
          omega
        · exact le_rfl
        · ext ip
          simp only [Set.mem_sdiff, Range.addresses, Set.mem_ofPred_eq]
          omega
    · have late : ¬range.first.number ≤ stored.first.number := fun low =>
        begins (covers.mpr low)
      rw [if_neg (by simp [begins]), if_neg begins]
      by_cases ends : range.last.ge stored.last = true
      · have high := reaches.mp ends
        rw [if_pos ends]
        apply single
        · show stored.first.number ≤ range.first.previous.number
          omega
        · exact le_rfl
        · show range.first.previous.number ≤ stored.last.number
          omega
        · ext ip
          simp only [Set.mem_sdiff, Range.addresses, Set.mem_ofPred_eq]
          omega
      · have short : ¬stored.last.number ≤ range.last.number := fun high =>
          ends (reaches.mpr high)
        rw [if_neg ends]
        refine ⟨(tidy_cons _ _).mpr ⟨?_, ?_, tidy_singleton _ ?_⟩, ?_, ?_⟩
        · show stored.first.number ≤ range.first.previous.number
          omega
        · intro later inside
          rw [mem_singleton.mp inside]
          show range.first.previous.number < range.last.next.number
          omega
        · show range.last.next.number ≤ stored.last.number
          omega
        · intro piece inside
          obtain first | second := mem_cons.mp inside
          · rw [first]
            exact ⟨le_rfl, (by omega : range.first.previous.number ≤ stored.last.number)⟩
          · rw [mem_singleton.mp second]
            exact ⟨(by omega : stored.first.number ≤ range.last.next.number), le_rfl⟩
        · rw [addressesOf_cons, addressesOf_singleton]
          ext ip
          simp only [Set.mem_union, Set.mem_sdiff, Range.addresses, Set.mem_ofPred_eq]
          omega

/-- A removal keeps the ranges tidy and takes its addresses away. -/
theorem removeRange_tidy {range : Range} (tidy : Tidy ranges)
    (valid : range.first.number ≤ range.last.number)
    (well : RemovesWell ranges range) (cuts : CutsWell ranges range) :
    Tidy (removeRange ranges range) ∧
      addressesOf (removeRange ranges range) = addressesOf ranges \ range.addresses := by
  have piecewise : ∀ stored ∈ ranges, Tidy (handleRemoveIntersection range stored) ∧
      (∀ piece ∈ handleRemoveIntersection range stored,
        stored.first.number ≤ piece.first.number ∧ piece.last.number ≤ stored.last.number) ∧
      addressesOf (handleRemoveIntersection range stored) = stored.addresses \ range.addresses := by
    intro stored inside
    obtain ⟨first, last⟩ := mem_boundsOf mem_cons_self
    obtain ⟨storedFirst, storedLast⟩ := mem_boundsOf (mem_cons_of_mem _ mem_cons_self)
    exact handleRemoveIntersection_tidy (well stored inside) first last storedFirst
      storedLast valid (tidy.valid stored inside) (cuts stored inside).1 (cuts stored inside).2
  refine ⟨⟨?_, ?_⟩, ?_⟩
  · intro piece inside
    obtain ⟨stored, storedIn, pieceIn⟩ := mem_flatMap.mp inside
    exact (piecewise stored storedIn).1.valid piece pieceIn
  · rw [removeRange, pairwise_flatMap]
    refine ⟨fun stored storedIn => (piecewise stored storedIn).1.sorted, ?_⟩
    apply tidy.sorted.imp_of_mem
    intro stored later storedIn laterIn before piece pieceIn other otherIn
    have low := ((piecewise stored storedIn).2.1 piece pieceIn).2
    have high := ((piecewise later laterIn).2.1 other otherIn).1
    omega
  · ext ip
    simp only [Set.mem_sdiff]
    constructor
    · rintro ⟨piece, inside, here⟩
      obtain ⟨stored, storedIn, pieceIn⟩ := mem_flatMap.mp inside
      have both : ip ∈ stored.addresses \ range.addresses := by
        rw [← (piecewise stored storedIn).2.2]
        exact ⟨piece, pieceIn, here⟩
      exact ⟨⟨stored, storedIn, both.1⟩, both.2⟩
    · rintro ⟨⟨stored, storedIn, here⟩, outside⟩
      have both : ip ∈ addressesOf (handleRemoveIntersection range stored) := by
        rw [(piecewise stored storedIn).2.2]
        exact ⟨here, outside⟩
      obtain ⟨piece, pieceIn, inPiece⟩ := both
      exact ⟨piece, mem_flatMap.mpr ⟨stored, storedIn, pieceIn⟩, inPiece⟩

theorem rangeStep_tidy (operation : RangeOperation) (tidy : Tidy ranges)
    (valid : operation.range.first.number ≤ operation.range.last.number)
    (well : StepsWell ranges operation) : Tidy (rangeStep ranges operation) ∧
      addressesOf (rangeStep ranges operation) = setStep (addressesOf ranges) operation := by
  cases operation with
  | add range => exact addRange_tidy ranges tidy valid well
  | remove range => exact removeRange_tidy ranges tidy valid well.1 well.2

theorem rangeRun_tidy (operations : List RangeOperation) (ranges : List Range)
    (addresses : Set IPV6) (tidy : Tidy ranges) (denotes : addressesOf ranges = addresses)
    (valid : ∀ operation ∈ operations, operation.range.first.number ≤ operation.range.last.number)
    (well : Along rangeStep StepsWell ranges operations) :
    Tidy (operations.foldl rangeStep ranges) ∧
      addressesOf (operations.foldl rangeStep ranges) = operations.foldl setStep addresses := by
  induction operations generalizing ranges addresses with
  | nil => exact ⟨tidy, denotes⟩
  | cons operation rest ih =>
    obtain ⟨tidyNext, denotesNext⟩ := rangeStep_tidy ranges operation tidy
      (valid operation mem_cons_self) well.1
    apply ih _ _ tidyNext _ (fun other later => valid other (mem_cons_of_mem _ later)) well.2
    rw [denotesNext, denotes]

/-- Along every run of additions and removals whose steps compare and cut rightly, the ranges stay
sorted and disjoint and denote the set that the operations give. -/
theorem ranges_denote_operations (operations : List RangeOperation)
    (valid : ∀ operation ∈ operations, operation.range.first.number ≤ operation.range.last.number)
    (well : Along rangeStep StepsWell [] operations) : Tidy (operations.foldl rangeStep []) ∧
      addressesOf (operations.foldl rangeStep []) = operations.foldl setStep ∅ := by
  have empty : Tidy [] := ⟨fun _ none => absurd none not_mem_nil, List.Pairwise.nil⟩
  have nothing : addressesOf [] = ∅ := by
    ext ip
    simp [addressesOf]
  exact rangeRun_tidy operations [] ∅ empty nothing valid well

/-- The address with a lower half that is a number below `2^32`. -/
def lowAddress (number : Nat) : IPV6 where
  a := BitVec.ofNat 32 number
  b := 0
  c := 0
  d := 0

/-- A range is added beside another, both are joined by a third, and a part is cut out. -/
def joinedRun : List RangeOperation :=
  [.add ⟨lowAddress 1, lowAddress 5⟩, .add ⟨lowAddress 8, lowAddress 9⟩,
    .add ⟨lowAddress 4, lowAddress 8⟩, .remove ⟨lowAddress 3, lowAddress 6⟩]

/-- The comparisons of some bounds can be checked. -/
instance instDecidableOrdersWell (bounds : List IPV6) : Decidable (OrdersWell bounds) :=
  inferInstanceAs (Decidable (∀ first ∈ bounds, ∀ second ∈ bounds,
    first.lt second = true ↔ first.number < second.number))

/-- The cuts of a removal can be checked. -/
instance instDecidableCutsWell (ranges : List Range) (range : Range) :
    Decidable (CutsWell ranges range) :=
  inferInstanceAs (Decidable (∀ stored ∈ ranges,
    (stored.first.number ≤ range.last.number → range.last.number < stored.last.number →
      range.last.next.number = range.last.number + 1) ∧
    (stored.first.number < range.first.number → range.first.number ≤ stored.last.number →
      range.first.previous.number + 1 = range.first.number)))

/-- The comparisons of a loop can be checked. -/
instance instDecidableLoopComparesWell (newRange : Range) (hadIntersection : Bool) :
    (ranges : List Range) → Decidable (LoopComparesWell newRange hadIntersection ranges)
  | [] => isTrue trivial
  | existRange :: rest =>
    let _ : Decidable (match handleAddIntersection newRange existRange with
        | some merged => LoopComparesWell merged true rest
        | none => hadIntersection = false → newRange.last.lt existRange.first = false →
          LoopComparesWell newRange false rest) :=
      match handleAddIntersection newRange existRange with
      | some merged => instDecidableLoopComparesWell merged true rest
      | none =>
        let _ := instDecidableLoopComparesWell newRange false rest
        inferInstanceAs (Decidable (_ → _ → _))
    inferInstanceAs (Decidable (_ ∧ _))

/-- An addition can be checked. -/
instance instDecidableAddsWell (ranges : List Range) (newRange : Range) :
    Decidable (AddsWell ranges newRange) :=
  match isFirst : ranges.head?, isLast : ranges.getLast? with
  | some front, some back =>
    let _ := instDecidableLoopComparesWell newRange false ranges
    let _ : Decidable (OrdersWell [newRange.last, front.first] ∧
        (newRange.last.lt front.first = false → OrdersWell [newRange.first, back.last] ∧
          (newRange.first.gt back.last = false → LoopComparesWell newRange false ranges))) :=
      inferInstance
    decidable_of_iff _ (addsWell_stored ranges newRange isFirst isLast).symm
  | none, _ => isTrue (addsWell_none ranges newRange (.inl isFirst))
  | some _, none => isTrue (addsWell_none ranges newRange (.inr isLast))

/-- A step can be checked. -/
instance instDecidableStepsWell (ranges : List Range) (operation : RangeOperation) :
    Decidable (StepsWell ranges operation) :=
  match operation with
  | .add range => inferInstanceAs (Decidable (AddsWell ranges range))
  | .remove range => inferInstanceAs (Decidable
      ((∀ stored ∈ ranges, OrdersWell (boundsOf [range, stored])) ∧ CutsWell ranges range))

/-- A run with a merge and a cut. -/
theorem ranges_denote_operations_joined : Tidy (joinedRun.foldl rangeStep []) ∧
      addressesOf (joinedRun.foldl rangeStep []) = joinedRun.foldl setStep ∅ :=
  ranges_denote_operations joinedRun (by decide) (by decide)

/-- An address with an upper half of 1. -/
def upperAddress (number : Nat) : IPV6 where
  a := BitVec.ofNat 32 number
  b := 0
  c := 1
  d := 0

/-- Two ranges are added that have no address in common, one behind the other. -/
def misplacedRun : List RangeOperation :=
  [.add ⟨lowAddress 5, lowAddress 9⟩, .add ⟨upperAddress 1, upperAddress 2⟩]

/-- The second range is put in front of the first, since the lower half of its end is smaller: the
ranges are not sorted. -/
theorem upper_half_is_misplaced : (∀ operation ∈ misplacedRun,
      operation.range.first.number ≤ operation.range.last.number) ∧
      ¬Tidy (misplacedRun.foldl rangeStep []) := by
  refine ⟨by decide, ?_⟩
  intro tidy
  have before := (pairwise_cons.mp tidy.sorted).1 _ mem_cons_self
  exact absurd before (by decide)

end OpenGauss.Security
