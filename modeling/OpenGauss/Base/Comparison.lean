import Mathlib.Data.List.Basic
import Mathlib.Tactic.ByContra

/-!
# Comparisons

A comparison gives a negative number when its first argument is before the second, a positive one
when it is behind, and zero when neither is. Comparisons are combined: one is asked when another finds
no difference, and lists are compared column by column. In a list that increases, a key is compared
with the entries in turn: from the first entry that is not before the key on, all entries are behind
it, but for that one.
-/
namespace OpenGauss.Base

variable {α β : Type}

/-- A function to the integers that orders its arguments, where different ones may have one place. -/
structure IsComparison (compare : α → α → Int) : Prop where
  swap : ∀ first second, compare first second < 0 ↔ 0 < compare second first
  trans : ∀ first second third, compare first second ≤ 0 → compare second third ≤ 0 →
    compare first third ≤ 0

variable (compare : α → α → Int)

/-- At most and then below is below. -/
theorem IsComparison.lt_of_le_of_lt (valid : IsComparison compare)
    (first second third : α) (left : compare first second ≤ 0) (right : compare second third < 0) :
    compare first third < 0 := by
  by_contra more
  have back := valid.swap first third
  have other := valid.swap second third
  have around := valid.trans third first second (by lia) left
  omega

/-- Below and then at most is below. -/
theorem IsComparison.lt_of_lt_of_le (valid : IsComparison compare)
    (first second third : α) (left : compare first second < 0) (right : compare second third ≤ 0) :
    compare first third < 0 := by
  by_contra more
  have back := valid.swap first third
  have other := valid.swap first second
  have around := valid.trans second third first right (by lia)
  omega

/-- Comparing images is a comparison. -/
theorem IsComparison.comap (valid : IsComparison compare) (map : β → α) :
    IsComparison fun first second => compare (map first) (map second) where
  swap first second := valid.swap (map first) (map second)
  trans first second third := valid.trans (map first) (map second) (map third)

/-- Natural numbers are compared. -/
def natCompare (first second : Nat) : Int :=
  if first < second then -1 else if second < first then 1 else 0

/-- The order of numbers is a comparison. -/
theorem natCompare_isComparison : IsComparison natCompare where
  swap first second := by
    rw [natCompare, natCompare]
    split <;> split <;> omega
  trans first second third left right := by
    rw [natCompare] at left right ⊢
    split at left <;> split at right <;> split <;> omega

/-- Another comparison is asked when one finds no difference. -/
def thenCompare (major minor : α → α → Int) (first second : α) : Int :=
  if major first second ≠ 0 then major first second else minor first second

/-- A comparison by two keys is one. -/
theorem IsComparison.then {major minor : α → α → Int} (valid : IsComparison major)
    (other : IsComparison minor) : IsComparison (thenCompare major minor) where
  swap first second := by
    have forth := valid.swap first second
    have back := valid.swap second first
    have rest := other.swap first second
    rw [thenCompare, thenCompare]
    split <;> split <;> omega
  trans first second third left right := by
    have whole := valid.trans first second third
    have before := valid.lt_of_lt_of_le major first second third
    have behind := valid.lt_of_le_of_lt major first second third
    have rest := other.trans first second third
    rw [thenCompare] at left right ⊢
    split at left <;> split at right <;> split <;> lia

/-- What is absent is before all else. -/
def optionCompare (compare : α → α → Int) : Option α → Option α → Int
  | none, none => 0
  | none, some _ => -1
  | some _, none => 1
  | some first, some second => compare first second

/-- A comparison with a last place for nothing is one. -/
theorem IsComparison.option (valid : IsComparison compare) :
    IsComparison (optionCompare compare) where
  swap first second := by
    cases first <;> cases second
    · exact Iff.rfl
    · show (-1 : Int) < 0 ↔ (0 : Int) < 1
      decide
    · show (1 : Int) < 0 ↔ (0 : Int) < -1
      decide
    · exact valid.swap _ _
  trans first second third left right := by
    match first, second, third with
    | none, _, none => exact Int.le_refl _
    | none, _, some _ => exact (by decide : (-1 : Int) ≤ 0)
    | some _, none, _ => exact absurd left (by decide : ¬(1 : Int) ≤ 0)
    | some _, some _, none => exact absurd right (by decide : ¬(1 : Int) ≤ 0)
    | some first, some second, some third => exact valid.trans first second third left right

/-- Lists are compared by their columns, the first first. -/
def columnsCompare : List (α → α → Int) → List α → List α → Int
  | [], _, _ => 0
  | compare :: rest, first, second =>
    if optionCompare compare first.head? second.head? ≠ 0 then
      optionCompare compare first.head? second.head?
    else columnsCompare rest first.tail second.tail

/-- Comparing column after column is a comparison. -/
theorem columnsCompare_isComparison (compares : List (α → α → Int))
    (valid : ∀ compare ∈ compares, IsComparison compare) :
    IsComparison (columnsCompare compares) := by
  induction compares with
  | nil => exact ⟨fun _ _ => Iff.rfl, fun _ _ _ _ _ => Int.le_refl _⟩
  | cons compare rest ih =>
    rw [List.forall_mem_cons] at valid
    exact (valid.1.option.comap _ List.head?).then ((ih valid.2).comap _ List.tail)

/-- Signs that are positive up to some index, then zero at most once, and negative from there on. -/
def SignsCross (sign : Nat → Int) (count : Nat) : Prop :=
  ∀ index later, index < later → later < count → sign index ≤ 0 → sign later < 0

/-- Along increasing entries the sign of a key crosses once. -/
theorem IsComparison.signsCross (valid : IsComparison compare) {entry : Nat → α} {count : Nat}
    (increasing : ∀ index later, index < later → later < count →
      compare (entry index) (entry later) < 0) (key : α) :
    SignsCross (fun index => compare key (entry index)) count := by
  intro index later before within notBehind
  exact valid.lt_of_le_of_lt compare key (entry index) (entry later) notBehind
    (increasing index later before within)

/-- An index is that of the first entry behind the key, or of the first not before it. -/
def IsCrossing (sign : Nat → Int) (topClosed : Bool) (index : Nat) : Prop :=
  (0 < index → if topClosed then 0 ≤ sign (index - 1) else 0 < sign (index - 1)) ∧
    if topClosed then sign index < 0 else sign index ≤ 0

/-- Signs that cross do so at one index. -/
theorem SignsCross.unique {sign : Nat → Int} {count : Nat} (cross : SignsCross sign count)
    {topClosed : Bool} {index other : Nat} (within : index < count) (otherWithin : other < count)
    (here : IsCrossing sign topClosed index) (there : IsCrossing sign topClosed other) :
    index = other := by
  have ordered (index other : Nat) (otherWithin : other < count)
      (here : IsCrossing sign topClosed index) (there : IsCrossing sign topClosed other) :
      ¬index < other := by
    intro before
    have last := here.2
    have first := there.1 (by omega)
    by_cases next : index = other - 1
    · rw [← next] at first
      cases topClosed <;> simp only [if_true, Bool.false_eq_true, if_false] at first last <;> omega
    · have negative := cross index (other - 1) (by omega) (by omega)
      cases topClosed <;> simp only [if_true, Bool.false_eq_true, if_false] at first last <;> omega
  have forth := ordered index other otherWithin here there
  have back := ordered other index within there here
  omega

end OpenGauss.Base
