import Mathlib.Data.List.Basic
/-!
# Running extremes and the first difference of two sequences

Two small theories that meet in every store which keeps the least and the greatest value of a
batch. The first keeps a pair of extremes up to date with an either-or rule: a value below the
least replaces it, otherwise a value above the greatest replaces that one. The second compares two
sequences over their common length only, up to the first place where they differ, and relates this
reading to the lexicographic order, for whole sequences and for truncated ones.
-/
namespace OpenGauss.Base

open List Std

section Extremes

variable {α : Type} (cmp : α → α → Ordering)

/-- The least and the greatest value of the values seen so far. -/
structure Extremes (α : Type) where
  low : α
  high : α

/-- A new value replaces the least value, or else the greatest value, or neither. -/
def Extremes.widen (range : Extremes α) (value : α) : Extremes α :=
  if cmp value range.low = .lt then { range with low := value }
  else if cmp value range.high = .gt then { range with high := value }
  else range

/-- The extremes of a batch, taken value by value. An empty batch has none. -/
def extremes : List α → Option (Extremes α)
  | [] => none
  | value :: rest => some (rest.foldl (Extremes.widen cmp) ⟨value, value⟩)

/-- Both extremes are values of the batch and enclose all of it. -/
structure Extremes.Encloses (range : Extremes α) (batch : List α) : Prop where
  low_mem : range.low ∈ batch
  high_mem : range.high ∈ batch
  low_le : ∀ value ∈ batch, (cmp range.low value).isLE
  le_high : ∀ value ∈ batch, (cmp value range.high).isLE

variable [TransCmp cmp]

/-- A value encloses itself. -/
theorem Extremes.Encloses.single (value : α) : Extremes.Encloses cmp ⟨value, value⟩ [value] where
  low_mem := mem_singleton_self value
  high_mem := mem_singleton_self value
  low_le := by
    intro other member
    rw [mem_singleton.mp member]
    exact ReflCmp.isLE_rfl
  le_high := by
    intro other member
    rw [mem_singleton.mp member]
    exact ReflCmp.isLE_rfl

/-- Taking in one more value keeps the extremes enclosing. -/
theorem Extremes.Encloses.widen {range : Extremes α} {seen : List α} (value : α)
    (encloses : range.Encloses cmp seen) :
    (range.widen cmp value).Encloses cmp (seen ++ [value]) := by
  have kept : ∀ other ∈ seen, other ∈ seen ++ [value] :=
    fun other member => mem_append_left _ member
  have added : value ∈ seen ++ [value] := mem_append_right _ (mem_singleton_self value)
  have split : ∀ other ∈ seen ++ [value], other ∈ seen ∨ other = value := by
    intro other member
    rcases mem_append.mp member with old | new
    · exact .inl old
    · exact .inr (mem_singleton.mp new)
  by_cases below : cmp value range.low = .lt
  · have lowered : range.widen cmp value = { range with low := value } := by
      simp only [Extremes.widen, below, ↓reduceIte]
    have least : ∀ other ∈ seen, (cmp value other).isLE := fun other member =>
      TransCmp.isLE_trans (by simp [below]) (encloses.low_le other member)
    rw [lowered]
    constructor
    · exact added
    · exact kept _ encloses.high_mem
    · intro other member
      rcases split other member with old | rfl
      · exact least other old
      · exact ReflCmp.isLE_rfl
    · intro other member
      rcases split other member with old | rfl
      · exact encloses.le_high other old
      · exact least range.high encloses.high_mem
  · have atLeast : (cmp range.low value).isLE := by
      cases order : cmp range.low value with
      | lt | eq => rfl
      | gt => exact absurd (OrientedCmp.lt_of_gt order) below
    by_cases above : cmp value range.high = .gt
    · have raised : range.widen cmp value = { range with high := value } := by
        simp only [Extremes.widen, below, above, ↓reduceIte]
      have under : (cmp range.high value).isLE := by
        rw [OrientedCmp.lt_of_gt above]
        rfl
      rw [raised]
      constructor
      · exact kept _ encloses.low_mem
      · exact added
      · intro other member
        rcases split other member with old | rfl
        · exact encloses.low_le other old
        · exact atLeast
      · intro other member
        rcases split other member with old | rfl
        · exact TransCmp.isLE_trans (encloses.le_high other old) under
        · exact ReflCmp.isLE_rfl
    · have unchanged : range.widen cmp value = range := by
        simp only [Extremes.widen, below, above, ↓reduceIte]
      have atMost : (cmp value range.high).isLE := by
        cases order : cmp value range.high with
        | lt | eq => rfl
        | gt => exact absurd order above
      rw [unchanged]
      constructor
      · exact kept _ encloses.low_mem
      · exact kept _ encloses.high_mem
      · intro other member
        rcases split other member with old | rfl
        · exact encloses.low_le other old
        · exact atLeast
      · intro other member
        rcases split other member with old | rfl
        · exact encloses.le_high other old
        · exact atMost

/-- The extremes of a batch enclose its values. -/
theorem extremes_encloses (batch : List α) (range : Extremes α)
    (computed : extremes cmp batch = some range) : range.Encloses cmp batch := by
  have run : ∀ (rest seen : List α) (start : Extremes α), start.Encloses cmp seen →
      (rest.foldl (Extremes.widen cmp) start).Encloses cmp (seen ++ rest) := by
    intro rest
    induction rest with
    | nil =>
      intro seen start encloses
      rw [append_nil]
      exact encloses
    | cons value rest ih =>
      intro seen start encloses
      have next := ih (seen ++ [value]) (start.widen cmp value) (encloses.widen cmp value)
      rw [append_assoc] at next
      exact next
  cases batch with
  | nil => cases computed
  | cons value rest =>
    have result := Option.some.inj computed
    rw [← result]
    exact run rest [value] ⟨value, value⟩ (Extremes.Encloses.single cmp value)

end Extremes

section FirstDifference

variable {α : Type} [Ord α]

/-- The order of two sequences at the first place where they differ within their common length. -/
def firstDifference : List α → List α → Ordering
  | left :: lefts, right :: rights => (compare left right).then (firstDifference lefts rights)
  | _, _ => .eq

/-- A sequence has no first difference with an empty one behind it. -/
@[simp]
theorem firstDifference_nil_right (lefts : List α) : firstDifference lefts [] = .eq := by
  cases lefts <;> rfl

/-- An empty sequence has no first difference with any other. -/
@[simp]
theorem firstDifference_nil_left (rights : List α) : firstDifference [] rights = .eq := rfl

variable (count : Nat) (lefts rights : List α)

/-- A cut behind the shorter list changes no difference. -/
theorem firstDifference_take_take (covered : min lefts.length rights.length ≤ count) :
    firstDifference (lefts.take count) (rights.take count) = firstDifference lefts rights := by
  induction count generalizing lefts rights with
  | zero =>
    cases lefts with
    | nil => rfl
    | cons left lefts =>
      cases rights with
      | nil => rfl
      | cons right rights => simp at covered
  | succ count ih =>
    cases lefts with
    | nil => rfl
    | cons left lefts =>
      cases rights with
      | nil => rfl
      | cons right rights =>
        simp only [length_cons, Nat.add_min_add_right, Nat.add_le_add_iff_right] at covered
        simp only [take_succ_cons, firstDifference]
        rw [ih lefts rights covered]

/-- The first difference, then the lengths, is the lexical order. -/
theorem firstDifference_then_length :
    (firstDifference lefts rights).then (compare lefts.length rights.length) =
      compare lefts rights := by
  induction lefts generalizing rights with
  | nil =>
    cases rights with
    | nil => rfl
    | cons right rights =>
      exact Nat.compare_eq_lt.mpr (Nat.succ_pos _)
  | cons left lefts ih =>
    cases rights with
    | nil =>
      exact Nat.compare_eq_gt.mpr (Nat.succ_pos _)
    | cons right rights =>
      have lengths : compare (lefts.length + 1) (rights.length + 1) =
          compare lefts.length rights.length := by
        simp only [Nat.compare_eq_ite_lt, Nat.add_lt_add_iff_right]
      simp only [firstDifference, length_cons, lengths]
      rw [Ordering.then_assoc, ih rights, List.compare_cons_cons]

/-- A sequence is below every longer one that begins with it. -/
theorem compare_append_cons [TransOrd α] (start : List α) (next : α) (rest : List α) :
    compare start (start ++ next :: rest) = .lt := by
  induction start with
  | nil => rfl
  | cons first start ih =>
    rw [cons_append, List.compare_cons_cons, ReflOrd.compare_self]
    exact ih

/-- A front is not above the whole. -/
theorem compare_isLE_of_isPrefix [TransOrd α] {start whole : List α} (within : start <+: whole) :
    (compare start whole).isLE := by
  obtain ⟨rest, rfl⟩ := within
  cases rest with
  | nil =>
    rw [append_nil]
    exact ReflOrd.isLE_rfl
  | cons next rest =>
    rw [compare_append_cons]
    rfl

/-- The first difference decides. -/
theorem compare_of_firstDifference_gt
    (differ : firstDifference lefts rights = .gt) : compare lefts rights = .gt := by
  rw [← firstDifference_then_length, differ]
  rfl

/-- A difference in the front of a list is one of the list. -/
theorem firstDifference_gt_of_take (differ : firstDifference (lefts.take count) rights = .gt) :
    firstDifference lefts rights = .gt := by
  induction count generalizing lefts rights with
  | zero => cases differ
  | succ count ih =>
    cases lefts with
    | nil => cases differ
    | cons left lefts =>
      cases rights with
      | nil => cases differ
      | cons right rights =>
        simp only [take_succ_cons, firstDifference] at differ ⊢
        cases order : compare left right with
        | lt => simp [order] at differ
        | gt => rfl
        | eq =>
          simp only [order] at differ ⊢
          exact ih lefts rights differ

end FirstDifference

section Ordered

variable {α : Type} [Ord α] [TransOrd α]

/-- The first difference seen from the other side. -/
theorem firstDifference_swap (lefts rights : List α) :
    firstDifference lefts rights = (firstDifference rights lefts).swap := by
  induction lefts generalizing rights with
  | nil => simp
  | cons left lefts ih =>
    cases rights with
    | nil => rfl
    | cons right rights =>
      simp only [firstDifference, Ordering.swap_then]
      rw [← OrientedOrd.eq_swap, ← ih rights]

/-- What is above a list that differs upwards differs upwards. -/
theorem firstDifference_gt_mono (lower upper other : List α)
    (ordered : (compare lower upper).isLE) (differ : firstDifference lower other = .gt) :
    firstDifference upper other = .gt := by
  induction lower generalizing upper other with
  | nil => cases differ
  | cons low lower ih =>
    cases other with
    | nil => cases differ
    | cons third other =>
      cases upper with
      | nil => cases ordered
      | cons up upper =>
        rw [List.compare_cons_cons] at ordered
        simp only [firstDifference] at differ ⊢
        cases step : compare low up with
        | gt => simp [step] at ordered
        | lt =>
          have above : compare up third = .gt := by
            cases first : compare low third with
            | lt => simp [first] at differ
            | eq =>
              exact TransCmp.gt_of_gt_of_eq (OrientedCmp.gt_of_lt step) first
            | gt => exact TransCmp.gt_trans (OrientedCmp.gt_of_lt step) first
          simp [above]
        | eq =>
          rw [TransCmp.congr_left (OrientedCmp.eq_symm step)]
          cases first : compare low third with
          | lt => simp [first] at differ
          | gt => rfl
          | eq =>
            simp only [step, first] at ordered differ ⊢
            exact ih upper other ordered differ

/-- A list whose front is not above one that differs downwards is below. -/
theorem compare_lt_of_firstDifference_lt (count : Nat) (values upper other : List α)
    (short : upper.length ≤ count) (ordered : (compare (values.take count) upper).isLE)
    (differ : firstDifference upper other = .lt) : compare values other = .lt := by
  induction upper generalizing count values other with
  | nil => cases differ
  | cons up upper ih =>
    cases other with
    | nil => cases differ
    | cons third other =>
      cases values with
      | nil => rfl
      | cons value values =>
        cases count with
        | zero => cases short
        | succ count =>
          rw [take_succ_cons, List.compare_cons_cons] at ordered
          rw [List.compare_cons_cons]
          simp only [firstDifference] at differ
          cases step : compare value up with
          | gt => simp [step] at ordered
          | lt =>
            have below : compare value third = .lt := by
              cases first : compare up third with
              | gt => simp [first] at differ
              | eq => exact TransCmp.lt_of_lt_of_eq step first
              | lt => exact TransCmp.lt_trans step first
            simp [below]
          | eq =>
            rw [TransCmp.congr_left step]
            cases first : compare up third with
            | gt => simp [first] at differ
            | lt => rfl
            | eq =>
              simp only [step, first] at ordered differ ⊢
              exact ih count values other (Nat.le_of_succ_le_succ short) ordered differ

end Ordered

section Located

variable {α : Type} [Ord α] [LawfulEqOrd α]

/-- Two lists differ upwards at a place behind equal fronts. -/
theorem firstDifference_gt_iff (lefts rights : List α) : firstDifference lefts rights = .gt ↔
      ∃ same left right lefts' rights', lefts = same ++ left :: lefts' ∧
        rights = same ++ right :: rights' ∧ compare left right = .gt := by
  constructor
  · induction lefts generalizing rights with
    | nil =>
      intro differ
      cases differ
    | cons left lefts ih =>
      intro differ
      cases rights with
      | nil => cases differ
      | cons right rights =>
        simp only [firstDifference] at differ
        cases order : compare left right with
        | lt => simp [order] at differ
        | gt => exact ⟨[], left, right, lefts, rights, rfl, rfl, order⟩
        | eq =>
          simp only [order] at differ
          obtain ⟨same, above, below, lefts', rights', rfl, rfl, greater⟩ := ih rights differ
          rw [LawfulEqOrd.compare_eq_iff_eq.mp order]
          exact ⟨right :: same, above, below, lefts', rights', rfl, rfl, greater⟩
  · rintro ⟨same, left, right, lefts', rights', rfl, rfl, greater⟩
    induction same with
    | nil => simp [firstDifference, greater]
    | cons first same ih =>
      simp only [cons_append, firstDifference, ReflOrd.compare_self]
      exact ih

end Located

end OpenGauss.Base
