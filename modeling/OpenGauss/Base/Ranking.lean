import Mathlib.Data.List.Sort

/-!
# Ranks in sorted lists

Two facts connect a position in a sorted list with a count over the whole list. The front of
a strictly sorted list holds the elements with few smaller ones, and the element at an index
of a descending list reaches a bound exactly when more elements than the index do.
-/
namespace OpenGauss.Base

open List

variable {α : Type} (before : α → α → Bool)

section

variable (asymmetric : ∀ first second, before first second = true → before second first = false)
  (list : List α) (sorted : list.Pairwise (fun first second => before first second = true))
  (count : Nat)
include asymmetric list sorted count

/-- The elements with fewer than `count` others before them are the first `count`. -/
theorem filter_countP_lt_eq_take :
    list.filter (fun element => list.countP (fun other => before other element) < count) =
      list.take count := by
  have irreflexive (first : α) : before first first = false := by
    cases same : before first first with
    | false => rfl
    | true => exact absurd (asymmetric first first same) (by simp [same])
  induction list generalizing count with
  | nil => simp
  | cons head tail ih =>
    have ordered (other : α) (member : other ∈ tail) : before head other = true :=
      rel_of_pairwise_cons sorted member
    cases count with
    | zero => simp
    | succ count =>
      have first : (head :: tail).countP (fun other => before other head) = 0 := by
        rw [countP_eq_zero]
        intro other member
        rcases mem_cons.mp member with same | later
        · simp [same, irreflexive]
        · simp [asymmetric head other (ordered other later)]
      have rest : tail.filter (fun element =>
          (head :: tail).countP (fun other => before other element) < count + 1) =
          tail.filter (fun element =>
            tail.countP (fun other => before other element) < count) := by
        apply filter_congr
        intro element member
        simp [ordered element member]
      rw [filter_cons_of_pos (by simp [first]), rest,
        ih (List.Pairwise.of_cons sorted) count, take_succ_cons]

/-- An element is among the first ones exactly if few others are before it. -/
theorem mem_take_iff_countP_lt (element : α) : element ∈ list.take count ↔
      element ∈ list ∧ list.countP (fun other => before other element) < count := by
  rw [← filter_countP_lt_eq_take before asymmetric list sorted count, mem_filter, decide_eq_true_eq]

end

/-- In a descending list a bound is met at an index exactly if more entries meet it. -/
theorem le_getElem_iff_lt_countP [LinearOrder α] (list : List α)
    (descending : list.Pairwise (fun first second => second ≤ first)) (bound : α) (index : Nat)
    (inside : index < list.length) :
    bound ≤ list[index] ↔ index < list.countP (fun entry => bound ≤ entry) := by
  induction list generalizing index with
  | nil => simp at inside
  | cons head tail ih =>
    have ordered (entry : α) (member : entry ∈ tail) : entry ≤ head :=
      rel_of_pairwise_cons descending member
    cases index with
    | zero =>
      rw [countP_pos_iff]
      constructor
      · intro reached
        exact ⟨head, mem_cons_self, by simpa using reached⟩
      · rintro ⟨entry, member, reached⟩
        rcases mem_cons.mp member with same | later
        · simpa [same] using reached
        · exact le_trans (by simpa using reached) (ordered entry later)
    | succ index =>
      have inTail : index < tail.length := by simpa using inside
      rw [getElem_cons_succ, ih (List.Pairwise.of_cons descending) index inTail]
      by_cases reached : bound ≤ head
      · simp [reached]
      · have none : tail.countP (fun entry => decide (bound ≤ entry)) = 0 := by
          rw [countP_eq_zero]
          intro entry member
          simp only [decide_eq_true_eq]
          exact fun below => reached (le_trans below (ordered entry member))
        simp [reached, none]

end OpenGauss.Base
