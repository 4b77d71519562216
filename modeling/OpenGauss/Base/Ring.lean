import Mathlib.Data.List.Cycle

/-!
# Doubly linked rings

A ring is a list of cells in which every cell points to the next and the previous one, and the last
and the first point to each other. The rules say what the pointers of a ring are, how a cell is put
in front, and how one is taken out, whatever the rest of the cells holds.
-/
namespace OpenGauss.Base

open List

/-- The pointers of some cells. -/
structure Links (α : Type) where
  next : α → Option α
  prev : α → Option α

variable {α : Type}

/-- Two cells point to each other, the first forward and the second back. -/
def Links.Joined (links : Links α) (first second : α) : Prop :=
  links.next first = some second ∧ links.prev second = some first

/-- The cells of a list form a ring. -/
def Links.Circular (links : Links α) (ring : List α) : Prop :=
  Cycle.Chain links.Joined (ring : Cycle α)

variable (links : Links α) (before after : Links α) (cell first last : α) (rest : List α)

/-- A ring may be read from any of its cells. -/
theorem Links.circular_split (front rest : List α) :
    links.Circular (front ++ rest) ↔ links.Circular (rest ++ front) := by
  have same : ((front ++ rest : List α) : Cycle α) = ((rest ++ front : List α) : Cycle α) :=
    Cycle.coe_eq_coe.mpr isRotated_append
  rw [Links.Circular, Links.Circular, same]

/-- A ring is a chain whose last cell leads to its first. -/
theorem Links.circular_cons (first : α) (rest : List α) (last : α)
    (isLast : (first :: rest).getLast? = some last) : links.Circular (first :: rest) ↔
      List.IsChain links.Joined (first :: rest) ∧ links.Joined last first := by
  rw [Links.Circular, Cycle.chain_coe_cons, ← cons_append, isChain_append]
  constructor
  · rintro ⟨chain, -, closes⟩
    exact ⟨chain, closes last isLast first rfl⟩
  · rintro ⟨chain, closes⟩
    refine ⟨chain, isChain_singleton _, ?_⟩
    intro cell isCell other isOther
    rw [isLast] at isCell
    cases isCell
    cases isOther
    exact closes

/-- A chain holds for another relation that agrees inside. -/
theorem isChain_transport (before after : α → α → Prop) {cells : List α}
    (chain : List.IsChain before cells)
    (stays : ∀ first second, first ∈ cells.dropLast → second ∈ cells.tail → before first second →
      after first second) : List.IsChain after cells := by
  induction cells with
  | nil => exact isChain_nil
  | cons cell rest ih =>
    cases rest with
    | nil => exact isChain_singleton _
    | cons next rest =>
      rw [isChain_cons_cons] at chain ⊢
      constructor
      · exact stays cell next mem_cons_self mem_cons_self chain.1
      · apply ih chain.2
        intro first second inFront behind
        exact stays first second (mem_cons_of_mem _ inFront) (mem_cons_of_mem _ behind)

/-- No cell before the last one is the last one. -/
theorem ne_last_of_mem_dropLast {cells : List α} (distinct : cells.Nodup) {last cell : α}
    (isLast : cells.getLast? = some last) (front : cell ∈ cells.dropLast) : cell ≠ last := by
  obtain ⟨before, split⟩ := getLast?_eq_some_iff.mp isLast
  subst split
  rw [dropLast_concat] at front
  have apart := (nodup_append.mp distinct).2.2
  exact apart cell front last mem_cons_self

/-- No cell behind the first one is the first one. -/
theorem ne_first_of_mem_tail {first cell : α} {rest : List α} (distinct : (first :: rest).Nodup)
    (behind : cell ∈ rest) : cell ≠ first := by
  intro same
  rw [same] at behind
  exact (nodup_cons.mp distinct).1 behind

/-- Two sets of pointers agree on a list of distinct cells, but for the way from the last to the
first. -/
structure SameInside (before after : Links α) (first last : α) (cells : List α) : Prop where
  next : ∀ cell ∈ cells, cell ≠ last → after.next cell = before.next cell
  prev : ∀ cell ∈ cells, cell ≠ first → after.prev cell = before.prev cell

variable {before}

/-- Links that agree inside keep a chain. -/
theorem SameInside.isChain {first last : α} {rest : List α}
    (same : SameInside before after first last (first :: rest)) (distinct : (first :: rest).Nodup)
    (isLast : (first :: rest).getLast? = some last)
    (chain : List.IsChain before.Joined (first :: rest)) :
    List.IsChain after.Joined (first :: rest) := by
  apply isChain_transport before.Joined after.Joined chain
  rintro cell other inFront behind ⟨forward, backward⟩
  constructor
  · rw [same.next cell (mem_of_mem_dropLast inFront)
      (ne_last_of_mem_dropLast distinct isLast inFront)]
    exact forward
  · rw [same.prev other (mem_cons_of_mem _ behind) (ne_first_of_mem_tail distinct behind)]
    exact backward

variable {cell first last rest}

/-- A cell put between the last and the first one keeps the ring. -/
theorem Links.circular_insert
    (distinct : (first :: rest).Nodup) (isLast : (first :: rest).getLast? = some last)
    (chain : List.IsChain before.Joined (first :: rest))
    (same : SameInside before after first last (first :: rest))
    (toFirst : after.Joined cell first) (fromLast : after.Joined last cell) :
    after.Circular (cell :: first :: rest) := by
  have closes : (cell :: first :: rest).getLast? = some last := by
    exact isLast
  rw [Links.circular_cons after cell (first :: rest) last closes, isChain_cons_cons]
  exact ⟨⟨toFirst, same.isChain after distinct isLast chain⟩, fromLast⟩

/-- A cell of a ring joins the ends of the others' chain. -/
theorem Links.circular_ends (isLast : (first :: rest).getLast? = some last)
    (circular : links.Circular (cell :: first :: rest)) :
    links.next cell = some first ∧ links.prev cell = some last ∧
      List.IsChain links.Joined (first :: rest) := by
  have closes : (cell :: first :: rest).getLast? = some last := by
    exact isLast
  rw [Links.circular_cons links cell (first :: rest) last closes, isChain_cons_cons] at circular
  exact ⟨circular.1.1.1, circular.2.2, circular.1.2⟩

/-- A cell whose neighbours are joined can be left out of a ring. -/
theorem Links.circular_remove
    (distinct : (first :: rest).Nodup) (isLast : (first :: rest).getLast? = some last)
    (circular : before.Circular (cell :: first :: rest))
    (same : SameInside before after first last (first :: rest))
    (joined : after.Joined last first) : after.Circular (first :: rest) := by
  obtain ⟨-, -, chain⟩ := before.circular_ends isLast circular
  rw [Links.circular_cons after first rest last isLast]
  exact ⟨same.isChain after distinct isLast chain, joined⟩

end OpenGauss.Base
