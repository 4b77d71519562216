import Mathlib.Logic.Basic

/-!
# Steps that may stop

C functions of the shape "if (!f()) return false;" run a sequence of actions over
one state and stop at the first action that reports failure. A `Step` returns its
verdict with the state it leaves; a `Triple` gives one postcondition to a run that
goes on and another to a run that stops.
-/
namespace OpenGauss.Base

/-- One action over a state, with the verdict that decides whether the caller goes on. -/
def Step (σ : Type) : Type := σ → Bool × σ

namespace Step

variable {σ : Type}

/-- An assignment, which never stops its caller. -/
def assign (update : σ → σ) : Step σ := fun state => (true, update state)

/-- Run the second action only where the first one reports success. -/
def andThen (first next : Step σ) : Step σ := fun state =>
  if (first state).1 then next (first state).2 else (false, (first state).2)

/-- Run the body only where the condition holds of the current state. -/
def onlyIf (condition : σ → Bool) (body : Step σ) : Step σ := fun state =>
  if condition state then body state else (true, state)

/-- From every state of the precondition a run goes on in `goes` or stops in `stops`. -/
def Triple (before : σ → Prop) (step : Step σ) (goes stops : σ → Prop) : Prop :=
  ∀ state, before state →
    ((step state).1 = true ∧ goes (step state).2) ∨ ((step state).1 = false ∧ stops (step state).2)

variable (before goes stops : σ → Prop)

/-- An assignment goes on with what it establishes. -/
theorem triple_assign (update : σ → σ) (establish : ∀ state, before state → goes (update state)) :
    Triple before (assign update) goes stops :=
  fun state holds => .inl ⟨rfl, establish state holds⟩

/-- Steps in a row meet in the middle. -/
theorem triple_andThen (before middle goes stops : σ → Prop) {first next : Step σ}
    (one : Triple before first middle stops) (two : Triple middle next goes stops) :
    Triple before (andThen first next) goes stops := by
  intro state holds
  unfold andThen
  rcases one state holds with ⟨success, reached⟩ | ⟨failure, stopped⟩
  · rw [if_pos success]
    exact two _ reached
  · rw [if_neg (by simp [failure])]
    exact .inr ⟨rfl, stopped⟩

/-- A conditional step is taken or skipped. -/
theorem triple_onlyIf (condition : σ → Bool) (body : Step σ)
    (taken : Triple (fun state => before state ∧ condition state = true) body goes stops)
    (skipped : ∀ state, before state → condition state = false → goes state) :
    Triple before (onlyIf condition body) goes stops := by
  intro state holds
  unfold onlyIf
  cases guard : condition state with
  | true =>
    exact taken state ⟨holds, guard⟩
  | false =>
    simp only [Bool.false_eq_true, ↓reduceIte, true_and]
    exact .inl (skipped state holds guard)

/-- Consequence: a weaker start and stronger ends. -/
theorem triple_conseq (before weaker goes goes' stops stops' : σ → Prop) {step : Step σ}
    (triple : Triple weaker step goes' stops') (strengthen : ∀ state, before state → weaker state)
    (reached : ∀ state, goes' state → goes state)
    (stopped : ∀ state, stops' state → stops state) : Triple before step goes stops := by
  intro state holds
  rcases triple state (strengthen state holds) with ⟨verdict, post⟩ | ⟨verdict, post⟩
  · exact .inl ⟨verdict, reached _ post⟩
  · exact .inr ⟨verdict, stopped _ post⟩

/-- A loop: run the body until it reports that the loop is over, at most `fuel` times. -/
def loop (body : Step σ) : Nat → σ → σ
  | 0, state => state
  | fuel + 1, state =>
    if (body state).1 then loop body fuel (body state).2 else (body state).2

/-- The rule for loops: where every round keeps the invariant and shortens what is left, a loop
with enough fuel ends in the condition of its stopping round. -/
theorem loop_rule (invariant stops : σ → Prop) (left : σ → Nat) (body : Step σ)
    (round : ∀ bound, Triple (fun state => invariant state ∧ left state = bound) body
      (fun state => invariant state ∧ left state < bound) stops)
    (fuel : Nat) (state : σ) (initially : invariant state) (enough : left state < fuel) :
    stops (loop body fuel state) := by
  induction fuel generalizing state with
  | zero => exact absurd enough (Nat.not_lt_zero _)
  | succ fuel ih =>
    unfold loop
    rcases round (left state) state ⟨initially, rfl⟩ with ⟨goes, kept, shorter⟩ | ⟨ended, reached⟩
    · rw [if_pos goes]
      apply ih _ kept
      omega
    · rw [if_neg (by simp [ended])]
      exact reached

end Step

end OpenGauss.Base
