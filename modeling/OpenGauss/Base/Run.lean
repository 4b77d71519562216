import Mathlib.Data.List.Basic
import Mathlib.Tactic.Linarith

/-!
# Runs of a state machine

A run feeds a list of inputs to a step function. `Along` says that a condition on the
state before a step and on the step's input holds at every step of a run; the rules carry
an invariant through such a run.
-/
namespace OpenGauss.Base

variable {σ α : Type} (step : σ → α → σ)

/-- The condition holds at every step of the run. -/
def Along (condition : σ → α → Prop) : σ → List α → Prop
  | _, [] => True
  | state, input :: rest => condition state input ∧ Along condition (step state input) rest

/-- A decidable condition can be checked along a run. -/
instance instDecidableAlong (condition : σ → α → Prop)
    [∀ state input, Decidable (condition state input)] (state : σ) (inputs : List α) :
    Decidable (Along step condition state inputs) :=
  match inputs with
  | [] => isTrue trivial
  | input :: rest =>
    let _ := instDecidableAlong condition (step state input) rest
    inferInstanceAs (Decidable
      (condition state input ∧ Along step condition (step state input) rest))

/-- A condition on the content of an optional value can be checked. -/
instance instDecidableForallSome {β : Type} (value : Option β) (condition : β → Prop)
    [DecidablePred condition] : Decidable (∀ content, value = some content → condition content) :=
  match value with
  | none => isTrue (fun _ absent => nomatch absent)
  | some content => decidable_of_iff (condition content)
      ⟨fun holds other same => by cases same; exact holds, fun holds => holds content rfl⟩

/-- A condition holds along two runs in a row exactly if it holds along both. -/
theorem along_append (condition : σ → α → Prop) (state : σ) (first second : List α) :
    Along step condition state (first ++ second) ↔ Along step condition state first ∧
        Along step condition (first.foldl step state) second := by
  induction first generalizing state with
  | nil => simp [Along]
  | cons input rest ih => simp [Along, ih, and_assoc]

/-- What every allowed step keeps holds behind an allowed run. -/
theorem along_invariant (condition : σ → α → Prop) (invariant : σ → Prop)
    (keeps : ∀ state input, invariant state → condition state input → invariant (step state input))
    (state : σ) (inputs : List α) (initially : invariant state)
    (along : Along step condition state inputs) : invariant (inputs.foldl step state) := by
  induction inputs generalizing state with
  | nil => exact initially
  | cons input rest ih =>
    exact ih _ (keeps state input initially along.1) along.2

variable (condition result : σ → α → Prop)

/-- What an invariant gives holds along the run. -/
theorem along_of_invariant (invariant : σ → Prop)
    (keeps : ∀ state input, invariant state → condition state input → invariant (step state input))
    (gives : ∀ state input, invariant state → condition state input → result state input)
    (state : σ) (inputs : List α) (initially : invariant state)
    (along : Along step condition state inputs) : Along step result state inputs := by
  induction inputs generalizing state with
  | nil => trivial
  | cons input rest ih =>
    exact ⟨gives state input initially along.1, ih _ (keeps state input initially along.1) along.2⟩

/-- A weaker condition holds along the same run. -/
theorem along_mono (gives : ∀ state input, condition state input → result state input)
    {state : σ} {inputs : List α} (along : Along step condition state inputs) :
    Along step result state inputs :=
  along_of_invariant step condition result (fun _ => True) (fun _ _ _ _ => trivial)
    (fun state input _ => gives state input) state inputs trivial along

/-- What always holds for the inputs holds along the run. -/
theorem along_of_mem (state : σ) (inputs : List α)
    (always : ∀ state, ∀ input ∈ inputs, condition state input) :
    Along step condition state inputs := by
  induction inputs generalizing state with
  | nil => trivial
  | cons input rest ih =>
    exact ⟨always state input List.mem_cons_self,
      ih _ (fun state other later => always state other (List.mem_cons_of_mem _ later))⟩

/-- Two conditions hold along a run together. -/
theorem along_and (first second : σ → α → Prop) (state : σ) (inputs : List α)
    (one : Along step first state inputs) (other : Along step second state inputs) :
    Along step (fun state input => first state input ∧ second state input) state inputs := by
  induction inputs generalizing state with
  | nil => trivial
  | cons input rest ih => exact ⟨⟨one.1, other.1⟩, ih _ one.2 other.2⟩

/-- A loop in blocks keeps what every block keeps. -/
theorem foldl_blocks (body : σ → Nat → σ) (invariant : Nat → σ → Prop) {width blocks total : Nat}
    (state : σ) (initially : invariant 0 state)
    (block : ∀ index state, index < blocks → invariant index state → invariant (index + 1)
        ((List.range' (index * width) (min width (total - index * width))).foldl body state))
    (covered : total ≤ blocks * width) (needed : (blocks - 1) * width < total) :
    invariant blocks ((List.range total).foldl body state) := by
  have front (count : Nat) (few : count ≤ blocks) :
      invariant count ((List.range (min (count * width) total)).foldl body state) := by
    induction count with
    | zero =>
      rw [Nat.zero_mul, Nat.zero_min]
      exact initially
    | succ count ih =>
      have full : count * width < total :=
        lt_of_le_of_lt (Nat.mul_le_mul_right _ (by omega)) needed
      have grown := block count _ (by omega) (ih (by omega))
      have split : min ((count + 1) * width) total =
          count * width + min width (total - count * width) := by
        rw [Nat.succ_mul]
        lia
      rw [Nat.min_eq_left full.le, ← List.foldl_append] at grown
      rw [split, List.range_add, ← List.range'_eq_map_range]
      exact grown
  have whole := front blocks le_rfl
  rw [Nat.min_eq_right covered] at whole
  exact whole

end OpenGauss.Base
