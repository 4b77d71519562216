import Mathlib.Logic.Basic

/-!
# Replay guarded by a log position

A replayed state remembers the position of the last record applied to it. A record
is applied only where its own stamp is larger; the application moves the position to
that stamp. Records that are already covered are skipped, one by one and as a run.
-/
namespace OpenGauss.Base

/-- What a guarded replay needs to know of its states and its records. -/
structure Replay (σ ρ : Type) where
  position : σ → Nat
  stamp : ρ → Nat
  effect : ρ → σ → σ
  position_effect : ∀ record state, position (effect record state) = stamp record

namespace Replay

variable {σ ρ : Type} (replay : Replay σ ρ)

/-- Apply a record unless the state already covers it. -/
def step (state : σ) (record : ρ) : σ :=
  if replay.position state < replay.stamp record then replay.effect record state else state

/-- Replay a run of records in order. -/
def run (state : σ) (records : List ρ) : σ := records.foldl replay.step state

variable (state : σ) (record : ρ)

/-- A covered record changes nothing. -/
theorem step_covered (covered : replay.stamp record ≤ replay.position state) :
    replay.step state record = state :=
  if_neg (Nat.not_lt.mpr covered)

/-- A record beyond the position has its effect. -/
theorem step_beyond (beyond : replay.position state < replay.stamp record) :
    replay.step state record = replay.effect record state :=
  if_pos beyond

/-- Records that are all covered change nothing. -/
theorem run_covered (records : List ρ)
    (covered : ∀ record ∈ records, replay.stamp record ≤ replay.position state) :
    replay.run state records = state := by
  induction records with
  | nil => rfl
  | cons record rest ih =>
    unfold run at ih ⊢
    rw [List.foldl_cons, replay.step_covered state record (covered record (by simp))]
    exact ih (fun other member => covered other (List.mem_cons_of_mem _ member))

/-- A run goes on where the first part ends. -/
theorem run_append (first second : List ρ) :
    replay.run state (first ++ second) = replay.run (replay.run state first) second :=
  List.foldl_append

end Replay

end OpenGauss.Base
