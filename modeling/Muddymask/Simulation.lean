import Muddymask.Runs

/-!
A machine that does what another one does: each of its steps is a number of moves of
the other, and the labels of these moves are what the step emits. A step that emits
nothing the other does not see. The relation between the states carries over to runs.
-/

namespace Muddymask.Simulation

open Runs

variable {State Event Abstract Label : Type}

/-- Moves one after the other, with their labels. -/
inductive Trace (move : Abstract → Label → Abstract → Prop) :
    Abstract → List Label → Abstract → Prop where
  | nil (state : Abstract) : Trace move state [] state
  | cons {first middle last : Abstract} {label : Label} {labels : List Label}
      (moved : move first label middle) (later : Trace move middle labels last) :
      Trace move first (label :: labels) last

variable {move : Abstract → Label → Abstract → Prop}

theorem Trace.one {first last : Abstract} {label : Label} (moved : move first label last) :
    Trace move first [label] last :=
  .cons moved (.nil last)

theorem Trace.append {first middle last : Abstract} {labels later : List Label}
    (front : Trace move first labels middle) (back : Trace move middle later last) :
    Trace move first (labels ++ later) last := by
  induction front with
  | nil => exact back
  | cons moved _ ih => exact .cons moved (ih back)

/-- The moves of a machine given by a step function are its runs. -/
theorem trace_run {step : State → Event → Option State} {first last : State}
    {events : List Event} :
    Trace (fun before event after => step before event = some after) first events last ↔
      run step first events = some last := by
  induction events generalizing first with
  | nil =>
      rw [run_nil]
      constructor
      · rintro ⟨⟩
        rfl
      · rintro rfl
        exact .nil first
  | cons event rest ih =>
      rw [run_cons]
      constructor
      · rintro ⟨⟩
        rename_i middle moved later
        exact ⟨middle, moved, ih.mp later⟩
      · rintro ⟨middle, moved, later⟩
        exact .cons moved (ih.mpr later)

/-- What the steps of a run emit, oldest first. -/
def emitted (step : State → Event → Option State) (emit : State → Event → List Label) :
    State → List Event → List Label
  | _, [] => []
  | state, event :: rest =>
      emit state event ++ ((step state event).map fun next => emitted step emit next rest).getD []

/-- Each step is the moves that it emits, and keeps the states related. -/
def Simulates (step : State → Event → Option State) (emit : State → Event → List Label)
    (move : Abstract → Label → Abstract → Prop) (related : State → Abstract → Prop) : Prop :=
  ∀ state event after abstract, related state abstract → step state event = some after →
    ∃ next, Trace move abstract (emit state event) next ∧ related after next

theorem Simulates.run {step : State → Event → Option State} {emit : State → Event → List Label}
    {related : State → Abstract → Prop} (simulates : Simulates step emit move related)
    {start final : State} {abstract : Abstract} {events : List Event}
    (initial : related start abstract) (past : Runs.run step start events = some final) :
    ∃ last, Trace move abstract (emitted step emit start events) last ∧ related final last := by
  induction events generalizing start abstract with
  | nil =>
      cases (run_nil start final).mp past
      exact ⟨abstract, .nil abstract, initial⟩
  | cons event rest ih =>
      obtain ⟨next, taken, future⟩ := (run_cons ..).mp past
      obtain ⟨middle, front, later⟩ := simulates start event next abstract initial taken
      obtain ⟨last, back, ends⟩ := ih later future
      refine ⟨last, ?_, ends⟩
      rw [emitted, taken]
      exact front.append back

/-- What is related to a state of the other machine in every reachable state. -/
theorem Simulates.reachable {step : State → Event → Option State}
    {emit : State → Event → List Label} {related : State → Abstract → Prop}
    (simulates : Simulates step emit move related) {start final : State} {abstract : Abstract}
    (initial : related start abstract) (reached : Reachable step start final) :
    ∃ last, related final last := by
  obtain ⟨events, past⟩ := reached
  obtain ⟨last, _, ends⟩ := simulates.run initial past
  exact ⟨last, ends⟩

end Muddymask.Simulation
