import Mathlib.Data.List.Induction

/-!
Finite runs of a machine given by a partial step function: an event that is not
enabled in a state has no successor. A run is the list of its events, oldest
first, so that the whole nondeterminism of a system stands in its events.
`Always` speaks about every state a run visits, `Along` about every step it
takes; the rules below reduce both to one step.
-/

namespace Muddymask.Runs

variable {State Event : Type}

def run (step : State → Event → Option State) (start : State) (events : List Event) :
    Option State := events.foldlM step start

def Reachable (step : State → Event → Option State) (start state : State) : Prop :=
  ∃ events, run step start events = some state

/-- `property` holds in every state visited, the first and the last included. -/
def Always (step : State → Event → Option State) (property : State → Prop) :
    State → List Event → Prop
  | state, [] => property state
  | state, event :: rest =>
      property state ∧ ∀ next, step state event = some next → Always step property next rest

/-- `admitted` holds of every event in the state it is taken in. -/
def Along (step : State → Event → Option State) (admitted : State → Event → Prop) :
    State → List Event → Prop
  | _, [] => True
  | state, event :: rest =>
      admitted state event ∧ ∀ next, step state event = some next → Along step admitted next rest

variable {step : State → Event → Option State}

@[simp] theorem run_nil (start final : State) : run step start [] = some final ↔ start = final := by
  simp [run]

@[simp] theorem run_cons (start final : State) (event : Event) (rest : List Event) :
    run step start (event :: rest) = some final ↔
      ∃ next, step start event = some next ∧ run step next rest = some final := by
  simp [run, Option.bind_eq_some_iff]

theorem run_append (start final : State) (first second : List Event) :
    run step start (first ++ second) = some final ↔
      ∃ middle, run step start first = some middle ∧ run step middle second = some final := by
  simp [run, Option.bind_eq_some_iff]

theorem run_concat (start final : State) (events : List Event) (event : Event) :
    run step start (events ++ [event]) = some final ↔
      ∃ middle, run step start events = some middle ∧ step middle event = some final := by
  simp [run_append]

theorem run_one {start final : State} {event : Event} (taken : step start event = some final) :
    run step start [event] = some final := by
  simpa using taken

theorem reachable_start (start : State) : Reachable step start start := ⟨[], by simp⟩

theorem reachable_run {start state final : State} {events : List Event}
    (reached : Reachable step start state) (past : run step state events = some final) :
    Reachable step start final := by
  obtain ⟨earlier, before⟩ := reached
  exact ⟨earlier ++ events, (run_append ..).mpr ⟨state, before, past⟩⟩

theorem reachable_next {start state next : State} {event : Event}
    (reached : Reachable step start state) (taken : step state event = some next) :
    Reachable step start next :=
  reachable_run reached (run_one taken)

theorem reachable_induct {start state : State} (property : State → Prop)
    (reached : Reachable step start state) (initial : property start)
    (preserved : ∀ before event after, Reachable step start before → property before →
      step before event = some after → property after) : property state := by
  obtain ⟨events, past⟩ := reached
  induction events using List.reverseRecOn generalizing state with
  | nil => simpa [← (run_nil start state).mp past] using initial
  | append_singleton earlier event ih =>
      obtain ⟨middle, before, taken⟩ := (run_concat ..).mp past
      exact preserved middle event state ⟨earlier, before⟩ (ih before) taken

/-- What every admitted step preserves holds in every state of an admitted run. -/
theorem always_of_along (property : State → Prop) (admitted : State → Event → Prop)
    (preserved : ∀ before event after, property before → admitted before event →
      step before event = some after → property after)
    (start : State) (events : List Event) (initial : property start)
    (allowed : Along step admitted start events) : Always step property start events := by
  induction events generalizing start with
  | nil => exact initial
  | cons event rest ih =>
      refine ⟨initial, fun next taken => ?_⟩
      exact ih next (preserved start event next initial allowed.1 taken) (allowed.2 next taken)

/-- If a step between two states with the property was admitted, a run that
never leaves the property took admitted steps only. -/
theorem along_of_always (invariant property : State → Prop) (admitted : State → Event → Prop)
    (preserved : ∀ before event after, invariant before →
      step before event = some after → invariant after)
    (witnessed : ∀ before event after, invariant before → property before →
      step before event = some after → property after → admitted before event)
    (start final : State) (events : List Event) (initial : invariant start)
    (past : run step start events = some final)
    (always : Always step property start events) : Along step admitted start events := by
  induction events generalizing start with
  | nil => trivial
  | cons event rest ih =>
      obtain ⟨next, taken, future⟩ := (run_cons ..).mp past
      have later := always.2 next taken
      have landed : property next := by
        cases rest with
        | nil => exact later
        | cons => exact later.1
      refine ⟨witnessed start event next initial always.1 taken landed, fun other same => ?_⟩
      cases Option.some.inj (taken.symm.trans same)
      exact ih next (preserved start event next initial taken) future later

theorem along_of_forall (admitted : State → Event → Prop) (start : State) (events : List Event)
    (all : ∀ event ∈ events, ∀ state, admitted state event) : Along step admitted start events := by
  induction events generalizing start with
  | nil => trivial
  | cons event rest ih =>
      exact ⟨all event (by simp) start, fun next _ => ih next fun later member =>
        all later (List.mem_cons_of_mem event member)⟩

theorem final_of_along (property : State → Prop) (admitted : State → Event → Prop)
    (preserved : ∀ before event after, property before → admitted before event →
      step before event = some after → property after)
    (start final : State) (events : List Event) (initial : property start)
    (past : run step start events = some final) (allowed : Along step admitted start events) :
    property final := by
  induction events generalizing start with
  | nil => exact (run_nil start final).mp past ▸ initial
  | cons event rest ih =>
      obtain ⟨next, taken, future⟩ := (run_cons ..).mp past
      exact ih next (preserved start event next initial allowed.1 taken) future
        (allowed.2 next taken)

/-- Conditions that agree in the states a run can be in. -/
theorem along_congr_reached (origin : State) (left right : State → Event → Prop)
    (same : ∀ before event after, Reachable step origin before → step before event = some after →
      (left before event ↔ right before event))
    (start final : State) (events : List Event) (reached : Reachable step origin start)
    (past : run step start events = some final) :
    Along step left start events ↔ Along step right start events := by
  induction events generalizing start with
  | nil => exact Iff.rfl
  | cons event rest ih =>
      obtain ⟨next, taken, future⟩ := (run_cons ..).mp past
      refine and_congr (same start event next reached taken) (forall₂_congr fun other landed => ?_)
      cases Option.some.inj (taken.symm.trans landed)
      exact ih next (reachable_next reached taken) future

theorem along_congr (left right : State → Event → Prop)
    (same : ∀ before event after, step before event = some after →
      (left before event ↔ right before event))
    (start final : State) (events : List Event) (past : run step start events = some final) :
    Along step left start events ↔ Along step right start events :=
  along_congr_reached start left right (fun before event after _ => same before event after) start
    final events (reachable_start start) past

theorem along_concat (admitted : State → Event → Prop) (start middle : State)
    (events : List Event) (event : Event) (past : run step start events = some middle) :
    Along step admitted start (events ++ [event]) ↔
      Along step admitted start events ∧ admitted middle event := by
  induction events generalizing start with
  | nil =>
      cases (run_nil start middle).mp past
      simp [Along]
  | cons first rest ih =>
      obtain ⟨next, taken, future⟩ := (run_cons ..).mp past
      have only : ∀ other, step start first = some other ↔ other = next := by
        intro other
        rw [taken, Option.some.injEq, eq_comm]
      simp [Along, only, ih next future, and_assoc]

theorem always_mono (property weaker : State → Prop) (implies : ∀ state, property state → weaker state)
    (start : State) (events : List Event) (always : Always step property start events) :
    Always step weaker start events := by
  induction events generalizing start with
  | nil => exact implies start always
  | cons event rest ih =>
      exact ⟨implies start always.1, fun next taken => ih next (always.2 next taken)⟩

theorem along_cons (admitted : State → Event → Prop) (start next : State) (event : Event)
    (rest : List Event) (taken : step start event = some next) :
    Along step admitted start (event :: rest) ↔
      admitted start event ∧ Along step admitted next rest := by
  simp [Along, taken]

instance decidableAlong (step : State → Event → Option State) (admitted : State → Event → Prop)
    [∀ state event, Decidable (admitted state event)] :
    (start : State) → (events : List Event) → Decidable (Along step admitted start events)
  | _, [] => isTrue trivial
  | start, event :: rest => match taken : step start event with
      | none => decidable_of_iff (admitted start event) (by simp [Along, taken])
      | some next =>
          have : Decidable (Along step admitted next rest) := decidableAlong step admitted next rest
          decidable_of_iff _ (along_cons admitted start next event rest taken).symm

/-- What the steps of a run amount to. -/
def total (step : State → Event → Option State) (weight : State → Event → Nat) :
    State → List Event → Nat
  | _, [] => 0
  | state, event :: rest =>
      weight state event + ((step state event).map fun next => total step weight next rest).getD 0

/-- The potential argument: what the steps cost is paid by what they gain, at the
given rates, and by what the states have put aside. -/
theorem total_amortised (invariant : State → Prop) (cost gain : State → Event → Nat)
    (potential : State → Nat) (rate price : Nat)
    (preserved : ∀ before event after, invariant before →
      step before event = some after → invariant after)
    (paid : ∀ before event after, invariant before → step before event = some after →
      rate * cost before event + potential after ≤ price * gain before event + potential before)
    (start final : State) (events : List Event) (initial : invariant start)
    (past : run step start events = some final) :
    rate * total step cost start events + potential final ≤
      price * total step gain start events + potential start := by
  induction events generalizing start with
  | nil =>
      cases (run_nil start final).mp past
      exact Nat.le_refl _
  | cons event rest ih =>
      obtain ⟨next, taken, future⟩ := (run_cons ..).mp past
      have now := paid start event next initial taken
      have later := ih next (preserved start event next initial taken) future
      simp only [total, taken, Option.map_some, Option.getD_some, Nat.mul_add]
      omega

/-- From a state where something useful can always be done a run of useful events
gets to the goal, if each of them brings it nearer. -/
theorem settles (invariant goal : State → Prop) (useful : Event → Prop) (left : State → Nat)
    (progress : ∀ state, invariant state → ¬ goal state → ∃ event next, useful event ∧
      step state event = some next ∧ invariant next ∧ left next < left state)
    (start : State) (initial : invariant start) :
    ∃ events final, (∀ event ∈ events, useful event) ∧ run step start events = some final ∧
      invariant final ∧ goal final := by
  induction measured : left start using Nat.strongRecOn generalizing start with
  | ind _ ih =>
  by_cases done : goal start
  · exact ⟨[], start, by simp, by simp, initial, done⟩
  · obtain ⟨event, next, helps, taken, still, nearer⟩ := progress start initial done
    obtain ⟨events, final, all, past, last, reached⟩ :=
      ih (left next) (measured ▸ nearer) next still rfl
    exact ⟨event :: events, final, List.forall_mem_cons.mpr ⟨helps, all⟩,
      (run_cons ..).mpr ⟨next, taken, past⟩, last, reached⟩

/-- What an observer of the steps notes along a run, oldest first. -/
def observed {Note : Type} (step : State → Event → Option State)
    (observe : State → Event → Option Note) : State → List Event → List Note
  | _, [] => []
  | state, event :: rest =>
      (observe state event).toList ++
        ((step state event).map fun next => observed step observe next rest).getD []

theorem observed_concat {Note : Type} (observe : State → Event → Option Note)
    (start middle : State) (events : List Event) (event : Event)
    (past : run step start events = some middle) :
    observed step observe start (events ++ [event]) =
      observed step observe start events ++ (observe middle event).toList := by
  induction events generalizing start with
  | nil =>
      have same := (run_nil start middle).mp past
      cases reached : step start event <;> simp [observed, reached, ← same]
  | cons first rest ih =>
      obtain ⟨next, taken, future⟩ := (run_cons ..).mp past
      simp [observed, taken, ih next future]

theorem mem_observed {Note : Type} {observe : State → Event → Option Note} {origin start : State}
    {events : List Event} {note : Note} (reached : Reachable step origin start)
    (noted : note ∈ observed step observe start events) :
    ∃ state event, Reachable step origin state ∧ observe state event = some note := by
  induction events generalizing start with
  | nil => cases noted
  | cons event rest ih =>
      rcases List.mem_append.mp noted with now | later
      · exact ⟨start, event, reached, by simpa using now⟩
      · cases taken : step start event with
        | none => simp [taken] at later
        | some next => exact ih (reachable_next reached taken) (by simpa [taken] using later)

end Muddymask.Runs
