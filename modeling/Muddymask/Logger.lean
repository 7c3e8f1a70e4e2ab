import Muddymask.Runs
import Muddymask.Words

/-!
`Logger` of `source/common/logging/Logger.cpp` and any number of threads that call
`commit` and `setTarget`. A step is an access of `logFile`, an operation of the
mutex, or a call of `stdio`. A `commit` chooses its target before it has the mutex,
so `setTarget` can close that target in between.
-/

namespace Muddymask

open Words

/-- What a `commit` writes: the prefix of its thread, and the text of its buffer. -/
structure Record where
  logPrefix : Bytes
  text : Bytes
  deriving DecidableEq

/-- Where a thread is. `FILE`s are numbered as they are opened, and `none` is
`stderr`. -/
inductive Logging where
  | idle
  /-- `commit` before its first and its second look at `logFile`, and at the mutex. -/
  | choose (record : Record)
  | reread (record : Record)
  | lock (record : Record) (f : Option Nat)
  /-- In the section of `commit`, and at its end. -/
  | writePrefix (record : Record) (f : Option Nat)
  | writeText (record : Record) (f : Option Nat)
  | leave (record : Record) (f : Option Nat)
  /-- `setTarget` has opened a file, and in its section. -/
  | enter (f : Nat)
  | test (f : Nat)
  | close (f : Nat)
  | assign (f : Nat)
  /-- At the end of the section of `setTarget`, or thrown out of a section. -/
  | unlock
  deriving DecidableEq

structure Logger where
  logFile : Option Nat
  holder : Option Nat
  /-- How many files were opened, and which ones are closed. -/
  files : Nat
  closed : Nat → Bool
  /-- What was written, a chunk for each call of `fwrite`. -/
  output : Option Nat → List (Record × Bytes)
  thread : Nat → Logging

namespace Logger

/-- The calls, the results of `stdio`, and any other step. `fwrite` writes `count`
bytes at most. A `setTarget` that cannot open its file throws and changes nothing. -/
inductive Action where
  | commit (record : Record)
  | setTarget
  | access
  | fwrite (count : Nat)
  | fclose (done : Bool)

structure Event where
  thread : Nat
  action : Action

def moved (state : Logger) (thread : Nat) (point : Logging) : Logger :=
  { state with thread := fun other => if other = thread then point else state.thread other }

@[simp] theorem moved_same (state : Logger) (thread : Nat) (point : Logging) :
    (state.moved thread point).thread thread = point := if_pos rfl
@[simp] theorem moved_other (state : Logger) {thread other : Nat} (point : Logging)
    (apart : other ≠ thread) : (state.moved thread point).thread other = state.thread other :=
  if_neg apart

theorem moved_all (state : Logger) {thread : Nat} {point : Logging} (property : Nat → Logging → Prop)
    (mine : property thread point)
    (others : ∀ other, other ≠ thread → property other (state.thread other)) (other : Nat) :
    property other ((state.moved thread point).thread other) := by
  by_cases same : other = thread
  · rwa [same, moved_same]
  · rw [moved_other _ _ same]
    exact others other same

/-- `fwrite_`, which throws if not everything was written. -/
def fwrite (state : Logger) (thread : Nat) (record : Record) (f : Option Nat) (bytes : Bytes)
    (count : Nat) (written : Logging) : Logger :=
  { state with output := fun target =>
      if target = f then state.output f ++ [(record, bytes.take count)] else state.output target }.moved
    thread (if bytes.length ≤ count then written else .unlock)

def step (state : Logger) (event : Event) : Option Logger :=
  let thread := event.thread
  match state.thread thread, event.action with
  | .idle, .commit record => some (state.moved thread (.choose record))
  | .choose record, .access => some (state.moved thread
      (if state.logFile = none then .lock record none else .reread record))
  | .reread record, .access => some (state.moved thread (.lock record state.logFile))
  | .lock record f, .access =>
      if state.holder = none then
        some ({ state with holder := some thread }.moved thread (.writePrefix record f))
      else none
  | .writePrefix record f, .fwrite count =>
      some (state.fwrite thread record f record.logPrefix count (.writeText record f))
  | .writeText record f, .fwrite count =>
      some (state.fwrite thread record f record.text count (.leave record f))
  | .idle, .setTarget =>
      some ({ state with files := state.files + 1 }.moved thread (.enter state.files))
  | .enter f, .access =>
      if state.holder = none then some ({ state with holder := some thread }.moved thread (.test f))
      else none
  | .test f, .access =>
      some (state.moved thread (if state.logFile = none then .assign f else .close f))
  | .close f, .fclose done => state.logFile.map fun old =>
      { state with closed := fun file => if file = old then true else state.closed file }.moved thread
        (if done then .assign f else .unlock)
  | .assign f, .access => some ({ state with logFile := some f }.moved thread .unlock)
  | .leave _ _, .access | .unlock, .access =>
      some ({ state with holder := none }.moved thread .idle)
  | _, _ => none

def start : Logger where
  logFile := none
  holder := none
  files := 0
  closed := fun _ => false
  output := fun _ => []
  thread := fun _ => .idle

end Logger

namespace Logging

def inside : Logging → Bool
  | idle | choose _ | reread _ | lock _ _ | enter _ => false
  | writePrefix _ _ | writeText _ _ | leave _ _ | test _ | close _ | assign _ | unlock => true

/-- The chunk of a record that its text has to follow. -/
def unfinished : Logging → Option Nat → List (Record × Bytes)
  | writeText record f, target => if target = f then [(record, record.logPrefix)] else []
  | _, _ => []

/-- The file that a `commit` has chosen and is not through with. -/
def chosen : Logging → Option Nat
  | lock _ f | writePrefix _ f | writeText _ f => f
  | _ => none

def writes : Logging → Option Nat
  | writePrefix _ f | writeText _ f => f
  | _ => none

def opening : Logging → Option Nat
  | enter f | test f | close f | assign f => some f
  | _ => none

end Logging

namespace Logger

/-- Everything a step can be. -/
inductive Taken (state : Logger) (thread : Nat) : Action → Logger → Prop where
  | commit (record : Record) (stands : state.thread thread = .idle) :
      Taken state thread (.commit record) (state.moved thread (.choose record))
  | choose (record : Record) (stands : state.thread thread = .choose record) :
      Taken state thread .access (state.moved thread
        (if state.logFile = none then .lock record none else .reread record))
  | reread (record : Record) (stands : state.thread thread = .reread record) :
      Taken state thread .access (state.moved thread (.lock record state.logFile))
  | lock (record : Record) (f : Option Nat) (stands : state.thread thread = .lock record f)
      (free : state.holder = none) : Taken state thread .access
        ({ state with holder := some thread }.moved thread (.writePrefix record f))
  | writePrefix (record : Record) (f : Option Nat) (count : Nat)
      (stands : state.thread thread = .writePrefix record f) : Taken state thread (.fwrite count)
        (state.fwrite thread record f record.logPrefix count (.writeText record f))
  | writeText (record : Record) (f : Option Nat) (count : Nat)
      (stands : state.thread thread = .writeText record f) : Taken state thread (.fwrite count)
        (state.fwrite thread record f record.text count (.leave record f))
  | setTarget (stands : state.thread thread = .idle) : Taken state thread .setTarget
      ({ state with files := state.files + 1 }.moved thread (.enter state.files))
  | enter (f : Nat) (stands : state.thread thread = .enter f) (free : state.holder = none) :
      Taken state thread .access ({ state with holder := some thread }.moved thread (.test f))
  | test (f : Nat) (stands : state.thread thread = .test f) : Taken state thread .access
      (state.moved thread (if state.logFile = none then .assign f else .close f))
  | close (f old : Nat) (done : Bool) (stands : state.thread thread = .close f)
      (current : state.logFile = some old) : Taken state thread (.fclose done)
        ({ state with closed := fun file => if file = old then true else state.closed file }.moved
          thread (if done then .assign f else .unlock))
  | assign (f : Nat) (stands : state.thread thread = .assign f) : Taken state thread .access
      ({ state with logFile := some f }.moved thread .unlock)
  | leave (record : Record) (f : Option Nat) (stands : state.thread thread = .leave record f) :
      Taken state thread .access ({ state with holder := none }.moved thread .idle)
  | unlock (stands : state.thread thread = .unlock) :
      Taken state thread .access ({ state with holder := none }.moved thread .idle)

theorem step_taken {state next : Logger} {event : Event} (taken : step state event = some next) :
    Taken state event.thread event.action next := by
  obtain ⟨thread, action⟩ := event
  cases stands : state.thread thread <;> cases action <;> simp only [step, stands] at taken <;>
    try contradiction
  case idle.commit record =>
    cases taken
    exact .commit record stands
  case idle.setTarget =>
    cases taken
    exact .setTarget stands
  case choose.access record =>
    cases taken
    exact .choose record stands
  case reread.access record =>
    cases taken
    exact .reread record stands
  case lock.access record f =>
    obtain ⟨free, same⟩ := Option.ite_none_right_eq_some.mp taken
    cases same
    exact .lock record f stands free
  case writePrefix.fwrite record f count =>
    cases taken
    exact .writePrefix record f count stands
  case writeText.fwrite record f count =>
    cases taken
    exact .writeText record f count stands
  case leave.access record f =>
    cases taken
    exact .leave record f stands
  case enter.access f =>
    obtain ⟨free, same⟩ := Option.ite_none_right_eq_some.mp taken
    cases same
    exact .enter f stands free
  case test.access f =>
    cases taken
    exact .test f stands
  case close.fclose f done =>
    obtain ⟨old, current, same⟩ := Option.map_eq_some_iff.mp taken
    cases same
    exact .close f old done stands current
  case assign.access f =>
    cases taken
    exact .assign f stands
  case unlock.access =>
    cases taken
    exact .unlock stands

theorem step_other {state next : Logger} {event : Event} (taken : step state event = some next)
    {other : Nat} (apart : other ≠ event.thread) : next.thread other = state.thread other := by
  obtain ⟨thread, action⟩ := event
  cases step_taken taken <;> exact if_neg apart

theorem run_other {state final : Logger} {events : List Event}
    (past : Runs.run step state events = some final) {other : Nat}
    (apart : ∀ event ∈ events, other ≠ event.thread) : final.thread other = state.thread other := by
  induction events generalizing state with
  | nil => rw [(Runs.run_nil state final).mp past]
  | cons event rest ih =>
      obtain ⟨next, taken, future⟩ := (Runs.run_cons ..).mp past
      rw [ih future fun later member => apart later (List.mem_cons_of_mem event member),
        step_other taken (apart event List.mem_cons_self)]

end Logger

end Muddymask
