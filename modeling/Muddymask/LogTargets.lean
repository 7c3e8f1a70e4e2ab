import Muddymask.LogRecords

/-!
Which files the logger writes to. A `commit` holds on to a target that it chose
without the mutex; if that is closed before the `commit` is through, or if the target
is chosen after it was closed, there is a write to a closed file, and only then.
-/

namespace Muddymask

open Words

namespace Logger

/-- A step that leaves no `commit` with a closed file: nobody waits for the mutex with
the target that `setTarget` closes, nobody chooses it between then and the assignment,
and it can be closed. -/
def Admitted (state : Logger) (event : Event) : Prop :=
  match state.thread event.thread, event.action with
  | .close _, .fclose done => done = true ∧ ∀ other record f,
      state.thread other = .lock record f → f = none ∨ f ≠ state.logFile
  | .reread _, .access => ∀ f, state.logFile = some f → state.closed f = false
  | _, _ => True

/-- No thread is about to write to a closed file. -/
def Open (state : Logger) : Prop :=
  ∀ thread f, (state.thread thread).writes = some f → state.closed f = false

/-- What admitted steps keep of the files. -/
structure Targets (state : Logger) : Prop where
  numbered : ∀ f, state.closed f = true → f < state.files
  current : ∀ f, state.logFile = some f → f < state.files
  chosen : ∀ thread f, (state.thread thread).chosen = some f → state.closed f = false
  opening : ∀ thread f, (state.thread thread).opening = some f →
    f < state.files ∧ state.closed f = false ∧ state.logFile ≠ some f
  apart : ∀ thread other f, (state.thread thread).opening = some f →
    (state.thread other).opening = some f → thread = other

theorem start_targets : Targets start where
  numbered f closed := by cases closed
  current f is := by cases is
  chosen thread f is := by cases is
  opening thread f is := by cases is
  apart thread other f is := by cases is

theorem Targets.isOpen {state : Logger} (targets : Targets state) : Open state := by
  intro thread f writing
  refine targets.chosen thread f ?_
  cases stands : state.thread thread <;> rw [stands] at writing <;> first | exact writing | cases writing

/-- A step that opens, closes and assigns nothing. -/
theorem Targets.quiet {state next : Logger} {thread : Nat} {point : Logging} (targets : Targets state)
    (threads : next.thread = (state.moved thread point).thread) (files : next.files = state.files)
    (closed : next.closed = state.closed) (logFile : next.logFile = state.logFile)
    (chosen : ∀ f, point.chosen = some f → state.closed f = false)
    (opening : ∀ f, point.opening = some f → (state.thread thread).opening = some f) :
    Targets next := by
  have before : ∀ other f, (next.thread other).opening = some f →
      (state.thread other).opening = some f := by
    rw [threads]
    exact moved_all state (fun other stands => ∀ f, stands.opening = some f →
      (state.thread other).opening = some f) opening fun _ _ _ opened => opened
  exact {
    numbered := by
      rw [files, closed]
      exact targets.numbered
    current := by
      rw [files, logFile]
      exact targets.current
    chosen := by
      rw [threads, closed]
      exact moved_all state (fun _ stands => ∀ f, stands.chosen = some f → state.closed f = false)
        chosen fun other _ => targets.chosen other
    opening := by
      intro other f opened
      rw [files, closed, logFile]
      exact targets.opening other f (before other f opened)
    apart := fun first second f opened too =>
      targets.apart first second f (before first f opened) (before second f too) }

theorem Targets.opens {state : Logger} (targets : Targets state) (thread : Nat) :
    Targets ({ state with files := state.files + 1 }.moved thread (.enter state.files)) where
  numbered f closed := Nat.lt_succ_of_lt (targets.numbered f closed)
  current f is := Nat.lt_succ_of_lt (targets.current f is)
  chosen := moved_all _ (fun _ stands => ∀ f, stands.chosen = some f → state.closed f = false)
    (fun _ chose => by cases chose) fun other _ => targets.chosen other
  opening := by
    refine moved_all _ (fun _ stands => ∀ f, stands.opening = some f →
      f < state.files + 1 ∧ state.closed f = false ∧ state.logFile ≠ some f) ?_ ?_
    · rintro f ⟨⟩
      refine ⟨Nat.lt_succ_self _, ?_, fun is => Nat.lt_irrefl _ (targets.current _ is)⟩
      exact Bool.eq_false_iff.mpr fun closed => Nat.lt_irrefl _ (targets.numbered _ closed)
    · intro other _ f opened
      obtain ⟨below, isOpen, other⟩ := targets.opening other f opened
      exact ⟨Nat.lt_succ_of_lt below, isOpen, other⟩
  apart first second f opened too := by
    -- The new file is nobody else's.
    have fresh : ∀ other, other ≠ thread → (state.thread other).opening ≠ some state.files :=
      fun other _ is => Nat.lt_irrefl _ (targets.opening other _ is).1
    by_cases one : first = thread <;> by_cases two : second = thread
    · rw [one, two]
    · rw [one, moved_same] at opened
      rw [moved_other _ _ two] at too
      cases opened
      exact absurd too (fresh second two)
    · rw [two, moved_same] at too
      rw [moved_other _ _ one] at opened
      cases too
      exact absurd opened (fresh first one)
    · rw [moved_other _ _ one] at opened
      rw [moved_other _ _ two] at too
      exact targets.apart first second f opened too

theorem Targets.closes {state : Logger} {thread f old : Nat} (targets : Targets state)
    (contiguous : Contiguous state) (stands : state.thread thread = .close f)
    (current : state.logFile = some old)
    (nobody : ∀ other record f, state.thread other = .lock record f → f = none ∨ f ≠ state.logFile) :
    Targets ({ state with closed := fun file => if file = old then true else state.closed file }.moved
      thread (.assign f)) := by
  have still : ∀ {file}, file ≠ old → state.closed file = false →
      (if file = old then true else state.closed file) = false := fun different isOpen => by
    rw [if_neg different, isOpen]
  have before : ∀ other file, ((state.moved thread (.assign f)).thread other).opening = some file →
      (state.thread other).opening = some file := by
    refine moved_all state (fun other point => ∀ file, point.opening = some file →
      (state.thread other).opening = some file) ?_ fun _ _ _ opened => opened
    rw [stands]
    exact fun _ opened => opened
  exact {
    numbered := by
      intro file closed
      by_cases same : file = old
      · exact same ▸ targets.current old current
      · exact targets.numbered file (by simpa [moved, same] using closed)
    current := targets.current
    chosen := by
      refine moved_all _ (fun _ point => ∀ file, point.chosen = some file →
        (if file = old then true else state.closed file) = false)
        (fun _ chose => by cases chose) fun other same file chose => ?_
      refine still (fun alike => ?_) (targets.chosen other file chose)
      -- Whoever has chosen the old target waits for the mutex, which `thread` has.
      have outside : (state.thread other).inside ≠ true := fun inside => by
        have owner := (contiguous.held thread).mp (by rw [stands]; rfl)
        have alone := (contiguous.held other).mp inside
        exact same (Option.some.inj (alone.symm.trans owner))
      cases waits : state.thread other <;> rw [waits] at chose outside <;> try cases chose
      · rename_i record
        rcases nobody other record _ waits with none | apart
        · cases none
        · exact apart (by rw [current, alike])
      · exact outside rfl
      · exact outside rfl
    opening := by
      intro other file opened
      obtain ⟨below, isOpen, apart⟩ := targets.opening other file (before other file opened)
      exact ⟨below, still (fun alike => apart (by rw [current, alike])) isOpen, apart⟩
    apart := fun first second file opened too =>
      targets.apart first second file (before first file opened) (before second file too) }

theorem Targets.assigns {state : Logger} {thread f : Nat} (targets : Targets state)
    (stands : state.thread thread = .assign f) :
    Targets ({ state with logFile := some f }.moved thread .unlock) := by
  have own : (state.thread thread).opening = some f := by rw [stands]; rfl
  have before : ∀ other file, ((state.moved thread .unlock).thread other).opening = some file →
      other ≠ thread ∧ (state.thread other).opening = some file := by
    exact moved_all state (fun other stands => ∀ file, stands.opening = some file →
      other ≠ thread ∧ (state.thread other).opening = some file)
      (fun _ opened => by cases opened) fun other same file opened => ⟨same, opened⟩
  exact {
    numbered := targets.numbered
    current := by
      rintro file ⟨⟩
      exact (targets.opening thread f own).1
    chosen := moved_all _ (fun _ stands => ∀ f, stands.chosen = some f → state.closed f = false)
      (fun _ chose => by cases chose) fun other _ => targets.chosen other
    opening := by
      intro other file opened
      obtain ⟨different, was⟩ := before other file opened
      obtain ⟨below, isOpen, _⟩ := targets.opening other file was
      refine ⟨below, isOpen, fun is => different ?_⟩
      cases is
      exact targets.apart other thread f was own
    apart := fun first second file opened too =>
      targets.apart first second file (before first file opened).2 (before second file too).2 }

theorem step_targets {state next : Logger} {event : Event} (targets : Targets state)
    (contiguous : Contiguous state) (admitted : Admitted state event)
    (taken : step state event = some next) : Targets next := by
  obtain ⟨thread, action⟩ := event
  cases step_taken taken with
  | commit record stands =>
      exact targets.quiet rfl rfl rfl rfl (fun _ is => by cases is) (fun _ is => by cases is)
  | choose record stands =>
      refine targets.quiet rfl rfl rfl rfl (fun f is => ?_) (fun f is => ?_)
      · split at is <;> cases is
      · split at is <;> cases is
  | reread record stands =>
      dsimp only at stands
      simp only [Admitted, stands] at admitted
      exact targets.quiet rfl rfl rfl rfl admitted (fun _ is => by cases is)
  | lock record f stands free =>
      have chose : (state.thread thread).chosen = f := by rw [stands]; rfl
      refine targets.quiet rfl rfl rfl rfl (fun file is => ?_) (fun _ is => by cases is)
      exact targets.chosen thread file (chose.trans is)
  | writePrefix record f count stands =>
      have chose : (state.thread thread).chosen = f := by rw [stands]; rfl
      refine targets.quiet rfl rfl rfl rfl (fun file is => ?_) (fun file is => ?_)
      · split at is
        · exact targets.chosen thread file (chose.trans is)
        · cases is
      · split at is <;> cases is
  | writeText record f count stands =>
      refine targets.quiet rfl rfl rfl rfl (fun file is => ?_) (fun file is => ?_)
      · split at is <;> cases is
      · split at is <;> cases is
  | setTarget stands => exact targets.opens thread
  | enter f stands free =>
      refine targets.quiet rfl rfl rfl rfl (fun _ is => by cases is) (fun file is => ?_)
      rw [stands]
      exact is
  | test f stands =>
      refine targets.quiet rfl rfl rfl rfl (fun file is => ?_) (fun file is => ?_)
      · split at is <;> cases is
      · rw [stands]
        split at is <;> exact is
  | close f old done stands current =>
      dsimp only at stands
      simp only [Admitted, stands] at admitted
      obtain ⟨rfl, nobody⟩ := admitted
      exact targets.closes contiguous stands current nobody
  | assign f stands => exact targets.assigns stands
  | leave record f stands =>
      exact targets.quiet rfl rfl rfl rfl (fun _ is => by cases is) (fun _ is => by cases is)
  | unlock stands =>
      exact targets.quiet rfl rfl rfl rfl (fun _ is => by cases is) (fun _ is => by cases is)

/-- Records are whole, and no write goes to a closed file. -/
structure Kept (state : Logger) : Prop where
  contiguous : Contiguous state
  isOpen : Open state

/-- In a run in which no `commit` is left with a closed target everything is written
whole to open files. -/
theorem log_kept (events : List Event) (allowed : Runs.Along step Admitted start events) :
    Runs.Always step Kept start events := by
  have always := Runs.always_of_along (fun state => Contiguous state ∧ Targets state) Admitted
    (fun before event after both admitted taken => ⟨step_contiguous both.1 taken,
      step_targets both.2 both.1 admitted taken⟩) start events ⟨start_contiguous, start_targets⟩ allowed
  exact Runs.always_mono _ Kept (fun state both => ⟨both.1, both.2.isOpen⟩) start events always

theorem along_unclosed {state : Logger} (isOpen : ∀ f, state.closed f = false) (events : List Event)
    (unclosed : ∀ event ∈ events, ∀ done, event.action ≠ .fclose done) :
    Runs.Along step Admitted state events := by
  induction events generalizing state with
  | nil => trivial
  | cons event rest ih =>
      obtain ⟨thread, action⟩ := event
      have keeps := unclosed ⟨thread, action⟩ List.mem_cons_self
      refine ⟨?_, fun next taken => ih ?_ fun later member =>
        unclosed later (List.mem_cons_of_mem _ member)⟩
      · rw [Admitted]
        split
        · rename_i closing
          exact absurd closing (keeps _)
        · exact fun f _ => isOpen f
        · trivial
      · cases step_taken taken with
        | close f old done stands current => exact absurd rfl (keeps done)
        | _ => exact isOpen

def replacing : List Event :=
  [⟨0, .setTarget⟩, ⟨0, .access⟩, ⟨0, .access⟩, ⟨0, .access⟩, ⟨0, .access⟩,
    ⟨1, .commit ⟨ascii "[1] ", ascii "one\n"⟩⟩, ⟨1, .access⟩, ⟨1, .access⟩, ⟨1, .access⟩,
    ⟨1, .fwrite 4⟩, ⟨1, .fwrite 4⟩, ⟨1, .access⟩,
    ⟨0, .setTarget⟩, ⟨0, .access⟩, ⟨0, .access⟩]

theorem replacing_allowed :
    Runs.Along step Admitted start (replacing ++ [⟨0, .fclose true⟩]) := by
  have past : Runs.run step start replacing = some ((Runs.run step start replacing).getD start) := rfl
  refine (Runs.along_concat Admitted start _ _ _ past).mpr
    ⟨along_unclosed (fun _ => rfl) _ (by simp [replacing]), rfl, fun other record f stands => ?_⟩
  match other with
  | 0 => cases stands
  | 1 => cases stands
  | rest + 2 =>
      rw [run_other past (by simp [replacing])] at stands
      cases stands

theorem log_kept_replacing :
    Runs.Always step Kept start (replacing ++ [⟨0, .fclose true⟩]) :=
  log_kept _ replacing_allowed

/-- A commit chooses its target, and `setTarget` closes it before the commit has the
mutex. -/
theorem log_kept_fails : ∃ state, Runs.run step start
    [⟨0, .setTarget⟩, ⟨0, .access⟩, ⟨0, .access⟩, ⟨0, .access⟩, ⟨0, .access⟩,
      ⟨1, .commit ⟨ascii "[1] ", ascii "one\n"⟩⟩, ⟨1, .access⟩, ⟨1, .access⟩,
      ⟨0, .setTarget⟩, ⟨0, .access⟩, ⟨0, .access⟩, ⟨0, .fclose true⟩, ⟨0, .access⟩, ⟨0, .access⟩,
      ⟨1, .access⟩] = some state ∧ ¬ Open state := by
  refine ⟨_, rfl, fun isOpen => ?_⟩
  have writing := isOpen 1 0 rfl
  cases writing

/-! A step that is not admitted can be followed by a write to a closed file. -/

theorem step_closed {state next : Logger} {event : Event} (taken : step state event = some next)
    {f : Nat} (closed : state.closed f = true) : next.closed f = true := by
  obtain ⟨thread, action⟩ := event
  cases step_taken taken with
  | close opened old done stands current =>
      by_cases same : f = old
      · exact if_pos same
      · exact (if_neg same).trans closed
  | _ => exact closed

/-- `setTarget` closes nothing but a file. -/
def Closing (state : Logger) : Prop :=
  ∀ thread f, state.thread thread = .close f → state.logFile ≠ none

theorem step_closing {state next : Logger} {event : Event} (closing : Closing state)
    (taken : step state event = some next) : Closing next := by
  obtain ⟨thread, action⟩ := event
  intro other f stands
  have kept : state.logFile ≠ none → next.logFile ≠ none := by
    intro present
    cases step_taken taken with
    | assign f stands => exact Option.some_ne_none f
    | _ => exact present
  by_cases same : other = thread
  · subst same
    cases step_taken taken with
    | test g before =>
        intro null
        have absent : state.logFile = none := null
        rw [moved_same, if_pos absent] at stands
        cases stands
    | choose record before =>
        rw [moved_same] at stands
        split at stands <;> cases stands
    | writePrefix record g count before | writeText record g count before =>
        rw [fwrite, moved_same] at stands
        split at stands <;> cases stands
    | close g old done before current =>
        rw [moved_same] at stands
        split at stands <;> cases stands
    | _ =>
        rw [moved_same] at stands
        cases stands
  · rw [step_other taken same] at stands
    exact kept (closing other f stands)

theorem reachable_closing {state : Logger} (reached : Runs.Reachable step start state) :
    Closing state :=
  Runs.reachable_induct Closing reached (fun _ _ stands => by cases stands)
    fun _ _ _ _ before taken => step_closing before taken

/-- How many steps a section still has at most. -/
def remaining : Logging → Nat
  | .test _ => 4
  | .writePrefix _ _ | .close _ => 3
  | .writeText _ _ | .assign _ => 2
  | .leave _ _ | .unlock => 1
  | _ => 0

theorem section_step {state : Logger} (closing : Closing state) {thread : Nat}
    (inside : (state.thread thread).inside = true) (owner : state.holder = some thread) :
    ∃ action next, step state ⟨thread, action⟩ = some next ∧ (next.holder = none ∨
      next.holder = some thread ∧ remaining (next.thread thread) < remaining (state.thread thread)) := by
  cases stands : state.thread thread with
  | idle | choose _ | reread _ | lock _ _ | enter _ =>
      rw [stands] at inside
      cases inside
  | writePrefix record f =>
      have taken : step state ⟨thread, .fwrite record.logPrefix.length⟩ = some (state.fwrite thread
          record f record.logPrefix record.logPrefix.length (.writeText record f)) := by
        simp only [step, stands]
      refine ⟨_, _, taken, Or.inr ⟨owner, ?_⟩⟩
      rw [fwrite, moved_same, if_pos (Nat.le_refl _)]
      exact Nat.lt_succ_self 2
  | writeText record f =>
      have taken : step state ⟨thread, .fwrite record.text.length⟩ = some (state.fwrite thread
          record f record.text record.text.length (.leave record f)) := by
        simp only [step, stands]
      refine ⟨_, _, taken, Or.inr ⟨owner, ?_⟩⟩
      rw [fwrite, moved_same, if_pos (Nat.le_refl _)]
      exact Nat.lt_succ_self 1
  | leave record f | unlock =>
      have taken : step state ⟨thread, .access⟩ =
          some ({ state with holder := none }.moved thread .idle) := by
        simp only [step, stands]
      exact ⟨_, _, taken, Or.inl rfl⟩
  | test f =>
      have taken : step state ⟨thread, .access⟩ = some (state.moved thread
          (if state.logFile = none then .assign f else .close f)) := by
        simp only [step, stands]
      refine ⟨_, _, taken, Or.inr ⟨owner, ?_⟩⟩
      rw [moved_same]
      split <;> simp [remaining]
  | close f =>
      obtain ⟨old, current⟩ := Option.ne_none_iff_exists'.mp (closing thread f stands)
      have taken : step state ⟨thread, .fclose true⟩ = some ({ state with
          closed := fun file => if file = old then true else state.closed file }.moved thread
            (.assign f)) := by
        simp only [step, stands, current, Option.map_some, if_true]
      refine ⟨_, _, taken, Or.inr ⟨owner, ?_⟩⟩
      rw [moved_same]
      exact Nat.lt_succ_self 2
  | assign f =>
      have taken : step state ⟨thread, .access⟩ =
          some ({ state with logFile := some f }.moved thread .unlock) := by
        simp only [step, stands]
      refine ⟨_, _, taken, Or.inr ⟨owner, ?_⟩⟩
      rw [moved_same]
      exact Nat.lt_succ_self 1

theorem holder_leaves {state : Logger} (reached : Runs.Reachable step start state) {thread : Nat}
    (owner : state.holder = some thread) : ∃ events final,
      Runs.run step state events = some final ∧ final.holder = none ∧
      (∀ other, other ≠ thread → final.thread other = state.thread other) ∧
      ∀ f, state.closed f = true → final.closed f = true := by
  induction left : remaining (state.thread thread) using Nat.strongRecOn generalizing state with
  | ind left_ ih =>
      have inside := ((reachable_contiguous reached).held thread).mpr owner
      obtain ⟨action, next, taken, free | ⟨still, less⟩⟩ :=
        section_step (reachable_closing reached) inside owner
      · exact ⟨_, next, Runs.run_one taken, free, fun other apart => step_other taken apart,
          fun f => step_closed taken⟩
      · obtain ⟨events, final, past, free, others, closed⟩ := ih _ (left ▸ less)
          (Runs.reachable_next reached taken) still rfl
        exact ⟨⟨thread, action⟩ :: events, final, (Runs.run_cons ..).mpr ⟨next, taken, past⟩, free,
          fun other apart => (others other apart).trans (step_other taken apart),
          fun f is => closed f (step_closed taken is)⟩

theorem waiting_writes {state : Logger} (reached : Runs.Reachable step start state)
    {thread f : Nat} {record : Record} (waits : state.thread thread = .lock record (some f))
    (closed : state.closed f = true) :
    ∃ events final, Runs.run step state events = some final ∧ ¬ Open final := by
  have gets : ∀ {free : Logger}, free.holder = none → free.thread thread = .lock record (some f) →
      free.closed f = true → ∃ final, step free ⟨thread, .access⟩ = some final ∧ ¬ Open final := by
    intro free unheld waits closed
    have taken : step free ⟨thread, .access⟩ =
        some ({ free with holder := some thread }.moved thread (.writePrefix record (some f))) := by
      simp only [step, waits, unheld, if_true]
    refine ⟨_, taken, fun isOpen => ?_⟩
    have unclosed : free.closed f = false := isOpen thread f (by rw [moved_same]; rfl)
    rw [closed] at unclosed
    cases unclosed
  cases owner : state.holder with
  | none =>
      obtain ⟨final, taken, stale⟩ := gets owner waits closed
      exact ⟨_, final, Runs.run_one taken, stale⟩
  | some holder =>
      have apart : thread ≠ holder := by
        rintro rfl
        have inside := ((reachable_contiguous reached).held thread).mpr owner
        rw [waits] at inside
        cases inside
      obtain ⟨events, free, past, unheld, others, kept⟩ := holder_leaves reached owner
      obtain ⟨final, taken, stale⟩ := gets unheld ((others thread apart).trans waits) (kept f closed)
      exact ⟨_, final, (Runs.run_concat ..).mpr ⟨free, past, taken⟩, stale⟩

/-- A `setTarget` that failed to close its old target leaves it to the next `commit`. -/
theorem dangling_writes {state : Logger} (reached : Runs.Reachable step start state)
    {thread old : Nat} (stands : state.thread thread = .unlock) (current : state.logFile = some old)
    (closed : state.closed old = true) :
    ∃ events final, Runs.run step state events = some final ∧ ¬ Open final := by
  let record : Record := ⟨[], []⟩
  let free := { state with holder := none }.moved thread .idle
  let called := free.moved thread (.choose record)
  let chosen := called.moved thread (.reread record)
  let waiting := chosen.moved thread (.lock record (some old))
  have present : called.logFile = some old := current
  have first : step state ⟨thread, .access⟩ = some free := by
    simp only [step, stands, free]
  have second : step free ⟨thread, .commit record⟩ = some called := by
    simp only [step, free, moved_same, called]
  have third : step called ⟨thread, .access⟩ = some chosen := by
    simp only [step, called, moved_same, chosen]
    rw [if_neg (by rw [present]; simp)]
  have fourth : step chosen ⟨thread, .access⟩ = some waiting := by
    simp only [step, chosen, moved_same, waiting]
    rw [show (called.moved thread (.reread record)).logFile = some old from current]
  have past : Runs.run step state [⟨thread, .access⟩, ⟨thread, .commit record⟩, ⟨thread, .access⟩,
      ⟨thread, .access⟩] = some waiting := by
    simp only [Runs.run_cons, Runs.run_nil, first, second, third, fourth, Option.some.injEq,
      exists_eq_left']
  obtain ⟨events, final, future, stale⟩ :=
    waiting_writes (Runs.reachable_run reached past) (moved_same ..) closed
  exact ⟨_, final, (Runs.run_append ..).mpr ⟨waiting, past, future⟩, stale⟩

/-- After any step that is not admitted a `commit` can write to a closed file. -/
theorem stale_writes {state next : Logger} {event : Event}
    (reached : Runs.Reachable step start state) (taken : step state event = some next)
    (stale : ¬ Admitted state event) :
    ∃ events final, Runs.run step next events = some final ∧ ¬ Open final := by
  have later := Runs.reachable_next reached taken
  obtain ⟨thread, action⟩ := event
  cases step_taken taken with
  | reread record stands =>
      dsimp only at stands
      simp only [Admitted, stands, not_forall, Bool.not_eq_false] at stale
      obtain ⟨f, current, closed⟩ := stale
      have waits : (state.moved thread (.lock record state.logFile)).thread thread =
          .lock record (some f) := by rw [moved_same, current]
      exact waiting_writes later waits closed
  | close f old done stands current =>
      dsimp only at stands
      simp only [Admitted, stands] at stale
      have closed : (if old = old then true else state.closed old) = true := if_pos rfl
      cases done with
      | true =>
          simp only [true_and, not_forall, not_or, not_not] at stale
          obtain ⟨other, record, target, waits, present, same⟩ := stale
          rw [current] at same
          subst same
          have apart : other ≠ thread := fun alike => by
            rw [alike, stands] at waits
            cases waits
          exact waiting_writes later ((moved_other _ _ apart).trans waits) closed
      | false => exact dangling_writes later (moved_same ..) current closed
  | commit _ stands | choose _ stands | lock _ _ stands | writePrefix _ _ _ stands
  | writeText _ _ _ stands | setTarget stands | enter _ stands | test _ stands | assign _ stands
  | leave _ _ stands | unlock stands =>
      dsimp only at stands
      exact (stale (by simp only [Admitted, stands])).elim

end Logger

end Muddymask
