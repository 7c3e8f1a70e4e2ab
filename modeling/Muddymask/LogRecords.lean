import Muddymask.Logger

/-!
What the mutex of the logger gives in every run: the chunks of a record are written
one after the other, with nothing between them, unless its `commit` throws.
-/

namespace Muddymask

open Words

/-- Whole records, and what is there of those whose `commit` threw. -/
inductive Records : List (Record × Bytes) → Prop where
  | none : Records []
  | whole {chunks : List (Record × Bytes)} (record : Record) (earlier : Records chunks) :
      Records (chunks ++ [(record, record.logPrefix), (record, record.text)])
  | shortPrefix {chunks : List (Record × Bytes)} (record : Record) (count : Nat)
      (earlier : Records chunks) : Records (chunks ++ [(record, record.logPrefix.take count)])
  | shortText {chunks : List (Record × Bytes)} (record : Record) (count : Nat)
      (earlier : Records chunks) :
      Records (chunks ++ [(record, record.logPrefix), (record, record.text.take count)])

namespace Logger

def unfinished (state : Logger) (target : Option Nat) : List (Record × Bytes) :=
  match state.holder with
  | none => []
  | some thread => (state.thread thread).unfinished target

/-- What the mutex gives, whatever the threads do. -/
structure Contiguous (state : Logger) : Prop where
  held : ∀ thread, (state.thread thread).inside = true ↔ state.holder = some thread
  records : ∀ target, ∃ chunks, Records chunks ∧
    state.output target = chunks ++ state.unfinished target
  finished : ∀ thread record f, state.thread thread = .leave record f →
    ∃ chunks, state.output f = chunks ++ [(record, record.logPrefix), (record, record.text)]

theorem start_contiguous : Contiguous start where
  held thread := by simp [start, Logging.inside]
  records target := ⟨[], Records.none, rfl⟩
  finished thread record f at_ := by cases at_

section Steps
variable {state next : Logger} {thread : Nat} {point : Logging} (contiguous : Contiguous state)
  (threads : next.thread = (state.moved thread point).thread)
include contiguous threads

theorem Contiguous.finished_kept (output : next.output = state.output)
    (going : ∀ record f, point ≠ .leave record f) (other : Nat) (record : Record) (f : Option Nat)
    (stands : next.thread other = .leave record f) :
    ∃ chunks, next.output f = chunks ++ [(record, record.logPrefix), (record, record.text)] := by
  by_cases same : other = thread
  · rw [same, threads, moved_same] at stands
    exact absurd stands (going record f)
  · rw [threads, moved_other _ _ same] at stands
    rw [output]
    exact contiguous.finished other record f stands

/-- A step that neither takes nor gives back the mutex, and writes nothing. -/
theorem Contiguous.quiet (holder : next.holder = state.holder) (output : next.output = state.output)
    (inside : point.inside = (state.thread thread).inside)
    (before : ∀ target, (state.thread thread).unfinished target = [])
    (after : ∀ target, point.unfinished target = []) (going : ∀ record f, point ≠ .leave record f) :
    Contiguous next where
  held other := by
    by_cases same : other = thread
    · rw [same, threads, moved_same, inside, holder, contiguous.held]
    · rw [threads, moved_other _ _ same, holder, contiguous.held]
  records target := by
    obtain ⟨chunks, records, whole⟩ := contiguous.records target
    refine ⟨chunks, records, ?_⟩
    rw [output, whole, unfinished, unfinished, holder]
    cases state.holder with
    | none => rfl
    | some other =>
        by_cases same : other = thread
        · simp only [same, threads, moved_same, before, after]
        · simp only [threads, moved_other _ _ same]
  finished := contiguous.finished_kept threads output going

theorem Contiguous.acquire (free : state.holder = none) (holder : next.holder = some thread)
    (output : next.output = state.output) (inside : point.inside = true)
    (after : ∀ target, point.unfinished target = []) (going : ∀ record f, point ≠ .leave record f) :
    Contiguous next where
  held other := by
    by_cases same : other = thread
    · simp [same, threads, inside, holder]
    · rw [threads, moved_other _ _ same, holder, contiguous.held, free]
      simp [Ne.symm same]
  records target := by
    obtain ⟨chunks, records, whole⟩ := contiguous.records target
    refine ⟨chunks, records, ?_⟩
    rw [output, whole, unfinished, unfinished, free, holder]
    simp only [threads, moved_same, after]
  finished := contiguous.finished_kept threads output going

theorem Contiguous.release (had : (state.thread thread).inside = true) (holder : next.holder = none)
    (output : next.output = state.output) (outside : point.inside = false)
    (before : ∀ target, (state.thread thread).unfinished target = []) : Contiguous next where
  held other := by
    by_cases same : other = thread
    · simp [same, threads, outside, holder]
    · have owner := (contiguous.held thread).mp had
      rw [threads, moved_other _ _ same, holder, contiguous.held, owner]
      simp [Ne.symm same]
  records target := by
    have owner := (contiguous.held thread).mp had
    obtain ⟨chunks, records, whole⟩ := contiguous.records target
    refine ⟨chunks, records, ?_⟩
    rw [output, whole, unfinished, unfinished, owner, holder]
    exact congrArg (chunks ++ ·) (before target)
  finished := contiguous.finished_kept threads output fun record f ends => by
    rw [ends] at outside
    cases outside

theorem Contiguous.writes (had : (state.thread thread).inside = true)
    (holder : next.holder = state.holder) (inside : point.inside = true)
    (records : ∀ target chunks, Records chunks →
      state.output target = chunks ++ (state.thread thread).unfinished target →
      ∃ more, Records more ∧ next.output target = more ++ point.unfinished target)
    (finished : ∀ record f, point = .leave record f → ∃ chunks,
      next.output f = chunks ++ [(record, record.logPrefix), (record, record.text)]) :
    Contiguous next where
  held other := by
    by_cases same : other = thread
    · rw [same, threads, moved_same, inside, holder, ← contiguous.held thread, had]
    · rw [threads, moved_other _ _ same, holder, contiguous.held]
  records target := by
    have owner := (contiguous.held thread).mp had
    obtain ⟨chunks, earlier, whole⟩ := contiguous.records target
    rw [unfinished, owner] at whole
    rw [unfinished, holder, owner]
    simp only [threads, moved_same]
    exact records target chunks earlier whole
  finished other record f stands := by
    by_cases same : other = thread
    · rw [same, threads, moved_same] at stands
      exact finished record f stands
    · rw [threads, moved_other _ _ same] at stands
      -- Nobody else is in a section.
      have alone := (contiguous.held other).mp (by rw [stands]; rfl)
      have owner := (contiguous.held thread).mp had
      exact absurd (Option.some.inj (alone.symm.trans owner)) same

end Steps

theorem fwrite_output (state : Logger) (thread : Nat) (record : Record) (f : Option Nat) (bytes : Bytes)
    (count : Nat) (written : Logging) (target : Option Nat) :
    (state.fwrite thread record f bytes count written).output target =
      if target = f then state.output f ++ [(record, bytes.take count)] else state.output target := rfl

section Commit
variable {state : Logger} {thread : Nat} (contiguous : Contiguous state) {record : Record}
  {f : Option Nat} (count : Nat)
include contiguous

/-- The prefix begins a record that is unfinished from then on, or stays short. -/
theorem Contiguous.writesPrefix (stands : state.thread thread = .writePrefix record f) :
    Contiguous (state.fwrite thread record f record.logPrefix count (.writeText record f)) := by
  refine contiguous.writes rfl (by rw [stands]; rfl) rfl ?_ ?_ ?_
  · split <;> rfl
  · intro target chunks earlier whole
    rw [stands] at whole
    replace whole : state.output target = chunks := whole.trans (List.append_nil chunks)
    rw [fwrite_output]
    by_cases here : target = f
    · subst here
      rw [if_pos rfl, whole]
      by_cases full : record.logPrefix.length ≤ count
      · rw [if_pos full, List.take_of_length_le full]
        exact ⟨chunks, earlier, by rw [Logging.unfinished, if_pos rfl]⟩
      · rw [if_neg full]
        exact ⟨_, Records.shortPrefix record count earlier, (List.append_nil _).symm⟩
    · rw [if_neg here, whole]
      refine ⟨chunks, earlier, ?_⟩
      split
      · rw [Logging.unfinished, if_neg here, List.append_nil]
      · exact (List.append_nil chunks).symm
  · intro other target ends
    split at ends <;> cases ends

/-- The text ends the record that the prefix began. -/
theorem Contiguous.writesText (stands : state.thread thread = .writeText record f) :
    Contiguous (state.fwrite thread record f record.text count (.leave record f)) := by
  have before : ∀ target chunks,
      state.output target = chunks ++ (state.thread thread).unfinished target →
      state.output target = chunks ++ if target = f then [(record, record.logPrefix)] else [] := by
    intro target chunks whole
    rwa [stands, Logging.unfinished] at whole
  refine contiguous.writes rfl (by rw [stands]; rfl) rfl ?_ ?_ ?_
  · split <;> rfl
  · intro target chunks earlier whole
    have unfinished : ∀ other, Logging.unfinished
        (if record.text.length ≤ count then .leave record f else .unlock) other = [] := by
      intro other
      split <;> rfl
    simp only [fwrite_output, unfinished, List.append_nil]
    by_cases here : target = f
    · subst here
      rw [if_pos rfl, before target chunks whole, if_pos rfl, List.append_assoc]
      by_cases full : record.text.length ≤ count
      · rw [List.take_of_length_le full]
        exact ⟨_, Records.whole record earlier, rfl⟩
      · exact ⟨_, Records.shortText record count earlier, rfl⟩
    · rw [if_neg here, before target chunks whole, if_neg here, List.append_nil]
      exact ⟨chunks, earlier, rfl⟩
  · intro other target ends
    split at ends
    · rename_i full
      cases ends
      obtain ⟨chunks, _, whole⟩ := contiguous.records f
      have owner := (contiguous.held thread).mp (by rw [stands]; rfl)
      rw [Logger.unfinished, owner] at whole
      rw [fwrite_output, if_pos rfl, before f chunks whole, if_pos rfl, List.append_assoc,
        List.take_of_length_le full]
      exact ⟨chunks, rfl⟩
    · cases ends

end Commit

theorem step_contiguous {state next : Logger} {event : Event} (contiguous : Contiguous state)
    (taken : step state event = some next) : Contiguous next := by
  obtain ⟨thread, action⟩ := event
  cases step_taken taken with
  | commit record stands =>
      exact contiguous.quiet rfl rfl rfl (by rw [stands]; rfl) (fun _ => by rw [stands]; rfl)
        (fun _ => rfl) (by simp)
  | choose record stands =>
      refine contiguous.quiet rfl rfl rfl ?_ (fun _ => by rw [stands]; rfl) ?_ ?_
      · rw [stands]
        split <;> rfl
      · intro target
        split <;> rfl
      · intro other f
        split <;> simp
  | reread record stands =>
      exact contiguous.quiet rfl rfl rfl (by rw [stands]; rfl) (fun _ => by rw [stands]; rfl)
        (fun _ => rfl) (by simp)
  | lock record f stands free =>
      exact contiguous.acquire rfl free rfl rfl rfl (fun _ => rfl) (by simp)
  | writePrefix record f count stands => exact contiguous.writesPrefix count stands
  | writeText record f count stands => exact contiguous.writesText count stands
  | setTarget stands =>
      exact contiguous.quiet rfl rfl rfl (by rw [stands]; rfl) (fun _ => by rw [stands]; rfl)
        (fun _ => rfl) (by simp)
  | enter f stands free =>
      exact contiguous.acquire rfl free rfl rfl rfl (fun _ => rfl) (by simp)
  | test f stands =>
      refine contiguous.quiet rfl rfl rfl ?_ (fun _ => by rw [stands]; rfl) ?_ ?_
      · rw [stands]
        split <;> rfl
      · intro target
        split <;> rfl
      · intro other target
        split <;> simp
  | close f old done stands current =>
      refine contiguous.quiet rfl rfl rfl ?_ (fun _ => by rw [stands]; rfl) ?_ ?_
      · rw [stands]
        cases done <;> rfl
      · intro target
        cases done <;> rfl
      · intro other target
        cases done <;> simp
  | assign f stands =>
      exact contiguous.quiet rfl rfl rfl (by rw [stands]; rfl) (fun _ => by rw [stands]; rfl)
        (fun _ => rfl) (by simp)
  | leave record f stands =>
      exact contiguous.release rfl (by rw [stands]; rfl) rfl rfl rfl (fun _ => by rw [stands]; rfl)
  | unlock stands =>
      exact contiguous.release rfl (by rw [stands]; rfl) rfl rfl rfl (fun _ => by rw [stands]; rfl)

/-- Records are never interleaved. -/
theorem reachable_contiguous {state : Logger} (reached : Runs.Reachable step start state) :
    Contiguous state :=
  Runs.reachable_induct Contiguous reached start_contiguous
    fun _ _ _ _ before taken => step_contiguous before taken

end Logger

end Muddymask
