import Muddymask.Exclusion
import Muddymask.Locking

/-!
What a section of a `shared_mutex` does, by the operation that its thread has come to:
none, one or two operations of the lock, and as many points further for the thread.
-/

namespace Muddymask

open Words TunnelServer ReaderWriter Threads

namespace SharedMutex

/-- Where a thread waits, asleep or not. -/
def Point.wait : Point → Option Wait
  | .running => none
  | .waiting wait _ => some wait

@[simp] theorem Thread.notify_wait (thread : Thread) (gate : Gate) :
    (thread.notify gate).point.wait = thread.point.wait := by
  rcases thread.notify_cases gate with same | ⟨wait, here, _, woken⟩
  · rw [same]
  · rw [woken, here]
    rfl

theorem Point.wait_none {point : Point} (none : point.wait = none) : point = .running := by
  cases point with
  | running => rfl
  | waiting => cases none

theorem Point.wait_some {point : Point} {wait : Wait} (there : point.wait = some wait) :
    ∃ asleep, point = .waiting wait asleep := by
  cases point with
  | running => cases there
  | waiting other asleep =>
      cases there
      exact ⟨asleep, rfl⟩

section Steps
variable {n : Nat} {machine after : Machine n} {event : Event n}

/-- Nothing happens to a thread in the section of another one but that it is notified. -/
theorem step_other (taken : step machine event = some after) {other : Fin n}
    (different : other ≠ event.me) : after.thread other = machine.thread other ∨
      ∃ gate, after.thread other = (machine.thread other).notify gate := by
  cases event with
  | call me call =>
      simp only [step] at taken
      split at taken <;> cases taken
      exact Or.inl (Machine.put_other different)
  | unlock me =>
      simp only [step] at taken
      split at taken <;> cases taken
      exact Or.inr ⟨.gate1, congrArg (Thread.notify · .gate1) (Machine.put_other different)⟩
  | unlockShared me woken =>
      obtain ⟨_, _, released, rfl, notified, _⟩ := unlockShared_cases taken
      have apart : other ≠ me := different
      have kept := notified.thread other
      rwa [Machine.put_other apart] at kept
  | wake me =>
      simp only [step] at taken
      split at taken <;> cases taken
      exact Or.inl (Machine.put_other different)
  | resume me =>
      simp only [step] at taken
      split at taken <;> cases taken
      exact Or.inl (Machine.put_other different)

theorem step_other_wait (taken : step machine event = some after) {other : Fin n}
    (different : other ≠ event.me) :
    (after.thread other).point.wait = (machine.thread other).point.wait := by
  rcases step_other taken different with same | ⟨gate, same⟩
  · rw [same]
  · rw [same, Thread.notify_wait]

end Steps

section Sections
variable {n : Nat} {machine after : Machine n} {me : Fin n}

@[simp] theorem Machine.finish_me (mode : Mode) (result : UInt32 × Ending) :
    (machine.finish me mode result).thread me = (machine.thread me).leave mode result.2 := put_me

theorem call_cases {call : Call} (taken : step machine (.call me call) = some after) :
    (machine.thread me).point = .running ∧ (machine.thread me).holds call.mode = false ∧
      after = machine.finish me call.mode (call.run machine.state) := by
  simp only [step] at taken
  split at taken <;> cases taken
  rename_i free
  exact ⟨free.1, free.2, rfl⟩

theorem resume_cases (taken : step machine (.resume me) = some after) :
    ∃ wait, (machine.thread me).point = .waiting wait false ∧
      after = machine.finish me wait.mode (wait.run machine.state) := by
  simp only [step] at taken
  split at taken <;> cases taken
  rename_i wait here
  exact ⟨wait, here, rfl⟩

theorem wake_cases (taken : step machine (.wake me) = some after) :
    ∃ wait, (machine.thread me).point = .waiting wait true ∧
      after = machine.put me machine.state
        { machine.thread me with point := .waiting wait false } := by
  simp only [step] at taken
  split at taken <;> cases taken
  rename_i wait here
  exact ⟨wait, here, rfl⟩

theorem Related.awoken {locks : Unit → RwLock (Fin n)} (related : Related machine locks)
    {wait : Wait} (here : (machine.thread me).point = .waiting wait true) :
    Related (machine.put me machine.state
      { machine.thread me with point := .waiting wait false }) locks := by
  refine related.stand rfl ?_ ?_ ?_
  · exact Machine.put_keeps Thread.held
      (Thread.held_congr (Thread.claims_waiting here false) rfl)
  · exact Machine.put_keeps Thread.exclusive rfl
  · exact Machine.put_all (fun _ => Thread.Fresh)
      (Thread.fresh_waiting here false (related.fresh me)) fun other _ => related.fresh other

theorem unlock_cases (taken : step machine (.unlock me) = some after) :
    (machine.thread me).point = .running ∧ (machine.thread me).exclusive = true ∧
      after = (machine.put me 0 ((machine.thread me).drop .exclusive)).notifyAll .gate1 := by
  simp only [step] at taken
  split at taken <;> cases taken
  rename_i owner
  exact ⟨owner.1, owner.2, rfl⟩

end Sections

theorem drain_ending (state : UInt32) :
    (drain state).2 = .waits .lockGate2 ∨ (drain state).2 = .returns true := by
  rw [drain]
  split
  · exact Or.inl rfl
  · exact Or.inr rfl

theorem lock_ending (state : UInt32) : (lock state).2 = .waits .lockGate1 ∨
    (lock state).2 = .waits .lockGate2 ∨ (lock state).2 = .returns true := by
  rw [lock]
  split
  · exact Or.inl rfl
  · exact Or.inr (drain_ending _)

theorem lockShared_ending (state : UInt32) :
    (lockShared state).2 = .waits .lockSharedGate1 ∨ (lockShared state).2 = .returns true := by
  rw [lockShared]
  split
  · exact Or.inl rfl
  · exact Or.inr rfl

end SharedMutex

namespace Locking

open SharedMutex (Wait Point)

/-- Where a thread may wait in a lock, by the operation that it has come to. -/
def Placed (op : Option (Op Lock)) (guard : Guard) : Option Wait → Prop
  | none => op ≠ some (.enter guard.lock)
  | some .lockGate1 => op = some (.acquire guard.lock .exclusive)
  | some .lockGate2 => op = some (.enter guard.lock)
  | some .lockSharedGate1 => op = some (.acquire guard.lock .shared)

theorem placed_elsewhere {op : Op Lock} {guard : Guard} {wait : Option Wait}
    (different : op.lock ≠ guard.lock) (placed : Placed (some op) guard wait) : wait = none := by
  cases wait with
  | none => rfl
  | some wait =>
      exfalso
      apply different
      cases wait <;> cases placed <;> rfl

/-- What a section can do, by the operation that its thread has come to: the operations of
the lock, and where the thread waits then. -/
inductive Outcome (lock : Lock) : Op Lock → List (Op Unit) → Option Wait → Prop where
  | refused : Outcome lock (.acquire lock .exclusive) [] (some .lockGate1)
  | claimed : Outcome lock (.acquire lock .exclusive) [.acquire () .exclusive] (some .lockGate2)
  | locked : Outcome lock (.acquire lock .exclusive) [.acquire () .exclusive, .enter ()] none
  | barred : Outcome lock (.acquire lock .shared) [] (some .lockSharedGate1)
  | shared : Outcome lock (.acquire lock .shared) [.acquire () .shared] none
  | draining : Outcome lock (.enter lock) [] (some .lockGate2)
  | entered : Outcome lock (.enter lock) [.enter ()] none
  | released (mode : Mode) : Outcome lock (.release lock mode) [.release () mode] none

theorem Outcome.passed {lock : Lock} {op : Op Lock} {ops : List (Op Unit)} {point : Point}
    (outcome : Outcome lock op ops point.wait) : passed op point = ops.length := by
  cases point with
  | running => cases outcome <;> rfl
  | waiting wait asleep => cases wait <;> cases outcome <;> rfl

section Outcomes
variable {thread : SharedMutex.Thread} (lock : Lock)

theorem outcome_lock (state : UInt32) (plain : thread.claims = thread.exclusive)
    (outside : thread.exclusive = false) :
    let after := thread.leave .exclusive (SharedMutex.lock state).2
    Outcome lock (.acquire lock .exclusive) (thread.moves after) after.point.wait := by
  obtain ⟨shared, exclusive, point⟩ := thread
  cases outside
  rcases SharedMutex.lock_ending state with ending | ending | ending
  all_goals
    simp only [ending, SharedMutex.Thread.leave, SharedMutex.Thread.moves, plain]
    cases shared
  · exact .refused
  · exact .refused
  · exact .claimed
  · exact .claimed
  · exact .locked
  · exact .locked

theorem outcome_lockShared (state : UInt32) (plain : thread.claims = thread.exclusive)
    (fresh : thread.shared = false) :
    let after := thread.leave .shared (SharedMutex.lockShared state).2
    Outcome lock (.acquire lock .shared) (thread.moves after) after.point.wait := by
  obtain ⟨shared, exclusive, point⟩ := thread
  cases fresh
  rcases SharedMutex.lockShared_ending state with ending | ending
  all_goals
    simp only [ending, SharedMutex.Thread.leave, SharedMutex.Thread.moves, plain]
    cases exclusive
  · exact .barred
  · exact .barred
  · exact .shared
  · exact .shared

theorem outcome_drain (state : UInt32) (claimed : thread.claims = true)
    (outside : thread.exclusive = false) :
    let after := thread.leave .exclusive (SharedMutex.drain state).2
    Outcome lock (.enter lock) (thread.moves after) after.point.wait := by
  obtain ⟨shared, exclusive, point⟩ := thread
  cases outside
  rcases SharedMutex.drain_ending state with ending | ending
  all_goals
    simp only [ending, SharedMutex.Thread.leave, SharedMutex.Thread.moves, claimed]
    cases shared
  · exact .draining
  · exact .draining
  · exact .entered
  · exact .entered

theorem outcome_release {mode : Mode} (here : thread.point = .running)
    (holds : thread.holds mode = true) :
    Outcome lock (.release lock mode) (thread.moves (thread.drop mode))
      (thread.drop mode).point.wait := by
  have stays : (thread.drop mode).point.wait = none := by
    cases mode <;> exact congrArg Point.wait here
  rw [SharedMutex.Thread.moves_drop here holds, stays]
  exact .released mode

variable {machine after : SharedMutex.Machine 3} {locks : Unit → RwLock (Fin 3)}
  (related : SharedMutex.Related machine locks) {me : Fin 3}
include related

theorem outcome_resume {wait : Wait} {op : Op Lock} {guard : Guard}
    (here : (machine.thread me).point = .waiting wait false)
    (placed : Placed (some op) guard (some wait)) :
    let after := (machine.thread me).leave wait.mode (wait.run machine.state).2
    Outcome guard.lock op ((machine.thread me).moves after) after.point.wait := by
  have fresh := related.fresh me wait false here
  cases wait with
  | lockGate1 =>
      cases placed
      exact outcome_lock _ _ (by rw [SharedMutex.Thread.claims, here]) fresh
  | lockGate2 =>
      cases placed
      exact outcome_drain _ _ (by rw [SharedMutex.Thread.claims, here]) fresh
  | lockSharedGate1 =>
      cases placed
      exact outcome_lockShared _ _ (by rw [SharedMutex.Thread.claims, here]) fresh

/-- A section of the function that a thread has called. -/
theorem outcome_request {op : Op Lock} {guard : Guard} {woken : Option (Fin 3)}
    (lock : op.lock = guard.lock)
    (placed : Placed (some op) guard (machine.thread me).point.wait)
    (taken : SharedMutex.step machine (request machine me woken op) = some after) :
    Outcome guard.lock op ((machine.thread me).moves (after.thread me))
      (after.thread me).point.wait := by
  cases op with
  | acquire target mode =>
      obtain rfl : target = guard.lock := lock
      cases here : (machine.thread me).point with
      | running =>
          have plain := SharedMutex.Thread.claims_running _ here
          cases mode with
          | shared =>
              simp only [request, here] at taken
              obtain ⟨_, fresh, rfl⟩ := SharedMutex.call_cases taken
              rw [SharedMutex.Machine.finish_me]
              exact outcome_lockShared _ _ plain fresh
          | exclusive =>
              simp only [request, here] at taken
              obtain ⟨_, fresh, rfl⟩ := SharedMutex.call_cases taken
              rw [SharedMutex.Machine.finish_me]
              exact outcome_lock _ _ plain fresh
      | waiting wait asleep =>
          rw [here] at placed
          simp only [request, here] at taken
          obtain ⟨other, there, rfl⟩ := SharedMutex.resume_cases taken
          cases here.symm.trans there
          rw [SharedMutex.Machine.finish_me]
          exact outcome_resume related here placed
  | enter target =>
      obtain ⟨wait, here, rfl⟩ := SharedMutex.resume_cases taken
      rw [here] at placed
      rw [SharedMutex.Machine.finish_me]
      exact outcome_resume related here placed
  | release target mode =>
      obtain rfl : target = guard.lock := lock
      cases mode with
      | shared =>
          obtain ⟨here, reader, released, rfl, notified, _⟩ := SharedMutex.unlockShared_cases taken
          have left : Outcome guard.lock (.release guard.lock .shared) _ _ :=
            outcome_release guard.lock here reader
          rcases notified.thread me with same | ⟨gate, same⟩
          · rwa [same, SharedMutex.Machine.put_me]
          · rwa [same, SharedMutex.Machine.put_me, SharedMutex.Thread.moves_notify,
              SharedMutex.Thread.notify_wait]
      | exclusive =>
          obtain ⟨here, owner, rfl⟩ := SharedMutex.unlock_cases taken
          have left : Outcome guard.lock (.release guard.lock .exclusive) _ _ :=
            outcome_release guard.lock here owner
          change Outcome _ _ ((machine.thread me).moves (SharedMutex.Thread.notify _ .gate1))
            (SharedMutex.Thread.notify _ .gate1).point.wait
          rwa [SharedMutex.Thread.moves_notify, SharedMutex.Thread.notify_wait,
            SharedMutex.Machine.put_me]

end Outcomes

end Locking

end Muddymask
