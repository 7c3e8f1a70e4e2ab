import Muddymask.Exclusion

/-!
No wake-up is lost: whoever sleeps at a gate of `shared_mutex` without having been
notified still has to wait. The word shows it, for each gate in other bits.
-/

namespace Muddymask.SharedMutex

open ReaderWriter Runs Simulation

/-- The bits that a waiter at the gate waits for to be clear. -/
def Gate.mask : Gate → UInt32
  | .gate1 => writeEntered
  | .gate2 => nReaders

/-- A section that lets nobody pass and waits only where it cannot. -/
structure Guarded (state : UInt32) (result : UInt32 × Ending) : Prop where
  shut : ∀ gate : Gate, state &&& gate.mask ≠ 0 → result.1 &&& gate.mask ≠ 0
  waits : ∀ wait, result.2 = .waits wait → result.1 &&& wait.gate.mask ≠ 0

namespace Guarded

variable {state : UInt32}

theorem returns (result : Bool) : Guarded state (state, .returns result) where
  shut _ := id
  waits _ same := by cases same

theorem blocked {wait : Wait} (shut : state &&& wait.gate.mask ≠ 0) :
    Guarded state (state, .waits wait) where
  shut _ := id
  waits other same := by
    cases same
    exact shut

theorem drain : Guarded state (drain state) := by
  rw [SharedMutex.drain]
  split
  · rename_i reading
    exact blocked reading
  · exact returns true

theorem lock : Guarded state (lock state) := by
  rw [SharedMutex.lock]
  split
  · rename_i entered
    exact blocked entered
  · have claimed : Guarded (state ||| writeEntered) (SharedMutex.drain (state ||| writeEntered)) :=
      drain
    refine ⟨fun gate shut => claimed.shut gate ?_, claimed.waits⟩
    cases gate with
    | gate1 => exact or_flag state
    | gate2 =>
        rw [Gate.mask, or_readers]
        exact shut

theorem tryLock : Guarded state (tryLock state) := by
  rw [SharedMutex.tryLock]
  split
  · rename_i zero
    refine ⟨fun gate shut => absurd ?_ shut, fun wait same => by cases same⟩
    rw [zero, UInt32.zero_and]
  · exact returns false

theorem share (low : (state &&& nReaders).toNat + 1 < 2 ^ 31) :
    Guarded state (setReaders state ((state &&& nReaders) + 1), .returns true) where
  shut gate shut := by
    have fits : ((state &&& nReaders) + 1).toNat < 2 ^ 31 := by rwa [readers_succ]
    cases gate with
    | gate1 => rwa [Gate.mask, setReaders_flag fits]
    | gate2 =>
        rw [Gate.mask, setReaders_readers fits, Ne, ← UInt32.toNat_inj, readers_succ]
        exact Nat.succ_ne_zero _
  waits _ same := by cases same

theorem full (low : (state &&& nReaders).toNat + 1 < 2 ^ 31) : state &&& nReaders ≠ nReaders := by
  intro full
  rw [full] at low
  exact absurd low (by decide)

theorem lockShared (low : (state &&& nReaders).toNat + 1 < 2 ^ 31) :
    Guarded state (lockShared state) := by
  rw [SharedMutex.lockShared]
  split
  · rename_i entered
    exact blocked (entered.resolve_right (full low))
  · exact share low

theorem tryLockShared (low : (state &&& nReaders).toNat + 1 < 2 ^ 31) :
    Guarded state (tryLockShared state) := by
  rw [SharedMutex.tryLockShared]
  split
  · exact share low
  · exact returns false

theorem call (low : (state &&& nReaders).toNat + 1 < 2 ^ 31) (call : Call) :
    Guarded state (call.run state) := by
  cases call with
  | lock => exact lock
  | tryLock => exact tryLock
  | lockShared => exact lockShared low
  | tryLockShared => exact tryLockShared low

theorem wait (low : (state &&& nReaders).toNat + 1 < 2 ^ 31) (wait : Wait) :
    Guarded state (wait.run state) := by
  cases wait with
  | lockGate1 => exact lock
  | lockGate2 => exact drain
  | lockSharedGate1 => exact lockShared low

end Guarded

namespace Thread

variable {thread : Thread} {gate : Gate}

theorem asleep_iff : thread.asleep gate = true ↔
    ∃ wait, thread.point = .waiting wait true ∧ wait.gate = gate := by
  rw [asleep]
  split
  · rename_i wait here
    simp [here]
  · rename_i other
    constructor
    · intro never
      cases never
    · rintro ⟨wait, here, _⟩
      exact absurd here (other wait)

theorem asleep_gate2 (asleep : thread.asleep .gate2 = true) : thread.claims = true := by
  obtain ⟨wait, here, there⟩ := asleep_iff.mp asleep
  rw [claims, here]
  cases wait <;> cases there
  rfl

theorem awake_running (here : thread.point = .running) : thread.asleep gate = false := by
  rw [asleep, here]

theorem drop_awake {mode : Mode} (here : thread.point = .running) :
    (thread.drop mode).asleep gate = false := by
  cases mode with
  | shared => exact awake_running here
  | exclusive => exact awake_running here

theorem notify_awake : (thread.notify gate).asleep gate = false := by
  rcases thread.notify_cases gate with same | ⟨wait, here, there, woken⟩
  · rw [same]
    by_contra asleep
    obtain ⟨wait, here, there⟩ := asleep_iff.mp (Bool.not_eq_false _ ▸ asleep)
    rw [notify, here] at same
    simp only [if_pos there] at same
    rw [← same] at here
    cases here
  · rw [woken, asleep]

theorem asleep_of_notify {other : Gate} (asleep : (thread.notify gate).asleep other = true) :
    thread.asleep other = true := by
  rcases thread.notify_cases gate with same | ⟨wait, here, there, woken⟩
  · rwa [same] at asleep
  · rw [woken] at asleep
    cases asleep

theorem leave_asleep {mode : Mode} {ending : Ending}
    (asleep : (thread.leave mode ending).asleep gate = true) :
    ∃ wait, ending = .waits wait ∧ wait.gate = gate := by
  obtain ⟨wait, here, there⟩ := asleep_iff.mp asleep
  cases ending with
  | waits other =>
      cases here
      exact ⟨wait, rfl, there⟩
  | returns result => cases result <;> cases mode <;> cases here

end Thread

/-- Who sleeps at a gate has to. -/
def Attended {n : Nat} (machine : Machine n) : Prop :=
  ∀ me gate, (machine.thread me).asleep gate = true → machine.state &&& gate.mask ≠ 0

variable {n : Nat} {machine : Machine n}

theorem attended_start : Attended (Machine.start : Machine n) := by
  intro me gate asleep
  cases asleep

theorem attended_put (attended : Attended machine) {me : Fin n} {state : UInt32} {thread : Thread}
    (shut : ∀ gate : Gate, machine.state &&& gate.mask ≠ 0 → state &&& gate.mask ≠ 0)
    (mine : ∀ gate : Gate, thread.asleep gate = true → state &&& gate.mask ≠ 0) :
    Attended (machine.put me state thread) :=
  Machine.put_all (fun _ thread => ∀ gate : Gate, thread.asleep gate = true →
    state &&& gate.mask ≠ 0) mine fun other _ gate asleep => shut gate (attended other gate asleep)

theorem attended_finish (attended : Attended machine) (me : Fin n) (mode : Mode)
    {result : UInt32 × Ending} (guarded : Guarded machine.state result) :
    Attended (machine.finish me mode result) := by
  refine attended_put attended guarded.shut fun gate asleep => ?_
  obtain ⟨wait, ending, rfl⟩ := Thread.leave_asleep asleep
  exact guarded.waits wait ending

theorem asleep_of_drop {me other : Fin n} {mode : Mode} {state : UInt32} {gate : Gate}
    (here : (machine.thread me).point = .running)
    (asleep : ((machine.put me state ((machine.thread me).drop mode)).thread other).asleep gate =
      true) : other ≠ me ∧ (machine.thread other).asleep gate = true := by
  by_cases same : other = me
  · rw [same, Machine.put_me, Thread.drop_awake here] at asleep
    cases asleep
  · rw [Machine.put_other same] at asleep
    exact ⟨same, asleep⟩

theorem notifyOne_awake {after : Machine n} {gate : Gate} {woken : Option (Fin n)}
    (only : ∀ left right, (machine.thread left).asleep gate = true →
      (machine.thread right).asleep gate = true → left = right)
    (notified : machine.notifyOne gate woken = some after) (other : Fin n) :
    (after.thread other).asleep gate = false := by
  cases woken with
  | none =>
      rw [Machine.notifyOne] at notified
      split at notified <;> cases notified
      rename_i nobody
      exact nobody other
  | some woken =>
      rw [Machine.notifyOne] at notified
      split at notified <;> cases notified
      rename_i sleeper
      by_cases same : other = woken
      · rw [same, Machine.put_me]
        exact Thread.notify_awake
      · rw [Machine.put_other same]
        by_contra asleep
        exact same (only other woken (Bool.not_eq_false _ ▸ asleep) sleeper)

section Steps
variable {locks : Unit → RwLock (Fin n)} (related : Related machine locks)
  (attended : Attended machine) {me : Fin n}
include related attended

omit attended in
theorem gate2_unique {left right : Fin n} (first : (machine.thread left).asleep .gate2 = true)
    (second : (machine.thread right).asleep .gate2 = true) : left = right :=
  related.claims_unique (Thread.asleep_gate2 first) (Thread.asleep_gate2 second)

omit attended in
/-- A writer that leaves has no other one waiting for its readers. -/
theorem attended_unlock (here : (machine.thread me).point = .running)
    (owner : (machine.thread me).exclusive = true) :
    Attended ((machine.put me 0 ((machine.thread me).drop .exclusive)).notifyAll .gate1) := by
  intro other gate asleep
  cases gate with
  | gate1 => exact absurd (Thread.notify_awake.symm.trans asleep) Bool.false_ne_true
  | gate2 =>
      obtain ⟨different, before⟩ := asleep_of_drop here (Thread.asleep_of_notify asleep)
      exact absurd (related.claims_unique (Thread.asleep_gate2 before)
        (Thread.claims_of_exclusive _ owner)) different

/-- The last reader that leaves notifies the writer, if there is one. -/
theorem attended_unlockShared {woken : Option (Fin n)} {after : Machine n}
    (taken : step machine (.unlockShared me woken) = some after) : Attended after := by
  obtain ⟨here, reader, released, rfl, notified, one⟩ := unlockShared_cases taken
  have low := left_lt related reader
  intro other gate asleep
  rw [notified.state]
  have sleeping : (machine.thread other).asleep gate = true := by
    rcases notified.thread other with same | ⟨chosen, same⟩
    · exact (asleep_of_drop here (same ▸ asleep)).2
    · rw [same] at asleep
      exact (asleep_of_drop here (Thread.asleep_of_notify asleep)).2
  have before := attended other gate sleeping
  cases gate with
  | gate1 =>
      change setReaders _ _ &&& writeEntered ≠ 0
      rwa [setReaders_flag low]
  | gate2 =>
      change setReaders _ _ &&& nReaders ≠ 0
      rw [setReaders_readers low]
      intro last
      -- the sleeper's claim is in the word, so the last reader has notified it
      have entered : machine.state &&& writeEntered ≠ 0 := by
        rw [Ne, related.flag, (related.claims_iff other).mpr (Thread.asleep_gate2 sleeping)]
        exact Option.some_ne_none other
      have chosen : (unlockShared machine.state).2 = some .gate2 := by
        rw [unlockShared, setReaders_flag low, if_pos entered, if_pos last]
      have awake := notifyOne_awake (fun left right first second =>
        gate2_unique related (asleep_of_drop here first).2 (asleep_of_drop here second).2)
        (one .gate2 chosen) other
      rw [asleep] at awake
      cases awake

theorem step_attended (small : n < 2 ^ 31 - 1) {event : Event n} {after : Machine n}
    (taken : step machine event = some after) : Attended after := by
  have many := related.length_le
  have low : (machine.state &&& nReaders).toNat + 1 < 2 ^ 31 := by
    rw [related.readers]
    omega
  cases event with
  | call me call =>
      simp only [step] at taken
      split at taken <;> cases taken
      exact attended_finish attended me call.mode (.call low call)
  | unlock me =>
      simp only [step] at taken
      split at taken <;> cases taken
      rename_i owner
      exact attended_unlock related owner.1 owner.2
  | unlockShared me woken => exact attended_unlockShared related attended taken
  | wake me =>
      simp only [step] at taken
      split at taken <;> cases taken
      refine attended_put attended (fun _ => id) fun gate asleep => ?_
      cases asleep
  | resume me =>
      simp only [step] at taken
      split at taken <;> cases taken
      rename_i wait here
      exact attended_finish attended me wait.mode (.wait low wait)

end Steps

theorem simulates (small : n < 2 ^ 31 - 1) :
    Simulates (step : Machine n → Event n → Option (Machine n)) emit move
      fun machine locks => Related machine locks ∧ Attended machine := by
  rintro machine event after locks ⟨related, attended⟩ taken
  obtain ⟨next, trace, ends⟩ := step_done related small taken
  refine ⟨next, ?_, ends, step_attended related attended small taken⟩
  simp only [emit, taken]
  exact trace

/-- What a state of the lock promises to its threads. -/
structure ExcludesAndWakes (machine : Machine n) : Prop where
  one : ∀ left right, (machine.thread left).exclusive = true →
    (machine.thread right).exclusive = true → left = right
  alone : ∀ owner other, (machine.thread owner).exclusive = true →
    (machine.thread other).shared = false
  counted : machine.state.toNat % 2 ^ 31 =
    (Finset.univ.filter fun me => (machine.thread me).shared = true).card
  gate1 : ∀ me, (machine.thread me).asleep .gate1 = true → machine.state &&& writeEntered ≠ 0
  gate2 : ∀ me, (machine.thread me).asleep .gate2 = true → machine.state &&& nReaders ≠ 0

theorem excludes_and_wakes (small : n < 2 ^ 31 - 1) {machine : Machine n}
    (reached : Reachable step Machine.start machine) : ExcludesAndWakes machine := by
  obtain ⟨locks, related, attended⟩ :=
    (simulates small).reachable ⟨Related.start, attended_start⟩ reached
  refine ⟨?_, ?_, ?_, fun me => attended me .gate1, fun me => attended me .gate2⟩
  · intro left right first second
    exact related.claims_unique (Thread.claims_of_exclusive _ first)
      (Thread.claims_of_exclusive _ second)
  · intro owner other inside
    by_contra reading
    have member := (related.shares_iff other).mpr (Bool.not_eq_false _ ▸ reading)
    rw [related.alone owner inside] at member
    cases member
  · rw [← readers_toNat, related.readers, related.card_shared]

/-- The second thread waits for the first one to leave, and is notified then; the third
one waits for the second. -/
theorem excludes_and_wakes_handover : ∃ machine : Machine 3,
    run step Machine.start [.call 0 .lockShared, .call 1 .lock, .call 2 .lockShared,
      .unlockShared 0 (some 1), .resume 1] = some machine ∧
    (machine.thread 1).exclusive = true ∧ (machine.thread 2).asleep .gate1 = true ∧
    ExcludesAndWakes machine := by
  have past : ∃ machine : Machine 3,
      run step Machine.start [.call 0 .lockShared, .call 1 .lock, .call 2 .lockShared,
        .unlockShared 0 (some 1), .resume 1] = some machine ∧
      (machine.thread 1).exclusive = true ∧ (machine.thread 2).asleep .gate1 = true :=
    ⟨_, rfl, rfl, rfl⟩
  obtain ⟨machine, reached, inside, waiting⟩ := past
  exact ⟨machine, reached, inside, waiting, excludes_and_wakes (by decide) ⟨_, reached⟩⟩

end Muddymask.SharedMutex
