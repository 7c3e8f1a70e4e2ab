import Mathlib.Algebra.GroupWithZero.Nat
import Muddymask.Wakeups

/-!
`shared_mutex` prefers writers: from the moment a thread has set the bit until it
unlocks, nobody else gets in, whatever is called meanwhile and however often
threads wake up for nothing. The readers that were inside leave one by one, and
after the last one the writer only has to go on.
-/

namespace Muddymask.SharedMutex

open ReaderWriter Simulation Runs

section Word
variable {state : UInt32} (claimed : state &&& writeEntered ≠ 0)
include claimed

theorem call_barred (call : Call) :
    (call.run state).1 = state ∧ (call.run state).2 ≠ .returns true := by
  have busy : state ≠ 0 := by
    rintro rfl
    exact claimed UInt32.zero_and
  cases call with
  | lock => simp [Call.run, SharedMutex.lock, claimed]
  | tryLock => simp [Call.run, SharedMutex.tryLock, busy]
  | lockShared => simp [Call.run, SharedMutex.lockShared, claimed]
  | tryLockShared => simp [Call.run, SharedMutex.tryLockShared, claimed]

/-- Of the waiters only the one at the second gate gets past it. -/
theorem wait_barred {wait : Wait} (first : wait.gate = .gate1) :
    (wait.run state).1 = state ∧ (wait.run state).2 ≠ .returns true := by
  cases wait with
  | lockGate1 => exact call_barred claimed .lock
  | lockSharedGate1 => exact call_barred claimed .lockShared
  | lockGate2 => cases first

end Word

variable {n : Nat}

def sharers (machine : Machine n) : Nat :=
  (Finset.univ.filter fun me => (machine.thread me).shared = true).card

/-- A reader leaves. -/
def leaves : Event n → Nat
  | .unlockShared .. => 1
  | _ => 0

/-- What a step does to a lock that `owner` has claimed. -/
structure Barred (owner : Fin n) (before after : Machine n) (left : Nat) : Prop where
  claims : (after.thread owner).claims = true
  shared : ∀ other, (after.thread other).shared = true → (before.thread other).shared = true
  count : left + sharers after = sharers before

namespace Thread

variable {thread : Thread} {mode : Mode} {ending : Ending}

theorem leave_shared (out : ending ≠ .returns true) :
    (thread.leave mode ending).shared = thread.shared := by
  cases ending with
  | waits wait => rfl
  | returns result =>
      cases result with
      | false => rfl
      | true => exact absurd rfl out

theorem leave_claims (inside : thread.exclusive = true) :
    (thread.leave mode ending).claims = true := by
  refine claims_of_exclusive _ ?_
  cases ending with
  | waits wait => exact inside
  | returns result => cases result <;> cases mode <;> first | exact inside | rfl

end Thread

section Step
variable {machine after : Machine n} {owner me : Fin n}

theorem barred_same {left : Nat} (zero : left = 0) (claims : (after.thread owner).claims = true)
    (shared : ∀ other, (after.thread other).shared = (machine.thread other).shared) :
    Barred owner machine after left where
  claims := claims
  shared := fun other reads => (shared other).symm.trans reads
  count := by simp [zero, sharers, shared]

/-- A section of another thread, or of the owner inside, that ends without the lock. -/
theorem barred_finish {left : Nat} (zero : left = 0) {mode : Mode} {result : UInt32 × Ending}
    (claims : (machine.thread owner).claims = true)
    (inside : me = owner → (machine.thread me).exclusive = true)
    (out : result.2 ≠ .returns true) :
    Barred owner machine (machine.finish me mode result) left := by
  refine barred_same zero ?_ (Machine.put_keeps Thread.shared (Thread.leave_shared out))
  by_cases same : owner = me
  · subst same
    rw [Machine.finish, Machine.put_me]
    exact Thread.leave_claims (inside rfl)
  · rw [Machine.finish, Machine.put_other same]
    exact claims

/-- The rest of `lock`, after the wait at the second gate. -/
theorem barred_drain {left : Nat} (zero : left = 0) :
    Barred owner machine (machine.finish owner .exclusive (drain machine.state)) left := by
  refine barred_same zero ?_ (Machine.put_keeps Thread.shared ?_)
  · rw [Machine.finish, Machine.put_me, drain]
    split <;> rfl
  · rw [drain]
    split <;> rfl

theorem barred_leaves (reader : (machine.thread me).shared = true) (state : UInt32)
    (claims : (machine.thread owner).claims = true) :
    Barred owner machine (machine.put me state ((machine.thread me).drop .shared)) 1 where
  claims := by
    have same : ((machine.thread me).drop .shared).claims = (machine.thread me).claims := rfl
    rw [Machine.put_keeps Thread.claims same owner]
    exact claims
  shared := Machine.put_all (fun other thread => thread.shared = true →
    (machine.thread other).shared = true) (fun none => absurd none Bool.false_ne_true) fun _ _ => id
  count := by
    have without : (Finset.univ.filter fun other =>
        ((machine.put me state ((machine.thread me).drop .shared)).thread other).shared = true) =
          (Finset.univ.filter fun other => (machine.thread other).shared = true).erase me := by
      ext other
      rw [Finset.mem_filter, Finset.mem_erase, Finset.mem_filter]
      by_cases same : other = me
      · simp [same, Thread.drop]
      · simp [same, Machine.put_other same]
    rw [sharers, without, Nat.add_comm]
    exact Finset.card_erase_add_one (by simpa using reader)

theorem barred_notified {left : Nat} {released : Machine n}
    (barred : Barred owner machine released left) (notified : Notified released after) :
    Barred owner machine after left := by
  have shared : ∀ other, (after.thread other).shared = (released.thread other).shared :=
    fun other => notified.keeps other Thread.shared fun thread gate => thread.notify_shared gate
  refine ⟨?_, fun other reads => barred.shared other ((shared other).symm.trans reads), ?_⟩
  · rw [notified.keeps owner Thread.claims fun thread gate => thread.notify_claims gate]
    exact barred.claims
  · rw [← barred.count]
    simp [sharers, shared]

/-- Until the owner unlocks, a step lets nobody in. -/
theorem step_barred {locks : Unit → RwLock (Fin n)} (related : Related machine locks)
    (claims : (machine.thread owner).claims = true) {event : Event n}
    (keeps : event ≠ .unlock owner) (taken : step machine event = some after) :
    Barred owner machine after (leaves event) := by
  have claimed : machine.state &&& writeEntered ≠ 0 := by
    intro clear
    have unclaimed := related.unclaimed (related.flag.mp clear) owner
    exact Bool.false_ne_true (unclaimed.symm.trans claims)
  cases event with
  | call me call =>
      simp only [step] at taken
      split at taken <;> cases taken
      rename_i here
      refine barred_finish rfl claims (fun same => ?_) (call_barred claimed call).2
      rw [← Thread.claims_running _ here.1, same]
      exact claims
  | unlock me =>
      -- whoever is inside alone has claimed the lock
      simp only [step] at taken
      split at taken <;> cases taken
      rename_i inside
      have same := related.claims_unique (Thread.claims_of_exclusive _ inside.2) claims
      exact absurd (congrArg Event.unlock same) keeps
  | unlockShared me woken =>
      obtain ⟨_, reader, released, rfl, notified, _⟩ := unlockShared_cases taken
      exact barred_notified (barred_leaves reader _ claims) notified
  | wake me =>
      simp only [step] at taken
      split at taken <;> cases taken
      rename_i wait here
      refine barred_same rfl ?_ (Machine.put_keeps Thread.shared rfl)
      exact (Machine.put_keeps Thread.claims (Thread.claims_waiting here false) owner).trans claims
  | resume me =>
      simp only [step] at taken
      split at taken <;> cases taken
      rename_i wait here
      cases wait with
      | lockGate2 =>
          have mine : (machine.thread me).claims = true := by rw [Thread.claims, here]
          cases related.claims_unique mine claims
          exact barred_drain rfl
      | lockGate1 | lockSharedGate1 =>
          refine barred_finish rfl claims (fun same => ?_) (wait_barred claimed rfl).2
          rw [← same, Thread.claims, here] at claims
          exact claims

theorem run_barred (small : n < 2 ^ 31 - 1) (reached : Reachable step Machine.start machine)
    (claims : (machine.thread owner).claims = true) {events : List (Event n)}
    (keeps : ∀ event ∈ events, event ≠ .unlock owner)
    (past : run step machine events = some after) :
    Barred owner machine after (events.map leaves).sum := by
  induction events generalizing machine with
  | nil =>
      cases (run_nil ..).mp past
      exact barred_same rfl claims fun _ => rfl
  | cons event rest ih =>
      obtain ⟨next, taken, future⟩ := (run_cons ..).mp past
      obtain ⟨locks, related, _⟩ :=
        (simulates small).reachable ⟨Related.start, attended_start⟩ reached
      have now := step_barred related claims (keeps event List.mem_cons_self) taken
      have later := ih (reachable_next reached taken) now.claims
        (fun event member => keeps event (List.mem_cons_of_mem _ member)) future
      refine ⟨later.claims, fun other reads => now.shared other (later.shared other reads), ?_⟩
      rw [List.map_cons, List.sum_cons, Nat.add_assoc, later.count, now.count]

end Step

theorem owner_enters {machine : Machine n} {owner : Fin n} {locks : Unit → RwLock (Fin n)}
    (related : Related machine locks) (attended : Attended machine)
    (claims : (machine.thread owner).claims = true) (empty : sharers machine = 0) :
    (machine.thread owner).exclusive = true ∨ ∃ entered,
      step machine (.resume owner) = some entered ∧ (entered.thread owner).exclusive = true := by
  have readers : machine.state &&& nReaders = 0 := by
    rw [← UInt32.toNat_inj, related.readers, ← related.card_shared]
    exact empty
  rw [Thread.claims] at claims
  split at claims
  · rename_i asleep here
    cases asleep with
    | true =>
        have sleeps : (machine.thread owner).asleep .gate2 = true := by
          rw [Thread.asleep, here]
          rfl
        exact absurd readers (attended owner .gate2 sleeps)
    | false =>
        refine Or.inr ⟨machine.finish owner .exclusive (drain machine.state), ?_, ?_⟩
        · simp only [step, here]
          rfl
        · rw [Machine.finish, Machine.put_me, drain, if_neg (not_not.mpr readers)]
          rfl
  · exact Or.inl claims

/-- From the claim of a writer until its unlock, in every run: nobody else gets in,
the readers leave one by one, and without readers the writer can enter. -/
theorem writer_first (small : n < 2 ^ 31 - 1) (machine after : Machine n)
    (reached : Reachable step Machine.start machine) (owner : Fin n)
    (claims : (machine.thread owner).claims = true) (events : List (Event n))
    (keeps : ∀ event ∈ events, event ≠ .unlock owner)
    (past : run step machine events = some after) :
    (after.thread owner).claims = true ∧
    (∀ other, (after.thread other).shared = true → (machine.thread other).shared = true) ∧
    (∀ other, (after.thread other).exclusive = true → other = owner) ∧
    (events.map leaves).sum + sharers after = sharers machine ∧
    (sharers after = 0 → (after.thread owner).exclusive = true ∨ ∃ entered,
      step after (.resume owner) = some entered ∧ (entered.thread owner).exclusive = true) := by
  have barred := run_barred small reached claims keeps past
  obtain ⟨locks, related, attended⟩ :=
    (simulates small).reachable ⟨Related.start, attended_start⟩ (reachable_run reached past)
  refine ⟨barred.claims, barred.shared, fun other inside => ?_, barred.count,
    owner_enters related attended barred.claims⟩
  exact related.claims_unique (Thread.claims_of_exclusive _ inside) barred.claims

/-- The second thread waits for the first; the third one tries in vain to get in before it. -/
theorem writer_first_waiting : ∃ machine after : Machine 3,
    run step Machine.start [.call 0 .lockShared, .call 1 .lock] = some machine ∧
    run step machine [.call 2 .tryLockShared, .call 2 .lockShared, .wake 2, .resume 2,
      .unlockShared 0 (some 1)] = some after ∧
    sharers machine = 1 ∧ sharers after = 0 ∧ ∃ entered,
      step after (.resume 1) = some entered ∧ (entered.thread 1).exclusive = true := by
  have past : ∃ machine after : Machine 3,
      run step Machine.start [.call 0 .lockShared, .call 1 .lock] = some machine ∧
      run step machine [.call 2 .tryLockShared, .call 2 .lockShared, .wake 2, .resume 2,
        .unlockShared 0 (some 1)] = some after ∧
      (machine.thread 1).claims = true ∧ (after.thread 1).exclusive = false ∧
      sharers machine = 1 := ⟨_, _, rfl, rfl, rfl, rfl, rfl⟩
  obtain ⟨machine, after, before, past, claims, outside, one⟩ := past
  obtain ⟨_, _, _, count, enters⟩ :=
    writer_first (by decide) machine after ⟨_, before⟩ 1 claims _ (by simp) past
  have empty : sharers after = 0 := by
    simp only [one, List.map_cons, List.map_nil, leaves, List.sum_cons, List.sum_nil] at count
    omega
  refine ⟨machine, after, before, past, one, empty, (enters empty).resolve_left ?_⟩
  simp [outside]

end Muddymask.SharedMutex
