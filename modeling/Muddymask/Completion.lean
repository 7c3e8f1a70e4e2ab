import Mathlib.Data.Prod.Lex
import Muddymask.DataRaces

/-!
The server can always finish what it has begun: whatever has happened, the turns of
the threads that are at work lead to a state in which all of them are back at the heads
of their loops and every word is zero, without any wake-up for nothing.
-/

namespace Muddymask

open Words TunnelServer ReaderWriter Threads

namespace Threads

/-! How many points a thread has left until the head of its loop. -/

def Net.left : Net → Nat
  | recv => 0
  | relayUnlock | registerUnlock | heartbeatUnlock => 1
  | relayFind _ | register _ | clientUnlock _ => 2
  | relayLock _ | registerEnter _ | clientWrite _ _ => 3
  | registerClaim _ | clientEnter _ _ => 4
  | create _ _ | clientClaim _ _ => 5
  | allocateUnlock _ _ | heartbeatFind _ _ => 6
  | allocate _ _ | heartbeatLock _ _ => 7
  | allocateLock _ _ => 8

/-- A frame goes to no more than `clients` clients. -/
def VethPoint.left (clients : Nat) : VethPoint → Nat
  | read => 0
  | unlock _ => 1
  | clientUnlock _ _ rest => 3 * rest.length + 2
  | send _ _ rest => 3 * rest.length + 3
  | clientLock _ _ rest => 3 * rest.length + 4
  | find _ => 3 * clients + 5
  | lock _ => 3 * clients + 6

/-- A sweep visits `sessions` entries. -/
def PollPoint.left (sessions : Nat) : PollPoint → Nat
  | sleep => 0
  | unlock _ => 1
  | visit _ entries => 5 * entries.length + 2
  | delete _ _ entries => 5 * entries.length + 3
  | releaseUnlock _ _ entries => 5 * entries.length + 4
  | release _ _ entries => 5 * entries.length + 5
  | releaseLock _ _ entries => 5 * entries.length + 6
  | begin => 5 * sessions + 3
  | enter => 5 * sessions + 4
  | claim => 5 * sessions + 5

theorem VethPoint.left_loop (clients : Nat) (frame : Bytes) (targets : List Ptr) :
    (VethPoint.loop frame targets).left clients = 3 * targets.length + 1 := by
  cases targets with
  | nil => rfl
  | cons info rest =>
      simp only [loop, left, List.length_cons]
      omega

theorem Net.left_after {net : Net} {op : Op Lock} (next : net.op = some op) :
    net.after.left < net.left := by
  cases net <;> cases next
  case allocateUnlock record arrival => cases record <;> simp [after, left]
  all_goals simp [after, left]

theorem VethPoint.left_after {veth : VethPoint} {op : Op Lock} (clients : Nat)
    (next : veth.op = some op) : veth.after.left clients < veth.left clients := by
  cases veth <;> cases next
  case clientUnlock frame info rest =>
    rw [after, left_loop]
    simp [left]
  all_goals simp [after, left]

theorem PollPoint.left_after {poll : PollPoint} {op : Op Lock} (sessions : Nat)
    (next : poll.op = some op) : poll.after.left sessions < poll.left sessions := by
  cases poll <;> cases next <;> simp [after, left]

/-- What is left of everything that has begun. Who comes later in the order may have more to do
after what the others did. -/
def left (state : Threads) : ℕ ×ₗ ℕ ×ₗ ℕ :=
  toLex (state.net.left, toLex (state.poll.left state.server.dict.id.entries.length,
    state.veth.left state.server.dict.mac.entries.length))

def Busy (state : Threads) : Thread → Prop
  | .net => state.net ≠ .recv
  | .veth => state.veth ≠ .read
  | .poll => state.poll ≠ .sleep

theorem busy_of_holds {state : Threads} {thread : Thread} (holds : state.holds thread ≠ []) :
    state.Busy thread := by
  obtain ⟨server, locks, net, veth, poll⟩ := state
  cases thread with
  | net =>
      rintro rfl
      exact holds rfl
  | veth =>
      rintro rfl
      exact holds rfl
  | poll =>
      rintro rfl
      exact holds rfl

theorem release_held {state : Threads} {thread : Thread} {lock : Lock} {mode : Mode}
    (next : state.op thread = some (.release lock mode)) : (lock, mode) ∈ state.holds thread := by
  obtain ⟨server, locks, net, veth, poll⟩ := state
  cases thread with
  | net => cases net <;> cases next <;> simp [holds, Net.holds]
  | veth => cases veth <;> cases next <;> simp [holds, VethPoint.holds]
  | poll => cases poll <;> cases next <;> simp [holds, PollPoint.holds]

theorem left_advance {state : Threads} {thread : Thread} {op : Op Lock}
    (next : state.op thread = some op) (locks : Lock → RwLock Thread) :
    (state.advance thread locks).left < state.left := by
  simp only [left, Prod.Lex.toLex_lt_toLex]
  cases thread with
  | net => exact Or.inl (Net.left_after next)
  | veth => exact Or.inr ⟨rfl, Or.inr ⟨rfl, VethPoint.left_after _ next⟩⟩
  | poll => exact Or.inr ⟨rfl, Or.inl (PollPoint.left_after _ next)⟩

/-- An answer of the environment that a busy thread does not look at. -/
def unheard : Arrival := { peer := default, datagram := [], random := 0, time := 0 }

theorem frameTargets_length (order : ByteOrder) (server : TunnelServer) (frame : Bytes)
    (clients : List Ptr) :
    (server.frameTargets order frame clients).length ≤ clients.length + 1 := by
  simp only [frameTargets]
  split
  · exact Nat.zero_le _
  split
  · exact Nat.zero_le _
  split
  · exact Nat.le_succ _
  · cases server.dict.mac.find _ <;> simp

/-- Between lock operations a busy thread gets further. -/
theorem left_access (order : ByteOrder) {state : Threads} {thread : Thread}
    (busy : state.Busy thread) (next : state.op thread = none) :
    ∃ event after, event.thread = thread ∧ state.access order event = some after ∧
      after.left < state.left := by
  obtain ⟨server, locks, net, veth, poll⟩ := state
  cases thread with
  | net =>
      refine ⟨.net unheard, _, rfl, rfl, ?_⟩
      rw [left, left, Prod.Lex.toLex_lt_toLex]
      apply Or.inl
      cases net <;> cases next
      case net.recv.refl => exact absurd rfl busy
      case net.heartbeatFind.refl arrival id =>
        simp only [netAccess]
        split <;> simp [Net.left]
      all_goals simp [netAccess, Net.left]
  | veth =>
      have further : ∀ veth', veth'.left server.dict.mac.entries.length <
          veth.left server.dict.mac.entries.length →
          left ⟨server, locks, net, veth', poll⟩ < left ⟨server, locks, net, veth, poll⟩ := by
        intro veth' less
        rw [left, left, Prod.Lex.toLex_lt_toLex]
        exact Or.inr ⟨rfl, Prod.Lex.toLex_lt_toLex.mpr (Or.inr ⟨rfl, less⟩)⟩
      cases veth with
      | read => exact absurd rfl busy
      | find frame =>
          refine ⟨.veth [] (server.dict.mac.entries.map Prod.snd), _, rfl,
            if_pos (List.Perm.refl _), further _ ?_⟩
          have few := frameTargets_length order server frame
            (server.dict.mac.entries.map Prod.snd)
          rw [List.length_map] at few
          rw [VethPoint.left_loop, VethPoint.left]
          change 3 * (server.frameTargets order frame _).length + 1 < _
          omega
      | send frame info rest =>
          refine ⟨.veth [] [], _, rfl, rfl, further _ ?_⟩
          simp [VethPoint.left]
      | _ => cases next
  | poll =>
      have further : ∀ server' poll', poll'.left server'.dict.id.entries.length <
          poll.left server.dict.id.entries.length →
          left ⟨server', locks, net, veth, poll'⟩ < left ⟨server, locks, net, veth, poll⟩ := by
        intro server' poll' less
        rw [left, left, Prod.Lex.toLex_lt_toLex]
        exact Or.inr ⟨rfl, Prod.Lex.toLex_lt_toLex.mpr (Or.inl less)⟩
      cases poll with
      | sleep => exact absurd rfl busy
      | begin =>
          refine ⟨.poll 0 server.dict.id.entries, _, rfl, if_pos (List.Perm.refl _), further _ _ ?_⟩
          simp [PollPoint.left]
      | visit now entries =>
          cases entries with
          | nil =>
              refine ⟨.poll 0 [], _, rfl, rfl, further _ _ ?_⟩
              simp [PollPoint.left]
          | cons entry entries =>
              by_cases expired : server.Expired now entry.2
              · refine ⟨.poll 0 [], _, rfl, if_pos expired, further _ _ ?_⟩
                simp only [PollPoint.left, List.length_cons]
                omega
              · refine ⟨.poll 0 [], _, rfl, if_neg expired, further _ _ ?_⟩
                simp only [PollPoint.left, List.length_cons]
                omega
      | release now info entries =>
          refine ⟨.poll 0 [], _, rfl, rfl, further _ _ ?_⟩
          simp [PollPoint.left]
      | delete now info entries =>
          refine ⟨.poll 0 [], _, rfl, rfl, further _ _ ?_⟩
          simp [PollPoint.left]
      | _ => cases next

end Threads

namespace SharedMutex

theorem lock_open {state : UInt32} (clear : state &&& writeEntered = 0) :
    (lock state).2 = .waits .lockGate2 ∨ (lock state).2 = .returns true := by
  rw [lock, if_neg (not_not.mpr clear)]
  exact drain_ending _

theorem lockShared_open {state : UInt32} (clear : state &&& writeEntered = 0)
    (low : (state &&& nReaders).toNat + 1 < 2 ^ 31) : (lockShared state).2 = .returns true := by
  rw [lockShared, if_neg (not_or.mpr ⟨not_not.mpr clear, Guarded.full low⟩)]

theorem drain_open {state : UInt32} (empty : state &&& nReaders = 0) :
    (drain state).2 = .returns true := by
  rw [drain, if_neg (not_not.mpr empty)]

section Machines
variable {n : Nat} {machine : Machine n} {me : Fin n}

theorem step_call {call : Call} (here : (machine.thread me).point = .running)
    (fresh : (machine.thread me).holds call.mode = false) :
    step machine (.call me call) = some (machine.finish me call.mode (call.run machine.state)) :=
  if_pos ⟨here, fresh⟩

theorem step_resume {wait : Wait} (here : (machine.thread me).point = .waiting wait false) :
    step machine (.resume me) = some (machine.finish me wait.mode (wait.run machine.state)) := by
  simp only [step, here]

theorem Attended.awake (attended : Attended machine) {wait : Wait} {asleep : Bool}
    (here : (machine.thread me).point = .waiting wait asleep)
    (clear : machine.state &&& wait.gate.mask = 0) :
    (machine.thread me).point = .waiting wait false := by
  cases asleep with
  | false => exact here
  | true =>
      have sleeps : (machine.thread me).asleep wait.gate = true := by
        simp [Thread.asleep, here]
      exact absurd clear (attended me wait.gate sleeps)

/-- There is always somebody or nobody to notify. -/
theorem notifyOne_some (machine : Machine n) (gate : Gate) :
    ∃ woken after, machine.notifyOne gate woken = some after := by
  by_cases nobody : ∀ other, (machine.thread other).asleep gate = false
  · exact ⟨none, machine, if_pos nobody⟩
  · push Not at nobody
    obtain ⟨other, sleeper⟩ := nobody
    exact ⟨some other, _, if_pos (by simpa using sleeper)⟩

theorem step_unlockShared (here : (machine.thread me).point = .running)
    (reader : (machine.thread me).shared = true) :
    ∃ woken after, step machine (.unlockShared me woken) = some after := by
  simp only [step, here, reader, and_self, ↓reduceIte]
  cases (unlockShared machine.state).2 with
  | none => exact ⟨none, _, rfl⟩
  | some gate => exact notifyOne_some _ gate

theorem step_unlock (here : (machine.thread me).point = .running)
    (owner : (machine.thread me).exclusive = true) :
    ∃ after, step machine (.unlock me) = some after :=
  ⟨_, if_pos ⟨here, owner⟩⟩

end Machines

end SharedMutex

namespace Locking

section Sections
variable {machine : SharedMutex.Machine 3} {own : Unit → RwLock (Fin 3)}
  (related : SharedMutex.Related machine own) (attended : SharedMutex.Attended machine)
  {me : Fin 3} {guard : Guard}
include related attended

theorem acquire_taken {mode : Mode} (unclaimed : (own ()).writer = none)
    (placed : Placed (some (.acquire guard.lock mode)) guard (machine.thread me).point.wait)
    (fresh : (machine.thread me).holds mode = false) (woken : Option (Fin 3)) :
    ∃ after, SharedMutex.step machine (request machine me woken (.acquire guard.lock mode)) =
        some after ∧ passed (.acquire guard.lock mode) (after.thread me).point ≠ 0 := by
  have clear := related.flag.mpr unclaimed
  have few := related.length_le
  have low : (machine.state &&& SharedMutex.nReaders).toNat + 1 < 2 ^ 31 := by
    rw [related.readers]
    omega
  have locked : ∀ ending, ending = SharedMutex.Ending.waits .lockGate2 ∨ ending = .returns true →
      passed (.acquire guard.lock .exclusive) ((machine.thread me).leave .exclusive ending).point ≠
        0 := by
    rintro _ (rfl | rfl) <;> simp [SharedMutex.Thread.leave, SharedMutex.Thread.take, passed]
  have shared : ∀ ending, ending = SharedMutex.Ending.returns true →
      passed (.acquire guard.lock .shared) ((machine.thread me).leave .shared ending).point ≠ 0 := by
    rintro _ rfl
    simp [SharedMutex.Thread.leave, SharedMutex.Thread.take, passed]
  cases here : (machine.thread me).point with
  | running =>
      cases mode with
      | shared =>
          simp only [request, here]
          refine ⟨_, SharedMutex.step_call here fresh, ?_⟩
          rw [SharedMutex.Machine.finish_me]
          exact shared _ (SharedMutex.lockShared_open clear low)
      | exclusive =>
          simp only [request, here]
          refine ⟨_, SharedMutex.step_call here fresh, ?_⟩
          rw [SharedMutex.Machine.finish_me]
          exact locked _ (SharedMutex.lock_open clear)
  | waiting wait asleep =>
      rw [here] at placed
      simp only [request, here]
      cases wait with
      | lockGate1 =>
          cases placed
          refine ⟨_, SharedMutex.step_resume (attended.awake here clear), ?_⟩
          rw [SharedMutex.Machine.finish_me]
          exact locked _ (SharedMutex.lock_open clear)
      | lockGate2 => cases placed
      | lockSharedGate1 =>
          cases placed
          refine ⟨_, SharedMutex.step_resume (attended.awake here clear), ?_⟩
          rw [SharedMutex.Machine.finish_me]
          exact shared _ (SharedMutex.lockShared_open clear low)

omit related attended in
theorem release_taken {mode : Mode}
    (placed : Placed (some (.release guard.lock mode)) guard (machine.thread me).point.wait)
    (held : ((), mode) ∈ (machine.thread me).held) :
    ∃ woken after, SharedMutex.step machine (request machine me woken (.release guard.lock mode)) =
        some after ∧ passed (.release guard.lock mode) (after.thread me).point ≠ 0 := by
  have here : (machine.thread me).point = .running := by
    refine SharedMutex.Point.wait_none ?_
    cases waits : (machine.thread me).point.wait with
    | none => rfl
    | some wait =>
        rw [waits] at placed
        cases wait <;> cases placed
  cases mode with
  | shared =>
      obtain ⟨woken, after, taken⟩ :=
        SharedMutex.step_unlockShared here ((SharedMutex.Thread.shared_mem _).mp held)
      exact ⟨woken, after, taken, by simp [passed]⟩
  | exclusive =>
      have claims := (SharedMutex.Thread.exclusive_mem _).mp held
      rw [SharedMutex.Thread.claims_running _ here] at claims
      obtain ⟨after, taken⟩ := SharedMutex.step_unlock here claims
      exact ⟨none, after, taken, by simp [passed]⟩

theorem enter_taken (empty : (own ()).readers = [])
    (placed : Placed (some (.enter guard.lock)) guard (machine.thread me).point.wait)
    (woken : Option (Fin 3)) :
    ∃ after, SharedMutex.step machine (request machine me woken (.enter guard.lock)) =
        some after ∧ passed (.enter guard.lock) (after.thread me).point ≠ 0 := by
  have clear : machine.state &&& SharedMutex.nReaders = 0 := by
    rw [← UInt32.toNat_inj, related.readers, empty]
    rfl
  have there : (machine.thread me).point.wait = some .lockGate2 := by
    cases waits : (machine.thread me).point.wait with
    | none =>
        rw [waits] at placed
        exact absurd rfl placed
    | some wait =>
        rw [waits] at placed
        cases wait <;> first | rfl | cases placed
  obtain ⟨asleep, here⟩ := SharedMutex.Point.wait_some there
  refine ⟨_, SharedMutex.step_resume (attended.awake here clear), ?_⟩
  rw [SharedMutex.Machine.finish_me]
  change passed _ ((machine.thread me).leave .exclusive (SharedMutex.drain machine.state).2).point ≠
    0
  rw [SharedMutex.drain_open clear]
  simp [SharedMutex.Thread.leave, SharedMutex.Thread.take, passed]

end Sections

section Turns
variable {order : ByteOrder} {state : Locking} {locks : Lock → RwLock Thread} {thread : Thread}

theorem left_advance (locks : Lock → RwLock Thread) {op : Op Lock}
    (next : state.op thread = some op) :
    ((state.advance thread).threads locks).left < (state.threads locks).left := by
  have opened : (state.threads locks).op thread = some op := by
    rw [← next]
    cases thread <;> rfl
  have further := Threads.left_advance opened locks
  cases thread <;> exact further

theorem left_coming (locks : Lock → RwLock Thread) {guard : Guard} {ops : List (Op Unit)}
    (coming : Coming state thread guard ops) (some : ops ≠ []) :
    (((advance thread)^[ops.length] state).threads locks).left < (state.threads locks).left := by
  induction ops generalizing state with
  | nil => exact absurd rfl some
  | cons op rest ih =>
      have first := left_advance locks coming.1
      cases rest with
      | nil => exact first
      | cons later rest => exact (ih coming.2 (by simp)).trans first

theorem pool_ops {op : Op Lock} (next : state.op thread = some op) (target : op.lock = .pool) :
    op = .acquire .pool .exclusive ∨ op = .release .pool .exclusive := by
  obtain ⟨server, mutexes, owner, net, veth, poll⟩ := state
  cases thread with
  | net => cases net <;> cases next <;> 
      first | exact Or.inl rfl | exact Or.inr rfl | cases target
  | veth => cases veth <;> cases next <;> cases target
  | poll => cases poll <;> cases next <;> 
      first | exact Or.inl rfl | exact Or.inr rfl | cases target

variable (linked : Linked state locks) (disciplined : Disciplined order (state.threads locks))
include linked disciplined

/-- What the word of a lock knows of a thread. -/
theorem held_iff {guard : Guard} {mode : Mode} :
    ((), mode) ∈ ((state.mutexes guard).thread thread.number).held ↔
      (guard.lock, mode) ∈ (state.threads locks).holds thread := by
  obtain ⟨own, related, renamed⟩ := linked.guards guard
  have counted := disciplined.agrees guard.lock thread mode
  change (locks guard.lock).count thread mode = _ at counted
  rw [renamed, ← named_number thread, RwLock.rename_count named_injective,
    related.agrees () thread.number mode, named_number] at counted
  rw [← List.count_pos_iff, ← List.count_pos_iff, counted]

theorem holds_mode (thread : Thread) {guard : Guard} {mode : Mode}
    (apart : (guard.lock, mode) ∉ (state.threads locks).holds thread) :
    ((state.mutexes guard).thread thread.number).holds mode = false := by
  rw [← held_iff linked disciplined] at apart
  cases mode with
  | shared => exact Bool.eq_false_iff.mpr fun reads => apart ((SharedMutex.Thread.shared_mem _).mpr reads)
  | exclusive =>
      refine Bool.eq_false_iff.mpr fun inside => apart ((SharedMutex.Thread.exclusive_mem _).mpr ?_)
      exact SharedMutex.Thread.claims_of_exclusive _ inside

/-- A lock that is free for the operation lets the thread further. -/
theorem section_taken {op : Op Lock} {guard : Guard} {after : Lock → RwLock Thread}
    (next : state.op thread = some op) (target : op.lock = guard.lock)
    (done : perform thread locks op = some after) :
    ∃ (woken : Option Thread) (machine : SharedMutex.Machine 3), SharedMutex.step (state.mutexes guard)
        (request (state.mutexes guard) thread.number (woken.map Thread.number) op) =
          some machine ∧ passed op (machine.thread thread.number).point ≠ 0 := by
  obtain ⟨own, related, renamed⟩ := linked.guards guard
  have attended := linked.attended guard
  have placed := linked.placed thread guard
  rw [next] at placed
  have ordered := Threads.ordered (state.threads locks) thread
  have opened : (state.threads locks).op thread = some op := by
    rw [← next]
    cases thread <;> rfl
  rw [opened] at ordered
  cases op with
  | acquire lock mode =>
      obtain rfl : lock = guard.lock := target
      simp only [perform] at done
      split at done <;> cases done
      rename_i unclaimed
      have clear : (own ()).writer = none := by
        rw [renamed] at unclaimed
        exact Option.map_eq_none_iff.mp unclaimed
      have apart : (guard.lock, mode) ∉ (state.threads locks).holds thread :=
        fun held => absurd (ordered _ held) (Nat.lt_irrefl _)
      have fresh := holds_mode linked disciplined thread apart
      obtain ⟨machine, taken, moved⟩ := acquire_taken related attended clear placed fresh none
      exact ⟨none, machine, taken, moved⟩
  | enter lock =>
      obtain rfl : lock = guard.lock := target
      simp only [perform] at done
      split at done <;> cases done
      rename_i entered
      have empty : (own ()).readers = [] := by
        have nobody := entered.2
        rw [renamed] at nobody
        exact List.map_eq_nil_iff.mp nobody
      obtain ⟨machine, taken, moved⟩ := enter_taken related attended empty placed none
      exact ⟨none, machine, taken, moved⟩
  | release lock mode =>
      obtain rfl : lock = guard.lock := target
      have held := (held_iff linked disciplined).mpr (release_held opened)
      obtain ⟨woken, machine, taken, moved⟩ := release_taken placed held
      refine ⟨woken.map Thread.named, machine, ?_, moved⟩
      have back : (woken.map Thread.named).map Thread.number = woken := by
        cases woken with
        | none => rfl
        | some woken => exact congrArg some (number_named woken)
      rwa [back]

omit disciplined in
theorem pool_taken {op : Op Lock} {after : Lock → RwLock Thread}
    (next : state.op thread = some op) (target : op.lock = .pool)
    (done : perform thread locks op = some after) :
    ∃ later, state.poolStep thread op = some later ∧
      (later.threads free).left < (state.threads free).left := by
  have further := left_advance free next
  rcases pool_ops next target with rfl | rfl
  · simp only [perform] at done
    split at done <;> cases done
    rename_i unclaimed
    refine ⟨_, if_pos (linked.pool.symm.trans unclaimed), ?_⟩
    cases thread <;> exact further
  · simp only [perform] at done
    split at done <;> cases done
    rename_i registered
    have owner : state.pool = some thread := by
      rw [← linked.pool]
      by_contra other
      simp [RwLock.count, other] at registered
    refine ⟨_, if_pos owner, ?_⟩
    cases thread <;> exact further

theorem turn_taken (busy : (state.threads free).Busy thread)
    (moves : ∀ op, state.op thread = some op → ∃ after, perform thread locks op = some after) :
    ∃ (event : Threads.Event) (woken : Option Thread) (later : Locking), event.thread = thread ∧
      step order state (.turn event woken) = some later ∧
      (later.threads free).left < (state.threads free).left := by
  cases next : state.op thread with
  | none =>
      have opened : (state.threads free).op thread = none := by
        rw [← next]
        cases thread <;> rfl
      obtain ⟨event, after, rfl, taken, further⟩ := left_access order busy opened
      refine ⟨event, none, state.accessed after, rfl, ?_, ?_⟩
      · rw [step_access none next, taken]
        rfl
      · rwa [threads_accessed taken]
  | some op =>
      obtain ⟨after, done⟩ := moves op next
      obtain ⟨event, rfl⟩ : ∃ event : Threads.Event, event.thread = thread := by
        cases thread with
        | net => exact ⟨.net unheard, rfl⟩
        | veth => exact ⟨.veth [] [], rfl⟩
        | poll => exact ⟨.poll 0 [], rfl⟩
      cases lock : op.lock.guard with
      | none =>
          obtain ⟨later, taken, further⟩ :=
            pool_taken linked next (lock_of_pool lock) done
          refine ⟨event, none, later, rfl, ?_, further⟩
          simp only [step, next, lockStep, lock]
          exact taken
      | some guard =>
          have target := guard_of_lock lock
          obtain ⟨woken, machine, taken, moved⟩ :=
            section_taken linked disciplined next target done
          obtain ⟨own, related, _⟩ := linked.guards guard
          have placed := linked.placed event.thread guard
          rw [next] at placed
          have outcome := outcome_request related target placed taken
          have passes := outcome.passed
          have stepped : step order state (.turn event woken) = some (((advance event.thread)^[
              passed op (machine.thread event.thread.number).point] state).setMutex guard machine) := by
            simp only [step, next, lockStep, lock, guardStep, taken]
            rfl
          refine ⟨event, woken, _, rfl, stepped, ?_⟩
          rw [passes] at moved ⊢
          exact left_coming free (outcome_coming next outcome) fun none => moved (by rw [none]; rfl)

end Turns

/-- Who is not at the head of its loop. -/
def Busy (state : Locking) (thread : Thread) : Prop := (state.threads free).Busy thread

/-- All threads are at the heads of their loops, and nobody has a lock. -/
structure Idle (state : Locking) : Prop where
  net : state.net = .recv
  veth : state.veth = .read
  poll : state.poll = .sleep
  addresses : state.pool = none
  words : ∀ guard, (state.mutexes guard).state = 0

theorem idle_of_rest {order : ByteOrder} {state : Locking} {locks : Lock → RwLock Thread}
    (linked : Linked state locks) (disciplined : Disciplined order (state.threads locks))
    (rest : ∀ thread, ¬ state.Busy thread) : Idle state := by
  have net : state.net = .recv := not_not.mp (rest .net)
  have veth : state.veth = .read := not_not.mp (rest .veth)
  have poll : state.poll = .sleep := not_not.mp (rest .poll)
  have holds : ∀ thread, (state.threads locks).holds thread = [] := by
    intro thread
    cases thread with
    | net => exact congrArg Net.holds net
    | veth => exact congrArg VethPoint.holds veth
    | poll => exact congrArg PollPoint.holds poll
  have nobody : ∀ lock, (locks lock).writer = none ∧ (locks lock).readers = [] := by
    intro lock
    constructor
    · refine Option.eq_none_iff_forall_ne_some.mpr fun thread claimed => ?_
      have claims := (claimed_iff disciplined.agrees lock thread).mp claimed
      rw [holds thread] at claims
      cases claims
    · refine List.eq_nil_iff_forall_not_mem.mpr fun thread reading => ?_
      have shares := (reading_iff disciplined.agrees lock thread).mp reading
      rw [holds thread] at shares
      cases shares
  refine ⟨net, veth, poll, linked.pool.symm.trans (nobody .pool).1, fun guard => ?_⟩
  obtain ⟨own, related, renamed⟩ := linked.guards guard
  have free := nobody guard.lock
  rw [renamed] at free
  refine (SharedMutex.state_eq_zero_iff _).mpr ⟨related.flag.mpr (Option.map_eq_none_iff.mp free.1), ?_⟩
  rw [← UInt32.toNat_inj, related.readers, List.map_eq_nil_iff.mp free.2]
  rfl

/-- Turns of busy threads, none of them a wake-up for nothing, bring the server to rest. -/
theorem comes_to_rest {order : ByteOrder} {mac : { mac : Bytes // mac.length = 6 }}
    {secret : Bytes} {random : UInt32} {state : Locking}
    (reached : Runs.Reachable (step order) (init order mac secret random) state) :
    ∃ events final, Runs.run (step order) state events = some final ∧ Idle final ∧
      Runs.Along (step order)
        (fun before event => ∃ turn woken, event = .turn turn woken ∧ before.Busy turn.thread)
        state events := by
  induction measured : (state.threads free).left using WellFoundedLT.induction generalizing state with
  | ind left ih =>
  obtain ⟨locks, linked, same⟩ := reached_threads reached
  have disciplined := disciplined_reached same
  by_cases rest : ∀ thread, ¬ state.Busy thread
  · exact ⟨[], state, rfl, idle_of_rest linked disciplined rest, trivial⟩
  · push Not at rest
    obtain ⟨mover, busy, moves⟩ := someone_moves disciplined.agrees level_le
      (ordered (state.threads locks)) (fun _ _ _ => release_held) rest
      (fun thread holds => busy_of_holds holds)
    have possible : ∀ op, state.op mover = some op →
        ∃ after, perform mover locks op = some after := by
      intro op next
      refine moves op ?_
      rw [← next]
      cases mover <;> rfl
    obtain ⟨event, woken, later, rfl, taken, further⟩ :=
      turn_taken linked disciplined busy possible
    obtain ⟨events, final, past, idle, along⟩ :=
      ih _ (measured ▸ further) (Runs.reachable_next reached taken) rfl
    refine ⟨.turn event woken :: events, final, (Runs.run_cons ..).mpr ⟨later, taken, past⟩, idle,
      ⟨event, woken, rfl, busy⟩, fun next same => ?_⟩
    cases Option.some.inj (taken.symm.trans same)
    exact along

/-- A sweep sleeps at its gate for two readers, one of which sleeps at its own for the other. -/
theorem comes_to_rest_waiting : ∃ state,
    Runs.run (step .little) (init .little ⟨[2, 0, 0, 0, 0, 1], rfl⟩ [] 5)
      (turns [(8, opening), (4, broadcast), (4, heartbeat), (2, .poll 0 [])]) = some state ∧
    ((state.mutexes .dict).thread 2).asleep .gate2 = true ∧
    ((state.mutexes (.client 0)).thread 0).asleep .gate2 = true ∧
    ∃ events final, Runs.run (step .little) state events = some final ∧ Idle final ∧
      Runs.Along (step .little)
        (fun before event => ∃ turn woken, event = .turn turn woken ∧ before.Busy turn.thread)
        state events := by
  have computed : (Runs.run (step .little) (init .little ⟨[2, 0, 0, 0, 0, 1], rfl⟩ [] 5)
      (turns [(8, opening), (4, broadcast), (4, heartbeat), (2, .poll 0 [])])).map (fun state =>
        (((state.mutexes .dict).thread 2).asleep .gate2,
          ((state.mutexes (.client 0)).thread 0).asleep .gate2)) = some (true, true) := by
    decide +kernel
  obtain ⟨state, past, sleep⟩ := Option.map_eq_some_iff.mp computed
  simp only [Prod.mk.injEq] at sleep
  exact ⟨state, past, sleep.1, sleep.2, comes_to_rest ⟨_, past⟩⟩

end Locking

end Muddymask
