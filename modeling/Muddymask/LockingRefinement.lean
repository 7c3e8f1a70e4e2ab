import Muddymask.LockDiscipline
import Muddymask.Sections
import Muddymask.Wakeups

/-!
The threads on the words of their locks refine the threads on reader-writer locks: each
step is the accesses and the lock operations that it consists of. What is known of every
interleaving of the operations is so known of every interleaving of the sections.
-/

namespace Muddymask

open Words TunnelServer ReaderWriter Threads

namespace Locking

open Simulation
open SharedMutex (Wait Point)

/-! A thread is at an entry right after its claim only. -/

variable {state : Locking} {thread : Thread}

@[simp] theorem guard_lock_guard (guard : Guard) : guard.lock.guard = some guard := by
  cases guard <;> rfl

theorem guard_of_lock {lock : Lock} {guard : Guard} (same : lock.guard = some guard) :
    lock = guard.lock := by
  cases lock <;> cases same <;> rfl

theorem lock_of_pool {lock : Lock} (none : lock.guard = none) : lock = .pool := by
  cases lock <;> first | rfl | cases none

theorem lock_injective {left right : Guard} (same : left.lock = right.lock) : left = right := by
  have guards := congrArg Lock.guard same
  simpa using guards

theorem op_other {other : Thread} (different : other ≠ thread) :
    (state.advance thread).op other = state.op other := by
  cases thread <;> cases other <;> first | rfl | exact absurd rfl different

theorem op_claimed {guard : Guard}
    (next : state.op thread = some (.acquire guard.lock .exclusive)) :
    (state.advance thread).op thread = some (.enter guard.lock) := by
  obtain ⟨server, mutexes, pool, net, veth, poll⟩ := state
  cases thread with
  | net => cases net <;> cases guard <;> cases next <;> rfl
  | veth => cases veth <;> cases guard <;> cases next
  | poll =>
      cases poll <;> cases guard <;> cases next
      rfl

theorem VethPoint.loop_op (frame : Bytes) (clients : List Ptr) (lock : Lock) :
    (VethPoint.loop frame clients).op ≠ some (.enter lock) := by
  cases clients <;> simp [VethPoint.loop, VethPoint.op]

theorem op_past {op : Op Lock} (next : state.op thread = some op)
    (past : ∀ guard : Guard, op ≠ .acquire guard.lock .exclusive) (lock : Lock) :
    (state.advance thread).op thread ≠ some (.enter lock) := by
  obtain ⟨server, mutexes, pool, net, veth, poll⟩ := state
  cases thread with
  | net =>
      cases net <;> cases next
      case net.registerClaim.refl => exact absurd rfl (past .dict)
      case net.clientClaim.refl arrival info => exact absurd rfl (past (.client info))
      case net.allocateUnlock.refl record arrival =>
        cases record <;> simp [advance, Locking.op, Net.after, Net.op]
      all_goals simp [advance, Locking.op, Net.after, Net.op]
  | veth =>
      cases veth <;> cases next
      case veth.clientUnlock.refl => exact VethPoint.loop_op _ _ lock
      all_goals simp [advance, Locking.op, VethPoint.after, VethPoint.op]
  | poll =>
      cases poll <;> cases next
      case poll.claim.refl => exact absurd rfl (past .dict)
      all_goals simp [advance, Locking.op, PollPoint.after, PollPoint.op]

theorem advance_placed {op : Op Lock} {ops : List (Op Unit)} {guard : Guard} {wait : Option Wait}
    (next : state.op thread = some op) (outcome : Outcome guard.lock op ops wait) :
    Placed (((advance thread)^[ops.length] state).op thread) guard wait ∧
      ∀ other ≠ guard,
        Placed (((advance thread)^[ops.length] state).op thread) other none := by
  have apart : ∀ other ≠ guard, Op.enter guard.lock ≠ .enter other.lock := by
    intro other different same
    cases lock_injective (Op.enter.inj same)
    exact different rfl
  cases outcome with
  | refused =>
      refine ⟨next, fun other _ => ?_⟩
      simp [Placed, next]
  | claimed =>
      have entering := op_claimed next
      refine ⟨entering, fun other different => ?_⟩
      change (state.advance thread).op thread ≠ _
      rw [entering]
      simpa using apart other different
  | locked =>
      have past := op_past (op_claimed next) (fun _ => nofun)
      exact ⟨past _, fun other _ => past _⟩
  | barred =>
      refine ⟨next, fun other _ => ?_⟩
      simp [Placed, next]
  | shared =>
      have past := op_past next (by simp)
      exact ⟨past _, fun other _ => past _⟩
  | draining =>
      refine ⟨next, fun other different => ?_⟩
      change state.op thread ≠ _
      rw [next]
      simpa using apart other different
  | entered =>
      have past := op_past next (fun _ => nofun)
      exact ⟨past _, fun other _ => past _⟩
  | released mode =>
      have past := op_past next (fun _ => nofun)
      exact ⟨past _, fun other _ => past _⟩

/-! The accesses do not depend on the locks, and do not lead to an entry. -/

theorem access_locks (order : ByteOrder) (state : Threads) (locks : Lock → RwLock Thread)
    (event : Threads.Event) : Threads.access order { state with locks } event =
      (state.access order event).map fun after => { after with locks } := by
  obtain ⟨server, before, net, veth, poll⟩ := state
  cases event with
  | net arrival =>
      cases net with
      | heartbeatFind arrival id =>
          simp only [Threads.access, netAccess, Option.map_some]
          split <;> rfl
      | _ => rfl
  | veth frame clients =>
      cases veth with
      | read =>
          simp only [Threads.access, vethAccess]
          split <;> rfl
      | find wanted =>
          simp only [Threads.access, vethAccess]
          split <;> rfl
      | _ => rfl
  | poll now entries =>
      cases poll with
      | begin =>
          simp only [Threads.access, pollAccess]
          split <;> rfl
      | visit at_clock left =>
          cases left with
          | nil => rfl
          | cons entry left =>
              simp only [Threads.access, pollAccess]
              split <;> rfl
      | _ => rfl

theorem arrive_op (order : ByteOrder) (crypto : DummyCrypto) (arrival : Arrival) (lock : Lock) :
    (arrive order crypto arrival).op ≠ some (.enter lock) := by
  rcases arrive_cases order crypto arrival with
    same | ⟨id, same⟩ | ⟨id, _, same⟩ | ⟨request, _, same⟩ <;> simp [same, Net.op]

theorem access_op {order : ByteOrder} {state after : Threads} {event : Threads.Event}
    (next : state.op event.thread = none) (taken : state.access order event = some after)
    (lock : Lock) : after.op event.thread ≠ some (.enter lock) := by
  obtain ⟨server, before, net, veth, poll⟩ := state
  cases event with
  | net arrival =>
      cases taken
      cases net <;> cases next
      case net.refl.recv.refl => exact arrive_op order server.crypto arrival lock
      case net.refl.heartbeatFind.refl arrival id =>
        simp only [Event.thread, Threads.op, netAccess]
        split <;> simp [Net.op]
      all_goals simp [Event.thread, Threads.op, netAccess, Net.op]
  | veth frame clients =>
      cases veth <;> cases next <;> simp only [Threads.access, vethAccess] at taken
      case veth.read.refl =>
        split at taken <;> cases taken <;> simp [Event.thread, Threads.op, VethPoint.op]
      case veth.find.refl =>
        split at taken <;> cases taken
        exact VethPoint.loop_op _ _ lock
      all_goals
        cases taken
        simp [Event.thread, Threads.op, VethPoint.op]
  | poll now entries =>
      cases poll with
      | visit at_clock left =>
          cases left with
          | nil =>
              cases taken
              simp [Event.thread, Threads.op, PollPoint.op]
          | cons entry left =>
              simp only [Threads.access, pollAccess] at taken
              split at taken <;> cases taken <;> simp [Event.thread, Threads.op, PollPoint.op]
      | begin =>
          simp only [Threads.access, pollAccess] at taken
          split at taken <;> cases taken
          simp [Event.thread, Threads.op, PollPoint.op]
      | sleep | release | delete =>
          cases taken
          simp [Event.thread, Threads.op, PollPoint.op]
      | _ => cases next

theorem netAccess_apart (order : ByteOrder) (state : Threads) (arrival : Arrival) :
    (state.netAccess order arrival).veth = state.veth ∧
      (state.netAccess order arrival).poll = state.poll := by
  obtain ⟨server, before, net, veth, poll⟩ := state
  cases net with
  | heartbeatFind arrival id =>
      simp only [netAccess]
      split <;> exact ⟨rfl, rfl⟩
  | _ => exact ⟨rfl, rfl⟩

theorem vethAccess_apart {order : ByteOrder} {state after : Threads} {frame : Bytes}
    {clients : List Ptr} (taken : state.vethAccess order frame clients = some after) :
    after.net = state.net ∧ after.poll = state.poll := by
  obtain ⟨server, before, net, veth, poll⟩ := state
  cases veth with
  | read | find =>
      simp only [vethAccess] at taken
      split at taken <;> cases taken <;> exact ⟨rfl, rfl⟩
  | _ =>
      cases taken
      exact ⟨rfl, rfl⟩

theorem pollAccess_apart {state after : Threads} {now : Int} {entries : List (UInt32 × Ptr)}
    (taken : state.pollAccess now entries = some after) :
    after.net = state.net ∧ after.veth = state.veth := by
  obtain ⟨server, before, net, veth, poll⟩ := state
  cases poll with
  | begin =>
      simp only [pollAccess] at taken
      split at taken <;> cases taken
      exact ⟨rfl, rfl⟩
  | visit at_clock left =>
      cases left with
      | nil =>
          cases taken
          exact ⟨rfl, rfl⟩
      | cons entry left =>
          simp only [pollAccess] at taken
          split at taken <;> cases taken <;> exact ⟨rfl, rfl⟩
  | _ =>
      cases taken
      exact ⟨rfl, rfl⟩

theorem access_op_other {order : ByteOrder} {state after : Threads} {event : Threads.Event}
    (taken : state.access order event = some after) {other : Thread}
    (different : other ≠ event.thread) : after.op other = state.op other := by
  cases event with
  | net arrival =>
      cases taken
      have apart := netAccess_apart order state arrival
      cases other with
      | net => exact absurd rfl different
      | veth => exact congrArg VethPoint.op apart.1
      | poll => exact congrArg PollPoint.op apart.2
  | veth frame clients =>
      have apart := vethAccess_apart taken
      cases other with
      | net => exact congrArg Net.op apart.1
      | veth => exact absurd rfl different
      | poll => exact congrArg PollPoint.op apart.2
  | poll now entries =>
      have apart := pollAccess_apart taken
      cases other with
      | net => exact congrArg Net.op apart.1
      | veth => exact congrArg VethPoint.op apart.2
      | poll => exact absurd rfl different

/-! The words and the points of the threads, against the locks. -/

structure Linked (state : Locking) (locks : Lock → RwLock Thread) : Prop where
  guards : ∀ guard, ∃ own, SharedMutex.Related (state.mutexes guard) own ∧
    locks guard.lock = (own ()).rename Thread.named
  attended : ∀ guard, SharedMutex.Attended (state.mutexes guard)
  pool : (locks .pool).writer = state.pool
  placed : ∀ thread guard, Placed (state.op thread) guard
    ((state.mutexes guard).thread thread.number).point.wait

theorem linked_init (order : ByteOrder) (mac : { mac : Bytes // mac.length = 6 })
    (secret : Bytes) (random : UInt32) : Linked (init order mac secret random) free where
  guards _ := ⟨free, .start, rfl⟩
  attended _ := SharedMutex.attended_start
  pool := rfl
  placed thread guard := by cases thread <;> exact nofun

@[simp] theorem named_number (thread : Thread) : Thread.named thread.number = thread := by
  cases thread <;> rfl

theorem number_named (me : Fin 3) : (Thread.named me).number = me := by
  match me with
  | 0 | 1 | 2 => rfl

theorem named_injective : Function.Injective Thread.named := by
  intro left right same
  rw [← number_named left, same, number_named]

theorem number_injective : Function.Injective Thread.number := by
  intro left right same
  rw [← named_number left, same, named_number]

/-- The operations are the next ones of the thread. -/
def Coming (state : Locking) (thread : Thread) (guard : Guard) : List (Op Unit) → Prop
  | [] => True
  | op :: rest =>
      state.op thread = some (op.on guard.lock) ∧ Coming (state.advance thread) thread guard rest

theorem outcome_coming {op : Op Lock} {ops : List (Op Unit)} {guard : Guard} {wait : Option Wait}
    (next : state.op thread = some op) (outcome : Outcome guard.lock op ops wait) :
    Coming state thread guard ops := by
  cases outcome with
  | refused | barred | draining => trivial
  | locked => exact ⟨next, op_claimed next, trivial⟩
  | claimed | shared | entered | released => exact ⟨next, trivial⟩

/-- The operations of one lock, as steps of the threads. -/
theorem trace_coming (order : ByteOrder) {event : Threads.Event} {guard : Guard}
    {own next : Unit → RwLock (Fin 3)} {locks : Lock → RwLock Thread} {ops : List (Op Unit)}
    (same : locks guard.lock = (own ()).rename Thread.named)
    (trace : Trace SharedMutex.move own
      (ops.map fun op => (event.thread.number, op)) next)
    (coming : Coming state event.thread guard ops) :
    ∃ after, Trace (fun before event after => Threads.step order before event = some after)
        (state.threads locks) (List.replicate ops.length event)
        (((advance event.thread)^[ops.length] state).threads after) ∧
      after guard.lock = (next ()).rename Thread.named ∧
      ∀ lock ≠ guard.lock, after lock = locks lock := by
  induction ops generalizing state own locks with
  | nil =>
      cases trace
      exact ⟨locks, .nil _, same, fun _ _ => rfl⟩
  | cons op rest ih =>
      cases trace with
      | @cons _ middle _ _ _ moved later =>
          have done := perform_rename named_injective same moved
          rw [named_number] at done
          have stepped : Threads.step order (state.threads locks) event =
              some ((state.advance event.thread).threads
                (set locks guard.lock ((middle ()).rename Thread.named))) := by
            have opened : (state.threads locks).op event.thread =
                some (op.on guard.lock) := by
              rw [← coming.1]
              cases event <;> rfl
            rw [Threads.step, opened]
            change (perform event.thread locks (op.on guard.lock)).map _ = _
            rw [done]
            cases event <;> rfl
          have put : ReaderWriter.set locks guard.lock ((middle ()).rename Thread.named) guard.lock =
              (middle ()).rename Thread.named := if_pos rfl
          obtain ⟨after, back, here, others⟩ := ih put later coming.2
          refine ⟨after, .cons stepped back, here, fun lock different => ?_⟩
          rw [others lock different]
          exact if_neg different

/-- The accesses and the operations that a turn consists of. -/
def emits (state : Locking) : Event → List Threads.Event
  | .turn event woken => match state.op event.thread with
      | none => [event]
      | some op => match op.lock.guard with
          | none => [event]
          | some guard =>
              let me := event.thread.number
              let machine := state.mutexes guard
              match SharedMutex.step machine (request machine me (woken.map Thread.number) op) with
              | none => []
              | some after => List.replicate (passed op (after.thread me).point) event
  | .wake _ _ => []

/-- A step of the threads that share `locks`. -/
abbrev follow (order : ByteOrder) (before : Threads) (event : Threads.Event) (after : Threads) :
    Prop := Threads.step order before event = some after

theorem advance_keeps {Seen : Type} (observe : Locking → Seen)
    (same : ∀ state, observe (advance thread state) = observe state) (count : Nat) :
    observe ((advance thread)^[count] state) = observe state := by
  induction count generalizing state with
  | zero => rfl
  | succ count ih => rw [Function.iterate_succ_apply, ih, same]

theorem request_me (machine : SharedMutex.Machine 3) (me : Fin 3) (woken : Option (Fin 3))
    (op : Op Lock) : (request machine me woken op).me = me := by
  cases op with
  | acquire lock mode =>
      simp only [request]
      split <;> rfl
  | enter => rfl
  | release lock mode => cases mode <;> rfl

section Step
variable {order : ByteOrder} {locks : Lock → RwLock Thread} (linked : Linked state locks)
include linked

/-- Sections of one word, whose thread stands somewhere after it. -/
theorem linked_guard (who : Thread) {guard : Guard} {machine : SharedMutex.Machine 3}
    {own : Unit → RwLock (Fin 3)} {after : Lock → RwLock Thread} {next : Locking}
    (mutexes : next.mutexes = (state.setMutex guard machine).mutexes)
    (pool : next.pool = state.pool) (related : SharedMutex.Related machine own)
    (attended : SharedMutex.Attended machine)
    (here : after guard.lock = (own ()).rename Thread.named)
    (others : ∀ lock ≠ guard.lock, after lock = locks lock)
    (mine : ∀ other, Placed (next.op who) other
      ((next.mutexes other).thread who.number).point.wait)
    (theirs : ∀ other ≠ who, next.op other = state.op other ∧
      (machine.thread other.number).point.wait =
        ((state.mutexes guard).thread other.number).point.wait) :
    Linked next after where
  guards other := by
    rw [mutexes]
    by_cases same : other = guard
    · subst same
      exact ⟨own, by rwa [setMutex_same], here⟩
    · obtain ⟨own, related, renamed⟩ := linked.guards other
      refine ⟨own, by rwa [setMutex_other _ _ same], ?_⟩
      rw [others other.lock fun equal => same (lock_injective equal), renamed]
  attended other := by
    rw [mutexes]
    by_cases same : other = guard
    · subst same
      rwa [setMutex_same]
    · rw [setMutex_other _ _ same]
      exact linked.attended other
  pool := by
    rw [others .pool guard.lock_ne_pool.symm, pool, linked.pool]
  placed other wanted := by
    by_cases same : other = who
    · subst same
      exact mine wanted
    · rw [(theirs other same).1, mutexes]
      have before := linked.placed other wanted
      by_cases there : wanted = guard
      · subst there
        rwa [setMutex_same, (theirs other same).2]
      · rwa [setMutex_other _ _ there]

theorem guard_step {event : Threads.Event} {woken : Option Thread} {op : Op Lock} {guard : Guard}
    {after : SharedMutex.Machine 3} (next : state.op event.thread = some op)
    (lock : op.lock.guard = some guard)
    (taken : SharedMutex.step (state.mutexes guard)
      (request (state.mutexes guard) event.thread.number (woken.map Thread.number) op) =
        some after) :
    let count := passed op (after.thread event.thread.number).point
    let final := ((advance event.thread)^[count] state).setMutex guard after
    ∃ last, Trace (follow order) (state.threads locks) (List.replicate count event)
      (final.threads last) ∧ Linked final last := by
  intro count final
  have me := request_me (state.mutexes guard) event.thread.number (woken.map Thread.number) op
  obtain ⟨own, related, renamed⟩ := linked.guards guard
  have placed := linked.placed event.thread guard
  rw [next] at placed
  have outcome := outcome_request related (guard_of_lock lock) placed taken
  have passes : count = _ := outcome.passed
  have small : 3 < 2 ^ 31 - 1 := by decide
  obtain ⟨ends, trace, relates⟩ := SharedMutex.step_done related small taken
  rw [me] at trace
  obtain ⟨last, steps, here, others⟩ :=
    trace_coming order renamed trace (outcome_coming next outcome)
  have stands := advance_placed next outcome
  rw [← passes] at steps stands
  have mutexes : ((advance event.thread)^[count] state).mutexes = state.mutexes :=
    advance_keeps Locking.mutexes (fun state => by cases event <;> rfl) count
  have pool : ((advance event.thread)^[count] state).pool = state.pool :=
    advance_keeps Locking.pool (fun state => by cases event <;> rfl) count
  refine ⟨last, steps, linked_guard linked event.thread ?_ pool relates
    (SharedMutex.step_attended related (linked.attended guard) small taken) here others ?_ ?_⟩
  · simp only [final, setMutex, mutexes]
  · intro other
    by_cases same : other = guard
    · subst same
      simpa [final] using stands.1
    · have elsewhere := linked.placed event.thread other
      have running : ((state.mutexes other).thread event.thread.number).point.wait = none := by
        rw [next] at elsewhere
        refine placed_elsewhere (fun equal => same ?_) elsewhere
        exact lock_injective (equal.symm.trans (guard_of_lock lock))
      simpa [final, setMutex_other _ _ same, mutexes, running] using stands.2 other same
  · intro other different
    refine ⟨advance_keeps (fun state => Locking.op state other)
      (fun state => op_other different) count, SharedMutex.step_other_wait taken ?_⟩
    rw [me]
    exact fun same => different (number_injective same)

theorem linked_points {next : Locking} {after : Lock → RwLock Thread}
    (mutexes : next.mutexes = state.mutexes) (guards : ∀ guard : Guard, after guard.lock =
      locks guard.lock) (pool : (after .pool).writer = next.pool)
    (placed : ∀ thread guard, Placed (next.op thread) guard
      ((state.mutexes guard).thread thread.number).point.wait) : Linked next after where
  guards guard := by
    rw [mutexes, guards]
    exact linked.guards guard
  attended guard := by
    rw [mutexes]
    exact linked.attended guard
  pool := pool
  placed := by
    rw [mutexes]
    exact placed

theorem placed_pool {op : Op Lock} (here : state.op thread = some op) (target : op.lock = .pool)
    (other : Thread) (guard : Guard) : Placed ((state.advance thread).op other) guard
      ((state.mutexes guard).thread other.number).point.wait := by
  have before := linked.placed other guard
  by_cases same : other = thread
  · rw [same] at before ⊢
    have apart : ∀ guard : Guard, op.lock ≠ guard.lock := by
      intro guard equal
      cases guard <;> cases target.symm.trans equal
    rw [here] at before
    rw [placed_elsewhere (apart guard) before]
    exact op_past here (fun guard equal => apart guard (congrArg Op.lock equal)) guard.lock
  · rwa [op_other same]

theorem pool_moved {event : Threads.Event} {op : Op Lock} {value : RwLock Thread}
    {pool : Option Thread} (here : state.op event.thread = some op) (target : op.lock = .pool)
    (done : perform event.thread locks op = some (ReaderWriter.set locks .pool value))
    (writer : value.writer = pool) :
    let next := { state with pool }.advance event.thread
    ∃ last, follow order (state.threads locks) event (next.threads last) ∧ Linked next last := by
  refine ⟨ReaderWriter.set locks .pool value, ?_, ?_⟩
  · have opened : (state.threads locks).op event.thread = some op := by
      rw [← here]
      cases event <;> rfl
    rw [follow, Threads.step, opened]
    change (perform event.thread locks op).map _ = _
    rw [done]
    cases event <;> rfl
  · have placed := placed_pool linked here target
    refine linked_points linked ?_ (fun guard => if_neg guard.lock_ne_pool) ?_ ?_
    · cases event <;> rfl
    · exact (congrArg RwLock.writer (if_pos rfl)).trans (by cases event <;> exact writer)
    · intro thread guard
      have moved := placed thread guard
      cases event <;> cases thread <;> exact moved

theorem pool_step {event : Threads.Event} {op : Op Lock} {next : Locking}
    (here : state.op event.thread = some op) (lock : op.lock.guard = none)
    (taken : state.poolStep event.thread op = some next) :
    ∃ last, follow order (state.threads locks) event (next.threads last) ∧ Linked next last := by
  have target := lock_of_pool lock
  cases op with
  | acquire wanted mode =>
      obtain rfl : wanted = .pool := target
      cases mode with
      | shared => cases taken
      | exclusive =>
          simp only [poolStep] at taken
          split at taken <;> cases taken
          rename_i free
          exact pool_moved linked here rfl (if_pos (linked.pool.trans free)) rfl
  | enter => cases taken
  | release wanted mode =>
      obtain rfl : wanted = .pool := target
      cases mode with
      | shared => cases taken
      | exclusive =>
          simp only [poolStep] at taken
          split at taken <;> cases taken
          rename_i owner
          have counted : (locks .pool).count event.thread .exclusive ≠ 0 := by
            simp [RwLock.count, linked.pool, owner]
          exact pool_moved linked here rfl (if_pos counted) rfl

theorem access_step {event : Threads.Event} {next : Threads}
    (here : state.op event.thread = none)
    (taken : (state.threads free).access order event = some next) :
    follow order (state.threads locks) event ((state.accessed next).threads locks) ∧
      Linked (state.accessed next) locks := by
  have opened : ∀ locks, (state.threads locks).op event.thread = none := by
    intro locks
    rw [← here]
    cases event <;> rfl
  have same : ∀ thread, (state.accessed next).op thread = next.op thread := by
    intro thread
    cases thread <;> rfl
  constructor
  · rw [follow, Threads.step, opened]
    have shifted := access_locks order (state.threads free) locks event
    rw [taken] at shifted
    exact shifted
  · refine linked_points linked rfl (fun _ => rfl) linked.pool fun thread guard => ?_
    have before := linked.placed thread guard
    rw [same]
    by_cases mine : thread = event.thread
    · rw [mine] at before ⊢
      rw [here] at before
      have nowhere : ((state.mutexes guard).thread event.thread.number).point.wait = none := by
        cases waits : ((state.mutexes guard).thread event.thread.number).point.wait with
        | none => rfl
        | some wait =>
            rw [waits] at before
            cases wait <;> cases before
      rw [nowhere]
      exact access_op (opened free) taken guard.lock
    · rw [access_op_other taken mine]
      cases thread <;> exact before

theorem wake_step {guard : Guard} {who : Thread} {after : SharedMutex.Machine 3}
    (taken : SharedMutex.step (state.mutexes guard) (.wake who.number) = some after) :
    Linked (state.setMutex guard after) locks := by
  obtain ⟨own, related, renamed⟩ := linked.guards guard
  have small : 3 < 2 ^ 31 - 1 := by decide
  have attended := SharedMutex.step_attended related (linked.attended guard) small taken
  have others := fun other (different : other ≠ who.number) =>
    SharedMutex.step_other_wait taken different
  obtain ⟨wait, here, rfl⟩ := SharedMutex.wake_cases taken
  have relates := related.awoken here
  refine linked_guard linked who rfl rfl relates attended renamed (fun _ _ => rfl) ?_ ?_
  · intro other
    have before := linked.placed who other
    rw [setMutex_op]
    by_cases same : other = guard
    · subst same
      rw [setMutex_same, SharedMutex.Machine.put_me]
      rwa [here] at before
    · rwa [setMutex_other _ _ same]
  · intro other different
    rw [setMutex_op]
    exact ⟨rfl, others other.number fun same => different (number_injective same)⟩

omit linked in
/-- Each step is the accesses and the operations that it emits. -/
theorem simulates (order : ByteOrder) : Simulates (step order) emits (follow order)
    fun state abstract => ∃ locks, abstract = state.threads locks ∧ Linked state locks := by
  rintro state event after _ ⟨locks, rfl, linked⟩ taken
  cases event with
  | turn event woken =>
      simp only [step] at taken
      cases here : state.op event.thread with
      | none =>
          simp only [here] at taken
          obtain ⟨next, accessed, rfl⟩ := Option.map_eq_some_iff.mp taken
          obtain ⟨moved, later⟩ := access_step linked here accessed
          refine ⟨_, ?_, locks, rfl, later⟩
          simp only [emits, here]
          exact .one moved
      | some op =>
          simp only [here, lockStep] at taken
          cases lock : op.lock.guard with
          | none =>
              simp only [lock] at taken
              obtain ⟨last, moved, later⟩ := pool_step linked here lock taken
              refine ⟨_, ?_, last, rfl, later⟩
              simp only [emits, here, lock]
              exact .one moved
          | some guard =>
              simp only [lock, guardStep] at taken
              obtain ⟨machine, stepped, rfl⟩ := Option.map_eq_some_iff.mp taken
              obtain ⟨last, moved, later⟩ := guard_step linked here lock stepped
              refine ⟨_, ?_, last, rfl, later⟩
              simp only [emits, here, lock, stepped]
              exact moved
  | wake guard who =>
      simp only [step] at taken
      obtain ⟨machine, stepped, rfl⟩ := Option.map_eq_some_iff.mp taken
      exact ⟨_, .nil _, locks, rfl, wake_step linked stepped⟩

end Step

/-- A run of sections is a run of lock operations and accesses, between the same data and the
same points of the threads. -/
theorem run_follows {order : ByteOrder} {mac : { mac : Bytes // mac.length = 6 }}
    {secret : Bytes} {random : UInt32} {events : List Event} {final : Locking}
    (past : Runs.run (step order) (init order mac secret random) events = some final) :
    ∃ locks, Runs.run (Threads.step order) (Threads.init order mac secret random)
        (emitted (step order) emits (init order mac secret random) events) =
          some (final.threads locks) ∧
      Linked final locks := by
  obtain ⟨last, trace, locks, rfl, linked⟩ :=
    (simulates order).run ⟨free, rfl, linked_init order mac secret random⟩ past
  exact ⟨locks, trace_run.mp trace, linked⟩

/-- The turns of the threads, each several times in a row. -/
def turns (blocks : List (Nat × Threads.Event)) : List Event :=
  blocks.flatMap fun block => List.replicate block.1 (.turn block.2 none)

def opening : Threads.Event :=
  .net { peer := plainPeer, datagram := plainRequest 7, random := 11, time := 0 }

def heartbeat : Threads.Event :=
  .net { peer := plainPeer, datagram := plainHeartbeat 11, random := 11, time := 0 }

def broadcast : Threads.Event := .veth (List.replicate 18 255) [0]

/-- A heartbeat waits for a frame that goes to its client, and is woken; a sweep waits for both. -/
theorem run_follows_handover : ∃ final locks,
    Runs.run (step .little) (init .little ⟨[2, 0, 0, 0, 0, 1], rfl⟩ [] 5)
      (turns [(8, opening), (4, broadcast), (4, heartbeat), (2, .poll 0 []), (1, broadcast)] ++
        [.turn broadcast (some .net), .turn heartbeat none]) = some final ∧
    (final.mutexes .dict).state = 0x80000002 ∧ (final.mutexes (.client 0)).state = 0x80000000 ∧
    Runs.run (Threads.step .little) (Threads.init .little ⟨[2, 0, 0, 0, 0, 1], rfl⟩ [] 5)
      (emitted (step .little) emits (init .little ⟨[2, 0, 0, 0, 0, 1], rfl⟩ [] 5)
        (turns [(8, opening), (4, broadcast), (4, heartbeat), (2, .poll 0 []), (1, broadcast)] ++
          [.turn broadcast (some .net), .turn heartbeat none])) = some (final.threads locks) ∧
    Linked final locks := by
  have computed : (Runs.run (step .little) (init .little ⟨[2, 0, 0, 0, 0, 1], rfl⟩ [] 5)
      (turns [(8, opening), (4, broadcast), (4, heartbeat), (2, .poll 0 []), (1, broadcast)] ++
        [.turn broadcast (some .net), .turn heartbeat none])).map (fun final =>
          ((final.mutexes .dict).state, (final.mutexes (.client 0)).state)) =
      some (0x80000002, 0x80000000) := by
    decide +kernel
  obtain ⟨final, past, words⟩ := Option.map_eq_some_iff.mp computed
  simp only [Prod.mk.injEq] at words
  obtain ⟨locks, same, linked⟩ := run_follows past
  exact ⟨final, locks, past, words.1, words.2, same, linked⟩

end Locking

end Muddymask
