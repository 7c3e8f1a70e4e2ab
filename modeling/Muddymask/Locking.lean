import Muddymask.SharedMutex
import Muddymask.Threads

/-!
The threads of `TunnelServer` on the words of their locks. `dict.mutex` and the mutex
of each client are a `shared_mutex`, `pool.mutex` is a `std::mutex`. A turn of a thread
is an access, an operation of `pool.mutex`, or one section of a function of
`shared_mutex`. A thread stands at the point of its call until the call returns; in
`lock`, from the second loop on, it stands at the point of its entry.
-/

namespace Muddymask

open Words TunnelServer ReaderWriter Threads

inductive Guard where
  | dict
  | client (info : Ptr)
  deriving DecidableEq

structure Locking where
  server : TunnelServer
  mutexes : Guard → SharedMutex.Machine 3
  pool : Option Thread
  net : Net
  veth : VethPoint
  poll : PollPoint

namespace Guard

def lock : Guard → Lock
  | dict => .dict
  | client info => .client info

theorem lock_ne_pool (guard : Guard) : guard.lock ≠ .pool := by
  cases guard <;> simp [lock]

end Guard

namespace Threads

def Lock.guard : Lock → Option Guard
  | dict => some .dict
  | client info => some (.client info)
  | pool => none

def Thread.number : Thread → Fin 3
  | net => 0
  | veth => 1
  | poll => 2

def Thread.named : Fin 3 → Thread
  | 0 => net
  | 1 => veth
  | 2 => poll

end Threads

/-- The lock of an operation. -/
def ReaderWriter.Op.lock {Lock : Type} : Op Lock → Lock
  | .acquire lock _ | .enter lock | .release lock _ => lock

namespace Locking

/-- Who takes a turn, and whom it wakes if it leaves a lock shared; or who wakes up for nothing. -/
inductive Event where
  | turn (event : Threads.Event) (woken : Option Thread)
  | wake (guard : Guard) (thread : Thread)

def init (order : ByteOrder) (mac : { mac : Bytes // mac.length = 6 }) (secret : Bytes)
    (random : UInt32) : Locking where
  server := TunnelServer.new order mac secret random
  mutexes := fun _ => SharedMutex.Machine.start
  pool := none
  net := .recv
  veth := .read
  poll := .sleep

def threads (state : Locking) (locks : Lock → RwLock Thread) : Threads where
  server := state.server
  locks := locks
  net := state.net
  veth := state.veth
  poll := state.poll

def accessed (state : Locking) (after : Threads) : Locking :=
  { state with server := after.server, net := after.net, veth := after.veth, poll := after.poll }

def op (state : Locking) : Thread → Option (Op Lock)
  | .net => state.net.op
  | .veth => state.veth.op
  | .poll => state.poll.op

def advance (thread : Thread) (state : Locking) : Locking :=
  match thread with
  | .net => { state with net := state.net.after }
  | .veth => { state with veth := state.veth.after }
  | .poll => { state with poll := state.poll.after }

/-- The section that comes next: a call, or what is left of one after a wait. -/
def request (machine : SharedMutex.Machine 3) (me : Fin 3) (woken : Option (Fin 3)) :
    Op Lock → SharedMutex.Event 3
  | .acquire _ mode => match (machine.thread me).point, mode with
      | .running, .shared => .call me .lockShared
      | .running, .exclusive => .call me .lock
      | .waiting _ _, _ => .resume me
  | .enter _ => .resume me
  | .release _ .shared => .unlockShared me woken
  | .release _ .exclusive => .unlock me

/-- How many points a thread gets further by a section, as it returns or waits then. -/
def passed : Op Lock → SharedMutex.Point → Nat
  | .acquire _ .exclusive, .running => 2
  | .acquire _ .exclusive, .waiting .lockGate2 _ => 1
  | .acquire _ _, .waiting _ _ => 0
  | .enter _, .waiting _ _ => 0
  | _, _ => 1

def setMutex (state : Locking) (guard : Guard) (machine : SharedMutex.Machine 3) : Locking :=
  { state with
    mutexes := fun other => if other = guard then machine else state.mutexes other }

section
variable (state : Locking) (guard : Guard) (machine : SharedMutex.Machine 3)

@[simp] theorem setMutex_same : (state.setMutex guard machine).mutexes guard = machine := if_pos rfl

@[simp] theorem setMutex_op (thread : Thread) :
    (state.setMutex guard machine).op thread = state.op thread := by
  cases thread <;> rfl

variable {guard}

theorem setMutex_other {other : Guard} (different : other ≠ guard) :
    (state.setMutex guard machine).mutexes other = state.mutexes other := if_neg different

end

def guardStep (state : Locking) (thread : Thread) (op : Op Lock) (guard : Guard)
    (woken : Option Thread) : Option Locking :=
  let me := thread.number
  let machine := state.mutexes guard
  (SharedMutex.step machine (request machine me (woken.map Thread.number) op)).map fun after =>
    ((advance thread)^[passed op (after.thread me).point] state).setMutex guard after

/-- `lock` and `unlock` of `pool.mutex`. -/
def poolStep (state : Locking) (thread : Thread) : Op Lock → Option Locking
  | .acquire _ .exclusive =>
      if state.pool = none then some ({ state with pool := some thread }.advance thread) else none
  | .release _ .exclusive =>
      if state.pool = some thread then some ({ state with pool := none }.advance thread) else none
  | _ => none

def lockStep (state : Locking) (thread : Thread) (op : Op Lock) (woken : Option Thread) :
    Option Locking :=
  match op.lock.guard with
  | some guard => state.guardStep thread op guard woken
  | none => state.poolStep thread op

def step (order : ByteOrder) (state : Locking) : Event → Option Locking
  | .turn event woken => match state.op event.thread with
      | some op => state.lockStep event.thread op woken
      | none => ((state.threads free).access order event).map state.accessed
  | .wake guard thread =>
      (SharedMutex.step (state.mutexes guard) (.wake thread.number)).map (state.setMutex guard)

end Locking

end Muddymask
