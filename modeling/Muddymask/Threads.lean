import Muddymask.Interleaving
import Muddymask.ReaderWriter

/-!
The three threads of `TunnelServer` at the granularity of their locks: a step
acquires, enters or releases one lock, or is the access that stands between two
such operations. Where a thread stands is a point of its code with the locals
that are alive there; all system calls succeed. What the threads send is left to
the coarser machine, which this one refines. The answers of `random()` and
`std::time()` for a datagram are drawn when it arrives.
-/

namespace Muddymask

open Words TunnelServer ReaderWriter

namespace Threads

inductive Thread where
  | net
  | veth
  | poll
  deriving DecidableEq

/-- `dict.mutex`, the mutex of a `ClientInfo`, and `pool.mutex`. -/
inductive Lock where
  | dict
  | client (info : Ptr)
  | pool
  deriving DecidableEq

structure Arrival where
  peer : SockAddr
  datagram : Bytes
  random : UInt32
  time : Int

/-- The points of `handleNetworkDatagram` and its handlers. -/
inductive Net where
  | recv
  | relayLock (id : UInt32)
  | relayFind (id : UInt32)
  | relayUnlock
  | allocateLock (arrival : Arrival) (request : StartSession)
  | allocate (arrival : Arrival) (request : StartSession)
  | allocateUnlock (record : Option ClientInfo) (arrival : Arrival)
  | create (record : ClientInfo) (arrival : Arrival)
  | registerClaim (pending : Pending)
  | registerEnter (pending : Pending)
  | register (pending : Pending)
  | registerUnlock
  | heartbeatLock (arrival : Arrival) (id : UInt32)
  | heartbeatFind (arrival : Arrival) (id : UInt32)
  | clientClaim (arrival : Arrival) (info : Ptr)
  | clientEnter (arrival : Arrival) (info : Ptr)
  | clientWrite (arrival : Arrival) (info : Ptr)
  | clientUnlock (info : Ptr)
  | heartbeatUnlock

/-- The points of `handleVirtualEthernet` and of the two functions that relay. -/
inductive VethPoint where
  | read
  | lock (frame : Bytes)
  | find (frame : Bytes)
  | clientLock (frame : Bytes) (info : Ptr) (rest : List Ptr)
  | send (frame : Bytes) (info : Ptr) (rest : List Ptr)
  | clientUnlock (frame : Bytes) (info : Ptr) (rest : List Ptr)
  | unlock (frame : Bytes)

/-- The points of `removeZombieClient`. -/
inductive PollPoint where
  | sleep
  | claim
  | enter
  | begin
  | visit (now : Int) (entries : List (UInt32 × Ptr))
  | releaseLock (now : Int) (info : Ptr) (entries : List (UInt32 × Ptr))
  | release (now : Int) (info : Ptr) (entries : List (UInt32 × Ptr))
  | releaseUnlock (now : Int) (info : Ptr) (entries : List (UInt32 × Ptr))
  | delete (now : Int) (info : Ptr) (entries : List (UInt32 × Ptr))
  | unlock (now : Int)

/-! For each point: the lock operation that comes next, if it is one, where it
leads, and the locks that are held on the way, the innermost first. -/

namespace Net

def op : Net → Option (Op Lock)
  | relayLock _ | heartbeatLock _ _ => some (.acquire .dict .shared)
  | relayUnlock | heartbeatUnlock => some (.release .dict .shared)
  | allocateLock _ _ => some (.acquire .pool .exclusive)
  | allocateUnlock _ _ => some (.release .pool .exclusive)
  | registerClaim _ => some (.acquire .dict .exclusive)
  | registerEnter _ => some (.enter .dict)
  | registerUnlock => some (.release .dict .exclusive)
  | clientClaim _ info => some (.acquire (.client info) .exclusive)
  | clientEnter _ info => some (.enter (.client info))
  | clientUnlock info => some (.release (.client info) .exclusive)
  | recv | relayFind _ | allocate _ _ | create _ _ | register _ | heartbeatFind _ _
  | clientWrite _ _ => none

def after : Net → Net
  | relayLock id => relayFind id
  | relayUnlock => recv
  | allocateLock arrival request => allocate arrival request
  | allocateUnlock none _ => recv
  | allocateUnlock (some record) arrival => create record arrival
  | registerClaim pending => registerEnter pending
  | registerEnter pending => register pending
  | registerUnlock => recv
  | heartbeatLock arrival id => heartbeatFind arrival id
  | clientClaim arrival info => clientEnter arrival info
  | clientEnter arrival info => clientWrite arrival info
  | clientUnlock _ => heartbeatUnlock
  | heartbeatUnlock => recv
  | point => point

def holds : Net → List (Lock × Mode)
  | recv | relayLock _ | allocateLock _ _ | create _ _ | registerClaim _ | heartbeatLock _ _ => []
  | relayFind _ | relayUnlock | heartbeatFind _ _ | clientClaim _ _ | heartbeatUnlock =>
      [(.dict, .shared)]
  | allocate _ _ | allocateUnlock _ _ => [(.pool, .exclusive)]
  | registerEnter _ | register _ | registerUnlock => [(.dict, .exclusive)]
  | clientEnter _ info | clientWrite _ info | clientUnlock info =>
      [(.client info, .exclusive), (.dict, .shared)]

def inside : Net → Bool
  | register _ | registerUnlock => true
  | _ => false

/-- The record that the next step reads, writes, locks or unlocks. -/
def touches : Net → Option Ptr
  | register pending => some pending.info
  | clientClaim _ info | clientEnter _ info | clientWrite _ info | clientUnlock info => some info
  | _ => none

end Net

namespace VethPoint

/-- The head of the loop over the clients that are left. -/
def loop (frame : Bytes) : List Ptr → VethPoint
  | [] => unlock frame
  | info :: rest => clientLock frame info rest

def op : VethPoint → Option (Op Lock)
  | lock _ => some (.acquire .dict .shared)
  | clientLock _ info _ => some (.acquire (.client info) .shared)
  | clientUnlock _ info _ => some (.release (.client info) .shared)
  | unlock _ => some (.release .dict .shared)
  | read | find _ | send _ _ _ => none

def after : VethPoint → VethPoint
  | lock frame => find frame
  | clientLock frame info rest => send frame info rest
  | clientUnlock frame _ rest => loop frame rest
  | unlock _ => read
  | point => point

def holds : VethPoint → List (Lock × Mode)
  | read | lock _ => []
  | find _ | clientLock _ _ _ | unlock _ => [(.dict, .shared)]
  | send _ info _ | clientUnlock _ info _ => [(.client info, .shared), (.dict, .shared)]

def touches : VethPoint → Option Ptr
  | clientLock _ info _ | send _ info _ | clientUnlock _ info _ => some info
  | _ => none

end VethPoint

namespace PollPoint

def op : PollPoint → Option (Op Lock)
  | claim => some (.acquire .dict .exclusive)
  | enter => some (.enter .dict)
  | releaseLock _ _ _ => some (.acquire .pool .exclusive)
  | releaseUnlock _ _ _ => some (.release .pool .exclusive)
  | unlock _ => some (.release .dict .exclusive)
  | sleep | begin | visit _ _ | release _ _ _ | delete _ _ _ => none

def after : PollPoint → PollPoint
  | claim => enter
  | enter => begin
  | releaseLock now info entries => release now info entries
  | releaseUnlock now info entries => delete now info entries
  | unlock _ => sleep
  | point => point

def holds : PollPoint → List (Lock × Mode)
  | sleep | claim => []
  | enter | begin | visit _ _ | releaseLock _ _ _ | delete _ _ _ | unlock _ =>
      [(.dict, .exclusive)]
  | release _ _ _ | releaseUnlock _ _ _ => [(.pool, .exclusive), (.dict, .exclusive)]

def inside : PollPoint → Bool
  | sleep | claim | enter => false
  | _ => true

/-- `releaseAddress` gets its argument from the record before it locks. -/
def touches : PollPoint → Option Ptr
  | visit _ (entry :: _) => some entry.2
  | releaseLock _ info _ | release _ info _ | delete _ info _ => some info
  | _ => none

end PollPoint

end Threads

open Threads

structure Threads where
  server : TunnelServer
  locks : Lock → RwLock Thread
  net : Net
  veth : VethPoint
  poll : PollPoint

namespace Threads

/-- Which thread goes next, with what its environment answers it. -/
inductive Event where
  | net (arrival : Arrival)
  | veth (frame : Bytes) (clients : List Ptr)
  | poll (now : Int) (entries : List (UInt32 × Ptr))

def init (order : ByteOrder) (mac : { mac : Bytes // mac.length = 6 }) (secret : Bytes)
    (random : UInt32) : Threads where
  server := TunnelServer.new order mac secret random
  locks := free
  net := .recv
  veth := .read
  poll := .sleep

/-- Where the checks before the first lock lead. -/
def arrive (order : ByteOrder) (crypto : DummyCrypto) (arrival : Arrival) : Net :=
  match dispatch order crypto (TunnelServer.recv arrival.datagram 2000) with
  | .ignore | .wrongVersion => .recv
  | .call .relayData id _ length => if length ≤ EthernetHeader.sizeof then .recv else .relayLock id
  | .call .handleHeartbeat id _ length =>
      if length ≠ Heartbeat.sizeof then .recv else .heartbeatLock arrival id
  | .call .startSession _ packet length =>
      if length ≠ StartSession.sizeof then .recv
      else match StartSession.read order packet with
        | none => .recv
        | some request => .allocateLock arrival request

def netAccess (order : ByteOrder) (state : Threads) (arrival : Arrival) : Threads :=
  match state.net with
  | .recv => { state with net := arrive order state.server.crypto arrival }
  -- whether the client is known makes no difference to the state
  | .relayFind _ => { state with net := .relayUnlock }
  | .allocate arrival request =>
      let allocated := state.server.pool.allocateAddress order
      let record : ClientInfo :=
        { tun := { ip := allocated.1, mac := request.mac }, address := arrival.peer
          identity := arrival.random, alive := arrival.time }
      { state with
        server := { state.server with pool := allocated.2 }
        net := .allocateUnlock (if allocated.1 = 0 then none else some record) arrival }
  | .create record arrival =>
      { state with
        server := state.server.newClient record
        net := .registerClaim
          { peer := arrival.peer, datagram := arrival.datagram, info := state.server.next } }
  | .register pending =>
      { state with server := state.server.registerClient pending.info, net := .registerUnlock }
  | .heartbeatFind arrival id => match state.server.dict.id.find id with
      | none => { state with net := .heartbeatUnlock }
      | some info => { state with net := .clientClaim arrival info }
  | .clientWrite arrival info =>
      { state with
        server := state.server.refreshClient info arrival.peer arrival.time
        net := .clientUnlock info }
  | _ => state

def vethAccess (order : ByteOrder) (state : Threads) (frame : Bytes) (clients : List Ptr) :
    Option Threads :=
  match state.veth with
  | .read =>
      let frame := frame.take 2000
      if frame.length < EthernetHeader.sizeof then some state
      else some { state with veth := .lock frame }
  | .find frame =>
      if clients.Perm (state.server.dict.mac.entries.map Prod.snd) then
        some { state with veth := .loop frame (state.server.frameTargets order frame clients) }
      else none
  | .send frame info rest => some { state with veth := .clientUnlock frame info rest }
  | _ => some state

def pollAccess (state : Threads) (now : Int) (entries : List (UInt32 × Ptr)) : Option Threads :=
  match state.poll with
  | .sleep => some { state with poll := .claim }
  | .begin =>
      if entries.Perm state.server.dict.id.entries then some { state with poll := .visit now entries }
      else none
  | .visit now [] => some { state with poll := .unlock now }
  | .visit now (entry :: entries) =>
      if state.server.Expired now entry.2 then
        some { state with server := state.server.eraseClient entry
                          poll := .releaseLock now entry.2 entries }
      else some { state with poll := .visit now entries }
  | .release now info entries =>
      some { state with server := state.server.releaseClient info
                        poll := .releaseUnlock now info entries }
  | .delete now info entries =>
      some { state with server := state.server.deleteClient info, poll := .visit now entries }
  | _ => some state

def access (order : ByteOrder) (state : Threads) : Event → Option Threads
  | .net arrival => some (state.netAccess order arrival)
  | .veth frame clients => state.vethAccess order frame clients
  | .poll now entries => state.pollAccess now entries

/-- The lock operation of a thread is done. -/
def advance (state : Threads) (thread : Thread) (locks : Lock → RwLock Thread) : Threads :=
  match thread with
  | .net => { state with locks, net := state.net.after }
  | .veth => { state with locks, veth := state.veth.after }
  | .poll => { state with locks, poll := state.poll.after }

def op (state : Threads) : Thread → Option (Op Lock)
  | .net => state.net.op
  | .veth => state.veth.op
  | .poll => state.poll.op

def Event.thread : Event → Thread
  | .net _ => .net
  | .veth _ _ => .veth
  | .poll _ _ => .poll

def step (order : ByteOrder) (state : Threads) (event : Event) : Option Threads :=
  match state.op event.thread with
  | some op => (perform event.thread state.locks op).map (state.advance event.thread)
  | none => state.access order event

def holds (state : Threads) : Thread → List (Lock × Mode)
  | .net => state.net.holds
  | .veth => state.veth.holds
  | .poll => state.poll.holds

def inside (state : Threads) : Thread → Bool
  | .net => state.net.inside
  | .veth => false
  | .poll => state.poll.inside

def touches (state : Threads) : Thread → Option Ptr
  | .net => state.net.touches
  | .veth => state.veth.touches
  | .poll => state.poll.touches

def setClient (state : Threads) (info : Ptr) (record : ClientInfo) : Threads :=
  { state with server := state.server.setClient info record }

theorem netAccess_untouched (order : ByteOrder) (state : Threads) (arrival : Arrival)
    {info : Ptr} (record : ClientInfo) (older : info ≠ state.server.next)
    (untouched : state.net.touches ≠ some info) :
    (state.setClient info record).netAccess order arrival =
      (state.netAccess order arrival).setClient info record := by
  obtain ⟨server, locks, net, veth, poll⟩ := state
  cases net with
  | create created arrival =>
      simp only [netAccess, setClient, newClient_apart server record older]
      rfl
  | register pending =>
      have apart : pending.info ≠ info := fun same => untouched (congrArg some same)
      simp only [netAccess, setClient, registerClient_apart server record apart]
  | heartbeatFind arrival id =>
      simp only [netAccess, setClient, setClient_dict]
      split <;> rfl
  | clientWrite arrival other =>
      have apart : other ≠ info := fun same => untouched (congrArg some same)
      simp only [netAccess, setClient, refreshClient_apart server record apart]
  | _ => rfl

theorem vethAccess_untouched (order : ByteOrder) (state : Threads) (frame : Bytes)
    (clients : List Ptr) (info : Ptr) (record : ClientInfo) :
    (state.setClient info record).vethAccess order frame clients =
      (state.vethAccess order frame clients).map fun after => after.setClient info record := by
  obtain ⟨server, locks, net, veth, poll⟩ := state
  cases veth with
  | read =>
      by_cases short : (frame.take 2000).length < EthernetHeader.sizeof <;>
        simp only [vethAccess, setClient, short, ↓reduceIte, Option.map_some]
  | find wanted =>
      by_cases iterated : clients.Perm (server.dict.mac.entries.map Prod.snd)
      · simp only [vethAccess, setClient, setClient_dict, iterated, ↓reduceIte]
        rfl
      · simp [vethAccess, setClient, iterated]
  | _ => rfl

theorem pollAccess_untouched (state : Threads) (now : Int) (entries : List (UInt32 × Ptr))
    {info : Ptr} (record : ClientInfo) (untouched : state.poll.touches ≠ some info) :
    (state.setClient info record).pollAccess now entries =
      (state.pollAccess now entries).map fun after => after.setClient info record := by
  obtain ⟨server, locks, net, veth, poll⟩ := state
  cases poll with
  | begin =>
      by_cases iterated : entries.Perm server.dict.id.entries <;>
        simp [pollAccess, setClient, iterated]
  | visit now entries =>
      cases entries with
      | nil => rfl
      | cons entry entries =>
          have apart : entry.2 ≠ info := fun same => untouched (congrArg some same)
          by_cases expired : server.Expired now entry.2 <;>
            simp [pollAccess, setClient, expired_apart server record apart,
              eraseClient_apart server record apart, expired]
  | release now other entries =>
      have apart : other ≠ info := fun same => untouched (congrArg some same)
      simp only [pollAccess, setClient, releaseClient_apart server record apart]
      rfl
  | _ => rfl

/-- A step reads and writes no record but the one its thread touches and the one it creates. -/
theorem step_untouched (order : ByteOrder) (state : Threads) (event : Event) {info : Ptr}
    (record : ClientInfo) (older : info ≠ state.server.next)
    (untouched : state.touches event.thread ≠ some info) :
    step order (state.setClient info record) event =
      (step order state event).map fun after => after.setClient info record := by
  have sameOp : (state.setClient info record).op event.thread = state.op event.thread := by
    cases event <;> rfl
  rw [step, step, sameOp]
  cases state.op event.thread with
  | some op =>
      rw [Option.map_map]
      cases event <;> rfl
  | none =>
      cases event with
      | net arrival =>
          exact congrArg some (netAccess_untouched order state arrival record older untouched)
      | veth frame clients => exact vethAccess_untouched order state frame clients info record
      | poll now entries => exact pollAccess_untouched state now entries record untouched

end Threads

end Muddymask
