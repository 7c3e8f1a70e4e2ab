import Mathlib.Data.List.Perm.Basic
import Muddymask.Runs
import Muddymask.TunnelServer

/-!
The three threads of the server as one machine whose steps are their critical
sections. `allocateAddress` and `releaseAddress` are sections of `pool.mutex`
and may fall into a sweep; everything that touches the dictionaries waits where
`dict.mutex` makes it wait. Between its sections a thread keeps a few locals,
and these are the states below. The locks themselves are left to a finer model.
-/

namespace Muddymask

open Words TunnelServer

/-- The network thread in `startSession`, before the guard of `dict.mutex`. -/
structure Pending where
  peer : SockAddr
  datagram : Bytes
  info : Ptr

/-- The virtual ethernet thread; while it relays it shares `dict.mutex`. -/
inductive Veth where
  | read
  | relay (frame : Bytes) (clients : List Ptr)

/-- The poll thread; outside `sleep` it owns `dict.mutex`. `entries` is the part
of `dict.id` that the loop has not come to. -/
inductive Poll where
  | sleep
  | sweep (now : Int) (entries : List (UInt32 × Ptr))
  | release (now : Int) (info : Ptr) (entries : List (UInt32 × Ptr))
  | delete (now : Int) (info : Ptr) (entries : List (UInt32 × Ptr))

namespace Poll

def asleep : Poll → Bool
  | sleep => true
  | _ => false

def entries : Poll → List (UInt32 × Ptr)
  | sleep => []
  | sweep _ entries | release _ _ entries | delete _ _ entries => entries

/-- The record that is erased from the dictionaries but not yet deleted. -/
def removing : Poll → Option Ptr
  | sleep | sweep _ _ => none
  | release _ info _ | delete _ info _ => some info

/-- The record whose address is back in the pool while its memory still exists. -/
def released : Poll → Option Ptr
  | delete _ info _ => some info
  | _ => none

end Poll

def Veth.reading : Veth → Bool
  | .read => true
  | .relay _ _ => false

structure Machine where
  server : TunnelServer
  net : Option Pending
  veth : Veth
  poll : Poll

/-- Where the nondeterminism of a run is: what the network and the interface
deliver, what `random()` and `std::time()` answer, how a map is iterated, and
which thread goes next. -/
inductive Event where
  | datagram (peer : SockAddr) (datagram : Bytes) (random : UInt32) (time : Int)
  | register
  | frame (frame : Bytes) (clients : List Ptr)
  | forward
  | sweep (now : Int) (entries : List (UInt32 × Ptr))
  | visit
  | release
  | delete

namespace Machine

def init (order : ByteOrder) (mac : { mac : Bytes // mac.length = 6 }) (secret : Bytes)
    (random : UInt32) : Machine where
  server := TunnelServer.new order mac secret random
  net := none
  veth := .read
  poll := .sleep

/-- A datagram up to the end of its first critical section. -/
def receive (order : ByteOrder) (machine : Machine) (peer : SockAddr) (datagram : Bytes)
    (random : UInt32) (time : Int) : Option (Machine × List Action) :=
  let server := machine.server
  match dispatch order server.crypto (recv datagram 2000) with
  | .ignore => some (machine, [])
  | .wrongVersion => some (machine, [server.sendErrorCode order peer .kWrongVersion])
  | .call .startSession _ packet length =>
      let opened := server.openSession order peer packet length random time
      some ({ machine with server := opened.2, net := opened.1.map (Pending.mk peer datagram) }, [])
  | .call .handleHeartbeat id _ length =>
      -- a packet of the wrong size never gets to the lock
      if length = Heartbeat.sizeof ∧ machine.poll.asleep = false then none
      else
        let handled := server.handleHeartbeat order peer id length time
        some ({ machine with server := handled.1 }, handled.2)
  | .call .relayData id packet length =>
      if EthernetHeader.sizeof < length ∧ machine.poll.asleep = false then none
      else some (machine, server.relayData order peer id packet length)

def step (order : ByteOrder) (machine : Machine) : Event → Option (Machine × List Action)
  | .datagram peer datagram random time =>
      if machine.net.isSome then none else machine.receive order peer datagram random time
  | .register => match machine.net with
      | none => none
      | some pending =>
          -- the exclusive guard waits for a sweep and for a relay
          if machine.poll.asleep && machine.veth.reading then
            let record := machine.server.client pending.info
            some ({ machine with server := machine.server.registerClient pending.info, net := none },
              [machine.server.sendSessionInfo order pending.peer record.identity record.tun.ip])
          else none
  | .frame frame clients =>
      let frame := frame.take 2000
      if machine.veth.reading = false then none
      -- a short frame is dropped before the lock
      else if frame.length < EthernetHeader.sizeof then some (machine, [])
      else if machine.poll.asleep &&
          decide (clients.Perm (machine.server.dict.mac.entries.map Prod.snd)) then
        let targets := machine.server.frameTargets order frame clients
        some ({ machine with veth := .relay frame targets }, [])
      else none
  | .forward => match machine.veth with
      | .relay frame (info :: clients) => some ({ machine with veth := .relay frame clients },
          [.send (machine.server.client info).address (machine.server.relayPacket order frame)])
      | .relay _ [] => some ({ machine with veth := .read }, [])
      | .read => none
  | .sweep now entries =>
      if machine.poll.asleep && machine.veth.reading &&
        decide (entries.Perm machine.server.dict.id.entries)
      then some ({ machine with poll := .sweep now entries }, [])
      else none
  | .visit => match machine.poll with
      | .sweep now (entry :: entries) =>
          if machine.server.Expired now entry.2 then
            some ({ machine with server := machine.server.eraseClient entry
                                 poll := .release now entry.2 entries }, [])
          else some ({ machine with poll := .sweep now entries }, [])
      | .sweep _ [] => some ({ machine with poll := .sleep }, [])
      | _ => none
  | .release => match machine.poll with
      | .release now info entries =>
          some ({ machine with server := machine.server.releaseClient info
                               poll := .delete now info entries }, [])
      | _ => none
  | .delete => match machine.poll with
      | .delete now info entries =>
          some ({ machine with server := machine.server.deleteClient info
                               poll := .sweep now entries }, [])
      | _ => none

def next (order : ByteOrder) (machine : Machine) (event : Event) : Option Machine :=
  (machine.step order event).map Prod.fst

/-- The server after `allocateAddress` and the creation of the record for a request. -/
def opened (order : ByteOrder) (server : TunnelServer) (peer : SockAddr) (mac : MacAddress)
    (random : UInt32) (time : Int) : TunnelServer :=
  { server with pool := (server.pool.allocateAddress order).2 }.newClient
    { tun := { ip := (server.pool.allocateAddress order).1, mac }, address := peer,
      identity := random, alive := time }

/-- What a step can do, one constructor for each critical section and outcome.
Every invariant is derived from this. -/
inductive Change (order : ByteOrder) (machine : Machine) : Event → Machine → Prop where
  | dropped {peer datagram random time} (idle : machine.net = none)
      (unasked : sessionRequest order machine.server.crypto datagram = none)
      (unknown : ∀ id, heartbeatIdentity order machine.server.crypto datagram = some id →
        machine.server.dict.id.find id = none) :
      Change order machine (.datagram peer datagram random time) machine
  | refused {peer datagram random time} (request : StartSession) (idle : machine.net = none)
      (asked : sessionRequest order machine.server.crypto datagram = some request)
      (exhausted : (machine.server.pool.allocateAddress order).1 = 0) :
      Change order machine (.datagram peer datagram random time)
        { machine with server := { machine.server with
            pool := (machine.server.pool.allocateAddress order).2 } }
  | opened {peer datagram random time} (request : StartSession) (idle : machine.net = none)
      (asked : sessionRequest order machine.server.crypto datagram = some request)
      (allocated : (machine.server.pool.allocateAddress order).1 ≠ 0) :
      Change order machine (.datagram peer datagram random time)
        { machine with
          server := opened order machine.server peer request.mac random time
          net := some { peer, datagram, info := machine.server.next } }
  | refreshed {peer datagram random time} (id : UInt32) (info : Ptr) (idle : machine.net = none)
      (heard : heartbeatIdentity order machine.server.crypto datagram = some id)
      (known : machine.server.dict.id.find id = some info)
      (asleep : machine.poll.asleep = true) :
      Change order machine (.datagram peer datagram random time)
        { machine with server := machine.server.refreshClient info peer time }
  | registered (pending : Pending) (waiting : machine.net = some pending)
      (asleep : machine.poll.asleep = true) (reading : machine.veth.reading = true) :
      Change order machine .register
        { machine with server := machine.server.registerClient pending.info, net := none }
  | runt {frame clients} (reading : machine.veth.reading = true)
      (short : (frame.take 2000).length < EthernetHeader.sizeof) :
      Change order machine (.frame frame clients) machine
  | framed {frame clients} (reading : machine.veth.reading = true)
      (long : EthernetHeader.sizeof ≤ (frame.take 2000).length)
      (asleep : machine.poll.asleep = true)
      (iterated : clients.Perm (machine.server.dict.mac.entries.map Prod.snd)) :
      Change order machine (.frame frame clients)
        { machine with
          veth := .relay (frame.take 2000)
            (machine.server.frameTargets order (frame.take 2000) clients) }
  | forwarded (frame : Bytes) (info : Ptr) (clients : List Ptr)
      (relaying : machine.veth = .relay frame (info :: clients)) :
      Change order machine .forward { machine with veth := .relay frame clients }
  | finished (frame : Bytes) (relaying : machine.veth = .relay frame []) :
      Change order machine .forward { machine with veth := .read }
  | swept {now entries} (asleep : machine.poll.asleep = true)
      (reading : machine.veth.reading = true)
      (iterated : entries.Perm machine.server.dict.id.entries) :
      Change order machine (.sweep now entries) { machine with poll := .sweep now entries }
  | erased {now entry entries} (at_entry : machine.poll = .sweep now (entry :: entries))
      (expired : machine.server.Expired now entry.2) :
      Change order machine .visit
        { machine with server := machine.server.eraseClient entry
                       poll := .release now entry.2 entries }
  | spared {now entry entries} (at_entry : machine.poll = .sweep now (entry :: entries))
      (alive : ¬ machine.server.Expired now entry.2) :
      Change order machine .visit { machine with poll := .sweep now entries }
  | awoke {now} (at_end : machine.poll = .sweep now []) :
      Change order machine .visit { machine with poll := .sleep }
  | released {now info entries} (at_release : machine.poll = .release now info entries) :
      Change order machine .release
        { machine with server := machine.server.releaseClient info
                       poll := .delete now info entries }
  | deleted {now info entries} (at_delete : machine.poll = .delete now info entries) :
      Change order machine .delete
        { machine with server := machine.server.deleteClient info
                       poll := .sweep now entries }

theorem receive_change {order : ByteOrder} {machine after : Machine} {peer : SockAddr}
    {datagram : Bytes} {random : UInt32} {time : Int} {actions : List Action}
    (idle : machine.net = none)
    (taken : machine.receive order peer datagram random time = some (after, actions)) :
    Change order machine (.datagram peer datagram random time) after := by
  have same : { machine with server := machine.server, net := none } = machine := by
    rw [← idle]
  simp only [receive] at taken
  split at taken
  case h_1 seen =>
      cases taken
      exact .dropped idle (by simp [sessionRequest, seen]) (by simp [heartbeatIdentity, seen])
  case h_2 seen =>
      cases taken
      exact .dropped idle (by simp [sessionRequest, seen]) (by simp [heartbeatIdentity, seen])
  case h_3 id packet length seen =>
      cases taken
      unfold openSession
      by_cases sized : length = StartSession.sizeof
      · cases parsed : StartSession.read order packet with
        | none =>
            simp only [sized, ne_eq, not_true_eq_false, ↓reduceIte, Option.map_none, same]
            exact .dropped idle (by simp [sessionRequest, seen, sized, parsed])
              (by simp [heartbeatIdentity, seen])
        | some request =>
            have asked : sessionRequest order machine.server.crypto datagram = some request := by
              simp [sessionRequest, seen, sized, parsed]
            by_cases exhausted : (machine.server.pool.allocateAddress order).1 = 0
            · simp only [sized, ne_eq, not_true_eq_false, ↓reduceIte, exhausted, Option.map_none]
              rw [← idle]
              exact .refused request idle asked exhausted
            · simp only [sized, ne_eq, not_true_eq_false, ↓reduceIte, exhausted, Option.map_some]
              exact .opened request idle asked exhausted
      · simp only [sized, ne_eq, not_false_eq_true, ↓reduceIte, Option.map_none, same]
        exact .dropped idle (by simp [sessionRequest, seen, sized])
          (by simp [heartbeatIdentity, seen])
  case h_4 id packet length seen =>
      split at taken
      · cases taken
      · rename_i unblocked
        cases taken
        unfold handleHeartbeat
        by_cases sized : length = Heartbeat.sizeof
        · have heard : heartbeatIdentity order machine.server.crypto datagram = some id := by
            simp [heartbeatIdentity, seen, sized]
          have asleep : machine.poll.asleep = true := by simpa [sized] using unblocked
          cases known : machine.server.dict.id.find id with
          | none =>
              simp only [sized, ne_eq, not_true_eq_false, ↓reduceIte]
              exact .dropped idle (by simp [sessionRequest, seen]) (by simp [heard, known])
          | some info =>
              simp only [sized, ne_eq, not_true_eq_false, ↓reduceIte]
              exact .refreshed id info idle heard known asleep
        · simp only [sized, ne_eq, not_false_eq_true, ↓reduceIte]
          exact .dropped idle (by simp [sessionRequest, seen])
            (by simp [heartbeatIdentity, seen, sized])
  case h_5 id packet length seen =>
      split at taken
      · cases taken
      · cases taken
        exact .dropped idle (by simp [sessionRequest, seen]) (by simp [heartbeatIdentity, seen])

theorem next_change {order : ByteOrder} {machine after : Machine} {event : Event}
    (taken : next order machine event = some after) : Change order machine event after := by
  obtain ⟨⟨reached, actions⟩, stepped, rfl⟩ := Option.map_eq_some_iff.mp taken
  cases event with
  | datagram peer datagram random time =>
      simp only [step] at stepped
      split at stepped
      · cases stepped
      · rename_i idle
        exact receive_change (by simpa using idle) stepped
  | register =>
      simp only [step] at stepped
      split at stepped
      · cases stepped
      · rename_i pending waiting
        split at stepped
        · rename_i free
          cases stepped
          simp only [Bool.and_eq_true] at free
          exact .registered pending waiting free.1 free.2
        · cases stepped
  | frame frame clients =>
      simp only [step] at stepped
      split at stepped
      · cases stepped
      rename_i reading
      split at stepped
      · rename_i short
        cases stepped
        exact .runt (by simpa using reading) short
      rename_i long
      split at stepped
      · rename_i free
        cases stepped
        simp only [Bool.and_eq_true, decide_eq_true_eq] at free
        exact .framed (by simpa using reading) (Nat.not_lt.mp long) free.1 free.2
      · cases stepped
  | forward =>
      simp only [step] at stepped
      split at stepped <;> cases stepped
      · exact .forwarded _ _ _ ‹_›
      · exact .finished _ ‹_›
  | sweep now entries =>
      simp only [step] at stepped
      split at stepped
      · rename_i free
        cases stepped
        simp only [Bool.and_eq_true, decide_eq_true_eq] at free
        exact .swept free.1.1 free.1.2 free.2
      · cases stepped
  | visit =>
      simp only [step] at stepped
      split at stepped
      · rename_i now entry entries at_entry
        split at stepped
        · rename_i expired
          cases stepped
          exact .erased at_entry expired
        · rename_i alive
          cases stepped
          exact .spared at_entry alive
      · rename_i at_end
        cases stepped
        exact .awoke at_end
      · cases stepped
  | release =>
      simp only [step] at stepped
      split at stepped <;> cases stepped
      rename_i at_release
      exact .released at_release
  | delete =>
      simp only [step] at stepped
      split at stepped <;> cases stepped
      rename_i at_delete
      exact .deleted at_delete

theorem next_request {order : ByteOrder} {machine : Machine} {datagram : Bytes}
    {request : StartSession} (idle : machine.net = none)
    (asked : sessionRequest order machine.server.crypto datagram = some request)
    (peer : SockAddr) (random : UInt32) (time : Int) :
    next order machine (.datagram peer datagram random time) =
      some (if (machine.server.pool.allocateAddress order).1 = 0 then
        { machine with server := { machine.server with
            pool := (machine.server.pool.allocateAddress order).2 } }
      else
        { machine with
          server := opened order machine.server peer request.mac random time
          net := some { peer, datagram, info := machine.server.next } }) := by
  simp only [sessionRequest] at asked
  split at asked
  · rename_i id packet length seen
    split at asked
    · rename_i sized
      simp only [next, step, receive, idle, seen, Option.isSome_none, Bool.false_eq_true,
        ↓reduceIte, openSession, sized, ne_eq, not_true_eq_false, asked]
      split
      · simp [← idle]
      · simp [opened]
    · cases asked
  · cases asked

theorem next_heartbeat {order : ByteOrder} {machine : Machine} {datagram : Bytes} {id : UInt32}
    {info : Ptr} (idle : machine.net = none) (asleep : machine.poll.asleep = true)
    (heard : heartbeatIdentity order machine.server.crypto datagram = some id)
    (known : machine.server.dict.id.find id = some info)
    (peer : SockAddr) (random : UInt32) (time : Int) :
    next order machine (.datagram peer datagram random time) =
      some { machine with server := machine.server.refreshClient info peer time } := by
  simp only [heartbeatIdentity] at heard
  split at heard
  · rename_i id packet length seen
    split at heard
    · rename_i sized
      cases heard
      simp [next, step, receive, idle, seen, asleep, handleHeartbeat, sized, known]
    · cases heard
  · cases heard

theorem next_register {order : ByteOrder} {machine : Machine} {pending : Pending}
    (waiting : machine.net = some pending) (asleep : machine.poll = .sleep)
    (reading : machine.veth = .read) :
    next order machine .register =
      some { machine with server := machine.server.registerClient pending.info, net := none } := by
  simp [next, step, waiting, asleep, reading, Poll.asleep, Veth.reading]

theorem next_frame (order : ByteOrder) {machine : Machine} {frame : Bytes} {clients : List Ptr}
    (reading : machine.veth = .read) (asleep : machine.poll = .sleep)
    (long : EthernetHeader.sizeof ≤ frame.length) (uncut : frame.length ≤ 2000)
    (iterated : clients.Perm (machine.server.dict.mac.entries.map Prod.snd)) :
    next order machine (.frame frame clients) =
      some { machine with veth := .relay frame (machine.server.frameTargets order frame clients) } := by
  simp [next, step, reading, asleep, Poll.asleep, Veth.reading, List.take_of_length_le uncut,
    Nat.not_lt.mpr long, iterated]

theorem next_sweep (order : ByteOrder) {machine : Machine} {entries : List (UInt32 × Ptr)}
    (asleep : machine.poll = .sleep) (reading : machine.veth = .read)
    (iterated : entries.Perm machine.server.dict.id.entries) (now : Int) :
    next order machine (.sweep now entries) =
      some { machine with poll := .sweep now entries } := by
  simp [next, step, asleep, reading, Poll.asleep, Veth.reading, iterated]

theorem next_visit (order : ByteOrder) {machine : Machine} {now : Int} {entry : UInt32 × Ptr}
    {entries : List (UInt32 × Ptr)} (at_entry : machine.poll = .sweep now (entry :: entries)) :
    next order machine .visit =
      some (if machine.server.Expired now entry.2 then
        { machine with server := machine.server.eraseClient entry
                       poll := .release now entry.2 entries }
      else { machine with poll := .sweep now entries }) := by
  by_cases expired : machine.server.Expired now entry.2 <;> simp [next, step, at_entry, expired]

/-- Reached from the constructor by any interleaving. -/
def Reached (order : ByteOrder) (machine : Machine) : Prop :=
  ∃ mac secret random, Runs.Reachable (next order) (init order mac secret random) machine

theorem reached_next {order : ByteOrder} {machine after : Machine}
    (reached : Reached order machine) (event : Event)
    (taken : next order machine event = some after) : Reached order after := by
  obtain ⟨mac, secret, random, past⟩ := reached
  exact ⟨mac, secret, random, Runs.reachable_next past taken⟩

end Machine

end Muddymask
