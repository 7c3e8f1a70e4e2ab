import Muddymask.Client
import Muddymask.Establishment

/-!
A client in `startSession` and a server over a network that may lose, delay,
repeat and reorder datagrams but makes none up. The client takes any 24 bytes
that arrive for an answer, and `recvfrom` cuts a longer datagram to just that
length, so a relayed frame that overtakes the answer becomes a session. As long
as no relayed frame is delivered, what the client adopts was granted to it.
-/

namespace Muddymask

open Words TunnelServer Machine

/-! What is sent, and from which function. -/

section Sends
variable {order : ByteOrder} {server : TunnelServer} {peer address : SockAddr} {data : Bytes}

theorem relayData_send {id : UInt32} {packet : Bytes} {length : Nat}
    (sent : .send address data ∈ server.relayData order peer id packet length) :
    Action.send address data = server.sendErrorCode order peer .kRestartSession := by
  simp only [relayData] at sent
  split at sent
  · cases sent
  split at sent
  · exact List.mem_singleton.mp sent
  split at sent
  · cases sent
  split at sent
  · cases sent
  · cases List.mem_singleton.mp sent

theorem handleHeartbeat_send {id : UInt32} {length : Nat} {time : Int}
    (sent : .send address data ∈ (server.handleHeartbeat order peer id length time).2) :
    Action.send address data = server.sendErrorCode order peer .kRestartSession := by
  simp only [handleHeartbeat] at sent
  split at sent
  · cases sent
  split at sent
  · exact List.mem_singleton.mp sent
  · cases sent

theorem receive_send {machine after : Machine} {datagram : Bytes} {random : UInt32} {time : Int}
    {actions : List Action}
    (taken : machine.receive order peer datagram random time = some (after, actions))
    (sent : .send address data ∈ actions) :
    ∃ code, Action.send address data = machine.server.sendErrorCode order peer code := by
  simp only [receive] at taken
  split at taken
  · cases taken
    cases sent
  · cases taken
    exact ⟨_, List.mem_singleton.mp sent⟩
  · cases taken
    cases sent
  · split at taken <;> cases taken
    exact ⟨_, handleHeartbeat_send sent⟩
  · split at taken <;> cases taken
    exact ⟨_, relayData_send sent⟩

end Sends

/-- The three kinds of sections that send. -/
theorem step_send {order : ByteOrder} {machine after : Machine} {event : Event}
    {actions : List Action} (taken : machine.step order event = some (after, actions))
    {address : SockAddr} {data : Bytes} (sent : .send address data ∈ actions) :
    (∃ pending, event = .register ∧ machine.net = some pending ∧ pending.peer = address ∧
      Action.send address data = machine.server.sendSessionInfo order address
        (machine.server.client pending.info).identity
        (machine.server.client pending.info).tun.ip) ∨
    (∃ datagram random time code, event = .datagram address datagram random time ∧
      Action.send address data = machine.server.sendErrorCode order address code) ∨
    ∃ frame info clients, event = .forward ∧ machine.veth = .relay frame (info :: clients) ∧
      (machine.server.client info).address = address ∧
      data = machine.server.relayPacket order frame := by
  cases event with
  | datagram peer datagram random time =>
      refine Or.inr (Or.inl ?_)
      simp only [step] at taken
      split at taken
      · cases taken
      obtain ⟨code, same⟩ := receive_send taken sent
      obtain ⟨rfl, _⟩ := Action.send.inj same
      exact ⟨_, _, _, code, rfl, same⟩
  | register =>
      refine Or.inl ?_
      simp only [step] at taken
      split at taken
      · cases taken
      · rename_i pending waiting
        split at taken <;> cases taken
        have same := List.mem_singleton.mp sent
        obtain ⟨rfl, _⟩ := Action.send.inj same
        exact ⟨pending, rfl, waiting, rfl, same⟩
  | forward =>
      refine Or.inr (Or.inr ?_)
      simp only [step] at taken
      split at taken
      · rename_i frame info clients relaying
        cases taken
        cases List.mem_singleton.mp sent
        exact ⟨frame, info, clients, rfl, relaying, rfl, rfl⟩
      · cases taken
        simp at sent
      · cases taken
  | frame frame clients =>
      simp only [step] at taken
      split at taken
      · cases taken
      split at taken
      · cases taken
        simp at sent
      split at taken <;> cases taken
      simp at sent
  | sweep now entries =>
      simp only [step] at taken
      split at taken <;> cases taken
      simp at sent
  | visit =>
      simp only [step] at taken
      split at taken
      · split at taken <;> cases taken <;> simp at sent
      · cases taken
        simp at sent
      · cases taken
  | release =>
      simp only [step] at taken
      split at taken <;> cases taken
      simp at sent
  | delete =>
      simp only [step] at taken
      split at taken <;> cases taken
      simp at sent

/-- Where the client stands in `startSession`: before the send of its try `i`,
in the `recv` after it, or at a `return`. -/
inductive Phase where
  | sending (i : Nat)
  | waiting (i : Nat)
  | returned (info : Option SessionInfo)
  deriving DecidableEq

/-- The end of the loop body for an answer that is none, and for one that is. -/
def Phase.after (i : Nat) : Option SessionInfo → Phase
  | some info => .returned (some info)
  | none => if i + 1 < 3 then .sending (i + 1) else .returned none

structure Sent where
  machine : Machine
  event : Event
  address : SockAddr
  data : Bytes

/-- The server, the client and everything either has sent so far. The network
delivers copies of these in any order and at any time, or never. -/
structure Exchange where
  machine : Machine
  phase : Phase
  requests : List Bytes
  sent : List Sent

namespace Exchange

inductive Event where
  | server (event : Muddymask.Event)
  | send
  | deliver (index : Nat)
  | silence

def start (machine : Machine) : Exchange :=
  { machine, phase := .sending 0, requests := [], sent := [] }

/-- Nobody but the client sends from its address; what others send is arbitrary. -/
def genuine (client : SockAddr) (requests : List Bytes) : Muddymask.Event → Bool
  | .datagram peer datagram _ _ => decide (peer = client → datagram ∈ requests)
  | _ => true

def sends (machine : Machine) (event : Muddymask.Event) (actions : List Action) : List Sent :=
  actions.filterMap fun action => match action with
    | .send address data => some ⟨machine, event, address, data⟩
    | .write _ => none

/-- `request` is the encrypted request, the same in each try. A `recv` that
times out or fails is `silence`. -/
def step (order : ByteOrder) (client : SockAddr) (request : Bytes) (state : Exchange) :
    Event → Option Exchange
  | .server event =>
      if genuine client state.requests event then
        (state.machine.step order event).map fun result =>
          { state with machine := result.1
                       sent := state.sent ++ sends state.machine event result.2 }
      else none
  | .send => match state.phase with
      | .sending i => some { state with phase := .waiting i, requests := request :: state.requests }
      | _ => none
  | .deliver index => match state.phase, state.sent[index]? with
      | .waiting i, some sent =>
          if sent.address = client then
            let received := recv sent.data Client.responseSize
            some { state with phase := .after i (Client.response order received) }
          else none
      | _, _ => none
  | .silence => match state.phase with
      | .waiting i => some { state with phase := .after i none }
      | _ => none

/-- `info` is what `sendSessionInfo` sent to the client in answer to a request of its. -/
def Granted (order : ByteOrder) (client : SockAddr) (state : Exchange) (info : SessionInfo) : Prop :=
  ∃ sent ∈ state.sent, ∃ pending, sent.event = .register ∧ sent.machine.net = some pending ∧
    pending.peer = client ∧ pending.datagram ∈ state.requests ∧ sent.address = client ∧
    .send sent.address sent.data =
      sent.machine.server.sendSessionInfo order client info.identity info.address ∧
    info = { identity := (sent.machine.server.client pending.info).identity
             address := (sent.machine.server.client pending.info).tun.ip
             gateway := sent.machine.server.config.gateway
             netmask := sent.machine.server.config.netmask }

/-- No relayed frame is delivered to the client. -/
def Unrelayed (state : Exchange) (event : Event) : Prop :=
  ∀ index sent, event = .deliver index → state.sent[index]? = some sent → sent.event ≠ .forward

/-- What is known of the datagrams in the network and of the request in progress. -/
structure Honest (order : ByteOrder) (client : SockAddr) (crypto : DummyCrypto)
    (state : Exchange) : Prop where
  reached : Reached order state.machine
  key : state.machine.server.crypto = crypto
  pending : ∀ pending, state.machine.net = some pending → pending.peer = client →
    pending.datagram ∈ state.requests
  origins : ∀ sent ∈ state.sent, Reached order sent.machine
  keys : ∀ sent ∈ state.sent, sent.machine.server.crypto = crypto
  taken : ∀ sent ∈ state.sent, ∃ result, sent.machine.step order sent.event = some result ∧
    .send sent.address sent.data ∈ result.2
  requested : ∀ sent ∈ state.sent, ∀ pending, sent.event = .register →
    sent.machine.net = some pending → pending.peer = client → pending.datagram ∈ state.requests

theorem honest_start {order : ByteOrder} {client : SockAddr} {crypto : DummyCrypto}
    {machine : Machine} (reached : Reached order machine) (key : machine.server.crypto = crypto)
    (fresh : ∀ pending, machine.net = some pending → pending.peer ≠ client) :
    Honest order client crypto (start machine) where
  reached := reached
  key := key
  pending := fun pending waiting peer => absurd peer (fresh pending waiting)
  origins := by simp [start]
  keys := by simp [start]
  taken := by simp [start]
  requested := by simp [start]

theorem mem_sends {machine : Machine} {event : Muddymask.Event} {actions : List Action}
    {sent : Sent} (member : sent ∈ sends machine event actions) :
    sent.machine = machine ∧ sent.event = event ∧ .send sent.address sent.data ∈ actions := by
  obtain ⟨action, performed, same⟩ := List.mem_filterMap.mp member
  cases action with
  | send address data =>
      cases same
      exact ⟨rfl, rfl, performed⟩
  | write data => cases same

/-- A request in progress was there before, or the datagram just received is it. -/
theorem pending_change {order : ByteOrder} {before after : Machine} {event : Muddymask.Event}
    (change : Change order before event after) {pending : Pending}
    (waiting : after.net = some pending) :
    before.net = some pending ∨ ∃ random time,
      event = .datagram pending.peer pending.datagram random time := by
  cases change with
  | opened =>
      cases waiting
      exact Or.inr ⟨_, _, rfl⟩
  | registered => cases waiting
  | _ => exact Or.inl waiting

theorem honest_server {order : ByteOrder} {client : SockAddr} {crypto : DummyCrypto}
    {state : Exchange} (honest : Honest order client crypto state) {event : Muddymask.Event}
    {result : Machine × List Action} (stepped : state.machine.step order event = some result)
    (allowed : genuine client state.requests event = true) :
    Honest order client crypto
      { state with machine := result.1, sent := state.sent ++ sends state.machine event result.2 } := by
  obtain ⟨after, actions⟩ := result
  have moved : Machine.next order state.machine event = some after := by
    simp [Machine.next, stepped]
  have change := next_change moved
  refine { reached := ?_, key := ?_, pending := ?_, origins := ?_, keys := ?_, taken := ?_
           requested := ?_ }
  · obtain ⟨mac, secret, random, past⟩ := honest.reached
    exact ⟨mac, secret, random, Runs.reachable_next past moved⟩
  · refine Eq.trans ?_ honest.key
    cases change <;> rfl
  · intro pending waiting peer
    rcases pending_change change waiting with old | ⟨random, time, rfl⟩
    · exact honest.pending pending old peer
    · exact of_decide_eq_true allowed peer
  · intro sent member
    rcases List.mem_append.mp member with old | new
    · exact honest.origins sent old
    · rw [(mem_sends new).1]
      exact honest.reached
  · intro sent member
    rcases List.mem_append.mp member with old | new
    · exact honest.keys sent old
    · rw [(mem_sends new).1]
      exact honest.key
  · intro sent member
    rcases List.mem_append.mp member with old | new
    · exact honest.taken sent old
    · obtain ⟨machine, same, performed⟩ := mem_sends new
      rw [machine, same]
      exact ⟨(after, actions), stepped, performed⟩
  · intro sent member pending register waiting peer
    -- What is sent now answers the request that was in progress before the step.
    rcases List.mem_append.mp member with old | new
    · exact honest.requested sent old pending register waiting peer
    · rw [(mem_sends new).1] at waiting
      exact honest.pending pending waiting peer

theorem honest_client {order : ByteOrder} {client : SockAddr} {crypto : DummyCrypto}
    {state : Exchange} (honest : Honest order client crypto state) (phase : Phase)
    (requests : List Bytes) (grows : ∀ request ∈ state.requests, request ∈ requests) :
    Honest order client crypto { state with phase, requests } where
  reached := honest.reached
  key := honest.key
  pending := fun pending waiting peer => grows _ (honest.pending pending waiting peer)
  origins := honest.origins
  keys := honest.keys
  taken := honest.taken
  requested := fun sent member pending register waiting peer =>
    grows _ (honest.requested sent member pending register waiting peer)

theorem response_error (order : ByteOrder) (server : TunnelServer) (address : SockAddr)
    (code : ErrorCode) (data : Bytes)
    (sent : Action.send address data = server.sendErrorCode order address code) :
    Client.response order (recv data Client.responseSize) = none := by
  simp only [sendErrorCode, Action.send.injEq, true_and] at sent
  have size : data.length = PacketHeader.sizeof + ErrorDetail.sizeof := by
    rw [sent, packet_length, ErrorDetail.encode_length]
  have short : (recv data Client.responseSize).length ≠ Client.responseSize := by
    rw [recv, List.length_take, size]
    decide
  rw [Client.response, if_neg short]

/-- The answer a client adopts is the one it was granted. -/
theorem granted_of_response {order : ByteOrder} {client : SockAddr} {state : Exchange}
    (honest : Honest order client (DummyCrypto.new order Client.secret) state) {sent : Sent}
    (member : sent ∈ state.sent) (address : sent.address = client)
    (unrelayed : sent.event ≠ .forward) {info : SessionInfo}
    (answer : Client.response order (recv sent.data Client.responseSize) = some info) :
    Granted order client state info := by
  obtain ⟨result, stepped, performed⟩ := honest.taken sent member
  rcases step_send stepped performed with ⟨pending, register, waiting, peer, same⟩ |
    ⟨_, _, _, code, _, same⟩ | ⟨_, _, _, forward, _⟩
  · have request := honest.requested sent member pending register waiting (peer.trans address)
    have data := same
    simp only [sendSessionInfo, Action.send.injEq, true_and] at data
    rw [data, Client.response_sessionInfo order sent.machine.server _ (honest.keys sent member)]
      at answer
    cases answer
    rw [address] at same peer
    exact ⟨sent, member, pending, register, waiting, peer, request, address, address ▸ same, rfl⟩
  · rw [response_error order sent.machine.server sent.address code sent.data same] at answer
    cases answer
  · exact absurd forward unrelayed

theorem granted_mono {order : ByteOrder} {client : SockAddr} {state after : Exchange}
    {info : SessionInfo} (granted : Granted order client state info)
    (sentGrows : ∀ sent ∈ state.sent, sent ∈ after.sent)
    (requestsGrow : ∀ request ∈ state.requests, request ∈ after.requests) :
    Granted order client after info := by
  obtain ⟨sent, member, pending, register, waiting, peer, request, rest⟩ := granted
  exact ⟨sent, sentGrows sent member, pending, register, waiting, peer, requestsGrow _ request, rest⟩

theorem relay_long {order : ByteOrder} {machine : Machine} (reached : Reached order machine)
    {frame : Bytes} {clients : List Ptr} (relaying : machine.veth = .relay frame clients) :
    EthernetHeader.sizeof ≤ frame.length := by
  obtain ⟨mac, secret, random, run⟩ := reached
  have long := Runs.reachable_induct
    (fun machine => ∀ frame clients, machine.veth = .relay frame clients →
      EthernetHeader.sizeof ≤ frame.length) run (by simp [init]) ?_
  · exact long frame clients relaying
  · intro before event after _ ih taken frame clients relaying
    cases next_change taken with
    | framed reading long =>
        cases relaying
        exact long
    | forwarded frame info clients relayed =>
        cases relaying
        exact ih _ _ relayed
    | finished => cases relaying
    | _ => exact ih frame clients relaying

/-- The defect: a relayed frame that reaches the waiting client is always taken
for an answer, and its first sixteen bytes for the session. -/
theorem relayed_adopted {order : ByteOrder} {client : SockAddr} {request : Bytes}
    {state : Exchange}
    (honest : Honest order client (DummyCrypto.new order Client.secret) state) {i index : Nat}
    {sent : Sent} (waiting : state.phase = .waiting i) (found : state.sent[index]? = some sent)
    (address : sent.address = client) (relayed : sent.event = .forward) :
    ∃ frame clients info, sent.machine.veth = .relay frame clients ∧
      SessionInfo.read order frame = some info ∧
      step order client request state (.deliver index) =
        some { state with phase := .returned (some info) } := by
  have member := List.mem_of_getElem? found
  obtain ⟨result, stepped, performed⟩ := honest.taken sent member
  rcases step_send stepped performed with ⟨_, register, _⟩ | ⟨_, _, _, _, datagram, _⟩ |
    ⟨frame, first, clients, _, relaying, _, data⟩
  · cases relayed.symm.trans register
  · cases relayed.symm.trans datagram
  · have long := relay_long (honest.origins sent member) relaying
    obtain ⟨info, parsed⟩ := SessionInfo.read_isSome order frame (by
      simp only [EthernetHeader.sizeof] at long
      simp only [SessionInfo.sizeof]
      omega)
    have answer := Client.response_relayPacket order sent.machine.server frame
      (honest.keys sent member) long
    refine ⟨frame, first :: clients, info, relaying, parsed, ?_⟩
    simp only [step, waiting, found, address, ↓reduceIte, data, answer, parsed]
    rfl

/-- Nothing was made up, and what the client has adopted was granted. -/
structure Safe (order : ByteOrder) (client : SockAddr) (state : Exchange) : Prop where
  honest : Honest order client (DummyCrypto.new order Client.secret) state
  granted : ∀ info, state.phase = .returned (some info) → Granted order client state info

theorem after_none (i : Nat) (info : SessionInfo) : Phase.after i none ≠ .returned (some info) := by
  simp only [Phase.after]
  split <;> simp

theorem safe_step {order : ByteOrder} {client : SockAddr} {request : Bytes}
    {state next : Exchange} {event : Event} (safe : Safe order client state)
    (unrelayed : Unrelayed state event)
    (taken : step order client request state event = some next) : Safe order client next := by
  cases event with
  | server event =>
      simp only [step] at taken
      split at taken
      · rename_i allowed
        obtain ⟨result, stepped, rfl⟩ := Option.map_eq_some_iff.mp taken
        refine ⟨honest_server safe.honest stepped allowed, fun info adopted => ?_⟩
        exact granted_mono (safe.granted info adopted)
          (fun _ member => List.mem_append_left _ member) (fun _ => id)
      · cases taken
  | send =>
      simp only [step] at taken
      split at taken <;> cases taken
      refine ⟨honest_client safe.honest _ _ fun _ => List.mem_cons_of_mem _, fun info adopted => ?_⟩
      cases adopted
  | deliver index =>
      simp only [step] at taken
      split at taken
      · rename_i i sent waiting found
        split at taken
        · rename_i address
          cases taken
          have honest := honest_client safe.honest
            (.after i (Client.response order (recv sent.data Client.responseSize)))
            state.requests fun _ => id
          refine ⟨honest, fun info adopted => ?_⟩
          have member := List.mem_of_getElem? found
          cases answer : Client.response order (recv sent.data Client.responseSize) with
          | none =>
              simp only [answer] at adopted
              exact absurd adopted (after_none i info)
          | some other =>
              simp only [answer, Phase.after, Phase.returned.injEq, Option.some.injEq] at adopted
              subst adopted
              have granted := granted_of_response safe.honest member address
                (unrelayed index sent rfl found) answer
              exact granted_mono granted (fun _ => id) (fun _ => id)
        · cases taken
      · cases taken
  | silence =>
      simp only [step] at taken
      split at taken <;> cases taken
      exact ⟨honest_client safe.honest _ _ fun _ => id,
        fun info adopted => absurd adopted (after_none _ info)⟩

/-- In every run in which no relayed frame is delivered to the client before it
has its answer, every session it adopts was granted to it. -/
theorem adopted_was_granted (order : ByteOrder) (machine : Machine) (reached : Reached order machine)
    (key : machine.server.crypto = DummyCrypto.new order Client.secret) (client : SockAddr)
    (mac : MacAddress) (fresh : ∀ pending, machine.net = some pending → pending.peer ≠ client)
    (events : List Event)
    (unrelayed : Runs.Along (step order client (Client.request order mac)) Unrelayed
      (start machine) events) :
    Runs.Always (step order client (Client.request order mac))
      (fun state => ∀ info, state.phase = .returned (some info) → Granted order client state info)
      (start machine) events := by
  refine Runs.always_mono (Safe order client) _ (fun state safe => safe.granted) _ _ ?_
  refine Runs.always_of_along (Safe order client) Unrelayed
    (fun before event after safe allowed taken => safe_step safe allowed taken) _ _
    ⟨honest_start reached key fresh, ?_⟩ unrelayed
  simp [start]

def plainHonest : Machine := init .little ⟨[2, 0, 0, 0, 0, 2], rfl⟩ Client.secret 5

def plainStep : Exchange → Event → Option Exchange :=
  step .little plainPeer (Client.request .little (plainMac 7))

def plainGrant : List Event :=
  [.send, .server (.datagram plainPeer (Client.request .little (plainMac 7)) 11 0), .server .register]

def registers (event : Muddymask.Event) : Bool :=
  match event with
  | .register => true
  | _ => false

theorem adopted_was_granted_once :
    Runs.Always plainStep
      (fun state => ∀ info, state.phase = .returned (some info) →
        Granted .little plainPeer state info)
      (start plainHonest) (plainGrant ++ [.deliver 0]) := by
  have computed : (Runs.run plainStep (start plainHonest) plainGrant).map
      (fun state => state.sent.map fun sent => registers sent.event) = some [true] := by
    decide +kernel
  obtain ⟨state, past, registered⟩ := Option.map_eq_some_iff.mp computed
  refine adopted_was_granted .little plainHonest ⟨_, _, _, Runs.reachable_start _⟩ rfl plainPeer
    (plainMac 7) (by simp [plainHonest, init]) _ ((Runs.along_concat _ _ state _ _ past).mpr ⟨?_, ?_⟩)
  · exact Runs.along_of_forall _ _ _ (by simp [plainGrant, Unrelayed])
  · intro index sent deliver found forward
    cases deliver
    have kind := congrArg (fun kinds : List Bool => kinds[0]?) registered
    simp [found, forward, registers] at kind

/-- A broadcast frame that the server relays to its new client overtakes the
answer: the client adopts `255.255.255.255` and an identity nobody drew. -/
theorem adopted_was_granted_fails : ∃ state info,
    Runs.run plainStep (start plainHonest)
      (plainGrant ++ [.server (.frame (List.replicate 18 255) [0]), .server .forward, .deliver 1]) =
        some state ∧
      state.phase = .returned (some info) ∧ ¬ Granted .little plainPeer state info := by
  have computed : (Runs.run plainStep (start plainHonest)
      (plainGrant ++ [.server (.frame (List.replicate 18 255) [0]), .server .forward,
        .deliver 1])).map (fun state => (state.phase, state.sent.map fun sent =>
          (registers sent.event,
            sent.machine.net.map fun pending => (sent.machine.server.client pending.info).identity))) =
      some (.returned (some ⟨0xFFFFFFFF, 0xFFFFFFFF, 0xFFFFFFFF, 0xFFFFFFFF⟩),
        [(true, some 11), (false, none)]) := by
    decide +kernel
  obtain ⟨state, past, seen⟩ := Option.map_eq_some_iff.mp computed
  simp only [Prod.mk.injEq] at seen
  refine ⟨state, _, past, seen.1, ?_⟩
  rintro ⟨sent, member, pending, register, waiting, _, _, _, _, same⟩
  have listed := List.mem_map_of_mem (f := fun sent : Sent => (registers sent.event,
    sent.machine.net.map fun pending => (sent.machine.server.client pending.info).identity)) member
  rw [seen.2] at listed
  simp only [register, registers, waiting, Option.map_some, List.mem_cons, Prod.mk.injEq,
    Option.some.injEq, true_and, reduceCtorEq, and_false, List.not_mem_nil, or_false] at listed
  have identity := congrArg SessionInfo.identity same
  simp [listed] at identity

end Exchange

end Muddymask
