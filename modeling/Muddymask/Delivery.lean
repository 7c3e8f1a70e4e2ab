import Muddymask.Relay
import Muddymask.SessionGrant

/-!
A running `TunnelClient` and its server over a network that may lose, delay,
repeat and reorder datagrams, and may bring the client anything from elsewhere,
but nothing under the server's address that the server did not send to it. The
client never asks whether a packet is `kRelayData`. That it still writes relayed
frames and nothing else rests on the sizes: every other packet is too short, and
a frame too long for the buffer no longer has the length it claims.
-/

namespace Muddymask

open Words TunnelServer Machine

/-- The two ends, the frames the server's interface has returned, everything the
server has sent, and everything the client has written. -/
structure Tunnel where
  machine : Machine
  client : TunnelClient
  read : List Bytes
  sent : List Sent
  written : List Bytes

namespace Tunnel

inductive Event where
  | server (event : Muddymask.Event)
  | deliver (index : Nat)
  | stray (peer : SockAddr) (datagram : Bytes)

def start (machine : Machine) (client : TunnelClient) : Tunnel :=
  { machine, client, read := [], sent := [], written := [] }

def reads : Muddymask.Event → List Bytes
  | .frame frame _ => [frame.take 2000]
  | _ => []

/-- The client's network thread with a datagram. It has left its loop once `stop` is set. -/
def receive (order : ByteOrder) (state : Tunnel) (peer : SockAddr) (datagram : Bytes) :
    Option Tunnel :=
  if state.client.stop then none
  else
    let handled := state.client.handleNetworkDatagram order peer datagram
    some { state with client := handled.1, written := state.written ++ writes handled.2 }

/-- `own` is the client's address. -/
def step (order : ByteOrder) (own : SockAddr) (state : Tunnel) : Event → Option Tunnel
  | .server event => (state.machine.step order event).map fun result =>
      { state with machine := result.1, read := state.read ++ reads event
                   sent := state.sent ++ Exchange.sends state.machine event result.2 }
  | .deliver index => match state.sent[index]? with
      | some sent =>
          if sent.address = own then state.receive order state.client.server sent.data else none
      | none => none
  | .stray peer datagram =>
      if state.client.validDataSource peer then none else state.receive order peer datagram

/-- `sent` is a frame on its way to `own`, straight from `broadcastEthernetFrame`
or `unicastEthernetFrame`. -/
def Relays (order : ByteOrder) (own : SockAddr) (sent : Sent) (frame : Bytes) : Prop :=
  sent.address = own ∧ sent.event = .forward ∧
    sent.data = sent.machine.server.relayPacket order frame ∧
    ∃ info clients, sent.machine.veth = .relay frame (info :: clients) ∧
      (sent.machine.server.client info).address = own

/-- Every byte string the client wrote is a frame that the server's interface
returned and that the server relayed to this client. -/
def NothingInvented (order : ByteOrder) (own : SockAddr) (state : Tunnel) : Prop :=
  ∀ data ∈ state.written, data ∈ state.read ∧ ∃ sent ∈ state.sent, Relays order own sent data

def Returned (read : List Bytes) (machine : Machine) : Prop :=
  ∀ frame clients, machine.veth = .relay frame clients → frame ∈ read ∧ frame.length ≤ 2000

structure Genuine (order : ByteOrder) (own : SockAddr) (crypto : DummyCrypto) (state : Tunnel) :
    Prop where
  key : state.machine.server.crypto = crypto
  clientKey : state.client.crypto = crypto
  relaying : Returned state.read state.machine
  keys : ∀ sent ∈ state.sent, sent.machine.server.crypto = crypto
  taken : ∀ sent ∈ state.sent, ∃ result, sent.machine.step order sent.event = some result ∧
    .send sent.address sent.data ∈ result.2
  relayed : ∀ sent ∈ state.sent, Returned state.read sent.machine
  nothingInvented : NothingInvented order own state

theorem genuine_start {order : ByteOrder} {own : SockAddr} (client : TunnelClient)
    (mac : { mac : Bytes // mac.length = 6 }) (secret : Bytes) (random : UInt32)
    (key : client.crypto = DummyCrypto.new order secret) :
    Genuine order own (DummyCrypto.new order secret) (start (init order mac secret random) client) where
  key := rfl
  clientKey := key
  relaying := by simp [start, init, Returned]
  keys := by simp [start]
  taken := by simp [start]
  relayed := by simp [start]
  nothingInvented := by simp [start, NothingInvented]

theorem returned_mono {read more : List Bytes} {machine : Machine} (returned : Returned read machine) :
    Returned (read ++ more) machine := fun frame clients relaying =>
  ⟨List.mem_append_left _ (returned frame clients relaying).1, (returned frame clients relaying).2⟩

theorem returned_change {order : ByteOrder} {before after : Machine} {event : Muddymask.Event}
    {read : List Bytes} (returned : Returned read before)
    (change : Change order before event after) : Returned (read ++ reads event) after := by
  cases change with
  | @framed frame clients =>
      intro held targets relaying
      cases relaying
      exact ⟨List.mem_append_right _ (List.mem_singleton_self _), by simp⟩
  | forwarded frame info clients relayed =>
      intro held targets relaying
      cases relaying
      exact returned_mono returned _ _ relayed
  | finished =>
      intro held targets relaying
      cases relaying
  | _ => exact returned_mono returned

theorem genuine_server {order : ByteOrder} {own : SockAddr} {crypto : DummyCrypto} {state : Tunnel}
    (genuine : Genuine order own crypto state) {event : Muddymask.Event}
    {result : Machine × List Action} (stepped : state.machine.step order event = some result) :
    Genuine order own crypto { state with
      machine := result.1, read := state.read ++ reads event
      sent := state.sent ++ Exchange.sends state.machine event result.2 } := by
  obtain ⟨after, actions⟩ := result
  have change : Change order state.machine event after :=
    next_change (by simp [Machine.next, stepped])
  have origin : ∀ sent ∈ Exchange.sends state.machine event actions,
      sent.machine = state.machine ∧
        sent.machine.step order sent.event = some (after, actions) ∧
        .send sent.address sent.data ∈ actions := by
    intro sent new
    obtain ⟨machine, same, performed⟩ := Exchange.mem_sends new
    exact ⟨machine, by rw [machine, same]; exact stepped, performed⟩
  refine { key := ?_, clientKey := genuine.clientKey
           relaying := returned_change genuine.relaying change, keys := ?_, taken := ?_
           relayed := ?_, nothingInvented := ?_ }
  · refine Eq.trans ?_ genuine.key
    cases change <;> rfl
  · intro sent member
    rcases List.mem_append.mp member with old | new
    · exact genuine.keys sent old
    · rw [(origin sent new).1]
      exact genuine.key
  · intro sent member
    rcases List.mem_append.mp member with old | new
    · exact genuine.taken sent old
    · exact ⟨_, (origin sent new).2⟩
  · intro sent member
    rcases List.mem_append.mp member with old | new
    · exact returned_mono (genuine.relayed sent old)
    · rw [(origin sent new).1]
      exact returned_mono genuine.relaying
  · intro data wrote
    obtain ⟨returned, sent, member, relays⟩ := genuine.nothingInvented data wrote
    exact ⟨List.mem_append_left _ returned, sent, List.mem_append_left _ member, relays⟩

/-- What the client does with a packet of the server: only a relayed frame is written. -/
theorem written_of_sent {order : ByteOrder} {own : SockAddr} {crypto : DummyCrypto}
    {state : Tunnel} (genuine : Genuine order own crypto state) {sent : Sent}
    (member : sent ∈ state.sent) (address : sent.address = own)
    (valid : state.client.validDataSource state.client.server = true) {data : Bytes}
    (wrote : data ∈ writes
      (state.client.handleNetworkDatagram order state.client.server sent.data).2) :
    data ∈ state.read ∧ Relays order own sent data := by
  have key : state.client.crypto = sent.machine.server.crypto :=
    genuine.clientKey.trans (genuine.keys sent member).symm
  obtain ⟨result, stepped, performed⟩ := genuine.taken sent member
  rcases step_send stepped performed with ⟨_, _, _, _, same⟩ | ⟨_, _, _, _, _, same⟩ |
    ⟨frame, info, clients, forward, relaying, target, same⟩
  · -- a `SessionInfo` is shorter than an `EthernetHeader`
    simp only [sendSessionInfo, Action.send.injEq, true_and] at same
    rw [same, TunnelClient.handle_packet order _ _ key _ valid _ _
      (by rw [SessionInfo.encode_length]; decide), SessionInfo.encode_length,
      if_neg (by decide), if_neg (by decide)] at wrote
    cases wrote
  · -- an error ends the thread
    simp only [sendErrorCode, Action.send.injEq, true_and] at same
    rw [same, TunnelClient.handle_packet order _ _ key _ valid _ _
      (by rw [ErrorDetail.encode_length]; decide), if_pos rfl] at wrote
    cases wrote
  · obtain ⟨returned, bounded⟩ := genuine.relayed sent member frame _ relaying
    rw [same, relayed_written order _ _ key _ valid frame bounded] at wrote
    have only : data = frame := by
      by_cases fits : EthernetHeader.sizeof ≤ frame.length ∧ frame.length ≤ 1992
      · simpa [fits, writes] using wrote
      · simp [fits, writes] at wrote
    subst only
    exact ⟨returned, address, forward, same, info, clients, relaying, target.trans address⟩

theorem genuine_receive {order : ByteOrder} {own : SockAddr} {crypto : DummyCrypto}
    {state after : Tunnel} (genuine : Genuine order own crypto state) {peer : SockAddr}
    {datagram : Bytes} (received : state.receive order peer datagram = some after)
    (justified : ∀ data ∈ writes (state.client.handleNetworkDatagram order peer datagram).2,
      data ∈ state.read ∧ ∃ sent ∈ state.sent, Relays order own sent data) :
    Genuine order own crypto after := by
  simp only [receive] at received
  split at received
  · cases received
  · cases received
    exact { genuine with
      clientKey := (TunnelClient.handle_crypto ..).trans genuine.clientKey
      nothingInvented := by
        intro data wrote
        rcases List.mem_append.mp wrote with old | new
        · exact genuine.nothingInvented data old
        · exact justified data new }

theorem genuine_step {order : ByteOrder} {own : SockAddr} {crypto : DummyCrypto}
    {state after : Tunnel} (genuine : Genuine order own crypto state) {event : Event}
    (taken : step order own state event = some after) : Genuine order own crypto after := by
  cases event with
  | server event =>
      obtain ⟨result, stepped, rfl⟩ := Option.map_eq_some_iff.mp taken
      exact genuine_server genuine stepped
  | deliver index =>
      simp only [step] at taken
      split at taken
      · rename_i sent found
        split at taken
        · rename_i address
          refine genuine_receive genuine taken fun data wrote => ?_
          have member := List.mem_of_getElem? found
          -- A client whose server is no `AF_INET` address hears nobody at all.
          cases valid : state.client.validDataSource state.client.server with
          | false =>
              rw [TunnelClient.handle_foreign order state.client valid] at wrote
              cases wrote
          | true =>
              obtain ⟨returned, relays⟩ := written_of_sent genuine member address valid wrote
              exact ⟨returned, sent, member, relays⟩
        · cases taken
      · cases taken
  | stray peer datagram =>
      simp only [step] at taken
      split at taken
      · cases taken
      · rename_i foreign
        refine genuine_receive genuine taken fun data wrote => ?_
        rw [TunnelClient.handle_foreign order state.client (by simpa using foreign)] at wrote
        cases wrote

/-- In every run of a client and a server with its key, in every state it
visits, the client has written nothing but frames relayed to it. -/
theorem nothing_invented (order : ByteOrder) (mac : { mac : Bytes // mac.length = 6 })
    (secret : Bytes) (random : UInt32) (client : TunnelClient)
    (key : client.crypto = DummyCrypto.new order secret) (own : SockAddr) (events : List Event) :
    Runs.Always (step order own) (NothingInvented order own)
      (start (init order mac secret random) client) events := by
  refine Runs.always_mono (Genuine order own (DummyCrypto.new order secret)) _
    (fun state genuine => genuine.nothingInvented) _ _ ?_
  refine Runs.always_of_along (Genuine order own (DummyCrypto.new order secret))
    (fun _ _ => True) (fun before event after genuine _ taken => genuine_step genuine taken) _ _
    (genuine_start client mac secret random key) ?_
  exact Runs.along_of_forall _ _ _ fun _ _ _ => trivial

/-- A session, a frame to everybody, and its datagram twice at the client with
the late answer to the request in between. -/
def plainDeliveries : List Event :=
  let frame := Muddymask.Event.frame (plainBroadcast 60) [0]
  (plainSession 7 11 0 ++ [frame, .forward]).map .server ++ [.deliver 1, .deliver 0, .deliver 1]

theorem nothing_invented_repeated :
    Runs.Always (step .little plainPeer) (NothingInvented .little plainPeer)
      (start plainServer plainClient) plainDeliveries :=
  nothing_invented .little _ _ _ plainClient (by decide +kernel) plainPeer _

/-- There the client does write, and the answer makes no difference. -/
example : (Runs.run (step .little plainPeer) (start plainServer plainClient)
    plainDeliveries).map written = some [plainBroadcast 60, plainBroadcast 60] := by
  decide +kernel

end Tunnel

end Muddymask
