import Mathlib.Data.Fintype.Basic
import Muddymask.Delivery
import Muddymask.Station

/-!
One server and any number of client processes over a network that may lose,
delay, repeat and reorder datagrams. Nobody but a host sends under its address,
and under the server's address a host hears nothing but what the server has sent
it. Everything else is arbitrary: strangers may send the server and the hosts
whatever they like. All hosts and the server have one key.
-/

namespace Muddymask

open Words TunnelServer Machine

/-- The server and the client processes, everything the server has sent, the
frames its interface has returned, and the frames it was given, each with the
peer whose datagram it was in. -/
structure Network (Host : Type) where
  machine : Machine
  node : Host → Station.Node
  sent : List Sent
  read : List Bytes
  written : List (SockAddr × Bytes)

namespace Machine

theorem step_writes {order : ByteOrder} {machine after : Machine} {peer : SockAddr}
    {datagram : Bytes} {random : UInt32} {time : Int} {actions : List Action}
    (taken : machine.step order (.datagram peer datagram random time) = some (after, actions))
    {frame : Bytes} (wrote : frame ∈ writes actions) :
    frame ∈ writes (machine.server.handleNetworkDatagram order peer datagram random time).2 := by
  simp only [step, receive] at taken
  split at taken
  · cases taken
  split at taken
  · cases taken
    cases wrote
  · cases taken
    cases wrote
  · cases taken
    cases wrote
  · rename_i id packet length seen
    split at taken <;> cases taken
    rw [handleNetworkDatagram, seen]
    exact wrote
  · rename_i id packet length seen
    split at taken <;> cases taken
    rw [handleNetworkDatagram, seen]
    exact wrote

/-- A datagram is answered at once only if its version is wrong or its identity unknown. -/
theorem step_refuses {order : ByteOrder} {machine after : Machine} {peer : SockAddr}
    {datagram : Bytes} {random : UInt32} {time : Int} {actions : List Action}
    (taken : machine.step order (.datagram peer datagram random time) = some (after, actions))
    {address : SockAddr} {data : Bytes} (sent : .send address data ∈ actions) :
    dispatch order machine.server.crypto (recv datagram 2000) = .wrongVersion ∨
    ∃ handler id payload length, handler ≠ Handler.startSession ∧
      dispatch order machine.server.crypto (recv datagram 2000) = .call handler id payload length ∧
      machine.server.dict.id.find id = none := by
  simp only [step, receive] at taken
  split at taken
  · cases taken
  split at taken
  · cases taken
    cases sent
  · rename_i refused
    exact Or.inl refused
  · cases taken
    cases sent
  · rename_i id packet length seen
    split at taken <;> cases taken
    refine Or.inr ⟨.handleHeartbeat, id, packet, length, by decide, seen, ?_⟩
    simp only [handleHeartbeat] at sent
    split at sent
    · cases sent
    split at sent
    · assumption
    · cases sent
  · rename_i id packet length seen
    split at taken <;> cases taken
    refine Or.inr ⟨.relayData, id, packet, length, by decide, seen, ?_⟩
    simp only [relayData] at sent
    split at sent
    · cases sent
    split at sent
    · assumption
    split at sent
    · cases sent
    split at sent
    · cases sent
    · cases List.mem_singleton.mp sent

end Machine

namespace Network

/-- `turn` is a turn of a process in which it does not receive, `deliver` brings
it the datagram `index` of the server, and `stray` one from elsewhere. -/
inductive Event (Host : Type) where
  | server (event : Muddymask.Event)
  | turn (host : Host) (turn : Station.Turn)
  | deliver (host : Host) (index : Nat)
  | stray (host : Host) (peer : SockAddr) (datagram : Bytes)

variable {Host : Type}

def start (machine : Machine) : Network Host where
  machine := machine
  node := fun _ => Station.start
  sent := []
  read := []
  written := []

/-- What a section of the server writes to the interface, and for whom. -/
def heard (actions : List Action) : Muddymask.Event → List (SockAddr × Bytes)
  | .datagram peer _ _ _ => (writes actions).map fun frame => (peer, frame)
  | _ => []

def own : Station.Turn → Bool
  | .receive .. => false
  | _ => true

section Steps
variable [Fintype Host] [DecidableEq Host] (order : ByteOrder) (station : Host → Station)

/-- A datagram under the address of a host is one that the host has sent. -/
def genuine (network : Network Host) (event : Muddymask.Event) : Bool :=
  decide (∀ host,
    Exchange.genuine (station host).address (network.node host).outbox event = true)

def go (network : Network Host) (host : Host) (turn : Station.Turn) : Option (Network Host) :=
  ((station host).step order (network.node host) turn).map fun after =>
    { network with node := Function.update network.node host after }

def step (network : Network Host) : Event Host → Option (Network Host)
  | .server event =>
      if network.genuine station event then
        (network.machine.step order event).map fun result =>
          { network with
            machine := result.1
            sent := network.sent ++ Exchange.sends network.machine event result.2
            read := network.read ++ Tunnel.reads event
            written := network.written ++ heard result.2 event }
      else none
  | .turn host turn => if own turn then network.go order station host turn else none
  | .deliver host index => match network.sent[index]? with
      | some sent =>
          if sent.address = (station host).address then
            network.go order station host (.receive (station host).config.remote sent.data)
          else none
      | none => none
  | .stray host peer datagram =>
      let server := (station host).config.remote
      if peer.sinAddr = server.sinAddr ∧ peer.sinPort = server.sinPort then none
      else network.go order station host (.receive peer datagram)

end Steps

/-! What is known of a network. -/

/-- The tunnel between the server and one host, seen by a `client` with the key. -/
def tunnel (network : Network Host) (host : Host) (client : TunnelClient) : Tunnel where
  machine := network.machine
  client := client
  read := network.read
  sent := network.sent
  written := (network.node host).given

/-- The server once took a datagram of the host and did not know the identity. -/
def Refused (station : Station) (sent : List Sent) (outbox : List Bytes) (identity : UInt32) :
    Prop :=
  ∃ reply ∈ sent, reply.address = station.address ∧
    ∃ datagram random time, datagram ∈ outbox ∧
      reply.event = .datagram station.address datagram random time ∧
      reply.machine.server.dict.id.find identity = none

theorem Refused.mono {station : Station} {sent more : List Sent} {outbox longer : List Bytes}
    {identity : UInt32} (refused : Refused station sent outbox identity)
    (sentGrows : sent ⊆ more) (outboxGrows : outbox ⊆ longer) :
    Refused station more longer identity := by
  obtain ⟨reply, member, address, datagram, random, time, said, rest⟩ := refused
  exact ⟨reply, sentGrows member, address, datagram, random, time, outboxGrows said, rest⟩

structure Whole (order : ByteOrder) (station : Host → Station) (network : Network Host) :
    Prop where
  key : network.machine.server.crypto = DummyCrypto.new order Client.secret
  candid : ∀ host, Station.Candid order (station host) (network.node host)
  genuine : ∀ host client, client.crypto = DummyCrypto.new order Client.secret →
    Tunnel.Genuine order (station host).address (DummyCrypto.new order Client.secret)
      (network.tunnel host client)
  asked : ∀ sent ∈ network.sent, ∀ peer datagram random time,
    sent.event = .datagram peer datagram random time →
      ∀ host, (station host).address = peer → datagram ∈ (network.node host).outbox
  written : ∀ peer frame, (peer, frame) ∈ network.written →
    ∀ host, (station host).address = peer → frame ∈ (network.node host).returned
  refused : ∀ host running, (network.node host).process = .running running →
    running.client.stop = true →
      Refused (station host) network.sent (network.node host).outbox running.client.identity

theorem Whole.sameKey {order : ByteOrder} {station : Host → Station} {network : Network Host}
    (whole : Whole order station network) {host : Host} {running : Station.Running}
    (process : (network.node host).process = .running running) :
    running.client.crypto = network.machine.server.crypto :=
  ((whole.candid host).crypto process).trans whole.key.symm

section Invariant
variable {order : ByteOrder} {station : Host → Station} {network : Network Host}

theorem whole_start (mac : { mac : Bytes // mac.length = 6 }) (secret : Bytes) (random : UInt32)
    (key : DummyCrypto.new order secret = DummyCrypto.new order Client.secret) :
    Whole order station (start (init order mac secret random)) where
  key := key
  candid := fun host => Station.candid_start order (station host)
  genuine := fun host client same => by
    rw [← key] at same ⊢
    exact Tunnel.genuine_start client mac secret random same
  asked := fun _ member => absurd member List.not_mem_nil
  written := nofun
  refused := nofun

theorem frame_of_written (whole : Whole order station network) {host : Host} {datagram : Bytes}
    (said : datagram ∈ (network.node host).outbox) {peer : SockAddr} {random : UInt32} {time : Int}
    {frame : Bytes} (wrote : frame ∈ writes
      (network.machine.server.handleNetworkDatagram order peer datagram random time).2) :
    frame ∈ (network.node host).returned := by
  obtain ⟨id, called, _⟩ := (mem_writes_handle ..).mp wrote
  rcases Station.said_dispatch ((whole.candid host).said datagram said) _ whole.key with
    ignored | asked | ⟨info, _, ⟨payload, beat⟩ | ⟨other, read, relayed⟩⟩
  · cases called.symm.trans ignored
  · cases called.symm.trans asked
  · cases called.symm.trans beat
  · cases called.symm.trans relayed
    exact read

theorem whole_server (whole : Whole order station network) {event : Muddymask.Event}
    {result : Machine × List Action} (stepped : network.machine.step order event = some result)
    (allowed : ∀ peer datagram random time, event = .datagram peer datagram random time →
      ∀ host, (station host).address = peer → datagram ∈ (network.node host).outbox) :
    Whole order station { network with
      machine := result.1
      sent := network.sent ++ Exchange.sends network.machine event result.2
      read := network.read ++ Tunnel.reads event
      written := network.written ++ heard result.2 event } where
  key := by
    obtain ⟨after, actions⟩ := result
    refine Eq.trans ?_ whole.key
    have moved : Machine.next order network.machine event = some after := by
      simp [Machine.next, stepped]
    cases next_change moved <;> rfl
  candid := whole.candid
  genuine := fun host client same => Tunnel.genuine_server (whole.genuine host client same) stepped
  asked := by
    intro sent member peer datagram random time same
    rcases List.mem_append.mp member with old | new
    · exact whole.asked sent old peer datagram random time same
    · exact allowed peer datagram random time ((Exchange.mem_sends new).2.1 ▸ same)
  written := by
    intro peer frame member host address
    rcases List.mem_append.mp member with old | new
    · exact whole.written peer frame old host address
    · cases event with
      | datagram origin datagram random time =>
          obtain ⟨data, wrote, same⟩ := List.mem_map.mp new
          cases same
          exact frame_of_written whole (allowed _ _ _ _ rfl host address)
            (Machine.step_writes stepped wrote)
      | _ => cases new
  refused := fun host running process stop => (whole.refused host running process stop).mono
    (List.subset_append_left ..) (List.Subset.refl _)

/-- A process goes on; what its interface is given and its `stop` have a reason. -/
theorem whole_node [DecidableEq Host] (whole : Whole order station network) {host : Host}
    {turn : Station.Turn} {after : Station.Node}
    (taken : (station host).step order (network.node host) turn = some after)
    (given : ∀ data ∈ after.given, data ∈ (network.node host).given ∨
      data ∈ network.read ∧ ∃ sent ∈ network.sent,
        Tunnel.Relays order (station host).address sent data)
    (halts : ∀ running, after.process = .running running → running.client.stop = true →
      Refused (station host) network.sent (network.node host).outbox running.client.identity) :
    Whole order station { network with node := Function.update network.node host after } := by
  obtain ⟨said, read⟩ := Station.step_grows taken
  have outbox : ∀ other, (network.node other).outbox ⊆
      (Function.update network.node host after other).outbox := by
    intro other
    by_cases same : other = host
    · subst same
      rwa [Function.update_self]
    · rw [Function.update_of_ne same]
      exact List.Subset.refl _
  refine { key := whole.key, candid := ?_, genuine := ?_, asked := ?_, written := ?_, refused := ?_ }
  · intro other
    by_cases same : other = host
    · subst same
      simpa only [Function.update_self] using Station.candid_step (whole.candid other) taken
    · simpa only [Function.update_of_ne same] using whole.candid other
  · intro other client key
    by_cases same : other = host
    · subst same
      have before := whole.genuine other client key
      refine { before with nothingInvented := ?_ }
      intro data wrote
      simp only [tunnel, Function.update_self] at wrote
      rcases given data wrote with old | new
      · exact before.nothingInvented data old
      · exact new
    · simpa only [tunnel, Function.update_of_ne same] using whole.genuine other client key
  · intro sent member peer datagram random time same other address
    exact outbox other (whole.asked sent member peer datagram random time same other address)
  · intro peer frame member other address
    have before := whole.written peer frame member other address
    by_cases same : other = host
    · subst same
      simpa only [Function.update_self] using read before
    · simpa only [Function.update_of_ne same] using before
  · intro other running process stop
    by_cases same : other = host
    · subst same
      simp only [Function.update_self] at process ⊢
      exact (halts running process stop).mono (List.Subset.refl _) said
    · simp only [Function.update_of_ne same] at process ⊢
      exact whole.refused other running process stop

/-- An error that the server sent a host was about the identity of its session. -/
theorem refused_of_event (whole : Whole order station network) {host : Host} {reply : Sent}
    (member : reply ∈ network.sent) (address : reply.address = (station host).address)
    {datagram : Bytes} {random : UInt32} {time : Int}
    (event : reply.event = .datagram reply.address datagram random time) {info : SessionInfo}
    (session : (network.node host).adopted = some info) :
    Refused (station host) network.sent (network.node host).outbox info.identity := by
  obtain ⟨result, stepped, performed⟩ := (whole.genuine host _ rfl : Tunnel.Genuine order _ _
    (network.tunnel host (.new order Client.secret 0 (station host).config.remote))).taken
      reply member
  have key := (whole.genuine host (.new order Client.secret 0 (station host).config.remote)
    rfl).keys reply member
  have said := whole.asked reply member _ _ _ _ event host address.symm
  rw [event] at stepped
  refine ⟨reply, member, address, datagram, random, time, said, address ▸ event, ?_⟩
  have heard := Station.said_dispatch ((whole.candid host).said datagram said) _ key
  rcases Machine.step_refuses stepped performed with wrong | ⟨handler, id, _, _, other, called, gone⟩
  · rcases heard with ignored | asked | ⟨_, _, ⟨_, beat⟩ | ⟨_, _, relayed⟩⟩
    · cases wrong.symm.trans ignored
    · cases wrong.symm.trans asked
    · cases wrong.symm.trans beat
    · cases wrong.symm.trans relayed
  · rcases heard with ignored | asked | ⟨adopted, same, ⟨_, beat⟩ | ⟨_, _, relayed⟩⟩
    · cases called.symm.trans ignored
    · cases called.symm.trans asked
      exact absurd rfl other
    · cases called.symm.trans beat
      cases session.symm.trans same
      exact gone
    · cases called.symm.trans relayed
      cases session.symm.trans same
      exact gone

/-- A packet of the server stops a client only if it is such an error. -/
theorem refused_of_stop (whole : Whole order station network) {host : Host} {reply : Sent}
    (member : reply ∈ network.sent) (address : reply.address = (station host).address)
    {client : TunnelClient} (key : client.crypto = DummyCrypto.new order Client.secret)
    (going : client.stop = false) {peer : SockAddr}
    (stop : (client.handleNetworkDatagram order peer reply.data).1.stop = true)
    {info : SessionInfo} (session : (network.node host).adopted = some info) :
    Refused (station host) network.sent (network.node host).outbox info.identity := by
  have genuine := whole.genuine host client key
  have same : client.crypto = reply.machine.server.crypto :=
    key.trans (genuine.keys reply member).symm
  have running : client.stop ≠ true := by simp [going]
  cases valid : client.validDataSource peer with
  | false =>
      rw [TunnelClient.handle_foreign order client valid] at stop
      exact absurd stop running
  | true =>
      obtain ⟨result, stepped, performed⟩ := genuine.taken reply member
      rcases step_send stepped performed with ⟨_, _, _, _, sent⟩ | ⟨_, _, _, _, event, _⟩ |
        ⟨frame, info, clients, _, relaying, _, sent⟩
      · simp only [sendSessionInfo, Action.send.injEq, true_and] at sent
        rw [sent, TunnelClient.handle_packet order _ _ same _ valid _ _
          (by rw [SessionInfo.encode_length]; decide), if_neg (by decide)] at stop
        exact absurd stop running
      · exact refused_of_event whole member address event session
      · obtain ⟨_, bounded⟩ := genuine.relayed reply member frame _ relaying
        rw [sent, relayed_written order _ _ same _ valid frame bounded] at stop
        exact absurd stop running

theorem whole_deliver [DecidableEq Host] (whole : Whole order station network) {host : Host}
    {reply : Sent} (member : reply ∈ network.sent)
    (address : reply.address = (station host).address) {after : Station.Node}
    (taken : (station host).step order (network.node host)
      (.receive (station host).config.remote reply.data) = some after) :
    Whole order station { network with node := Function.update network.node host after } := by
  rcases Station.step_receive taken with ⟨i, _, rfl⟩ | ⟨running, process, going, rfl⟩
  · exact whole_node whole taken (fun _ => Or.inl) nofun
  · obtain ⟨info, session, same⟩ := (whole.candid host).client running process
    have key := (whole.candid host).crypto process
    have server := (whole.candid host).server process
    refine whole_node whole taken (fun data wrote => ?_) ?_
    · refine (List.mem_append.mp wrote).imp_right fun new => ?_
      rw [← server] at new
      -- A client whose server is no `AF_INET` address hears nobody at all.
      cases valid : running.client.validDataSource running.client.server with
      | false =>
          rw [TunnelClient.handle_foreign order running.client valid] at new
          cases new
      | true =>
          obtain ⟨read, relays⟩ :=
            Tunnel.written_of_sent (whole.genuine host running.client key) member address valid new
          exact ⟨read, reply, member, relays⟩
    · rintro _ ⟨rfl⟩ stop
      have identity : (running.client.handleNetworkDatagram order (station host).config.remote
          reply.data).1.identity = info.identity := by
        rw [Station.handle_client, same]
        rfl
      rw [identity]
      exact refused_of_stop whole member address key going stop session

theorem whole_stray [DecidableEq Host] (whole : Whole order station network) {host : Host}
    {peer : SockAddr} {datagram : Bytes}
    (foreign : ¬ (peer.sinAddr = (station host).config.remote.sinAddr ∧
      peer.sinPort = (station host).config.remote.sinPort)) {after : Station.Node}
    (taken : (station host).step order (network.node host) (.receive peer datagram) = some after) :
    Whole order station { network with node := Function.update network.node host after } := by
  rcases Station.step_receive taken with ⟨i, _, rfl⟩ | ⟨running, process, going, rfl⟩
  · exact whole_node whole taken (fun _ => Or.inl) nofun
  · have unmoved := (whole.candid host).refuses process foreign datagram
    refine whole_node whole taken (fun data wrote => ?_) ?_
    · rw [unmoved] at wrote
      simpa [writes] using Or.inl wrote
    · rintro _ ⟨rfl⟩ stop
      rw [unmoved] at stop
      exact absurd stop (by simp [going])

theorem whole_step [Fintype Host] [DecidableEq Host] (whole : Whole order station network)
    {event : Event Host} {after : Network Host}
    (taken : network.step order station event = some after) : Whole order station after := by
  cases event with
  | server event =>
      simp only [step] at taken
      split at taken
      · rename_i allowed
        obtain ⟨result, stepped, rfl⟩ := Option.map_eq_some_iff.mp taken
        refine whole_server whole stepped ?_
        rintro peer datagram random time rfl host address
        exact of_decide_eq_true (of_decide_eq_true allowed host) address.symm
      · cases taken
  | turn host turn =>
      simp only [step] at taken
      split at taken
      · rename_i sends
        obtain ⟨node, moved, rfl⟩ := Option.map_eq_some_iff.mp taken
        obtain ⟨given, stops⟩ := Station.step_own (by rintro _ _ rfl; cases sends) moved
        refine whole_node whole moved (fun data wrote => Or.inl (given ▸ wrote)) ?_
        intro running process stop
        obtain ⟨before, earlier, same⟩ := stops running process stop
        rw [same] at stop ⊢
        exact whole.refused host before earlier stop
      · cases taken
  | deliver host index =>
      simp only [step] at taken
      split at taken
      · rename_i reply found
        split at taken
        · rename_i address
          obtain ⟨node, moved, rfl⟩ := Option.map_eq_some_iff.mp taken
          exact whole_deliver whole (List.mem_of_getElem? found) address moved
        · cases taken
      · cases taken
  | stray host peer datagram =>
      simp only [step] at taken
      split at taken
      · cases taken
      · rename_i foreign
        obtain ⟨node, moved, rfl⟩ := Option.map_eq_some_iff.mp taken
        exact whole_stray whole foreign moved

theorem whole_run [Fintype Host] [DecidableEq Host] (order : ByteOrder) (station : Host → Station)
    (mac : { mac : Bytes // mac.length = 6 }) (secret : Bytes) (random : UInt32)
    (key : DummyCrypto.new order secret = DummyCrypto.new order Client.secret)
    (events : List (Event Host)) :
    Runs.Always (step order station) (Whole order station) (start (init order mac secret random))
      events := by
  refine Runs.always_of_along (Whole order station) (fun _ _ => True)
    (fun before event after whole _ taken => whole_step whole taken) _ _
    (whole_start mac secret random key) ?_
  exact Runs.along_of_forall _ _ _ fun _ _ _ => trivial

end Invariant

/-- Whatever the server writes of a datagram of a host, the interface of that
host has returned; whatever a host writes, the interface of the server has, and
the server has relayed it to this host. -/
def Sourced (order : ByteOrder) (station : Host → Station) (network : Network Host) : Prop :=
  (∀ peer frame, (peer, frame) ∈ network.written → ∀ host, (station host).address = peer →
    frame ∈ (network.node host).returned) ∧
  ∀ host, ∀ frame ∈ (network.node host).given, frame ∈ network.read ∧
    ∃ sent ∈ network.sent, Tunnel.Relays order (station host).address sent frame

theorem frames_sourced [Fintype Host] [DecidableEq Host] (order : ByteOrder)
    (station : Host → Station) (mac : { mac : Bytes // mac.length = 6 }) (secret : Bytes)
    (random : UInt32) (key : DummyCrypto.new order secret = DummyCrypto.new order Client.secret)
    (events : List (Event Host)) :
    Runs.Always (step order station) (Sourced order station) (start (init order mac secret random))
      events := by
  refine Runs.always_mono (Whole order station) _ (fun network whole => ?_) _ _
    (whole_run order station mac secret random key events)
  exact ⟨whole.written,
    fun host => (whole.genuine host (.new order Client.secret 0 (station host).config.remote)
      rfl).nothingInvented⟩

def plainHost : Unit → Station := fun _ => Station.plainStation

/-- A session, a frame in either direction, and a frame from a stranger. -/
def plainTalk : List (Event Unit) :=
  let request := Client.request .little (plainMac 7)
  let client := TunnelClient.new .little Client.secret 11 Station.plainStation.config.remote
  let up := client.relayPacket .little (plainBroadcast 60)
  let stranger := { plainPeer with sinAddr := 9 }
  [.turn () .main, .server (.datagram Station.plainStation.address request 11 0),
    .server .register, .deliver () 0, .turn () .main, .turn () (.veth []), .turn () (.veth (plainBroadcast 60)),
    .server (.datagram Station.plainStation.address up 0 1),
    .server (.datagram stranger (client.relayPacket .little (plainBroadcast 70)) 0 1),
    .server (.frame (plainBroadcast 80) [0]), .server .forward, .deliver () 1]

theorem frames_sourced_talk :
    Runs.Always (step .little plainHost) (Sourced .little plainHost)
      (start Exchange.plainHonest) plainTalk :=
  frames_sourced .little plainHost ⟨[2, 0, 0, 0, 0, 2], rfl⟩ Client.secret 5 rfl plainTalk

example : (Runs.run (step .little plainHost) (start Exchange.plainHonest) plainTalk).map
    (fun network => (network.written.map Prod.snd, (network.node ()).given)) =
      some ([plainBroadcast 60, plainBroadcast 70], [plainBroadcast 80]) := by
  decide +kernel

/-- A client that has stopped was told so: the server once took a datagram of
that host and found the identity of its session in no entry of `dict.id`. -/
theorem stopped_was_refused [Fintype Host] [DecidableEq Host] (order : ByteOrder)
    (station : Host → Station) (mac : { mac : Bytes // mac.length = 6 }) (secret : Bytes)
    (random : UInt32) (key : DummyCrypto.new order secret = DummyCrypto.new order Client.secret)
    (events : List (Event Host)) :
    Runs.Always (step order station)
      (fun network => ∀ host running, (network.node host).process = .running running →
        running.client.stop = true →
          Refused (station host) network.sent (network.node host).outbox running.client.identity)
      (start (init order mac secret random)) events :=
  Runs.always_mono (Whole order station) _ (fun _ whole => whole.refused) _ _
    (whole_run order station mac secret random key events)

/-- The session is swept away and the next heartbeat ends the client. -/
def plainExpiry : List (Event Unit) :=
  let client := TunnelClient.new .little Client.secret 11 Station.plainStation.config.remote
  plainTalk.take 5 ++ [.server (.sweep 45 [(11, 0)]), .server .visit, .server .release,
    .server .delete, .server .visit, .turn () (.heart 7), .turn () (.heart 0), .turn () (.heart 0),
    .server (.datagram Station.plainStation.address (client.heartbeat .little 7) 0 46),
    .deliver () 1]

theorem stopped_was_refused_expired :
    Runs.Always (step .little plainHost)
      (fun network => ∀ host running, (network.node host).process = .running running →
        running.client.stop = true → Refused (plainHost host) network.sent
          (network.node host).outbox running.client.identity)
      (start Exchange.plainHonest) plainExpiry :=
  stopped_was_refused .little plainHost ⟨[2, 0, 0, 0, 0, 2], rfl⟩ Client.secret 5 rfl plainExpiry

example : (Runs.run (step .little plainHost) (start Exchange.plainHonest) plainExpiry).map
    (fun network => match (network.node ()).process with
      | .running running => running.client.stop
      | _ => false) = some true := by
  decide +kernel

end Network

end Muddymask
