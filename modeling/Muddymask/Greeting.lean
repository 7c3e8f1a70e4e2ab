import Muddymask.Progress

/-!
A host that is about to ask for a session can get one, and then frames can go
both ways. `Ready` is what the server has to be for that: an address left, an
identity that nobody has, and no other session with the MAC of the host.
-/

namespace Muddymask

open Words TunnelServer

namespace Machine

/-- No session has the MAC, and none is about to get it. -/
def Unrouted (mac : MacAddress) (machine : Machine) : Prop :=
  machine.server.dict.mac.find mac = none ∧ ∀ pending, machine.net = some pending →
    ((machine.server.client pending.info).tun.mac == mac) = false

structure Ready (drawn : UInt32) (mac : MacAddress) (machine : Machine) : Prop where
  gone : Gone drawn machine
  unrouted : Unrouted mac machine
  available : machine.server.pool.available ≠ 0

theorem ready_change {order : ByteOrder} {drawn : UInt32} {mac : MacAddress}
    {machine after : Machine} {event : Event} (ready : Ready drawn mac machine)
    (finishing : Finishing event) (change : Change order machine event after) :
    Ready drawn mac after := by
  have gone := gone_change ready.gone finishing change
  obtain ⟨unknown, other⟩ := ready.unrouted
  have available := ready.available
  cases change with
  | registered pending waiting asleep reading =>
      have apart := other pending waiting
      exact ⟨gone, ⟨by simp [registerClient, UnorderedMap.find_insert, unknown, apart], nofun⟩,
        available⟩
  | erased at_entry expired =>
      exact ⟨gone, ⟨by simp [eraseClient, UnorderedMap.find_erase, unknown], other⟩, available⟩
  | released at_release =>
      refine ⟨gone, ⟨unknown, other⟩, ?_⟩
      simp [releaseClient, AddressPool.releaseAddress, AddressPool.available]
  | forwarded | finished | spared | awoke | deleted =>
      exact ⟨gone, ⟨unknown, other⟩, available⟩
  | _ => exact finishing.elim

theorem config_change {order : ByteOrder} {machine after : Machine} {event : Event}
    (change : Change order machine event after) : after.server.config = machine.server.config := by
  cases change <;> rfl

def granted (order : ByteOrder) (machine : Machine) (peer : SockAddr) (mac : MacAddress)
    (drawn : UInt32) (time : Int) : Machine :=
  { machine with server :=
      (opened order machine.server peer mac drawn time).registerClient machine.server.next }

section Grant
variable {order : ByteOrder} {machine : Machine} (peer : SockAddr) (mac : MacAddress)
  (drawn : UInt32) (time : Int)

theorem step_grants (rest : AtRest machine)
    (key : machine.server.crypto = DummyCrypto.new order Client.secret)
    (allocated : (machine.server.pool.allocateAddress order).1 ≠ 0) :
    ∃ middle, machine.step order (.datagram peer (Client.request order mac) drawn time) =
        some (middle, []) ∧
      middle.step order .register = some (granted order machine peer mac drawn time,
        [machine.server.sendSessionInfo order peer drawn
          (machine.server.pool.allocateAddress order).1]) := by
  obtain ⟨server, net, veth, poll⟩ := machine
  obtain ⟨rfl, rfl, rfl⟩ := rest
  have reaches := Client.request_reaches order server.crypto mac key
  have parsed : StartSession.read order (mac.encode order) = some { mac } := by
    have read := MacAddress.read_encode order mac []
    rw [List.append_nil] at read
    simp [StartSession.read, read]
  let pending : Pending := { peer, datagram := Client.request order mac, info := server.next }
  refine ⟨⟨opened order server peer mac drawn time, some pending, .read, .sleep⟩, ?_, ?_⟩
  · simp [step, receive, reaches, openSession, parsed, allocated, opened, pending]
  · simp [step, Poll.asleep, Veth.reading, granted, opened, pending]
    rfl

variable {peer mac drawn time}

theorem granted_id (ready : Ready drawn mac machine) :
    (granted order machine peer mac drawn time).server.dict.id.find drawn =
      some machine.server.next := by
  simp [granted, registerClient, opened, UnorderedMap.find_insert, newClient, ready.gone.1]

theorem granted_mac (ready : Ready drawn mac machine) :
    (granted order machine peer mac drawn time).server.dict.mac.find mac =
      some machine.server.next := by
  simp [granted, registerClient, opened, UnorderedMap.find_insert, newClient, ready.unrouted.1]

@[simp] theorem granted_address :
    ((granted order machine peer mac drawn time).server.client machine.server.next).address =
      peer := by
  simp [granted, registerClient, opened]

end Grant

end Machine

namespace Network

variable {Host : Type} {order : ByteOrder} {station : Host → Station} {network : Network Host}

/-- What the host, the server and the network between them do; nobody else sends
anything, no time passes and nothing fails. -/
def Friendly (station : Host → Station) (host : Host) (drawn : UInt32) (down : Bytes) :
    Event Host → Prop
  | .server (.datagram peer _ random _) => peer = (station host).address ∧ random = drawn
  | .server (.frame frame _) => frame = down
  | .server event => Machine.Finishing event
  | .turn other turn => other = host ∧ Station.Willing turn
  | .deliver other _ => other = host
  | .stray .. => False

theorem friendly_finishing {host : Host} {drawn : UInt32} {down : Bytes}
    {event : Muddymask.Event} (finishing : Machine.Finishing event) :
    Friendly station host drawn down (.server event) := by
  cases event with
  | datagram | frame | sweep => exact finishing.elim
  | register | forward | visit | release | delete => trivial

variable [Fintype Host] [DecidableEq Host]

theorem session_begins (whole : Whole order station network) {host : Host}
    (alone : ∀ other, (station other).address = (station host).address → other = host) {i : Nat}
    (process : (network.node host).process = .session (.sending i))
    (rest : Machine.AtRest network.machine)
    (allocated : (network.machine.server.pool.allocateAddress order).1 ≠ 0) (drawn : UInt32)
    (time : Int) :
    ∃ index after info, Runs.run (step order station) network
        [.turn host .main, .server (.datagram (station host).address
          (Client.request order (station host).mac) drawn time), .server .register,
          .deliver host index, .turn host .main] = some after ∧
      after.machine = Machine.granted order network.machine (station host).address
        (station host).mac drawn time ∧
      (after.node host).process = .running
        { client := Client.startClient order (station host).config info, heart := .start
          veth := .test } ∧
      info.identity = drawn := by
  let request := Client.request order (station host).mac
  let event : Muddymask.Event := .datagram (station host).address request drawn time
  let info : SessionInfo :=
    { identity := drawn, address := (network.machine.server.pool.allocateAddress order).1
      gateway := network.machine.server.config.gateway
      netmask := network.machine.server.config.netmask }
  let data := network.machine.server.packet order PacketHeader.kSessionInfo (info.encode order)
  obtain ⟨middle, opens, registers⟩ :=
    Machine.step_grants (station host).address (station host).mac drawn time rest whole.key allocated
  -- the request
  let asked := Station.record (network.node host) .main
    (.session (.waiting i), [.send (station host).config.remote request])
  have first : step order station network (.turn host .main) = some (network.placed host asked) :=
    turn_taken (show Station.Willing .main from trivial)
      (by simp [Station.step, Station.turn, process, Station.sessionTurn]; rfl)
  have said : request ∈ ((network.placed host asked).node host).outbox := by
    simp [asked, Station.record, Station.sends]
  -- the two sections of the server, and the answer
  let opening := (network.placed host asked).served event (middle, [])
  have second : step order station (network.placed host asked) (.server event) = some opening :=
    server_taken (genuine_said alone said drawn time) opens
  let answered := opening.served .register
    (Machine.granted order network.machine (station host).address (station host).mac drawn time,
      [.send (station host).address data])
  have third : step order station opening (.server .register) = some answered :=
    server_taken (decide_eq_true fun _ => rfl) registers
  have member : (⟨middle, .register, (station host).address, data⟩ : Sent) ∈ answered.sent :=
    List.mem_append_right _ List.mem_cons_self
  let told := Station.record asked (.receive (station host).config.remote data)
    (.session (.returned (some info)), [])
  have heard : Client.response order (recv data Client.responseSize) = some info :=
    Client.response_sessionInfo order network.machine.server info whole.key
  have awaits : answered.node host = asked := placed_node host asked
  have receives : (station host).step order (answered.node host)
      (.receive (station host).config.remote data) = some told := by
    rw [awaits]
    simp [Station.step, Station.turn, asked, Station.record, Station.sessionTurn, heard, told,
      Phase.after]
  obtain ⟨index, fourth⟩ := deliver_taken member rfl receives
  have main : Station.Willing .main := trivial
  -- the client
  let begun := Station.record told .main
    (.running { client := Client.startClient order (station host).config info, heart := .start
                veth := .test }, [])
  have last : (station host).step order ((answered.placed host told).node host) .main =
      some begun := by
    rw [placed_node]
    rfl
  refine ⟨index, (answered.placed host told).placed host begun, info, ?_, rfl, ?_, rfl⟩
  · simp only [Runs.run_cons, Runs.run_nil]
    exact ⟨_, first, _, second, _, third, _, fourth, _, turn_taken main last, rfl⟩
  · rw [placed_node]
    rfl

section Frames
variable {host : Host} {running : Station.Running} {frame : Bytes}

theorem frame_up (whole : Whole order station network)
    (alone : ∀ other, (station other).address = (station host).address → other = host)
    (process : (network.node host).process = .running running) (veth : running.veth = .test)
    (going : running.client.stop = false) (rest : Machine.AtRest network.machine)
    (known : (network.machine.server.dict.id.find running.client.identity).isSome = true)
    (long : EthernetHeader.sizeof < frame.length) (fits : frame.length ≤ 1592)
    (addressed : Addressed network.machine.server frame) (drawn : UInt32) (time : Int) :
    ∃ data after, Runs.run (step order station) network
        [.turn host (.veth []), .turn host (.veth frame),
          .server (.datagram (station host).address data drawn time)] = some after ∧
      ((station host).address, frame) ∈ after.written ∧ after.machine = network.machine ∧
      (after.node host).process = .running running := by
  have key := (whole.sameKey process).symm
  let data := running.client.relayPacket order frame
  let event : Muddymask.Event := .datagram (station host).address data drawn time
  let waiting := Station.record (network.node host) (.veth [])
    (.running { running with veth := .read }, [])
  have first : step order station network (.turn host (.veth [])) =
      some (network.placed host waiting) :=
    turn_taken (show Station.Willing (.veth []) from trivial)
      (by simp [Station.step, Station.turn, process, Station.runningTurn, veth, going, waiting])
  let spoken := Station.record waiting (.veth frame)
    (.running running, [.send running.client.server data])
  have second : step order station (network.placed host waiting) (.turn host (.veth frame)) =
      some ((network.placed host waiting).placed host spoken) := by
    refine turn_taken (show Station.Willing (.veth frame) from trivial) ?_
    have uncut : frame.take 2000 = frame :=
      List.take_of_length_le (Nat.le_trans fits (by decide))
    rw [placed_node]
    simp [Station.step, Station.turn, waiting, Station.record, Station.runningTurn,
      TunnelClient.handleVirtualEthernet, uncut, spoken, data]
    rw [← veth]
  have said : data ∈ (((network.placed host waiting).placed host spoken).node host).outbox := by
    simp [spoken, Station.record, Station.sends]
  let actions := network.machine.server.relayData order (station host).address
    running.client.identity frame frame.length
  have relays : network.machine.step order event = some (network.machine, actions) := by
    have asleep : network.machine.poll.asleep = true := by rw [rest.2.2]; rfl
    have seen := dispatch_frame order network.machine.server running.client key frame fits
    simp [event, data, Machine.step, rest.1, Machine.receive, seen, asleep, actions]
  have third : step order station ((network.placed host waiting).placed host spoken)
      (.server event) =
        some (((network.placed host waiting).placed host spoken).served event
          (network.machine, actions)) :=
    server_taken (genuine_said alone said drawn time) relays
  refine ⟨data, ((network.placed host waiting).placed host spoken).served event
    (network.machine, actions), ?_, ?_, rfl, ?_⟩
  · simp only [Runs.run_cons, Runs.run_nil]
    exact ⟨_, first, _, second, _, third, rfl⟩
  · have written : writes actions = [frame] := by
      rw [writes_relayData, if_pos ⟨long, known, addressed⟩]
    exact List.mem_append_right _ (by simp [heard, event, written])
  · simp [served, spoken, Station.record]

theorem forward_run {targets : List Ptr} (relaying : network.machine.veth = .relay frame targets) :
    ∃ after, Runs.run (step order station) network (targets.map fun _ => .server .forward) =
        some after ∧
      after.node = network.node ∧ after.written = network.written ∧ network.sent ⊆ after.sent ∧
      ∀ info ∈ targets, ∃ reply ∈ after.sent,
        reply.address = (network.machine.server.client info).address ∧
          reply.data = network.machine.server.relayPacket order frame := by
  induction targets generalizing network with
  | nil => exact ⟨network, rfl, rfl, rfl, List.Subset.refl _, nofun⟩
  | cons info targets ih =>
      let action := Action.send (network.machine.server.client info).address
        (network.machine.server.relayPacket order frame)
      have sends : network.machine.step order .forward =
          some ({ network.machine with veth := .relay frame targets }, [action]) := by
        simp [Machine.step, relaying, action]
      let next := network.served .forward
        ({ network.machine with veth := .relay frame targets }, [action])
      have taken : step order station network (.server .forward) = some next :=
        server_taken (decide_eq_true fun _ => rfl) sends
      have later : next.machine.veth = .relay frame targets := rfl
      obtain ⟨after, ran, node, written, kept, others⟩ := ih later
      refine ⟨after, (Runs.run_cons ..).mpr ⟨next, taken, ran⟩, node, ?_, ?_, ?_⟩
      · simp [written, next, served, heard]
      · exact List.Subset.trans (List.subset_append_left ..) kept
      · refine List.forall_mem_cons.mpr ⟨?_, others⟩
        have new : (⟨network.machine, .forward, (network.machine.server.client info).address,
            network.machine.server.relayPacket order frame⟩ : Sent) ∈ next.sent :=
          List.mem_append_right _ List.mem_cons_self
        exact ⟨_, kept new, rfl, rfl⟩

theorem frame_down (whole : Whole order station network)
    (family : (station host).config.remote.sinFamily = TunnelClient.afInet)
    (process : (network.node host).process = .running running)
    (going : running.client.stop = false) (rest : Machine.AtRest network.machine) {info : Ptr}
    (route : network.machine.server.dict.mac.find (station host).mac = some info)
    (address : (network.machine.server.client info).address = (station host).address)
    (long : EthernetHeader.sizeof ≤ frame.length) (fits : frame.length ≤ 1992)
    (dst : frame.take 6 = (station host).mac.addr) {clients : List Ptr}
    (iterated : clients.Perm (network.machine.server.dict.mac.entries.map Prod.snd)) :
    ∃ index after, Runs.run (step order station) network
        (.server (.frame frame clients) ::
          (network.machine.server.frameTargets order frame clients).map
            (fun _ => .server .forward) ++ [.deliver host index]) = some after ∧
      frame ∈ (after.node host).given ∧ after.written = network.written := by
  have key := whole.sameKey process
  have valid := (whole.candid host).hears process family
  have uncut : frame.take 2000 = frame := List.take_of_length_le (Nat.le_trans fits (by decide))
  let targets := network.machine.server.frameTargets order frame clients
  let begun := network.served (.frame frame clients)
    ({ network.machine with veth := .relay frame targets }, [])
  have first : step order station network (.server (.frame frame clients)) = some begun := by
    refine server_taken (decide_eq_true fun _ => rfl) ?_
    have enough : ¬ frame.length < EthernetHeader.sizeof := Nat.not_lt.mpr long
    simp [Machine.step, rest.2.1, rest.2.2, Veth.reading, Poll.asleep, uncut, enough, iterated,
      targets]
  obtain ⟨after, ran, node, written, _, sent⟩ := @forward_run Host order station begun _ _ frame
    targets rfl
  obtain ⟨reply, member, place, data⟩ := sent info (target_of_route route dst long iterated)
  have heard : running.client.handleNetworkDatagram order (station host).config.remote reply.data =
      (running.client, [.write frame]) := by
    have relayed := relayed_written order network.machine.server running.client key _ valid frame
      (Nat.le_trans fits (by decide))
    rw [if_pos ⟨long, fits⟩] at relayed
    rw [data]
    exact relayed
  let told := Station.record (network.node host) (.receive (station host).config.remote reply.data)
    (.running running, [.write frame])
  have receives : (station host).step order (after.node host)
      (.receive (station host).config.remote reply.data) = some told := by
    rw [node]
    simp [Station.step, Station.turn, begun, served, process, Station.runningTurn, going, heard, told]
  obtain ⟨index, delivered⟩ := deliver_taken member (place.trans address) receives
  refine ⟨index, after.placed host told, ?_, ?_, ?_⟩
  · rw [List.cons_append, Runs.run_cons]
    exact ⟨begun, first, (Runs.run_append ..).mpr ⟨after, ran, Runs.run_one delivered⟩⟩
  · simp [told, Station.record, writes]
  · exact written.trans (by simp [begun, served, Network.heard])

end Frames

/-- From every state that a network reaches, a host that is about to ask can get
a session and have a frame relayed in either direction, if the server has an
address left and no other session with its MAC or with the drawn identity. -/
theorem can_talk (order : ByteOrder) (station : Host → Station)
    (mac : { mac : Bytes // mac.length = 6 }) (secret : Bytes) (random : UInt32)
    (key : DummyCrypto.new order secret = DummyCrypto.new order Client.secret)
    (events : List (Event Host)) (network : Network Host)
    (past : Runs.run (step order station) (start (Machine.init order mac secret random)) events =
      some network)
    (host : Host) (alone : ∀ other, (station other).address = (station host).address → other = host)
    (family : (station host).config.remote.sinFamily = TunnelClient.afInet) (i : Nat)
    (process : (network.node host).process = .session (.sending i)) (drawn : UInt32)
    (ready : Machine.Ready drawn (station host).mac network.machine) (up down : Bytes)
    (upFits : EthernetHeader.sizeof < up.length ∧ up.length ≤ 1592)
    (addressed : Addressed network.machine.server up)
    (downFits : EthernetHeader.sizeof ≤ down.length ∧ down.length ≤ 1992)
    (dst : down.take 6 = (station host).mac.addr) (time : Int) :
    ∃ (later : List (Event Host)) (after : Network Host),
      (∀ event ∈ later, Friendly station host drawn down event) ∧
      Runs.run (step order station) network later = some after ∧
      ((station host).address, up) ∈ after.written ∧ down ∈ (after.node host).given := by
  -- the server comes to rest
  obtain ⟨finishing, machine, finish, quiet, ⟨ready, config⟩, rest⟩ :=
    Machine.comes_to_idle order (fun machine => Machine.Ready drawn (station host).mac machine ∧
        machine.server.config = network.machine.server.config)
      (fun _ _ _ holds finishing change => ⟨Machine.ready_change holds.1 finishing change,
        (Machine.config_change change).trans holds.2⟩) ⟨ready, rfl⟩
  obtain ⟨calm, calmed, same, unmoved⟩ :=
    @server_run Host order station network _ _ finishing finish machine quiet
  subst same
  rw [← unmoved] at process
  have calmPast := (Runs.run_append ..).mpr ⟨network, past, calmed⟩
  have pooled := pooled_reached (machine_reached calmPast)
  have allocated := (AddressPool.allocate_available pooled.serves ready.available).1
  -- the session
  obtain ⟨index, met, info, begins, granted, running, identity⟩ := session_begins
    (whole_reached key calmPast) alone process rest allocated drawn time
  have metPast := (Runs.run_append ..).mpr ⟨calm, calmPast, begins⟩
  have known : (met.machine.server.dict.id.find
      (Client.startClient order (station host).config info).identity).isSome = true := by
    rw [granted, show (Client.startClient order (station host).config info).identity = drawn from
      identity, Machine.granted_id ready]
    rfl
  have metConfig : met.machine.server.config = network.machine.server.config := by
    rw [granted]
    exact config
  -- the frames
  obtain ⟨data, risen, rises, written, same, still⟩ := frame_up (whole_reached key metPast) alone
    running rfl rfl (by rw [granted]; exact rest) known upFits.1 upFits.2
    (by rwa [Addressed, metConfig]) drawn time
  have risenPast := (Runs.run_append ..).mpr ⟨met, metPast, rises⟩
  obtain ⟨last, after, falls, given, unwritten⟩ := frame_down (whole_reached key risenPast) family
    still rfl (by rw [same, granted]; exact rest)
    (by rw [same, granted]; exact Machine.granted_mac ready)
    (by rw [same, granted]; exact Machine.granted_address) downFits.1 downFits.2 dst
    (List.Perm.refl _)
  refine ⟨_, after, ?_, (Runs.run_append ..).mpr ⟨calm, calmed, (Runs.run_append ..).mpr
    ⟨met, begins, (Runs.run_append ..).mpr ⟨risen, rises, falls⟩⟩⟩, ?_, given⟩
  · refine List.forall_mem_append.mpr ⟨List.forall_mem_map.mpr fun event member =>
      friendly_finishing (finish event member), List.forall_mem_append.mpr ⟨?_,
        List.forall_mem_append.mpr ⟨?_, ?_⟩⟩⟩
    · simp [Friendly, Station.Willing, Machine.Finishing]
    · simp [Friendly, Station.Willing]
    · exact List.forall_mem_cons.mpr ⟨rfl, List.forall_mem_append.mpr
        ⟨List.forall_mem_map.mpr fun _ _ => trivial, by simp [Friendly]⟩⟩
  · rwa [unwritten]

def plainAnswer : Bytes := (plainMac 7).addr ++ plainBroadcast 54

def plainOther : Muddymask.Event :=
  .datagram { plainPeer with sinAddr := 9 } (Client.request .little (plainMac 8)) 11 0

/-- It is still being served when the host begins. -/
theorem can_talk_busy : ∃ network,
    Runs.run (step .little plainHost) (start Exchange.plainHonest) [.server plainOther] =
      some network ∧
    network.machine.net.isSome = true ∧
    ∃ (later : List (Event Unit)) (after : Network Unit),
      (∀ event ∈ later, Friendly plainHost () 12 plainAnswer event) ∧
      Runs.run (step .little plainHost) network later = some after ∧
      (Station.plainStation.address, plainBroadcast 60) ∈ after.written ∧
      plainAnswer ∈ (after.node ()).given := by
  have computed : (Exchange.plainHonest.step .little plainOther).map (fun result =>
      let server := result.1.server
      (result.1.net.map fun pending => ((server.client pending.info).identity == 12,
          (server.client pending.info).tun.mac == plainMac 7),
        (server.dict.id.find 12).isNone, (server.dict.mac.find (plainMac 7)).isNone,
        server.pool.available)) = some (some (false, false), true, true, 99) := by
    decide +kernel
  obtain ⟨result, stepped, facts⟩ := Option.map_eq_some_iff.mp computed
  simp only [Prod.mk.injEq, Option.isNone_iff_eq_none] at facts
  obtain ⟨waits, id, mac, available⟩ := facts
  obtain ⟨pending, waiting, apart⟩ := Option.map_eq_some_iff.mp waits
  simp only [Prod.mk.injEq] at apart
  have taken : step .little plainHost (start Exchange.plainHonest) (.server plainOther) =
      some ((start Exchange.plainHonest).served plainOther result) :=
    server_taken (by decide +kernel) stepped
  have only : ∀ other, result.1.net = some other → other = pending := by
    intro other same
    exact Option.some.inj (same.symm.trans waiting)
  have ready : Machine.Ready 12 (plainMac 7) result.1 := by
    refine ⟨⟨id, fun other same => ?_⟩, ⟨mac, fun other same => ?_⟩, by simp [available]⟩
    · rw [only other same]
      simpa using apart.1
    · rw [only other same]
      exact apart.2
  refine ⟨_, Runs.run_one taken, by simp [served, waiting], ?_⟩
  exact can_talk .little plainHost ⟨[2, 0, 0, 0, 0, 2], rfl⟩ Client.secret 5 rfl _ _
    (Runs.run_one taken) () (fun _ _ => rfl) rfl 0 rfl 12 ready (plainBroadcast 60) plainAnswer
    (by decide) (Or.inl rfl) (by decide) rfl 1

end Network

end Muddymask
