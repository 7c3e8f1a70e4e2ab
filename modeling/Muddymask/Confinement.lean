import Muddymask.Network

/-!
A unicast frame stays with the host it is for, and a session with the host it
was granted to. Three things can break that, and all three are left out here: a
stranger who asks the server for a session under somebody's MAC, a `random()`
that gives an identity a second time, and a datagram that a client in
`startSession` takes for an answer although it is none.
-/

namespace Muddymask

open Words TunnelServer Machine

namespace TunnelServer

/-- The records that exist keep their identity, their address and what stands in `tun`. -/
structure Steady (before after : TunnelServer) : Prop where
  next : before.next ≤ after.next
  same : ∀ info < before.next, (after.client info).identity = (before.client info).identity ∧
    (after.client info).tun = (before.client info).tun ∧
    (after.client info).address = (before.client info).address

theorem steady_same {before after : TunnelServer} (next : after.next = before.next)
    (client : after.client = before.client) : Steady before after where
  next := Nat.le_of_eq next.symm
  same := fun info _ => by simp [client]

/-- A record with the identity, of the client at the address. -/
def Held (server : TunnelServer) (address : SockAddr) (identity : UInt32) : Prop :=
  ∃ info < server.next, (server.client info).identity = identity ∧
    (server.client info).address = address

theorem held_steady {before after : TunnelServer} (steady : Steady before after)
    {address : SockAddr} {identity : UInt32} (held : Held before address identity) :
    Held after address identity := by
  obtain ⟨info, old, rfl, rfl⟩ := held
  obtain ⟨same, _, place⟩ := steady.same info old
  exact ⟨info, Nat.lt_of_lt_of_le old steady.next, same, place⟩

end TunnelServer

namespace Machine

variable {order : ByteOrder} {machine after : Machine} {event : Event}

theorem steady_change (change : Change order machine event after)
    (settled : ∀ peer datagram random time id info, event = .datagram peer datagram random time →
      heartbeatIdentity order machine.server.crypto datagram = some id →
      machine.server.dict.id.find id = some info → (machine.server.client info).address = peer) :
    Steady machine.server after.server := by
  cases change with
  | opened request idle asked allocated =>
      refine ⟨Nat.le_succ _, fun info old => ?_⟩
      simp [opened, Nat.ne_of_lt old]
  | @refreshed peer datagram random time id info idle heard known asleep =>
      have place := settled peer datagram random time id info rfl heard known
      refine ⟨Nat.le_refl _, fun other _ => ⟨refreshClient_identity .., refreshClient_tun .., ?_⟩⟩
      by_cases same : other = info
      · subst same
        simp [refreshClient, place]
      · simp [refreshClient, same]
  | dropped => exact steady_same rfl rfl
  | refused => exact steady_same rfl rfl
  | registered => exact steady_same rfl rfl
  | runt => exact steady_same rfl rfl
  | framed => exact steady_same rfl rfl
  | forwarded => exact steady_same rfl rfl
  | finished => exact steady_same rfl rfl
  | swept => exact steady_same rfl rfl
  | erased => exact steady_same rfl rfl
  | spared => exact steady_same rfl rfl
  | awoke => exact steady_same rfl rfl
  | released => exact steady_same rfl rfl
  | deleted => exact steady_same rfl rfl

theorem created_change (change : Change order machine event after) :
    (after.server.next = machine.server.next ∧ ∀ pending, after.net = some pending →
      machine.net = some pending) ∨
    ∃ peer datagram random time request, event = .datagram peer datagram random time ∧
      sessionRequest order machine.server.crypto datagram = some request ∧
      after.server = opened order machine.server peer request.mac random time ∧
      after.net = some { peer, datagram, info := machine.server.next } := by
  cases change with
  | opened request idle asked allocated => exact Or.inr ⟨_, _, _, _, request, rfl, asked, rfl, rfl⟩
  | registered => exact Or.inl ⟨rfl, nofun⟩
  | dropped => exact Or.inl ⟨rfl, fun _ => id⟩
  | refused => exact Or.inl ⟨rfl, fun _ => id⟩
  | refreshed => exact Or.inl ⟨rfl, fun _ => id⟩
  | runt => exact Or.inl ⟨rfl, fun _ => id⟩
  | framed => exact Or.inl ⟨rfl, fun _ => id⟩
  | forwarded => exact Or.inl ⟨rfl, fun _ => id⟩
  | finished => exact Or.inl ⟨rfl, fun _ => id⟩
  | swept => exact Or.inl ⟨rfl, fun _ => id⟩
  | erased => exact Or.inl ⟨rfl, fun _ => id⟩
  | spared => exact Or.inl ⟨rfl, fun _ => id⟩
  | awoke => exact Or.inl ⟨rfl, fun _ => id⟩
  | released => exact Or.inl ⟨rfl, fun _ => id⟩
  | deleted => exact Or.inl ⟨rfl, fun _ => id⟩

/-- A unicast frame on its way goes to the record of its destination only. -/
def Routed (machine : Machine) : Prop :=
  ∀ frame clients, machine.veth = .relay frame clients → frame.headD 0 % 2 ≠ 1 →
    ∀ info ∈ clients, info < machine.server.next ∧
      (machine.server.client info).tun.mac.addr = frame.take 6

theorem routed_steady (routed : Routed machine) (steady : Steady machine.server after.server)
    (relays : ∀ frame clients, after.veth = .relay frame clients →
      ∃ more, machine.veth = .relay frame more ∧ clients ⊆ more) : Routed after := by
  intro frame clients relaying single info member
  obtain ⟨more, before, within⟩ := relays frame clients relaying
  obtain ⟨old, mac⟩ := routed frame more before single info (within member)
  obtain ⟨_, tun, _⟩ := steady.same info old
  exact ⟨Nat.lt_of_lt_of_le old steady.next, tun ▸ mac⟩

theorem routed_found (sound : Sound machine) {frame : Bytes} (single : frame.headD 0 % 2 ≠ 1)
    {clients : List Ptr} {info : Ptr}
    (member : info ∈ machine.server.frameTargets order frame clients) :
    info < machine.server.next ∧ (machine.server.client info).tun.mac.addr = frame.take 6 := by
  by_cases long : EthernetHeader.sizeof ≤ frame.length
  · obtain ⟨header, parsed, dst⟩ := EthernetHeader.read_dst order frame long
    rw [frameTargets_single order _ clients long single header.dst dst] at member
    have found := Option.mem_toList.mp member
    obtain ⟨stored, entry, same⟩ := (UnorderedMap.find_eq_some_iff _ _ _).mp found
    refine ⟨(sound.live info (Or.inr ⟨stored, entry⟩)).1, ?_⟩
    rw [sound.macKey stored info entry, ← dst]
    exact (MacAddress.beq_iff ..).mp same
  · rw [frameTargets_short order _ clients (Nat.not_le.mp long)] at member
    cases member

theorem routed_change (sound : Sound machine) (routed : Routed machine)
    (steady : Steady machine.server after.server) (change : Change order machine event after) :
    Routed after := by
  cases change with
  | framed reading long asleep iterated =>
      rintro _ _ ⟨rfl⟩ single info member
      exact routed_found sound single member
  | forwarded frame info clients relaying =>
      refine routed_steady routed steady ?_
      rintro _ _ ⟨rfl⟩
      exact ⟨_, relaying, List.subset_cons_self ..⟩
  | finished frame relaying =>
      rintro _ _ ⟨⟩
  | _ => exact routed_steady routed steady fun _ clients same => ⟨clients, same, List.Subset.refl _⟩

end Machine

namespace Station

variable {order : ByteOrder} {station : Station} {adopted : Option SessionInfo}
  {returned : List Bytes} {datagram : Bytes} {crypto : DummyCrypto}

theorem said_request (said : Said order station adopted returned datagram)
    (key : crypto = DummyCrypto.new order Client.secret) {request : StartSession}
    (asked : sessionRequest order crypto datagram = some request) : request.mac = station.mac := by
  rcases said_dispatch said crypto key with seen | seen | ⟨_, _, ⟨_, seen⟩ | ⟨_, _, seen⟩⟩
  · simp [sessionRequest, seen] at asked
  · have whole := MacAddress.read_encode order station.mac []
    rw [List.append_nil] at whole
    simp only [sessionRequest, seen, ↓reduceIte, StartSession.read, whole, Option.map_some,
      Option.some.injEq] at asked
    rw [← asked]
  · simp [sessionRequest, seen] at asked
  · simp [sessionRequest, seen] at asked

theorem said_heartbeat (said : Said order station adopted returned datagram)
    (key : crypto = DummyCrypto.new order Client.secret) {id : UInt32}
    (heard : heartbeatIdentity order crypto datagram = some id) :
    ∃ info, adopted = some info ∧ info.identity = id := by
  rcases said_dispatch said crypto key with seen | seen | ⟨info, session, ⟨_, seen⟩ | ⟨_, _, seen⟩⟩
  · simp [heartbeatIdentity, seen] at heard
  · simp [heartbeatIdentity, seen] at heard
  · simp only [heartbeatIdentity, seen, ↓reduceIte, Option.some.injEq] at heard
    exact ⟨info, session, heard⟩
  · simp [heartbeatIdentity, seen] at heard

/-- The process has the session, or is about to make a client of it. -/
def Adopts (node : Node) (info : SessionInfo) : Prop :=
  node.adopted = some info ∨ node.process = .session (.returned (some info))

theorem adopts_own {node after : Node} {turn : Turn}
    (own : ∀ peer datagram, turn ≠ .receive peer datagram)
    (taken : station.step order node turn = some after) {info : SessionInfo}
    (adopts : Adopts after info) : Adopts node info := by
  obtain ⟨process, adopted, outbox, returned, given⟩ := node
  obtain ⟨⟨process', actions⟩, moved, rfl⟩ := Option.map_eq_some_iff.mp taken
  have kept : ∀ (running next : Running) (turn : Turn) (actions : List Action),
      Adopts (record ⟨.running running, adopted, outbox, returned, given⟩ turn
        (.running next, actions)) info → adopted = some info := by
    intro running next turn actions held
    have session := held.resolve_right fun same => by cases same
    rwa [record, adopts_running] at session
  cases turn_move moved with
  | asked i => exact Or.inl (adopts.resolve_right fun same => by cases same)
  | unanswered i =>
      refine Or.inl (adopts.resolve_right fun same => ?_)
      exact Exchange.after_none i info (Process.session.inj same)
  | answered i peer datagram => exact absurd rfl (own peer datagram)
  | refused => exact Or.inl (adopts.resolve_right fun same => by cases same)
  | began other => exact Or.inr (by simpa [Adopts, record, Station.adopts] using adopts)
  | received running peer datagram listening => exact absurd rfl (own peer datagram)
  | prepared running time begins => exact Or.inl (kept _ _ _ _ adopts)
  | slept running time data test going => exact Or.inl (kept _ _ _ _ adopts)
  | stilled running time data test stopped => exact Or.inl (kept _ _ _ _ adopts)
  | beat running time data asleep => exact Or.inl (kept _ _ _ _ adopts)
  | waited running frame test going => exact Or.inl (kept _ _ _ _ adopts)
  | closed running frame test stopped => exact Or.inl (kept _ _ _ _ adopts)
  | relayed running frame read => exact Or.inl (kept _ _ _ _ adopts)
  | joined running heart veth stopped => exact Or.inl (adopts.resolve_right fun same => by cases same)
  | failed process alive => exact Or.inl (adopts.resolve_right fun same => by cases same)

end Station

namespace Network

variable {Host : Type} {order : ByteOrder} {station : Host → Station} {network : Network Host}

/-- Every record belongs to a host. -/
def Owned (station : Host → Station) (server : TunnelServer) : Prop :=
  ∀ info < server.next, ∃ host, (server.client info).address = (station host).address ∧
    (server.client info).tun.mac.addr = (station host).mac.addr

def forwards : Muddymask.Event → Bool
  | .forward => true
  | _ => false

def waits : Station.Process → Bool
  | .session (.waiting _) => true
  | _ => false

/-- The server takes nothing from strangers, `random()` gives an identity that no
record ever had, and a client in `startSession` is sent nothing but answers. -/
def Closed (order : ByteOrder) (station : Host → Station) (network : Network Host) :
    Event Host → Prop
  | .server (.datagram peer datagram random _) =>
      (∃ host, (station host).address = peer) ∧
        ((sessionRequest order network.machine.server.crypto datagram).isSome = true →
          ∀ info < network.machine.server.next,
            (network.machine.server.client info).identity ≠ random)
  | .deliver host index => waits (network.node host).process = true →
      (network.sent[index]?.any fun reply => forwards reply.event) = false
  | .stray host _ _ => waits (network.node host).process = false
  | _ => True

instance [Fintype Host] (order : ByteOrder) (station : Host → Station) (network : Network Host)
    (event : Event Host) : Decidable (Closed order station network event) :=
  match event with
  | .server (.datagram ..) => inferInstanceAs (Decidable (_ ∧ (_ = true → _)))
  | .deliver .. => inferInstanceAs (Decidable (_ = true → _ = false))
  | .stray .. => inferInstanceAs (Decidable (_ = false))
  | .turn .. | .server .register | .server (.frame ..) | .server .forward | .server (.sweep ..)
  | .server .visit | .server .release | .server .delete => isTrue trivial

/-- Every session is the one that its host asked for. -/
structure Settled (order : ByteOrder) (station : Host → Station) (network : Network Host) :
    Prop where
  whole : Whole order station network
  sound : Sound network.machine
  owned : Owned station network.machine.server
  routed : Routed network.machine
  once : ∀ left < network.machine.server.next, ∀ right < network.machine.server.next,
    (network.machine.server.client left).identity =
      (network.machine.server.client right).identity → left = right
  pending : ∀ pending, network.machine.net = some pending →
    (network.machine.server.client pending.info).address = pending.peer
  replies : ∀ reply ∈ network.sent, Owned station reply.machine.server ∧ Routed reply.machine
  granted : ∀ reply ∈ network.sent, ∀ pending, reply.event = .register →
    reply.machine.net = some pending → Held network.machine.server reply.address
      (reply.machine.server.client pending.info).identity
  held : ∀ host info, Station.Adopts (network.node host) info →
    Held network.machine.server (station host).address info.identity

theorem settled_start (mac : { mac : Bytes // mac.length = 6 }) (secret : Bytes) (random : UInt32)
    (key : DummyCrypto.new order secret = DummyCrypto.new order Client.secret) :
    Settled order station (start (init order mac secret random)) where
  whole := whole_start mac secret random key
  sound := sound_init order mac secret random
  owned := fun info old => absurd old (Nat.not_lt_zero info)
  routed := by simp [start, init, Routed]
  once := fun left old => absurd old (Nat.not_lt_zero left)
  pending := by simp [start, init]
  replies := fun _ member => absurd member List.not_mem_nil
  granted := fun _ member => absurd member List.not_mem_nil
  held := by
    rintro host info (adopted | process)
    · cases adopted
    · cases process

theorem settled_heartbeat (settled : Settled order station network) {host : Host}
    {datagram : Bytes} (said : datagram ∈ (network.node host).outbox) {id : UInt32} {info : Ptr}
    (heard : heartbeatIdentity order network.machine.server.crypto datagram = some id)
    (known : network.machine.server.dict.id.find id = some info) :
    (network.machine.server.client info).address = (station host).address := by
  have candid := settled.whole.candid host
  obtain ⟨session, adopted, rfl⟩ :=
    Station.said_heartbeat (candid.said datagram said) settled.whole.key heard
  obtain ⟨owner, old, same, place⟩ := settled.held host session (Or.inl adopted)
  obtain ⟨stored, entry, equal⟩ := (UnorderedMap.find_eq_some_iff _ _ _).mp known
  have identity := settled.sound.idKey stored info entry
  have live := (settled.sound.live info (Or.inl ⟨stored, entry⟩)).1
  have one : info = owner := settled.once info live owner old <| by
    rw [identity, same]
    exact beq_iff_eq.mp equal
  rwa [one]

theorem settled_server (settled : Settled order station network) {event : Muddymask.Event}
    {result : Machine × List Action} (stepped : network.machine.step order event = some result)
    (allowed : ∀ peer datagram random time, event = .datagram peer datagram random time →
      ∀ host, (station host).address = peer → datagram ∈ (network.node host).outbox)
    (closed : Closed order station network (.server event)) :
    Settled order station { network with
      machine := result.1
      sent := network.sent ++ Exchange.sends network.machine event result.2
      read := network.read ++ Tunnel.reads event
      written := network.written ++ heard result.2 event } := by
  obtain ⟨after, actions⟩ := result
  have change : Change order network.machine event after :=
    next_change (by simp [Machine.next, stepped])
  have steady : Steady network.machine.server after.server := by
    refine steady_change change ?_
    rintro peer datagram random time id info rfl heard known
    obtain ⟨host, rfl⟩ := closed.1
    exact settled_heartbeat settled (allowed _ _ _ _ rfl host rfl) heard known
  have created := created_change change
  refine { whole := whole_server settled.whole stepped allowed
           sound := sound_change settled.sound change
           owned := ?_, routed := routed_change settled.sound settled.routed steady change
           once := ?_, pending := ?_, replies := ?_, granted := ?_, held := ?_ }
  · intro info old
    by_cases before : info < network.machine.server.next
    · obtain ⟨host, place, mac⟩ := settled.owned info before
      obtain ⟨_, tun, same⟩ := steady.same info before
      exact ⟨host, same.trans place, tun ▸ mac⟩
    · rcases created with ⟨next, _⟩ | ⟨peer, datagram, random, time, request, rfl, asked, made, _⟩
      · exact absurd (next ▸ old) before
      · obtain ⟨host, rfl⟩ := closed.1
        have said := (settled.whole.candid host).said _ (allowed _ _ _ _ rfl host rfl)
        have mac := Station.said_request said settled.whole.key asked
        have new : info = network.machine.server.next := by
          simp only [made, opened, newClient] at old
          exact Nat.le_antisymm (Nat.le_of_lt_succ old) (Nat.not_lt.mp before)
        exact ⟨host, by simp [made, opened, new], by simp [made, opened, new, mac]⟩
  · have fresh : ∀ info < after.server.next, info < network.machine.server.next ∨
        info = network.machine.server.next ∧ ∀ other < network.machine.server.next,
          (after.server.client other).identity ≠ (after.server.client info).identity := by
      intro info old
      rcases created with ⟨next, _⟩ | ⟨peer, datagram, random, time, request, rfl, asked, made, _⟩
      · exact Or.inl (next ▸ old)
      · simp only [made, opened, newClient] at old
        refine (Nat.lt_succ_iff_lt_or_eq.mp old).imp_right fun new => ⟨new, fun other before => ?_⟩
        have apart := closed.2 (by simp [asked]) other before
        simpa [made, opened, new, Nat.ne_of_lt before] using apart
    intro left first right second same
    rcases fresh left first with old | ⟨rfl, apart⟩
    · rcases fresh right second with before | ⟨rfl, apart⟩
      · rw [(steady.same left old).1, (steady.same right before).1] at same
        exact settled.once left old right before same
      · exact absurd same (apart left old)
    · rcases fresh right second with before | ⟨rfl, _⟩
      · exact absurd same.symm (apart right before)
      · rfl
  · intro pending waiting
    rcases created with ⟨_, kept⟩ | ⟨peer, datagram, random, time, request, rfl, asked, made, new⟩
    · have old := kept pending waiting
      have before := (settled.sound.pendingLive pending old).1
      exact (steady.same pending.info before).2.2.trans (settled.pending pending old)
    · cases Option.some.inj (waiting.symm.trans new)
      simp [made, opened]
  · intro reply member
    rcases List.mem_append.mp member with old | new
    · exact settled.replies reply old
    · rw [(Exchange.mem_sends new).1]
      exact ⟨settled.owned, settled.routed⟩
  · intro reply member pending register waiting
    refine held_steady steady ?_
    rcases List.mem_append.mp member with old | new
    · exact settled.granted reply old pending register waiting
    · obtain ⟨machine, same, performed⟩ := Exchange.mem_sends new
      rw [machine] at waiting ⊢
      have before := (settled.sound.pendingLive pending waiting).1
      refine ⟨pending.info, before, rfl, (settled.pending pending waiting).trans ?_⟩
      rcases step_send stepped performed with ⟨other, _, held, place, _⟩ |
        ⟨_, _, _, _, event, _⟩ | ⟨_, _, _, event, _⟩
      · cases waiting.symm.trans held
        exact place
      · cases (register.symm.trans same).trans event
      · cases (register.symm.trans same).trans event
  · intro host info adopts
    exact held_steady steady (settled.held host info adopts)

theorem settled_node [DecidableEq Host] (settled : Settled order station network) {host : Host}
    {after : Station.Node}
    (whole : Whole order station { network with node := Function.update network.node host after })
    (adopts : ∀ info, Station.Adopts after info →
      Held network.machine.server (station host).address info.identity) :
    Settled order station { network with node := Function.update network.node host after } :=
  { settled with
    whole := whole
    held := by
      intro other info held
      by_cases same : other = host
      · subst same
        exact adopts info (by simpa only [Function.update_self] using held)
      · exact settled.held other info (by simpa only [Function.update_of_ne same] using held) }

/-- What a client takes from an answer of the server is a record of its own. -/
theorem held_of_response (settled : Settled order station network) {reply : Sent}
    (member : reply ∈ network.sent) (unrelayed : reply.event ≠ .forward) {info : SessionInfo}
    (answer : Client.response order (recv reply.data Client.responseSize) = some info)
    (host : Host) : Held network.machine.server reply.address info.identity := by
  have genuine := settled.whole.genuine host
    (.new order Client.secret 0 (station host).config.remote) rfl
  obtain ⟨result, stepped, performed⟩ := genuine.taken reply member
  rcases step_send stepped performed with ⟨pending, register, waiting, _, same⟩ |
    ⟨_, _, _, code, _, same⟩ | ⟨_, _, _, forward, _⟩
  · have granted := settled.granted reply member pending register waiting
    simp only [sendSessionInfo, Action.send.injEq, true_and] at same
    rw [same, Client.response_sessionInfo order _ _ (genuine.keys reply member)] at answer
    cases answer
    exact granted
  · rw [Exchange.response_error order reply.machine.server reply.address code _ same] at answer
    cases answer
  · exact absurd forward unrelayed

theorem unrelayed {host : Host} {index i : Nat} {reply : Sent}
    (waiting : (network.node host).process = .session (.waiting i))
    (found : network.sent[index]? = some reply)
    (closed : Closed order station network (.deliver host index)) : reply.event ≠ .forward := by
  intro forward
  simp [Closed, waiting, waits, found, forward, forwards] at closed

theorem after_some {i : Nat} {answer : Option SessionInfo} {info : SessionInfo}
    (returned : Phase.after i answer = .returned (some info)) : answer = some info := by
  cases answer with
  | none => exact absurd returned (Exchange.after_none i info)
  | some other => simpa [Phase.after] using returned

theorem settled_step [Fintype Host] [DecidableEq Host] (settled : Settled order station network)
    {event : Event Host} {after : Network Host} (closed : Closed order station network event)
    (taken : network.step order station event = some after) : Settled order station after := by
  have whole := whole_step settled.whole taken
  cases event with
  | server event =>
      simp only [step] at taken
      split at taken
      · rename_i allowed
        obtain ⟨result, stepped, rfl⟩ := Option.map_eq_some_iff.mp taken
        refine settled_server settled stepped ?_ closed
        rintro peer datagram random time rfl host address
        exact of_decide_eq_true (of_decide_eq_true allowed host) address.symm
      · cases taken
  | turn host turn =>
      simp only [step] at taken
      split at taken
      · rename_i sends
        obtain ⟨node, moved, rfl⟩ := Option.map_eq_some_iff.mp taken
        refine settled_node settled whole fun info adopts => settled.held host info ?_
        exact Station.adopts_own (by rintro _ _ rfl; cases sends) moved adopts
      · cases taken
  | deliver host index =>
      simp only [step] at taken
      split at taken
      · rename_i reply found
        split at taken
        · rename_i address
          obtain ⟨node, moved, rfl⟩ := Option.map_eq_some_iff.mp taken
          refine settled_node settled whole fun info adopts => ?_
          rcases Station.step_receive moved with ⟨i, waiting, rfl⟩ | ⟨running, _, _, rfl⟩
          · rcases adopts with held | returned
            · exact settled.held host info (Or.inl held)
            · have answer := after_some (Station.Process.session.inj returned)
              exact address ▸ held_of_response settled (List.mem_of_getElem? found)
                (unrelayed waiting found closed) answer host
          · exact settled.held host info (Or.inl (adopts.resolve_right fun same => by cases same))
        · cases taken
      · cases taken
  | stray host peer datagram =>
      simp only [step] at taken
      split at taken
      · cases taken
      · obtain ⟨node, moved, rfl⟩ := Option.map_eq_some_iff.mp taken
        refine settled_node settled whole fun info adopts => ?_
        rcases Station.step_receive moved with ⟨i, waiting, _⟩ | ⟨running, _, _, rfl⟩
        · simp [Closed, waiting, waits] at closed
        · exact settled.held host info (Or.inl (adopts.resolve_right fun same => by cases same))

/-- A unicast frame at a host is for the MAC of this host, and no two hosts have
a session of one identity. -/
def Confined (station : Host → Station) (network : Network Host) : Prop :=
  (∀ host, ∀ frame ∈ (network.node host).given, frame.headD 0 % 2 ≠ 1 →
    frame.take 6 = (station host).mac.addr) ∧
  ∀ left right info other, (network.node left).adopted = some info →
    (network.node right).adopted = some other → info.identity = other.identity → left = right

theorem confined_of_settled (settled : Settled order station network)
    (apart : ∀ left right, (station left).address = (station right).address → left = right) :
    Confined station network := by
  constructor
  · intro host frame given single
    have genuine := settled.whole.genuine host
      (.new order Client.secret 0 (station host).config.remote) rfl
    obtain ⟨_, reply, member, address, _, _, info, clients, relaying, place⟩ :=
      genuine.nothingInvented frame given
    obtain ⟨owned, routed⟩ := settled.replies reply member
    obtain ⟨old, mac⟩ := routed frame _ relaying single info List.mem_cons_self
    obtain ⟨owner, home, same⟩ := owned info old
    cases apart owner host (home.symm.trans place)
    exact mac.symm.trans same
  · intro left right info other first second same
    obtain ⟨mine, old, identity, here⟩ := settled.held left info (Or.inl first)
    obtain ⟨yours, before, twin, there⟩ := settled.held right other (Or.inl second)
    have one := settled.once mine old yours before (identity.trans (same.trans twin.symm))
    exact apart left right (here.symm.trans (one ▸ there))

/-- In every closed run of a network, in every state it visits. -/
theorem frames_confined [Fintype Host] [DecidableEq Host] (order : ByteOrder)
    (station : Host → Station)
    (apart : ∀ left right, (station left).address = (station right).address → left = right)
    (mac : { mac : Bytes // mac.length = 6 }) (secret : Bytes) (random : UInt32)
    (key : DummyCrypto.new order secret = DummyCrypto.new order Client.secret)
    (events : List (Event Host))
    (closed : Runs.Along (step order station) (Closed order station)
      (start (init order mac secret random)) events) :
    Runs.Always (step order station) (Confined station) (start (init order mac secret random))
      events := by
  refine Runs.always_mono (Settled order station) _
    (fun network settled => confined_of_settled settled apart) _ _ ?_
  exact Runs.always_of_along (Settled order station) (Closed order station)
    (fun before event after settled admitted taken => settled_step settled admitted taken) _ _
    (settled_start mac secret random key) closed

def plainPair (second : Bool) : Station where
  address := { plainPeer with sinAddr := if second then 8 else 7 }
  mac := plainMac (if second then 8 else 7)
  config := plainClientConfig ""

/-- Both have a session, and a frame comes for the second. -/
def plainUnicast : List (Event Bool) :=
  let ask (host : Bool) (random : UInt32) (index : Nat) : List (Event Bool) :=
    let request := Client.request .little (plainPair host).mac
    [.turn host .main, .server (.datagram (plainPair host).address request random 0),
      .server .register, .deliver host index, .turn host .main]
  ask false 11 0 ++ ask true 12 1 ++
    [.server (.frame ((plainMac 8).addr ++ List.replicate 54 0) [0, 1]), .server .forward,
      .deliver true 2]

theorem frames_confined_pair :
    Runs.Always (step .little plainPair) (Confined plainPair) (start Exchange.plainHonest)
      plainUnicast :=
  frames_confined .little plainPair (by decide) ⟨[2, 0, 0, 0, 0, 2], rfl⟩ Client.secret 5 rfl
    plainUnicast (by decide +kernel)

example : (Runs.run (step .little plainPair) (start Exchange.plainHonest) plainUnicast).map
    (fun network => ((network.node false).given, (network.node true).given)) =
      some ([], [(plainMac 8).addr ++ List.replicate 54 0]) := by
  decide +kernel

end Network

end Muddymask
