import Muddymask.Registry
import Muddymask.TunnelClient

/-!
A frame through the tunnel, in both directions: from an interface through the
sender's header and key, the receiver's buffer and its checks to the other
interface. Each direction is exact for the lengths that fit; the two receivers
differ in one length, that of a bare `EthernetHeader`.
-/

namespace Muddymask

open Words TunnelServer

def writes (actions : List Action) : List Bytes :=
  actions.filterMap fun action => match action with
    | .write data => some data
    | .send .. => none

namespace EthernetHeader

theorem read_dst (order : ByteOrder) (frame : Bytes) (enough : sizeof ≤ frame.length) :
    ∃ header, read order frame = some header ∧ header.dst.addr = frame.take 6 := by
  have dst : MacAddress.sizeof ≤ frame.length := Nat.le_trans (by decide) enough
  have src : MacAddress.sizeof ≤ (frame.drop 8).length := by
    simp only [sizeof] at enough
    simp only [MacAddress.sizeof, List.length_drop]
    omega
  match last : frame.drop 16 with
  | t0 :: t1 :: _ =>
      exact ⟨_, by simp only [read, MacAddress.read, dif_pos dst, dif_pos src, last]; rfl, rfl⟩
  | [] | [_] =>
      have short := congrArg List.length last
      simp only [sizeof] at enough
      simp only [List.length_drop, List.length_nil, List.length_singleton] at short
      omega

end EthernetHeader

theorem headD_take (frame : Bytes) : (frame.take 6).headD 0 = frame.headD 0 := by
  cases frame <;> rfl

/-- A frame for the server's interface: a group address, or its own. -/
def Addressed (server : TunnelServer) (frame : Bytes) : Prop :=
  frame.headD 0 % 2 = 1 ∨ frame.take 6 = server.config.vmac.addr

instance (server : TunnelServer) (frame : Bytes) : Decidable (Addressed server frame) :=
  inferInstanceAs (Decidable (_ ∨ _))

/-! Upstream. -/

theorem writes_relayData (order : ByteOrder) (server : TunnelServer) (peer : SockAddr)
    (id : UInt32) (packet : Bytes) :
    writes (server.relayData order peer id packet packet.length) =
      if EthernetHeader.sizeof < packet.length ∧ (server.dict.id.find id).isSome = true ∧
        Addressed server packet then [packet] else [] := by
  rw [relayData]
  by_cases long : EthernetHeader.sizeof < packet.length
  · rw [if_neg (Nat.not_le.mpr long)]
    cases known : server.dict.id.find id with
    | none => simp [writes, sendErrorCode]
    | some info =>
        obtain ⟨header, parsed, dst⟩ := EthernetHeader.read_dst order packet (Nat.le_of_lt long)
        have addressed : (header.dst.addr.headD 0 % 2 ≠ 1 ∧
            (header.dst == server.config.vmac) = false) ↔ ¬ Addressed server packet := by
          rw [Addressed, not_or, dst, headD_take, ← Bool.not_eq_true, MacAddress.beq_iff, dst]
        simp only [parsed, addressed, long, Option.isSome_some, true_and]
        by_cases accepted : Addressed server packet <;> simp [accepted, writes]
  · rw [if_pos (Nat.not_lt.mp long), if_neg fun conditions => long conditions.1]
    rfl

/-- The header of a datagram that `relayData` passes on, and the payload after it. -/
structure Upstream (order : ByteOrder) (server : TunnelServer) (datagram : Bytes)
    (header : PacketHeader) (payload : Bytes) : Prop where
  low : PacketHeader.sizeof ≤ datagram.length
  high : datagram.length ≤ 1600
  decoded : PacketHeader.read order (server.crypto.decrypt order datagram datagram.length) =
    some header
  behind : payload =
    (server.crypto.decrypt order datagram datagram.length).drop PacketHeader.sizeof
  version : header.version = PacketHeader.kVersion
  type : header.type = PacketHeader.kRelayData
  length : header.length.toNat + PacketHeader.sizeof = datagram.length
  long : EthernetHeader.sizeof < header.length.toNat
  known : (server.dict.id.find header.identity).isSome = true
  addressed : Addressed server payload

theorem recv_whole {datagram : Bytes} (high : (recv datagram 2000).length ≤ 1600) :
    recv datagram 2000 = datagram := by
  rw [recv, List.length_take] at high
  exact recv_of_le (by omega)

theorem writes_handle (order : ByteOrder) (server : TunnelServer) (peer : SockAddr)
    (datagram : Bytes) (random : UInt32) (time : Int) :
    writes (server.handleNetworkDatagram order peer datagram random time).2 =
      match dispatch order server.crypto (recv datagram 2000) with
      | .call .relayData id packet length => writes (server.relayData order peer id packet length)
      | _ => [] := by
  rw [handleNetworkDatagram]
  cases dispatch order server.crypto (recv datagram 2000) with
  | ignore => rfl
  | wrongVersion => rfl
  | call handler id packet length =>
      cases handler with
      | relayData => rfl
      | handleHeartbeat =>
          simp only [handleHeartbeat]
          split
          · rfl
          · split <;> rfl
      | startSession =>
          simp only [startSession]
          split <;> rfl

theorem payload_length {order : ByteOrder} {packet : Bytes} {header : PacketHeader}
    (crypto : DummyCrypto) (agrees : header.length.toNat + PacketHeader.sizeof = packet.length) :
    ((crypto.decrypt order packet packet.length).drop PacketHeader.sizeof).length =
      header.length.toNat := by
  rw [List.length_drop, DummyCrypto.decrypt_length, ← agrees, Nat.add_sub_cancel]

theorem dispatch_length {order : ByteOrder} {crypto : DummyCrypto} {packet payload : Bytes}
    {handler : Handler} {identity : UInt32} {length : Nat}
    (called : dispatch order crypto packet = .call handler identity payload length) :
    payload.length = length := by
  obtain ⟨header, _, _, _, agrees, _, _, _, rfl, rfl⟩ := (dispatch_call_iff ..).mp called
  exact payload_length crypto agrees

theorem mem_writes_handle (order : ByteOrder) (server : TunnelServer) (peer : SockAddr)
    (datagram : Bytes) (random : UInt32) (time : Int) (data : Bytes) :
    data ∈ writes (server.handleNetworkDatagram order peer datagram random time).2 ↔
      ∃ id, dispatch order server.crypto (recv datagram 2000) =
          .call .relayData id data data.length ∧
        EthernetHeader.sizeof < data.length ∧ (server.dict.id.find id).isSome = true ∧
        Addressed server data := by
  rw [writes_handle]
  cases seen : dispatch order server.crypto (recv datagram 2000) with
  | ignore => simp
  | wrongVersion => simp
  | call handler id packet length =>
      cases handler with
      | relayData =>
          have sized := dispatch_length seen
          subst sized
          simp only [writes_relayData, List.mem_ite_nil_right, List.mem_singleton]
          constructor
          · rintro ⟨conditions, rfl⟩
            exact ⟨id, rfl, conditions⟩
          · rintro ⟨_, same, conditions⟩
            cases same
            exact ⟨conditions, rfl⟩
      | handleHeartbeat => simp
      | startSession => simp

/-- The checks of the dispatcher and of `relayData`, all at once. -/
theorem upstream_iff (order : ByteOrder) (server : TunnelServer) (peer : SockAddr)
    (datagram : Bytes) (random : UInt32) (time : Int) (data : Bytes) :
    data ∈ writes (server.handleNetworkDatagram order peer datagram random time).2 ↔
      ∃ header, Upstream order server datagram header data := by
  rw [mem_writes_handle]
  constructor
  · rintro ⟨id, called, long, known, addressed⟩
    obtain ⟨header, low, high, decoded, agrees, version, handler, rfl, behind, sized⟩ :=
      (dispatch_call_iff ..).mp called
    have whole := recv_whole high
    rw [whole] at low high decoded agrees behind
    exact ⟨header, { low, high, decoded, behind, version, length := agrees, known, addressed
                     type := (kHandlerTable_iff ..).mp handler, long := sized ▸ long }⟩
  · rintro ⟨header, upstream⟩
    have whole : recv datagram 2000 = datagram :=
      recv_of_le (Nat.le_trans upstream.high (by decide))
    have called : dispatch order server.crypto (recv datagram 2000) =
        .call .relayData header.identity data header.length.toNat := by
      rw [whole]
      exact (dispatch_call_iff ..).mpr ⟨header, upstream.low, upstream.high, upstream.decoded,
        upstream.length, upstream.version, (kHandlerTable_iff ..).mpr upstream.type, rfl,
        upstream.behind, rfl⟩
    have sized := dispatch_length called
    exact ⟨header.identity, sized ▸ called, sized ▸ upstream.long, upstream.known,
      upstream.addressed⟩

theorem writes_at_most_once (order : ByteOrder) (server : TunnelServer) (peer : SockAddr)
    (datagram : Bytes) (random : UInt32) (time : Int) :
    (writes (server.handleNetworkDatagram order peer datagram random time).2).length ≤ 1 := by
  rw [writes_handle]
  split
  · rename_i id packet length seen
    rw [← dispatch_length seen, writes_relayData]
    split <;> simp
  · simp

/-- What a client sends of a frame passes the dispatcher of a server with its key. -/
theorem dispatch_frame (order : ByteOrder) (server : TunnelServer) (client : TunnelClient)
    (key : server.crypto = client.crypto) (frame : Bytes) (fits : frame.length ≤ 1592) :
    dispatch order server.crypto (recv (client.relayPacket order frame) 2000) =
      .call .relayData client.identity frame frame.length := by
  have text : ((client.relayHeader frame).encode order ++ frame).length =
      frame.length + PacketHeader.sizeof := by
    simp [Nat.add_comm]
  have size : (client.relayPacket order frame).length = frame.length + PacketHeader.sizeof := by
    rw [TunnelClient.relayPacket, DummyCrypto.encrypt_length _ _ _ _ (Nat.le_of_eq text.symm), text]
  have small : frame.length + PacketHeader.sizeof ≤ 1600 := Nat.add_le_add_right fits 8
  have plain : client.crypto.decrypt order (client.relayPacket order frame)
      (frame.length + PacketHeader.sizeof) = (client.relayHeader frame).encode order ++ frame :=
    DummyCrypto.decrypt_encrypt order client.crypto _ _ (Nat.le_of_eq text.symm)
  have length : (UInt16.ofNat frame.length).toNat = frame.length :=
    UInt16.toNat_ofNat_of_lt' (by simp only [UInt16.size]; omega)
  rw [recv_of_le (by omega), key]
  refine (dispatch_call_iff ..).mpr ⟨client.relayHeader frame, ?_, ?_, ?_, ?_, rfl, rfl, rfl, ?_,
    length.symm⟩
  · rw [size]
    exact Nat.le_add_left _ _
  · rwa [size]
  · rw [size, plain]
    exact PacketHeader.read_encode ..
  · rw [size]
    exact congrArg (· + PacketHeader.sizeof) length
  · rw [size, plain]
    exact (List.drop_left' (PacketHeader.encode_length order _)).symm

theorem writes_frame (order : ByteOrder) (server : TunnelServer) (client : TunnelClient)
    (key : server.crypto = client.crypto) (frame : Bytes) (fits : frame.length ≤ 1592)
    (peer : SockAddr) (random : UInt32) (time : Int) :
    writes (server.handleNetworkDatagram order peer (client.relayPacket order frame) random time).2 =
      if EthernetHeader.sizeof < frame.length ∧
        (server.dict.id.find client.identity).isSome = true ∧ Addressed server frame
      then [frame] else [] := by
  rw [writes_handle, dispatch_frame order server client key frame fits]
  exact writes_relayData ..

/-- Upstream, exactly: what the server writes is the payload of one acceptable
datagram, and a client's frame becomes such a payload. -/
theorem upstream_exact (order : ByteOrder) :
    (∀ (server : TunnelServer) (peer : SockAddr) (datagram : Bytes) (random : UInt32) (time : Int),
      let written := writes (server.handleNetworkDatagram order peer datagram random time).2
      written.length ≤ 1 ∧
        ∀ data, data ∈ written ↔ ∃ header, Upstream order server datagram header data) ∧
    ∀ (client : TunnelClient) (frame : Bytes), frame.length ≤ 2000 →
      ∃ datagram, client.handleVirtualEthernet order frame = [.send client.server datagram] ∧
        ∀ server : TunnelServer, server.crypto = client.crypto → frame.length ≤ 1592 →
          dispatch order server.crypto (recv datagram 2000) =
            .call .relayData client.identity frame frame.length ∧
          ∀ peer random time,
            writes (server.handleNetworkDatagram order peer datagram random time).2 =
              if EthernetHeader.sizeof < frame.length ∧
                (server.dict.id.find client.identity).isSome = true ∧ Addressed server frame
              then [frame] else [] := by
  constructor
  · intro server peer datagram random time
    exact ⟨writes_at_most_once .., fun data => upstream_iff ..⟩
  · intro client frame _
    refine ⟨client.relayPacket order (frame.take 2000), rfl, fun server key fits => ?_⟩
    rw [List.take_of_length_le (Nat.le_trans fits (by decide))]
    exact ⟨dispatch_frame order server client key frame fits,
      writes_frame order server client key frame fits⟩

/-- A server in clear with one session, and the client that has it. -/
def plainTunnel : TunnelServer :=
  (plainServer.server.handleNetworkDatagram .little plainPeer (plainRequest 7) 11 0).1

def plainClient : TunnelClient := .new .little [] 11 { sinFamily := 2, sinPort := 9, sinAddr := 1 }

/-- A frame to everybody, of `n` bytes. -/
def plainBroadcast (n : Nat) : Bytes := List.replicate n 255

theorem upstream_exact_broadcast :
    ∃ datagram, plainClient.handleVirtualEthernet .little (plainBroadcast 19) =
        [.send plainClient.server datagram] ∧
      writes (plainTunnel.handleNetworkDatagram .little plainPeer datagram 0 1).2 =
        [plainBroadcast 19] := by
  obtain ⟨datagram, sent, received⟩ :=
    (upstream_exact .little).2 plainClient (plainBroadcast 19) (by decide)
  have written := (received plainTunnel (by decide +kernel) (by decide)).2 plainPeer 0 1
  rw [if_pos (by decide +kernel)] at written
  exact ⟨datagram, sent, written⟩

/-! Downstream. -/

section Targets
variable (order : ByteOrder) (server : TunnelServer) {frame : Bytes} (clients : List Ptr)

theorem frameTargets_short (short : frame.length < EthernetHeader.sizeof) :
    server.frameTargets order frame clients = [] := by
  rw [frameTargets, if_pos short]

theorem frameTargets_group (long : EthernetHeader.sizeof ≤ frame.length)
    (group : frame.headD 0 % 2 = 1) : server.frameTargets order frame clients = clients := by
  obtain ⟨header, parsed, dst⟩ := EthernetHeader.read_dst order frame long
  rw [frameTargets, if_neg (Nat.not_lt.mpr long), parsed]
  dsimp only
  rw [dst, headD_take, if_pos group]

theorem frameTargets_single (long : EthernetHeader.sizeof ≤ frame.length)
    (single : frame.headD 0 % 2 ≠ 1) (mac : MacAddress) (dst : mac.addr = frame.take 6) :
    server.frameTargets order frame clients = (server.dict.mac.find mac).toList := by
  obtain ⟨header, parsed, same⟩ := EthernetHeader.read_dst order frame long
  have found := UnorderedMap.find_congr server.dict.mac header.dst mac
    ((MacAddress.beq_iff _ _).mpr (same.trans dst.symm))
  rw [frameTargets, if_neg (Nat.not_lt.mpr long), parsed]
  dsimp only
  rw [same, headD_take, if_neg single, found]

end Targets

/-- What the client behind a relayed datagram writes. -/
theorem relayed_written (order : ByteOrder) (server : TunnelServer) (client : TunnelClient)
    (key : client.crypto = server.crypto) (peer : SockAddr)
    (valid : client.validDataSource peer = true) (frame : Bytes) (read : frame.length ≤ 2000) :
    client.handleNetworkDatagram order peer (server.relayPacket order frame) =
      (client, if EthernetHeader.sizeof ≤ frame.length ∧ frame.length ≤ 1992 then [.write frame]
        else []) := by
  rw [relayPacket, TunnelClient.handle_packet order server client key peer valid _ _ read]
  exact if_neg (by decide)

/-- Downstream, exactly: which clients a frame is sent to, and what each of them
writes of it. `clients` is the order in which the loop comes to `dict.mac`. -/
theorem downstream_exact (order : ByteOrder) (server : TunnelServer) (frame : Bytes)
    (read : frame.length ≤ 2000) (clients : List Ptr)
    (iterated : clients.Perm (server.dict.mac.entries.map Prod.snd)) :
    let actions := server.handleVirtualEthernet order frame clients
    let relayed := fun info =>
      Action.send (server.client info).address (server.relayPacket order frame)
    (frame.length < EthernetHeader.sizeof → actions = []) ∧
    (EthernetHeader.sizeof ≤ frame.length → frame.headD 0 % 2 = 1 →
      actions.Perm (server.dict.mac.entries.map fun entry => relayed entry.2)) ∧
    (EthernetHeader.sizeof ≤ frame.length → frame.headD 0 % 2 ≠ 1 →
      ∀ mac : MacAddress, mac.addr = frame.take 6 →
        actions = (server.dict.mac.find mac).toList.map relayed) ∧
    ∀ address data, .send address data ∈ actions →
      ∀ (client : TunnelClient) (peer : SockAddr), client.crypto = server.crypto →
        client.validDataSource peer = true →
        client.handleNetworkDatagram order peer data =
          (client, if frame.length ≤ 1992 then [.write frame] else []) := by
  intro actions relayed
  have uncut : frame.take 2000 = frame := List.take_of_length_le read
  have same : actions = (server.frameTargets order frame clients).map relayed := by
    simp only [actions, handleVirtualEthernet, uncut, relayed]
  rw [same]
  refine ⟨?_, ?_, ?_, ?_⟩
  · intro short
    rw [frameTargets_short order server clients short, List.map_nil]
  · intro long group
    rw [frameTargets_group order server clients long group]
    simpa [List.map_map, Function.comp_def] using iterated.map relayed
  · intro long single mac dst
    rw [frameTargets_single order server clients long single mac dst]
  · intro address data sent client peer key valid
    obtain ⟨info, target, packed⟩ := List.mem_map.mp sent
    cases packed
    -- Whoever gets a datagram, the frame had a whole header.
    have long : EthernetHeader.sizeof ≤ frame.length := by
      refine Nat.le_of_not_lt fun short => ?_
      rw [frameTargets_short order server clients short] at target
      cases target
    rw [relayed_written order server client key peer valid frame read]
    simp [long]

theorem downstream_exact_broadcast :
    plainClient.handleNetworkDatagram .little plainClient.server
        (plainTunnel.relayPacket .little (plainBroadcast 18)) =
      (plainClient, [.write (plainBroadcast 18)]) := by
  have listed : plainTunnel.dict.mac.entries.map Prod.snd = [0] := by decide +kernel
  obtain ⟨_, group, _, received⟩ := downstream_exact .little plainTunnel (plainBroadcast 18)
    (by decide) [0] (listed ▸ List.Perm.refl _)
  have sent := group (by decide) (by decide)
  obtain ⟨entry, member, _⟩ := List.mem_map.mp (listed ▸ List.mem_singleton_self 0)
  have arrives := sent.mem_iff.mpr (List.mem_map_of_mem member)
  exact received _ _ arrives plainClient plainClient.server (by decide +kernel) rfl

/-! Both directions. -/

def Down (order : ByteOrder) (server : TunnelServer) (clients : List Ptr) (client : TunnelClient)
    (info : Ptr) (source : SockAddr) (frame : Bytes) : Prop :=
  ∃ data, .send (server.client info).address data ∈
      server.handleVirtualEthernet order frame clients ∧
    frame ∈ writes (client.handleNetworkDatagram order source data).2

def Up (order : ByteOrder) (server : TunnelServer) (client : TunnelClient) (peer : SockAddr)
    (random : UInt32) (time : Int) (frame : Bytes) : Prop :=
  ∃ data, .send client.server data ∈ client.handleVirtualEthernet order frame ∧
    frame ∈ writes (server.handleNetworkDatagram order peer data random time).2

section Pair
variable {order : ByteOrder} {server : TunnelServer} {client : TunnelClient} {frame : Bytes}

/-- A long enough frame goes to the client that its destination is registered for. -/
theorem target_of_route {mac : MacAddress} {info : Ptr}
    (route : server.dict.mac.find mac = some info) (dst : frame.take 6 = mac.addr)
    (long : EthernetHeader.sizeof ≤ frame.length) {clients : List Ptr}
    (iterated : clients.Perm (server.dict.mac.entries.map Prod.snd)) :
    info ∈ server.frameTargets order frame clients := by
  by_cases group : frame.headD 0 % 2 = 1
  · obtain ⟨stored, member, _⟩ := (UnorderedMap.find_eq_some_iff _ _ _).mp route
    rw [frameTargets_group order server clients long group]
    exact iterated.mem_iff.mpr (List.mem_map_of_mem member)
  · rw [frameTargets_single order server clients long group mac dst.symm, route]
    exact List.mem_singleton_self _

theorem down_iff (key : client.crypto = server.crypto) {source : SockAddr}
    (valid : client.validDataSource source = true) {clients : List Ptr}
    (iterated : clients.Perm (server.dict.mac.entries.map Prod.snd)) {mac : MacAddress} {info : Ptr}
    (route : server.dict.mac.find mac = some info) (dst : frame.take 6 = mac.addr)
    (fits : frame.length ≤ 1592) :
    Down order server clients client info source frame ↔ EthernetHeader.sizeof ≤ frame.length := by
  have read : frame.length ≤ 2000 := Nat.le_trans fits (by decide)
  rw [Down, handleVirtualEthernet, List.take_of_length_le read]
  constructor
  · rintro ⟨data, sent, _⟩
    refine Nat.le_of_not_lt fun short => ?_
    rw [frameTargets_short order server clients short] at sent
    cases sent
  · intro long
    refine ⟨_, List.mem_map.mpr ⟨info, target_of_route route dst long iterated, rfl⟩, ?_⟩
    rw [relayed_written order server client key source valid frame read,
      if_pos ⟨long, Nat.le_trans fits (by decide)⟩]
    exact List.mem_singleton_self frame

theorem up_iff (key : client.crypto = server.crypto)
    (known : (server.dict.id.find client.identity).isSome = true)
    (addressed : Addressed server frame) (fits : frame.length ≤ 1592) (peer : SockAddr)
    (random : UInt32) (time : Int) :
    Up order server client peer random time frame ↔ EthernetHeader.sizeof < frame.length := by
  have written := writes_frame order server client key.symm frame fits peer random time
  rw [Up, TunnelClient.handleVirtualEthernet,
    List.take_of_length_le (Nat.le_trans fits (by decide))]
  constructor
  · rintro ⟨data, sent, wrote⟩
    cases List.mem_singleton.mp sent
    rw [written] at wrote
    exact (List.mem_ite_nil_right.mp wrote).1.1
  · intro long
    refine ⟨_, List.mem_singleton_self _, ?_⟩
    rw [written, if_pos ⟨long, known, addressed⟩]
    exact List.mem_singleton_self frame

end Pair

/-- For every length that fits: the two directions accept the same frames of
that length if and only if it is not the length of a bare header. -/
theorem same_frames_iff (order : ByteOrder) (server : TunnelServer) (client : TunnelClient)
    (key : client.crypto = server.crypto) (mac : MacAddress) (info : Ptr)
    (known : server.dict.id.find client.identity = some info)
    (route : server.dict.mac.find mac = some info) (clients : List Ptr)
    (iterated : clients.Perm (server.dict.mac.entries.map Prod.snd)) (source : SockAddr)
    (valid : client.validDataSource source = true) (peer : SockAddr) (random : UInt32) (time : Int)
    (n : Nat) (fits : n ≤ 1592) :
    (∀ f g : Bytes, f.length = n → g.length = n → f.take 6 = mac.addr → Addressed server g →
      (Down order server clients client info source f ↔
        Up order server client peer random time g)) ↔ n ≠ EthernetHeader.sizeof := by
  have present : (server.dict.id.find client.identity).isSome = true := by simp [known]
  constructor
  · rintro same rfl
    have down : (mac.addr ++ List.replicate 12 0).length = EthernetHeader.sizeof := by
      simp [mac.sixBytes, EthernetHeader.sizeof]
    have dst : (mac.addr ++ List.replicate 12 0).take 6 = mac.addr :=
      List.take_left' mac.sixBytes
    have up : (plainBroadcast EthernetHeader.sizeof).length = EthernetHeader.sizeof := by decide
    have group : Addressed server (plainBroadcast EthernetHeader.sizeof) := Or.inl (by decide)
    have both := same _ _ down up dst group
    -- The client takes a frame that is all header, and the server does not.
    rw [down_iff key valid iterated route dst (by rw [down]; exact fits),
      up_iff key present group (by rw [up]; exact fits), down, up] at both
    exact Nat.lt_irrefl _ (both.mp (Nat.le_refl _))
  · intro other f g fLength gLength dst addressed
    rw [down_iff key valid iterated route dst (by rw [fLength]; exact fits),
      up_iff key present addressed (by rw [gLength]; exact fits), fLength, gLength]
    exact ⟨fun long => Nat.lt_of_le_of_ne long other.symm, Nat.le_of_lt⟩

theorem same_frames_full_length :
    (∀ f g : Bytes, f.length = 1500 → g.length = 1500 → f.take 6 = (plainMac 7).addr →
      Addressed plainTunnel g →
      (Down .little plainTunnel [0] plainClient 0 plainClient.server f ↔
        Up .little plainTunnel plainClient plainPeer 0 1 g)) ↔ 1500 ≠ EthernetHeader.sizeof := by
  have listed : plainTunnel.dict.mac.entries.map Prod.snd = [0] := by decide +kernel
  exact same_frames_iff .little plainTunnel plainClient (by decide +kernel) (plainMac 7) 0
    (by decide +kernel) (by decide +kernel) [0] (listed ▸ List.Perm.refl _) plainClient.server rfl
    plainPeer 0 1 1500 (by decide)

/-- A frame of 18 bytes: it gets to the client, and one like it to the server is lost. -/
theorem same_frames_fails :
    Down .little plainTunnel [0] plainClient 0 plainClient.server
        ((plainMac 7).addr ++ List.replicate 12 0) ∧
      Addressed plainTunnel (plainBroadcast 18) ∧
      ¬ Up .little plainTunnel plainClient plainPeer 0 1 (plainBroadcast 18) := by
  have listed : plainTunnel.dict.mac.entries.map Prod.snd = [0] := by decide +kernel
  have group : Addressed plainTunnel (plainBroadcast 18) := Or.inl (by decide)
  have route : plainTunnel.dict.mac.find (plainMac 7) = some 0 := by decide +kernel
  refine ⟨?_, group, ?_⟩
  · exact (down_iff (by decide +kernel) rfl (listed ▸ List.Perm.refl _) route rfl
      (by decide)).mpr (by decide)
  · rw [up_iff (by decide +kernel) (by decide +kernel) group (by decide)]
    decide

end Muddymask
