import Muddymask.Relay

/-!
The datagrams that either end accepts. For the server this comes with a second
version of the dispatcher and its handlers in which every read of a packet and
of `kHandlerTable` asks for its bytes by offset and length and fails outside of
them: it never does. The client's checks are weaker than its format, and the
last part says by which datagrams.
-/

namespace Muddymask

open Words TunnelServer

namespace Checked

def slice (packet : Bytes) (offset count : Nat) : Option Bytes :=
  if offset + count ≤ packet.length then some ((packet.drop offset).take count) else none

theorem slice_front {packet : Bytes} {count : Nat} (inside : count ≤ packet.length) :
    slice packet 0 count = some (packet.take count) := by
  simp [slice, inside]

def dispatch (order : ByteOrder) (crypto : DummyCrypto) (packet : Bytes) : Option Dispatch :=
  let size := packet.length
  if size < PacketHeader.sizeof ∨ size > 1600 then some .ignore
  else
    let packet := crypto.decrypt order packet size
    (slice packet 0 PacketHeader.sizeof).bind fun front =>
      (PacketHeader.read order front).bind fun header =>
        if header.length.toNat + PacketHeader.sizeof ≠ size then some .ignore
        else if header.version ≠ PacketHeader.kVersion then some .wrongVersion
        else if header.type = 0 ∨ header.type ≥ PacketHeader.kTypeCount then some .ignore
        else kHandlerTable[header.type.toNat]?.map fun entry => match entry with
          | none => .ignore
          | some handler => .call handler header.identity (packet.drop PacketHeader.sizeof)
              header.length.toNat

def relayData (order : ByteOrder) (server : TunnelServer) (peer : SockAddr) (id : UInt32)
    (packet : Bytes) (length : Nat) : Option (List Action) :=
  if length ≤ EthernetHeader.sizeof then some []
  else match server.dict.id.find id with
    | none => some [server.sendErrorCode order peer .kRestartSession]
    | some _ =>
        let write := (slice packet 0 length).map fun data => [Action.write data]
        (slice packet 0 1).bind fun first =>
          if first.headD 0 % 2 = 1 then write
          else (slice packet 0 6).bind fun dst =>
            if dst = server.config.vmac.addr then write else some []

/-- The MAC is read after the address is taken from the pool. -/
def openSession (order : ByteOrder) (server : TunnelServer) (peer : SockAddr) (packet : Bytes)
    (length : Nat) (random : UInt32) (time : Int) : Option (Option Ptr × TunnelServer) :=
  if length ≠ StartSession.sizeof then some (none, server)
  else
    let allocated := server.pool.allocateAddress order
    let server := { server with pool := allocated.2 }
    if allocated.1 = 0 then some (none, server)
    else
      (slice packet 0 StartSession.sizeof).bind fun bytes =>
        (StartSession.read order bytes).map fun request =>
          (some server.next, server.newClient
            { tun := { ip := allocated.1, mac := request.mac }, address := peer,
              identity := random, alive := time })

def startSession (order : ByteOrder) (server : TunnelServer) (peer : SockAddr) (packet : Bytes)
    (length : Nat) (random : UInt32) (time : Int) : Option (TunnelServer × List Action) :=
  (openSession order server peer packet length random time).map fun opened => match opened with
    | (none, server) => (server, [])
    | (some info, server) =>
        let record := server.client info
        (server.registerClient info,
          [server.sendSessionInfo order peer record.identity record.tun.ip])

/-- A heartbeat's payload is not read at all. -/
def handleNetworkDatagram (order : ByteOrder) (server : TunnelServer) (peer : SockAddr)
    (datagram : Bytes) (random : UInt32) (time : Int) : Option (TunnelServer × List Action) :=
  (dispatch order server.crypto (recv datagram 2000)).bind fun decision => match decision with
    | .ignore => some (server, [])
    | .wrongVersion => some (server, [server.sendErrorCode order peer .kWrongVersion])
    | .call .handleHeartbeat id _ length =>
        some (server.handleHeartbeat order peer id length time)
    | .call .startSession _ packet length =>
        startSession order server peer packet length random time
    | .call .relayData id packet length =>
        (relayData order server peer id packet length).map fun actions => (server, actions)

theorem read_front (order : ByteOrder) (packet : Bytes)
    (enough : PacketHeader.sizeof ≤ packet.length) :
    PacketHeader.read order (packet.take PacketHeader.sizeof) = PacketHeader.read order packet := by
  match packet, enough with
  | _ :: _ :: _ :: _ :: _ :: _ :: _ :: _ :: _, _ => rfl

theorem handlerTable_inside {type : UInt8} (small : ¬ (type = 0 ∨ type ≥ PacketHeader.kTypeCount)) :
    ∃ entry, kHandlerTable[type.toNat]? = some entry := by
  have below : type.toNat < kHandlerTable.length := by
    have bound : ¬ 6 ≤ type.toNat := fun large => small (Or.inr (UInt8.le_iff_toNat_le.mpr large))
    simpa [kHandlerTable] using bound
  exact ⟨_, List.getElem?_eq_getElem below⟩

theorem dispatch_eq (order : ByteOrder) (crypto : DummyCrypto) (packet : Bytes) :
    dispatch order crypto packet = some (TunnelServer.dispatch order crypto packet) := by
  simp only [dispatch, TunnelServer.dispatch]
  by_cases size : packet.length < PacketHeader.sizeof ∨ packet.length > 1600
  · rw [if_pos size, if_pos size]
  · rw [if_neg size, if_neg size]
    have enough : PacketHeader.sizeof ≤ (crypto.decrypt order packet packet.length).length := by
      rw [DummyCrypto.decrypt_length]
      omega
    obtain ⟨header, parsed⟩ := PacketHeader.read_isSome order _ enough
    rw [slice_front enough, Option.bind_some, read_front order _ enough, parsed, Option.bind_some]
    dsimp only
    by_cases agrees : header.length.toNat + PacketHeader.sizeof = packet.length
    · by_cases version : header.version = PacketHeader.kVersion
      · by_cases type : header.type = 0 ∨ header.type ≥ PacketHeader.kTypeCount
        · simp only [agrees, version, ne_eq, not_true_eq_false, ↓reduceIte, type]
        · obtain ⟨entry, found⟩ := handlerTable_inside type
          simp only [agrees, version, ne_eq, not_true_eq_false, ↓reduceIte, type, found]
          cases entry <;> rfl
      · simp only [agrees, version, ne_eq, not_true_eq_false, ↓reduceIte, not_false_eq_true]
    · simp only [agrees, ne_eq, not_false_eq_true, ↓reduceIte]

section Handlers
variable (order : ByteOrder) (server : TunnelServer) (peer : SockAddr) (packet : Bytes)

theorem relayData_eq (id : UInt32) :
    relayData order server peer id packet packet.length =
      some (server.relayData order peer id packet packet.length) := by
  rw [relayData, TunnelServer.relayData]
  by_cases short : packet.length ≤ EthernetHeader.sizeof
  · rw [if_pos short, if_pos short]
  · rw [if_neg short, if_neg short]
    cases server.dict.id.find id with
    | none => rfl
    | some info =>
        have long : EthernetHeader.sizeof ≤ packet.length := Nat.le_of_not_le short
        obtain ⟨header, parsed, dst⟩ := EthernetHeader.read_dst order packet long
        have same : (header.dst == server.config.vmac) = true ↔
            packet.take 6 = server.config.vmac.addr := by
          rw [MacAddress.beq_iff, dst]
        have first : (packet.take 1).headD 0 = packet.headD 0 := by cases packet <;> rfl
        dsimp only
        rw [slice_front (Nat.le_trans (by decide) long : 1 ≤ _),
          slice_front (Nat.le_trans (by decide) long : 6 ≤ _), slice_front (Nat.le_refl _), parsed]
        simp only [Option.bind_some, Option.map_some, first]
        rw [dst, headD_take]
        by_cases group : packet.headD 0 % 2 = 1
        · rw [if_pos group, if_neg fun other => other.1 group]
        · rw [if_neg group]
          by_cases own : packet.take 6 = server.config.vmac.addr
          · rw [if_pos own, if_neg fun other => by simp [same.mpr own] at other]
          · rw [if_neg own, if_pos ⟨group, Bool.eq_false_iff.mpr fun found => own (same.mp found)⟩]

theorem openSession_eq (random : UInt32) (time : Int) :
    openSession order server peer packet packet.length random time =
      some (server.openSession order peer packet packet.length random time) := by
  rw [openSession, TunnelServer.openSession]
  by_cases sized : packet.length = StartSession.sizeof
  · obtain ⟨request, parsed⟩ := StartSession.read_isSome order packet (Nat.le_of_eq sized.symm)
    have whole : slice packet 0 StartSession.sizeof = some packet := by
      rw [slice_front (Nat.le_of_eq sized.symm), List.take_of_length_le (Nat.le_of_eq sized)]
    rw [if_neg (not_not.mpr sized), if_neg (not_not.mpr sized), whole]
    simp only [Option.bind_some, parsed, Option.map_some]
    split <;> rfl
  · rw [if_pos sized, if_pos sized]

theorem startSession_eq (random : UInt32) (time : Int) :
    startSession order server peer packet packet.length random time =
      some (server.startSession order peer packet packet.length random time) := by
  rw [startSession, TunnelServer.startSession, openSession_eq]
  rcases server.openSession order peer packet packet.length random time with ⟨_ | info, after⟩ <;>
    rfl

/-- No read of the dispatcher or of a handler is out of bounds. -/
theorem handle_eq (datagram : Bytes) (random : UInt32) (time : Int) :
    handleNetworkDatagram order server peer datagram random time =
      some (server.handleNetworkDatagram order peer datagram random time) := by
  rw [handleNetworkDatagram, TunnelServer.handleNetworkDatagram, dispatch_eq, Option.bind_some]
  cases seen : TunnelServer.dispatch order server.crypto (recv datagram 2000) with
  | ignore => rfl
  | wrongVersion => rfl
  | call handler id payload length =>
      -- The handlers are told the length their payload has.
      have sized := dispatch_length seen
      subst sized
      cases handler with
      | handleHeartbeat => rfl
      | startSession => exact startSession_eq order server peer payload random time
      | relayData =>
          dsimp only
          rw [relayData_eq, Option.map_some]

end Handlers

end Checked

/-! What the server accepts. -/

/-- The header of a packet, if the size is right and the header agrees with it. -/
def Sized (order : ByteOrder) (crypto : DummyCrypto) (packet : Bytes) (header : PacketHeader) : Prop :=
  PacketHeader.sizeof ≤ packet.length ∧ packet.length ≤ 1600 ∧
    PacketHeader.read order (crypto.decrypt order packet packet.length) = some header ∧
    header.length.toNat + PacketHeader.sizeof = packet.length

def Accepted (order : ByteOrder) (crypto : DummyCrypto) (packet : Bytes) : Prop :=
  ∃ header, Sized order crypto packet header ∧ header.version = PacketHeader.kVersion ∧
    (header.type = PacketHeader.kHeartbeat ∨ header.type = PacketHeader.kStartSession ∨
      header.type = PacketHeader.kRelayData)

def Misversioned (order : ByteOrder) (crypto : DummyCrypto) (packet : Bytes) : Prop :=
  ∃ header, Sized order crypto packet header ∧ header.version ≠ PacketHeader.kVersion

def Called (order : ByteOrder) (crypto : DummyCrypto) (packet : Bytes) : Prop :=
  ∃ handler identity payload length,
    dispatch order crypto packet = .call handler identity payload length

theorem handled_iff (type : UInt8) :
    (∃ handler, kHandlerTable[type.toNat]? = some (some handler)) ↔
      type = PacketHeader.kHeartbeat ∨ type = PacketHeader.kStartSession ∨
        type = PacketHeader.kRelayData := by
  simp only [kHandlerTable_iff]
  constructor
  · rintro ⟨_ | _ | _, same⟩
    · exact Or.inl same
    · exact Or.inr (Or.inl same)
    · exact Or.inr (Or.inr same)
  · rintro (same | same | same)
    · exact ⟨.handleHeartbeat, same⟩
    · exact ⟨.startSession, same⟩
    · exact ⟨.relayData, same⟩

theorem called_iff (order : ByteOrder) (crypto : DummyCrypto) (packet : Bytes) :
    Called order crypto packet ↔ Accepted order crypto packet := by
  constructor
  · rintro ⟨handler, identity, payload, length, called⟩
    obtain ⟨header, low, high, parsed, agrees, version, handled, _⟩ :=
      (dispatch_call_iff ..).mp called
    exact ⟨header, ⟨low, high, parsed, agrees⟩, version, (handled_iff _).mp ⟨handler, handled⟩⟩
  · rintro ⟨header, ⟨low, high, parsed, agrees⟩, version, known⟩
    obtain ⟨handler, handled⟩ := (handled_iff _).mpr known
    exact ⟨handler, _, _, _, (dispatch_call_iff ..).mpr
      ⟨header, low, high, parsed, agrees, version, handled, rfl, rfl, rfl⟩⟩

/-- The dispatcher, exactly: nothing is read out of bounds, a handler is called
for the format and for nothing else, and what is not handled has no effect, but
that another version is answered. -/
theorem dispatch_exact (order : ByteOrder) (server : TunnelServer) (peer : SockAddr)
    (datagram : Bytes) (random : UInt32) (time : Int) :
    let packet := recv datagram 2000
    let handled := server.handleNetworkDatagram order peer datagram random time
    Checked.handleNetworkDatagram order server peer datagram random time = some handled ∧
    (Called order server.crypto packet ↔ Accepted order server.crypto packet) ∧
    (¬ Called order server.crypto packet → handled.1 = server ∧ writes handled.2 = [] ∧
      ((∃ address data, .send address data ∈ handled.2) ↔
        Misversioned order server.crypto packet)) := by
  intro packet handled
  refine ⟨Checked.handle_eq .., called_iff .., fun uncalled => ?_⟩
  have misversioned : dispatch order server.crypto packet = .wrongVersion ↔
      Misversioned order server.crypto packet := by
    rw [dispatch_wrongVersion_iff]
    simp only [Misversioned, Sized, and_assoc]
  have same : handled = server.handleNetworkDatagram order peer datagram random time := rfl
  rw [handleNetworkDatagram] at same
  cases seen : dispatch order server.crypto packet with
  | ignore =>
      rw [seen] at same misversioned
      rw [same]
      exact ⟨rfl, rfl, by simpa using misversioned⟩
  | wrongVersion =>
      rw [seen] at same misversioned
      rw [same]
      exact ⟨rfl, rfl, by simpa [sendErrorCode] using misversioned⟩
  | call handler identity payload length =>
      exact absurd ⟨handler, identity, payload, length, seen⟩ uncalled

theorem dispatch_exact_version :
    let request : Bytes := [2, 2, 8, 0, 0, 0, 0, 0, 2, 0, 0, 0, 0, 8, 0, 0]
    let handled := plainTunnel.handleNetworkDatagram .little plainPeer request 12 1
    ¬ Called .little plainTunnel.crypto (recv request 2000) ∧ handled.1 = plainTunnel ∧
      writes handled.2 = [] ∧ ∃ address data, .send address data ∈ handled.2 := by
  intro request handled
  obtain ⟨_, _, uncalled⟩ := dispatch_exact .little plainTunnel plainPeer request 12 1
  have other : Misversioned .little plainTunnel.crypto (recv request 2000) :=
    ⟨{ type := 2, version := 2, length := 8, identity := 0 },
      ⟨by decide, by decide, by decide +kernel, by decide⟩, by decide⟩
  have seen : dispatch .little plainTunnel.crypto (recv request 2000) = .wrongVersion := by
    rw [dispatch_wrongVersion_iff]
    simpa only [Misversioned, Sized, and_assoc] using other
  have ignored : ¬ Called .little plainTunnel.crypto (recv request 2000) := by
    rintro ⟨handler, identity, payload, length, called⟩
    cases seen.symm.trans called
  obtain ⟨same, silent, answered⟩ := uncalled ignored
  exact ⟨ignored, same, silent, answered.mpr other⟩

/-! What the client accepts. -/

/-- A packet of the protocol of this type, with its payload. -/
def WellFormed (order : ByteOrder) (crypto : DummyCrypto) (packet : Bytes) (type : UInt8)
    (payload : Bytes) : Prop :=
  let plain := crypto.decrypt order packet packet.length
  ∃ header, PacketHeader.read order plain = some header ∧
    header.version = PacketHeader.kVersion ∧ header.type = type ∧
    header.length.toNat + PacketHeader.sizeof = packet.length ∧
    payload = plain.drop PacketHeader.sizeof

def FramePacket (order : ByteOrder) (crypto : DummyCrypto) (packet payload : Bytes) : Prop :=
  WellFormed order crypto packet PacketHeader.kRelayData payload ∧
    EthernetHeader.sizeof ≤ payload.length

def ErrorPacket (order : ByteOrder) (crypto : DummyCrypto) (packet : Bytes) : Prop :=
  ∃ payload, WellFormed order crypto packet PacketHeader.kErrorDetail payload ∧
    payload.length = ErrorDetail.sizeof

/-- The client does what the format says and ignores everything else. -/
structure FollowsFormat (order : ByteOrder) (client : TunnelClient) (packet : Bytes)
    (handled : TunnelClient × List Action) : Prop where
  writes : ∀ payload, FramePacket order client.crypto packet payload →
    Muddymask.writes handled.2 = [payload]
  writesOnly : (¬ ∃ payload, FramePacket order client.crypto packet payload) →
    Muddymask.writes handled.2 = []
  stops : ErrorPacket order client.crypto packet → handled.1 = { client with stop := true }
  stopsOnly : ¬ ErrorPacket order client.crypto packet → handled.1 = client

/-- What the client takes for an error is one, and what it takes for a frame is one. -/
def Unambiguous (order : ByteOrder) (crypto : DummyCrypto) (packet : Bytes) : Prop :=
  ∀ header, PacketHeader.read order (crypto.decrypt order packet packet.length) = some header →
    if header.type = PacketHeader.kErrorDetail then
      header.version = PacketHeader.kVersion ∧
        header.length.toNat + PacketHeader.sizeof = packet.length ∧
        header.length.toNat = ErrorDetail.sizeof
    else EthernetHeader.sizeof ≤ header.length.toNat →
      header.length.toNat + PacketHeader.sizeof = packet.length →
        header.version = PacketHeader.kVersion ∧ header.type = PacketHeader.kRelayData

theorem read_short (order : ByteOrder) {packet : Bytes}
    (short : packet.length < PacketHeader.sizeof) : PacketHeader.read order packet = none := by
  unfold PacketHeader.read
  split
  · simp only [PacketHeader.sizeof, List.length_cons] at short
    omega
  · rfl

theorem wellFormed_iff {order : ByteOrder} {crypto : DummyCrypto} {packet : Bytes}
    {header : PacketHeader}
    (parsed : PacketHeader.read order (crypto.decrypt order packet packet.length) = some header)
    (type : UInt8) (payload : Bytes) :
    WellFormed order crypto packet type payload ↔ header.version = PacketHeader.kVersion ∧
      header.type = type ∧ header.length.toNat + PacketHeader.sizeof = packet.length ∧
      payload = (crypto.decrypt order packet packet.length).drop PacketHeader.sizeof := by
  simp [WellFormed, parsed]

section Client
variable {order : ByteOrder} {client : TunnelClient} {packet : Bytes} {header : PacketHeader}

theorem followsFormat_unread
    (unread : PacketHeader.read order (client.crypto.decrypt order packet packet.length) = none) :
    FollowsFormat order client packet (client, []) where
  writes := by
    rintro payload ⟨⟨_, parsed, _⟩, _⟩
    cases unread.symm.trans parsed
  writesOnly := fun _ => rfl
  stops := by
    rintro ⟨_, ⟨_, parsed, _⟩, _⟩
    cases unread.symm.trans parsed
  stopsOnly := fun _ => rfl

theorem followsFormat_stop (running : client.stop = false)
    (parsed : PacketHeader.read order (client.crypto.decrypt order packet packet.length) =
      some header) (error : header.type = PacketHeader.kErrorDetail) :
    FollowsFormat order client packet ({ client with stop := true }, []) ↔
      header.version = PacketHeader.kVersion ∧
        header.length.toNat + PacketHeader.sizeof = packet.length ∧
        header.length.toNat = ErrorDetail.sizeof := by
  have unframed : ∀ payload, ¬ FramePacket order client.crypto packet payload := by
    rintro payload ⟨formed, _⟩
    have type := ((wellFormed_iff parsed _ _).mp formed).2.1
    rw [error] at type
    exact absurd type (by decide)
  have detail : ErrorPacket order client.crypto packet ↔
      header.version = PacketHeader.kVersion ∧
        header.length.toNat + PacketHeader.sizeof = packet.length ∧
        header.length.toNat = ErrorDetail.sizeof := by
    constructor
    · rintro ⟨payload, formed, size⟩
      obtain ⟨version, _, agrees, rfl⟩ := (wellFormed_iff parsed _ _).mp formed
      exact ⟨version, agrees, payload_length client.crypto agrees ▸ size⟩
    · rintro ⟨version, agrees, size⟩
      exact ⟨_, (wellFormed_iff parsed _ _).mpr ⟨version, error, agrees, rfl⟩,
        (payload_length client.crypto agrees).trans size⟩
  have changed : { client with stop := true } ≠ client := by
    intro same
    have stopped := congrArg TunnelClient.stop same
    rw [running] at stopped
    cases stopped
  rw [← detail]
  constructor
  · exact fun follows => not_not.mp fun other => changed (follows.stopsOnly other)
  · intro known
    exact { writes := fun payload framed => absurd framed (unframed payload)
            writesOnly := fun _ => rfl, stops := fun _ => rfl
            stopsOnly := fun other => absurd known other }

/-- The client writes what looks like a payload: right if it was relayed data. -/
theorem followsFormat_write
    (parsed : PacketHeader.read order (client.crypto.decrypt order packet packet.length) =
      some header) (other : header.type ≠ PacketHeader.kErrorDetail)
    (long : EthernetHeader.sizeof ≤ header.length.toNat)
    (agrees : header.length.toNat + PacketHeader.sizeof = packet.length) :
    FollowsFormat order client packet (client, [.write
        ((client.crypto.decrypt order packet packet.length).drop PacketHeader.sizeof)]) ↔
      header.version = PacketHeader.kVersion ∧ header.type = PacketHeader.kRelayData := by
  have framed : ∀ payload, FramePacket order client.crypto packet payload ↔
      (header.version = PacketHeader.kVersion ∧ header.type = PacketHeader.kRelayData) ∧
        payload = (client.crypto.decrypt order packet packet.length).drop PacketHeader.sizeof := by
    intro payload
    rw [FramePacket, wellFormed_iff parsed]
    constructor
    · rintro ⟨⟨version, type, _, behind⟩, _⟩
      exact ⟨⟨version, type⟩, behind⟩
    · rintro ⟨⟨version, type⟩, rfl⟩
      exact ⟨⟨version, type, agrees, rfl⟩, (payload_length client.crypto agrees).symm ▸ long⟩
  constructor
  · intro follows
    by_contra unfit
    have none := follows.writesOnly fun ⟨payload, frame⟩ => unfit ((framed payload).mp frame).1
    cases none
  · intro fit
    exact {
      writes := by
        intro payload frame
        rw [((framed payload).mp frame).2]
        rfl
      writesOnly := fun unframed => absurd ⟨_, (framed _).mpr ⟨fit, rfl⟩⟩ unframed
      stops := by
        rintro ⟨payload, formed, _⟩
        exact absurd ((wellFormed_iff parsed _ _).mp formed).2.1 other
      stopsOnly := fun _ => rfl }

/-- The client ignores what has the wrong length for either. -/
theorem followsFormat_ignore
    (parsed : PacketHeader.read order (client.crypto.decrypt order packet packet.length) =
      some header) (other : header.type ≠ PacketHeader.kErrorDetail)
    (unfit : ¬ (EthernetHeader.sizeof ≤ header.length.toNat ∧
      header.length.toNat + PacketHeader.sizeof = packet.length)) :
    FollowsFormat order client packet (client, []) where
  writes := by
    rintro payload ⟨formed, long⟩
    obtain ⟨_, _, agrees, rfl⟩ := (wellFormed_iff parsed _ _).mp formed
    exact absurd ⟨payload_length client.crypto agrees ▸ long, agrees⟩ unfit
  writesOnly := fun _ => rfl
  stops := by
    rintro ⟨payload, formed, _⟩
    exact absurd ((wellFormed_iff parsed _ _).mp formed).2.1 other
  stopsOnly := fun _ => rfl

end Client

/-- A datagram from the server's address: the client follows its format exactly
if the datagram is unambiguous. -/
theorem client_format_iff (order : ByteOrder) (client : TunnelClient) (running : client.stop = false)
    (peer : SockAddr) (valid : client.validDataSource peer = true) (datagram : Bytes) :
    FollowsFormat order client (recv datagram 2000)
        (client.handleNetworkDatagram order peer datagram) ↔
      Unambiguous order client.crypto (recv datagram 2000) := by
  rw [TunnelClient.handleNetworkDatagram]
  generalize recv datagram 2000 = packet
  have plain : (client.crypto.decrypt order packet packet.length).length = packet.length :=
    DummyCrypto.decrypt_length order client.crypto packet
  by_cases short : packet.length < PacketHeader.sizeof
  · have unread := read_short order (plain.symm ▸ short)
    rw [if_pos (Or.inl short)]
    exact iff_of_true (followsFormat_unread unread)
      fun header parsed => by cases unread.symm.trans parsed
  · obtain ⟨header, parsed⟩ := PacketHeader.read_isSome order _
      (plain.symm ▸ Nat.not_lt.mp short : PacketHeader.sizeof ≤ _)
    rw [if_neg (by simp [short, valid])]
    simp only [parsed, Unambiguous, Option.some.injEq, forall_eq']
    by_cases error : header.type = PacketHeader.kErrorDetail
    · rw [if_pos error, if_pos error]
      exact followsFormat_stop running parsed error
    · rw [if_neg error, if_neg error]
      by_cases fits : EthernetHeader.sizeof ≤ header.length.toNat ∧
          header.length.toNat + PacketHeader.sizeof = packet.length
      · have whole : ((client.crypto.decrypt order packet packet.length).drop
            PacketHeader.sizeof).take header.length.toNat =
            (client.crypto.decrypt order packet packet.length).drop PacketHeader.sizeof :=
          List.take_of_length_le (Nat.le_of_eq (payload_length client.crypto fits.2))
        rw [if_neg (by omega), whole, followsFormat_write parsed error fits.1 fits.2]
        exact ⟨fun fit _ _ => fit, fun fit => fit fits.1 fits.2⟩
      · rw [if_pos (by omega)]
        exact iff_of_true (followsFormat_ignore parsed error fits)
          fun long agrees => absurd ⟨long, agrees⟩ fits

theorem client_format_frame :
    FollowsFormat .little plainClient (recv (plainTunnel.relayPacket .little (plainBroadcast 18)) 2000)
        (plainClient.handleNetworkDatagram .little plainClient.server
          (plainTunnel.relayPacket .little (plainBroadcast 18))) ↔
      Unambiguous .little plainClient.crypto
        (recv (plainTunnel.relayPacket .little (plainBroadcast 18)) 2000) :=
  client_format_iff .little plainClient rfl plainClient.server rfl _

/-- A header without a payload, of type `kErrorDetail` and version 9: the client stops. -/
def strayError : Bytes := [5, 9, 0, 0, 0, 0, 0, 0]

theorem client_format_fails :
    ¬ FollowsFormat .little plainClient (recv strayError 2000)
      (plainClient.handleNetworkDatagram .little plainClient.server strayError) := by
  have parsed : PacketHeader.read .little (plainClient.crypto.decrypt .little
      (recv strayError 2000) (recv strayError 2000).length) =
      some { type := PacketHeader.kErrorDetail, version := 9, length := 0, identity := 0 } := by
    decide +kernel
  have handled : plainClient.handleNetworkDatagram .little plainClient.server strayError =
      ({ plainClient with stop := true }, []) := by
    rfl
  rw [handled, followsFormat_stop rfl parsed rfl]
  rintro ⟨version, _⟩
  exact absurd version (by decide)

end Muddymask
