import Muddymask.AddressPool
import Muddymask.DummyCrypto
import Muddymask.Packet
import Muddymask.UnorderedMap

/-!
`source/tunnel/TunnelServer.cpp`, each handler as a function of the server state.
A `ClientInfo*` is a `Ptr`: the number of the `new` that made the record. The
store of records is total, so that reading one is a plain application;
`Live` says which records exist, and that no thread reads any other one is
proved over the locks. The answers of `random()` and `std::time()` are
arguments. What a handler does to the outside is the list of its `Action`s in
program order; the sends are the last thing a handler does, so a handler that is
left by an exception of a send has performed a prefix of the list.
-/

namespace Muddymask

open Words

abbrev Ptr := Nat

structure Tun where
  ip : UInt32
  mac : MacAddress
  deriving Inhabited

structure ClientInfo where
  tun : Tun
  address : SockAddr
  identity : UInt32
  alive : Int
  deriving Inhabited

structure Config where
  gateway : UInt32
  netmask : UInt32
  vmac : MacAddress

structure Dict where
  id : UnorderedMap UInt32 Ptr
  mac : UnorderedMap MacAddress Ptr

structure TunnelServer where
  pool : AddressPool
  config : Config
  dict : Dict
  identity : UInt32
  crypto : DummyCrypto
  /-- The records, by the order of their creation. -/
  client : Ptr → ClientInfo
  /-- The next `new ClientInfo` gives this pointer. -/
  next : Ptr
  /-- Every `delete info` so far, the last first. -/
  deleted : List Ptr

inductive Action where
  | send (address : SockAddr) (data : Bytes)
  | write (data : Bytes)

namespace TunnelServer

/-- `wrapper::inet_addr_` of the text `a.b.c.d`. -/
def inetAddr (order : ByteOrder) (a b c d : UInt8) : UInt32 :=
  htonl order (a.toUInt32 <<< 24 ||| b.toUInt32 <<< 16 ||| c.toUInt32 <<< 8 ||| d.toUInt32)

/-- The constructor. `mac` is what `veth->getAddress` writes. -/
def new (order : ByteOrder) (mac : { mac : Bytes // mac.length = 6 }) (secret : Bytes)
    (random : UInt32) : TunnelServer where
  config := {
    gateway := inetAddr order 10 20 30 1
    netmask := inetAddr order 255 255 255 0
    vmac := { addr := mac.val, padding := 0, sixBytes := mac.property } }
  pool := {
    current := ntohl order (inetAddr order 10 20 30 100)
    upper := ntohl order (inetAddr order 10 20 30 200)
    free := [] }
  dict := { id := .empty, mac := .empty }
  identity := random
  crypto := .new order secret
  client := fun _ => default
  next := 0
  deleted := []

def Live (server : TunnelServer) (info : Ptr) : Prop :=
  info < server.next ∧ info ∉ server.deleted

def Registered (server : TunnelServer) (info : Ptr) : Prop :=
  (∃ id, (id, info) ∈ server.dict.id.entries) ∨ ∃ mac, (mac, info) ∈ server.dict.mac.entries

def setClient (server : TunnelServer) (info : Ptr) (record : ClientInfo) : TunnelServer :=
  { server with client := fun other => if other = info then record else server.client other }

@[simp] theorem setClient_dict (server : TunnelServer) (info : Ptr) (record : ClientInfo) :
    (server.setClient info record).dict = server.dict := rfl
@[simp] theorem setClient_crypto (server : TunnelServer) (info : Ptr) (record : ClientInfo) :
    (server.setClient info record).crypto = server.crypto := rfl
@[simp] theorem setClient_next (server : TunnelServer) (info : Ptr) (record : ClientInfo) :
    (server.setClient info record).next = server.next := rfl
@[simp] theorem setClient_deleted (server : TunnelServer) (info : Ptr) (record : ClientInfo) :
    (server.setClient info record).deleted = server.deleted := rfl
@[simp] theorem setClient_client (server : TunnelServer) (info other : Ptr) (record : ClientInfo) :
    (server.setClient info record).client other =
      if other = info then record else server.client other := rfl

/-! The packets the server sends. -/

/-- The common frame of the senders: a header, a payload, both encrypted. -/
def packet (order : ByteOrder) (server : TunnelServer) (type : UInt8) (payload : Bytes) : Bytes :=
  let header : PacketHeader :=
    { type, length := UInt16.ofNat payload.length, identity := server.identity }
  server.crypto.encrypt order (header.encode order ++ payload)
    (PacketHeader.sizeof + payload.length)

theorem packet_length (order : ByteOrder) (server : TunnelServer) (type : UInt8)
    (payload : Bytes) :
    (server.packet order type payload).length = PacketHeader.sizeof + payload.length := by
  have fits : PacketHeader.sizeof + payload.length ≤
      (({ type, length := UInt16.ofNat payload.length, identity := server.identity } :
        PacketHeader).encode order ++ payload).length := by
    simp
  rw [packet, DummyCrypto.encrypt_length _ _ _ _ fits]
  simp

theorem decrypt_packet (order : ByteOrder) (server : TunnelServer) (type : UInt8)
    (payload : Bytes) :
    server.crypto.decrypt order (server.packet order type payload)
        (server.packet order type payload).length =
      ({ type, length := UInt16.ofNat payload.length, identity := server.identity } :
        PacketHeader).encode order ++ payload := by
  rw [packet_length]
  exact DummyCrypto.decrypt_encrypt order _ _ _ (by simp)

def sendSessionInfo (order : ByteOrder) (server : TunnelServer) (peer : SockAddr)
    (id vip : UInt32) : Action :=
  let info : SessionInfo := { identity := id, address := vip, gateway := server.config.gateway,
                              netmask := server.config.netmask }
  .send peer (server.packet order PacketHeader.kSessionInfo (info.encode order))

def sendErrorCode (order : ByteOrder) (server : TunnelServer) (peer : SockAddr)
    (code : ErrorCode) : Action :=
  let detail : ErrorDetail := { code := code.code }
  .send peer (server.packet order PacketHeader.kErrorDetail (detail.encode order))

/-- The `data` that both relaying functions build from a frame. -/
def relayPacket (order : ByteOrder) (server : TunnelServer) (frame : Bytes) : Bytes :=
  server.packet order PacketHeader.kRelayData frame

/-! The handlers of the network thread. -/

inductive Handler where
  | handleHeartbeat
  | startSession
  | relayData
  deriving DecidableEq, Repr

def kHandlerTable : List (Option Handler) :=
  [none, some .handleHeartbeat, some .startSession, none, some .relayData, none]

def Handler.type : Handler → UInt8
  | .handleHeartbeat => PacketHeader.kHeartbeat
  | .startSession => PacketHeader.kStartSession
  | .relayData => PacketHeader.kRelayData

theorem kHandlerTable_iff (type : UInt8) (handler : Handler) :
    kHandlerTable[type.toNat]? = some (some handler) ↔ type = handler.type := by
  have index : ∀ n, kHandlerTable[n]? = some (some handler) ↔ n = handler.type.toNat := by
    intro n
    rcases n with _ | _ | _ | _ | _ | _ | n <;> cases handler <;>
      simp [kHandlerTable, Handler.type, PacketHeader.kHeartbeat, PacketHeader.kStartSession,
        PacketHeader.kRelayData]
  rw [index, UInt8.toNat_inj]

/-- What the checks of `handleNetworkDatagram` decide about a received packet. -/
inductive Dispatch where
  | ignore
  | wrongVersion
  | call (handler : Handler) (identity : UInt32) (packet : Bytes) (length : Nat)

/-- `recvfrom` cuts a datagram to the buffer. -/
def recv (datagram : Bytes) (size : Nat) : Bytes := datagram.take size

theorem recv_of_le {datagram : Bytes} {size : Nat} (fits : datagram.length ≤ size) :
    recv datagram size = datagram :=
  List.take_of_length_le fits

def dispatch (order : ByteOrder) (crypto : DummyCrypto) (packet : Bytes) : Dispatch :=
  let size := packet.length
  if size < PacketHeader.sizeof ∨ size > 1600 then .ignore
  else
    let packet := crypto.decrypt order packet size
    match PacketHeader.read order packet with
    | none => .ignore
    | some header =>
        if header.length.toNat + PacketHeader.sizeof ≠ size then .ignore
        else if header.version ≠ PacketHeader.kVersion then .wrongVersion
        else if header.type = 0 ∨ header.type ≥ PacketHeader.kTypeCount then .ignore
        else match kHandlerTable[header.type.toNat]? with
          | some (some handler) =>
              .call handler header.identity (packet.drop PacketHeader.sizeof) header.length.toNat
          | _ => .ignore

/-- Every way through the checks of `handleNetworkDatagram`. -/
theorem dispatch_cases (order : ByteOrder) (crypto : DummyCrypto) (packet : Bytes) :
    dispatch order crypto packet = .ignore ∨
    ∃ header, (PacketHeader.sizeof ≤ packet.length ∧ packet.length ≤ 1600 ∧
        PacketHeader.read order (crypto.decrypt order packet packet.length) = some header ∧
        header.length.toNat + PacketHeader.sizeof = packet.length) ∧
      ((dispatch order crypto packet = .wrongVersion ∧ header.version ≠ PacketHeader.kVersion) ∨
        ∃ handler, dispatch order crypto packet = .call handler header.identity
            ((crypto.decrypt order packet packet.length).drop PacketHeader.sizeof)
            header.length.toNat ∧
          header.version = PacketHeader.kVersion ∧
          kHandlerTable[header.type.toNat]? = some (some handler)) := by
  simp only [dispatch]
  by_cases size : packet.length < PacketHeader.sizeof ∨ packet.length > 1600
  · exact Or.inl (if_pos size)
  rw [if_neg size]
  cases parsed : PacketHeader.read order (crypto.decrypt order packet packet.length) with
  | none => exact Or.inl rfl
  | some header =>
      dsimp only
      by_cases agrees : header.length.toNat + PacketHeader.sizeof = packet.length
      · have sized := And.intro (by omega : PacketHeader.sizeof ≤ packet.length)
          (And.intro (by omega : packet.length ≤ 1600) (And.intro (Eq.refl (some header)) agrees))
        rw [if_neg (not_not.mpr agrees)]
        by_cases version : header.version = PacketHeader.kVersion
        · rw [if_neg (not_not.mpr version)]
          split
          · exact Or.inl rfl
          · split
            · rename_i handler hit
              exact Or.inr ⟨header, sized, Or.inr ⟨handler, rfl, version, hit⟩⟩
            · exact Or.inl rfl
        · rw [if_pos version]
          exact Or.inr ⟨header, sized, Or.inl ⟨rfl, version⟩⟩
      · exact Or.inl (if_pos agrees)

/-- The checks of `handleNetworkDatagram`, all at once. -/
theorem dispatch_call_iff (order : ByteOrder) (crypto : DummyCrypto) (packet : Bytes)
    (handler : Handler) (identity : UInt32) (payload : Bytes) (length : Nat) :
    dispatch order crypto packet = .call handler identity payload length ↔
      ∃ header, PacketHeader.sizeof ≤ packet.length ∧ packet.length ≤ 1600 ∧
        PacketHeader.read order (crypto.decrypt order packet packet.length) = some header ∧
        header.length.toNat + PacketHeader.sizeof = packet.length ∧
        header.version = PacketHeader.kVersion ∧
        kHandlerTable[header.type.toNat]? = some (some handler) ∧
        identity = header.identity ∧
        payload = (crypto.decrypt order packet packet.length).drop PacketHeader.sizeof ∧
        length = header.length.toNat := by
  constructor
  · intro called
    rcases dispatch_cases order crypto packet with ignored | ⟨header, ⟨low, high, parsed, agrees⟩,
      ⟨refused, _⟩ | ⟨found, calls, version, hit⟩⟩
    · cases called.symm.trans ignored
    · cases called.symm.trans refused
    · cases called.symm.trans calls
      exact ⟨header, low, high, parsed, agrees, version, hit, rfl, rfl, rfl⟩
  · rintro ⟨header, low, high, parsed, agrees, version, hit, rfl, rfl, rfl⟩
    have size : ¬ (packet.length < PacketHeader.sizeof ∨ packet.length > 1600) := by omega
    have type : ¬ (header.type = 0 ∨ header.type ≥ PacketHeader.kTypeCount) := by
      rw [(kHandlerTable_iff ..).mp hit]
      cases handler <;> decide
    simp [dispatch, size, parsed, agrees, version, type, hit]

theorem dispatch_wrongVersion_iff (order : ByteOrder) (crypto : DummyCrypto) (packet : Bytes) :
    dispatch order crypto packet = .wrongVersion ↔
      ∃ header, PacketHeader.sizeof ≤ packet.length ∧ packet.length ≤ 1600 ∧
        PacketHeader.read order (crypto.decrypt order packet packet.length) = some header ∧
        header.length.toNat + PacketHeader.sizeof = packet.length ∧
        header.version ≠ PacketHeader.kVersion := by
  constructor
  · intro refused
    rcases dispatch_cases order crypto packet with ignored | ⟨header, ⟨low, high, parsed, agrees⟩,
      ⟨_, version⟩ | ⟨found, calls, _⟩⟩
    · cases refused.symm.trans ignored
    · exact ⟨header, low, high, parsed, agrees, version⟩
    · cases refused.symm.trans calls
  · rintro ⟨header, low, high, parsed, agrees, version⟩
    have size : ¬ (packet.length < PacketHeader.sizeof ∨ packet.length > 1600) := by omega
    simp [dispatch, size, parsed, agrees, version]

def relayData (order : ByteOrder) (server : TunnelServer) (peer : SockAddr) (id : UInt32)
    (packet : Bytes) (length : Nat) : List Action :=
  if length ≤ EthernetHeader.sizeof then []
  else match server.dict.id.find id with
    | none => [server.sendErrorCode order peer .kRestartSession]
    | some _ => match EthernetHeader.read order packet with
      | none => []
      | some header =>
          if header.dst.addr.headD 0 % 2 ≠ 1 ∧ (header.dst == server.config.vmac) = false then []
          else [.write (packet.take length)]

/-- `new ClientInfo{}` and the assignments that fill it in. -/
def newClient (server : TunnelServer) (record : ClientInfo) : TunnelServer :=
  { server with next := server.next + 1 }.setClient server.next record

@[simp] theorem newClient_client (server : TunnelServer) (record : ClientInfo) (info : Ptr) :
    (server.newClient record).client info =
      if info = server.next then record else server.client info := rfl

/-- `startSession` up to the guard of `dict.mutex`: the address is taken from the
pool and the record is made and filled in. The pointer is `none` where the
function returns early. -/
def openSession (order : ByteOrder) (server : TunnelServer) (peer : SockAddr) (packet : Bytes)
    (length : Nat) (random : UInt32) (time : Int) : Option Ptr × TunnelServer :=
  if length ≠ StartSession.sizeof then (none, server)
  else match StartSession.read order packet with
    | none => (none, server)
    | some request =>
        let allocated := server.pool.allocateAddress order
        let server := { server with pool := allocated.2 }
        if allocated.1 = 0 then (none, server)
        else
          (some server.next, server.newClient
            { tun := { ip := allocated.1, mac := request.mac }, address := peer,
              identity := random, alive := time })

/-- `startSession` under the guard: neither insertion looks at its result. -/
def registerClient (server : TunnelServer) (info : Ptr) : TunnelServer :=
  let record := server.client info
  { server with dict := {
      id := server.dict.id.insert record.identity info
      mac := server.dict.mac.insert record.tun.mac info } }

def startSession (order : ByteOrder) (server : TunnelServer) (peer : SockAddr) (packet : Bytes)
    (length : Nat) (random : UInt32) (time : Int) : TunnelServer × List Action :=
  match server.openSession order peer packet length random time with
  | (none, server) => (server, [])
  | (some info, server) =>
      let record := server.client info
      (server.registerClient info,
        [server.sendSessionInfo order peer record.identity record.tun.ip])

/-- The update of a known client by a heartbeat, under the client's mutex. -/
def refreshClient (server : TunnelServer) (info : Ptr) (peer : SockAddr) (time : Int) :
    TunnelServer :=
  let record := server.client info
  let address :=
    if record.address.sinAddr ≠ peer.sinAddr ∨ record.address.sinPort ≠ peer.sinPort then peer
    else record.address
  server.setClient info { record with alive := time, address }

@[simp] theorem refreshClient_tun (server : TunnelServer) (info other : Ptr) (peer : SockAddr)
    (time : Int) : ((server.refreshClient info peer time).client other).tun =
      (server.client other).tun := by
  simp only [refreshClient, setClient_client]
  split <;> simp_all

@[simp] theorem refreshClient_identity (server : TunnelServer) (info other : Ptr) (peer : SockAddr)
    (time : Int) : ((server.refreshClient info peer time).client other).identity =
      (server.client other).identity := by
  simp only [refreshClient, setClient_client]
  split <;> simp_all

def handleHeartbeat (order : ByteOrder) (server : TunnelServer) (peer : SockAddr) (id : UInt32)
    (length : Nat) (time : Int) : TunnelServer × List Action :=
  if length ≠ Heartbeat.sizeof then (server, [])
  else match server.dict.id.find id with
    | none => (server, [server.sendErrorCode order peer .kRestartSession])
    | some info => (server.refreshClient info peer time, [])

/-- One turn of the loop of `handleNetworkDatagram`. -/
def handleNetworkDatagram (order : ByteOrder) (server : TunnelServer) (peer : SockAddr)
    (datagram : Bytes) (random : UInt32) (time : Int) : TunnelServer × List Action :=
  match dispatch order server.crypto (recv datagram 2000) with
  | .ignore => (server, [])
  | .wrongVersion => (server, [server.sendErrorCode order peer .kWrongVersion])
  | .call .handleHeartbeat id _ length => server.handleHeartbeat order peer id length time
  | .call .startSession _ packet length =>
      server.startSession order peer packet length random time
  | .call .relayData id packet length => (server, server.relayData order peer id packet length)

/-- The identity a well-formed heartbeat carries. -/
def heartbeatIdentity (order : ByteOrder) (crypto : DummyCrypto) (datagram : Bytes) :
    Option UInt32 :=
  match dispatch order crypto (recv datagram 2000) with
  | .call .handleHeartbeat id _ length => if length = Heartbeat.sizeof then some id else none
  | _ => none

/-- The payload of a valid request for a session. -/
def sessionRequest (order : ByteOrder) (crypto : DummyCrypto) (datagram : Bytes) :
    Option StartSession :=
  match dispatch order crypto (recv datagram 2000) with
  | .call .startSession _ packet length =>
      if length = StartSession.sizeof then StartSession.read order packet else none
  | _ => none

theorem heartbeat_no_request {order : ByteOrder} {crypto : DummyCrypto} {datagram : Bytes}
    {request : StartSession} (asked : sessionRequest order crypto datagram = some request) :
    heartbeatIdentity order crypto datagram = none := by
  simp only [sessionRequest] at asked
  split at asked
  · rename_i seen
    simp [heartbeatIdentity, seen]
  · cases asked

theorem heartbeat_not_request {order : ByteOrder} {crypto : DummyCrypto} {datagram : Bytes}
    {id : UInt32} (heard : heartbeatIdentity order crypto datagram = some id) :
    sessionRequest order crypto datagram = none := by
  cases asked : sessionRequest order crypto datagram with
  | none => rfl
  | some request => simp [heartbeat_no_request asked] at heard

/-! The frames of the virtual interface. -/

/-- The clients a frame goes to. `clients` is the iteration order of `dict.mac`. -/
def frameTargets (order : ByteOrder) (server : TunnelServer) (frame : Bytes)
    (clients : List Ptr) : List Ptr :=
  if frame.length < EthernetHeader.sizeof then []
  else match EthernetHeader.read order frame with
    | none => []
    | some header =>
        if header.dst.addr.headD 0 % 2 = 1 then clients
        else (server.dict.mac.find header.dst).toList

/-- One turn of the loop of `handleVirtualEthernet`. -/
def handleVirtualEthernet (order : ByteOrder) (server : TunnelServer) (frame : Bytes)
    (clients : List Ptr) : List Action :=
  let frame := frame.take 2000
  (server.frameTargets order frame clients).map fun info =>
    .send (server.client info).address (server.relayPacket order frame)

/-! The sweep. -/

/-- `now - it->second->alive < 45` fails. -/
def Expired (server : TunnelServer) (now : Int) (info : Ptr) : Prop :=
  ¬ now - (server.client info).alive < 45

instance (server : TunnelServer) (now : Int) (info : Ptr) : Decidable (server.Expired now info) :=
  inferInstanceAs (Decidable (¬ _))

/-- The two erasures of a removal. The entry of `dict.mac` goes by its key. -/
def eraseClient (server : TunnelServer) (entry : UInt32 × Ptr) : TunnelServer :=
  { server with dict := {
      mac := server.dict.mac.erase (server.client entry.2).tun.mac
      id := server.dict.id.erase entry.1 } }

def releaseClient (server : TunnelServer) (info : Ptr) : TunnelServer :=
  { server with pool := server.pool.releaseAddress (server.client info).tun.ip }

def deleteClient (server : TunnelServer) (info : Ptr) : TunnelServer :=
  { server with deleted := info :: server.deleted }

def removeClient (server : TunnelServer) (entry : UInt32 × Ptr) : TunnelServer :=
  ((server.eraseClient entry).releaseClient entry.2).deleteClient entry.2

/-- One sweep of `removeZombieClient` at the clock reading `now`. `entries` is
the iteration order of `dict.id`; erasing one entry does not disturb the others. -/
def removeZombieClient (server : TunnelServer) (now : Int) (entries : List (UInt32 × Ptr)) :
    TunnelServer :=
  entries.foldl (fun server entry =>
    if server.Expired now entry.2 then server.removeClient entry else server) server

/-! A record plays no part in what happens to the others. -/

section Apart
variable (server : TunnelServer) {info other : Ptr} (record : ClientInfo)

theorem setClient_comm (apart : other ≠ info) (second : ClientInfo) :
    (server.setClient info record).setClient other second =
      (server.setClient other second).setClient info record := by
  simp only [setClient, mk.injEq, true_and, and_true]
  funext wanted
  by_cases first : wanted = other
  · simp [first, apart]
  · simp [first]

theorem newClient_apart (apart : info ≠ server.next) (created : ClientInfo) :
    (server.setClient info record).newClient created =
      (server.newClient created).setClient info record :=
  setClient_comm { server with next := server.next + 1 } record apart.symm created

theorem registerClient_apart (apart : other ≠ info) :
    (server.setClient info record).registerClient other =
      (server.registerClient other).setClient info record := by
  simp [registerClient, setClient, apart]

theorem refreshClient_apart (apart : other ≠ info) (peer : SockAddr) (time : Int) :
    (server.setClient info record).refreshClient other peer time =
      (server.refreshClient other peer time).setClient info record := by
  simp only [refreshClient, setClient_client, apart, ↓reduceIte]
  exact setClient_comm server record apart _

theorem expired_apart (apart : other ≠ info) (now : Int) :
    (server.setClient info record).Expired now other ↔ server.Expired now other := by
  simp [Expired, apart]

theorem eraseClient_apart {entry : UInt32 × Ptr} (apart : entry.2 ≠ info) :
    (server.setClient info record).eraseClient entry =
      (server.eraseClient entry).setClient info record := by
  simp [eraseClient, setClient, apart]

theorem releaseClient_apart (apart : other ≠ info) :
    (server.setClient info record).releaseClient other =
      (server.releaseClient other).setClient info record := by
  simp [releaseClient, setClient, apart]

end Apart

end TunnelServer

end Muddymask
