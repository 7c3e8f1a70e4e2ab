import Muddymask.Client
import Muddymask.Registry
import Muddymask.Turns

/-!
Session establishment from the two command lines to the two keys. The server
takes its key from `--secret` and the client from a literal, so a session is
established exactly under the secrets that give the key of the literal. Both
hosts have one byte order, since the packets travel in host order.
-/

namespace Muddymask

open Words TunnelServer Machine

namespace PacketHeader

theorem read_bytes {order : ByteOrder} {packet : Bytes} {header : PacketHeader}
    (parsed : read order packet = some header) :
    packet[0]? = some header.type ∧ packet[1]? = some header.version ∧
      packet[2]? = some (byte16 order header.length 0) ∧
      packet[3]? = some (byte16 order header.length 1) := by
  match packet, parsed with
  | type :: version :: l0 :: l1 :: _ :: _ :: _ :: _ :: _, parsed =>
      cases parsed
      simp [byte16_load16]

end PacketHeader

namespace DummyCrypto

/-- A text that is decrypted with a key that it was not encrypted with, perhaps
on a host of the other byte order. -/
theorem decrypt_foreign (order other : ByteOrder) (sender receiver : DummyCrypto) (text : Bytes)
    (j : Nat) (inside : j < text.length) :
    (receiver.decrypt other (sender.encrypt order text text.length) text.length)[j]? =
      text[j]?.map fun byte =>
        byte ^^^ byte32 order sender.key (j % 4) ^^^ byte32 other receiver.key (j % 4) := by
  have sameLength := encrypt_length order sender text text.length (Nat.le_refl _)
  rw [decrypt, encrypt_getElem? _ _ _ _ _ (Nat.le_of_eq sameLength.symm),
    encrypt_getElem? _ _ _ _ _ (Nat.le_refl _), Option.map_map]
  congr 1
  funext byte
  simp [inside]

end DummyCrypto

/-- A byte that survives the wrong key tells that the keys agree there. -/
theorem DummyCrypto.key_byte (order : ByteOrder) (sender receiver : DummyCrypto) {text : Bytes}
    {j : Nat} {byte : UInt8} (sent : text[j]? = some byte)
    (seen : (receiver.decrypt order (sender.encrypt order text text.length)
      text.length)[j]? = some byte) :
    byte32 order receiver.key (j % 4) = byte32 order sender.key (j % 4) := by
  obtain ⟨inside, _⟩ := List.getElem?_eq_some_iff.mp sent
  rw [decrypt_foreign order order sender receiver text j inside, sent] at seen
  exact (xor_same_iff.mp (Option.some.inj seen)).symm

namespace Client

def requestHeader : PacketHeader :=
  { type := PacketHeader.kStartSession, length := UInt16.ofNat StartSession.sizeof, identity := 0 }

def requestText (order : ByteOrder) (mac : MacAddress) : Bytes :=
  requestHeader.encode order ++ mac.encode order

theorem requestText_length (order : ByteOrder) (mac : MacAddress) :
    (requestText order mac).length = 16 := by
  simp [requestText, PacketHeader.sizeof, MacAddress.sizeof]

theorem request_eq (order : ByteOrder) (mac : MacAddress) :
    request order mac = (DummyCrypto.new order secret).encrypt order (requestText order mac)
      (requestText order mac).length := by
  rw [requestText_length]
  rfl

theorem request_length (order : ByteOrder) (mac : MacAddress) : (request order mac).length = 16 := by
  rw [request_eq, DummyCrypto.encrypt_length _ _ _ _ (Nat.le_refl _), requestText_length]

theorem recv_request (order : ByteOrder) (mac : MacAddress) :
    recv (request order mac) 2000 = request order mac :=
  recv_of_le (by rw [request_length]; decide)

/-- Under the key of the literal, the request passes and carries the MAC. -/
theorem request_reaches (order : ByteOrder) (crypto : DummyCrypto) (mac : MacAddress)
    (same : crypto = DummyCrypto.new order secret) :
    dispatch order crypto (recv (request order mac) 2000) =
      .call .startSession 0 (mac.encode order) StartSession.sizeof := by
  have plain : crypto.decrypt order (request order mac) (request order mac).length =
      requestText order mac := by
    rw [request_length, ← requestText_length order mac, request_eq, same]
    exact DummyCrypto.decrypt_encrypt order _ _ _ (Nat.le_refl _)
  rw [recv_request]
  refine (dispatch_call_iff ..).mpr ⟨requestHeader, ?_, ?_, ?_, ?_, rfl, rfl, rfl, ?_, rfl⟩
  · rw [request_length]
    decide
  · rw [request_length]
    decide
  · rw [plain]
    exact PacketHeader.read_encode ..
  · rw [request_length]
    rfl
  · rw [plain]
    exact (List.drop_left' (PacketHeader.encode_length order requestHeader)).symm

/-- No other key lets it pass: type, version and length give away all four bytes. -/
theorem key_of_request_reaches (order : ByteOrder) (crypto : DummyCrypto) (mac : MacAddress)
    {identity : UInt32} {payload : Bytes} {length : Nat}
    (reached : dispatch order crypto (recv (request order mac) 2000) =
      .call .startSession identity payload length) :
    crypto.key = (DummyCrypto.new order secret).key := by
  rw [recv_request] at reached
  obtain ⟨header, _, _, parsed, agrees, version, handler, _⟩ := (dispatch_call_iff ..).mp reached
  rw [request_length] at agrees parsed
  have type : header.type = PacketHeader.kStartSession := (kHandlerTable_iff ..).mp handler
  have size : header.length = UInt16.ofNat StartSession.sizeof := by
    apply UInt16.toNat_inj.mp
    simpa [PacketHeader.sizeof, StartSession.sizeof, MacAddress.sizeof] using agrees
  rw [← requestText_length order mac, request_eq] at parsed
  obtain ⟨first, second, third, fourth⟩ := PacketHeader.read_bytes parsed
  rw [type] at first
  rw [version] at second
  rw [size] at third fourth
  -- The four bytes stand at the first four offsets, one for each byte of the key.
  apply word_ext order
  intro j small
  rcases (by omega : j = 0 ∨ j = 1 ∨ j = 2 ∨ j = 3) with rfl | rfl | rfl | rfl
  · exact DummyCrypto.key_byte order (.new order secret) crypto rfl first
  · exact DummyCrypto.key_byte order (.new order secret) crypto rfl second
  · exact DummyCrypto.key_byte order (.new order secret) crypto rfl third
  · exact DummyCrypto.key_byte order (.new order secret) crypto rfl fourth

theorem response_sessionInfo (order : ByteOrder) (server : TunnelServer) (info : SessionInfo)
    (same : server.crypto = DummyCrypto.new order secret) :
    response order (recv (server.packet order PacketHeader.kSessionInfo (info.encode order))
      responseSize) = some info := by
  have size : (server.packet order PacketHeader.kSessionInfo (info.encode order)).length =
      responseSize := by
    rw [packet_length, SessionInfo.encode_length]
    rfl
  have plain := decrypt_packet order server PacketHeader.kSessionInfo (info.encode order)
  rw [size, same] at plain
  rw [recv_of_le (Nat.le_of_eq size), response, if_pos size, plain]
  dsimp only
  rw [List.drop_left' (PacketHeader.encode_length order _), ← List.append_nil (info.encode order)]
  exact SessionInfo.read_encode order info []

theorem response_relayPacket (order : ByteOrder) (server : TunnelServer) (frame : Bytes)
    (same : server.crypto = DummyCrypto.new order secret)
    (long : EthernetHeader.sizeof ≤ frame.length) :
    response order (recv (server.relayPacket order frame) responseSize) =
      SessionInfo.read order frame := by
  have enough : SessionInfo.sizeof ≤ frame.length := Nat.le_trans (by decide) long
  have size : responseSize ≤ (server.relayPacket order frame).length := by
    rw [relayPacket, packet_length]
    exact Nat.add_le_add_left enough _
  have cut : (recv (server.relayPacket order frame) responseSize).length = responseSize := by
    rw [recv, List.length_take]
    exact Nat.min_eq_left size
  let header : PacketHeader :=
    { type := PacketHeader.kRelayData, length := UInt16.ofNat frame.length
      identity := server.identity }
  have text : (header.encode order ++ frame).length = PacketHeader.sizeof + frame.length := by
    rw [List.length_append, PacketHeader.encode_length]
  have plain := DummyCrypto.decrypt_take order (DummyCrypto.new order secret)
    (header.encode order ++ frame) responseSize
    (by rw [text]; exact Nat.add_le_add_left enough _)
  rw [text] at plain
  have front : (header.encode order ++ frame).take responseSize =
      header.encode order ++ frame.take SessionInfo.sizeof := by
    rw [List.take_append, PacketHeader.encode_length]
    congr 1
  rw [response, if_pos cut, relayPacket, packet, same, recv]
  dsimp only
  rw [plain, front, List.drop_left' (PacketHeader.encode_length order header)]
  exact SessionInfo.read_take order frame enough

end Client

theorem crypto_reached {order : ByteOrder} {start machine : Machine}
    (reached : Runs.Reachable (next order) start machine) :
    machine.server.crypto = start.server.crypto := by
  refine Runs.reachable_induct (fun machine => machine.server.crypto = start.server.crypto)
    reached rfl fun before event after _ kept taken => Eq.trans ?_ kept
  cases next_change taken <;> rfl

/-- One `StartSession` exchange between a client with this configuration and this server. -/
structure Established (order : ByteOrder) (server : TunnelServer) (config : CommandLine.Config)
    (peer : SockAddr) (mac : MacAddress) (random : UInt32) (time : Int) : Prop where
  reaches : dispatch order server.crypto (recv (Client.request order mac) 2000) =
    .call .startSession 0 (mac.encode order) StartSession.sizeof
  asked : sessionRequest order server.crypto (Client.request order mac) = some { mac }
  answered :
    let handled := server.handleNetworkDatagram order peer (Client.request order mac) random time
    ∃ reply info record, handled.2 = [.send peer reply] ∧
      Client.response order (recv reply Client.responseSize) = some info ∧
      handled.1.dict.id.find random = some record ∧
      info.identity = (handled.1.client record).identity ∧
      info.address = (handled.1.client record).tun.ip ∧
      info.gateway = server.config.gateway ∧ info.netmask = server.config.netmask ∧
      (handled.1.client record).identity = random ∧
      (handled.1.client record).tun = { ip := (server.pool.allocateAddress order).1, mac }
  sameKey : ∀ info, (Client.startClient order config info).crypto.key = server.crypto.key

theorem established_of_key (order : ByteOrder) (server : TunnelServer) (config : CommandLine.Config)
    (peer : SockAddr) (mac : MacAddress) (random : UInt32) (time : Int)
    (allocated : (server.pool.allocateAddress order).1 ≠ 0)
    (fresh : server.dict.id.find random = none)
    (same : server.crypto = DummyCrypto.new order Client.secret) :
    Established order server config peer mac random time := by
  have reaches := Client.request_reaches order server.crypto mac same
  have parsed : StartSession.read order (mac.encode order) = some { mac } := by
    have read := MacAddress.read_encode order mac []
    rw [List.append_nil] at read
    simp [StartSession.read, read]
  refine { reaches, asked := by simp [sessionRequest, reaches, parsed], answered := ?_
           sameKey := fun info => by rw [same]; rfl }
  have handled : server.handleNetworkDatagram order peer (Client.request order mac) random time =
      ((opened order server peer mac random time).registerClient server.next,
        [server.sendSessionInfo order peer random (server.pool.allocateAddress order).1]) := by
    simp only [handleNetworkDatagram, reaches, startSession, openSession, parsed, ne_eq,
      not_true_eq_false, ↓reduceIte, allocated, newClient_client]
    rfl
  rw [handled]
  refine ⟨_, _, server.next, rfl, Client.response_sessionInfo order server _ same, ?_,
    ?_, ?_, rfl, rfl, ?_, ?_⟩
  · simp [registerClient, opened, UnorderedMap.find_insert, newClient, fresh]
  all_goals simp [registerClient, opened]

/-- With any command lines that pass one secret to both programs: a session is
established, in every state of the server that can serve it, if and only if the
secret has the key of the built-in one. -/
theorem session_established_iff (order : ByteOrder) (gethostbyname : Bytes → Option UInt32)
    (secret : Bytes) (serverArgs clientArgs : List Bytes)
    (serverConfig clientConfig : CommandLine.Config)
    (passes : CommandLine.Passes order gethostbyname secret serverArgs serverConfig ∧
      CommandLine.Passes order gethostbyname secret clientArgs clientConfig)
    (vmac : { mac : Bytes // mac.length = 6 }) (identity : UInt32) (machine : Machine)
    (reached : Runs.Reachable (next order)
      (resting (startServer order serverConfig vmac identity)) machine)
    (peer : SockAddr) (mac : MacAddress) (random : UInt32) (time : Int)
    (allocated : (machine.server.pool.allocateAddress order).1 ≠ 0)
    (fresh : machine.server.dict.id.find random = none) :
    Established order machine.server clientConfig peer mac random time ↔
      (DummyCrypto.new order secret).key = (DummyCrypto.new order Client.secret).key := by
  have crypto : machine.server.crypto = DummyCrypto.new order secret := by
    rw [crypto_reached reached, ← passes.1.secret_eq]
    rfl
  constructor
  · intro established
    rw [← crypto]
    exact Client.key_of_request_reaches order machine.server.crypto mac established.reaches
  · intro same
    refine established_of_key order machine.server clientConfig peer mac random time allocated
      fresh ?_
    rw [crypto]
    exact congrArg DummyCrypto.mk same

def plainHosts : Bytes → Option UInt32 := fun _ => some 0x0100000A

def plainServerArgs (secret : String) : List Bytes :=
  [ascii "--bind", ascii "a:9000", ascii "--secret", ascii secret]

def plainClientArgs (secret : String) : List Bytes :=
  [ascii "--server", ascii "a:9000", ascii "--secret", ascii secret]

def plainServerConfig (secret : String) : CommandLine.Config where
  remote := CommandLine.zeroAddr
  localAddr := plainPeer
  secret := ascii secret
  logFile := []

def plainClientConfig (secret : String) : CommandLine.Config where
  remote := plainPeer
  localAddr := CommandLine.zeroAddr
  secret := ascii secret
  logFile := []

theorem session_established_repeated :
    Established .little (startServer .little (plainServerConfig "jiubugaosunijiubugaosunijiubugaosuni")
        ⟨[2, 0, 0, 0, 0, 1], rfl⟩ 5)
      (plainClientConfig "jiubugaosunijiubugaosunijiubugaosuni") plainPeer (plainMac 7) 11 0 :=
  (session_established_iff .little plainHosts (ascii "jiubugaosunijiubugaosunijiubugaosuni")
    (plainServerArgs "jiubugaosunijiubugaosunijiubugaosuni")
    (plainClientArgs "jiubugaosunijiubugaosunijiubugaosuni")
    _ _ ⟨⟨by decide +kernel, by decide +kernel⟩, by decide +kernel, by decide +kernel⟩
    _ 5 _ (Runs.reachable_start _) plainPeer (plainMac 7) 11 0 (by decide +kernel)
    (by decide +kernel)).mpr (by decide +kernel)

/-- The secret `a` on both command lines: the server's checks drop the request. -/
theorem session_established_fails :
    CommandLine.Passes .little plainHosts (ascii "a") (plainServerArgs "a") (plainServerConfig "a") ∧
      CommandLine.Passes .little plainHosts (ascii "a") (plainClientArgs "a")
        (plainClientConfig "a") ∧
      ¬ Established .little (startServer .little (plainServerConfig "a") ⟨[2, 0, 0, 0, 0, 1], rfl⟩ 5)
        (plainClientConfig "a") plainPeer (plainMac 7) 11 0 := by
  refine ⟨⟨by decide +kernel, by decide +kernel⟩, ⟨by decide +kernel, by decide +kernel⟩, ?_⟩
  intro established
  have dropped : sessionRequest .little (startServer .little (plainServerConfig "a")
      ⟨[2, 0, 0, 0, 0, 1], rfl⟩ 5).crypto (Client.request .little (plainMac 7)) = none := rfl
  cases dropped.symm.trans established.asked

end Muddymask
