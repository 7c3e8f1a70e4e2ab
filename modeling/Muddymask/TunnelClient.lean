import Muddymask.Client

/-!
`source/tunnel/TunnelClient.cpp`, the two threads that carry frames, one turn of
the loop each. The network thread checks where a datagram comes from and how long
it is, but of the type it only asks whether it is an error, and it never looks at
the version. What it makes of everything a server can send is `handle_packet`.
-/

namespace Muddymask

open Words TunnelServer

namespace TunnelClient

/-- `AF_INET`. -/
def afInet : UInt16 := 2

def validDataSource (client : TunnelClient) (peer : SockAddr) : Bool :=
  peer.sinFamily == afInet && peer.sinAddr == client.server.sinAddr &&
    peer.sinPort == client.server.sinPort

/-- One turn of the loop of `handleNetworkDatagram`. The thread leaves the loop
where `stop` is set, and nobody else sets it. -/
def handleNetworkDatagram (order : ByteOrder) (client : TunnelClient) (peer : SockAddr)
    (datagram : Bytes) : TunnelClient × List Action :=
  let packet := recv datagram 2000
  let size := packet.length
  if size < PacketHeader.sizeof ∨ client.validDataSource peer = false then (client, [])
  else
    let packet := client.crypto.decrypt order packet size
    match PacketHeader.read order packet with
    | none => (client, [])
    | some header =>
        if header.type = PacketHeader.kErrorDetail then ({ client with stop := true }, [])
        else if header.length.toNat < EthernetHeader.sizeof ∨
            header.length.toNat + PacketHeader.sizeof ≠ size then (client, [])
        else (client, [.write ((packet.drop PacketHeader.sizeof).take header.length.toNat)])

def relayHeader (client : TunnelClient) (frame : Bytes) : PacketHeader :=
  { type := PacketHeader.kRelayData, length := UInt16.ofNat frame.length
    identity := client.identity }

/-- The `buffer` that `handleVirtualEthernet` makes of a frame and encrypts. -/
def relayPacket (order : ByteOrder) (client : TunnelClient) (frame : Bytes) : Bytes :=
  client.crypto.encrypt order ((client.relayHeader frame).encode order ++ frame)
    (frame.length + PacketHeader.sizeof)

/-- One turn of the loop of `handleVirtualEthernet`. -/
def handleVirtualEthernet (order : ByteOrder) (client : TunnelClient) (frame : Bytes) :
    List Action := [.send client.server (client.relayPacket order (frame.take 2000))]

theorem handle_foreign (order : ByteOrder) (client : TunnelClient) {peer : SockAddr}
    (foreign : client.validDataSource peer = false) (datagram : Bytes) :
    client.handleNetworkDatagram order peer datagram = (client, []) := by
  simp [handleNetworkDatagram, foreign]

theorem handle_crypto (order : ByteOrder) (client : TunnelClient) (peer : SockAddr)
    (datagram : Bytes) :
    (client.handleNetworkDatagram order peer datagram).1.crypto = client.crypto := by
  simp only [handleNetworkDatagram]
  split
  · rfl
  · split
    · rfl
    · split
      · rfl
      · split <;> rfl

theorem receive_packet (order : ByteOrder) (server : TunnelServer) (type : UInt8)
    (payload : Bytes) :
    let received := recv (server.packet order type payload) 2000
    received.length = min 2000 (PacketHeader.sizeof + payload.length) ∧
      server.crypto.decrypt order received received.length =
        ({ type, length := UInt16.ofNat payload.length, identity := server.identity } :
          PacketHeader).encode order ++ payload.take 1992 := by
  intro received
  let header : PacketHeader :=
    { type, length := UInt16.ofNat payload.length, identity := server.identity }
  have text : (header.encode order ++ payload).length = PacketHeader.sizeof + payload.length := by
    simp
  have plain := DummyCrypto.decrypt_received order server.crypto (header.encode order ++ payload) 2000
  rw [text] at plain
  constructor
  · rw [show received = (server.packet order type payload).take 2000 from rfl, List.length_take,
      packet_length]
  · refine plain.trans ?_
    rw [List.take_append, PacketHeader.encode_length,
      List.take_of_length_le (by rw [PacketHeader.encode_length]; decide)]
    rfl

/-- What a client makes of a packet of a server with its key. A payload that
the receive buffer cuts no longer has the length that the header gives. -/
theorem handle_packet (order : ByteOrder) (server : TunnelServer) (client : TunnelClient)
    (key : client.crypto = server.crypto) (peer : SockAddr)
    (valid : client.validDataSource peer = true) (type : UInt8) (payload : Bytes)
    (bounded : payload.length ≤ 2000) :
    client.handleNetworkDatagram order peer (server.packet order type payload) =
      if type = PacketHeader.kErrorDetail then ({ client with stop := true }, [])
      else (client, if EthernetHeader.sizeof ≤ payload.length ∧ payload.length ≤ 1992 then
        [.write payload] else []) := by
  obtain ⟨size, plain⟩ := receive_packet order server type payload
  have wide : ¬ (recv (server.packet order type payload) 2000).length < PacketHeader.sizeof := by
    rw [size]
    simp only [PacketHeader.sizeof]
    omega
  have length : (UInt16.ofNat payload.length).toNat = payload.length :=
    UInt16.toNat_ofNat_of_lt' (by simp only [UInt16.size]; omega)
  simp only [handleNetworkDatagram, wide, valid, Bool.true_eq_false, or_self, ↓reduceIte, key, plain,
    PacketHeader.read_encode, length, List.drop_left' (PacketHeader.encode_length order _)]
  by_cases error : type = PacketHeader.kErrorDetail
  · simp [error]
  · rw [if_neg error, if_neg error, size]
    by_cases fits : EthernetHeader.sizeof ≤ payload.length ∧ payload.length ≤ 1992
    · have whole : payload.length + PacketHeader.sizeof =
          min 2000 (PacketHeader.sizeof + payload.length) := by
        simp only [PacketHeader.sizeof]
        omega
      rw [if_pos fits, if_neg (by rw [← whole]; omega), List.take_of_length_le fits.2,
        List.take_length]
    · rw [if_neg fits, if_pos (by simp only [PacketHeader.sizeof]; omega)]

end TunnelClient

end Muddymask
