import Muddymask.CommandLine
import Muddymask.TunnelServer

/-!
The client side of `source/tunnel/main.cpp`: the request that `startSession`
builds, the way it reads an answer, and the `TunnelClient` that `startClient`
makes. Both functions name the secret themselves and never look at
`config.secret`. `startServer` stands here too, since it is the counterpart that
does use it. Configuring the interface is left out.
-/

namespace Muddymask

open Words

/-- `tunnel/TunnelClient.hpp`. -/
structure TunnelClient where
  server : SockAddr
  identity : UInt32
  crypto : DummyCrypto
  stop : Bool

def TunnelClient.new (order : ByteOrder) (secret : Bytes) (identity : UInt32)
    (remote : SockAddr) : TunnelClient :=
  { server := remote, identity, crypto := .new order secret, stop := false }

def startServer (order : ByteOrder) (config : CommandLine.Config)
    (mac : { mac : Bytes // mac.length = 6 }) (random : UInt32) : TunnelServer :=
  .new order mac config.secret random

namespace Client

/-- The literal in `startSession` and `startClient`. -/
def secret : Bytes := ascii "jiubugaosuni"

/-- The encrypted `request`. The padding of the MAC is whatever the stack holds. -/
def request (order : ByteOrder) (mac : MacAddress) : Bytes :=
  let header : PacketHeader :=
    { type := PacketHeader.kStartSession, length := UInt16.ofNat StartSession.sizeof, identity := 0 }
  let payload : StartSession := { mac }
  (DummyCrypto.new order secret).encrypt order (header.encode order ++ payload.encode order)
    (PacketHeader.sizeof + StartSession.sizeof)

/-- `sizeof(response)`. -/
def responseSize : Nat := PacketHeader.sizeof + SessionInfo.sizeof

/-- What `startSession` makes of the bytes that `recv` gave it: nothing but their
number decides whether they are an answer. -/
def response (order : ByteOrder) (received : Bytes) : Option SessionInfo :=
  if received.length = responseSize then
    let plain := (DummyCrypto.new order secret).decrypt order received responseSize
    SessionInfo.read order (plain.drop PacketHeader.sizeof)
  else none

def startClient (order : ByteOrder) (config : CommandLine.Config) (info : SessionInfo) :
    TunnelClient :=
  .new order secret info.identity config.remote

end Client

end Muddymask
