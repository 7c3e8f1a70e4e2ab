import Mathlib.Data.List.TakeDrop
import Muddymask.Words

/-!
`include/muddy/tunnel/packet.hpp` and the socket address of `netinet/in.h`.
The structs are packed and travel in host byte order, so an encoder writes the
fields one after another and a reader is a `reinterpret_cast` of the front of a
buffer. A reader answers `none` exactly when it would read past the buffer.
`InetAddress` is declared there but no code uses it.
-/

namespace Muddymask

open Words

/-- `sockaddr_in`, without its zero padding. Port and address are in network order. -/
structure SockAddr where
  sinFamily : UInt16
  sinPort : UInt16
  sinAddr : UInt32
  deriving DecidableEq, Repr, Inhabited

inductive ErrorCode where
  | kAllIsWell
  | kWrongVersion
  | kRestartSession
  deriving DecidableEq, Repr

def ErrorCode.code : ErrorCode → UInt16
  | .kAllIsWell => 0
  | .kWrongVersion => 1
  | .kRestartSession => 2

/-- The type and the version are raw bytes of the packet and may hold any value. -/
structure PacketHeader where
  type : UInt8
  version : UInt8 := 1
  length : UInt16
  identity : UInt32
  deriving DecidableEq, Repr

namespace PacketHeader

def kHeartbeat : UInt8 := 1
def kStartSession : UInt8 := 2
def kSessionInfo : UInt8 := 3
def kRelayData : UInt8 := 4
def kErrorDetail : UInt8 := 5
def kTypeCount : UInt8 := 6
def kVersion : UInt8 := 1

def sizeof : Nat := 8

def encode (order : ByteOrder) (header : PacketHeader) : Bytes :=
  [header.type, header.version] ++ store16 order header.length ++ store32 order header.identity

def read (order : ByteOrder) : Bytes → Option PacketHeader
  | type :: version :: l0 :: l1 :: i0 :: i1 :: i2 :: i3 :: _ =>
      some { type, version, length := load16 order l0 l1, identity := load32 order i0 i1 i2 i3 }
  | _ => none

@[simp] theorem encode_length (order : ByteOrder) (header : PacketHeader) :
    (encode order header).length = sizeof := rfl

@[simp] theorem read_encode (order : ByteOrder) (header : PacketHeader) (rest : Bytes) :
    read order (encode order header ++ rest) = some header := by
  simp [encode, read, store16, store32]

theorem read_isSome (order : ByteOrder) (packet : Bytes) (enough : sizeof ≤ packet.length) :
    ∃ header, read order packet = some header := by
  match packet, enough with
  | _ :: _ :: _ :: _ :: _ :: _ :: _ :: _ :: _, _ => exact ⟨_, rfl⟩

end PacketHeader

/-- Six address bytes and a padding word that nobody sets. -/
structure MacAddress where
  addr : Bytes
  padding : UInt16
  sixBytes : addr.length = 6
  deriving Repr

namespace MacAddress

def sizeof : Nat := 8

/-- `memcmp` of the address bytes; the padding does not count. -/
instance : BEq MacAddress := ⟨fun left right => left.addr == right.addr⟩

theorem beq_iff (left right : MacAddress) : (left == right) = true ↔ left.addr = right.addr := by
  change (left.addr == right.addr) = true ↔ left.addr = right.addr
  exact beq_iff_eq

instance : EquivBEq MacAddress where
  symm := fun {left right} same => (beq_iff right left).mpr ((beq_iff left right).mp same).symm
  trans := fun {a b c} first second =>
    (beq_iff a c).mpr (((beq_iff a b).mp first).trans ((beq_iff b c).mp second))
  rfl := fun {mac} => (beq_iff mac mac).mpr rfl

instance : Inhabited MacAddress := ⟨⟨List.replicate 6 0, 0, rfl⟩⟩

def encode (order : ByteOrder) (mac : MacAddress) : Bytes := mac.addr ++ store16 order mac.padding

def read (order : ByteOrder) (packet : Bytes) : Option MacAddress :=
  if enough : sizeof ≤ packet.length then
    some { addr := packet.take 6, padding := load16 order (packet.getD 6 0) (packet.getD 7 0),
           sixBytes := by simp only [sizeof] at enough; simp; omega }
  else none

@[simp] theorem encode_length (order : ByteOrder) (mac : MacAddress) :
    (encode order mac).length = sizeof := by
  simp [encode, mac.sixBytes, sizeof]

@[simp] theorem read_encode (order : ByteOrder) (mac : MacAddress) (rest : Bytes) :
    read order (encode order mac ++ rest) = some mac := by
  obtain ⟨addr, padding, sixBytes⟩ := mac
  have enough : sizeof ≤ (encode order ⟨addr, padding, sixBytes⟩ ++ rest).length := by
    simp
  rw [read, dif_pos enough]
  simp [encode, store16, sixBytes, List.getElem?_append]

end MacAddress

structure StartSession where
  mac : MacAddress
  deriving Repr

namespace StartSession

def sizeof : Nat := MacAddress.sizeof

def encode (order : ByteOrder) (request : StartSession) : Bytes := request.mac.encode order

def read (order : ByteOrder) (packet : Bytes) : Option StartSession :=
  (MacAddress.read order packet).map StartSession.mk

theorem read_isSome (order : ByteOrder) (packet : Bytes) (enough : sizeof ≤ packet.length) :
    ∃ request, read order packet = some request := by
  simp only [read, MacAddress.read]
  rw [dif_pos (by exact enough)]
  exact ⟨_, rfl⟩

end StartSession

structure SessionInfo where
  address : UInt32
  gateway : UInt32
  netmask : UInt32
  identity : UInt32
  deriving DecidableEq, Repr

namespace SessionInfo

def sizeof : Nat := 16

def encode (order : ByteOrder) (info : SessionInfo) : Bytes :=
  store32 order info.address ++ store32 order info.gateway ++ store32 order info.netmask ++
    store32 order info.identity

def read (order : ByteOrder) : Bytes → Option SessionInfo
  | a0 :: a1 :: a2 :: a3 :: g0 :: g1 :: g2 :: g3 :: n0 :: n1 :: n2 :: n3 ::
      i0 :: i1 :: i2 :: i3 :: _ =>
      some { address := load32 order a0 a1 a2 a3, gateway := load32 order g0 g1 g2 g3
             netmask := load32 order n0 n1 n2 n3, identity := load32 order i0 i1 i2 i3 }
  | _ => none

@[simp] theorem encode_length (order : ByteOrder) (info : SessionInfo) :
    (encode order info).length = sizeof := rfl

@[simp] theorem read_encode (order : ByteOrder) (info : SessionInfo) (rest : Bytes) :
    read order (encode order info ++ rest) = some info := by
  simp [encode, read, store32]

theorem read_isSome (order : ByteOrder) (packet : Bytes) (enough : sizeof ≤ packet.length) :
    ∃ info, read order packet = some info := by
  match packet, enough with
  | _ :: _ :: _ :: _ :: _ :: _ :: _ :: _ :: rest, enough =>
      have more : 8 ≤ rest.length := by simpa [sizeof] using enough
      match rest, more with
      | _ :: _ :: _ :: _ :: _ :: _ :: _ :: _ :: _, _ => exact ⟨_, rfl⟩

theorem read_take (order : ByteOrder) (packet : Bytes) (enough : sizeof ≤ packet.length) :
    read order (packet.take sizeof) = read order packet := by
  match packet, enough with
  | _ :: _ :: _ :: _ :: _ :: _ :: _ :: _ :: rest, enough =>
      have more : 8 ≤ rest.length := by simpa [sizeof] using enough
      match rest, more with
      | _ :: _ :: _ :: _ :: _ :: _ :: _ :: _ :: _, _ => rfl

end SessionInfo

/-- `sizeof(Heartbeat)`: one word that the server never reads. -/
def Heartbeat.sizeof : Nat := 4

structure EthernetHeader where
  dst : MacAddress
  src : MacAddress
  type : UInt16
  deriving Repr

namespace EthernetHeader

def sizeof : Nat := 18

def read (order : ByteOrder) (frame : Bytes) : Option EthernetHeader :=
  match MacAddress.read order frame, MacAddress.read order (frame.drop 8), frame.drop 16 with
  | some dst, some src, t0 :: t1 :: _ => some { dst, src, type := load16 order t0 t1 }
  | _, _, _ => none

theorem dst_addr {order : ByteOrder} {frame : Bytes} {header : EthernetHeader}
    (parsed : read order frame = some header) : header.dst.addr = frame.take 6 := by
  simp only [read] at parsed
  split at parsed
  · rename_i dst _ _ _ _ front _ _
    cases parsed
    simp only [MacAddress.read] at front
    split at front <;> cases front
    rfl
  · cases parsed

end EthernetHeader

structure ErrorDetail where
  code : UInt16
  deriving DecidableEq, Repr

namespace ErrorDetail

def sizeof : Nat := 2

def encode (order : ByteOrder) (detail : ErrorDetail) : Bytes := store16 order detail.code

@[simp] theorem encode_length (order : ByteOrder) (detail : ErrorDetail) :
    (encode order detail).length = sizeof := rfl

end ErrorDetail

end Muddymask
