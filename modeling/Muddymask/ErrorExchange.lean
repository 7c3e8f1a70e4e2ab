import Muddymask.Establishment

/-!
Two servers and an error. A server gives `kErrorDetail` to no handler, but it
complains about the version before it looks at the type. Between two servers
whose keys agree in the bytes over the length and differ in the byte over the
version, every error is answered with an error, without end.
-/

namespace Muddymask

open Words TunnelServer

structure Host where
  order : ByteOrder
  server : TunnelServer
  address : SockAddr

def Silent (actions : List Action) : Prop := ∀ address data, .send address data ∉ actions

namespace Host

def key (host : Host) (j : Nat) : UInt8 := byte32 host.order host.server.crypto.key j

def error (host : Host) (code : ErrorCode) : Bytes :=
  host.server.packet host.order PacketHeader.kErrorDetail
    (({ code := code.code } : ErrorDetail).encode host.order)

def errorText (host : Host) (code : ErrorCode) : Bytes :=
  ({ type := PacketHeader.kErrorDetail, length := 2, identity := host.server.identity } :
    PacketHeader).encode host.order ++ ({ code := code.code } : ErrorDetail).encode host.order

theorem errorText_length (host : Host) (code : ErrorCode) : (host.errorText code).length = 10 := rfl

theorem error_eq (host : Host) (code : ErrorCode) :
    host.error code =
      host.server.crypto.encrypt host.order (host.errorText code) (host.errorText code).length := rfl

theorem sendErrorCode_eq (host : Host) (peer : SockAddr) (code : ErrorCode) :
    host.server.sendErrorCode host.order peer code = .send peer (host.error code) := rfl

theorem error_length (host : Host) (code : ErrorCode) : (host.error code).length = 10 := by
  rw [error, packet_length]
  rfl

theorem recv_error (host : Host) (code : ErrorCode) : recv (host.error code) 2000 = host.error code :=
  recv_of_le (by rw [error_length]; decide)

/-- One turn of the network thread of `host`, with a datagram of `peer`. -/
def hears (host peer : Host) (datagram : Bytes) (random : UInt32) (time : Int) :
    TunnelServer × List Action :=
  host.server.handleNetworkDatagram host.order peer.address datagram random time

/-- The length of an error of `sender` still reads as 2 under the key of `receiver`. -/
def LengthSurvives (sender receiver : Host) : Prop :=
  ∀ j < 2, byte16 sender.order 2 j ^^^ sender.key (2 + j) ^^^ receiver.key (2 + j) =
    byte16 receiver.order 2 j

theorem lengthSurvives_symm {sender receiver : Host} (survives : LengthSurvives sender receiver) :
    LengthSurvives receiver sender := by
  intro j small
  rw [← survives j small, xor_cancel, xor_cancel]

/-- The keys agree over the length of an error and differ over its version. -/
def Refuses (receiver sender : Host) : Prop :=
  LengthSurvives sender receiver ∧ sender.key 1 ≠ receiver.key 1

instance (receiver sender : Host) : Decidable (receiver.Refuses sender) :=
  inferInstanceAs (Decidable ((∀ j < 2, _) ∧ _))

theorem refuses_symm {sender receiver : Host} (refuses : receiver.Refuses sender) :
    sender.Refuses receiver :=
  ⟨lengthSurvives_symm refuses.1, refuses.2.symm⟩

theorem lengthSurvives_iff {sender receiver : Host} (same : sender.order = receiver.order) :
    LengthSurvives sender receiver ↔ ∀ j < 2, sender.key (2 + j) = receiver.key (2 + j) := by
  simp only [LengthSurvives, same]
  exact forall₂_congr fun j _ => xor_same_iff

theorem error_header (sender receiver : Host) (code : ErrorCode) :
    ∃ header, PacketHeader.read receiver.order (receiver.server.crypto.decrypt receiver.order
        (sender.error code) (sender.error code).length) = some header ∧
      header.version = PacketHeader.kVersion ^^^ sender.key 1 ^^^ receiver.key 1 ∧
      ∀ j < 2, byte16 receiver.order header.length j =
        byte16 sender.order 2 j ^^^ sender.key (2 + j) ^^^ receiver.key (2 + j) := by
  have size := sender.error_length code
  have plain : (receiver.server.crypto.decrypt receiver.order (sender.error code)
      (sender.error code).length).length = 10 := by
    rw [DummyCrypto.decrypt_length, size]
  obtain ⟨header, parsed⟩ := PacketHeader.read_isSome receiver.order _
    (by rw [plain]; decide : PacketHeader.sizeof ≤ _)
  obtain ⟨_, version, low, high⟩ := PacketHeader.read_bytes parsed
  -- Each header byte is met by the byte of either key that lies over it.
  have seen := DummyCrypto.decrypt_foreign sender.order receiver.order sender.server.crypto
    receiver.server.crypto (sender.errorText code)
  rw [← error_eq, errorText_length] at seen
  rw [size] at version low high
  refine ⟨header, parsed, ?_, ?_⟩
  · exact Option.some.inj (version.symm.trans (seen 1 (by decide)))
  · intro j small
    rcases (by omega : j = 0 ∨ j = 1) with rfl | rfl
    · exact Option.some.inj (low.symm.trans (seen 2 (by decide)))
    · exact Option.some.inj (high.symm.trans (seen 3 (by decide)))

/-- The two bytes that hold a length determine it. -/
theorem length_agrees_iff (order : ByteOrder) (length : UInt16) :
    length.toNat + PacketHeader.sizeof = 10 ↔
      ∀ j < 2, byte16 order length j = byte16 order 2 j := by
  constructor
  · intro agrees j _
    have two : length = 2 := UInt16.toNat_inj.mp (Nat.add_right_cancel agrees)
    rw [two]
  · intro bytes
    have two : length = 2 := by
      rw [← load16_bytes order length, bytes 0 (by decide), bytes 1 (by decide), load16_bytes]
    rw [two]
    rfl

theorem refused_iff (sender receiver : Host) (code : ErrorCode) :
    dispatch receiver.order receiver.server.crypto (recv (sender.error code) 2000) = .wrongVersion ↔
      receiver.Refuses sender := by
  obtain ⟨header, parsed, version, length⟩ := error_header sender receiver code
  have agrees : header.length.toNat + PacketHeader.sizeof = (sender.error code).length ↔
      LengthSurvives sender receiver := by
    rw [error_length, length_agrees_iff receiver.order]
    exact forall₂_congr fun j small => by rw [length j small]
  have differs : header.version ≠ PacketHeader.kVersion ↔ sender.key 1 ≠ receiver.key 1 := by
    rw [version, not_iff_not]
    exact xor_same_iff
  rw [recv_error, dispatch_wrongVersion_iff, Refuses, ← agrees, ← differs]
  constructor
  · rintro ⟨other, _, _, same, known⟩
    cases Option.some.inj (parsed.symm.trans same)
    exact known
  · rintro known
    refine ⟨header, ?_, ?_, parsed, known⟩
    · rw [error_length]
      decide
    · rw [error_length]
      decide

theorem hears_error (sender receiver : Host) (code : ErrorCode) (random : UInt32) (time : Int) :
    receiver.hears sender (sender.error code) random time =
      (receiver.server, if receiver.Refuses sender then
        [.send sender.address (receiver.error .kWrongVersion)] else []) := by
  have refused := refused_iff sender receiver code
  rw [hears, handleNetworkDatagram]
  cases seen : dispatch receiver.order receiver.server.crypto (recv (sender.error code) 2000) with
  | wrongVersion => rw [if_pos (refused.mp seen), sendErrorCode_eq]
  | ignore =>
      rw [seen] at refused
      rw [if_neg fun refuses => Dispatch.noConfusion (refused.mpr refuses)]
  | call handler id payload length =>
      obtain ⟨_, _, _, _, agrees, _, _, _, _, sized⟩ := (dispatch_call_iff ..).mp seen
      have two : length = 2 := by
        rw [recv_error, error_length, ← sized] at agrees
        exact Nat.add_right_cancel agrees
      subst two
      rw [seen] at refused
      rw [if_neg fun refuses => Dispatch.noConfusion (refused.mpr refuses)]
      cases handler with
      | handleHeartbeat => rfl
      | startSession => rfl
      | relayData => rfl

/-- `n` errors in a row: each host answers the error of the other with one of its own. -/
def Rally : Nat → Host → Host → Bytes → Prop
  | 0, _, _, _ => True
  | n + 1, sender, receiver, datagram => ∀ random time, ∃ answer,
      receiver.hears sender datagram random time =
        (receiver.server, [.send sender.address answer]) ∧ Rally n receiver sender answer

theorem rally_of_refuses (n : Nat) {sender receiver : Host} (refuses : receiver.Refuses sender)
    (code : ErrorCode) : Rally n sender receiver (sender.error code) := by
  induction n generalizing sender receiver code with
  | zero => trivial
  | succ n ih =>
      intro random time
      exact ⟨_, by rw [hears_error, if_pos refuses], ih (refuses_symm refuses) _⟩

end Host

/-- An error of one server at another, whatever their secrets and states: it is
answered, and then without end, exactly if the keys agree over its length and
differ over its version. -/
theorem error_unanswered_iff (sender receiver : Host) (code : ErrorCode) :
    ((∀ random time, Silent (receiver.hears sender (sender.error code) random time).2) ↔
      (sender.LengthSurvives receiver → sender.key 1 = receiver.key 1)) ∧
    ((∀ n, Host.Rally n sender receiver (sender.error code)) ↔
      ¬ (sender.LengthSurvives receiver → sender.key 1 = receiver.key 1)) := by
  have refuses : receiver.Refuses sender ↔
      ¬ (sender.LengthSurvives receiver → sender.key 1 = receiver.key 1) := by
    rw [Host.Refuses, Classical.not_imp]
  have silent : (∀ random time,
      Silent (receiver.hears sender (sender.error code) random time).2) ↔
        ¬ receiver.Refuses sender := by
    simp only [Host.hears_error]
    by_cases answers : receiver.Refuses sender
    · simp [answers, Silent]
    · simp [answers, Silent]
  constructor
  · rw [silent, refuses, not_not]
  · rw [← refuses]
    constructor
    · intro rally
      obtain ⟨answer, heard, _⟩ := rally 1 0 0
      rw [Host.hears_error] at heard
      by_contra answers
      rw [if_neg answers] at heard
      cases congrArg Prod.snd heard
    · exact fun answers n => Host.rally_of_refuses n answers code

/-- A fresh server with this secret, on a little-endian host. -/
def freshHost (secret : Bytes) (address : SockAddr) : Host :=
  { order := .little, address
    server := (Machine.init .little ⟨[2, 0, 0, 0, 0, 4], rfl⟩ secret 5).server }

def leftHost : Host := freshHost [] { sinFamily := 2, sinPort := 9, sinAddr := 1 }

/-- The key of this secret has zero bytes over the length and `b` over the version. -/
def rightHost : Host := freshHost (ascii "ab") { sinFamily := 2, sinPort := 9, sinAddr := 2 }

theorem error_unanswered_fails :
    ¬ Silent (rightHost.hears leftHost (leftHost.error .kRestartSession) 0 0).2 := by
  have refuses : rightHost.Refuses leftHost := by decide +kernel
  rw [Host.hears_error, if_pos refuses]
  exact fun silent => silent _ _ (List.mem_singleton_self _)

end Muddymask
