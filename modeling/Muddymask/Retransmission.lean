import Muddymask.Registry
import Muddymask.Turns

/-!
The client repeats its request until an answer comes, and a network may repeat
it as well. The server treats every copy as a request of its own: each takes a
further address, so a repetition is harmless only where the pool has no second
address to give.
-/

namespace Muddymask

open Words TunnelServer Machine

/-- The same datagram, once for each answer of `random()` and `std::time()`. -/
def handleCopies (order : ByteOrder) (peer : SockAddr) (datagram : Bytes) :
    TunnelServer → List (UInt32 × Int) → TunnelServer :=
  List.foldl fun server answer =>
    (server.handleNetworkDatagram order peer datagram answer.1 answer.2).1

/-- The server can still tell a request from its copy by nothing but its pool. -/
structure Copied (order : ByteOrder) (request : StartSession) (datagram : Bytes)
    (server : TunnelServer) : Prop where
  asked : sessionRequest order server.crypto datagram = some request
  serves : ∃ held, server.pool.Serves order poolLower held

theorem copy_exhausted {order : ByteOrder} {request : StartSession} {datagram : Bytes}
    {server : TunnelServer} (copied : Copied order request datagram server) (peer : SockAddr)
    (random : UInt32) (time : Int) (none : server.pool.available = 0) :
    (server.handleNetworkDatagram order peer datagram random time).1 = server := by
  have failed := AddressPool.allocate_exhausted order none
  rcases handle_cases order server peer datagram random time with ⟨unasked, _⟩ |
    ⟨_, _, ⟨_, same⟩ | ⟨allocated, _⟩⟩ | ⟨_, _, heard, _⟩
  · cases unasked.symm.trans copied.asked
  · rw [same, failed]
  · simp [failed] at allocated
  · cases heard.symm.trans (heartbeat_no_request copied.asked)

theorem copy_available {order : ByteOrder} {request : StartSession} {datagram : Bytes}
    {server : TunnelServer} (copied : Copied order request datagram server) (peer : SockAddr)
    (random : UInt32) (time : Int) (some : server.pool.available ≠ 0) :
    let after := (server.handleNetworkDatagram order peer datagram random time).1
    Copied order request datagram after ∧ after.pool.available + 1 = server.pool.available ∧
      after.pool.taken poolLower = server.pool.taken poolLower + 1 := by
  intro after
  obtain ⟨held, serves⟩ := copied.serves
  obtain ⟨nonzero, fewer, more⟩ := AddressPool.allocate_available serves some
  rcases handle_cases order server peer datagram random time with ⟨unasked, _⟩ |
    ⟨_, _, ⟨exhausted, _⟩ | ⟨_, same⟩⟩ | ⟨_, _, heard, _⟩
  · cases unasked.symm.trans copied.asked
  · exact absurd exhausted nonzero
  · rw [show after = _ from same]
    exact ⟨⟨copied.asked, _, (AddressPool.serves_allocate serves nonzero).2⟩, fewer, more⟩
  · cases heard.symm.trans (heartbeat_no_request copied.asked)

theorem copies_exhausted {order : ByteOrder} {request : StartSession} {datagram : Bytes}
    {server : TunnelServer} (copied : Copied order request datagram server) (peer : SockAddr)
    (answers : List (UInt32 × Int)) (none : server.pool.available = 0) :
    handleCopies order peer datagram server answers = server := by
  induction answers with
  | nil => rfl
  | cons answer rest ih =>
      rw [handleCopies, List.foldl_cons, copy_exhausted copied peer answer.1 answer.2 none]
      exact ih

theorem copies_taken {order : ByteOrder} {request : StartSession} {datagram : Bytes}
    {server : TunnelServer} (copied : Copied order request datagram server) (peer : SockAddr)
    (answers : List (UInt32 × Int)) :
    (handleCopies order peer datagram server answers).pool.taken poolLower =
      server.pool.taken poolLower + min answers.length server.pool.available := by
  induction answers generalizing server with
  | nil => simp [handleCopies]
  | cons answer rest ih =>
      by_cases none : server.pool.available = 0
      · simp [copies_exhausted copied peer _ none, none]
      · obtain ⟨next, fewer, more⟩ := copy_available copied peer answer.1 answer.2 none
        -- The copy moves one address from `available` to `taken`.
        have later := ih next
        rw [handleCopies, List.foldl_cons]
        simp only [handleCopies] at later
        rw [later, more, List.length_cons]
        omega

/-- Repeating a request changes the number of sessions or of addresses in use,
except where it is handled once or at most one address is left. -/
theorem retransmission_idempotent_iff (order : ByteOrder) (machine : Machine)
    (reached : Reached order machine) (peer : SockAddr) (datagram : Bytes)
    (asked : (sessionRequest order machine.server.crypto datagram).isSome)
    (first : UInt32 × Int) (rest : List (UInt32 × Int)) :
    ((handleCopies order peer datagram machine.server (first :: rest)).dict.id.size =
        (handleCopies order peer datagram machine.server [first]).dict.id.size ∧
      (handleCopies order peer datagram machine.server (first :: rest)).pool.taken poolLower =
        (handleCopies order peer datagram machine.server [first]).pool.taken poolLower) ↔
    rest = [] ∨ machine.server.pool.available ≤ 1 := by
  obtain ⟨request, asked⟩ := Option.isSome_iff_exists.mp asked
  have copied : Copied order request datagram machine.server :=
    ⟨asked, _, (pooled_reached reached).serves⟩
  constructor
  · rintro ⟨_, same⟩
    rw [copies_taken copied, copies_taken copied] at same
    -- With two addresses left, the second copy takes one that the first did not.
    by_contra several
    simp only [not_or, ← List.length_eq_zero_iff] at several
    simp only [List.length_cons, List.length_nil] at same
    omega
  · rintro (rfl | few)
    · exact ⟨rfl, rfl⟩
    · have settled : handleCopies order peer datagram machine.server (first :: rest) =
          handleCopies order peer datagram machine.server [first] := by
        by_cases none : machine.server.pool.available = 0
        · rw [copies_exhausted copied peer _ none, copies_exhausted copied peer _ none]
        · obtain ⟨next, fewer, _⟩ := copy_available copied peer first.1 first.2 none
          exact copies_exhausted next peer rest (by omega)
      rw [settled]
      exact ⟨rfl, rfl⟩

theorem retransmission_idempotent_twice :
    let copies := handleCopies .little plainPeer (plainRequest 7) plainServer.server
    ((copies [(11, 0), (12, 1)]).dict.id.size = (copies [(11, 0)]).dict.id.size ∧
      (copies [(11, 0), (12, 1)]).pool.taken poolLower =
        (copies [(11, 0)]).pool.taken poolLower) ↔
    [(12, 1)] = ([] : List (UInt32 × Int)) ∨ plainServer.server.pool.available ≤ 1 :=
  retransmission_idempotent_iff .little plainServer ⟨_, _, _, Runs.reachable_start _⟩ plainPeer
    (plainRequest 7) (by decide +kernel) (11, 0) [(12, 1)]

/-- The first retry of a client makes a second session with a second address. -/
theorem retransmission_idempotent_fails :
    let copies := handleCopies .little plainPeer (plainRequest 7) plainServer.server
    sessionRequest .little plainServer.server.crypto (plainRequest 7) =
        some { mac := plainMac 7 } ∧
      (copies [(11, 0), (12, 1)]).dict.id.size ≠ (copies [(11, 0)]).dict.id.size ∧
      (copies [(11, 0), (12, 1)]).pool.taken poolLower ≠
        (copies [(11, 0)]).pool.taken poolLower := by
  refine ⟨rfl, ?_, ?_⟩ <;> decide +kernel

end Muddymask
