import Mathlib.Data.Finset.Card
import Mathlib.Order.Interval.Finset.Nat
import Muddymask.Conservation
import Muddymask.Network

/-!
How much the server sends for what it is sent. An answer is at most half as long
again as the request it answers, and nobody is answered who has not asked, so the
server makes a poor amplifier. A frame is relayed to at most a hundred clients,
since every one of them holds an address of its own.
-/

namespace Muddymask

open Words TunnelServer

namespace Machine

/-! Answers. -/

def bytesTo (address : SockAddr) : List Action → Nat
  | [] => 0
  | .send target data :: rest =>
      (if target = address then data.length else 0) + bytesTo address rest
  | .write _ :: rest => bytesTo address rest

def asked (address : SockAddr) (_ : Machine) : Event → Nat
  | .datagram peer datagram _ _ => if peer = address then datagram.length else 0
  | _ => 0

/-- The bytes that a step sends to an address, but for relayed frames. -/
def answered (order : ByteOrder) (address : SockAddr) (machine : Machine) : Event → Nat
  | .forward => 0
  | event => ((machine.step order event).map fun result => bytesTo address result.2).getD 0

/-- The answer that a session in progress will get. -/
def owed (address : SockAddr) (machine : Machine) : Nat :=
  match machine.net with
  | some pending => if pending.peer = address then PacketHeader.sizeof + SessionInfo.sizeof else 0
  | none => 0

theorem bytesTo_packet (order : ByteOrder) (server : TunnelServer) (address target : SockAddr)
    (type : UInt8) (payload : Bytes) :
    bytesTo address [.send target (server.packet order type payload)] =
      if target = address then PacketHeader.sizeof + payload.length else 0 := by
  simp [bytesTo, packet_length]

theorem bytesTo_error (order : ByteOrder) (server : TunnelServer) (address peer : SockAddr)
    (code : ErrorCode) :
    bytesTo address [server.sendErrorCode order peer code] = if peer = address then 10 else 0 :=
  bytesTo_packet ..

theorem bytesTo_info (order : ByteOrder) (server : TunnelServer) (address peer : SockAddr)
    (id vip : UInt32) :
    bytesTo address [server.sendSessionInfo order peer id vip] = if peer = address then 24 else 0 :=
  bytesTo_packet ..

theorem dispatch_enough {order : ByteOrder} {crypto : DummyCrypto} {datagram : Bytes}
    (heeded : dispatch order crypto (recv datagram 2000) ≠ .ignore) :
    PacketHeader.sizeof ≤ datagram.length := by
  rcases dispatch_cases order crypto (recv datagram 2000) with ignored | ⟨_, ⟨low, _, _, _⟩, _⟩
  · exact absurd ignored heeded
  · rw [recv, List.length_take] at low
    exact Nat.le_trans low (Nat.min_le_right ..)

theorem dispatch_request {order : ByteOrder} {crypto : DummyCrypto} {datagram payload : Bytes}
    {id : UInt32}
    (called : dispatch order crypto (recv datagram 2000) =
      .call .startSession id payload StartSession.sizeof) : datagram.length = 16 := by
  obtain ⟨header, _, high, _, agrees, _, _, _, _, sized⟩ := (dispatch_call_iff ..).mp called
  rw [recv_whole high, ← sized] at agrees
  exact agrees.symm

theorem bytesTo_relayData (order : ByteOrder) (server : TunnelServer) (address peer : SockAddr)
    (id : UInt32) (packet : Bytes) (length : Nat) :
    bytesTo address (server.relayData order peer id packet length) ≤
      if peer = address then 10 else 0 := by
  simp only [relayData]
  split
  · exact Nat.zero_le _
  split
  · exact Nat.le_of_eq (bytesTo_error ..)
  split
  · exact Nat.zero_le _
  split <;> exact Nat.zero_le _

theorem bytesTo_heartbeat (order : ByteOrder) (server : TunnelServer) (address peer : SockAddr)
    (id : UInt32) (length : Nat) (time : Int) :
    bytesTo address (server.handleHeartbeat order peer id length time).2 ≤
      if peer = address then 10 else 0 := by
  simp only [handleHeartbeat]
  split
  · exact Nat.zero_le _
  split
  · exact Nat.le_of_eq (bytesTo_error ..)
  · exact Nat.zero_le _

theorem openSession_sized {order : ByteOrder} {server : TunnelServer} {peer : SockAddr}
    {packet : Bytes} {length : Nat} {random : UInt32} {time : Int} {info : Ptr}
    (made : (server.openSession order peer packet length random time).1 = some info) :
    length = StartSession.sizeof := by
  by_contra other
  simp [openSession, other] at made

theorem receive_paid {order : ByteOrder} {machine after : Machine} {peer : SockAddr}
    {datagram : Bytes} {random : UInt32} {time : Int} {actions : List Action}
    (idle : machine.net = none)
    (taken : machine.receive order peer datagram random time = some (after, actions))
    (address : SockAddr) :
    2 * (bytesTo address actions + owed address after) ≤
      3 * if peer = address then datagram.length else 0 := by
  have nothing : owed address machine = 0 := by simp [owed, idle]
  have error : ∀ bytes, bytes ≤ (if peer = address then 10 else 0) →
      dispatch order machine.server.crypto (recv datagram 2000) ≠ .ignore →
      2 * bytes ≤ 3 * if peer = address then datagram.length else 0 := by
    intro bytes few heeded
    have enough := dispatch_enough heeded
    simp only [PacketHeader.sizeof] at enough
    split at few
    · rw [if_pos ‹_›]
      omega
    · rw [if_neg ‹_›]
      omega
  simp only [receive] at taken
  split at taken
  · cases taken
    simp [bytesTo, nothing]
  · rename_i seen
    cases taken
    rw [nothing]
    exact error _ (Nat.le_of_eq (bytesTo_error ..)) (by simp [seen])
  · rename_i id packet length seen
    cases taken
    cases made : (machine.server.openSession order peer packet length random time).1 with
    | none => simp [bytesTo, owed]
    | some info =>
        -- nothing is sent yet, but the answer is owed
        have sized := openSession_sized made
        subst sized
        have size := dispatch_request seen
        simp only [owed, Option.map_some, bytesTo]
        split <;> simp [size, PacketHeader.sizeof, SessionInfo.sizeof]
  · rename_i id packet length seen
    split at taken <;> cases taken
    have same : owed address
        { machine with server := (machine.server.handleHeartbeat order peer id length time).1 } = 0 := by
      simp [owed, idle]
    rw [same]
    exact error _ (bytesTo_heartbeat ..) (by simp [seen])
  · rename_i id packet length seen
    split at taken <;> cases taken
    rw [nothing]
    exact error _ (bytesTo_relayData ..) (by simp [seen])

theorem step_paid {order : ByteOrder} {machine after : Machine} {event : Event}
    (taken : next order machine event = some after) (address : SockAddr) :
    2 * answered order address machine event + 2 * owed address after ≤
      3 * asked address machine event + 2 * owed address machine := by
  obtain ⟨⟨reached, actions⟩, stepped, rfl⟩ := Option.map_eq_some_iff.mp taken
  -- a step without actions that leaves the network thread alone
  have silent : ∀ event, machine.step order event = some (reached, []) →
      reached.net = machine.net →
      2 * answered order address machine event + 2 * owed address reached ≤
        3 * asked address machine event + 2 * owed address machine := by
    intro event stepped same
    have none : answered order address machine event = 0 := by
      simp only [answered]
      split
      · rfl
      · simp [stepped, bytesTo]
    rw [none, owed, owed, same]
    omega
  cases event with
  | datagram peer datagram random time =>
      simp only [step] at stepped
      split at stepped
      · cases stepped
      · rename_i idle
        have paid := receive_paid (by simpa using idle) stepped address
        simp only [answered, asked, step, idle, ↓reduceIte, stepped, Option.map_some,
          Option.getD_some, Bool.false_eq_true]
        omega
  | register =>
      simp only [step] at stepped
      split at stepped
      · cases stepped
      · rename_i pending waiting
        split at stepped
        · rename_i free
          cases stepped
          simp only [answered, asked, step, waiting, free, ↓reduceIte, Option.map_some,
            Option.getD_some, bytesTo_info, owed]
          split <;> simp [PacketHeader.sizeof, SessionInfo.sizeof]
        · cases stepped
  | forward =>
      simp only [step] at stepped
      split at stepped
      · cases stepped
        simp [answered, asked, owed]
      · cases stepped
        simp [answered, asked, owed]
      · cases stepped
  | frame frame clients =>
      have taken := stepped
      simp only [step] at stepped
      split at stepped
      · cases stepped
      split at stepped
      · cases stepped
        exact silent _ taken rfl
      split at stepped <;> cases stepped
      exact silent _ taken rfl
  | sweep now entries =>
      have taken := stepped
      simp only [step] at stepped
      split at stepped <;> cases stepped
      exact silent _ taken rfl
  | visit =>
      have taken := stepped
      simp only [step] at stepped
      split at stepped
      · split at stepped <;> cases stepped <;> exact silent _ taken rfl
      · cases stepped
        exact silent _ taken rfl
      · cases stepped
  | release =>
      have taken := stepped
      simp only [step] at stepped
      split at stepped <;> cases stepped
      exact silent _ taken rfl
  | delete =>
      have taken := stepped
      simp only [step] at stepped
      split at stepped <;> cases stepped
      exact silent _ taken rfl

/-- In every run the answers to an address have at most one and a half times the
bytes that came from it; a source address that somebody else makes up gains no more. -/
theorem poor_amplifier (order : ByteOrder) (mac : { mac : Bytes // mac.length = 6 })
    (secret : Bytes) (random : UInt32) (events : List Event) (final : Machine)
    (past : Runs.run (next order) (init order mac secret random) events = some final)
    (address : SockAddr) :
    2 * Runs.total (next order) (answered order address) (init order mac secret random) events ≤
      3 * Runs.total (next order) (asked address) (init order mac secret random) events := by
  have paid := @Runs.total_amortised _ _ (next order) (fun _ => True) (answered order address)
    (asked address) (fun machine => 2 * owed address machine) 2 3 (fun _ _ _ _ _ => trivial)
    (fun _ _ _ _ taken => step_paid taken address) _ final events trivial past
  exact Nat.le_trans (Nat.le_add_right _ _) paid

/-- A session: sixteen bytes for twenty-four. -/
theorem poor_amplifier_session : ∃ final,
    Runs.run (next .little) plainServer (plainSession 7 11 0) = some final ∧
    Runs.total (next .little) (answered .little plainPeer) plainServer (plainSession 7 11 0) = 24 ∧
    2 * Runs.total (next .little) (answered .little plainPeer) plainServer (plainSession 7 11 0) ≤
      3 * Runs.total (next .little) (asked plainPeer) plainServer (plainSession 7 11 0) := by
  have computed : (Runs.run (next .little) plainServer (plainSession 7 11 0)).isSome = true ∧
      Runs.total (next .little) (answered .little plainPeer) plainServer
        (plainSession 7 11 0) = 24 := by
    decide +kernel
  obtain ⟨final, past⟩ := Option.isSome_iff_exists.mp computed.1
  exact ⟨final, past, computed.2, poor_amplifier .little _ [] 5 _ final past plainPeer⟩

/-! Relayed frames. -/

theorem held_count {order : ByteOrder} {machine : Machine} (pooled : Pooled order machine)
    {infos : List Ptr} (once : infos.Nodup) (held : ∀ info ∈ infos, Holds machine info) :
    infos.length ≤ 100 := by
  let host := fun info => (ntohl order (machine.server.client info).tun.ip).toNat
  -- the pool keeps addresses in host order, the records in that of the network
  have back : ∀ info ∈ infos, htonl order (ntohl order (machine.server.client info).tun.ip) =
      (machine.server.client info).tun.ip := by
    intro info listed
    obtain ⟨issued, _, _, same⟩ := pooled.serves.heldIssued _ ⟨info, held info listed, rfl⟩
    rw [same, ntohl_htonl]
  have apart : (infos.map host).Nodup := by
    refine once.map_on fun left first right second same => ?_
    have address := congrArg (htonl order) (UInt32.toNat_inj.mp same)
    rw [back left first, back right second] at address
    exact pooled.apart left right (held left first) (held right second) address
  have inside : (infos.map host).toFinset ⊆ Finset.Ico poolLower.toNat poolUpper.toNat := by
    intro address member
    obtain ⟨info, listed, rfl⟩ := List.mem_map.mp (List.mem_toFinset.mp member)
    obtain ⟨above, below, _⟩ := held_in_range pooled (held info listed)
    exact Finset.mem_Ico.mpr ⟨UInt32.le_iff_toNat_le.mp above, UInt32.lt_iff_toNat_lt.mp below⟩
  have count := Finset.card_le_card inside
  rwa [List.toFinset_card_of_nodup apart, List.length_map, Nat.card_Ico] at count

theorem entries_bounded {order : ByteOrder} {machine : Machine} (reached : Reached order machine) :
    machine.server.dict.id.entries.length ≤ 100 ∧
      machine.server.dict.mac.entries.length ≤ 100 := by
  have sound := sound_reached reached
  have pooled := pooled_reached reached
  have held : ∀ info, machine.server.Registered info → Holds machine info :=
    fun info registered => holds_of_inUse sound (Or.inl registered)
  constructor
  · rw [← List.length_map Prod.snd]
    refine held_count pooled (UnorderedMap.values_nodup _ _ sound.idKey) fun info member => ?_
    obtain ⟨⟨id, same⟩, entry, rfl⟩ := List.mem_map.mp member
    exact held _ (Or.inl ⟨id, entry⟩)
  · rw [← List.length_map Prod.snd]
    refine held_count pooled (UnorderedMap.values_nodup _ _ sound.macKey) fun info member => ?_
    obtain ⟨⟨mac, same⟩, entry, rfl⟩ := List.mem_map.mp member
    exact held _ (Or.inr ⟨mac, entry⟩)

/-- One for a frame read, and for a frame sent to a client. -/
def readFrames (_ : Machine) : Event → Nat
  | .frame .. => 1
  | _ => 0

def sentFrames (machine : Machine) : Event → Nat
  | .forward => match machine.veth with
      | .relay _ (_ :: _) => 1
      | _ => 0
  | _ => 0

/-- The clients that a frame has still to go to. -/
def waitingFrames (machine : Machine) : Nat :=
  match machine.veth with
  | .relay _ clients => clients.length
  | .read => 0

theorem targets_bounded {order : ByteOrder} {machine : Machine} (reached : Reached order machine)
    (frame : Bytes) {clients : List Ptr}
    (iterated : clients.Perm (machine.server.dict.mac.entries.map Prod.snd)) :
    (machine.server.frameTargets order frame clients).length ≤ 100 := by
  have listed : clients.length ≤ 100 := by
    rw [iterated.length_eq, List.length_map]
    exact (entries_bounded reached).2
  simp only [frameTargets]
  split
  · exact Nat.zero_le _
  split
  · exact Nat.zero_le _
  split
  · exact listed
  · exact Nat.le_trans (Option.length_toList_le ..) (by decide)

theorem frame_paid {order : ByteOrder} {machine after : Machine} {event : Event}
    (reached : Reached order machine) (taken : next order machine event = some after) :
    sentFrames machine event + waitingFrames after ≤
      100 * readFrames machine event + waitingFrames machine := by
  have change := next_change taken
  cases change with
  | @framed frame clients reading long asleep iterated =>
      have few := targets_bounded reached (frame.take 2000) iterated
      simp only [sentFrames, waitingFrames, readFrames]
      omega
  | forwarded frame info clients relaying =>
      simp [sentFrames, waitingFrames, readFrames, relaying]
      omega
  | finished frame relaying => simp [sentFrames, waitingFrames, relaying]
  | _ => simp [sentFrames, waitingFrames]

/-- In every run no more than a hundred frames are sent for each frame read. -/
theorem relays_bounded (order : ByteOrder) (mac : { mac : Bytes // mac.length = 6 })
    (secret : Bytes) (random : UInt32) (events : List Event) (final : Machine)
    (past : Runs.run (next order) (init order mac secret random) events = some final) :
    Runs.total (next order) sentFrames (init order mac secret random) events ≤
        100 * Runs.total (next order) readFrames (init order mac secret random) events ∧
      final.server.dict.id.entries.length ≤ 100 ∧ final.server.dict.mac.entries.length ≤ 100 := by
  have paid := @Runs.total_amortised _ _ (next order) (Reached order) sentFrames readFrames
    waitingFrames 1 100 (fun _ event _ reached taken => reached_next reached event taken)
    (fun _ _ _ reached taken => by simpa using frame_paid reached taken) _ final events
    ⟨mac, secret, random, Runs.reachable_start _⟩ past
  refine ⟨?_, entries_bounded ⟨mac, secret, random, events, past⟩⟩
  rw [Nat.one_mul] at paid
  exact Nat.le_trans (Nat.le_add_right _ _) paid

def plainRelays : List Event :=
  plainSession 7 11 0 ++ plainSession 8 12 0 ++
    [.frame (plainBroadcast 60) [0, 1], .forward, .forward, .forward]

theorem relays_bounded_broadcast : ∃ final,
    Runs.run (next .little) plainServer plainRelays = some final ∧
    Runs.total (next .little) sentFrames plainServer plainRelays = 2 ∧
    Runs.total (next .little) sentFrames plainServer plainRelays ≤
      100 * Runs.total (next .little) readFrames plainServer plainRelays ∧
    final.server.dict.mac.entries.length ≤ 100 := by
  have computed : (Runs.run (next .little) plainServer plainRelays).isSome = true ∧
      Runs.total (next .little) sentFrames plainServer plainRelays = 2 := by
    decide +kernel
  obtain ⟨final, past⟩ := Option.isSome_iff_exists.mp computed.1
  obtain ⟨bounded, _, entries⟩ := relays_bounded .little _ [] 5 _ final past
  exact ⟨final, past, computed.2, bounded, entries⟩

end Machine

end Muddymask
