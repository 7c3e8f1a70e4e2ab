import Muddymask.Conservation

/-!
The answer to a request against what the server has registered. `startSession`
answers from its record and not from the dictionaries, so the answer is true as
long as `dict.id` takes the record in: the value of `random()` must not be a key
when the thread comes to its guard. Otherwise the client is handed the identity
of somebody else's session.
-/

namespace Muddymask

open Words TunnelServer Machine

namespace TunnelServer

/-- The `SessionInfo` in a packet, for somebody who has the key. -/
def sessionInfo (order : ByteOrder) (crypto : DummyCrypto) (data : Bytes) : Option SessionInfo :=
  let plain := crypto.decrypt order data data.length
  match PacketHeader.read order plain with
  | some header =>
      if header.type = PacketHeader.kSessionInfo then
        SessionInfo.read order (plain.drop PacketHeader.sizeof)
      else none
  | none => none

def sessionInfos (order : ByteOrder) (crypto : DummyCrypto) (actions : List Action) :
    List SessionInfo :=
  actions.filterMap fun action => match action with
    | .send _ data => sessionInfo order crypto data
    | .write _ => none

theorem sessionInfo_packet (order : ByteOrder) (server : TunnelServer) (info : SessionInfo) :
    sessionInfo order server.crypto
      (server.packet order PacketHeader.kSessionInfo (info.encode order)) = some info := by
  have read := SessionInfo.read_encode order info []
  rw [List.append_nil] at read
  simp only [sessionInfo, decrypt_packet, PacketHeader.read_encode, ↓reduceIte]
  rw [List.drop_left' (PacketHeader.encode_length order _)]
  exact read

theorem sessionInfos_sent (order : ByteOrder) (server : TunnelServer) (peer : SockAddr)
    (id vip : UInt32) :
    sessionInfos order server.crypto [server.sendSessionInfo order peer id vip] =
      [{ identity := id, address := vip, gateway := server.config.gateway
         netmask := server.config.netmask }] := by
  simp [sessionInfos, sendSessionInfo, sessionInfo_packet]

end TunnelServer

/-- Every `SessionInfo` among the outputs names a session of the client that asked. -/
def AnswerTrue (order : ByteOrder) (after : Machine) (peer : SockAddr) (request : StartSession)
    (actions : List Action) : Prop :=
  ∀ info ∈ sessionInfos order after.server.crypto actions,
    ∃ record, after.server.dict.id.find info.identity = some record ∧
      (after.server.client record).tun.ip = info.address ∧
      (after.server.client record).tun.mac = request.mac ∧
      (after.server.client record).address = peer

/-- The steps that are not the network thread's. -/
def Event.elsewhere : Event → Bool
  | .datagram .. | .register => false
  | _ => true

/-- The other threads neither write to a record nor take a request over. -/
theorem change_elsewhere {order : ByteOrder} {before after : Machine} {event : Event}
    (change : Change order before event after) (elsewhere : event.elsewhere = true) :
    after.net = before.net ∧ after.server.client = before.server.client := by
  cases change with
  | dropped | refused | opened | refreshed | registered => cases elsewhere
  | _ => exact ⟨rfl, rfl⟩

theorem run_elsewhere {order : ByteOrder} {before after : Machine} {events : List Event}
    (elsewhere : ∀ event ∈ events, event.elsewhere = true)
    (past : Runs.run (next order) before events = some after) :
    after.net = before.net ∧ after.server.client = before.server.client := by
  induction events generalizing before with
  | nil =>
      cases (Runs.run_nil ..).mp past
      exact ⟨rfl, rfl⟩
  | cons event rest ih =>
      obtain ⟨middle, taken, later⟩ := (Runs.run_cons ..).mp past
      have first := change_elsewhere (next_change taken) (elsewhere event (by simp))
      have second := ih (fun other member => elsewhere other (List.mem_cons_of_mem event member)) later
      exact ⟨second.1.trans first.1, second.2.trans first.2⟩

/-- A request that waits for the guard, with the record made for it. -/
structure Waiting (machine : Machine) (peer : SockAddr) (request : StartSession)
    (random : UInt32) (pending : Pending) : Prop where
  waiting : machine.net = some pending
  asker : pending.peer = peer
  mac : (machine.server.client pending.info).tun.mac = request.mac
  address : (machine.server.client pending.info).address = peer
  identity : (machine.server.client pending.info).identity = random

/-- Whatever the other threads do in between, the request that comes to the
guard is the one that was received. -/
theorem waiting_of_request {order : ByteOrder} {machine waiting : Machine} {peer : SockAddr}
    {datagram : Bytes} {random : UInt32} {time : Int} {request : StartSession}
    {during : List Event}
    (asked : sessionRequest order machine.server.crypto datagram = some request)
    (elsewhere : ∀ event ∈ during, event.elsewhere = true)
    (past : Runs.run (next order) machine (.datagram peer datagram random time :: during) =
      some waiting) {pending : Pending} (net : waiting.net = some pending) :
    Waiting waiting peer request random pending := by
  obtain ⟨received, taken, later⟩ := (Runs.run_cons ..).mp past
  obtain ⟨sameNet, sameClient⟩ := run_elsewhere elsewhere later
  rw [sameNet] at net
  cases next_change taken with
  | dropped idle | refused _ idle | refreshed _ _ idle => cases idle.symm.trans net
  | opened found idle known =>
      cases net
      cases asked.symm.trans known
      exact { waiting := sameNet, asker := rfl
              mac := by simp [sameClient, opened], address := by simp [sameClient, opened]
              identity := by simp [sameClient, opened] }

/-- Two sessions are told apart by their virtual addresses. -/
theorem foreign_address {order : ByteOrder} {machine : Machine} (reached : Reached order machine)
    {pending : Pending} (waiting : machine.net = some pending) {id : UInt32} {other : Ptr}
    (present : machine.server.dict.id.find id = some other) :
    (machine.server.client other).tun.ip ≠ (machine.server.client pending.info).tun.ip := by
  have sound := sound_reached reached
  have registered : machine.server.Registered other :=
    Or.inl ⟨id, (UnorderedMap.mem_iff_find ..).mpr present⟩
  intro same
  have clash := (pooled_reached reached).apart other pending.info
    (holds_of_inUse sound (Or.inl registered)) (holds_of_inUse sound (Or.inr ⟨pending, waiting, rfl⟩))
    same
  exact sound.pendingApart pending waiting (clash ▸ registered)

/-- The guarded part of `startSession`: the record goes into the dictionaries
and the answer is sent from it. -/
theorem step_register {order : ByteOrder} {waiting after : Machine} {actions : List Action}
    {pending : Pending} (net : waiting.net = some pending)
    (answered : waiting.step order .register = some (after, actions)) :
    after = { waiting with server := waiting.server.registerClient pending.info, net := none } ∧
      actions = [waiting.server.sendSessionInfo order pending.peer
        (waiting.server.client pending.info).identity
        (waiting.server.client pending.info).tun.ip] := by
  simp only [step, net] at answered
  split at answered <;> cases answered
  exact ⟨rfl, rfl⟩

/-- One request, from its receipt through anything the other threads do to the
answer: the answer is true if and only if the drawn identity is free. -/
theorem session_answer_iff (order : ByteOrder) (machine : Machine) (reached : Reached order machine)
    (peer : SockAddr) (datagram : Bytes) (random : UInt32) (time : Int) (request : StartSession)
    (asked : sessionRequest order machine.server.crypto datagram = some request)
    (during : List Event) (elsewhere : ∀ event ∈ during, event.elsewhere = true)
    (waiting : Machine)
    (past : Runs.run (next order) machine (.datagram peer datagram random time :: during) =
      some waiting)
    (after : Machine) (actions : List Action)
    (answered : waiting.step order .register = some (after, actions)) :
    AnswerTrue order after peer request actions ↔ waiting.server.dict.id.find random = none := by
  obtain ⟨pending, net⟩ : ∃ pending, waiting.net = some pending := by
    cases net : waiting.net with
    | none => simp [step, net] at answered
    | some pending => exact ⟨pending, rfl⟩
  have held := waiting_of_request asked elsewhere past net
  obtain ⟨rfl, rfl⟩ := step_register net answered
  have answers := sessionInfos_sent order waiting.server pending.peer
    (waiting.server.client pending.info).identity (waiting.server.client pending.info).tun.ip
  constructor
  · intro answer
    obtain ⟨record, found, address, _⟩ := answer _ (answers ▸ List.mem_singleton_self _)
    simp only [registerClient, held.identity, UnorderedMap.find_insert] at found address
    cases taken : waiting.server.dict.id.find random with
    | none => rfl
    | some other =>
        -- The old session keeps the identity, and it has another address.
        have reachedWaiting : Reached order waiting := by
          obtain ⟨mac, secret, first, before⟩ := reached
          exact ⟨mac, secret, first, Runs.reachable_run before past⟩
        have same : other = record := by simpa [taken] using found
        subst same
        exact absurd address (foreign_address reachedWaiting net taken)
  · intro free info member
    cases List.mem_singleton.mp (answers ▸ member)
    refine ⟨pending.info, ?_, rfl, held.mac, held.address⟩
    simp [registerClient, held.identity, UnorderedMap.find_insert, free]

theorem session_answer_first : ∃ waiting after actions,
    Runs.run (next .little) plainServer [.datagram plainPeer (plainRequest 7) 11 0] = some waiting ∧
      waiting.step .little .register = some (after, actions) ∧
      (AnswerTrue .little after plainPeer { mac := plainMac 7 } actions ↔
        waiting.server.dict.id.find 11 = none) := by
  have computed : ((Runs.run (next .little) plainServer
      [.datagram plainPeer (plainRequest 7) 11 0]).bind fun waiting =>
        (waiting.step .little .register).map fun _ => ()) = some () := by
    decide +kernel
  obtain ⟨waiting, past, answer⟩ := Option.bind_eq_some_iff.mp computed
  obtain ⟨⟨after, actions⟩, answered, _⟩ := Option.map_eq_some_iff.mp answer
  have reached : Reached .little plainServer := ⟨_, _, _, Runs.reachable_start _⟩
  exact ⟨waiting, after, actions, past, answered, session_answer_iff .little plainServer reached
    plainPeer (plainRequest 7) 11 0 { mac := plainMac 7 } rfl [] (by simp) waiting past after
    actions answered⟩

/-- `random()` repeats itself: the client with the second MAC is handed 11, which
is the session of the first. -/
theorem session_answer_fails : ∃ machine waiting after actions,
    Runs.run (next .little) plainServer (plainSession 7 11 0) = some machine ∧
      sessionRequest .little machine.server.crypto (plainRequest 8) = some { mac := plainMac 8 } ∧
      Runs.run (next .little) machine [.datagram plainPeer (plainRequest 8) 11 1] = some waiting ∧
      waiting.step .little .register = some (after, actions) ∧
      ¬ AnswerTrue .little after plainPeer { mac := plainMac 8 } actions := by
  have computed : ((Runs.run (next .little) plainServer (plainSession 7 11 0)).bind fun machine =>
      (Runs.run (next .little) machine [.datagram plainPeer (plainRequest 8) 11 1]).bind fun waiting =>
        (waiting.step .little .register).map fun result =>
          ((machine.server.crypto, result.1.server.dict.id.find 11),
            (result.1.server.client 0).tun.mac.addr,
            (sessionInfos .little result.1.server.crypto result.2).map SessionInfo.identity)) =
      some ((plainServer.server.crypto, some 0), [2, 0, 0, 0, 0, 7], [11]) := by
    decide +kernel
  obtain ⟨machine, past, rest⟩ := Option.bind_eq_some_iff.mp computed
  obtain ⟨waiting, received, rest⟩ := Option.bind_eq_some_iff.mp rest
  obtain ⟨⟨after, actions⟩, answered, seen⟩ := Option.map_eq_some_iff.mp rest
  simp only [Prod.mk.injEq] at seen
  obtain ⟨⟨crypto, owner⟩, first, identities⟩ := seen
  refine ⟨machine, waiting, after, actions, past, by rw [crypto]; rfl, received, answered, ?_⟩
  intro answer
  obtain ⟨info, member, identity⟩ := List.mem_map.mp (identities ▸ List.mem_singleton_self (11 : UInt32))
  obtain ⟨record, found, _, mac, _⟩ := answer info member
  rw [identity, owner] at found
  cases found
  rw [mac] at first
  exact absurd first (by decide)

end Muddymask
