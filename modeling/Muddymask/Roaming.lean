import Muddymask.LockRefinement
import Muddymask.SessionGrant

/-!
Where the server sends frames. A client may move: its record follows the address
of the last datagram that was heard for it, the request or a heartbeat, and a
relayed frame goes there and nowhere else. Nothing is relayed to a session that
has been removed.
-/

namespace Muddymask

open Words TunnelServer

namespace Machine

/-- The peer that is heard for the record `info`: its datagram makes the record, or
is a heartbeat with an identity that `dict.id` maps to it. -/
def heardFrom (order : ByteOrder) (info : Ptr) (machine : Machine) : Event → Option SockAddr
  | .datagram peer datagram _ _ =>
      let server := machine.server
      if (sessionRequest order server.crypto datagram).isSome ∧
          (server.pool.allocateAddress order).1 ≠ 0 ∧ server.next = info ∨
        (heartbeatIdentity order server.crypto datagram).bind server.dict.id.find = some info
      then some peer else none
  | _ => none

/-- All of them, the last one at the end. -/
def peers (order : ByteOrder) (info : Ptr) : Machine → List Event → List SockAddr :=
  Runs.observed (next order) (heardFrom order info)

def SamePlace (one other : SockAddr) : Prop :=
  one.sinAddr = other.sinAddr ∧ one.sinPort = other.sinPort

/-- Every record ever made stands where its client was heard last. -/
def Located (order : ByteOrder) (start : Machine) (events : List Event) (machine : Machine) :
    Prop :=
  ∀ info < machine.server.next, ∃ peer,
    (peers order info start events).getLast? = some peer ∧
      SamePlace (machine.server.client info).address peer

/-- While a frame is relayed no sweep is under way, and it goes to sessions only. -/
structure Relaying (machine : Machine) : Prop where
  asleep : machine.veth.reading = false → machine.poll.asleep = true
  registered : ∀ frame clients, machine.veth = .relay frame clients → ∀ info ∈ clients,
    ∃ mac, (mac, info) ∈ machine.server.dict.mac.entries

section Changes
variable {order : ByteOrder} {machine after : Machine} {event : Event}

theorem relaying_change (relays : Relaying machine) (change : Change order machine event after) :
    Relaying after := by
  -- a veth thread that reads has nothing in its hands
  have idle : ∀ veth : Veth, veth.reading = true → ∀ frame clients, veth ≠ .relay frame clients := by
    rintro _ reading frame clients rfl
    cases reading
  -- and one that relays leaves no room for a sweep
  have held : ∀ frame clients, machine.veth = .relay frame clients → machine.poll.asleep = true :=
    fun frame clients relaying => relays.asleep (by simp [relaying, Veth.reading])
  cases change with
  | framed reading long asleep iterated =>
      refine ⟨fun _ => asleep, ?_⟩
      rintro _ _ ⟨rfl⟩
      exact Threads.frameTargets_registered iterated
  | forwarded frame info clients relaying =>
      refine ⟨fun _ => held _ _ relaying, ?_⟩
      rintro _ _ ⟨rfl⟩ other member
      exact relays.registered _ _ relaying other (List.mem_cons_of_mem _ member)
  | finished => exact ⟨by simp [Veth.reading], by simp⟩
  | registered pending waiting asleep reading =>
      exact ⟨relays.asleep, fun frame clients relaying => absurd relaying (idle _ reading _ _)⟩
  | swept asleep reading =>
      refine ⟨fun busy => ?_, relays.registered⟩
      rw [reading] at busy
      cases busy
  | erased at_entry =>
      refine ⟨fun busy => ?_, fun frame clients relaying => ?_⟩
      · have asleep := relays.asleep busy
        rw [at_entry] at asleep
        cases asleep
      · have asleep := held frame clients relaying
        rw [at_entry] at asleep
        cases asleep
  | spared here | awoke here | released here | deleted here =>
      refine ⟨fun busy => ?_, relays.registered⟩
      have asleep := relays.asleep busy
      rw [here] at asleep
      cases asleep
  | _ => exact ⟨relays.asleep, relays.registered⟩

theorem located_quiet {start : Machine} {events : List Event} {info : Ptr} {place : SockAddr}
    (past : Runs.run (next order) start events = some machine)
    (quiet : heardFrom order info machine event = none)
    (before : ∃ peer, (peers order info start events).getLast? = some peer ∧ SamePlace place peer) :
    ∃ peer, (peers order info start (events ++ [event])).getLast? = some peer ∧
      SamePlace place peer := by
  rw [peers, Runs.observed_concat _ _ _ _ _ past, quiet]
  simpa [peers] using before

theorem located_heard {start : Machine} {events : List Event} {info : Ptr}
    {place peer : SockAddr} (past : Runs.run (next order) start events = some machine)
    (heard : heardFrom order info machine event = some peer) (same : SamePlace place peer) :
    ∃ peer, (peers order info start (events ++ [event])).getLast? = some peer ∧
      SamePlace place peer := by
  rw [peers, Runs.observed_concat _ _ _ _ _ past, heard]
  exact ⟨peer, by simp, same⟩

theorem refreshClient_place (server : TunnelServer) (info : Ptr) (peer : SockAddr) (time : Int) :
    SamePlace ((server.refreshClient info peer time).client info).address peer := by
  simp only [refreshClient, setClient_client, ↓reduceIte, SamePlace]
  split
  · exact ⟨rfl, rfl⟩
  · rename_i unmoved
    simpa only [not_or, ne_eq, not_not] using unmoved

theorem located_change {start : Machine} {events : List Event}
    (past : Runs.run (next order) start events = some machine)
    (located : Located order start events machine) (change : Change order machine event after) :
    Located order start (events ++ [event]) after := by
  have same : after.server.next = machine.server.next →
      after.server.client = machine.server.client →
      (∀ info, heardFrom order info machine event = none) →
      Located order start (events ++ [event]) after := by
    intro next client quiet info old
    rw [client]
    exact located_quiet past (quiet info) (located info (next ▸ old))
  cases change with
  | @dropped peer datagram random time idle unasked unknown =>
      refine same rfl rfl fun info => ?_
      cases heard : heartbeatIdentity order machine.server.crypto datagram with
      | none => simp [heardFrom, unasked, heard]
      | some id => simp [heardFrom, unasked, heard, unknown id heard]
  | refused request idle asked exhausted =>
      refine same rfl rfl fun info => ?_
      simp [heardFrom, exhausted, heartbeat_no_request asked]
  | opened request idle asked allocated =>
      intro info old
      by_cases new : info = machine.server.next
      · subst new
        refine located_heard past (if_pos (Or.inl ⟨by simp [asked], allocated, rfl⟩)) ?_
        simp [opened, SamePlace]
      · have earlier : info < machine.server.next :=
          Nat.lt_of_le_of_ne (Nat.le_of_lt_succ old) new
        refine located_quiet past ?_ ?_
        · simp [heardFrom, heartbeat_no_request asked, Ne.symm new]
        · simpa [opened, new] using located info earlier
  | refreshed id other idle heard known =>
      have unasked := heartbeat_not_request heard
      intro info old
      by_cases mine : info = other
      · subst mine
        refine located_heard past (if_pos (Or.inr ?_)) (refreshClient_place ..)
        simpa [heard] using known
      · refine located_quiet past ?_ ?_
        · simp [heardFrom, unasked, heard, known, Ne.symm mine]
        · simpa [refreshClient, mine] using located info old
  | _ => exact same rfl rfl fun _ => rfl

end Changes

theorem located_run {order : ByteOrder} {mac : { mac : Bytes // mac.length = 6 }}
    {secret : Bytes} {random : UInt32} {events : List Event} {machine : Machine}
    (past : Runs.run (next order) (init order mac secret random) events = some machine) :
    Located order (init order mac secret random) events machine ∧ Relaying machine := by
  induction events using List.reverseRecOn generalizing machine with
  | nil =>
      cases (Runs.run_nil ..).mp past
      exact ⟨by simp [init, Located, TunnelServer.new], by simp [init, Veth.reading], by simp [init]⟩
  | append_singleton earlier event ih =>
      obtain ⟨before, reached, taken⟩ := (Runs.run_concat ..).mp past
      obtain ⟨located, relays⟩ := ih reached
      exact ⟨located_change reached located (next_change taken),
        relaying_change relays (next_change taken)⟩

/-- After any run, a datagram with a relayed frame goes to a record in `dict.mac`
that has not been deleted, and to the place where its client was heard last. -/
theorem relays_follow (order : ByteOrder) (mac : { mac : Bytes // mac.length = 6 })
    (secret : Bytes) (random : UInt32) (events : List Event) (machine : Machine)
    (past : Runs.run (next order) (init order mac secret random) events = some machine)
    (after : Machine) (actions : List Action)
    (taken : machine.step order .forward = some (after, actions)) (address : SockAddr)
    (data : Bytes) (sent : .send address data ∈ actions) :
    ∃ key info peer, (key, info) ∈ machine.server.dict.mac.entries ∧
      info ∉ machine.server.deleted ∧ (machine.server.client info).address = address ∧
      (peers order info (init order mac secret random) events).getLast? = some peer ∧
      SamePlace address peer := by
  obtain ⟨located, relays⟩ := located_run past
  have sound := sound_reached ⟨mac, secret, random, events, past⟩
  rcases step_send taken sent with ⟨_, event, _⟩ | ⟨_, _, _, _, event, _⟩ |
    ⟨frame, info, clients, _, relaying, rfl, _⟩
  · cases event
  · cases event
  · obtain ⟨key, entry⟩ := relays.registered frame _ relaying info List.mem_cons_self
    obtain ⟨old, kept⟩ := sound.live info (Or.inr ⟨key, entry⟩)
    obtain ⟨peer, last, place⟩ := located info old
    exact ⟨key, info, peer, entry, kept, rfl, last, place⟩

def plainMove : List Event :=
  plainSession 7 11 0 ++
    [.datagram { plainPeer with sinPort := 9 } (plainHeartbeat 11) 0 1,
      .frame (List.replicate 60 255) [0]]

theorem relays_follow_moved : ∃ machine after actions address data,
    Runs.run (next .little) plainServer plainMove = some machine ∧
    machine.step .little .forward = some (after, actions) ∧ .send address data ∈ actions ∧
    ∃ key info peer, (key, info) ∈ machine.server.dict.mac.entries ∧
      info ∉ machine.server.deleted ∧ (machine.server.client info).address = address ∧
      (peers .little info plainServer plainMove).getLast? = some peer ∧ SamePlace address peer := by
  have computed : ((Runs.run (next .little) plainServer plainMove).any fun machine =>
      (machine.step .little .forward).any fun result =>
        !(Exchange.sends machine .forward result.2).isEmpty) = true := by
    decide +kernel
  obtain ⟨machine, past, computed⟩ := (Option.any_eq_true ..).mp computed
  obtain ⟨⟨after, actions⟩, taken, computed⟩ := (Option.any_eq_true ..).mp computed
  obtain ⟨sent, member⟩ := List.exists_mem_of_ne_nil _ (by simpa using computed)
  obtain ⟨_, _, performed⟩ := Exchange.mem_sends member
  exact ⟨machine, after, actions, sent.address, sent.data, past, taken, performed,
    relays_follow .little _ [] 5 plainMove machine past after actions taken _ _ performed⟩

example : (Runs.run (next .little) plainServer plainMove).map (fun machine =>
    (peers .little 0 plainServer plainMove, (machine.server.client 0).address)) =
      some ([plainPeer, { plainPeer with sinPort := 9 }], { plainPeer with sinPort := 9 }) := by
  decide +kernel

end Machine

end Muddymask
