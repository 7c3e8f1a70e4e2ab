import Muddymask.Interleaving

/-!
One turn of each thread's loop, as the functions of `TunnelServer.cpp` have it,
is a run of the machine in which the other threads rest: the sections of the
machine put together give the functions back, with their outputs.
-/

namespace Muddymask

open Words TunnelServer

namespace Machine

def perform (order : ByteOrder) (state : Machine × List Action) (event : Event) :
    Option (Machine × List Action) :=
  (state.1.step order event).map fun result => (result.1, state.2 ++ result.2)

theorem perform_next {order : ByteOrder} {machine after : Machine} {log outputs : List Action}
    {events : List Event}
    (performed : Runs.run (perform order) (machine, log) events = some (after, outputs)) :
    Runs.run (next order) machine events = some after := by
  induction events generalizing machine log with
  | nil => simp_all
  | cons event rest ih =>
      obtain ⟨middle, taken, later⟩ := (Runs.run_cons ..).mp performed
      obtain ⟨result, stepped, rfl⟩ := Option.map_eq_some_iff.mp taken
      exact (Runs.run_cons ..).mpr ⟨result.1, by simp [next, stepped], ih later⟩

def resting (server : TunnelServer) : Machine := { server, net := none, veth := .read, poll := .sleep }

theorem datagram_turn (order : ByteOrder) (server : TunnelServer) (log : List Action)
    (peer : SockAddr) (datagram : Bytes) (random : UInt32) (time : Int) :
    let handled := server.handleNetworkDatagram order peer datagram random time
    ∃ rest, (rest = [] ∨ rest = [.register]) ∧
      Runs.run (perform order) (resting server, log) (.datagram peer datagram random time :: rest) =
        some (resting handled.1, log ++ handled.2) := by
  simp only [Runs.run_cons, perform, step, resting, Option.isSome_none, Bool.false_eq_true,
    ↓reduceIte, receive, handleNetworkDatagram, Option.map_eq_some_iff]
  cases dispatch order server.crypto (recv datagram 2000) with
  | ignore => exact ⟨[], Or.inl rfl, _, ⟨_, rfl, rfl⟩, rfl⟩
  | wrongVersion => exact ⟨[], Or.inl rfl, _, ⟨_, rfl, rfl⟩, rfl⟩
  | call handler id packet length =>
      cases handler with
      | relayData => exact ⟨[], Or.inl rfl, _, ⟨_, by simp [Poll.asleep]; rfl, rfl⟩, rfl⟩
      | handleHeartbeat => exact ⟨[], Or.inl rfl, _, ⟨_, by simp [Poll.asleep]; rfl, rfl⟩, rfl⟩
      | startSession =>
          simp only [startSession]
          rcases server.openSession order peer packet length random time with ⟨_ | info, opened⟩
          · exact ⟨[], Or.inl rfl, _, ⟨_, rfl, rfl⟩, by simp⟩
          -- Only a request has a second section.
          · exact ⟨[.register], Or.inr rfl, _, ⟨_, rfl, rfl⟩,
              by simp [perform, step, Poll.asleep, Veth.reading]⟩

/-- What a whole turn can do to the server. -/
theorem handle_cases (order : ByteOrder) (server : TunnelServer) (peer : SockAddr)
    (datagram : Bytes) (random : UInt32) (time : Int) :
    let handled := (server.handleNetworkDatagram order peer datagram random time).1
    let allocated := server.pool.allocateAddress order
    (sessionRequest order server.crypto datagram = none ∧
      (∀ id, heartbeatIdentity order server.crypto datagram = some id →
        server.dict.id.find id = none) ∧ handled = server) ∨
    (∃ request, sessionRequest order server.crypto datagram = some request ∧
      ((allocated.1 = 0 ∧ handled = { server with pool := allocated.2 }) ∨
        (allocated.1 ≠ 0 ∧ handled =
          (opened order server peer request.mac random time).registerClient server.next))) ∨
    ∃ id info, heartbeatIdentity order server.crypto datagram = some id ∧
      server.dict.id.find id = some info ∧ handled = server.refreshClient info peer time := by
  intro handled allocated
  obtain ⟨rest, shape, past⟩ := datagram_turn order server [] peer datagram random time
  obtain ⟨middle, taken, later⟩ := (Runs.run_cons ..).mp (perform_next past)
  rcases shape with rfl | rfl
  · cases (Runs.run_nil ..).mp later
    have change := next_change taken
    generalize final : resting handled = after at change
    cases change with
    | dropped idle unasked unknown =>
        exact Or.inl ⟨unasked, unknown, congrArg Machine.server final⟩
    | refused request idle asked exhausted =>
        exact Or.inr (Or.inl ⟨request, asked, Or.inl ⟨exhausted, congrArg Machine.server final⟩⟩)
    | opened => cases congrArg Machine.net final
    | refreshed id info idle heard known =>
        exact Or.inr (Or.inr ⟨id, info, heard, known, congrArg Machine.server final⟩)
  · obtain ⟨after, registered, final⟩ := (Runs.run_cons ..).mp later
    cases (Runs.run_nil ..).mp final
    have change := next_change registered
    generalize final : resting handled = after at change
    cases change with
    | registered pending waiting =>
        have first := next_change taken
        cases first with
        | opened request idle asked allocated =>
            cases waiting
            exact Or.inr (Or.inl ⟨request, asked, Or.inr ⟨allocated, congrArg Machine.server final⟩⟩)
        | _ => simp [resting] at waiting

theorem frame_turn (order : ByteOrder) (server : TunnelServer) (log : List Action)
    (frame : Bytes) (clients : List Ptr)
    (iterated : clients.Perm (server.dict.mac.entries.map Prod.snd)) :
    ∃ rest, (∀ event ∈ rest, event = .forward) ∧
      Runs.run (perform order) (resting server, log) (.frame frame clients :: rest) =
        some (resting server, log ++ server.handleVirtualEthernet order frame clients) := by
  have forwards : ∀ (targets : List Ptr) (log : List Action),
      Runs.run (perform order)
        (⟨server, none, .relay (frame.take 2000) targets, .sleep⟩, log)
        (List.replicate (targets.length + 1) .forward) =
      some (resting server, log ++ targets.map fun info =>
        .send (server.client info).address (server.relayPacket order (frame.take 2000))) := by
    intro targets
    induction targets with
    | nil => intro log; simp [perform, step, resting]
    | cons info targets ih =>
        intro log
        rw [List.length_cons, List.replicate_succ, Runs.run_cons]
        refine ⟨_, rfl, (ih _).trans ?_⟩
        simp
  by_cases short : (frame.take 2000).length < EthernetHeader.sizeof
  · refine ⟨[], by simp, ?_⟩
    simp only [Runs.run_cons, perform, step, resting, Veth.reading, short, handleVirtualEthernet,
      frameTargets]
    simp
  · have begun : perform order (resting server, log) (.frame frame clients) = some
        (⟨server, none, .relay (frame.take 2000)
          (server.frameTargets order (frame.take 2000) clients), .sleep⟩, log) := by
      simpa [perform, step, resting, Veth.reading, Poll.asleep, iterated] using short
    exact ⟨_, fun event member => List.eq_of_mem_replicate member,
      (Runs.run_cons ..).mpr ⟨_, begun, forwards _ _⟩⟩

/-- The sections of one sweep from an entry of its iteration on. -/
def removals (now : Int) : TunnelServer → List (UInt32 × Ptr) → List Event
  | _, [] => [.visit]
  | server, entry :: entries =>
      if server.Expired now entry.2 then
        [.visit, .release, .delete] ++ removals now (server.removeClient entry) entries
      else .visit :: removals now server entries

theorem removals_run (order : ByteOrder) (machine : Machine) (now : Int)
    (entries : List (UInt32 × Ptr)) :
    Runs.run (next order) { machine with poll := .sweep now entries }
        (removals now machine.server entries) =
      some { machine with server := machine.server.removeZombieClient now entries
                          poll := .sleep } := by
  induction entries generalizing machine with
  | nil => simp [removals, next, step, removeZombieClient]
  | cons entry entries ih =>
      by_cases expired : machine.server.Expired now entry.2
      · have erased : next order { machine with poll := .sweep now (entry :: entries) } .visit =
            some { machine with server := machine.server.eraseClient entry
                                poll := .release now entry.2 entries } := by
          simp [next, step, expired]
        have later := ih { machine with server := machine.server.removeClient entry }
        simp only [removals, expired, ↓reduceIte, Runs.run_append, Runs.run_cons, Runs.run_nil]
        refine ⟨_, ⟨_, erased, _, rfl, _, rfl, rfl⟩, ?_⟩
        simpa [removeZombieClient, removeClient, expired] using later
      · have spared : next order { machine with poll := .sweep now (entry :: entries) } .visit =
            some { machine with poll := .sweep now entries } := by
          simp [next, step, expired]
        simp only [removals, expired, ↓reduceIte, Runs.run_cons]
        exact ⟨_, spared, by simpa [removeZombieClient, expired] using ih machine⟩

/-- A sweep that nothing interrupts. A request that waits for `dict.mutex` waits on. -/
theorem sweep_turn (order : ByteOrder) (machine : Machine) (now : Int)
    (entries : List (UInt32 × Ptr)) (asleep : machine.poll = .sleep)
    (reading : machine.veth.reading = true)
    (iterated : entries.Perm machine.server.dict.id.entries) :
    Runs.run (next order) machine (.sweep now entries :: removals now machine.server entries) =
      some { machine with server := machine.server.removeZombieClient now entries } := by
  refine (Runs.run_cons ..).mpr ⟨{ machine with poll := .sweep now entries }, ?_, ?_⟩
  · simp [next, step, asleep, reading, iterated, Poll.asleep]
  · rw [removals_run, ← asleep]

end Machine

end Muddymask
