import Muddymask.Registry
import Muddymask.Relay
import Muddymask.SessionGrant

/-!
A send that fails. `wrapper::sendto_` throws a `SystemError`, no loop catches it,
and what leaves a thread's entry ends the process. So one peer that cannot be
sent to stops the service to all: a turn is isolated from failures exactly if
none of its own sends fails.
-/

namespace Muddymask

open Words TunnelServer Machine

/-- What is performed of a turn when the sends to some addresses throw, and
whether the thread comes to its next turn. -/
def attempt (fails : SockAddr → Bool) : List Action → List Action × Bool
  | [] => ([], true)
  | .send address data :: rest =>
      if fails address then ([], false)
      else
        let later := attempt fails rest
        (.send address data :: later.1, later.2)
  | .write data :: rest =>
      let later := attempt fails rest
      (.write data :: later.1, later.2)

/-- The actions that no failing address is part of. -/
def survives (fails : SockAddr → Bool) : Action → Bool
  | .send address _ => !fails address
  | .write _ => true

/-- The failures cost the failing addresses their datagrams and nobody anything else. -/
def Isolates (fails : SockAddr → Bool) (actions : List Action) : Prop :=
  attempt fails actions = (actions.filter (survives fails), true)

theorem isolates_cons (fails : SockAddr → Bool) (action : Action) (rest : List Action) :
    Isolates fails (action :: rest) ↔ survives fails action = true ∧ Isolates fails rest := by
  cases passes : survives fails action with
  | true =>
      have performed : attempt fails (action :: rest) =
          (action :: (attempt fails rest).1, (attempt fails rest).2) := by
        cases action with
        | write data => rfl
        | send address data =>
            have spared : fails address = false := by simpa [survives] using passes
            simp [attempt, spared]
      simp [Isolates, performed, List.filter_cons_of_pos passes, Prod.ext_iff]
  | false =>
      -- The exception leaves the loop: nothing of the rest is performed.
      have performed : attempt fails (action :: rest) = ([], false) := by
        cases action with
        | write data => cases passes
        | send address data =>
            have failed : fails address = true := by simpa [survives] using passes
            simp [attempt, failed]
      simp [Isolates, performed]

theorem isolates_iff_all (fails : SockAddr → Bool) (actions : List Action) :
    Isolates fails actions ↔ ∀ action ∈ actions, survives fails action = true := by
  induction actions with
  | nil => simp [Isolates, attempt]
  | cons action rest ih => rw [isolates_cons, ih, List.forall_mem_cons]

theorem isolates_iff (fails : SockAddr → Bool) (actions : List Action) :
    Isolates fails actions ↔
      ∀ address data, .send address data ∈ actions → fails address = false := by
  rw [isolates_iff_all]
  constructor
  · intro all address data member
    simpa [survives] using all _ member
  · intro spared action member
    cases action with
    | write data => rfl
    | send address data => simp [survives, spared address data member]

theorem isolates_frame_iff (order : ByteOrder) (server : TunnelServer) (frame : Bytes)
    (clients : List Ptr) (fails : SockAddr → Bool) :
    Isolates fails (server.handleVirtualEthernet order frame clients) ↔
      ∀ info ∈ server.frameTargets order (frame.take 2000) clients,
        fails (server.client info).address = false := by
  rw [isolates_iff, handleVirtualEthernet]
  constructor
  · intro all info target
    exact all _ _ (List.mem_map_of_mem target)
  · intro all address data member
    obtain ⟨info, target, same⟩ := List.mem_map.mp member
    rw [← (Action.send.inj same).1]
    exact all info target

/-! The network thread. -/

def Complains (order : ByteOrder) (server : TunnelServer) (datagram : Bytes) : Prop :=
  dispatch order server.crypto (recv datagram 2000) = .wrongVersion ∨
    (∃ id, heartbeatIdentity order server.crypto datagram = some id ∧
      server.dict.id.find id = none) ∨
    ∃ id packet length,
      dispatch order server.crypto (recv datagram 2000) = .call .relayData id packet length ∧
        EthernetHeader.sizeof < length ∧ server.dict.id.find id = none

def Replies (order : ByteOrder) (server : TunnelServer) (datagram : Bytes) : Prop :=
  Complains order server datagram ∨ ∃ request,
    sessionRequest order server.crypto datagram = some request ∧
      (server.pool.allocateAddress order).1 ≠ 0

def AnswersOnly (actions : List Action) (peer : SockAddr) (due : Prop) : Prop :=
  (∀ address data, .send address data ∈ actions → address = peer) ∧
    ((∃ address data, .send address data ∈ actions) ↔ due)

theorem isolates_answer_iff {actions : List Action} {peer : SockAddr} {due : Prop}
    (answers : AnswersOnly actions peer due) (fails : SockAddr → Bool) :
    Isolates fails actions ↔ (due → fails peer = false) := by
  rw [isolates_iff, ← answers.2]
  constructor
  · rintro all ⟨address, data, member⟩
    rw [← answers.1 address data member]
    exact all address data member
  · intro spared address data member
    rw [answers.1 address data member]
    exact spared ⟨address, data, member⟩

theorem answersOnly_nil {peer : SockAddr} {due : Prop} (quiet : ¬ due) :
    AnswersOnly [] peer due :=
  ⟨by simp, by simpa using quiet⟩

theorem answersOnly_send {peer : SockAddr} {data : Bytes} {due : Prop} (loud : due) :
    AnswersOnly [.send peer data] peer due :=
  ⟨fun _ _ member => (Action.send.inj (List.mem_singleton.mp member)).1,
    by simpa using loud⟩

theorem answersOnly_write {peer : SockAddr} {data : Bytes} {due : Prop} (quiet : ¬ due) :
    AnswersOnly [.write data] peer due :=
  ⟨by simp, by simpa using quiet⟩

section Answers
variable (order : ByteOrder) (server : TunnelServer) (peer : SockAddr)

theorem complains_heartbeat {datagram : Bytes} {id : UInt32} {packet : Bytes} {length : Nat}
    (seen : dispatch order server.crypto (recv datagram 2000) =
      .call .handleHeartbeat id packet length) :
    Complains order server datagram ↔
      length = Heartbeat.sizeof ∧ server.dict.id.find id = none := by
  simp [Complains, heartbeatIdentity, seen]

theorem complains_relayData {datagram : Bytes} {id : UInt32} {packet : Bytes} {length : Nat}
    (seen : dispatch order server.crypto (recv datagram 2000) = .call .relayData id packet length) :
    Complains order server datagram ↔
      EthernetHeader.sizeof < length ∧ server.dict.id.find id = none := by
  simp [Complains, heartbeatIdentity, seen]

/-- What is no request is answered with an error or not at all. -/
theorem replies_iff {datagram : Bytes}
    (unasked : sessionRequest order server.crypto datagram = none) :
    Replies order server datagram ↔ Complains order server datagram := by
  simp [Replies, unasked]

theorem answers_relayData (id : UInt32) (packet : Bytes) (length : Nat) :
    AnswersOnly (server.relayData order peer id packet length) peer
      (EthernetHeader.sizeof < length ∧ server.dict.id.find id = none) := by
  rw [relayData]
  by_cases short : length ≤ EthernetHeader.sizeof
  · rw [if_pos short]
    exact answersOnly_nil fun due => Nat.not_lt.mpr short due.1
  · rw [if_neg short]
    cases known : server.dict.id.find id with
    | none => exact answersOnly_send ⟨Nat.not_le.mp short, rfl⟩
    | some info =>
        have quiet : ¬ (EthernetHeader.sizeof < length ∧ some info = none) := by simp
        dsimp only
        split
        · exact answersOnly_nil quiet
        · split
          · exact answersOnly_nil quiet
          · exact answersOnly_write quiet

theorem answers_heartbeat (id : UInt32) (length : Nat) (time : Int) :
    AnswersOnly (server.handleHeartbeat order peer id length time).2 peer
      (length = Heartbeat.sizeof ∧ server.dict.id.find id = none) := by
  rw [handleHeartbeat]
  by_cases sized : length = Heartbeat.sizeof
  · cases known : server.dict.id.find id with
    | none =>
        rw [if_neg (not_not.mpr sized)]
        exact answersOnly_send ⟨sized, rfl⟩
    | some info =>
        rw [if_neg (not_not.mpr sized)]
        exact answersOnly_nil (by simp)
  · rw [if_pos sized]
    exact answersOnly_nil fun due => sized due.1

theorem answers_startSession (packet : Bytes) (length : Nat) (random : UInt32) (time : Int) :
    AnswersOnly (server.startSession order peer packet length random time).2 peer
      ((∃ request, length = StartSession.sizeof ∧ StartSession.read order packet = some request) ∧
        (server.pool.allocateAddress order).1 ≠ 0) := by
  rw [startSession, openSession]
  by_cases sized : length = StartSession.sizeof
  · rw [if_neg (not_not.mpr sized)]
    cases parsed : StartSession.read order packet with
    | none => exact answersOnly_nil (by simp)
    | some request =>
        dsimp only
        by_cases exhausted : (server.pool.allocateAddress order).1 = 0
        · rw [if_pos exhausted]
          exact answersOnly_nil fun due => due.2 exhausted
        · rw [if_neg exhausted]
          exact answersOnly_send ⟨⟨request, sized, rfl⟩, exhausted⟩
  · rw [if_pos sized]
    refine answersOnly_nil ?_
    rintro ⟨⟨_, same, _⟩, _⟩
    exact sized same

theorem answers_handle (datagram : Bytes) (random : UInt32) (time : Int) :
    AnswersOnly (server.handleNetworkDatagram order peer datagram random time).2 peer
      (Replies order server datagram) := by
  rw [handleNetworkDatagram]
  cases seen : dispatch order server.crypto (recv datagram 2000) with
  | ignore =>
      exact answersOnly_nil (by simp [Replies, Complains, heartbeatIdentity, sessionRequest, seen])
  | wrongVersion => exact answersOnly_send (Or.inl (Or.inl seen))
  | call handler id packet length =>
      cases handler with
      | handleHeartbeat =>
          rw [replies_iff order server (by simp [sessionRequest, seen]),
            complains_heartbeat order server seen]
          exact answers_heartbeat order server peer id length time
      | startSession =>
          have due : Replies order server datagram ↔
              (∃ request, length = StartSession.sizeof ∧
                StartSession.read order packet = some request) ∧
                (server.pool.allocateAddress order).1 ≠ 0 := by
            simp [Replies, Complains, heartbeatIdentity, sessionRequest, seen]
          rw [due]
          exact answers_startSession order server peer packet length random time
      | relayData =>
          rw [replies_iff order server (by simp [sessionRequest, seen]),
            complains_relayData order server seen]
          exact answers_relayData order server peer id packet length

/-- The same up to the guard of `dict.mutex`: a request is not answered there. -/
theorem answers_receive {machine after : Machine} {datagram : Bytes} {random : UInt32} {time : Int}
    {actions : List Action}
    (taken : machine.receive order peer datagram random time = some (after, actions)) :
    AnswersOnly actions peer (Complains order machine.server datagram) := by
  simp only [receive] at taken
  cases seen : dispatch order machine.server.crypto (recv datagram 2000) with
  | ignore =>
      rw [seen] at taken
      cases taken
      exact answersOnly_nil (by simp [Complains, heartbeatIdentity, seen])
  | wrongVersion =>
      rw [seen] at taken
      cases taken
      exact answersOnly_send (Or.inl seen)
  | call handler id packet length =>
      rw [seen] at taken
      cases handler with
      | handleHeartbeat =>
          rw [complains_heartbeat order machine.server seen]
          dsimp only at taken
          split at taken <;> cases taken
          exact answers_heartbeat order machine.server peer id length time
      | startSession =>
          cases taken
          exact answersOnly_nil (by simp [Complains, heartbeatIdentity, seen])
      | relayData =>
          rw [complains_relayData order machine.server seen]
          dsimp only at taken
          split at taken <;> cases taken
          exact answers_relayData order machine.server peer id packet length

end Answers

/-- No address that a step sends to fails. -/
def Spared (order : ByteOrder) (fails : SockAddr → Bool) (machine : Machine) : Event → Prop
  | .datagram peer datagram _ _ =>
      Complains order machine.server datagram → fails peer = false
  | .register => ∀ pending, machine.net = some pending → fails pending.peer = false
  | .forward => ∀ frame info clients, machine.veth = .relay frame (info :: clients) →
      fails (machine.server.client info).address = false
  | _ => True

theorem isolates_step_iff {order : ByteOrder} {machine after : Machine} {event : Event}
    {actions : List Action} (taken : machine.step order event = some (after, actions))
    (fails : SockAddr → Bool) : Isolates fails actions ↔ Spared order fails machine event := by
  cases event with
  | datagram peer datagram random time =>
      simp only [step] at taken
      split at taken
      · cases taken
      · exact isolates_answer_iff (answers_receive order peer taken) fails
  | register =>
      simp only [step] at taken
      split at taken
      · cases taken
      · rename_i pending waiting
        split at taken <;> cases taken
        simp [isolates_iff, sendSessionInfo, Spared, waiting]
  | forward =>
      simp only [step] at taken
      split at taken
      · rename_i frame info clients relaying
        cases taken
        simp [isolates_iff, Spared, relaying]
      · rename_i frame relaying
        cases taken
        simp [isolates_iff, Spared, relaying]
      · cases taken
  | _ =>
      -- The other steps send nothing.
      refine iff_of_true ((isolates_iff ..).mpr fun address data sent => ?_) trivial
      rcases step_send taken sent with ⟨_, same, _⟩ | ⟨_, _, _, _, same, _⟩ | ⟨_, _, _, same, _⟩ <;>
        cases same

/-! The process. -/

/-- The server with what it has performed. It runs until a thread is left by an
exception: that is `std::terminate`. -/
structure Service where
  machine : Machine
  log : List Action
  running : Bool

namespace Service

def step (order : ByteOrder) (service : Service) (event : Event × (SockAddr → Bool)) :
    Option Service :=
  if service.running then
    (service.machine.step order event.1).map fun result =>
      let attempted := attempt event.2 result.2
      { machine := result.1, log := service.log ++ attempted.1, running := attempted.2 }
  else none

def fresh (order : ByteOrder) (mac : { mac : Bytes // mac.length = 6 }) (secret : Bytes)
    (random : UInt32) : Service :=
  { machine := Machine.init order mac secret random, log := [], running := true }

/-- The step does everything but the sends that fail, and the process runs on. -/
def Unaffected (order : ByteOrder) (service : Service) (event : Event × (SockAddr → Bool)) : Prop :=
  ∀ result after, service.machine.step order event.1 = some result →
    step order service event = some after →
    after.running = true ∧ after.log = service.log ++ result.2.filter (survives event.2)

theorem unaffected_iff {order : ByteOrder} {service after : Service}
    {event : Event × (SockAddr → Bool)} (taken : step order service event = some after) :
    Unaffected order service event ↔ Spared order event.2 service.machine event.1 := by
  have whole := taken
  simp only [step] at whole
  split at whole
  · obtain ⟨⟨machine, actions⟩, stepped, rfl⟩ := Option.map_eq_some_iff.mp whole
    rw [← isolates_step_iff stepped event.2, Isolates, Prod.ext_iff]
    constructor
    · intro unaffected
      obtain ⟨runs, done⟩ := unaffected _ _ stepped taken
      exact ⟨List.append_cancel_left done, runs⟩
    · rintro ⟨done, runs⟩ result other same reached
      cases Option.some.inj (stepped.symm.trans same)
      cases Option.some.inj (taken.symm.trans reached)
      exact ⟨runs, congrArg (service.log ++ ·) done⟩
  · cases whole

end Service

/-- Whatever fails: a frame, a datagram and a whole run are isolated from the
failures exactly if no address that they themselves send to fails. -/
theorem failure_isolation_iff (order : ByteOrder) :
    (∀ (server : TunnelServer) (frame : Bytes) (clients : List Ptr) (fails : SockAddr → Bool),
      Isolates fails (server.handleVirtualEthernet order frame clients) ↔
        ∀ info ∈ server.frameTargets order (frame.take 2000) clients,
          fails (server.client info).address = false) ∧
    (∀ (server : TunnelServer) (peer : SockAddr) (datagram : Bytes) (random : UInt32) (time : Int)
        (fails : SockAddr → Bool),
      Isolates fails (server.handleNetworkDatagram order peer datagram random time).2 ↔
        (Replies order server datagram → fails peer = false)) ∧
    ∀ (mac : { mac : Bytes // mac.length = 6 }) (secret : Bytes) (random : UInt32)
        (events : List (Event × (SockAddr → Bool))) (final : Service),
      Runs.run (Service.step order) (Service.fresh order mac secret random) events = some final →
        (Runs.Along (Service.step order) (Service.Unaffected order)
            (Service.fresh order mac secret random) events ↔
          Runs.Along (Service.step order)
            (fun service event => Spared order event.2 service.machine event.1)
            (Service.fresh order mac secret random) events) := by
  refine ⟨isolates_frame_iff order, ?_, ?_⟩
  · intro server peer datagram random time fails
    exact isolates_answer_iff (answers_handle order server peer datagram random time) fails
  · intro mac secret random events final past
    exact Runs.along_congr _ _ (fun before event after taken => Service.unaffected_iff taken) _
      final events past

def plainService : Service := Service.fresh .little ⟨[2, 0, 0, 0, 0, 6], rfl⟩ [] 5

def otherPeer : SockAddr := { sinFamily := 2, sinPort := 7, sinAddr := 0x0200000A }

/-- Two sessions, and a frame to everybody that is about to go to the second client first. -/
def plainBroadcasting : List (Event × (SockAddr → Bool)) :=
  let reachable := fun _ => false
  [(.datagram plainPeer (plainRequest 7) 11 0, reachable), (.register, reachable),
    (.datagram otherPeer (plainRequest 8) 12 1, reachable), (.register, reachable),
    (.frame (plainBroadcast 18) [1, 0], reachable)]

def plainFailure : Event × (SockAddr → Bool) := (.forward, fun address => address == otherPeer)

theorem failure_isolation_broadcasting : ∃ final,
    Runs.run (Service.step .little) plainService plainBroadcasting = some final ∧
      (Runs.Along (Service.step .little) (Service.Unaffected .little) plainService
          plainBroadcasting ↔
        Runs.Along (Service.step .little)
          (fun service event => Spared .little event.2 service.machine event.1) plainService
          plainBroadcasting) := by
  have computed : (Runs.run (Service.step .little) plainService plainBroadcasting).map
      (fun _ => ()) = some () := by
    decide +kernel
  obtain ⟨final, past, _⟩ := Option.map_eq_some_iff.mp computed
  exact ⟨final, past, (failure_isolation_iff .little).2.2 _ _ _ _ final past⟩

/-- The process ends there with two answers sent and no frame, although the
first client can be sent to. -/
theorem failure_isolation_fails : ∃ middle final,
    Runs.run (Service.step .little) plainService plainBroadcasting = some middle ∧
      Service.step .little middle plainFailure = some final ∧
      plainFailure.2 (middle.machine.server.client 0).address = false ∧
      final.running = false ∧ final.log.length = 2 ∧
      ¬ Runs.Along (Service.step .little) (Service.Unaffected .little) plainService
        (plainBroadcasting ++ [plainFailure]) := by
  have computed : ((Runs.run (Service.step .little) plainService plainBroadcasting).bind
      fun middle => (Service.step .little middle plainFailure).map fun final =>
        (plainFailure.2 (middle.machine.server.client 0).address, final.running,
          final.log.length)) = some (false, false, 2) := by
    decide +kernel
  obtain ⟨middle, past, rest⟩ := Option.bind_eq_some_iff.mp computed
  obtain ⟨final, taken, seen⟩ := Option.map_eq_some_iff.mp rest
  simp only [Prod.mk.injEq] at seen
  refine ⟨middle, final, past, taken, seen.1, seen.2.1, seen.2.2, fun along => ?_⟩
  have last := ((Runs.along_concat _ _ _ _ _ past).mp along).2
  have whole := taken
  simp only [Service.step] at whole
  split at whole
  · obtain ⟨result, stepped, _⟩ := Option.map_eq_some_iff.mp whole
    have runs := (last result final stepped taken).1
    rw [seen.2.1] at runs
    cases runs
  · cases whole

end Muddymask
