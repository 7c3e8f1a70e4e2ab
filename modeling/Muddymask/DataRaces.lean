import Muddymask.Accesses
import Muddymask.LockingRefinement

/-!
No two threads of the server get into each other's way: of what a thread is about to
write, no other one is about to read or write anything. So between lock operations the
threads can take their accesses in any order.
-/

namespace Muddymask

open Words TunnelServer ReaderWriter Footprints

namespace Threads

section Frames
variable {order : ByteOrder} {state after : Threads} {event : Event}
  (taken : state.access order event = some after)
include taken

theorem access_keeps {place : Place} (spared : place ∉ (footprint event.thread state).writes) :
    after.look place = state.look place :=
  (access_respects order event).frame state after taken place spared

end Frames

/-- The record whose mutex the network thread has entered. -/
def Net.owns : Net → Option Ptr
  | clientWrite _ info | clientUnlock info => some info
  | _ => none

def Owned (state : Threads) : Prop :=
  ∀ info, state.net.owns = some info → (state.locks (.client info)).readers = []

theorem Net.owns_claims {net : Net} {info : Ptr} (owns : net.owns = some info) :
    (.client info, .exclusive) ∈ net.holds := by
  cases net <;> cases owns <;> simp [Net.holds]

theorem Net.owns_after {net : Net} {op : Op Lock} {info : Ptr} (next : net.op = some op)
    (owns : net.after.owns = some info) : op = .enter (.client info) := by
  cases net <;> cases next
  case allocateUnlock record arrival => cases record <;> cases owns
  all_goals
    cases owns
    try rfl

theorem Net.owns_arrive {order : ByteOrder} {crypto : DummyCrypto} {arrival : Arrival} :
    (arrive order crypto arrival).owns = none := by
  rcases arrive_cases order crypto arrival with
    same | ⟨id, same⟩ | ⟨id, _, same⟩ | ⟨request, _, same⟩ <;> rw [same] <;> rfl

theorem netAccess_owns {order : ByteOrder} {state : Threads} {arrival : Arrival} {info : Ptr}
    (owns : (state.netAccess order arrival).net.owns = some info) :
    state.net.owns = some info := by
  obtain ⟨server, locks, net, veth, poll⟩ := state
  cases net with
  | recv =>
      rw [netAccess, Net.owns_arrive] at owns
      cases owns
  | heartbeatFind =>
      simp only [netAccess] at owns
      split at owns <;> cases owns
  | relayFind | allocate | create | register => cases owns
  | _ => exact owns

theorem spares_locks (thread : Thread) (state : Threads) :
    Place.locks ∉ (footprint thread state).writes := by
  obtain ⟨server, locks, net, veth, poll⟩ := state
  cases thread with
  | net => cases net <;> simp [footprint, Net.writes]
  | veth => simp [footprint]
  | poll =>
      cases poll with
      | visit now left => cases left <;> simp [footprint, PollPoint.writes]
      | _ => simp [footprint, PollPoint.writes]

theorem owned_step {order : ByteOrder} {state after : Threads} {event : Event}
    (disciplined : Disciplined order state) (owned : Owned state)
    (taken : step order state event = some after) : Owned after := by
  rw [step] at taken
  cases next : state.op event.thread with
  | some op =>
      rw [next] at taken
      obtain ⟨locks, done, rfl⟩ := Option.map_eq_some_iff.mp taken
      have stays : ∀ info, state.net.owns = some info → (locks (.client info)).readers = [] := by
        intro info owns
        have claimed := (claimed_iff disciplined.agrees (.client info) .net).mpr
          (Net.owns_claims owns)
        exact readers_stay_out claimed (owned info owns) done
      cases event with
      | net arrival =>
          intro info owns
          obtain rfl := Net.owns_after next owns
          simp only [perform] at done
          split at done <;> cases done
          rename_i entered
          exact entered.2
      | veth frame clients => exact stays
      | poll now entries => exact stays
  | none =>
      rw [next] at taken
      have locks : after.locks = state.locks := access_keeps taken (spares_locks _ state)
      intro info owns
      rw [locks]
      apply owned info
      cases event with
      | net arrival =>
          cases taken
          exact netAccess_owns owns
      | veth frame clients =>
          have same : after.net = state.net := (Locking.vethAccess_apart taken).1
          rwa [same] at owns
      | poll now entries =>
          have same : after.net = state.net := (Locking.pollAccess_apart taken).1
          rwa [same] at owns

theorem owned_reached {order : ByteOrder} {mac : { mac : Bytes // mac.length = 6 }}
    {secret : Bytes} {random : UInt32} {state : Threads}
    (reached : Runs.Reachable (step order) (init order mac secret random) state) : Owned state :=
  Runs.reachable_induct Owned reached (fun _ owns => by cases owns)
    fun _ _ _ past owned taken => owned_step (disciplined_reached past) owned taken

/-! What a thread holds where it comes to a place. -/

section Footprint
variable {state : Threads} {thread : Thread} {place : Place}

def Covers (state : Threads) (thread : Thread) (place : Place) : Prop :=
  place ∈ (footprint thread state).reads ∨ place ∈ (footprint thread state).writes

theorem covers_dict (covers : state.Covers thread place) (dict : place = .id ∨ place = .mac) :
    ∃ mode, (.dict, mode) ∈ state.holds thread := by
  obtain ⟨server, locks, net, veth, poll⟩ := state
  cases thread with
  | net => cases net <;> rcases dict with rfl | rfl <;>
      simp_all [Covers, footprint, Net.reads, Net.writes, holds, Net.holds]
  | veth => cases veth <;> rcases dict with rfl | rfl <;>
      simp_all [Covers, footprint, VethPoint.reads, holds, VethPoint.holds]
  | poll => cases poll <;> rcases dict with rfl | rfl <;>
      simp_all [Covers, footprint, PollPoint.reads, PollPoint.writes, holds, PollPoint.holds]

theorem writes_dict (written : place ∈ (footprint thread state).writes)
    (dict : place = .id ∨ place = .mac) : state.inside thread = true := by
  obtain ⟨server, locks, net, veth, poll⟩ := state
  cases thread with
  | net => cases net <;> rcases dict with rfl | rfl <;>
      simp_all [footprint, Net.writes, inside, Net.inside]
  | veth => rcases dict with rfl | rfl <;> simp_all [footprint]
  | poll => cases poll <;> rcases dict with rfl | rfl <;>
      simp_all [footprint, PollPoint.writes, inside, PollPoint.inside]

theorem covers_addresses (covers : state.Covers thread .addresses) :
    (.pool, .exclusive) ∈ state.holds thread := by
  obtain ⟨server, locks, net, veth, poll⟩ := state
  cases thread with
  | net => cases net <;> simp_all [Covers, footprint, Net.reads, Net.writes, holds, Net.holds]
  | veth => cases veth <;> simp_all [Covers, footprint, VethPoint.reads]
  | poll =>
      cases poll with
      | visit now left => cases left <;> simp_all [Covers, footprint, PollPoint.reads, PollPoint.writes]
      | _ => simp_all [Covers, footprint, PollPoint.reads, PollPoint.writes, holds, PollPoint.holds]

theorem covers_poll {info : Ptr} (covers : state.Covers .poll place)
    (part : place.record = some info) :
    state.touches .poll = some info ∧ state.inside .poll = true := by
  obtain ⟨server, locks, net, veth, poll⟩ := state
  cases poll with
  | visit now left =>
      cases left <;> cases place <;>
        simp_all [Covers, footprint, PollPoint.reads, PollPoint.writes, Place.record, touches,
          PollPoint.touches, inside, PollPoint.inside]
  | _ =>
      cases place <;>
        simp_all [Covers, footprint, PollPoint.reads, PollPoint.writes, Place.record, touches,
          PollPoint.touches, inside, PollPoint.inside]

theorem covers_veth {info : Ptr} (covers : state.Covers .veth place)
    (part : place.record = some info) : place = .address info ∧
      state.touches .veth = some info ∧ state.holds .veth = [(.client info, .shared), (.dict, .shared)] ∧
      place ∉ (footprint .veth state).writes := by
  obtain ⟨server, locks, net, veth, poll⟩ := state
  cases veth <;> cases place <;>
    simp_all [Covers, footprint, VethPoint.reads, Place.record, touches, VethPoint.touches, holds,
      VethPoint.holds]

theorem covers_net {info : Ptr} (covers : state.Covers .net place)
    (part : place.record = some info) : info = state.server.next ∨
      ((∃ mode, (.dict, mode) ∈ state.holds .net) ∧
        (place ∈ (footprint .net state).writes → state.net.owns = some info)) := by
  obtain ⟨server, locks, net, veth, poll⟩ := state
  cases net <;> cases place <;>
    simp_all [Covers, footprint, Net.reads, Net.writes, Place.record, holds, Net.holds, Net.owns]

/-- What is in the footprint of one thread only. -/
theorem covers_own (covers : state.Covers thread place) :
    (place = .next → thread = .net) ∧ (place = .deleted → thread = .poll) ∧
      ∀ other, place = .point other → thread = other := by
  obtain ⟨server, locks, net, veth, poll⟩ := state
  cases thread with
  | net => cases net <;> cases place <;> simp_all [Covers, footprint, Net.reads, Net.writes]
  | veth => cases veth <;> cases place <;> simp_all [Covers, footprint, VethPoint.reads]
  | poll =>
      cases poll with
      | visit now left =>
          cases left <;> cases place <;> simp_all [Covers, footprint, PollPoint.reads, PollPoint.writes]
      | _ => cases place <;> simp_all [Covers, footprint, PollPoint.reads, PollPoint.writes]

theorem writes_constants : Place.constants ∉ (footprint thread state).writes := by
  obtain ⟨server, locks, net, veth, poll⟩ := state
  cases thread with
  | net => cases net <;> simp [footprint, Net.writes]
  | veth => simp [footprint]
  | poll =>
      cases poll with
      | visit now left => cases left <;> simp [footprint, PollPoint.writes]
      | _ => simp [footprint, PollPoint.writes]

end Footprint

section Exclusion
variable {order : ByteOrder} {state : Threads} (disciplined : Disciplined order state)
  (owned : Owned state)
include disciplined

theorem not_next {thread : Thread} {info : Ptr} (touches : state.touches thread = some info) :
    info ≠ state.server.next :=
  Nat.ne_of_lt (touches_live disciplined touches).1

include owned

theorem record_apart {left right : Thread} (different : left ≠ right) {place : Place} {info : Ptr}
    (part : place.record = some info) (written : place ∈ (footprint left state).writes) :
    ¬ state.Covers right place := by
  intro covers
  have writes : state.Covers left place := Or.inr written
  -- the poll thread is alone in the dictionaries
  have poll_alone : ∀ other, other ≠ .poll → state.Covers .poll place →
      ¬ ∃ mode, (.dict, mode) ∈ state.holds other := by
    rintro other apart polls ⟨mode, held⟩
    exact inside_alone disciplined .poll (covers_poll polls part).2 other apart mode held
  have net_poll : state.Covers .net place → ¬ state.Covers .poll place := by
    intro nets polls
    rcases covers_net nets part with new | ⟨held, _⟩
    · exact not_next disciplined (covers_poll polls part).1 new
    · exact poll_alone .net (by decide) polls held
  have veth_poll : state.Covers .veth place → ¬ state.Covers .poll place := by
    intro veths polls
    obtain ⟨_, _, held, _⟩ := covers_veth veths part
    exact poll_alone .veth (by decide) polls ⟨.shared, by rw [held]; simp⟩
  have net_veth : place ∈ (footprint .net state).writes → ¬ state.Covers .veth place := by
    intro nets veths
    obtain ⟨_, touches, held, _⟩ := covers_veth veths part
    rcases covers_net (Or.inr nets) part with new | ⟨_, owns⟩
    · exact not_next disciplined touches new
    · have reading := (reading_iff disciplined.agrees (.client info) .veth).mpr
        (by rw [held]; exact List.mem_cons_self)
      rw [owned info (owns nets)] at reading
      cases reading
  cases left with
  | net => cases right with
    | net => exact different rfl
    | veth => exact net_veth written covers
    | poll => exact net_poll writes covers
  | veth => exact (covers_veth writes part).2.2.2 written
  | poll => cases right with
    | net => exact net_poll covers writes
    | veth => exact veth_poll covers writes
    | poll => exact different rfl

theorem footprints_apart {left right : Thread} (different : left ≠ right) :
    (footprint left state).Apart (footprint right state) := by
  have spares : ∀ left right, left ≠ right → ∀ place ∈ (footprint left state).writes,
      ¬ state.Covers right place := by
    intro left right different place written covers
    have writes : state.Covers left place := Or.inr written
    have own := covers_own writes
    have theirs := covers_own covers
    cases place with
    | constants => exact writes_constants written
    | locks => exact spares_locks left state written
    | id =>
        obtain ⟨mode, held⟩ := covers_dict covers (Or.inl rfl)
        exact inside_alone disciplined left (writes_dict written (Or.inl rfl)) right
          different.symm mode held
    | mac =>
        obtain ⟨mode, held⟩ := covers_dict covers (Or.inr rfl)
        exact inside_alone disciplined left (writes_dict written (Or.inr rfl)) right
          different.symm mode held
    | addresses =>
        exact different (claim_unique disciplined.agrees (covers_addresses writes)
          (covers_addresses covers))
    | next => exact different ((own.1 rfl).trans (theirs.1 rfl).symm)
    | deleted => exact different ((own.2.1 rfl).trans (theirs.2.1 rfl).symm)
    | point other => exact different ((own.2.2 other rfl).trans (theirs.2.2 other rfl).symm)
    | session info | alive info | address info =>
        exact record_apart disciplined owned different rfl written covers
  exact ⟨fun place written => not_or.mp (spares left right different place written),
    fun place written => not_or.mp (spares right left different.symm place written)⟩

end Exclusion

end Threads

namespace Locking

open Threads

section Reached
variable {order : ByteOrder} {mac : { mac : Bytes // mac.length = 6 }} {secret : Bytes}
  {random : UInt32} {state : Locking}
  (reached : Runs.Reachable (step order) (init order mac secret random) state)
include reached

theorem reached_threads : ∃ locks, Linked state locks ∧
    Runs.Reachable (Threads.step order) (Threads.init order mac secret random)
      (state.threads locks) := by
  obtain ⟨events, past⟩ := reached
  obtain ⟨locks, same, linked⟩ := run_follows past
  exact ⟨locks, linked, _, same⟩

theorem reached_apart {left right : Thread} (different : left ≠ right) :
    (footprint left (state.threads free)).Apart (footprint right (state.threads free)) := by
  obtain ⟨locks, _, same⟩ := reached_threads reached
  exact footprints_apart (disciplined_reached same) (owned_reached same) different

end Reached

theorem threads_accessed {order : ByteOrder} {state : Locking} {event : Threads.Event}
    {after : Threads} (taken : (state.threads free).access order event = some after) :
    (state.accessed after).threads free = after := by
  have locks : after.locks = free := access_keeps taken (spares_locks _ _)
  rw [← locks]
  rfl

theorem step_access {order : ByteOrder} {state : Locking} {event : Threads.Event}
    (woken : Option Thread) (here : state.op event.thread = none) :
    step order state (.turn event woken) =
      ((state.threads free).access order event).map state.accessed := by
  simp only [step, here]

/-- Two accesses of different threads do not touch each other's places, and come to the same
state in either order. -/
theorem no_data_race {order : ByteOrder} {mac : { mac : Bytes // mac.length = 6 }}
    {secret : Bytes} {random : UInt32} {state : Locking}
    (reached : Runs.Reachable (step order) (init order mac secret random) state)
    {left right : Threads.Event} (different : left.thread ≠ right.thread) :
    (footprint left.thread (state.threads free)).Apart
        (footprint right.thread (state.threads free)) ∧
      (state.op left.thread = none → state.op right.thread = none →
        ∀ woken one both, step order state (.turn left woken) = some one →
          step order one (.turn right woken) = some both →
          ∃ two, step order state (.turn right woken) = some two ∧
            step order two (.turn left woken) = some both) := by
  have apart := reached_apart reached different
  refine ⟨apart, fun leftHere rightHere woken one both earlier later => ?_⟩
  rw [step_access woken leftHere] at earlier
  obtain ⟨first, firstTaken, rfl⟩ := Option.map_eq_some_iff.mp earlier
  have moved : ∀ {event : Threads.Event} {after : Threads},
      (state.threads free).access order event = some after → ∀ other ≠ event.thread,
        (state.accessed after).op other = state.op other := by
    intro event after taken other apart
    have kept := access_op_other taken apart
    cases other <;> exact kept
  have rightThere := (moved firstTaken _ different.symm).trans rightHere
  rw [step_access woken rightThere, threads_accessed firstTaken] at later
  obtain ⟨last, lastTaken, rfl⟩ := Option.map_eq_some_iff.mp later
  obtain ⟨second, secondTaken, again⟩ := (access_respects order left).commute_of_apart
    (fun _ _ => look_ext) (access_respects order right) apart firstTaken lastTaken
  refine ⟨state.accessed second, ?_, ?_⟩
  · rw [step_access woken rightHere, secondTaken]
    rfl
  · rw [step_access woken ((moved secondTaken _ different).trans leftHere),
      threads_accessed secondTaken, again]
    rfl

/-- A heartbeat is about to be noted while a frame looks for its clients. -/
theorem no_data_race_heartbeat : ∃ state,
    Runs.run (step .little) (init .little ⟨[2, 0, 0, 0, 0, 1], rfl⟩ [] 5)
      (turns [(8, opening), (2, broadcast), (4, heartbeat)]) = some state ∧
    state.op .net = none ∧ state.op .veth = none ∧
    (footprint .net (state.threads free)).Apart (footprint .veth (state.threads free)) ∧
    ∀ one both, step .little state (.turn heartbeat none) = some one →
      step .little one (.turn broadcast none) = some both →
      ∃ two, step .little state (.turn broadcast none) = some two ∧
        step .little two (.turn heartbeat none) = some both := by
  have computed : (Runs.run (step .little) (init .little ⟨[2, 0, 0, 0, 0, 1], rfl⟩ [] 5)
      (turns [(8, opening), (2, broadcast), (4, heartbeat)])).map (fun state =>
        ((state.op .net).isNone, (state.op .veth).isNone)) = some (true, true) := by
    decide +kernel
  obtain ⟨state, past, here⟩ := Option.map_eq_some_iff.mp computed
  simp only [Prod.mk.injEq, Option.isNone_iff_eq_none] at here
  have different : heartbeat.thread ≠ broadcast.thread := by decide
  have reached : Runs.Reachable (step .little)
      (init .little ⟨[2, 0, 0, 0, 0, 1], rfl⟩ [] 5) state := ⟨_, past⟩
  obtain ⟨apart, commute⟩ := no_data_race reached different
  exact ⟨state, past, here.1, here.2, apart, commute here.1 here.2 none⟩

/-- On the words of its locks the server gets into no state but those of its
critical sections taken whole, and no thread touches a record that is deleted. -/
theorem sections_atomic {order : ByteOrder} {mac : { mac : Bytes // mac.length = 6 }}
    {secret : Bytes} {random : UInt32} {state : Locking}
    (reached : Runs.Reachable (step order) (init order mac secret random) state) :
    ∃ locks, Linked state locks ∧ Machine.Reached order (state.threads locks).abstract ∧
      ∀ thread info, (state.threads locks).touches thread = some info →
        state.server.Live info := by
  obtain ⟨locks, linked, same⟩ := reached_threads reached
  have disciplined := disciplined_reached same
  exact ⟨locks, linked, disciplined.reached, fun _ _ => touches_live disciplined⟩

theorem sections_atomic_sweep : ∃ state,
    Runs.run (step .little) (init .little ⟨[2, 0, 0, 0, 0, 1], rfl⟩ [] 5)
      (turns [(8, opening), (9, .poll 45 [(11, 0)]), (5, opening)]) = some state ∧
    state.server.deleted = [0] ∧
    ∃ locks, Linked state locks ∧ Machine.Reached .little (state.threads locks).abstract ∧
      ∀ thread info, (state.threads locks).touches thread = some info →
        state.server.Live info := by
  have computed : (Runs.run (step .little) (init .little ⟨[2, 0, 0, 0, 0, 1], rfl⟩ [] 5)
      (turns [(8, opening), (9, .poll 45 [(11, 0)]), (5, opening)])).map
        (fun state => state.server.deleted) = some [0] := by
    decide +kernel
  obtain ⟨state, past, gone⟩ := Option.map_eq_some_iff.mp computed
  exact ⟨state, past, gone, sections_atomic ⟨_, past⟩⟩

end Locking

end Muddymask
