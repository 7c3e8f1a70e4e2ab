import Muddymask.Registry
import Muddymask.Threads

/-!
The threads with their locks refine the machine whose steps are critical
sections. Most steps are hidden there; an allocation is its whole `datagram`,
and a record that is about to be created is created in it already. The locks
give what the machine takes for granted: who has entered `dict.mutex` is alone.
-/

namespace Muddymask

open Words TunnelServer ReaderWriter

namespace TunnelServer

/-- The server with the record that the network thread is about to create. -/
def created (server : TunnelServer) : Option ClientInfo → TunnelServer
  | none => server
  | some record => server.newClient record

variable (server : TunnelServer) (record : Option ClientInfo)

@[simp] theorem created_dict : (server.created record).dict = server.dict := by
  cases record <;> rfl
@[simp] theorem created_deleted : (server.created record).deleted = server.deleted := by
  cases record <;> rfl

theorem created_frameTargets (order : ByteOrder) (frame : Bytes) (clients : List Ptr) :
    (server.created record).frameTargets order frame clients =
      server.frameTargets order frame clients := by
  cases record <;> rfl

theorem created_deleteClient (info : Ptr) :
    (server.created record).deleteClient info = (server.deleteClient info).created record := by
  cases record <;> rfl

def Older (server : TunnelServer) (record : Option ClientInfo) (info : Ptr) : Prop :=
  record = none ∨ info ≠ server.next

variable {server record} {info : Ptr}

theorem created_live (older : server.Older record info) :
    (server.created record).Live info ↔ server.Live info := by
  cases record with
  | none => rfl
  | some new =>
      have different : info ≠ server.next := by simpa [Older] using older
      simp only [Live, created]
      exact and_congr_left fun _ =>
        ⟨fun below => Nat.lt_of_le_of_ne (Nat.le_of_lt_succ below) different, Nat.lt_succ_of_lt⟩

theorem created_expired (older : server.Older record info) (now : Int) :
    (server.created record).Expired now info ↔ server.Expired now info := by
  cases record with
  | none => rfl
  | some new =>
      have different : info ≠ server.next := by simpa [Older] using older
      exact expired_apart _ new different now

theorem created_eraseClient {entry : UInt32 × Ptr} (older : server.Older record entry.2) :
    (server.created record).eraseClient entry = (server.eraseClient entry).created record := by
  cases record with
  | none => rfl
  | some new =>
      have different : entry.2 ≠ server.next := by simpa [Older] using older
      exact eraseClient_apart _ new different

theorem created_releaseClient (older : server.Older record info) :
    (server.created record).releaseClient info = (server.releaseClient info).created record := by
  cases record with
  | none => rfl
  | some new =>
      have different : info ≠ server.next := by simpa [Older] using older
      exact releaseClient_apart _ new different

end TunnelServer

namespace Threads

/-! The critical section that each point belongs to. -/

namespace Net

/-- The record that the next access but the release of `pool.mutex` creates. -/
def record : Net → Option ClientInfo
  | allocateUnlock record _ => record
  | create record _ => some record
  | _ => none

def abstract (next : Ptr) : Net → Option Pending
  | allocateUnlock (some _) arrival | create _ arrival =>
      some { peer := arrival.peer, datagram := arrival.datagram, info := next }
  | registerClaim pending | registerEnter pending | register pending => some pending
  | _ => none

theorem record_pending {net : Net} {record : ClientInfo} (waiting : net.record = some record)
    (next : Ptr) : ∃ pending, net.abstract next = some pending ∧ pending.info = next := by
  cases net <;> simp_all [Net.record, Net.abstract]

end Net

def VethPoint.abstract : VethPoint → Veth
  | read | lock _ | find _ => .read
  | clientLock frame info rest | send frame info rest => .relay frame (info :: rest)
  | clientUnlock frame _ rest => .relay frame rest
  | unlock frame => .relay frame []

def PollPoint.abstract : PollPoint → Poll
  | sleep | claim | enter | begin => .sleep
  | visit now entries => .sweep now entries
  | releaseLock now info entries | release now info entries => .release now info entries
  | releaseUnlock now info entries | delete now info entries => .delete now info entries
  | unlock now => .sweep now []

def abstract (state : Threads) : Machine where
  server := state.server.created state.net.record
  net := state.net.abstract state.server.next
  veth := state.veth.abstract
  poll := state.poll.abstract

/-! What the locals of a thread are known to be. -/

def Net.Known (order : ByteOrder) (server : TunnelServer) : Net → Prop
  | allocateLock arrival request | allocate arrival request =>
      sessionRequest order server.crypto arrival.datagram = some request
  | heartbeatLock arrival id | heartbeatFind arrival id =>
      heartbeatIdentity order server.crypto arrival.datagram = some id
  | clientClaim arrival info | clientEnter arrival info | clientWrite arrival info =>
      ∃ id, heartbeatIdentity order server.crypto arrival.datagram = some id ∧
        server.dict.id.find id = some info
  | clientUnlock info => ∃ id, server.dict.id.find id = some info
  | _ => True

def VethPoint.Known (server : TunnelServer) : VethPoint → Prop
  | lock frame | find frame => EthernetHeader.sizeof ≤ frame.length ∧ frame.length ≤ 2000
  | clientLock _ info rest | send _ info rest | clientUnlock _ info rest =>
      ∀ target ∈ info :: rest, ∃ mac, (mac, target) ∈ server.dict.mac.entries
  | _ => True

/-- What holds whatever the threads do. -/
structure Disciplined (order : ByteOrder) (state : Threads) : Prop where
  agrees : Agrees state.locks state.holds
  entered : ∀ thread, state.inside thread = true → (state.locks .dict).readers = []
  netKnown : state.net.Known order state.server
  vethKnown : state.veth.Known state.server
  reached : Machine.Reached order state.abstract

theorem disciplined_init (order : ByteOrder) (mac : { mac : Bytes // mac.length = 6 })
    (secret : Bytes) (random : UInt32) : Disciplined order (init order mac secret random) where
  agrees := agrees_free fun thread => by cases thread <;> rfl
  entered := fun _ _ => rfl
  netKnown := trivial
  vethKnown := trivial
  reached := ⟨mac, secret, random, Runs.reachable_start _⟩

/-! Who holds what, point by point. -/

theorem Net.holds_after {net : Net} {op : Op Lock} (next : net.op = some op) :
    net.after.holds = op.held net.holds := by
  cases net <;> cases next
  case allocateUnlock record arrival => cases record <;> simp [Net.after, Net.holds, Op.held]
  all_goals simp [Net.after, Net.holds, Op.held]

theorem VethPoint.holds_loop (frame : Bytes) (clients : List Ptr) :
    (VethPoint.loop frame clients).holds = [(.dict, .shared)] := by
  cases clients <;> rfl

theorem VethPoint.holds_after {veth : VethPoint} {op : Op Lock} (next : veth.op = some op) :
    veth.after.holds = op.held veth.holds := by
  cases veth <;> cases next
  case clientUnlock frame info rest =>
    rw [VethPoint.after, VethPoint.holds_loop]
    simp [VethPoint.holds, Op.held]
  all_goals simp [VethPoint.after, VethPoint.holds, Op.held]

theorem PollPoint.holds_after {poll : PollPoint} {op : Op Lock} (next : poll.op = some op) :
    poll.after.holds = op.held poll.holds := by
  cases poll <;> cases next <;> simp [PollPoint.after, PollPoint.holds, Op.held]

theorem holds_advance {state : Threads} {thread : Thread} {op : Op Lock}
    (next : state.op thread = some op) (locks : Lock → RwLock Thread) :
    (state.advance thread locks).holds thread = op.held (state.holds thread) := by
  cases thread with
  | net => exact Net.holds_after next
  | veth => exact VethPoint.holds_after next
  | poll => exact PollPoint.holds_after next

theorem holds_advance_other (state : Threads) {thread other : Thread} (different : other ≠ thread)
    (locks : Lock → RwLock Thread) :
    (state.advance thread locks).holds other = state.holds other := by
  cases thread <;> cases other <;> first | rfl | exact absurd rfl different

theorem Net.inside_claims {net : Net} (inside : net.inside = true) :
    (.dict, .exclusive) ∈ net.holds := by
  cases net <;> simp_all [Net.inside, Net.holds]

theorem PollPoint.inside_claims {poll : PollPoint} (inside : poll.inside = true) :
    (.dict, .exclusive) ∈ poll.holds := by
  cases poll <;> simp_all [PollPoint.inside, PollPoint.holds]

theorem inside_claims {state : Threads} {thread : Thread} (inside : state.inside thread = true) :
    (.dict, .exclusive) ∈ state.holds thread := by
  cases thread with
  | net => exact Net.inside_claims inside
  | veth => cases inside
  | poll => exact PollPoint.inside_claims inside

/-! A guard of `dict.mutex` is entered by `enter` only. -/

theorem Net.inside_after {net : Net} {op : Op Lock} (next : net.op = some op)
    (inside : net.after.inside = true) : net.inside = true ∨ op = .enter .dict := by
  cases net <;> cases next
  case allocateUnlock record arrival => cases record <;> cases inside
  all_goals simp_all [Net.after, Net.inside]

theorem PollPoint.inside_after {poll : PollPoint} {op : Op Lock} (next : poll.op = some op)
    (inside : poll.after.inside = true) : poll.inside = true ∨ op = .enter .dict := by
  cases poll <;> cases next <;> simp_all [PollPoint.after, PollPoint.inside]

theorem inside_advance {state : Threads} {thread other : Thread} {op : Op Lock}
    (next : state.op thread = some op) (locks : Lock → RwLock Thread)
    (inside : (state.advance thread locks).inside other = true) :
    state.inside other = true ∨ op = .enter .dict := by
  cases thread <;> cases other <;> first
    | exact Or.inl inside
    | exact Net.inside_after next inside
    | exact PollPoint.inside_after next inside

/-- Nobody reads under a guard of `dict.mutex`, after a lock operation as before. -/
theorem entered_advance {state : Threads} {thread : Thread} {op : Op Lock}
    {locks : Lock → RwLock Thread} (agrees : Agrees state.locks state.holds)
    (entered : ∀ thread, state.inside thread = true → (state.locks .dict).readers = [])
    (next : state.op thread = some op) (done : perform thread state.locks op = some locks)
    (other : Thread) (inside : (state.advance thread locks).inside other = true) :
    (locks .dict).readers = [] := by
  rcases inside_advance next locks inside with before | rfl
  · have claimed := (claimed_iff agrees .dict other).mpr (inside_claims before)
    exact readers_stay_out claimed (entered other before) done
  · simp only [perform] at done
    split at done <;> cases done
    rename_i free
    exact free.2

/-! What a lock operation does to the locals and to the machine of sections. -/

theorem Net.known_after {order : ByteOrder} {server : TunnelServer} {net : Net}
    (known : net.Known order server) : net.after.Known order server := by
  cases net with
  | clientUnlock => trivial
  | allocateUnlock record => cases record <;> trivial
  | _ => exact known

theorem VethPoint.known_loop {server : TunnelServer} (frame : Bytes) {clients : List Ptr}
    (known : ∀ target ∈ clients, ∃ mac, (mac, target) ∈ server.dict.mac.entries) :
    (VethPoint.loop frame clients).Known server := by
  cases clients with
  | nil => trivial
  | cons => exact known

theorem VethPoint.known_after {server : TunnelServer} {veth : VethPoint}
    (known : veth.Known server) : veth.after.Known server := by
  cases veth with
  | clientUnlock frame info rest =>
      exact VethPoint.known_loop frame fun target member =>
        known target (List.mem_cons_of_mem info member)
  | unlock => trivial
  | _ => exact known

theorem VethPoint.abstract_loop (frame : Bytes) (clients : List Ptr) :
    (VethPoint.loop frame clients).abstract = .relay frame clients := by
  cases clients <;> rfl

/-- Hidden, unless it ends the relay of a frame or a sweep. -/
theorem reached_advance {order : ByteOrder} {state : Threads} {thread : Thread} {op : Op Lock}
    (reached : Machine.Reached order state.abstract) (next : state.op thread = some op)
    (locks : Lock → RwLock Thread) :
    Machine.Reached order (state.advance thread locks).abstract := by
  obtain ⟨server, before, net, veth, poll⟩ := state
  cases thread with
  | net =>
      cases net <;> cases next
      case net.allocateUnlock.refl record arrival => cases record <;> exact reached
      all_goals exact reached
  | veth =>
      cases veth <;> cases next
      case veth.clientUnlock.refl frame info rest => cases rest <;> exact reached
      case veth.unlock.refl frame => exact Machine.reached_next reached .forward rfl
      all_goals exact reached
  | poll =>
      cases poll <;> cases next
      case poll.unlock.refl now => exact Machine.reached_next reached .visit rfl
      all_goals exact reached

theorem disciplined_advance {order : ByteOrder} {state : Threads} {thread : Thread}
    {op : Op Lock} {locks : Lock → RwLock Thread} (disciplined : Disciplined order state)
    (next : state.op thread = some op) (done : perform thread state.locks op = some locks) :
    Disciplined order (state.advance thread locks) where
  agrees := by
    have stored : (state.advance thread locks).locks = locks := by cases thread <;> rfl
    rw [stored]
    exact agrees_perform disciplined.agrees done (holds_advance next locks)
      fun other different => holds_advance_other state different locks
  entered := by
    have stored : (state.advance thread locks).locks = locks := by cases thread <;> rfl
    rw [stored]
    exact entered_advance disciplined.agrees disciplined.entered next done
  netKnown := by
    cases thread with
    | net => exact Net.known_after disciplined.netKnown
    | veth | poll => exact disciplined.netKnown
  vethKnown := by
    cases thread with
    | veth => exact VethPoint.known_after disciplined.vethKnown
    | net | poll => exact disciplined.vethKnown
  reached := reached_advance disciplined.reached next locks

/-! Who is alone. -/

theorem inside_alone {order : ByteOrder} {state : Threads} (disciplined : Disciplined order state)
    (thread : Thread) (inside : state.inside thread = true) (other : Thread)
    (different : other ≠ thread) (mode : Mode) : (.dict, mode) ∉ state.holds other :=
  alone disciplined.agrees (inside_claims inside) (disciplined.entered thread inside) different mode

theorem outside {order : ByteOrder} {state : Threads} (disciplined : Disciplined order state)
    (thread other : Thread) (different : other ≠ thread)
    (held : ∃ mode, (.dict, mode) ∈ state.holds other) : state.inside thread = false := by
  obtain ⟨mode, held⟩ := held
  by_contra within
  exact inside_alone disciplined thread (by simpa using within) other different mode held

theorem PollPoint.abstract_outside {poll : PollPoint} (outside : poll.inside = false) :
    poll.abstract = .sleep := by
  cases poll <;> first | rfl | cases outside

theorem VethPoint.abstract_out {veth : VethPoint} (out : ∀ mode, (.dict, mode) ∉ veth.holds) :
    veth.abstract = .read := by
  cases veth <;> simp_all [VethPoint.abstract, VethPoint.holds]

/-- Locals that come from the dictionaries live under the lock only. -/
theorem VethPoint.known_out {veth : VethPoint} {server : TunnelServer} (after : TunnelServer)
    (known : veth.Known server) (out : ∀ mode, (.dict, mode) ∉ veth.holds) :
    veth.Known after := by
  cases veth <;> simp_all [VethPoint.Known, VethPoint.holds]

theorem Net.known_out {order : ByteOrder} {net : Net} {server after : TunnelServer}
    (known : net.Known order server) (out : ∀ mode, (.dict, mode) ∉ net.holds)
    (sameCrypto : after.crypto = server.crypto) : net.Known order after := by
  cases net <;> simp_all [Net.Known, Net.holds]

theorem Net.known_same {order : ByteOrder} {net : Net} {server after : TunnelServer}
    (known : net.Known order server) (sameDict : after.dict = server.dict)
    (sameCrypto : after.crypto = server.crypto) : net.Known order after := by
  cases net <;> simp_all [Net.Known]

theorem VethPoint.known_same {veth : VethPoint} {server after : TunnelServer}
    (known : veth.Known server) (sameDict : after.dict = server.dict) : veth.Known after := by
  cases veth <;> simp_all [VethPoint.Known]

theorem older {state : Threads} (sound : Sound state.abstract) {info : Ptr}
    (there : state.server.Registered info ∨ state.poll.abstract.removing = some info) :
    state.server.Older state.net.record info := by
  cases waiting : state.net.record with
  | none => exact Or.inl rfl
  | some record =>
      refine Or.inr fun same => ?_
      obtain ⟨pending, isPending, isNext⟩ := Net.record_pending waiting state.server.next
      rcases there with registered | removing
      · have registeredToo : state.abstract.server.Registered pending.info := by
          rw [isNext, ← same]
          simpa only [Registered, abstract, created_dict] using registered
        exact sound.pendingApart pending isPending registeredToo
      · rw [same, ← isNext] at removing
        exact sound.disjoint pending isPending removing

/-! The accesses. They move no lock, and a guard is left by its release only. -/

theorem arrive_cases (order : ByteOrder) (crypto : DummyCrypto) (arrival : Arrival) :
    let point := arrive order crypto arrival
    point = .recv ∨ (∃ id, point = .relayLock id) ∨
      (∃ id, heartbeatIdentity order crypto arrival.datagram = some id ∧
        point = .heartbeatLock arrival id) ∨
      ∃ request, sessionRequest order crypto arrival.datagram = some request ∧
        point = .allocateLock arrival request := by
  simp only [arrive, heartbeatIdentity, sessionRequest]
  cases dispatch order crypto (recv arrival.datagram 2000) with
  | ignore | wrongVersion => exact Or.inl rfl
  | call handler id packet length =>
      cases handler with
      | relayData =>
          by_cases short : length ≤ EthernetHeader.sizeof <;> simp [short]
      | handleHeartbeat =>
          by_cases sized : length = Heartbeat.sizeof <;> simp [sized]
      | startSession =>
          by_cases sized : length = StartSession.sizeof
          · cases parsed : StartSession.read order packet <;> simp [sized, parsed]
          · simp [sized]

theorem disciplined_access {order : ByteOrder} {state after : Threads}
    (disciplined : Disciplined order state) (locks : after.locks = state.locks)
    (net : after.net.holds = state.net.holds ∧ after.net.inside = state.net.inside)
    (veth : after.veth.holds = state.veth.holds)
    (poll : after.poll.holds = state.poll.holds ∧ after.poll.inside = state.poll.inside)
    (netKnown : after.net.Known order after.server) (vethKnown : after.veth.Known after.server)
    (reached : Machine.Reached order after.abstract) : Disciplined order after where
  agrees := by
    rw [locks]
    refine agrees_same disciplined.agrees fun thread => ?_
    cases thread with
    | net => exact net.1
    | veth => exact veth
    | poll => exact poll.1
  entered thread inside := by
    rw [locks]
    apply disciplined.entered thread
    cases thread with
    | net => exact net.2.symm.trans inside
    | veth => exact inside
    | poll => exact poll.2.symm.trans inside
  netKnown := netKnown
  vethKnown := vethKnown
  reached := reached

theorem disciplined_netAccess {order : ByteOrder} {state : Threads}
    (disciplined : Disciplined order state) (arrival : Arrival) :
    Disciplined order (state.netAccess order arrival) := by
  obtain ⟨server, locks, net, veth, poll⟩ := state
  have netKnown := disciplined.netKnown
  have vethKnown := disciplined.vethKnown
  have reached := disciplined.reached
  cases net with
  | recv =>
      rcases arrive_cases order server.crypto arrival with
        same | ⟨id, same⟩ | ⟨id, heard, same⟩ | ⟨request, asked, same⟩
      all_goals
        simp only [netAccess, same]
        refine disciplined_access disciplined rfl ⟨rfl, rfl⟩ rfl ⟨rfl, rfl⟩ ?_ vethKnown reached
      · trivial
      · trivial
      · exact heard
      · exact asked
  | relayFind id =>
      exact disciplined_access disciplined rfl ⟨rfl, rfl⟩ rfl ⟨rfl, rfl⟩ trivial vethKnown reached
  | allocate arrival request =>
      -- The whole datagram happens here in the machine of sections, its record included.
      have idle : (abstract ⟨server, locks, .allocate arrival request, veth, poll⟩).net = none := rfl
      have taken := Machine.next_request idle netKnown arrival.peer arrival.random arrival.time
      refine disciplined_access disciplined rfl ⟨rfl, rfl⟩ rfl ⟨rfl, rfl⟩ trivial
        (VethPoint.known_same vethKnown rfl) ?_
      by_cases exhausted : (((server.created none).pool).allocateAddress order).1 = 0
      · have taken' := taken.trans (congrArg some (if_pos exhausted))
        have own : (server.pool.allocateAddress order).1 = 0 := exhausted
        simp only [netAccess, own, ↓reduceIte]
        exact Machine.reached_next reached _ taken'
      · have taken' := taken.trans (congrArg some (if_neg exhausted))
        have own : (server.pool.allocateAddress order).1 ≠ 0 := exhausted
        simp only [netAccess, own, ↓reduceIte]
        exact Machine.reached_next reached _ taken'
  | create record arrival =>
      exact disciplined_access disciplined rfl ⟨rfl, rfl⟩ rfl ⟨rfl, rfl⟩ trivial
        (VethPoint.known_same vethKnown rfl) reached
  | register pending =>
      -- Who registers is alone: nobody relays a frame or sweeps.
      have apart := inside_alone disciplined .net rfl
      have reading := VethPoint.abstract_out (apart .veth (by decide))
      have asleep := PollPoint.abstract_outside
        (outside disciplined .poll .net (by decide) ⟨.exclusive, by simp [holds, Net.holds]⟩)
      have waiting : (abstract ⟨server, locks, .register pending, veth, poll⟩).net =
          some pending := rfl
      exact disciplined_access disciplined rfl ⟨rfl, rfl⟩ rfl ⟨rfl, rfl⟩ trivial
        (VethPoint.known_out _ vethKnown (apart .veth (by decide)))
        (Machine.reached_next reached _ (Machine.next_register waiting asleep reading))
  | heartbeatFind arrival id =>
      cases known : server.dict.id.find id with
      | none =>
          simp only [netAccess, known]
          exact disciplined_access disciplined rfl ⟨rfl, rfl⟩ rfl ⟨rfl, rfl⟩ trivial vethKnown reached
      | some info =>
          simp only [netAccess, known]
          exact disciplined_access disciplined rfl ⟨rfl, rfl⟩ rfl ⟨rfl, rfl⟩
            ⟨id, netKnown, known⟩ vethKnown reached
  | clientWrite arrival info =>
      -- The shared lock has kept the sweep away since the identity was looked up.
      obtain ⟨id, heard, known⟩ := netKnown
      have asleep := PollPoint.abstract_outside
        (outside disciplined .poll .net (by decide) ⟨.shared, by simp [holds, Net.holds]⟩)
      have idle : (abstract ⟨server, locks, .clientWrite arrival info, veth, poll⟩).net = none := rfl
      have taken := Machine.next_heartbeat idle ((asleep_iff _).mpr asleep) heard known
        arrival.peer arrival.random arrival.time
      exact disciplined_access disciplined rfl ⟨rfl, rfl⟩ rfl ⟨rfl, rfl⟩ ⟨id, known⟩
        (VethPoint.known_same vethKnown rfl) (Machine.reached_next reached _ taken)
  | _ => exact disciplined

theorem frameTargets_registered {order : ByteOrder} {server : TunnelServer} {frame : Bytes}
    {clients : List Ptr} (iterated : clients.Perm (server.dict.mac.entries.map Prod.snd)) :
    ∀ target ∈ server.frameTargets order frame clients,
      ∃ mac, (mac, target) ∈ server.dict.mac.entries := by
  have listed : ∀ target ∈ clients, ∃ mac, (mac, target) ∈ server.dict.mac.entries := by
    intro target member
    obtain ⟨entry, there, rfl⟩ := List.mem_map.mp (iterated.mem_iff.mp member)
    exact ⟨entry.1, there⟩
  intro target member
  simp only [frameTargets] at member
  split at member
  · cases member
  split at member
  · cases member
  split at member
  · exact listed target member
  · obtain ⟨mac, there, _⟩ := (UnorderedMap.find_eq_some_iff ..).mp (Option.mem_toList.mp member)
    exact ⟨mac, there⟩

theorem disciplined_vethAccess {order : ByteOrder} {state after : Threads}
    (disciplined : Disciplined order state) {frame : Bytes} {clients : List Ptr}
    (taken : state.vethAccess order frame clients = some after) : Disciplined order after := by
  obtain ⟨server, locks, net, veth, poll⟩ := state
  have netKnown := disciplined.netKnown
  have vethKnown := disciplined.vethKnown
  have reached := disciplined.reached
  cases veth with
  | read =>
      simp only [vethAccess] at taken
      split at taken <;> cases taken
      · exact disciplined
      · rename_i long
        exact disciplined_access disciplined rfl ⟨rfl, rfl⟩ rfl ⟨rfl, rfl⟩ netKnown
          ⟨Nat.not_lt.mp long, by simp⟩ reached
  | find wanted =>
      simp only [vethAccess] at taken
      split at taken <;> cases taken
      rename_i iterated
      have asleep := PollPoint.abstract_outside
        (outside disciplined .poll .veth (by decide) ⟨.shared, by simp [holds, VethPoint.holds]⟩)
      have reading : (abstract ⟨server, locks, net, .find wanted, poll⟩).veth = .read := rfl
      have listed : clients.Perm ((server.created net.record).dict.mac.entries.map Prod.snd) := by
        simpa using iterated
      have framed := Machine.next_frame order reading asleep vethKnown.1 vethKnown.2 listed
      refine disciplined_access disciplined rfl ⟨rfl, rfl⟩ (VethPoint.holds_loop _ _) ⟨rfl, rfl⟩
        netKnown (VethPoint.known_loop _ (frameTargets_registered iterated)) ?_
      have later := Machine.reached_next reached _ framed
      simpa only [abstract, VethPoint.abstract_loop, created_frameTargets] using later
  | send wanted info rest =>
      cases taken
      exact disciplined_access disciplined rfl ⟨rfl, rfl⟩ rfl ⟨rfl, rfl⟩ netKnown vethKnown
        (Machine.reached_next reached .forward rfl)
  | _ =>
      cases taken
      exact disciplined

theorem disciplined_pollAccess {order : ByteOrder} {state after : Threads}
    (disciplined : Disciplined order state) {now : Int} {entries : List (UInt32 × Ptr)}
    (taken : state.pollAccess now entries = some after) : Disciplined order after := by
  obtain ⟨server, locks, net, veth, poll⟩ := state
  have netKnown := disciplined.netKnown
  have vethKnown := disciplined.vethKnown
  have reached := disciplined.reached
  have sound := sound_reached reached
  cases poll with
  | sleep =>
      cases taken
      exact disciplined_access disciplined rfl ⟨rfl, rfl⟩ rfl ⟨rfl, rfl⟩ netKnown vethKnown
        reached
  | begin =>
      simp only [pollAccess] at taken
      split at taken <;> cases taken
      rename_i iterated
      have asleep : (abstract ⟨server, locks, net, veth, .begin⟩).poll = .sleep := rfl
      -- The sweep has entered, so no frame is being relayed.
      have reading := VethPoint.abstract_out (inside_alone disciplined .poll rfl .veth (by decide))
      have listed : entries.Perm (server.created net.record).dict.id.entries := by
        simpa using iterated
      have swept := Machine.next_sweep order asleep reading listed now
      exact disciplined_access disciplined rfl ⟨rfl, rfl⟩ rfl ⟨rfl, rfl⟩ netKnown vethKnown
        (Machine.reached_next reached _ swept)
  | visit at_clock left =>
      cases left with
      | nil =>
          cases taken
          exact disciplined_access disciplined rfl ⟨rfl, rfl⟩ rfl ⟨rfl, rfl⟩ netKnown
            vethKnown reached
      | cons entry left =>
          have at_entry : (abstract ⟨server, locks, net, veth, .visit at_clock (entry :: left)⟩).poll =
              .sweep at_clock (entry :: left) := rfl
          have visited := Machine.reached_next reached _ (Machine.next_visit order at_entry)
          have present := sound.remaining entry (List.mem_cons_self ..)
          -- A record that only the network thread knows is in no entry, so it may be created later.
          have known : server.Older net.record entry.2 :=
            older sound (Or.inl (Or.inl ⟨entry.1, by simpa [abstract] using present⟩))
          have apart := inside_alone disciplined .poll rfl
          simp only [pollAccess] at taken
          split at taken <;> cases taken
          · rename_i expired
            have gone := (created_expired known at_clock).mpr expired
            simp only [abstract, gone, ↓reduceIte, created_eraseClient known] at visited
            exact disciplined_access disciplined rfl ⟨rfl, rfl⟩ rfl ⟨rfl, rfl⟩
              (Net.known_out netKnown (apart .net (by decide)) rfl)
              (VethPoint.known_out _ vethKnown (apart .veth (by decide))) visited
          · rename_i alive
            have stays := mt (created_expired known at_clock).mp alive
            simp only [abstract, stays, ↓reduceIte] at visited
            exact disciplined_access disciplined rfl ⟨rfl, rfl⟩ rfl ⟨rfl, rfl⟩ netKnown
              vethKnown visited
  | release at_clock info left =>
      cases taken
      have released := Machine.reached_next reached .release rfl
      have known : server.Older net.record info := older sound (Or.inr rfl)
      simp only [abstract, PollPoint.abstract, created_releaseClient known] at released
      exact disciplined_access disciplined rfl ⟨rfl, rfl⟩ rfl ⟨rfl, rfl⟩
        (Net.known_same netKnown rfl rfl) (VethPoint.known_same vethKnown rfl) released
  | delete at_clock info left =>
      cases taken
      have deleted := Machine.reached_next reached .delete rfl
      simp only [abstract, PollPoint.abstract, created_deleteClient] at deleted
      exact disciplined_access disciplined rfl ⟨rfl, rfl⟩ rfl ⟨rfl, rfl⟩
        (Net.known_same netKnown rfl rfl) (VethPoint.known_same vethKnown rfl) deleted
  | _ =>
      cases taken
      exact disciplined

theorem disciplined_step {order : ByteOrder} {state after : Threads} {event : Event}
    (disciplined : Disciplined order state) (taken : step order state event = some after) :
    Disciplined order after := by
  rw [step] at taken
  cases next : state.op event.thread with
  | some op =>
      rw [next] at taken
      obtain ⟨locks, done, rfl⟩ := Option.map_eq_some_iff.mp taken
      exact disciplined_advance disciplined next done
  | none =>
      rw [next] at taken
      cases event with
      | net arrival =>
          cases taken
          exact disciplined_netAccess disciplined arrival
      | veth frame clients => exact disciplined_vethAccess disciplined taken
      | poll now entries => exact disciplined_pollAccess disciplined taken

theorem disciplined_reached {order : ByteOrder} {mac : { mac : Bytes // mac.length = 6 }}
    {secret : Bytes} {random : UInt32} {state : Threads}
    (reached : Runs.Reachable (step order) (init order mac secret random) state) :
    Disciplined order state :=
  Runs.reachable_induct (Disciplined order) reached (disciplined_init order mac secret random)
    fun _ _ _ _ disciplined taken => disciplined_step disciplined taken

end Threads

end Muddymask
