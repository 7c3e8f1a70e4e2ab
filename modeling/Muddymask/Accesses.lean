import Muddymask.Footprints
import Muddymask.Threads

/-!
What the accesses of the server's threads read and write, point by point.
-/

namespace Muddymask

open Words TunnelServer ReaderWriter Footprints

namespace Threads

/-- What accesses read and write. A record has three parts: what is set once, and two that a
heartbeat changes. The heap knows the next pointer and which ones are deleted. -/
inductive Place where
  | constants
  | id
  | mac
  | addresses
  | session (info : Ptr)
  | alive (info : Ptr)
  | address (info : Ptr)
  | next
  | deleted
  | locks
  | point (thread : Thread)
  deriving DecidableEq

namespace Place

abbrev Value : Place → Type
  | constants => Config × UInt32 × DummyCrypto
  | id => UnorderedMap UInt32 Ptr
  | mac => UnorderedMap MacAddress Ptr
  | addresses => AddressPool
  | session _ => Tun × UInt32
  | alive _ => Int
  | address _ => SockAddr
  | next => Ptr
  | deleted => List Ptr
  | locks => Lock → RwLock Thread
  | point .net => Net
  | point .veth => VethPoint
  | point .poll => PollPoint

/-- The record that the place is a part of. -/
def record : Place → Option Ptr
  | session info | alive info | address info => some info
  | _ => none

end Place

def look (state : Threads) : (place : Place) → place.Value
  | .constants => (state.server.config, state.server.identity, state.server.crypto)
  | .id => state.server.dict.id
  | .mac => state.server.dict.mac
  | .addresses => state.server.pool
  | .session info => ((state.server.client info).tun, (state.server.client info).identity)
  | .alive info => (state.server.client info).alive
  | .address info => (state.server.client info).address
  | .next => state.server.next
  | .deleted => state.server.deleted
  | .locks => state.locks
  | .point .net => state.net
  | .point .veth => state.veth
  | .point .poll => state.poll

/-! The places of each point. Who comes to the mutex of a client goes through the dictionary
once more. -/

namespace Net

def reads : Net → List Place
  | recv => [.constants]
  | relayFind _ | heartbeatFind _ _ | clientClaim _ _ => [.id]
  | allocate _ _ => [.addresses]
  | create _ _ => [.next]
  | register pending => [.id, .mac, .session pending.info]
  | clientWrite _ info => [.id, .address info]
  | _ => []

def writes (next : Ptr) : Net → List Place
  | allocate _ _ => [.addresses]
  | create _ _ => [.next, .session next, .alive next, .address next]
  | register _ => [.id, .mac]
  | clientWrite _ info => [.alive info, .address info]
  | _ => []

end Net

def VethPoint.reads : VethPoint → List Place
  | find _ | clientLock _ _ _ | clientUnlock _ _ _ => [.mac]
  | send _ info _ => [.mac, .address info]
  | _ => []

namespace PollPoint

def reads : PollPoint → List Place
  | begin | visit _ [] => [.id]
  | visit _ (entry :: _) => [.id, .mac, .session entry.2, .alive entry.2]
  | releaseLock _ info _ => [.session info]
  | release _ info _ => [.addresses, .session info]
  | delete _ info _ => [.deleted, .session info, .alive info, .address info]
  | _ => []

def writes : PollPoint → List Place
  | visit _ (_ :: _) => [.id, .mac]
  | release _ _ _ => [.addresses]
  | delete _ info _ => [.deleted, .session info, .alive info, .address info]
  | _ => []

end PollPoint

/-- What the next step of a thread reads and writes, apart from locks. -/
def footprint (thread : Thread) (state : Threads) : Footprint Place where
  reads := .point thread :: match thread with
    | .net => state.net.reads
    | .veth => state.veth.reads
    | .poll => state.poll.reads
  writes := .point thread :: match thread with
    | .net => state.net.writes state.server.next
    | .veth => []
    | .poll => state.poll.writes

theorem look_ext {left right : Threads} (same : ∀ place, left.look place = right.look place) :
    left = right := by
  obtain ⟨⟨pool, config, ⟨id, mac⟩, identity, crypto, client, next, deleted⟩, locks, net, veth,
    poll⟩ := left
  obtain ⟨⟨pool', config', ⟨id', mac'⟩, identity', crypto', client', next', deleted'⟩, locks', net',
    veth', poll'⟩ := right
  obtain ⟨⟩ := same .constants
  obtain ⟨⟩ := same .id
  obtain ⟨⟩ := same .mac
  obtain ⟨⟩ := same .addresses
  obtain ⟨⟩ := same .next
  obtain ⟨⟩ := same .deleted
  obtain ⟨⟩ := same .locks
  obtain ⟨⟩ := same (.point .net)
  obtain ⟨⟩ := same (.point .veth)
  obtain ⟨⟩ := same (.point .poll)
  have records : client = client' := by
    funext info
    have session := same (.session info)
    have alive := same (.alive info)
    have address := same (.address info)
    simp only [look] at session alive address
    cases left : client info
    cases right : client' info
    rw [left, right] at session alive address
    cases session
    cases alive
    cases address
    rfl
  rw [records]

/-! Where a server operation changes nothing. -/

section Frames
variable (state : Threads) {place : Place}

/-- The points that a thread comes to are in its own place. -/
theorem look_net (net : Net) (out : place ≠ .point .net) :
    look { state with net } place = state.look place := by
  cases place with
  | point thread => cases thread <;> first | rfl | exact absurd rfl out
  | _ => rfl

theorem look_veth (veth : VethPoint) (out : place ≠ .point .veth) :
    look { state with veth } place = state.look place := by
  cases place with
  | point thread => cases thread <;> first | rfl | exact absurd rfl out
  | _ => rfl

theorem look_poll (poll : PollPoint) (out : place ≠ .point .poll) :
    look { state with poll } place = state.look place := by
  cases place with
  | point thread => cases thread <;> first | rfl | exact absurd rfl out
  | _ => rfl

theorem look_pool (pool : AddressPool) (out : place ≠ .addresses) :
    look { state with server := { state.server with pool } } place = state.look place := by
  cases place with
  | point thread => cases thread <;> rfl
  | addresses => exact absurd rfl out
  | _ => rfl

theorem look_dict (dict : Dict) (outId : place ≠ .id) (outMac : place ≠ .mac) :
    look { state with server := { state.server with dict } } place = state.look place := by
  cases place with
  | point thread => cases thread <;> rfl
  | id => exact absurd rfl outId
  | mac => exact absurd rfl outMac
  | _ => rfl

theorem look_new (record : ClientInfo) (outNext : place ≠ .next)
    (apart : place.record ≠ some state.server.next) :
    look { state with server := state.server.newClient record } place = state.look place := by
  have other : ∀ wanted, wanted ≠ state.server.next →
      (state.server.newClient record).client wanted = state.server.client wanted :=
    fun wanted different => if_neg different
  cases place with
  | point thread => cases thread <;> rfl
  | next => exact absurd rfl outNext
  | session wanted | alive wanted | address wanted =>
      have different : wanted ≠ state.server.next := fun same => apart (congrArg some same)
      simp only [look, other wanted different]
  | _ => rfl

theorem look_refresh (info : Ptr) (peer : SockAddr) (time : Int)
    (out : place ∉ [Place.alive info, .address info]) :
    look { state with server := state.server.refreshClient info peer time } place =
      state.look place := by
  have other : ∀ wanted, wanted ≠ info →
      (state.server.refreshClient info peer time).client wanted = state.server.client wanted :=
    fun wanted different => if_neg different
  cases place with
  | point thread => cases thread <;> rfl
  | session wanted =>
      simp only [look, refreshClient_tun, refreshClient_identity]
  | alive wanted | address wanted =>
      have different : wanted ≠ info := by
        rintro rfl
        simp at out
      simp only [look, other wanted different]
  | _ => rfl

end Frames

theorem record_ne {info : Ptr} {places : List Place} {place : Place} (out : place ∉ places)
    (session : .session info ∈ places) (alive : .alive info ∈ places)
    (address : .address info ∈ places) : place.record ≠ some info := by
  intro same
  cases place <;> cases same <;> contradiction

theorem netAccess_frame (order : ByteOrder) (state : Threads) (arrival : Arrival) :
    ∀ place ∉ (footprint .net state).writes,
      (state.netAccess order arrival).look place = state.look place := by
  obtain ⟨server, locks, net, veth, poll⟩ := state
  intro place out
  have elsewhere : place ≠ .point .net := fun same => out (same ▸ List.mem_cons_self)
  replace out : place ∉ net.writes server.next := fun written => out (List.mem_cons_of_mem _ written)
  have moved : ∀ server net, look ⟨server, locks, net, veth, poll⟩ place =
      look ⟨server, locks, .recv, veth, poll⟩ place :=
    fun server net => look_net ⟨server, locks, .recv, veth, poll⟩ net elsewhere
  cases net with
  | allocate arrival request =>
      refine (moved _ _).trans (Eq.trans ?_ (moved server _).symm)
      refine look_pool ⟨server, locks, .recv, veth, poll⟩ _ ?_
      rintro rfl
      exact out (List.mem_singleton_self _)
  | create record arrival =>
      refine (moved _ _).trans (Eq.trans ?_ (moved server _).symm)
      refine look_new ⟨server, locks, .recv, veth, poll⟩ record ?_ ?_
      · rintro rfl
        simp [Net.writes] at out
      · exact record_ne out (by simp [Net.writes]) (by simp [Net.writes]) (by simp [Net.writes])
  | register pending =>
      refine (moved _ _).trans (Eq.trans ?_ (moved server _).symm)
      refine look_dict ⟨server, locks, .recv, veth, poll⟩ _ ?_ ?_
      · rintro rfl
        simp [Net.writes] at out
      · rintro rfl
        simp [Net.writes] at out
  | heartbeatFind arrival id =>
      simp only [netAccess]
      split
      · exact (moved server _).trans (moved server _).symm
      · exact (moved server _).trans (moved server _).symm
  | clientWrite arrival info =>
      refine (moved _ _).trans (Eq.trans ?_ (moved server _).symm)
      exact look_refresh ⟨server, locks, .recv, veth, poll⟩ info arrival.peer arrival.time out
  | recv | relayFind => exact (moved server _).trans (moved server _).symm
  | _ => rfl

theorem vethAccess_frame {order : ByteOrder} {state after : Threads} {frame : Bytes}
    {clients : List Ptr} (taken : state.vethAccess order frame clients = some after) :
    ∀ place ∉ (footprint .veth state).writes, after.look place = state.look place := by
  obtain ⟨server, locks, net, veth, poll⟩ := state
  intro place out
  have elsewhere : place ≠ .point .veth := fun same => out (same ▸ List.mem_cons_self)
  have moved : ∀ veth, look ⟨server, locks, net, veth, poll⟩ place =
      look ⟨server, locks, net, .read, poll⟩ place :=
    fun veth => look_veth ⟨server, locks, net, .read, poll⟩ veth elsewhere
  cases veth with
  | read | find =>
      simp only [vethAccess] at taken
      split at taken <;> cases taken <;> exact (moved _).trans (moved _).symm
  | _ =>
      cases taken
      exact (moved _).trans (moved _).symm

theorem pollAccess_frame {state after : Threads} {now : Int} {entries : List (UInt32 × Ptr)}
    (taken : state.pollAccess now entries = some after) :
    ∀ place ∉ (footprint .poll state).writes, after.look place = state.look place := by
  obtain ⟨server, locks, net, veth, poll⟩ := state
  intro place out
  have elsewhere : place ≠ .point .poll := fun same => out (same ▸ List.mem_cons_self)
  replace out : place ∉ poll.writes := fun written => out (List.mem_cons_of_mem _ written)
  have moved : ∀ server poll, look ⟨server, locks, net, veth, poll⟩ place =
      look ⟨server, locks, net, veth, .sleep⟩ place :=
    fun server poll => look_poll ⟨server, locks, net, veth, .sleep⟩ poll elsewhere
  cases poll with
  | begin =>
      simp only [pollAccess] at taken
      split at taken <;> cases taken
      exact (moved server _).trans (moved server _).symm
  | visit at_clock left =>
      cases left with
      | nil =>
          cases taken
          exact (moved server _).trans (moved server _).symm
      | cons entry left =>
          simp only [pollAccess] at taken
          split at taken <;> cases taken
          · refine (moved _ _).trans (Eq.trans ?_ (moved server _).symm)
            refine look_dict ⟨server, locks, net, veth, .sleep⟩ _ ?_ ?_
            · rintro rfl
              simp [PollPoint.writes] at out
            · rintro rfl
              simp [PollPoint.writes] at out
          · exact (moved server _).trans (moved server _).symm
  | release at_clock info left =>
      cases taken
      refine (moved _ _).trans (Eq.trans ?_ (moved server _).symm)
      refine look_pool ⟨server, locks, net, veth, .sleep⟩ _ ?_
      rintro rfl
      simp [PollPoint.writes] at out
  | delete at_clock info left =>
      cases taken
      refine (moved _ _).trans (Eq.trans ?_ (moved server _).symm)
      have apart : place ≠ .deleted := by
        rintro rfl
        simp [PollPoint.writes] at out
      cases place with
      | point thread => cases thread <;> rfl
      | deleted => exact absurd rfl apart
      | _ => rfl
  | _ =>
      cases taken
      exact (moved server _).trans (moved server _).symm

/-! An access depends on what it reads. -/

theorem frameTargets_congr {order : ByteOrder} {left right : TunnelServer}
    (macs : left.dict.mac = right.dict.mac) (frame : Bytes) (clients : List Ptr) :
    left.frameTargets order frame clients = right.frameTargets order frame clients := by
  rw [frameTargets, frameTargets, macs]

theorem footprint_chosen {thread : Thread} {state other : Threads}
    (agree : ∀ place ∈ (footprint thread state).reads, other.look place = state.look place) :
    footprint thread other = footprint thread state := by
  have here := agree (.point thread) List.mem_cons_self
  cases thread with
  | net =>
      have same : other.net = state.net := here
      simp only [footprint, same]
      cases net : state.net with
      | create record arrival =>
          have next : other.server.next = state.server.next :=
            agree .next (by simp [footprint, net, Net.reads])
          rw [next]
      | _ => rfl
  | veth =>
      have same : other.veth = state.veth := here
      simp only [footprint, same]
  | poll =>
      have same : other.poll = state.poll := here
      simp only [footprint, same]

theorem netAccess_depends (order : ByteOrder) {state other : Threads} (arrival : Arrival)
    (agree : ∀ place ∈ (footprint .net state).reads, other.look place = state.look place) :
    ∀ place ∈ (footprint .net state).writes,
      (other.netAccess order arrival).look place = (state.netAccess order arrival).look place := by
  obtain ⟨server, locks, net, veth, poll⟩ := state
  obtain ⟨server', locks', net', veth', poll'⟩ := other
  obtain rfl : net' = net := agree (.point .net) List.mem_cons_self
  replace agree : ∀ place ∈ net'.reads, look ⟨server', locks', net', veth', poll'⟩ place =
    look ⟨server, locks, net', veth, poll⟩ place :=
    fun place read => agree place (List.mem_cons_of_mem _ read)
  intro place written
  rcases List.mem_cons.mp written with rfl | written
  · -- where the thread goes
    cases net' with
    | recv =>
        have constants := agree .constants (List.mem_singleton_self _)
        have crypto : server'.crypto = server.crypto := congrArg (fun all => all.2.2) constants
        change arrive order server'.crypto arrival = arrive order server.crypto arrival
        rw [crypto]
    | allocate arrival request =>
        have pool : server'.pool = server.pool := agree .addresses (List.mem_singleton_self _)
        change Net.allocateUnlock _ _ = Net.allocateUnlock _ _
        rw [pool]
    | create record arrival =>
        have next : server'.next = server.next := agree .next (List.mem_singleton_self _)
        change Net.registerClaim _ = Net.registerClaim _
        rw [next]
    | heartbeatFind arrival id =>
        have ids : server'.dict.id = server.dict.id := agree .id (List.mem_singleton_self _)
        simp only [netAccess, ids]
        split <;> rfl
    | _ => rfl
  · cases net' with
    | allocate arrival request =>
        have pool : server'.pool = server.pool := agree .addresses (List.mem_singleton_self _)
        obtain rfl := List.mem_singleton.mp written
        change (server'.pool.allocateAddress order).2 = (server.pool.allocateAddress order).2
        rw [pool]
    | create record arrival =>
        have next : server'.next = server.next := agree .next (List.mem_singleton_self _)
        simp only [Net.writes, List.mem_cons, List.not_mem_nil, or_false] at written
        rcases written with rfl | rfl | rfl | rfl
        all_goals simp [look, netAccess, newClient, next]
    | register pending =>
        have ids : server'.dict.id = server.dict.id := agree .id (by simp [Net.reads])
        have macs : server'.dict.mac = server.dict.mac := agree .mac (by simp [Net.reads])
        have session := agree (.session pending.info) (by simp [Net.reads])
        have tun : (server'.client pending.info).tun = (server.client pending.info).tun :=
          congrArg Prod.fst session
        have identity : (server'.client pending.info).identity =
            (server.client pending.info).identity := congrArg Prod.snd session
        simp only [Net.writes, List.mem_cons, List.not_mem_nil, or_false] at written
        rcases written with rfl | rfl
        · simp [look, netAccess, registerClient, ids, identity]
        · simp [look, netAccess, registerClient, macs, tun]
    | clientWrite arrival info =>
        have address : (server'.client info).address = (server.client info).address :=
          agree (.address info) (by simp [Net.reads])
        simp only [Net.writes, List.mem_cons, List.not_mem_nil, or_false] at written
        rcases written with rfl | rfl
        · simp [look, netAccess, refreshClient]
        · simp [look, netAccess, refreshClient, address]
    | _ => cases written

theorem vethAccess_depends (order : ByteOrder) {state other after : Threads} {frame : Bytes}
    {clients : List Ptr} (taken : state.vethAccess order frame clients = some after)
    (agree : ∀ place ∈ (footprint .veth state).reads, other.look place = state.look place) :
    ∃ last, other.vethAccess order frame clients = some last ∧
      ∀ place ∈ (footprint .veth state).writes, last.look place = after.look place := by
  obtain ⟨server, locks, net, veth, poll⟩ := state
  obtain ⟨server', locks', net', veth', poll'⟩ := other
  obtain rfl : veth' = veth := agree (.point .veth) List.mem_cons_self
  have only : ∀ place ∈ (footprint .veth ⟨server, locks, net, veth', poll⟩).writes,
      place = .point .veth := fun place written => List.mem_singleton.mp written
  cases veth' with
  | read =>
      simp only [vethAccess] at taken ⊢
      split at taken <;> cases taken
      · rename_i short
        refine ⟨_, if_pos short, fun place written => ?_⟩
        rw [only place written]
        rfl
      · rename_i long
        refine ⟨_, if_neg long, fun place written => ?_⟩
        rw [only place written]
        rfl
  | find wanted =>
      have macs : server'.dict.mac = server.dict.mac := agree .mac (by simp [footprint, VethPoint.reads])
      simp only [vethAccess] at taken ⊢
      split at taken <;> cases taken
      rename_i iterated
      rw [← macs] at iterated
      refine ⟨_, if_pos iterated, fun place written => ?_⟩
      rw [only place written]
      change VethPoint.loop _ _ = VethPoint.loop _ _
      rw [frameTargets_congr macs]
  | _ =>
      cases taken
      refine ⟨_, rfl, fun place written => ?_⟩
      rw [only place written]
      rfl

theorem pollAccess_depends {state other after : Threads} {now : Int}
    {entries : List (UInt32 × Ptr)} (taken : state.pollAccess now entries = some after)
    (agree : ∀ place ∈ (footprint .poll state).reads, other.look place = state.look place) :
    ∃ last, other.pollAccess now entries = some last ∧
      ∀ place ∈ (footprint .poll state).writes, last.look place = after.look place := by
  obtain ⟨server, locks, net, veth, poll⟩ := state
  obtain ⟨server', locks', net', veth', poll'⟩ := other
  obtain rfl : poll' = poll := agree (.point .poll) List.mem_cons_self
  replace agree : ∀ place ∈ poll'.reads, look ⟨server', locks', net', veth', poll'⟩ place =
    look ⟨server, locks, net, veth, poll'⟩ place :=
    fun place read => agree place (List.mem_cons_of_mem _ read)
  cases poll' with
  | begin =>
      have ids : server'.dict.id = server.dict.id := agree .id (by simp [PollPoint.reads])
      simp only [pollAccess] at taken ⊢
      split at taken <;> cases taken
      rename_i iterated
      rw [← ids] at iterated
      refine ⟨_, if_pos iterated, fun place written => ?_⟩
      obtain rfl := List.mem_singleton.mp written
      rfl
  | visit at_clock left =>
      cases left with
      | nil =>
          cases taken
          refine ⟨_, rfl, fun place written => ?_⟩
          obtain rfl := List.mem_singleton.mp written
          rfl
      | cons entry left =>
          have ids : server'.dict.id = server.dict.id := agree .id (by simp [PollPoint.reads])
          have macs : server'.dict.mac = server.dict.mac := agree .mac (by simp [PollPoint.reads])
          have session := agree (.session entry.2) (by simp [PollPoint.reads])
          have tun : (server'.client entry.2).tun = (server.client entry.2).tun :=
            congrArg Prod.fst session
          have alive : (server'.client entry.2).alive = (server.client entry.2).alive :=
            agree (.alive entry.2) (by simp [PollPoint.reads])
          have same : server'.Expired at_clock entry.2 ↔ server.Expired at_clock entry.2 := by
            rw [Expired, Expired, alive]
          simp only [pollAccess] at taken ⊢
          split at taken <;> cases taken
          · rename_i expired
            refine ⟨_, if_pos (same.mpr expired), fun place written => ?_⟩
            simp only [footprint, PollPoint.writes, List.mem_cons, List.not_mem_nil, or_false] at written
            rcases written with rfl | rfl | rfl
            · rfl
            · simp [look, eraseClient, ids]
            · simp [look, eraseClient, macs, tun]
          · rename_i kept
            refine ⟨_, if_neg (fun expired => kept (same.mp expired)), fun place written => ?_⟩
            simp only [footprint, PollPoint.writes, List.mem_cons, List.not_mem_nil, or_false] at written
            rcases written with rfl | rfl | rfl
            · rfl
            · exact ids
            · exact macs
  | release at_clock info left =>
      cases taken
      have pool : server'.pool = server.pool := agree .addresses (by simp [PollPoint.reads])
      have session := agree (.session info) (by simp [PollPoint.reads])
      have tun : (server'.client info).tun = (server.client info).tun := congrArg Prod.fst session
      refine ⟨_, rfl, fun place written => ?_⟩
      simp only [footprint, PollPoint.writes, List.mem_cons, List.not_mem_nil, or_false] at written
      rcases written with rfl | rfl
      · rfl
      · simp [look, releaseClient, pool, tun]
  | delete at_clock info left =>
      cases taken
      have deleted : server'.deleted = server.deleted := agree .deleted (by simp [PollPoint.reads])
      refine ⟨_, rfl, fun place written => ?_⟩
      rcases List.mem_cons.mp written with rfl | written
      · rfl
      have kept := agree place written
      simp only [PollPoint.writes, List.mem_cons, List.not_mem_nil, or_false] at written
      rcases written with rfl | rfl | rfl | rfl
      · simp [look, deleteClient, deleted]
      all_goals exact kept
  | _ =>
      cases taken
      refine ⟨_, rfl, fun place written => ?_⟩
      obtain rfl := List.mem_singleton.mp written
      rfl

theorem access_respects (order : ByteOrder) (event : Event) :
    Respects (fun place state => look state place) (footprint event.thread)
      (fun state => state.access order event) where
  frame state after taken := by
    cases event with
    | net arrival =>
        cases taken
        exact netAccess_frame order state arrival
    | veth frame clients => exact vethAccess_frame taken
    | poll now entries => exact pollAccess_frame taken
  chosen state other agree := footprint_chosen agree
  depends state other after taken agree := by
    cases event with
    | net arrival =>
        cases taken
        exact ⟨_, rfl, netAccess_depends order arrival agree⟩
    | veth frame clients => exact vethAccess_depends order taken agree
    | poll now entries => exact pollAccess_depends taken agree

end Threads

end Muddymask
