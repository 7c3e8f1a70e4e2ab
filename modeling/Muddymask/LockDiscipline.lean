import Muddymask.LockRefinement

/-!
The lock discipline of the server: no thread comes to a record that is deleted,
no dictionary leads to one, and the three threads never block each other in a
circle. The first two are read off the machine of sections; the last one is the
order `dict.mutex`, then the mutex of a client, then `pool.mutex`.
-/

namespace Muddymask

open Words TunnelServer ReaderWriter

namespace Threads

theorem registered_live {order : ByteOrder} {state : Threads} (disciplined : Disciplined order state)
    {info : Ptr} (registered : state.server.Registered info) : state.server.Live info := by
  have sound := sound_reached disciplined.reached
  have there : state.abstract.server.Registered info := by
    simpa only [Registered, abstract, created_dict] using registered
  exact (created_live (older sound (Or.inl registered))).mp (sound.live info there)

theorem removing_live {order : ByteOrder} {state : Threads} (disciplined : Disciplined order state)
    {info : Ptr} (removing : state.poll.abstract.removing = some info) : state.server.Live info := by
  have sound := sound_reached disciplined.reached
  exact (created_live (older sound (Or.inr removing))).mp (sound.removingLive info removing)

theorem touches_live {order : ByteOrder} {state : Threads} (disciplined : Disciplined order state)
    {thread : Thread} {info : Ptr} (touches : state.touches thread = some info) :
    state.server.Live info := by
  have sound := sound_reached disciplined.reached
  have netKnown := disciplined.netKnown
  have vethKnown := disciplined.vethKnown
  have byIdentity : ∀ id, state.server.dict.id.find id = some info → state.server.Live info :=
    fun id found => registered_live disciplined
      (Or.inl ⟨id, (UnorderedMap.mem_iff_find _ _ _).mpr found⟩)
  have byMac : (∃ mac, (mac, info) ∈ state.server.dict.mac.entries) → state.server.Live info :=
    fun listed => registered_live disciplined (Or.inr listed)
  obtain ⟨server, locks, net, veth, poll⟩ := state
  cases thread with
  | net =>
      cases net <;> cases touches
      case net.register.refl pending => exact sound.pendingLive pending rfl
      case net.clientUnlock.refl =>
        obtain ⟨id, found⟩ := netKnown
        exact byIdentity id found
      all_goals
        obtain ⟨id, _, found⟩ := netKnown
        exact byIdentity id found
  | veth =>
      cases veth <;> cases touches
      all_goals exact byMac (vethKnown info (List.mem_cons_self ..))
  | poll =>
      cases poll with
      | visit now entries =>
          cases entries with
          | nil => cases touches
          | cons entry entries =>
              cases touches
              have present := sound.remaining entry (List.mem_cons_self ..)
              exact registered_live disciplined (Or.inl ⟨entry.1, by simpa [abstract] using present⟩)
      | releaseLock | release | delete =>
          cases touches
          exact removing_live disciplined rfl
      | _ => cases touches

theorem step_deleted {order : ByteOrder} {state : Threads} (disciplined : Disciplined order state)
    {info : Ptr} (gone : info ∈ state.server.deleted) (record : ClientInfo) (event : Event) :
    step order (state.setClient info record) event =
      (step order state event).map fun after => after.setClient info record := by
  have sound := sound_reached disciplined.reached
  have deleted : info ∈ state.abstract.server.deleted := by simpa [abstract] using gone
  have past : info ≠ state.server.next := by
    rintro rfl
    cases waiting : state.net.record with
    | none =>
        have below := sound.old _ deleted
        simp [abstract, waiting, created] at below
    | some new =>
        obtain ⟨pending, isPending, isNext⟩ := Net.record_pending waiting state.server.next
        exact (sound.pendingLive pending isPending).2 (isNext ▸ deleted)
  exact step_untouched order state event record past
    fun touches => (touches_live disciplined touches).2 gone

def level : Lock → Nat
  | .dict => 0
  | .client _ => 1
  | .pool => 2

theorem level_le (lock : Lock) : level lock ≤ 2 := by
  cases lock <;> simp [level]

theorem ordered (state : Threads) (thread : Thread) :
    Ordered level (state.holds thread) (state.op thread) := by
  obtain ⟨server, locks, net, veth, poll⟩ := state
  cases thread with
  | net => cases net <;> simp [Ordered, level, holds, Net.holds, op, Net.op]
  | veth => cases veth <;> simp [Ordered, level, holds, VethPoint.holds, op, VethPoint.op]
  | poll => cases poll <;> simp [Ordered, level, holds, PollPoint.holds, op, PollPoint.op]

/-- In every state that any interleaving reaches: a thread touches existing
records only, the dictionaries lead to existing records only, and no threads are
blocked on locks that others of them hold or have claimed. -/
theorem lock_discipline {order : ByteOrder} {mac : { mac : Bytes // mac.length = 6 }}
    {secret : Bytes} {random : UInt32} {state : Threads}
    (reached : Runs.Reachable (step order) (init order mac secret random) state) :
    (∀ thread info, state.touches thread = some info → state.server.Live info) ∧
    (∀ info, state.server.Registered info → state.server.Live info) ∧
    ∀ threads, ¬ Deadlock state.locks state.op threads := by
  have disciplined := disciplined_reached reached
  refine ⟨fun thread info => touches_live disciplined, fun info => registered_live disciplined, ?_⟩
  exact no_deadlock disciplined.agrees level_le (ordered state)

/-- A registered client gets a broadcast frame while its heartbeat and a sweep wait. -/
def contention : List Event :=
  let request : Arrival := { peer := plainPeer, datagram := plainRequest 7, random := 11, time := 0 }
  let heartbeat : Arrival := { request with datagram := plainHeartbeat 11 }
  List.replicate 9 (.net request) ++ List.replicate 4 (.veth (List.replicate 18 255) [0]) ++
    List.replicate 4 (.net heartbeat) ++ List.replicate 2 (.poll 0 [])

theorem lock_discipline_contended : ∃ state,
    Runs.Reachable (step .little) (init .little ⟨[2, 0, 0, 0, 0, 1], rfl⟩ [] 5) state ∧
    state.holds .net = [(.client 0, .exclusive), (.dict, .shared)] ∧
    state.holds .veth = [(.client 0, .shared), (.dict, .shared)] ∧
    state.holds .poll = [(.dict, .exclusive)] ∧
    (∀ thread info, state.touches thread = some info → state.server.Live info) ∧
    (∀ info, state.server.Registered info → state.server.Live info) ∧
    ∀ threads, ¬ Deadlock state.locks state.op threads := by
  have computed : (Runs.run (step .little) (init .little ⟨[2, 0, 0, 0, 0, 1], rfl⟩ [] 5)
      contention).map (fun state => (state.holds .net, state.holds .veth, state.holds .poll)) =
      some ([(.client 0, .exclusive), (.dict, .shared)], [(.client 0, .shared), (.dict, .shared)],
        [(.dict, .exclusive)]) := by
    decide +kernel
  obtain ⟨state, past, held⟩ := Option.map_eq_some_iff.mp computed
  simp only [Prod.mk.injEq] at held
  have reached : Runs.Reachable (step .little) (init .little ⟨[2, 0, 0, 0, 0, 1], rfl⟩ [] 5) state :=
    ⟨contention, past⟩
  exact ⟨state, reached, held.1, held.2.1, held.2.2, lock_discipline reached⟩

end Threads

end Muddymask
