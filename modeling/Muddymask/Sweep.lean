import Muddymask.Registry
import Muddymask.Turns

/-!
What one sweep of `removeZombieClient` does, whatever the order in which it
meets the entries: the clients of the records do not change while it runs, so
it removes exactly the entries that are expired when it begins. With the entry
of `dict.mac` erased by its key, the removal of one session cuts off every
other that has the same MAC.
-/

namespace Muddymask

open Words TunnelServer Machine

/-- The entries a sweep at `now` removes, in the order it meets them. -/
def expired (server : TunnelServer) (now : Int) (entries : List (UInt32 × Ptr)) :
    List (UInt32 × Ptr) := entries.filter fun entry => decide (server.Expired now entry.2)

theorem mem_expired {server : TunnelServer} {now : Int} {entries : List (UInt32 × Ptr)}
    {entry : UInt32 × Ptr} :
    entry ∈ expired server now entries ↔ entry ∈ entries ∧ server.Expired now entry.2 := by
  simp [expired]

/-- `after` is `before` without the sessions of `removed`, in that order. -/
structure Swept (before after : TunnelServer) (removed : List (UInt32 × Ptr)) : Prop where
  client : after.client = before.client
  next : after.next = before.next
  current : after.pool.current = before.pool.current
  free : after.pool.free =
    (removed.map fun entry => (before.client entry.2).tun.ip).reverse ++ before.pool.free
  deleted : after.deleted = (removed.map Prod.snd).reverse ++ before.deleted
  id : ∀ entry, entry ∈ after.dict.id.entries ↔ entry ∈ before.dict.id.entries ∧
    ∀ gone ∈ removed, entry.1 ≠ gone.1
  mac : ∀ entry, entry ∈ after.dict.mac.entries ↔ entry ∈ before.dict.mac.entries ∧
    ∀ gone ∈ removed, (entry.1 == (before.client gone.2).tun.mac) = false

theorem swept_none (server : TunnelServer) : Swept server server [] :=
  ⟨rfl, rfl, rfl, rfl, rfl, by simp, by simp⟩

theorem swept_remove {before after : TunnelServer} {removed : List (UInt32 × Ptr)}
    (entry : UInt32 × Ptr) (later : Swept (before.removeClient entry) after removed) :
    Swept before after (entry :: removed) where
  client := later.client
  next := later.next
  current := later.current
  free := by
    rw [later.free]
    simp [removeClient, deleteClient, releaseClient, eraseClient, AddressPool.releaseAddress]
  deleted := by
    rw [later.deleted]
    simp [removeClient, deleteClient, releaseClient, eraseClient]
  id := by
    intro other
    have erased : other ∈ (before.removeClient entry).dict.id.entries ↔ _ :=
      mem_erase_id before entry other
    rw [later.id, erased, List.forall_mem_cons, and_assoc]
  mac := by
    intro other
    have erased : other ∈ (before.removeClient entry).dict.mac.entries ↔ _ :=
      mem_erase_mac before entry other
    rw [later.mac, erased, List.forall_mem_cons, and_assoc]
    rfl

/-- Induction over the iteration. No removal changes what is expired later on. -/
theorem sweep_swept (server : TunnelServer) (now : Int) (entries : List (UInt32 × Ptr)) :
    Swept server (server.removeZombieClient now entries) (expired server now entries) := by
  induction entries generalizing server with
  | nil => exact swept_none server
  | cons entry entries ih =>
      by_cases gone : server.Expired now entry.2
      · have later := ih (server.removeClient entry)
        have stable : expired (server.removeClient entry) now entries =
            expired server now entries := rfl
        rw [stable] at later
        simpa [removeZombieClient, expired, gone] using swept_remove entry later
      · simpa [removeZombieClient, expired, gone] using ih server

theorem mem_sweep_id (server : TunnelServer) (now : Int) {entries : List (UInt32 × Ptr)}
    (iterated : entries.Perm server.dict.id.entries) (entry : UInt32 × Ptr) :
    entry ∈ (server.removeZombieClient now entries).dict.id.entries ↔
      entry ∈ server.dict.id.entries ∧ ¬ server.Expired now entry.2 := by
  rw [(sweep_swept server now entries).id]
  refine and_congr_right fun present => ⟨?_, ?_⟩
  · exact fun kept gone => kept entry (mem_expired.mpr ⟨iterated.mem_iff.mpr present, gone⟩) rfl
  · refine fun fresh gone member same => fresh ?_
    -- One key has one entry, so the removed entry with this key is this one.
    obtain ⟨there, old⟩ := mem_expired.mp member
    have first := (UnorderedMap.mem_iff_find _ entry.1 entry.2).mp present
    have second := (UnorderedMap.mem_iff_find _ gone.1 gone.2).mp (iterated.mem_iff.mp there)
    rw [← same, first] at second
    rwa [Option.some.inj second]

theorem mem_removed (server : TunnelServer) (now : Int) {entries : List (UInt32 × Ptr)}
    (iterated : entries.Perm server.dict.id.entries) (info : Ptr) :
    info ∈ ((expired server now entries).map Prod.snd).reverse ↔
      ∃ id, (id, info) ∈ server.dict.id.entries ∧
        (id, info) ∉ (server.removeZombieClient now entries).dict.id.entries := by
  simp only [List.mem_reverse, List.mem_map, mem_expired, Prod.exists, exists_eq_right,
    iterated.mem_iff]
  exact exists_congr fun id => and_congr_right fun present => by
    simp [mem_sweep_id server now iterated, present]

theorem sweep_dict_congr {server other : TunnelServer} (now : Int)
    (entries : List (UInt32 × Ptr)) (sameDict : other.dict = server.dict)
    (sameClient : ∀ entry ∈ entries, other.client entry.2 = server.client entry.2) :
    (other.removeZombieClient now entries).dict = (server.removeZombieClient now entries).dict := by
  induction entries generalizing server other with
  | nil => exact sameDict
  | cons entry entries ih =>
      have sameHead := sameClient entry (by simp)
      have sameTail : ∀ later ∈ entries, other.client later.2 = server.client later.2 :=
        fun later member => sameClient later (by simp [member])
      have sameExpiry : other.Expired now entry.2 ↔ server.Expired now entry.2 := by
        simp [Expired, sameHead]
      simp only [removeZombieClient, List.foldl_cons, sameExpiry]
      split
      · refine ih ?_ sameTail
        simp [removeClient, deleteClient, releaseClient, eraseClient, sameDict, sameHead]
      · exact ih sameDict sameTail

/-- The dictionaries that the sweep under way is about to leave. -/
def outcome (machine : Machine) : Dict :=
  match machine.poll with
  | .sleep => machine.server.dict
  | .sweep now entries | .release now _ entries | .delete now _ entries =>
      (machine.server.removeZombieClient now entries).dict

/-- No thread can get at what a sweep still has to look at. -/
theorem outcome_change {order : ByteOrder} {machine after : Machine} {event : Event}
    (sound : Sound machine) (change : Change order machine event after)
    (busy : machine.poll ≠ .sleep) : outcome after = outcome machine := by
  cases change with
  | refreshed _ _ _ _ _ asleep | registered _ _ asleep | swept asleep =>
      exact absurd ((asleep_iff _).mp asleep) busy
  | opened =>
      -- A record that is made meanwhile is in none of the entries.
      have old : ∀ entry ∈ machine.poll.entries, entry.2 ≠ machine.server.next := by
        intro entry member
        have live := sound.live entry.2 (Or.inl ⟨entry.1, sound.remaining entry member⟩)
        exact Nat.ne_of_lt live.1
      cases poll : machine.poll with
      | sleep => exact absurd poll busy
      | _ =>
          simp only [outcome, poll]
          refine sweep_dict_congr _ _ rfl fun entry member => ?_
          have different := old entry (by simpa [poll, Poll.entries] using member)
          simp [opened, different]
  | erased at_entry expired =>
      simp only [outcome, at_entry, removeZombieClient, List.foldl_cons, expired, ↓reduceIte]
      exact sweep_dict_congr _ _ rfl fun _ _ => rfl
  | spared at_entry alive =>
      simp [outcome, at_entry, removeZombieClient, alive]
  | awoke at_end => simp [outcome, at_end, removeZombieClient]
  | released at_release =>
      simp only [outcome, at_release]
      exact sweep_dict_congr _ _ rfl fun _ _ => rfl
  | deleted at_delete =>
      simp only [outcome, at_delete]
      exact sweep_dict_congr _ _ rfl fun _ _ => rfl
  | refused =>
      cases poll : machine.poll with
      | sleep => exact absurd poll busy
      | _ =>
          simp only [outcome, poll]
          exact sweep_dict_congr _ _ rfl fun _ _ => rfl
  | _ => rfl

/-- Whatever falls into a sweep, at its end the dictionaries are as
`removeZombieClient` alone would have left them. -/
theorem sweep_uninterrupted {order : ByteOrder} {machine after : Machine}
    (reached : Reached order machine) (now : Int) (entries : List (UInt32 × Ptr))
    (during : List Event)
    (past : Runs.run (next order) machine (.sweep now entries :: during) = some after)
    (within : Runs.Along (next order) (fun machine _ => machine.poll ≠ .sleep)
      { machine with poll := .sweep now entries } during)
    (done : after.poll = .sleep) :
    after.server.dict = (machine.server.removeZombieClient now entries).dict := by
  obtain ⟨begun, taken, later⟩ := (Runs.run_cons ..).mp past
  cases next_change taken with
  | swept asleep reading iterated =>
      have sound := sound_change (sound_reached reached) (next_change taken)
      have kept := Runs.final_of_along
        (fun state => Sound state ∧ outcome state =
          (machine.server.removeZombieClient now entries).dict)
        (fun machine _ => machine.poll ≠ .sleep)
        (fun before event after both busy taken =>
          ⟨sound_change both.1 (next_change taken),
            (outcome_change both.1 (next_change taken) busy).trans both.2⟩)
        _ after during ⟨sound, rfl⟩ later within
      simpa [outcome, done] using kept.2

theorem swept_route {before after : TunnelServer} {removed : List (UInt32 × Ptr)}
    (swept : Swept before after removed) (mac : MacAddress) (info : Ptr)
    (routed : before.dict.mac.find mac = some info) :
    after.dict.mac.find mac = some info ↔
      ∀ gone ∈ removed, ((before.client gone.2).tun.mac == mac) = false := by
  obtain ⟨stored, present, same⟩ := (UnorderedMap.find_eq_some_iff _ _ _).mp routed
  constructor
  · intro kept gone member
    obtain ⟨other, there, hit⟩ := (UnorderedMap.find_eq_some_iff _ _ _).mp kept
    have apart := ((swept.mac _).mp there).2 gone member
    cases clash : (before.client gone.2).tun.mac == mac with
    | false => rfl
    | true => simp [BEq.trans hit (BEq.symm clash)] at apart
  · intro apart
    refine (UnorderedMap.find_eq_some_iff _ _ _).mpr ⟨stored, (swept.mac _).mpr ⟨present, ?_⟩, same⟩
    intro gone member
    cases clash : stored == (before.client gone.2).tun.mac with
    | false => rfl
    | true =>
        have hit := BEq.trans (BEq.symm clash) same
        simp [apart gone member] at hit

/-! The downlink of the survivors. -/

/-- The session of the entry outlives a sweep at `now`, and frames for its MAC
go to the record `route`, which outlives it too. -/
def Survives (server : TunnelServer) (now : Int) (entry : UInt32 × Ptr) (route : Ptr) : Prop :=
  entry ∈ server.dict.id.entries ∧ ¬ server.Expired now entry.2 ∧
    server.dict.mac.find (server.client entry.2).tun.mac = some route ∧
    ¬ server.Expired now route

/-- The sweep that an event starts leaves every surviving session its route. -/
def RoutesKept (machine : Machine) (event : Event) : Prop :=
  ∀ now entries, event = .sweep now entries → ∀ entry route,
    Survives machine.server now entry route →
      (machine.server.removeZombieClient now entries).dict.mac.find
        (machine.server.client entry.2).tun.mac = some route

/-- No session that a sweep finds expired has the MAC of one that survives it. -/
def ExpireApart (machine : Machine) (event : Event) : Prop :=
  ∀ now entries, event = .sweep now entries → ∀ entry route,
    Survives machine.server now entry route →
      ∀ gone ∈ machine.server.dict.id.entries, machine.server.Expired now gone.2 →
        ((machine.server.client gone.2).tun.mac == (machine.server.client entry.2).tun.mac) = false

theorem routes_kept_step {order : ByteOrder} {machine after : Machine} {event : Event}
    (taken : next order machine event = some after) :
    RoutesKept machine event ↔ ExpireApart machine event := by
  refine forall₃_congr fun now entries begins => forall₃_congr fun entry route survives => ?_
  subst begins
  cases next_change taken with
  | swept asleep reading iterated =>
      rw [swept_route (sweep_swept machine.server now entries) _ route survives.2.2.1]
      simp only [mem_expired, iterated.mem_iff, and_imp]

/-- Over a whole run: its sweeps leave every surviving session its route if and
only if none of them finds a session expired that shares its MAC with one. -/
theorem survivors_routed_iff (order : ByteOrder) (mac : { mac : Bytes // mac.length = 6 })
    (secret : Bytes) (random : UInt32) (events : List Event) (final : Machine)
    (past : Runs.run (next order) (init order mac secret random) events = some final) :
    Runs.Along (next order) RoutesKept (init order mac secret random) events ↔
      Runs.Along (next order) ExpireApart (init order mac secret random) events :=
  Runs.along_congr RoutesKept ExpireApart (fun _ _ _ taken => routes_kept_step taken) _ final _ past

/-- A client asks twice and keeps the first session alive; the second one, which
nobody uses, expires. -/
def plainRetry : List Event :=
  plainSession 7 11 0 ++ plainSession 7 12 1 ++
    [.datagram plainPeer (plainHeartbeat 11) 0 40, .sweep 46 [(11, 0), (12, 1)]]

theorem survivors_routed_retry : ∃ final,
    Runs.run (next .little) plainServer plainRetry = some final ∧
      (Runs.Along (next .little) RoutesKept plainServer plainRetry ↔
        Runs.Along (next .little) ExpireApart plainServer plainRetry) := by
  have completes : (Runs.run (next .little) plainServer plainRetry).isSome = true := by
    decide +kernel
  obtain ⟨final, past⟩ := Option.isSome_iff_exists.mp completes
  exact ⟨final, past, survivors_routed_iff .little _ _ _ _ final past⟩

/-- The sweep that removes the second session takes the route of the first with it. -/
theorem survivors_routed_fails : ∃ machine,
    Runs.run (next .little) plainServer (plainRetry.take 5) = some machine ∧
      Survives machine.server 46 (11, 0) 0 ∧
      (machine.server.removeZombieClient 46 [(11, 0), (12, 1)]).dict.mac.find
        (machine.server.client 0).tun.mac = none ∧
      [(11, 0), (12, 1)].Perm machine.server.dict.id.entries := by
  have computed : (Runs.run (next .little) plainServer (plainRetry.take 5)).map (fun machine =>
      ((machine.server.dict.id.entries, (machine.server.client 0).alive),
        machine.server.dict.mac.find (machine.server.client 0).tun.mac,
        (machine.server.removeZombieClient 46 [(11, 0), (12, 1)]).dict.mac.find
          (machine.server.client 0).tun.mac)) =
      some (([(12, 1), (11, 0)], 40), some 0, none) := by
    decide +kernel
  obtain ⟨machine, past, seen⟩ := Option.map_eq_some_iff.mp computed
  simp only [Prod.mk.injEq] at seen
  obtain ⟨⟨entries, alive⟩, route, cut⟩ := seen
  have survives : ¬ machine.server.Expired 46 0 := by simp [Expired, alive]
  refine ⟨machine, past, ⟨by simp [entries], survives, route, survives⟩, cut, ?_⟩
  rw [entries]
  exact List.Perm.swap ..

end Muddymask
