import Mathlib.Data.List.Nodup
import Muddymask.Sweep

/-!
The clock of a session over whole runs. `alive` is the reading of the last
refresh that was handled for the session: the one `startSession` took when it
made the record, or the one of the last well-formed heartbeat for its identity.
A sweep therefore removes exactly the sessions whose last refresh is 45 seconds
old, and each of them once.
-/

namespace Muddymask

open Words TunnelServer Machine

/-- The clock reading that an event takes for the session `(id, info)`. -/
def refreshedAt (order : ByteOrder) (id : UInt32) (info : Ptr) (machine : Machine) :
    Event → Option Int
  | .datagram _ datagram _ time =>
      let server := machine.server
      if (sessionRequest order server.crypto datagram).isSome ∧
          (server.pool.allocateAddress order).1 ≠ 0 ∧ server.next = info then some time
      else if heartbeatIdentity order server.crypto datagram = some id then some time
      else none
  | _ => none

/-- All of them in the order they were taken. -/
def refreshTimes (order : ByteOrder) (id : UInt32) (info : Ptr) :
    Machine → List Event → List Int :=
  Runs.observed (next order) (refreshedAt order id info)

/-- Every record that is registered or about to be has the time of its last refresh. -/
structure Clocked (order : ByteOrder) (start : Machine) (events : List Event)
    (machine : Machine) : Prop where
  registered : ∀ id info, (id, info) ∈ machine.server.dict.id.entries →
    (refreshTimes order id info start events).getLast? = some (machine.server.client info).alive
  pending : ∀ pending, machine.net = some pending →
    (refreshTimes order (machine.server.client pending.info).identity pending.info start
      events).getLast? = some (machine.server.client pending.info).alive

theorem clocked_quiet {order : ByteOrder} {id : UInt32} {info : Ptr} {start before : Machine}
    {events : List Event} {event : Event} {alive : Int}
    (past : Runs.run (next order) start events = some before)
    (quiet : refreshedAt order id info before event = none)
    (clocked : (refreshTimes order id info start events).getLast? = some alive) :
    (refreshTimes order id info start (events ++ [event])).getLast? = some alive := by
  rw [refreshTimes, Runs.observed_concat _ _ _ _ _ past, quiet]
  simpa [refreshTimes] using clocked

theorem clocked_refresh {order : ByteOrder} {id : UInt32} {info : Ptr} {start before : Machine}
    {events : List Event} {event : Event} {time : Int}
    (past : Runs.run (next order) start events = some before)
    (refreshed : refreshedAt order id info before event = some time) :
    (refreshTimes order id info start (events ++ [event])).getLast? = some time := by
  rw [refreshTimes, Runs.observed_concat _ _ _ _ _ past, refreshed]
  simp

/-- Steps that take no reading and leave the records that count as they were. -/
theorem clocked_same {order : ByteOrder} {start before after : Machine} {events : List Event}
    {event : Event} (past : Runs.run (next order) start events = some before)
    (clocked : Clocked order start events before)
    (quiet : ∀ id info, refreshedAt order id info before event = none)
    (sameClient : after.server.client = before.server.client)
    (entries : ∀ entry, entry ∈ after.server.dict.id.entries → entry ∈ before.server.dict.id.entries ∨
      ∃ pending, before.net = some pending ∧
        entry = ((before.server.client pending.info).identity, pending.info))
    (net : ∀ pending, after.net = some pending → before.net = some pending) :
    Clocked order start (events ++ [event]) after where
  registered := by
    intro id info member
    rw [sameClient]
    apply clocked_quiet past (quiet id info)
    rcases entries _ member with old | ⟨pending, waiting, new⟩
    · exact clocked.registered id info old
    · cases new
      exact clocked.pending pending waiting
  pending := by
    intro pending waiting
    rw [sameClient]
    exact clocked_quiet past (quiet _ _) (clocked.pending pending (net pending waiting))

theorem clocked_change {order : ByteOrder} {start before after : Machine} {events : List Event}
    {event : Event} (past : Runs.run (next order) start events = some before)
    (sound : Sound before) (clocked : Clocked order start events before)
    (change : Change order before event after) : Clocked order start (events ++ [event]) after := by
  cases change with
  | dropped idle unasked unknown =>
      refine { registered := fun id info member => ?_, pending := by simp [idle] }
      -- A heartbeat is dropped only if no session has its identity.
      have known := (UnorderedMap.mem_iff_find _ _ _).mp member
      have unheard : ∀ datagram, heartbeatIdentity order before.server.crypto datagram = some id →
          before.server.dict.id.find id ≠ none := by simp [known]
      apply clocked_quiet past _ (clocked.registered id info member)
      simp only [refreshedAt, unasked, Option.isSome_none, Bool.false_eq_true, false_and,
        ↓reduceIte, ite_eq_right_iff, reduceCtorEq, imp_false]
      exact fun heard => unheard _ heard (unknown id heard)
  | refused request idle asked exhausted =>
      refine clocked_same past clocked (fun id info => ?_) rfl (fun _ => Or.inl) (fun _ => id)
      simp [refreshedAt, exhausted, heartbeat_no_request asked]
  | opened request idle asked allocated =>
      constructor
      · intro id info member
        have different : info ≠ before.server.next :=
          Nat.ne_of_lt (sound.live info (Or.inl ⟨id, member⟩)).1
        have kept := clocked.registered id info member
        simp only [opened, newClient_client, different, ↓reduceIte]
        apply clocked_quiet past _ kept
        simp [refreshedAt, heartbeat_no_request asked, different.symm]
      · intro pending waiting
        cases waiting
        simp only [opened, newClient_client, ↓reduceIte]
        apply clocked_refresh past
        simp [refreshedAt, asked, allocated]
  | refreshed id info idle heard known =>
      have unasked : sessionRequest order before.server.crypto _ = none :=
        heartbeat_not_request heard
      refine { registered := fun other target member => ?_, pending := by simp [idle] }
      by_cases same : other = id
      · subst same
        have found := (UnorderedMap.mem_iff_find _ _ _).mp member
        cases Option.some.inj (found.symm.trans known)
        simp only [refreshClient, setClient_client, ↓reduceIte]
        apply clocked_refresh past
        simp [refreshedAt, unasked, heard]
      · have entry := (UnorderedMap.mem_iff_find _ _ _).mpr known
        -- The identity in a record is its key, so no other session has this record.
        have different : target ≠ info := by
          rintro rfl
          exact same ((sound.idKey _ _ member).symm.trans (sound.idKey _ _ entry))
        simp only [refreshClient, setClient_client, different, ↓reduceIte]
        apply clocked_quiet past _ (clocked.registered other target member)
        simp [refreshedAt, unasked, heard, Ne.symm same]
  | registered pending waiting =>
      refine clocked_same past clocked (fun _ _ => rfl) rfl (fun entry member => ?_) (by simp)
      rcases (mem_register_id ..).mp member with old | ⟨_, new⟩
      · exact Or.inl old
      · exact Or.inr ⟨pending, waiting, new⟩
  | erased at_entry =>
      exact clocked_same past clocked (fun _ _ => rfl) rfl
        (fun entry member => Or.inl ((mem_erase_id ..).mp member).1) (fun _ => id)
  | _ => exact clocked_same past clocked (fun _ _ => rfl) rfl (fun _ => Or.inl) (fun _ => id)

theorem clocked_run {order : ByteOrder} {mac : { mac : Bytes // mac.length = 6 }}
    {secret : Bytes} {random : UInt32} {events : List Event} {machine : Machine}
    (past : Runs.run (next order) (init order mac secret random) events = some machine) :
    Clocked order (init order mac secret random) events machine := by
  induction events using List.reverseRecOn generalizing machine with
  | nil =>
      cases (Runs.run_nil ..).mp past
      constructor <;> simp [init, TunnelServer.new, UnorderedMap.empty]
  | append_singleton earlier event ih =>
      obtain ⟨before, reached, taken⟩ := (Runs.run_concat ..).mp past
      exact clocked_change reached (sound_reached ⟨mac, secret, random, earlier, reached⟩)
        (ih reached) (next_change taken)

theorem expired_nodup {machine : Machine} (sound : Sound machine) (now : Int)
    {entries : List (UInt32 × Ptr)} (iterated : entries.Perm machine.server.dict.id.entries) :
    ((expired machine.server now entries).map Prod.snd).Nodup := by
  have nodup := iterated.nodup_iff.mpr (UnorderedMap.entries_nodup _)
  refine List.Nodup.map_on ?_ (nodup.filter _)
  intro left leftMember right rightMember same
  have leftKey := sound.idKey left.1 left.2 (iterated.mem_iff.mp (mem_expired.mp leftMember).1)
  have rightKey := sound.idKey right.1 right.2 (iterated.mem_iff.mp (mem_expired.mp rightMember).1)
  exact Prod.ext (by rw [← leftKey, ← rightKey, same]) same

/-- A sweep at `now` after any run. -/
theorem expiry_exact (order : ByteOrder) (mac : { mac : Bytes // mac.length = 6 })
    (secret : Bytes) (random : UInt32) (events : List Event) (machine : Machine)
    (past : Runs.run (next order) (init order mac secret random) events = some machine)
    (now : Int) (entries : List (UInt32 × Ptr))
    (iterated : entries.Perm machine.server.dict.id.entries) :
    let before := machine.server
    let after := before.removeZombieClient now entries
    (∀ id info, (id, info) ∈ after.dict.id.entries ↔ (id, info) ∈ before.dict.id.entries ∧
      ∃ t, (refreshTimes order id info (init order mac secret random) events).getLast? = some t ∧
        now - t < 45) ∧
    (∀ id info, (id, info) ∈ after.dict.id.entries → after.client info = before.client info) ∧
    ∃ removed : List Ptr, removed.Nodup ∧
      (∀ info, info ∈ removed ↔ ∃ id, (id, info) ∈ before.dict.id.entries ∧
        (id, info) ∉ after.dict.id.entries) ∧
      (∀ info ∈ removed, info ∉ before.deleted) ∧
      after.deleted = removed ++ before.deleted ∧
      after.pool.free = (removed.map fun info => (before.client info).tun.ip) ++ before.pool.free ∧
      ∀ entry, entry ∈ after.dict.mac.entries ↔ entry ∈ before.dict.mac.entries ∧
        ¬ ∃ info ∈ removed, (entry.1 == (before.client info).tun.mac) = true := by
  intro before after
  have sound := sound_reached ⟨mac, secret, random, events, past⟩
  have clocked := clocked_run past
  have swept := sweep_swept before now entries
  have removedIff := mem_removed before now iterated
  refine ⟨fun id info => ?_, fun id info _ => by rw [swept.client], _,
    List.nodup_reverse.mpr (expired_nodup sound now iterated), removedIff, ?_, swept.deleted, ?_, ?_⟩
  · rw [mem_sweep_id before now iterated]
    refine and_congr_right fun present => ?_
    simp only [clocked.registered id info present, Option.some.injEq, exists_eq_left', Expired,
      not_not]
    rfl
  · intro info member gone
    obtain ⟨id, present, _⟩ := (removedIff info).mp member
    exact (sound.live info (Or.inl ⟨id, present⟩)).2 gone
  · rw [swept.free, List.map_reverse, List.map_map]
    rfl
  · intro entry
    rw [swept.mac]
    simp only [List.mem_reverse, List.mem_map, Bool.not_eq_true, not_exists, not_and]
    refine and_congr_right fun _ => ⟨?_, ?_⟩
    · rintro apart info ⟨gone, member, rfl⟩
      exact apart gone member
    · exact fun apart gone member => apart gone.2 ⟨gone, member, rfl⟩

/-- The first session was refreshed at 40, the second at 1. -/
theorem expiry_exact_beaten : ∃ machine,
    Runs.run (next .little) plainServer (plainClients.take 5) = some machine ∧
    machine.server.dict.id.entries = [(12, 1), (11, 0)] ∧
    let after := machine.server.removeZombieClient 46 [(11, 0), (12, 1)]
    (11, 0) ∈ after.dict.id.entries ∧ (12, 1) ∉ after.dict.id.entries ∧
      1 ∈ after.deleted ∧ (machine.server.client 1).tun.ip ∈ after.pool.free := by
  have computed : (Runs.run (next .little) plainServer (plainClients.take 5)).map (fun machine =>
      (machine.server.dict.id.entries,
        (refreshTimes .little 11 0 plainServer (plainClients.take 5)).getLast?,
        (refreshTimes .little 12 1 plainServer (plainClients.take 5)).getLast?)) =
      some ([(12, 1), (11, 0)], some 40, some 1) := by
    decide +kernel
  obtain ⟨machine, past, seen⟩ := Option.map_eq_some_iff.mp computed
  simp only [Prod.mk.injEq] at seen
  obtain ⟨entries, first, second⟩ := seen
  have iterated : [(11, 0), (12, 1)].Perm machine.server.dict.id.entries := by
    rw [entries]
    exact List.Perm.swap ..
  obtain ⟨stays, _, removed, _, goes, _, deleted, free, _⟩ :=
    expiry_exact .little _ _ _ _ machine past 46 _ iterated
  have expires : (12, 1) ∉ (machine.server.removeZombieClient 46
      [(11, 0), (12, 1)]).dict.id.entries := by
    intro there
    obtain ⟨_, t, last, fresh⟩ := (stays 12 1).mp there
    cases second.symm.trans last
    exact absurd fresh (by decide)
  have gone : 1 ∈ removed := (goes 1).mpr ⟨12, by simp [entries], expires⟩
  refine ⟨machine, past, entries, (stays 11 0).mpr ⟨by simp [entries], 40, first, by decide⟩,
    expires, ?_, ?_⟩
  · rw [deleted]
    exact List.mem_append_left _ gone
  · rw [free]
    exact List.mem_append_left _ (List.mem_map_of_mem gone)

end Muddymask
