import Muddymask.Registry

/-!
Virtual addresses are neither shared nor, as long as `random()` does not repeat
an identity that is in use, lost. Nothing is needed for the first: the pool and
the records hold the issued addresses between them in every state. For the
second, an address is lost exactly when its record exists outside `dict.id`,
and the only step that brings this about is a registration whose identity is
already taken; the record then stays, and no sweep ever meets it.
-/

namespace Muddymask

open Words TunnelServer Machine

/-- Registered in one of the dictionaries, or on the way there. -/
def InUse (machine : Machine) (info : Ptr) : Prop :=
  machine.server.Registered info ∨ ∃ pending, machine.net = some pending ∧ pending.info = info

theorem removing_of_released {poll : Poll} {info : Ptr} (released : poll.released = some info) :
    poll.removing = some info := by
  cases poll <;> simp_all [Poll.released, Poll.removing]

theorem holds_of_inUse {machine : Machine} (sound : Sound machine) {info : Ptr}
    (used : InUse machine info) : Holds machine info := by
  rcases used with registered | ⟨pending, waiting, rfl⟩
  · exact ⟨sound.live info registered, fun released =>
      sound.removingApart info (removing_of_released released) registered⟩
  · exact ⟨sound.pendingLive pending waiting, fun released =>
      sound.disjoint pending waiting (removing_of_released released)⟩

theorem held_in_range {order : ByteOrder} {machine : Machine} (pooled : Pooled order machine)
    {info : Ptr} (held : Holds machine info) :
    poolLower ≤ ntohl order (machine.server.client info).tun.ip ∧
      ntohl order (machine.server.client info).tun.ip < poolUpper ∧
      (machine.server.client info).tun.ip ∉ machine.server.pool.free := by
  have member : (machine.server.client info).tun.ip ∈ heldAddresses machine := ⟨info, held, rfl⟩
  obtain ⟨host, above, below, same⟩ := pooled.serves.heldIssued _ member
  have limit := pooled.serves.below
  rw [pooled.upper] at limit
  refine ⟨?_, ?_, fun free => pooled.serves.disjoint _ free member⟩
  · rwa [same, ntohl_htonl]
  · rw [same, ntohl_htonl]
    exact UInt32.lt_of_lt_of_le below limit

/-- No virtual address is held twice, in every state of every interleaving. -/
theorem vips_never_shared (order : ByteOrder) (machine : Machine) (reached : Reached order machine) :
    (∀ left right, InUse machine left → InUse machine right → left ≠ right →
      (machine.server.client left).tun.ip ≠ (machine.server.client right).tun.ip) ∧
    (∀ info, InUse machine info →
      poolLower ≤ ntohl order (machine.server.client info).tun.ip ∧
      ntohl order (machine.server.client info).tun.ip < poolUpper ∧
      (machine.server.client info).tun.ip ∉ machine.server.pool.free) ∧
    machine.server.pool.free.Nodup := by
  have sound := sound_reached reached
  have pooled := pooled_reached reached
  refine ⟨?_, ?_, pooled.serves.freeNodup⟩
  · intro left right leftUsed rightUsed different same
    exact different (pooled.apart left right (holds_of_inUse sound leftUsed)
      (holds_of_inUse sound rightUsed) same)
  · exact fun info used => held_in_range pooled (holds_of_inUse sound used)

theorem vips_never_shared_two_sessions : ∃ machine,
    Runs.run (next .little) plainServer (plainSession 7 11 0 ++ plainSession 7 12 1) = some machine ∧
      InUse machine 0 ∧ InUse machine 1 ∧
      (machine.server.client 0).tun.ip ≠ (machine.server.client 1).tun.ip := by
  have computed : (Runs.run (next .little) plainServer
      (plainSession 7 11 0 ++ plainSession 7 12 1)).map (fun machine =>
        machine.server.dict.id.entries) = some [(12, 1), (11, 0)] := by
    decide +kernel
  obtain ⟨machine, past, entries⟩ := Option.map_eq_some_iff.mp computed
  have first : InUse machine 0 := Or.inl (Or.inl ⟨11, by simp [entries]⟩)
  have second : InUse machine 1 := Or.inl (Or.inl ⟨12, by simp [entries]⟩)
  have shared := vips_never_shared .little machine ⟨_, _, _, _, past⟩
  exact ⟨machine, past, first, second, shared.1 0 1 first second (by decide)⟩

/-! Conservation. -/

/-- Every address of the range is still to be handed out, on the stack, or the
address of a session that will expire. -/
def Accounted (order : ByteOrder) (machine : Machine) : Prop :=
  ∀ host, poolLower ≤ host → host < poolUpper →
    machine.server.pool.current ≤ host ∨ htonl order host ∈ machine.server.pool.free ∨
      ∃ id info, (id, info) ∈ machine.server.dict.id.entries ∧
        (machine.server.client info).tun.ip = htonl order host

/-- A registration draws an identity that no session has. -/
def FreshIdentity (machine : Machine) (event : Event) : Prop :=
  event = .register → ∀ pending, machine.net = some pending →
    machine.server.dict.id.find (machine.server.client pending.info).identity = none

instance (machine : Machine) : (event : Event) → Decidable (FreshIdentity machine event)
  | .register => decidable_of_iff (∀ pending ∈ machine.net,
      machine.server.dict.id.find (machine.server.client pending.info).identity = none)
      (by simp [FreshIdentity])
  | .datagram .. | .frame .. | .forward | .sweep .. | .visit | .release | .delete =>
      isTrue fun same => by cases same

/-- A record that exists although neither `dict.id` nor a thread knows it. -/
def Stray (machine : Machine) (info : Ptr) : Prop :=
  machine.server.Live info ∧ (∀ id, (id, info) ∉ machine.server.dict.id.entries) ∧
    (∀ pending, machine.net = some pending → pending.info ≠ info) ∧
    machine.poll.removing ≠ some info

/-- Where no session is being opened or removed, an address is lost exactly if
its record strays. -/
theorem accounted_iff {order : ByteOrder} {machine : Machine} (sound : Sound machine)
    (pooled : Pooled order machine) (idle : machine.net = none)
    (settled : machine.poll.removing = none) :
    Accounted order machine ↔ ∀ info, ¬ Stray machine info := by
  have holds : ∀ info, machine.server.Live info → Holds machine info := by
    refine fun info live => ⟨live, fun released => ?_⟩
    simp [removing_of_released released] at settled
  constructor
  · rintro accounted info ⟨live, unknown, _⟩
    -- A stray holds an address that neither the stack nor a session has.
    have held := holds info live
    obtain ⟨above, below, unfree⟩ := held_in_range pooled held
    have member : (machine.server.client info).tun.ip ∈ heldAddresses machine := ⟨info, held, rfl⟩
    obtain ⟨host, low, high, same⟩ := pooled.serves.heldIssued _ member
    rw [same, ntohl_htonl] at above below
    rcases accounted host above below with unissued | free | ⟨id, other, there, sameIp⟩
    · exact absurd high (UInt32.not_lt.mpr unissued)
    · exact unfree (same ▸ free)
    · have otherHeld := holds other (sound.live other (Or.inl ⟨id, there⟩))
      have sameInfo := pooled.apart other info otherHeld held (sameIp.trans same.symm)
      exact unknown id (sameInfo ▸ there)
  · intro none host above below
    -- An issued address is on the stack or held, and its holder is in `dict.id` or strays.
    by_cases issued : machine.server.pool.current ≤ host
    · exact Or.inl issued
    · have found : machine.server.pool.Issued order poolLower (htonl order host) :=
        ⟨host, above, UInt32.not_le.mp issued, rfl⟩
      rcases pooled.serves.complete _ found with free | ⟨info, held, same⟩
      · exact Or.inr (Or.inl free)
      · have known : ∃ id, (id, info) ∈ machine.server.dict.id.entries := by
          by_contra unknown
          exact none info ⟨held.1, not_exists.mp unknown, by simp [idle], by simp [settled]⟩
        obtain ⟨id, there⟩ := known
        exact Or.inr (Or.inr ⟨id, info, there, same⟩)

/-- The step makes a stray of the record: its identity is taken. -/
def Loses (machine : Machine) (event : Event) (info : Ptr) : Prop :=
  event = .register ∧ (∃ pending, machine.net = some pending ∧ pending.info = info) ∧
    machine.server.dict.id.find (machine.server.client info).identity ≠ none

theorem freshIdentity_iff (machine : Machine) (event : Event) :
    FreshIdentity machine event ↔ ∀ info, ¬ Loses machine event info := by
  constructor
  · rintro fresh info ⟨register, ⟨pending, waiting, rfl⟩, taken⟩
    exact taken (fresh register pending waiting)
  · intro none register pending waiting
    by_contra taken
    exact none pending.info ⟨register, ⟨pending, waiting, rfl⟩, taken⟩

theorem stray_registered {machine : Machine} (sound : Sound machine) (pending : Pending)
    (waiting : machine.net = some pending) (asleep : machine.poll = .sleep) (info : Ptr) :
    Stray { machine with server := machine.server.registerClient pending.info, net := none } info ↔
      Stray machine info ∨ Loses machine .register info := by
  have settled : machine.poll.removing ≠ some info := by simp [asleep, Poll.removing]
  constructor
  · rintro ⟨live, unknown, _⟩
    have before : ∀ id, (id, info) ∉ machine.server.dict.id.entries :=
      fun id member => unknown id ((mem_register_id ..).mpr (Or.inl member))
    by_cases same : pending.info = info
    · refine Or.inr ⟨rfl, ⟨pending, waiting, same⟩, fun free => ?_⟩
      subst same
      exact unknown _ ((mem_register_id ..).mpr (Or.inr ⟨free, rfl⟩))
    · exact Or.inl ⟨live, before, by simp [waiting, same], settled⟩
  · rintro (⟨live, unknown, apart, _⟩ | ⟨_, ⟨other, here, rfl⟩, taken⟩)
    · refine ⟨live, fun id member => ?_, by simp, settled⟩
      rcases (mem_register_id ..).mp member with old | ⟨_, new⟩
      · exact unknown id old
      · exact apart pending waiting (congrArg Prod.snd new).symm
    · cases Option.some.inj (here.symm.trans waiting)
      refine ⟨sound.pendingLive pending waiting, fun id member => ?_, by simp, settled⟩
      rcases (mem_register_id ..).mp member with old | ⟨free, _⟩
      · exact sound.pendingApart pending waiting (Or.inl ⟨id, old⟩)
      · exact taken free

/-- Only a registration makes a stray, and no step recovers one. -/
theorem stray_change {order : ByteOrder} {machine after : Machine} {event : Event}
    (sound : Sound machine) (change : Change order machine event after) (info : Ptr) :
    Stray after info ↔ Stray machine info ∨ Loses machine event info := by
  cases change with
  | registered pending waiting asleep =>
      exact stray_registered sound pending waiting ((asleep_iff _).mp asleep) info
  | opened request idle =>
      -- The new record is no stray: the network thread knows it.
      have bound : info < machine.server.next + 1 ↔ info < machine.server.next ∨
          info = machine.server.next := Nat.lt_succ_iff_lt_or_eq
      have clash : info < machine.server.next → info ≠ machine.server.next := Nat.ne_of_lt
      simp only [Stray, Loses, Live, TunnelServer.newClient, opened, setClient_next,
        setClient_deleted, setClient_dict, bound, idle, reduceCtorEq, false_and, or_false,
        Option.some.injEq, forall_eq', IsEmpty.forall_iff, implies_true, true_and]
      constructor
      · rintro ⟨⟨old | new, present⟩, unknown, apart, kept⟩
        · exact ⟨⟨old, present⟩, unknown, kept⟩
        · exact absurd new.symm apart
      · rintro ⟨⟨old, present⟩, unknown, kept⟩
        exact ⟨⟨Or.inl old, present⟩, unknown, (clash old).symm, kept⟩
  | @erased now entry entries at_entry =>
      -- The removed record is with the poll thread now, and it had this one entry in `dict.id`.
      have present := sound.remaining entry (by simp [at_entry, Poll.entries])
      simp only [Stray, Loses, Live, at_entry, Poll.removing, mem_erase_id, reduceCtorEq,
        false_and, or_false, not_false_eq_true, and_true, ne_eq, Option.some.injEq, not_and, not_not]
      constructor
      · rintro ⟨live, unknown, apart, different⟩
        refine ⟨live, fun id member => ?_, apart⟩
        have sameKey := unknown id member
        have first := (UnorderedMap.mem_iff_find _ entry.1 entry.2).mp present
        have second := (UnorderedMap.mem_iff_find _ id info).mp member
        rw [sameKey, first] at second
        exact different (Option.some.inj second)
      · rintro ⟨live, unknown, apart⟩
        exact ⟨live, fun id member => absurd member (unknown id), apart,
          fun same => unknown entry.1 (same ▸ present)⟩
  | @deleted now gone entries at_delete =>
      simp only [Stray, Loses, Live, deleteClient, at_delete, Poll.removing, List.mem_cons, not_or,
        reduceCtorEq, false_and, or_false, not_false_eq_true, and_true, ne_eq, Option.some.injEq]
      constructor
      · rintro ⟨⟨bound, different, present⟩, unknown, apart⟩
        exact ⟨⟨bound, present⟩, unknown, apart, fun same => different same.symm⟩
      · rintro ⟨⟨bound, present⟩, unknown, apart, different⟩
        exact ⟨⟨bound, fun same => different same.symm, present⟩, unknown, apart⟩
  | swept asleep => simp [Stray, Loses, (asleep_iff _).mp asleep, Poll.removing]
  | spared at_entry | awoke at_entry | released at_entry =>
      simp [Stray, Loses, at_entry, Poll.removing, releaseClient, Live]
  | _ => simp [Stray, Loses, Live, refreshClient]

theorem no_stray_init (order : ByteOrder) (mac : { mac : Bytes // mac.length = 6 })
    (secret : Bytes) (random : UInt32) (info : Ptr) :
    ¬ Stray (init order mac secret random) info :=
  fun stray => Nat.not_lt_zero info stray.1.1

theorem no_stray_iff (order : ByteOrder) (mac : { mac : Bytes // mac.length = 6 })
    (secret : Bytes) (random : UInt32) (events : List Event) (final : Machine)
    (past : Runs.run (next order) (init order mac secret random) events = some final) :
    (∀ info, ¬ Stray final info) ↔
      Runs.Along (next order) FreshIdentity (init order mac secret random) events := by
  -- Induction from the last step: strays only accumulate.
  induction events using List.reverseRecOn generalizing final with
  | nil =>
      cases (Runs.run_nil ..).mp past
      exact ⟨fun _ => trivial, fun _ => no_stray_init order mac secret random⟩
  | append_singleton earlier event ih =>
      obtain ⟨before, reached, taken⟩ := (Runs.run_concat ..).mp past
      have sound : Sound before := sound_reached ⟨mac, secret, random, earlier, reached⟩
      have change := next_change taken
      rw [Runs.along_concat _ _ _ _ _ reached, ← ih before reached, freshIdentity_iff,
        ← forall_and]
      exact forall_congr' fun info => by rw [stray_change sound change, not_or]

/-- Over a whole run: no address of the range is lost if and only if every
registration drew an identity that no session had. -/
theorem vips_accounted_iff (order : ByteOrder) (mac : { mac : Bytes // mac.length = 6 })
    (secret : Bytes) (random : UInt32) (events : List Event) (final : Machine)
    (past : Runs.run (next order) (init order mac secret random) events = some final)
    (idle : final.net = none) (settled : final.poll.removing = none) :
    Accounted order final ↔
      Runs.Along (next order) FreshIdentity (init order mac secret random) events := by
  have reached : Reached order final := ⟨mac, secret, random, events, past⟩
  rw [accounted_iff (sound_reached reached) (pooled_reached reached) idle settled]
  exact no_stray_iff order mac secret random events final past

theorem vips_accounted_two_clients : ∃ final,
    Runs.run (next .little) plainServer plainClients = some final ∧
      final.server.dict.id.entries = [(11, 0)] ∧ Accounted .little final := by
  have computed : (Runs.run (next .little) plainServer plainClients).map (fun final =>
      (final.net.isNone, final.poll.removing, final.server.dict.id.entries)) =
        some (true, none, [(11, 0)]) := by
    decide +kernel
  obtain ⟨final, past, seen⟩ := Option.map_eq_some_iff.mp computed
  simp only [Prod.mk.injEq, Option.isNone_iff_eq_none] at seen
  obtain ⟨idle, settled, entries⟩ := seen
  have fresh : Runs.Along (next .little) FreshIdentity plainServer plainClients := by
    decide +kernel
  exact ⟨final, past, entries,
    (vips_accounted_iff .little _ _ _ _ final past idle settled).mpr fresh⟩

/-- Two clients for which `random()` gives one identity: the second record is in
`dict.mac` alone, and nothing will release its `10.20.30.101`. -/
theorem vips_accounted_fails : ∃ machine,
    Runs.run (next .little) plainServer (plainSession 7 11 0 ++ plainSession 8 11 1) = some machine ∧
      machine.net = none ∧ machine.poll = .sleep ∧ ¬ Accounted .little machine := by
  have computed : (Runs.run (next .little) plainServer
      (plainSession 7 11 0 ++ plainSession 8 11 1)).map (fun machine =>
        ((machine.net.isNone, machine.poll.asleep),
          (machine.server.pool.current, machine.server.pool.free),
          machine.server.dict.id.entries, (machine.server.client 0).tun.ip)) =
      some ((true, true), (poolLower + 2, []), [(11, 0)], htonl .little poolLower) := by
    decide +kernel
  obtain ⟨machine, past, seen⟩ := Option.map_eq_some_iff.mp computed
  simp only [Prod.mk.injEq, Option.isNone_iff_eq_none] at seen
  obtain ⟨⟨idle, asleep⟩, ⟨current, stack⟩, entries, ip⟩ := seen
  refine ⟨machine, past, idle, (asleep_iff _).mp asleep, fun accounted => ?_⟩
  rcases accounted (poolLower + 1) (by decide) (by decide) with unissued | free |
    ⟨id, info, member, same⟩
  · rw [current] at unissued
    exact absurd unissued (by decide)
  · simp [stack] at free
  · simp only [entries, List.mem_singleton, Prod.mk.injEq] at member
    rw [member.2, ip] at same
    exact absurd same (by decide)

end Muddymask
