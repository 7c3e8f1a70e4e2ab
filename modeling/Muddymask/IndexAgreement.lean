import Muddymask.Registry

/-!
`dict.id` and `dict.mac` are meant as two indices of one set of sessions. They
stay that as long as every registration finds its identity and its MAC either
both free or both taken: a lone insertion that succeeds leaves a record in one
index only. This is the exact condition over whole runs.
-/

namespace Muddymask

open Words TunnelServer Machine

/-- The two dictionaries describe the same sessions. -/
def Agree (server : TunnelServer) : Prop :=
  (∀ id info, (id, info) ∈ server.dict.id.entries → (server.client info).identity = id ∧
    server.dict.mac.find (server.client info).tun.mac = some info) ∧
  (∀ mac info, (mac, info) ∈ server.dict.mac.entries → (server.client info).tun.mac = mac ∧
    server.dict.id.find (server.client info).identity = some info)

/-- A registration finds its two keys both free or both taken. -/
def KeysTogether (machine : Machine) (event : Event) : Prop :=
  event = .register → ∀ pending, machine.net = some pending →
    (machine.server.dict.id.find (machine.server.client pending.info).identity = none ↔
      machine.server.dict.mac.find (machine.server.client pending.info).tun.mac = none)

instance (machine : Machine) : (event : Event) → Decidable (KeysTogether machine event)
  | .register => decidable_of_iff (∀ pending ∈ machine.net,
      (machine.server.dict.id.find (machine.server.client pending.info).identity = none ↔
        machine.server.dict.mac.find (machine.server.client pending.info).tun.mac = none))
      (by simp [KeysTogether])
  | .datagram .. | .frame .. | .forward | .sweep .. | .visit | .release | .delete =>
      isTrue fun same => by cases same

theorem agree_congr {server after : TunnelServer} (agree : Agree server)
    (sameDict : after.dict = server.dict)
    (sameTun : ∀ info, server.Registered info →
      (after.client info).tun = (server.client info).tun)
    (sameIdentity : ∀ info, server.Registered info →
      (after.client info).identity = (server.client info).identity) : Agree after := by
  constructor
  · intro id info member
    rw [sameDict] at member ⊢
    have there : server.Registered info := Or.inl ⟨id, member⟩
    rw [sameTun info there, sameIdentity info there]
    exact agree.1 id info member
  · intro mac info member
    rw [sameDict] at member ⊢
    have there : server.Registered info := Or.inr ⟨mac, member⟩
    rw [sameTun info there, sameIdentity info there]
    exact agree.2 mac info member

theorem agree_registered {server : TunnelServer} (agree : Agree server) (info : Ptr)
    (together : server.dict.id.find (server.client info).identity = none ↔
      server.dict.mac.find (server.client info).tun.mac = none) :
    Agree (server.registerClient info) := by
  by_cases free : server.dict.id.find (server.client info).identity = none
  · have freeMac := together.mp free
    constructor
    · intro id other member
      simp only [registerClient, UnorderedMap.find_insert]
      rcases (mem_register_id ..).mp member with old | ⟨_, new⟩
      · have entry := agree.1 id other old
        exact ⟨entry.1, by simp [entry.2]⟩
      · cases new
        exact ⟨rfl, by simp [freeMac]⟩
    · intro mac other member
      simp only [registerClient, UnorderedMap.find_insert]
      rcases (mem_register_mac ..).mp member with old | ⟨_, new⟩
      · have entry := agree.2 mac other old
        exact ⟨entry.1, by simp [entry.2]⟩
      · cases new
        exact ⟨rfl, by simp [free]⟩
  · have takenMac : ¬ server.dict.mac.find (server.client info).tun.mac = none :=
      fun freeMac => free (together.mpr freeMac)
    obtain ⟨other, present⟩ := Option.ne_none_iff_exists'.mp free
    obtain ⟨another, presentMac⟩ := Option.ne_none_iff_exists'.mp takenMac
    refine agree_congr agree ?_ (fun _ _ => rfl) (fun _ _ => rfl)
    simp [registerClient, UnorderedMap.insert_present _ _ _ _ present,
      UnorderedMap.insert_present _ _ _ _ presentMac]

/-- If the indices agree before and after a registration, it took both keys or none. -/
theorem together_of_agree {server : TunnelServer} (info : Ptr) (apart : ¬ server.Registered info)
    (agree : Agree (server.registerClient info)) :
    server.dict.id.find (server.client info).identity = none ↔
      server.dict.mac.find (server.client info).tun.mac = none := by
  constructor
  · intro free
    have member := (mem_register_id server info _).mpr (Or.inr ⟨free, rfl⟩)
    have found := (agree.1 _ _ member).2
    simp only [registerClient, UnorderedMap.find_insert] at found
    cases taken : server.dict.mac.find (server.client info).tun.mac with
    | none => rfl
    | some other =>
        simp only [taken, Option.some_or, Option.some.injEq] at found
        -- A taken MAC leads to a registered record, and this one is not registered yet.
        subst found
        obtain ⟨mac, there, _⟩ := (UnorderedMap.find_eq_some_iff _ _ _).mp taken
        exact absurd (Or.inr ⟨mac, there⟩) apart
  · intro free
    have member := (mem_register_mac server info _).mpr (Or.inr ⟨free, rfl⟩)
    have found := (agree.2 _ _ member).2
    simp only [registerClient, UnorderedMap.find_insert] at found
    cases taken : server.dict.id.find (server.client info).identity with
    | none => rfl
    | some other =>
        simp only [taken, Option.some_or, Option.some.injEq] at found
        subst found
        exact absurd (Or.inl ⟨_, (UnorderedMap.mem_iff_find _ _ _).mpr taken⟩) apart

theorem agree_erased {server : TunnelServer} (agree : Agree server) (entry : UInt32 × Ptr)
    (present : entry ∈ server.dict.id.entries) : Agree (server.eraseClient entry) := by
  have home := agree.1 entry.1 entry.2 present
  constructor
  · intro id info member
    obtain ⟨old, different⟩ := (mem_erase_id ..).mp member
    have here := agree.1 id info old
    refine ⟨here.1, ?_⟩
    have apart : ((server.client info).tun.mac == (server.client entry.2).tun.mac) = false := by
      cases clash : (server.client info).tun.mac == (server.client entry.2).tun.mac with
      | false => rfl
      | true =>
          -- A survivor with this MAC would be the removed record under two identities.
          have sameInfo := here.2.symm.trans
            ((UnorderedMap.find_congr server.dict.mac _ _ clash).trans home.2)
          have same : info = entry.2 := Option.some.inj sameInfo
          exact absurd (here.1.symm.trans (same ▸ home.1)) different
    simp only [eraseClient, UnorderedMap.find_erase]
    simp [apart, here.2]
  · intro mac info member
    obtain ⟨old, different⟩ := (mem_erase_mac ..).mp member
    have here := agree.2 mac info old
    refine ⟨here.1, ?_⟩
    have apart : (server.client info).identity ≠ entry.1 := by
      intro sameKey
      have first := (UnorderedMap.mem_iff_find _ entry.1 entry.2).mp present
      rw [← sameKey, here.2] at first
      have same : info = entry.2 := Option.some.inj first
      rw [← here.1, same] at different
      simp at different
    simp only [eraseClient, UnorderedMap.find_erase]
    simp [apart, here.2]

theorem agree_change {order : ByteOrder} {machine after : Machine} {event : Event}
    (sound : Sound machine) (agree : Agree machine.server) (together : KeysTogether machine event)
    (change : Change order machine event after) : Agree after.server := by
  cases change with
  | opened request =>
      have kept : ∀ info, machine.server.Registered info → info ≠ machine.server.next :=
        fun info there => Nat.ne_of_lt (sound.live info there).1
      exact agree_congr agree rfl (fun info there => by simp [opened, kept info there])
        (fun info there => by simp [opened, kept info there])
  | refreshed id info =>
      exact agree_congr agree rfl (fun _ _ => refreshClient_tun ..)
        (fun _ _ => refreshClient_identity ..)
  | registered pending waiting => exact agree_registered agree _ (together rfl pending waiting)
  | erased at_entry =>
      exact agree_erased agree _ (sound.remaining _ (by simp [at_entry, Poll.entries]))
  | _ => exact agree_congr agree rfl (fun _ _ => rfl) (fun _ _ => rfl)

theorem agree_init (order : ByteOrder) (mac : { mac : Bytes // mac.length = 6 }) (secret : Bytes)
    (random : UInt32) : Agree (init order mac secret random).server := by
  simp [Agree, init, TunnelServer.new, UnorderedMap.empty]

/-- Over a whole run: the indices agree in every state between sweeps if and
only if every registration took both of its keys or neither. -/
theorem index_agreement_iff (order : ByteOrder) (mac : { mac : Bytes // mac.length = 6 })
    (secret : Bytes) (random : UInt32) (events : List Event) (final : Machine)
    (past : Runs.run (next order) (init order mac secret random) events = some final) :
    Runs.Always (next order) (fun machine => machine.poll = .sleep → Agree machine.server)
        (init order mac secret random) events ↔
      Runs.Along (next order) KeysTogether (init order mac secret random) events := by
  constructor
  · apply Runs.along_of_always Sound
      (fun machine => machine.poll = .sleep → Agree machine.server) KeysTogether
      (fun _ _ _ sound taken => sound_change sound (next_change taken)) ?_
      _ final _ (sound_init order mac secret random) past
    intro before event after sound agree taken agreeAfter register pending waiting
    subst register
    cases next_change taken with
    | registered other waiting' asleep =>
        cases Option.some.inj (waiting.symm.trans waiting')
        exact together_of_agree _ (sound.pendingApart pending waiting)
          (agreeAfter ((asleep_iff _).mp asleep))
  · intro allowed
    apply Runs.always_mono (fun machine => Sound machine ∧ Agree machine.server)
    · exact fun _ both _ => both.2
    · apply Runs.always_of_along _ KeysTogether ?_ _ _
        ⟨sound_init order mac secret random, agree_init order mac secret random⟩ allowed
      intro before event after both together taken
      exact ⟨sound_change both.1 (next_change taken),
        agree_change both.1 both.2 together (next_change taken)⟩

theorem index_agreement_two_clients : ∃ final,
    Runs.run (next .little) plainServer plainClients = some final ∧
      final.server.dict.id.entries = [(11, 0)] ∧
      Runs.Always (next .little) (fun machine => machine.poll = .sleep → Agree machine.server)
        plainServer plainClients := by
  have computed : (Runs.run (next .little) plainServer plainClients).map
      (fun final => final.server.dict.id.entries) = some [(11, 0)] := by
    decide +kernel
  obtain ⟨final, past, entries⟩ := Option.map_eq_some_iff.mp computed
  have together : Runs.Along (next .little) KeysTogether plainServer plainClients := by
    decide +kernel
  exact ⟨final, past, entries, (index_agreement_iff .little _ _ _ _ final past).mpr together⟩

/-- A client that asks twice: the second record is in `dict.id` under its own
identity, and `dict.mac` leads its MAC to the first. -/
theorem index_agreement_fails : ∃ machine,
    Runs.run (next .little) plainServer (plainSession 7 11 0 ++ plainSession 7 12 1) = some machine ∧
      machine.poll = .sleep ∧ ¬ Agree machine.server := by
  have computed : (Runs.run (next .little) plainServer
      (plainSession 7 11 0 ++ plainSession 7 12 1)).map (fun machine =>
        (machine.poll.asleep, machine.server.dict.id.entries,
          machine.server.dict.mac.find (machine.server.client 1).tun.mac)) =
      some (true, [(12, 1), (11, 0)], some 0) := by
    decide +kernel
  obtain ⟨machine, past, seen⟩ := Option.map_eq_some_iff.mp computed
  simp only [Prod.mk.injEq] at seen
  obtain ⟨asleep, entries, route⟩ := seen
  refine ⟨machine, past, (asleep_iff _).mp asleep, fun agree => ?_⟩
  have home := (agree.1 12 1 (by simp [entries])).2
  simp [route] at home

end Muddymask
