import Muddymask.Interleaving

/-!
What holds of the dictionaries, the records and the pool in every state any
interleaving reaches, whatever keys collide. `Sound` keeps the pointers in
order: an entry leads to an existing record that carries its key, and a record
in the hands of one thread is in no dictionary. `Pooled` keeps the addresses in
order: existing records hold different ones, and the pool serves the rest.
-/

namespace Muddymask

open Words TunnelServer Machine

namespace TunnelServer

theorem mem_register_id (server : TunnelServer) (info : Ptr) (entry : UInt32 × Ptr) :
    entry ∈ (server.registerClient info).dict.id.entries ↔ entry ∈ server.dict.id.entries ∨
      (server.dict.id.find (server.client info).identity = none ∧
        entry = ((server.client info).identity, info)) :=
  UnorderedMap.mem_insert ..

theorem mem_register_mac (server : TunnelServer) (info : Ptr) (entry : MacAddress × Ptr) :
    entry ∈ (server.registerClient info).dict.mac.entries ↔ entry ∈ server.dict.mac.entries ∨
      (server.dict.mac.find (server.client info).tun.mac = none ∧
        entry = ((server.client info).tun.mac, info)) :=
  UnorderedMap.mem_insert ..

theorem mem_erase_id (server : TunnelServer) (entry other : UInt32 × Ptr) :
    other ∈ (server.eraseClient entry).dict.id.entries ↔
      other ∈ server.dict.id.entries ∧ other.1 ≠ entry.1 := by
  simp [eraseClient, UnorderedMap.mem_erase]

theorem mem_erase_mac (server : TunnelServer) (entry : UInt32 × Ptr) (other : MacAddress × Ptr) :
    other ∈ (server.eraseClient entry).dict.mac.entries ↔ other ∈ server.dict.mac.entries ∧
      (other.1 == (server.client entry.2).tun.mac) = false :=
  UnorderedMap.mem_erase ..

theorem registered_of_register {server : TunnelServer} {info other : Ptr}
    (registered : (server.registerClient info).Registered other) :
    server.Registered other ∨ other = info := by
  rcases registered with ⟨id, member⟩ | ⟨mac, member⟩
  · rcases (mem_register_id ..).mp member with old | ⟨_, new⟩
    · exact Or.inl (Or.inl ⟨id, old⟩)
    · exact Or.inr (congrArg Prod.snd new)
  · rcases (mem_register_mac ..).mp member with old | ⟨_, new⟩
    · exact Or.inl (Or.inr ⟨mac, old⟩)
    · exact Or.inr (congrArg Prod.snd new)

theorem registered_of_erase {server : TunnelServer} {entry : UInt32 × Ptr} {other : Ptr}
    (registered : (server.eraseClient entry).Registered other) : server.Registered other := by
  rcases registered with ⟨id, member⟩ | ⟨mac, member⟩
  · exact Or.inl ⟨id, ((mem_erase_id ..).mp member).1⟩
  · exact Or.inr ⟨mac, ((mem_erase_mac ..).mp member).1⟩

end TunnelServer

/-- The order of the pointers. Nothing is assumed about the values `random()`
gives, about the MACs, or about which thread goes next. -/
structure Sound (machine : Machine) : Prop where
  idKey : ∀ id info, (id, info) ∈ machine.server.dict.id.entries →
    (machine.server.client info).identity = id
  macKey : ∀ mac info, (mac, info) ∈ machine.server.dict.mac.entries →
    (machine.server.client info).tun.mac = mac
  live : ∀ info, machine.server.Registered info → machine.server.Live info
  old : ∀ info ∈ machine.server.deleted, info < machine.server.next
  once : machine.server.deleted.Nodup
  pendingLive : ∀ pending, machine.net = some pending → machine.server.Live pending.info
  pendingApart : ∀ pending, machine.net = some pending → ¬ machine.server.Registered pending.info
  removingLive : ∀ info, machine.poll.removing = some info → machine.server.Live info
  removingApart : ∀ info, machine.poll.removing = some info → ¬ machine.server.Registered info
  disjoint : ∀ pending, machine.net = some pending → machine.poll.removing ≠ some pending.info
  remaining : ∀ entry ∈ machine.poll.entries, entry ∈ machine.server.dict.id.entries
  remainingOnce : machine.poll.entries.Nodup

theorem sound_init (order : ByteOrder) (mac : { mac : Bytes // mac.length = 6 }) (secret : Bytes)
    (random : UInt32) : Sound (init order mac secret random) where
  idKey := by simp [init, TunnelServer.new, UnorderedMap.empty]
  macKey := by simp [init, TunnelServer.new, UnorderedMap.empty]
  live := by simp [init, TunnelServer.new, UnorderedMap.empty, Registered]
  old := by simp [init, TunnelServer.new]
  once := by simp [init, TunnelServer.new]
  pendingLive := by simp [init]
  pendingApart := by simp [init]
  removingLive := by simp [init, Poll.removing]
  removingApart := by simp [init, Poll.removing]
  disjoint := by simp [init]
  remaining := by simp [init, Poll.entries]
  remainingOnce := by simp [init, Poll.entries]

theorem asleep_iff (poll : Poll) : poll.asleep = true ↔ poll = .sleep := by
  cases poll <;> simp [Poll.asleep]

/-- A new record is out of reach of every dictionary and thread. -/
theorem sound_opened {order : ByteOrder} {machine : Machine} (sound : Sound machine)
    (peer : SockAddr) (datagram : Bytes) (mac : MacAddress) (random : UInt32) (time : Int) :
    Sound { machine with
      server := opened order machine.server peer mac random time
      net := some { peer, datagram, info := machine.server.next } } := by
  have live : ∀ info, machine.server.Live info →
      (opened order machine.server peer mac random time).Live info := by
    intro info present
    exact ⟨Nat.lt_succ_of_lt present.1, present.2⟩
  have kept : ∀ info, machine.server.Live info →
      (opened order machine.server peer mac random time).client info = machine.server.client info := by
    intro info present
    have different : info ≠ machine.server.next := Nat.ne_of_lt present.1
    simp [opened, different]
  have fresh : ¬ machine.server.Live machine.server.next := fun present => Nat.lt_irrefl _ present.1
  exact {
    idKey := by
      intro id info member
      rw [kept info (sound.live info (Or.inl ⟨id, member⟩))]
      exact sound.idKey id info member
    macKey := by
      intro mac info member
      rw [kept info (sound.live info (Or.inr ⟨mac, member⟩))]
      exact sound.macKey mac info member
    live := fun info registered => live info (sound.live info registered)
    old := fun info gone => Nat.lt_succ_of_lt (sound.old info gone)
    once := sound.once
    pendingLive := by
      intro pending waiting
      cases waiting
      exact ⟨Nat.lt_succ_self _, fun gone => Nat.lt_irrefl _ (sound.old _ gone)⟩
    pendingApart := by
      intro pending waiting registered
      cases waiting
      exact fresh (sound.live _ registered)
    removingLive := fun info removing => live info (sound.removingLive info removing)
    removingApart := fun info removing registered => sound.removingApart info removing registered
    disjoint := by
      intro pending waiting removing
      cases waiting
      exact fresh (sound.removingLive _ removing)
    remaining := sound.remaining
    remainingOnce := sound.remainingOnce }

theorem sound_refreshed {machine : Machine} (sound : Sound machine) (info : Ptr) (peer : SockAddr)
    (time : Int) :
    Sound { machine with server := machine.server.refreshClient info peer time } where
  idKey := fun id other member => by
    rw [refreshClient_identity]
    exact sound.idKey id other member
  macKey := fun mac other member => by
    rw [refreshClient_tun]
    exact sound.macKey mac other member
  live := sound.live
  old := sound.old
  once := sound.once
  pendingLive := sound.pendingLive
  pendingApart := sound.pendingApart
  removingLive := sound.removingLive
  removingApart := sound.removingApart
  disjoint := sound.disjoint
  remaining := sound.remaining
  remainingOnce := sound.remainingOnce

/-- Whatever the insertions do, the record gets in under its own keys or not at all. -/
theorem sound_registered {machine : Machine} (sound : Sound machine) (pending : Pending)
    (waiting : machine.net = some pending) (asleep : machine.poll = .sleep) :
    Sound { machine with server := machine.server.registerClient pending.info, net := none } where
  idKey := by
    intro id info member
    rcases (mem_register_id ..).mp member with old | ⟨_, new⟩
    · exact sound.idKey id info old
    · cases new
      rfl
  macKey := by
    intro mac info member
    rcases (mem_register_mac ..).mp member with old | ⟨_, new⟩
    · exact sound.macKey mac info old
    · cases new
      rfl
  live := by
    intro info registered
    rcases registered_of_register registered with old | rfl
    · exact sound.live info old
    · exact sound.pendingLive pending waiting
  old := sound.old
  once := sound.once
  pendingLive := by simp
  pendingApart := by simp
  removingLive := by simp [asleep, Poll.removing]
  removingApart := by simp [asleep, Poll.removing]
  disjoint := by simp
  remaining := by simp [asleep, Poll.entries]
  remainingOnce := by simp [asleep, Poll.entries]

/-- The erased record is out of both dictionaries: its own key is gone from
`dict.mac` even if the entry led to another record. -/
theorem sound_erased {machine : Machine} (sound : Sound machine) {now : Int}
    {entry : UInt32 × Ptr} {entries : List (UInt32 × Ptr)}
    (at_entry : machine.poll = .sweep now (entry :: entries)) :
    Sound { machine with server := machine.server.eraseClient entry
                         poll := .release now entry.2 entries } := by
  have present : (entry.1, entry.2) ∈ machine.server.dict.id.entries :=
    sound.remaining entry (by simp [at_entry, Poll.entries])
  have nodup := sound.remainingOnce
  rw [at_entry, Poll.entries, List.nodup_cons] at nodup
  -- Every entry has the key of its record, so an entry for this record is one of the erased.
  have apart : ¬ (machine.server.eraseClient entry).Registered entry.2 := by
    rintro (⟨id, member⟩ | ⟨mac, member⟩)
    · rcases (mem_erase_id ..).mp member with ⟨old, different⟩
      have sameKey := (sound.idKey id entry.2 old).symm.trans (sound.idKey entry.1 entry.2 present)
      exact different sameKey
    · rcases (mem_erase_mac ..).mp member with ⟨old, different⟩
      rw [sound.macKey mac entry.2 old] at different
      simp at different
  exact {
    idKey := fun id info member => sound.idKey id info ((mem_erase_id ..).mp member).1
    macKey := fun mac info member => sound.macKey mac info ((mem_erase_mac ..).mp member).1
    live := fun info registered => sound.live info (registered_of_erase registered)
    old := sound.old
    once := sound.once
    pendingLive := sound.pendingLive
    pendingApart := fun pending waiting registered =>
      sound.pendingApart pending waiting (registered_of_erase registered)
    removingLive := by
      intro info removing
      cases removing
      exact sound.live entry.2 (Or.inl ⟨entry.1, present⟩)
    removingApart := by
      intro info removing
      cases removing
      exact apart
    disjoint := by
      intro pending waiting removing
      have same : entry.2 = pending.info := Option.some.inj removing
      exact sound.pendingApart pending waiting (same ▸ Or.inl ⟨entry.1, present⟩)
    remaining := by
      intro other member
      have old := sound.remaining other
        (by simp [at_entry, Poll.entries, show other ∈ entries from member])
      refine (mem_erase_id ..).mpr ⟨old, fun sameKey => ?_⟩
      -- An entry that is left with the erased key would be the erased entry itself.
      have first := (UnorderedMap.mem_iff_find _ _ _).mp present
      have second := (UnorderedMap.mem_iff_find _ other.1 other.2).mp old
      rw [sameKey, first] at second
      have sameEntry : other = entry := Prod.ext sameKey (Option.some.inj second).symm
      exact nodup.1 (sameEntry ▸ member)
    remainingOnce := nodup.2 }

theorem sound_deleted {machine : Machine} (sound : Sound machine) {now : Int} {info : Ptr}
    {entries : List (UInt32 × Ptr)} (at_delete : machine.poll = .delete now info entries) :
    Sound { machine with server := machine.server.deleteClient info
                         poll := .sweep now entries } := by
  have removing : machine.poll.removing = some info := by simp [at_delete, Poll.removing]
  have alive := sound.removingLive info removing
  have kept : ∀ other, machine.server.Live other → other ≠ info →
      (machine.server.deleteClient info).Live other := by
    intro other present different
    refine ⟨present.1, fun gone => ?_⟩
    rcases List.mem_cons.mp gone with same | earlier
    · exact different same
    · exact present.2 earlier
  exact {
    idKey := sound.idKey
    macKey := sound.macKey
    live := fun other registered => kept other (sound.live other registered)
      (fun same => sound.removingApart info removing (same ▸ registered))
    old := by
      intro other gone
      rcases List.mem_cons.mp gone with rfl | earlier
      · exact alive.1
      · exact sound.old other earlier
    once := List.nodup_cons.mpr ⟨alive.2, sound.once⟩
    pendingLive := fun pending waiting => kept pending.info (sound.pendingLive pending waiting)
      (fun same => sound.disjoint pending waiting (same ▸ removing))
    pendingApart := sound.pendingApart
    removingLive := by simp [Poll.removing]
    removingApart := by simp [Poll.removing]
    disjoint := by simp [Poll.removing]
    remaining := fun entry member =>
      sound.remaining entry (by simpa [at_delete, Poll.entries] using member)
    remainingOnce := by simpa [at_delete, Poll.entries] using sound.remainingOnce }

/-- The poll thread between its sections holds what it held. -/
theorem sound_poll {machine : Machine} (sound : Sound machine) (server : TunnelServer) (poll : Poll)
    (sameDict : server.dict = machine.server.dict) (sameClient : server.client = machine.server.client)
    (sameNext : server.next = machine.server.next) (sameDeleted : server.deleted = machine.server.deleted)
    (removing : ∀ info, poll.removing = some info → machine.poll.removing = some info)
    (remaining : ∀ entry ∈ poll.entries, entry ∈ machine.server.dict.id.entries)
    (remainingOnce : poll.entries.Nodup) :
    Sound { machine with server, poll } := by
  have live : ∀ info, server.Live info ↔ machine.server.Live info := by
    simp [Live, sameNext, sameDeleted]
  have registered : ∀ info, server.Registered info ↔ machine.server.Registered info := by
    simp [Registered, sameDict]
  exact {
    idKey := by simpa [sameDict, sameClient] using sound.idKey
    macKey := by simpa [sameDict, sameClient] using sound.macKey
    live := fun info there => (live info).mpr (sound.live info ((registered info).mp there))
    old := by simpa [sameNext, sameDeleted] using sound.old
    once := by simpa [sameDeleted] using sound.once
    pendingLive := fun pending waiting => (live _).mpr (sound.pendingLive pending waiting)
    pendingApart := fun pending waiting there =>
      sound.pendingApart pending waiting ((registered _).mp there)
    removingLive := fun info held => (live info).mpr (sound.removingLive info (removing info held))
    removingApart := fun info held there =>
      sound.removingApart info (removing info held) ((registered info).mp there)
    disjoint := fun pending waiting held => sound.disjoint pending waiting (removing _ held)
    remaining := by simpa [sameDict] using remaining
    remainingOnce := remainingOnce }

theorem sound_change {order : ByteOrder} {machine after : Machine} {event : Event}
    (sound : Sound machine) (change : Change order machine event after) : Sound after := by
  cases change with
  | dropped => exact sound
  | refused =>
      exact sound_poll sound _ machine.poll rfl rfl rfl rfl (fun _ held => held)
        sound.remaining sound.remainingOnce
  | opened request => exact sound_opened sound _ _ _ _ _
  | refreshed id info => exact sound_refreshed sound info _ _
  | registered pending waiting asleep =>
      exact sound_registered sound pending waiting ((asleep_iff _).mp asleep)
  | runt => exact sound
  | framed | forwarded | finished => exact { sound with }
  | swept asleep reading iterated =>
      exact sound_poll sound machine.server _ rfl rfl rfl rfl (by simp [Poll.removing])
        (fun entry member => iterated.mem_iff.mp member)
        (iterated.nodup_iff.mpr (UnorderedMap.entries_nodup _))
  | erased at_entry => exact sound_erased sound at_entry
  | spared at_entry =>
      have nodup := sound.remainingOnce
      rw [at_entry, Poll.entries, List.nodup_cons] at nodup
      exact sound_poll sound machine.server _ rfl rfl rfl rfl (by simp [Poll.removing])
        (fun entry member => sound.remaining entry
          (by simpa [at_entry, Poll.entries] using Or.inr member)) nodup.2
  | awoke =>
      exact sound_poll sound machine.server _ rfl rfl rfl rfl (by simp [Poll.removing])
        (by simp [Poll.entries]) (by simp [Poll.entries])
  | released at_release =>
      exact sound_poll sound _ _ rfl rfl rfl rfl
        (by simp [at_release, Poll.removing])
        (fun entry member => sound.remaining entry (by simpa [at_release, Poll.entries] using member))
        (by simpa [at_release, Poll.entries] using sound.remainingOnce)
  | deleted at_delete => exact sound_deleted sound at_delete

theorem sound_reached {order : ByteOrder} {machine : Machine} (reached : Reached order machine) :
    Sound machine := by
  obtain ⟨mac, secret, random, run⟩ := reached
  exact Runs.reachable_induct Sound run (sound_init order mac secret random)
    fun _ _ _ _ sound taken => sound_change sound (next_change taken)

/-! The addresses. `10.20.30.100` and `10.20.30.200` in host order. -/

def poolLower : UInt32 := 0x0A141E64
def poolUpper : UInt32 := 0x0A141EC8

/-- A record that exists holds its address until the pool has it back. -/
def Holds (machine : Machine) (info : Ptr) : Prop :=
  machine.server.Live info ∧ machine.poll.released ≠ some info

def heldAddresses (machine : Machine) : Set UInt32 :=
  { address | ∃ info, Holds machine info ∧ (machine.server.client info).tun.ip = address }

structure Pooled (order : ByteOrder) (machine : Machine) : Prop where
  upper : machine.server.pool.upper = poolUpper
  serves : machine.server.pool.Serves order poolLower (heldAddresses machine)
  apart : ∀ left right, Holds machine left → Holds machine right →
    (machine.server.client left).tun.ip = (machine.server.client right).tun.ip → left = right

theorem pooled_init (order : ByteOrder) (mac : { mac : Bytes // mac.length = 6 }) (secret : Bytes)
    (random : UInt32) : Pooled order (init order mac secret random) := by
  have none : ∀ info, ¬ Holds (init order mac secret random) info := by
    intro info holds
    exact Nat.not_lt_zero info holds.1.1
  have lower : (init order mac secret random).server.pool.current = poolLower := by
    simp only [init, TunnelServer.new, inetAddr, ntohl_htonl]
    decide
  have upper : (init order mac secret random).server.pool.upper = poolUpper := by
    simp only [init, TunnelServer.new, inetAddr, ntohl_htonl]
    decide
  have unissued : ∀ address,
      ¬ (init order mac secret random).server.pool.Issued order poolLower address := by
    rintro address ⟨host, above, below, _⟩
    rw [lower] at below
    exact UInt32.not_lt.mpr above below
  exact {
    upper := upper
    serves := {
      positive := by decide
      above := by rw [lower]; exact UInt32.le_refl _
      below := by rw [lower, upper]; decide
      freeNodup := by simp [init, TunnelServer.new]
      freeIssued := by simp [init, TunnelServer.new]
      heldIssued := fun address held => absurd held.choose_spec.1 (none _)
      disjoint := by simp [init, TunnelServer.new]
      complete := fun address issued => absurd issued (unissued address) }
    apart := fun left _ holds => absurd holds (none left) }

/-- Steps that move no address: the same records hold the same ones. -/
theorem pooled_same {order : ByteOrder} {machine after : Machine} (pooled : Pooled order machine)
    (samePool : after.server.pool = machine.server.pool)
    (sameHolds : ∀ info, Holds after info ↔ Holds machine info)
    (sameTun : ∀ info, (after.server.client info).tun = (machine.server.client info).tun) :
    Pooled order after := by
  have sameHeld : heldAddresses after = heldAddresses machine := by
    simp [heldAddresses, sameHolds, sameTun]
  exact {
    upper := by rw [samePool, pooled.upper]
    serves := by rw [samePool, sameHeld]; exact pooled.serves
    apart := by simpa [sameHolds, sameTun] using pooled.apart }

/-- After `openSession` the new record holds an address, next to the old ones. -/
theorem holds_opened {order : ByteOrder} {machine : Machine} (sound : Sound machine)
    (peer : SockAddr) (datagram : Bytes) (mac : MacAddress) (random : UInt32) (time : Int)
    (info : Ptr) :
    Holds { machine with
      server := opened order machine.server peer mac random time
      net := some { peer, datagram, info := machine.server.next } } info ↔
      Holds machine info ∨ info = machine.server.next := by
  have free : machine.poll.released ≠ some machine.server.next := by
    intro clash
    have held : machine.poll.removing = some machine.server.next := by
      cases poll : machine.poll <;> simp_all [Poll.released, Poll.removing]
    exact Nat.lt_irrefl _ (sound.removingLive _ held).1
  have unused : machine.server.next ∉ machine.server.deleted :=
    fun gone => Nat.lt_irrefl _ (sound.old _ gone)
  have bound : info < machine.server.next + 1 ↔ info < machine.server.next ∨
      info = machine.server.next := Nat.lt_succ_iff_lt_or_eq
  simp only [Holds, Live, opened, newClient, setClient_next, setClient_deleted, bound]
  constructor
  · rintro ⟨⟨old | new, present⟩, kept⟩
    · exact Or.inl ⟨⟨old, present⟩, kept⟩
    · exact Or.inr new
  · rintro (⟨⟨old, present⟩, kept⟩ | rfl)
    · exact ⟨⟨Or.inl old, present⟩, kept⟩
    · exact ⟨⟨Or.inr rfl, unused⟩, free⟩

theorem pooled_opened {order : ByteOrder} {machine : Machine} (sound : Sound machine)
    (pooled : Pooled order machine) (peer : SockAddr) (datagram : Bytes) (mac : MacAddress)
    (random : UInt32) (time : Int)
    (allocated : (machine.server.pool.allocateAddress order).1 ≠ 0) :
    Pooled order { machine with
      server := opened order machine.server peer mac random time
      net := some { peer, datagram, info := machine.server.next } } := by
  obtain ⟨unheld, serves⟩ := AddressPool.serves_allocate pooled.serves allocated
  have holds := @holds_opened order machine sound peer datagram mac random time
  have oldTun : ∀ info, Holds machine info →
      ((opened order machine.server peer mac random time).client info).tun =
        (machine.server.client info).tun := by
    intro info held
    have different : info ≠ machine.server.next := Nat.ne_of_lt held.1.1
    simp [opened, different]
  have newTun : ((opened order machine.server peer mac random time).client
      machine.server.next).tun.ip = (machine.server.pool.allocateAddress order).1 := by
    simp [opened]
  have sameHeld : heldAddresses { machine with
      server := opened order machine.server peer mac random time
      net := some { peer, datagram, info := machine.server.next } } =
      insert (machine.server.pool.allocateAddress order).1 (heldAddresses machine) := by
    ext address
    simp only [heldAddresses, Set.mem_ofPred_eq, holds, Set.mem_insert_iff]
    constructor
    · rintro ⟨info, held | rfl, same⟩
      · exact Or.inr ⟨info, held, by rw [← same, oldTun info held]⟩
      · exact Or.inl (same.symm.trans newTun)
    · rintro (rfl | ⟨info, held, same⟩)
      · exact ⟨machine.server.next, Or.inr rfl, newTun⟩
      · exact ⟨info, Or.inl held, by rw [oldTun info held, same]⟩
  exact {
    upper := (AddressPool.allocate_upper order machine.server.pool).trans pooled.upper
    serves := by rw [sameHeld]; exact serves
    apart := by
      intro left right leftHeld rightHeld same
      rcases (holds left).mp leftHeld with leftOld | rfl <;>
        rcases (holds right).mp rightHeld with rightOld | rfl
      · rw [oldTun left leftOld, oldTun right rightOld] at same
        exact pooled.apart left right leftOld rightOld same
      · rw [oldTun left leftOld, newTun] at same
        exact absurd ⟨left, leftOld, same⟩ unheld
      · rw [oldTun right rightOld, newTun] at same
        exact absurd ⟨right, rightOld, same.symm⟩ unheld
      · rfl }

theorem pooled_released {order : ByteOrder} {machine : Machine} (sound : Sound machine)
    (pooled : Pooled order machine) {now : Int} {info : Ptr} {entries : List (UInt32 × Ptr)}
    (at_release : machine.poll = .release now info entries) :
    Pooled order { machine with server := machine.server.releaseClient info
                                poll := .delete now info entries } := by
  have live := sound.removingLive info (by simp [at_release, Poll.removing])
  have unreleased : machine.poll.released = none := by simp [at_release, Poll.released]
  have owner : Holds machine info := ⟨live, by simp [unreleased]⟩
  have holds : ∀ other, Holds { machine with server := machine.server.releaseClient info
                                             poll := .delete now info entries } other ↔
      Holds machine other ∧ other ≠ info := by
    intro other
    constructor
    · rintro ⟨present, kept⟩
      exact ⟨⟨present, by simp [unreleased]⟩, fun same => kept (congrArg some same.symm)⟩
    · rintro ⟨⟨present, _⟩, different⟩
      exact ⟨present, fun same => different (Option.some.inj same).symm⟩
  have sameHeld : heldAddresses { machine with server := machine.server.releaseClient info
                                               poll := .delete now info entries } =
      heldAddresses machine \ {(machine.server.client info).tun.ip} := by
    ext address
    simp only [heldAddresses, Set.mem_ofPred_eq, holds, Set.mem_sdiff, Set.mem_singleton_iff]
    constructor
    · rintro ⟨other, ⟨held, different⟩, rfl⟩
      exact ⟨⟨other, held, rfl⟩, fun same => different (pooled.apart other info held owner same)⟩
    · rintro ⟨⟨other, held, rfl⟩, different⟩
      exact ⟨other, ⟨held, fun same => different (by rw [same])⟩, rfl⟩
  exact {
    upper := pooled.upper
    serves := by
      rw [sameHeld]
      exact AddressPool.serves_release pooled.serves _ ⟨info, owner, rfl⟩
    apart := fun left right leftHeld rightHeld =>
      pooled.apart left right ((holds left).mp leftHeld).1 ((holds right).mp rightHeld).1 }

theorem pooled_change {order : ByteOrder} {machine after : Machine} {event : Event}
    (sound : Sound machine) (pooled : Pooled order machine)
    (change : Change order machine event after) : Pooled order after := by
  cases change with
  | dropped => exact pooled
  | refused request idle asked exhausted =>
      have samePool := AddressPool.allocate_failed pooled.serves exhausted
      exact pooled_same pooled samePool (fun _ => Iff.rfl) (fun _ => rfl)
  | opened request idle asked allocated => exact pooled_opened sound pooled _ _ _ _ _ allocated
  | refreshed id info =>
      exact pooled_same pooled rfl (fun _ => Iff.rfl) (fun other => refreshClient_tun ..)
  | registered pending => exact pooled_same pooled rfl (fun _ => Iff.rfl) (fun _ => rfl)
  | runt => exact pooled
  | framed | forwarded | finished =>
      exact pooled_same pooled rfl (fun _ => Iff.rfl) (fun _ => rfl)
  | swept asleep =>
      have sleeping := (asleep_iff _).mp asleep
      exact pooled_same pooled rfl (by simp [Holds, sleeping, Poll.released]) (fun _ => rfl)
  | erased at_entry =>
      exact pooled_same pooled rfl
        (by intro info; simp only [Holds, at_entry, Poll.released]; rfl) (fun _ => rfl)
  | spared at_entry =>
      exact pooled_same pooled rfl (by simp [Holds, at_entry, Poll.released]) (fun _ => rfl)
  | awoke at_end =>
      exact pooled_same pooled rfl (by simp [Holds, at_end, Poll.released]) (fun _ => rfl)
  | released at_release => exact pooled_released sound pooled at_release
  | @deleted now info entries at_delete =>
      refine pooled_same pooled rfl (fun other => ?_) (fun _ => rfl)
      simp only [Holds, Live, at_delete, Poll.released, deleteClient, List.mem_cons, not_or]
      constructor
      · rintro ⟨⟨bound, different, present⟩, _⟩
        exact ⟨⟨bound, present⟩, fun same => different (Option.some.inj same).symm⟩
      · rintro ⟨⟨bound, present⟩, different⟩
        exact ⟨⟨bound, fun same => different (congrArg some same.symm), present⟩, by simp⟩

theorem pooled_reached {order : ByteOrder} {machine : Machine} (reached : Reached order machine) :
    Pooled order machine := by
  obtain ⟨mac, secret, random, run⟩ := reached
  have both : Sound machine ∧ Pooled order machine :=
    Runs.reachable_induct (fun machine => Sound machine ∧ Pooled order machine) run
      ⟨sound_init order mac secret random, pooled_init order mac secret random⟩
      fun _ _ _ _ before taken => ⟨sound_change before.1 (next_change taken),
        pooled_change before.1 before.2 (next_change taken)⟩
  exact both.2

/-! A scenario to evaluate runs on: a server whose secret is empty, so that its
key is zero and packets are in clear, and clients that differ in the last byte
of their MAC. -/

def plainServer : Machine := init .little ⟨[2, 0, 0, 0, 0, 1], rfl⟩ [] 5

def plainPeer : SockAddr := { sinFamily := 2, sinPort := 0x2823, sinAddr := 0x0100000A }

def plainMac (last : UInt8) : MacAddress := ⟨[2, 0, 0, 0, 0, last], 0, rfl⟩

def plainRequest (last : UInt8) : Bytes :=
  [2, 1, 8, 0, 0, 0, 0, 0, 2, 0, 0, 0, 0, last, 0, 0]

def plainHeartbeat (identity : UInt8) : Bytes := [1, 1, 4, 0, identity, 0, 0, 0, 0, 0, 0, 0]

def plainSession (last : UInt8) (random : UInt32) (time : Int) : List Event :=
  [.datagram plainPeer (plainRequest last) random time, .register]

/-- Two clients, of which only the first is refreshed before a sweep. -/
def plainClients : List Event :=
  plainSession 7 11 0 ++ plainSession 8 12 1 ++
    [.datagram plainPeer (plainHeartbeat 11) 0 40, .sweep 46 [(11, 0), (12, 1)], .visit, .visit,
      .release, .delete, .visit]

end Muddymask
