import Muddymask.Registry
import Muddymask.Turns

/-!
What a datagram can do to the sessions that exist. A request can only add to
the dictionaries, and relayed data and heartbeats leave them alone; the record
a heartbeat writes to is the one its identity leads to, and no record is
reachable under two identities.
-/

namespace Muddymask

open Words TunnelServer Machine

/-- What holds between the server before and after a datagram of `peer`. -/
structure Isolated (order : ByteOrder) (before after : TunnelServer) (peer : SockAddr)
    (datagram : Bytes) : Prop where
  idKept : ∀ entry ∈ before.dict.id.entries, entry ∈ after.dict.id.entries
  macKept : ∀ entry ∈ before.dict.mac.entries, entry ∈ after.dict.mac.entries
  idRoute : ∀ id info, before.dict.id.find id = some info → after.dict.id.find id = some info
  macRoute : ∀ mac info, before.dict.mac.find mac = some info →
    after.dict.mac.find mac = some info
  keys : ∀ info, before.Registered info → (after.client info).tun = (before.client info).tun ∧
    (after.client info).identity = (before.client info).identity
  /-- Only a heartbeat for a record's own identity touches the rest of the record. -/
  clock : ∀ info, before.Registered info →
    (∀ id, heartbeatIdentity order before.crypto datagram = some id →
      before.dict.id.find id ≠ some info) →
    (after.client info).alive = (before.client info).alive ∧
      (after.client info).address = (before.client info).address
  moved : ∀ id info, heartbeatIdentity order before.crypto datagram = some id →
    before.dict.id.find id = some info →
    (after.client info).address.sinAddr = peer.sinAddr ∧
      (after.client info).address.sinPort = peer.sinPort

/-- Every datagram that is no heartbeat of a known session: the records are
untouched and the dictionaries only grow. -/
theorem isolated_growing {order : ByteOrder} {before after : TunnelServer} {peer : SockAddr}
    {datagram : Bytes}
    (unheard : ∀ id, heartbeatIdentity order before.crypto datagram = some id →
      before.dict.id.find id = none)
    (idKept : ∀ entry ∈ before.dict.id.entries, entry ∈ after.dict.id.entries)
    (macKept : ∀ entry ∈ before.dict.mac.entries, entry ∈ after.dict.mac.entries)
    (same : ∀ info, before.Registered info → after.client info = before.client info) :
    Isolated order before after peer datagram where
  idKept := idKept
  macKept := macKept
  idRoute := by
    intro id info found
    obtain ⟨stored, member, hit⟩ := (UnorderedMap.find_eq_some_iff _ _ _).mp found
    exact (UnorderedMap.find_eq_some_iff _ _ _).mpr ⟨stored, idKept _ member, hit⟩
  macRoute := by
    intro mac info found
    obtain ⟨stored, member, hit⟩ := (UnorderedMap.find_eq_some_iff _ _ _).mp found
    exact (UnorderedMap.find_eq_some_iff _ _ _).mpr ⟨stored, macKept _ member, hit⟩
  keys := fun info there => by simp [same info there]
  clock := fun info there _ => by simp [same info there]
  moved := by
    intro id info heard known
    simp [unheard id heard] at known

theorem isolated_refreshed {order : ByteOrder} {before : TunnelServer} {peer : SockAddr}
    {datagram : Bytes} {id : UInt32} {info : Ptr} (time : Int)
    (heard : heartbeatIdentity order before.crypto datagram = some id)
    (known : before.dict.id.find id = some info) :
    Isolated order before (before.refreshClient info peer time) peer datagram where
  idKept := fun _ member => member
  macKept := fun _ member => member
  idRoute := fun _ _ found => found
  macRoute := fun _ _ found => found
  keys := fun other _ => ⟨refreshClient_tun .., refreshClient_identity ..⟩
  clock := by
    intro other _ apart
    have different : other ≠ info := by
      rintro rfl
      exact apart id heard known
    simp [refreshClient, different]
  moved := by
    intro other target heard' known'
    cases Option.some.inj (heard.symm.trans heard')
    cases Option.some.inj (known.symm.trans known')
    simp only [refreshClient, setClient_client, ↓reduceIte]
    split
    · exact ⟨rfl, rfl⟩
    · rename_i same
      -- An address that is not replaced is the peer's already.
      simpa [not_or] using same

theorem session_isolation (order : ByteOrder) (machine : Machine) (reached : Reached order machine)
    (peer : SockAddr) (datagram : Bytes) (random : UInt32) (time : Int) :
    Isolated order machine.server
      (machine.server.handleNetworkDatagram order peer datagram random time).1 peer datagram := by
  have sound := sound_reached reached
  rcases handle_cases order machine.server peer datagram random time with
    ⟨_, unknown, same⟩ | ⟨request, asked, ⟨_, same⟩ | ⟨_, same⟩⟩ | ⟨id, info, heard, known, same⟩
  · rw [same]
    exact isolated_growing unknown (fun _ => id) (fun _ => id) (fun _ _ => rfl)
  · rw [same]
    exact isolated_growing (by simp [heartbeat_no_request asked]) (fun _ => id) (fun _ => id)
      (fun _ _ => rfl)
  · rw [same]
    refine isolated_growing (by simp [heartbeat_no_request asked])
      (fun _ member => (mem_register_id ..).mpr (Or.inl member))
      (fun _ member => (mem_register_mac ..).mpr (Or.inl member)) (fun info there => ?_)
    have old : info ≠ machine.server.next := Nat.ne_of_lt (sound.live info there).1
    simp [registerClient, opened, old]
  · rw [same]
    exact isolated_refreshed time heard known

theorem session_isolation_heartbeat : ∃ machine,
    Runs.run (next .little) plainServer (plainSession 7 11 0 ++ plainSession 7 12 1) = some machine ∧
      machine.server.dict.id.find 12 = some 1 ∧
      Isolated .little machine.server
        (machine.server.handleNetworkDatagram .little plainPeer (plainHeartbeat 12) 0 40).1
        plainPeer (plainHeartbeat 12) := by
  have computed : (Runs.run (next .little) plainServer
      (plainSession 7 11 0 ++ plainSession 7 12 1)).map (fun machine =>
        machine.server.dict.id.find 12) = some (some 1) := by
    decide +kernel
  obtain ⟨machine, past, known⟩ := Option.map_eq_some_iff.mp computed
  exact ⟨machine, past, known, session_isolation .little machine ⟨_, _, _, _, past⟩ plainPeer
    (plainHeartbeat 12) 0 40⟩

end Muddymask
