import Muddymask.Expiry
import Muddymask.Progress

/-!
Heartbeats keep a session. As long as no sweep begins 45 seconds after the last
one or later, `dict.id` maps the identity to the same record, the record keeps
its virtual IP, and no reply of the server makes the client stop, whatever else
is lost, repeated, reordered or sent by strangers.
-/

namespace Muddymask

open Words TunnelServer

def Poll.reading : Poll → Option Int
  | sleep => none
  | sweep now _ | release now _ _ | delete now _ _ => some now

namespace Machine

def sweepReading : Event → Option Int
  | .sweep now _ => some now
  | _ => none

/-- The session with the identity has been refreshed lately if this is a sweep. -/
def InTime (identity : UInt32) (machine : Machine) (event : Event) : Prop :=
  ∀ info ∈ machine.server.dict.id.find identity, ∀ now ∈ sweepReading event,
    ¬ machine.server.Expired now info

/-- `info` is the record of the identity, and a sweep under way passes it by. -/
structure Kept (identity : UInt32) (info : Ptr) (tun : Tun) (machine : Machine) :
    Prop where
  known : machine.server.dict.id.find identity = some info
  tun : (machine.server.client info).tun = tun
  spared : ∀ now ∈ machine.poll.reading, ¬ machine.server.Expired now info

theorem kept_change {order : ByteOrder} {identity : UInt32} {info : Ptr} {tun : Tun}
    {machine after : Machine} {event : Event} (sound : Sound machine)
    (kept : Kept identity info tun machine) (inTime : InTime identity machine event)
    (change : Change order machine event after) : Kept identity info tun after := by
  have present := (UnorderedMap.mem_iff_find ..).mpr kept.known
  have awake : machine.poll.asleep = true → ∀ now, now ∉ machine.poll.reading := by
    intro asleep now reading
    rw [(asleep_iff _).mp asleep] at reading
    cases reading
  cases change with
  | opened request idle asked allocated =>
      have old : info ≠ machine.server.next :=
        Nat.ne_of_lt (sound.live info (Or.inl ⟨identity, present⟩)).1
      refine ⟨kept.known, ?_, fun now reading => ?_⟩
      · simpa [opened, newClient_client, old] using kept.tun
      · simpa [opened, Expired, newClient_client, old] using kept.spared now reading
  | refreshed id other idle heard known asleep =>
      refine ⟨kept.known, (refreshClient_tun ..).trans kept.tun, fun now reading => ?_⟩
      exact absurd reading (awake asleep now)
  | registered pending waiting asleep reading =>
      refine ⟨?_, kept.tun, fun now reading => absurd reading (awake asleep now)⟩
      -- `insert` leaves an entry alone that is there already.
      rw [registerClient, UnorderedMap.find_insert, kept.known, Option.some_or]
  | @swept now entries asleep reading iterated =>
      refine ⟨kept.known, kept.tun, ?_⟩
      rintro _ ⟨rfl⟩
      exact inTime info kept.known now rfl
  | @erased now entry entries at_entry expired =>
      have survives := kept.spared now (by simp [at_entry, Poll.reading])
      have apart : (identity == entry.1) = false := by
        rw [beq_eq_false_iff_ne]
        rintro rfl
        have stored := sound.remaining entry (by simp [at_entry, Poll.entries])
        have same := (UnorderedMap.mem_iff_find ..).mp stored
        cases Option.some.inj (kept.known.symm.trans same)
        exact survives expired
      refine ⟨?_, kept.tun, ?_⟩
      · simp [eraseClient, UnorderedMap.find_erase, apart, kept.known]
      · rintro _ ⟨rfl⟩
        exact survives
  | spared at_entry | released at_release | deleted at_delete =>
      refine ⟨kept.known, kept.tun, ?_⟩
      rintro _ ⟨rfl⟩
      exact kept.spared _ (by simp [Poll.reading, *])
  | awoke => exact ⟨kept.known, kept.tun, by simp [Poll.reading]⟩
  | _ => exact ⟨kept.known, kept.tun, kept.spared⟩

end Machine

namespace Station

variable {order : ByteOrder} {station : Station} {node after : Node} {turn : Turn}

theorem adopted_step (candid : Candid order station node) {info : SessionInfo}
    (session : node.adopted = some info) (taken : station.step order node turn = some after) :
    after.adopted = some info := by
  have fresh := candid.session
  obtain ⟨process, adopted, outbox, returned, given⟩ := node
  cases session
  obtain ⟨⟨process', actions⟩, moved, rfl⟩ := Option.map_eq_some_iff.mp taken
  cases process with
  | session phase => cases fresh phase rfl
  | running running => simp [record, adopts_running]
  | ended => cases moved

end Station

namespace Network

variable {Host : Type} {order : ByteOrder} {station : Host → Station}
  {network after : Network Host}

/-- After the run `past`, a sweep that begins finds the last refresh of the
session, its request or a heartbeat, less than 45 seconds old. -/
def Timely (order : ByteOrder) (origin : Machine) (identity : UInt32) (record : Ptr)
    (past : List (Event Host)) : Event Host → Prop
  | .server (.sweep now _) =>
      ∃ t ∈ (refreshTimes order identity record origin (past.filterMap serverEvent)).getLast?,
        now - t < 45
  | _ => True

instance (order : ByteOrder) (origin : Machine) (identity : UInt32) (record : Ptr)
    (past : List (Event Host)) (event : Event Host) :
    Decidable (Timely order origin identity record past event) :=
  match event with
  | .server (.sweep ..) => inferInstanceAs (Decidable (∃ _ ∈ _, _))
  | .server (.datagram ..) | .server .register | .server (.frame ..) | .server .forward
  | .server .visit | .server .release | .server .delete | .turn .. | .deliver .. | .stray .. =>
      isTrue trivial

/-- `host` has a session with the record `record`, and was never refused it. -/
structure Attached (order : ByteOrder) (station : Host → Station) (host : Host)
    (info : SessionInfo) (record : Ptr) (tun : Tun) (network : Network Host) : Prop where
  whole : Whole order station network
  reached : Machine.Reached order network.machine
  session : (network.node host).adopted = some info
  kept : network.machine.Kept info.identity record tun
  unrefused : ¬ Refused (station host) network.sent (network.node host).outbox info.identity

section Steps
variable {host : Host} {info : SessionInfo} {record : Ptr} {tun : Tun}

theorem attached_served (attached : Attached order station host info record tun network)
    {event : Muddymask.Event} {result : Machine × List Action}
    (whole : Whole order station (network.served event result))
    (stepped : network.machine.step order event = some result)
    (inTime : network.machine.InTime info.identity event) :
    Attached order station host info record tun (network.served event result) := by
  obtain ⟨machine, actions⟩ := result
  have moved : Machine.next order network.machine event = some machine := by
    simp [Machine.next, stepped]
  have sound := sound_reached attached.reached
  refine ⟨whole, Machine.reached_next attached.reached event moved, attached.session,
    Machine.kept_change sound attached.kept inTime (Machine.next_change moved), ?_⟩
  rintro ⟨reply, member, address, datagram, random, time, said, same, gone⟩
  rcases List.mem_append.mp member with old | new
  · exact attached.unrefused ⟨reply, old, address, datagram, random, time, said, same, gone⟩
  · rw [(Exchange.mem_sends new).1, attached.kept.known] at gone
    cases gone

theorem attached_placed [DecidableEq Host]
    (attached : Attached order station host info record tun network)
    {mover : Host} {turn : Station.Turn} {node : Station.Node}
    (whole : Whole order station (network.placed mover node))
    (taken : (station mover).step order (network.node mover) turn = some node) :
    Attached order station host info record tun (network.placed mover node) := by
  by_cases same : host = mover
  · subst same
    refine ⟨whole, attached.reached, ?_, attached.kept, ?_⟩
    · rw [placed_node]
      exact Station.adopted_step (attached.whole.candid host) attached.session taken
    · -- What the server has taken of the host, the host had sent before.
      rintro ⟨reply, member, address, datagram, random, time, _, event, gone⟩
      have said := attached.whole.asked reply member _ _ _ _ event host rfl
      exact attached.unrefused ⟨reply, member, address, datagram, random, time, said, event, gone⟩
  · refine ⟨whole, attached.reached, ?_, attached.kept, ?_⟩
    · rw [placed_other same]
      exact attached.session
    · rw [placed_other same]
      exact attached.unrefused

theorem attached_runs (attached : Attached order station host info record tun network)
    {running : Station.Running} (process : (network.node host).process = .running running) :
    running.client.stop = false := by
  by_contra stopped
  have refused := attached.whole.refused host running process (by simpa using stopped)
  obtain ⟨own, adopted, same⟩ := (attached.whole.candid host).client running process
  cases adopted.symm.trans attached.session
  rw [same] at refused
  exact attached.unrefused refused

variable [Fintype Host] [DecidableEq Host]

theorem attached_step (attached : Attached order station host info record tun network)
    {event : Event Host}
    (inTime : ∀ sent, event = .server sent → network.machine.InTime info.identity sent)
    (taken : network.step order station event = some after) :
    Attached order station host info record tun after := by
  have whole := whole_step attached.whole taken
  cases step_moves taken with
  | served allowed stepped => exact attached_served attached whole stepped (inTime _ rfl)
  | turned _ moved | delivered _ _ moved | strayed _ moved =>
      exact attached_placed attached whole moved

end Steps

section Run
variable [Fintype Host] [DecidableEq Host] {host : Host} {info : SessionInfo} {record : Ptr}
  {tun : Tun} {mac : { mac : Bytes // mac.length = 6 }} {secret : Bytes} {random : UInt32}
  {events : List (Event Host)}

theorem inTime_of_timely
    (past : Runs.run (step order station) (start (Machine.init order mac secret random)) events =
      some network) (attached : Attached order station host info record tun network)
    {event : Muddymask.Event} (timely : Timely order (Machine.init order mac secret random)
      info.identity record events (.server event)) : network.machine.InTime info.identity event := by
  intro other known now begins
  cases Option.some.inj (attached.kept.known.symm.trans known)
  cases event with
  | sweep reading entries =>
      cases begins
      obtain ⟨t, last, fresh⟩ := timely
      have present := (UnorderedMap.mem_iff_find ..).mpr known
      have clocked := (clocked_run (machine_run past)).registered _ _ present
      cases clocked.symm.trans last
      exact not_not.mpr fresh
  | _ => cases begins

theorem attached_always
    (past : Runs.run (step order station) (start (Machine.init order mac secret random)) events =
      some network) (attached : Attached order station host info record tun network)
    {more : List (Event Host)}
    (timely : ∀ i (inside : i < more.length), Timely order (Machine.init order mac secret random)
      info.identity record (events ++ more.take i) more[i]) :
    Runs.Always (step order station) (Attached order station host info record tun) network more := by
  induction more generalizing events network with
  | nil => exact attached
  | cons event rest ih =>
      refine ⟨attached, fun next taken => ?_⟩
      have later := attached_step attached (fun sent same => inTime_of_timely past attached ?_) taken
      · refine ih ((Runs.run_concat ..).mpr ⟨network, past, taken⟩) later fun i inside => ?_
        simpa using timely (i + 1) (Nat.succ_lt_succ inside)
      · simpa [same] using timely 0 (Nat.succ_pos _)

end Run

/-- From every reachable state in which a host's session is in `dict.id` and no
sweep is under way: in every run on from there in which every sweep begins less
than 45 seconds after the last refresh of the session, it stays there with its
record and its virtual IP, and the host's client never stops. -/
theorem kept_alive [Fintype Host] [DecidableEq Host] (order : ByteOrder) (station : Host → Station)
    (mac : { mac : Bytes // mac.length = 6 }) (secret : Bytes) (random : UInt32)
    (key : DummyCrypto.new order secret = DummyCrypto.new order Client.secret)
    (events : List (Event Host)) (network : Network Host)
    (past : Runs.run (step order station) (start (Machine.init order mac secret random)) events =
      some network) (host : Host) (info : SessionInfo)
    (session : (network.node host).adopted = some info) (record : Ptr)
    (known : network.machine.server.dict.id.find info.identity = some record)
    (asleep : network.machine.poll.asleep = true)
    (unrefused : ¬ Refused (station host) network.sent (network.node host).outbox info.identity)
    (more : List (Event Host))
    (timely : ∀ i (inside : i < more.length), Timely order (Machine.init order mac secret random)
      info.identity record (events ++ more.take i) more[i]) :
    Runs.Always (step order station)
      (fun after => after.machine.server.dict.id.find info.identity = some record ∧
        (after.machine.server.client record).tun = (network.machine.server.client record).tun ∧
        ∀ running, (after.node host).process = .running running → running.client.stop = false)
      network more := by
  have attached : Attached order station host info record
      (network.machine.server.client record).tun network := by
    refine ⟨whole_reached key past, machine_reached past, session, ⟨known, rfl, ?_⟩, unrefused⟩
    rw [(asleep_iff _).mp asleep]
    simp [Poll.reading]
  refine Runs.always_mono (Attached order station host info record
    (network.machine.server.client record).tun) _ (fun after attached => ?_) _ _
    (attached_always past attached timely)
  exact ⟨attached.kept.known, attached.kept.tun, fun _ => attached_runs attached⟩

def plainBeat : List (Event Unit) :=
  let client := TunnelClient.new .little Client.secret 11 Station.plainStation.config.remote
  [.turn () (.heart 7), .turn () (.heart 0), .turn () (.heart 0),
    .server (.datagram Station.plainStation.address (client.heartbeat .little 7) 0 30),
    .server (.sweep 60 [(11, 0)]), .server .visit, .server .visit]

theorem kept_alive_beat : ∃ network info,
    Runs.run (step .little plainHost) (start Exchange.plainHonest) (plainTalk.take 5) =
      some network ∧ (network.node ()).adopted = some info ∧
    Runs.Always (step .little plainHost)
      (fun after => after.machine.server.dict.id.find info.identity = some 0 ∧
        (after.machine.server.client 0).tun = (network.machine.server.client 0).tun ∧
        ∀ running, (after.node ()).process = .running running → running.client.stop = false)
      network plainBeat := by
  have checked : ((Runs.run (step .little plainHost) (start Exchange.plainHonest)
      (plainTalk.take 5)).any fun network => (network.node ()).adopted.any fun info =>
        decide (network.machine.server.dict.id.find info.identity = some 0) &&
        network.machine.poll.asleep &&
        (network.sent.all fun reply =>
          Exchange.genuine Station.plainStation.address [] reply.event) &&
        decide (∀ i (inside : i < plainBeat.length), Timely .little Exchange.plainHonest
          info.identity 0 (plainTalk.take 5 ++ plainBeat.take i) plainBeat[i])) = true := by
    decide +kernel
  obtain ⟨network, past, checked⟩ := (Option.any_eq_true ..).mp checked
  obtain ⟨info, session, checked⟩ := (Option.any_eq_true ..).mp checked
  simp only [Bool.and_eq_true, decide_eq_true_eq, List.all_eq_true] at checked
  obtain ⟨⟨⟨known, asleep⟩, others⟩, timely⟩ := checked
  have unrefused : ¬ Refused (plainHost ()) network.sent (network.node ()).outbox
      info.identity := by
    rintro ⟨reply, member, _, datagram, drawn, time, _, event, _⟩
    have genuine := others reply member
    rw [event] at genuine
    have nothing : (plainHost ()).address = Station.plainStation.address →
        datagram ∈ ([] : List Bytes) := of_decide_eq_true genuine
    exact List.not_mem_nil (nothing rfl)
  exact ⟨network, info, past, session, kept_alive .little plainHost ⟨[2, 0, 0, 0, 0, 2], rfl⟩
    Client.secret 5 rfl (plainTalk.take 5) network past () info session 0 known asleep unrefused
    plainBeat timely⟩

example : (Runs.run (step .little plainHost) (start Exchange.plainHonest)
    (plainTalk.take 5 ++ plainBeat)).map (fun after => after.machine.server.dict.id.entries) =
      some [(11, 0)] := by
  decide +kernel

end Network

end Muddymask
