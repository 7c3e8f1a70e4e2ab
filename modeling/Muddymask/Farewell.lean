import Muddymask.Progress

/-!
A client whose session is gone can find out and come to an end. All it takes is
that the server finishes what it has begun, that one heartbeat gets to it, that
the answer gets back, and a frame if a thread is in `veth->read`; nothing has to
fail for it.
-/

namespace Muddymask

open Words TunnelServer

namespace Station

variable {order : ByteOrder} {station : Station} {node : Node}

theorem heart_sends (candid : Candid order station node) {running : Running}
    (process : node.process = .running running) (going : running.client.stop = false) :
    ∃ turns after data, (∀ turn ∈ turns, Willing turn) ∧
      Runs.run (station.step order) node turns = some after ∧
      after.process = .running { running with heart := .test data } ∧ data ∈ after.outbox := by
  have lasting := candid.lasting running process
  obtain ⟨_, adopted, outbox, returned, given⟩ := node
  cases process
  obtain ⟨client, heart, veth⟩ := running
  -- past the test, one more turn sends
  have last : ∀ data, ∃ after,
      station.step order ⟨.running ⟨client, .sleep data, veth⟩, adopted, outbox, returned, given⟩
        (.heart 0) = some after ∧
      after.process = .running ⟨client, .test data, veth⟩ ∧ data ∈ after.outbox :=
    fun data => ⟨_, rfl, rfl, List.mem_append_right _ (by simp [sends])⟩
  have test : ∀ data,
      station.step order ⟨.running ⟨client, .test data, veth⟩, adopted, outbox, returned, given⟩
        (.heart 0) =
          some ⟨.running ⟨client, .sleep data, veth⟩, adopted, outbox, returned, given⟩ := by
    intro data
    have going : client.stop = false := going
    simp [step, turn, runningTurn, record, going, sends, writes, adopts, reads]
  cases heart with
  | start =>
      obtain ⟨after, sent, rest⟩ := last (client.heartbeat order 0)
      refine ⟨[.heart 0, .heart 0, .heart 0], after, _, by simp [Willing], ?_, rest⟩
      refine (Runs.run_cons ..).mpr ⟨
        ⟨.running ⟨client, .test (client.heartbeat order 0), veth⟩, adopted, outbox, returned, given⟩,
        by simp [step, turn, runningTurn, record, sends, writes, adopts, reads], ?_⟩
      exact (Runs.run_cons ..).mpr ⟨_, test _, Runs.run_one sent⟩
  | test data =>
      obtain ⟨after, sent, rest⟩ := last data
      exact ⟨[.heart 0, .heart 0], after, data, by simp [Willing],
        (Runs.run_cons ..).mpr ⟨_, test data, Runs.run_one sent⟩, rest⟩
  | sleep data =>
      obtain ⟨after, sent, rest⟩ := last data
      exact ⟨[.heart 0], after, data, by simp [Willing], Runs.run_one sent, rest⟩
  | returned => exact absurd (going.symm.trans (lasting rfl)) Bool.false_ne_true

theorem stopped_ends (stopped : Stopped node.process) :
    ∃ turns after, (∀ turn ∈ turns, Willing turn) ∧
      Runs.run (station.step order) node turns = some after ∧ after.process = .ended := by
  have progress : ∀ node : Node, Stopped node.process → ¬ node.process = .ended →
      ∃ turn next, Willing turn ∧ station.step order node turn = some next ∧
        Stopped next.process ∧ next.process.left < node.process.left := by
    intro node stopped alive
    obtain ⟨turn, listed, moves⟩ := @stopped_goes_on order station node stopped alive 0 []
    obtain ⟨next, taken⟩ := Option.isSome_iff_exists.mp moves
    obtain ⟨still, winds⟩ := stopped_step stopped taken
    refine ⟨turn, next, ?_, taken, still, by have := winds.left; omega⟩
    simp only [List.mem_cons, List.not_mem_nil, or_false] at listed
    rcases listed with rfl | rfl | rfl <;> trivial
  obtain ⟨turns, after, willing, past, _, ended⟩ := Runs.settles (fun node => Stopped node.process)
    (fun node => node.process = .ended) Willing (fun node => node.process.left) progress node stopped
  exact ⟨turns, after, willing, past, ended⟩

end Station

namespace Machine

theorem step_restarts {order : ByteOrder} {machine : Machine} {client : TunnelClient}
    (gone : Gone client.identity machine) (rest : AtRest machine)
    (key : machine.server.crypto = client.crypto) (peer : SockAddr) (made : UInt32)
    (random : UInt32) (time : Int) :
    machine.step order (.datagram peer (client.heartbeat order made) random time) =
      some (machine, [machine.server.sendErrorCode order peer .kRestartSession]) := by
  obtain ⟨server, net, veth, poll⟩ := machine
  obtain ⟨rfl, rfl, rfl⟩ := rest
  simp [step, receive, TunnelClient.dispatch_heartbeat order _ client key, Poll.asleep,
    handleHeartbeat, gone.1]

end Machine

namespace Network

variable {Host : Type} [Fintype Host] [DecidableEq Host] {order : ByteOrder}
  {station : Host → Station} {network : Network Host}

theorem heartbeat_stops (whole : Whole order station network) (host : Host)
    (alone : ∀ other, (station other).address = (station host).address → other = host)
    (family : (station host).config.remote.sinFamily = TunnelClient.afInet)
    {running : Station.Running} (process : (network.node host).process = .running running)
    (going : running.client.stop = false)
    (gone : Machine.Gone running.client.identity network.machine)
    (rest : Machine.AtRest network.machine) {made : UInt32}
    (sent : running.client.heartbeat order made ∈ (network.node host).outbox) (drawn : UInt32)
    (time : Int) :
    ∃ index after, Runs.run (step order station) network
        [.server (.datagram (station host).address (running.client.heartbeat order made) drawn time),
          .deliver host index] = some after ∧ Station.Stopped (after.node host).process := by
  have key := whole.sameKey process
  have valid := (whole.candid host).hears process family
  let event : Muddymask.Event :=
    .datagram (station host).address (running.client.heartbeat order made) drawn time
  let reply := network.machine.server.sendErrorCode order (station host).address .kRestartSession
  have answered : network.machine.step order event = some (network.machine, [reply]) :=
    Machine.step_restarts gone rest key.symm (station host).address made drawn time
  let detail : ErrorDetail := { code := ErrorCode.kRestartSession.code }
  let data := network.machine.server.packet order PacketHeader.kErrorDetail (detail.encode order)
  have heard := TunnelClient.handle_packet order network.machine.server running.client key _ valid
    PacketHeader.kErrorDetail (detail.encode order) (by rw [ErrorDetail.encode_length]; decide)
  rw [if_pos rfl] at heard
  let stopped : Station.Node := { network.node host with
    process := .running { running with client := { running.client with stop := true } } }
  have told : (station host).step order ((network.served event (network.machine, [reply])).node host)
      (.receive (station host).config.remote data) = some stopped := by
    simp [served, Station.step, Station.turn, process, Station.runningTurn, going, data, heard,
      Station.record, stopped, Station.adopts, Station.reads, Station.sends, writes]
  have member : (⟨network.machine, event, (station host).address, data⟩ : Sent) ∈
      (network.served event (network.machine, [reply])).sent :=
    List.mem_append_right _ List.mem_cons_self
  obtain ⟨index, delivered⟩ := deliver_taken member rfl told
  exact ⟨index, _, (Runs.run_cons ..).mpr ⟨_, server_taken (genuine_said alone sent drawn time)
    answered, Runs.run_one delivered⟩, by simp [stopped, Station.Stopped]⟩

/-- Whenever the session of a client that goes on is gone, the process can end,
and of the datagrams only one of the host and its answer have to arrive. The
turns of the host do not fail, and one of them may have to read a frame. -/
theorem can_end (order : ByteOrder) (station : Host → Station)
    (mac : { mac : Bytes // mac.length = 6 }) (secret : Bytes) (random : UInt32)
    (key : DummyCrypto.new order secret = DummyCrypto.new order Client.secret)
    (events : List (Event Host)) (network : Network Host)
    (past : Runs.run (step order station) (start (Machine.init order mac secret random)) events =
      some network)
    (host : Host) (alone : ∀ other, (station other).address = (station host).address → other = host)
    (family : (station host).config.remote.sinFamily = TunnelClient.afInet)
    (running : Station.Running) (process : (network.node host).process = .running running)
    (going : running.client.stop = false)
    (gone : Machine.Gone running.client.identity network.machine) (drawn : UInt32) (time : Int) :
    ∃ (finishing : List Muddymask.Event) (sending ending : List Station.Turn) (data : Bytes)
      (index : Nat) (after : Network Host),
      (∀ event ∈ finishing, Machine.Finishing event) ∧
      (∀ turn ∈ sending ++ ending, Station.Willing turn) ∧
      Runs.run (step order station) network
        (finishing.map .server ++ sending.map (.turn host) ++
          [.server (.datagram (station host).address data drawn time), .deliver host index] ++
          ending.map (.turn host)) = some after ∧
      (after.node host).process = .ended := by
  have whole := whole_reached key past
  -- the server comes to rest, and the session is still gone
  obtain ⟨finishing, machine, finish, quiet, stillGone, rest⟩ :=
    Machine.comes_to_idle order (Machine.Gone running.client.identity)
      (fun _ _ _ => Machine.gone_change) gone
  obtain ⟨calm, calmed, same, unmoved⟩ :=
    @server_run Host order station network _ _ finishing finish machine quiet
  have process : (calm.node host).process = .running running := by rw [unmoved]; exact process
  -- the heartbeat thread sends
  have calmWhole := whole_reached key ((Runs.run_append ..).mpr ⟨network, past, calmed⟩)
  obtain ⟨sending, node, data, willing, sent, beating, said⟩ :=
    Station.heart_sends (calmWhole.candid host) process going
  have beaten := turn_run willing sent
  let talked := calm.placed host node
  have talkedWhole : Whole order station talked := whole_reached key ((Runs.run_append ..).mpr
    ⟨network, past, (Runs.run_append ..).mpr ⟨calm, calmed, beaten⟩⟩)
  have speaking : (talked.node host).process = .running { running with heart := .test data } := by
    simpa [talked] using beating
  obtain ⟨made, beat⟩ := (talkedWhole.candid host).data _ data speaking (Or.inl rfl)
  change data = running.client.heartbeat order made at beat
  subst beat
  -- the server answers, and the client gets the answer
  have machineSame : talked.machine = machine := same
  obtain ⟨index, told, answered, stopped⟩ := heartbeat_stops talkedWhole host alone family speaking
    going (machineSame ▸ stillGone) (machineSame ▸ rest) (by simpa [talked] using said) drawn time
  obtain ⟨ending, last, willingly, ended, final⟩ :=
    @Station.stopped_ends order (station host) _ stopped
  refine ⟨finishing, sending, ending, running.client.heartbeat order made, index,
    told.placed host last, finish, ?_, ?_, by simpa using final⟩
  · exact List.forall_mem_append.mpr ⟨willing, willingly⟩
  · refine (Runs.run_append ..).mpr ⟨told, ?_, turn_run willingly ended⟩
    exact (Runs.run_append ..).mpr ⟨talked, (Runs.run_append ..).mpr ⟨calm, calmed, beaten⟩, answered⟩

def clientOf : Station.Process → Option TunnelClient
  | .running running => some running.client
  | _ => none

/-- The session has just been erased, and the sweep is not over. -/
theorem can_end_swept : ∃ network,
    Runs.run (step .little plainHost) (start Exchange.plainHonest) (plainExpiry.take 7) =
      some network ∧
    network.machine.poll.asleep = false ∧
    ∃ (finishing : List Muddymask.Event) (sending ending : List Station.Turn) (data : Bytes)
      (index : Nat) (after : Network Unit),
      (∀ event ∈ finishing, Machine.Finishing event) ∧
      (∀ turn ∈ sending ++ ending, Station.Willing turn) ∧
      Runs.run (step .little plainHost) network
        (finishing.map .server ++ sending.map (.turn ()) ++
          [.server (.datagram (plainHost ()).address data 0 46), .deliver () index] ++
          ending.map (.turn ())) = some after ∧
      (after.node ()).process = .ended := by
  have computed : (Runs.run (step .little plainHost) (start Exchange.plainHonest)
      (plainExpiry.take 7)).bind (fun network => (clientOf (network.node ()).process).map
        fun client => (client.stop, (network.machine.server.dict.id.find client.identity).isNone,
          network.machine.net.isNone, network.machine.poll.asleep)) =
      some (false, true, true, false) := by
    decide +kernel
  obtain ⟨network, past, seen⟩ := Option.bind_eq_some_iff.mp computed
  obtain ⟨client, known, facts⟩ := Option.map_eq_some_iff.mp seen
  simp only [Prod.mk.injEq, Option.isNone_iff_eq_none] at facts
  obtain ⟨going, unknown, idle, busy⟩ := facts
  refine ⟨network, past, busy, ?_⟩
  cases process : (network.node ()).process with
  | running running =>
      rw [process] at known
      cases known
      exact can_end .little plainHost ⟨[2, 0, 0, 0, 0, 2], rfl⟩ Client.secret 5 rfl _ network past ()
        (fun _ _ => rfl) rfl running process going ⟨unknown, by simp [idle]⟩ 0 46
  | session | ended =>
      rw [process] at known
      cases known

end Network

end Muddymask
