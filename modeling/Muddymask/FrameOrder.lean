import Muddymask.Progress

/-!
The tunnel keeps the order of frames as long as the network keeps the order of
datagrams. Each host sends every frame it reads once, and the server writes what
it takes at once. On the way down a frame may come twice, to a host that is in
`dict.mac` twice, but never after a later one.
-/

namespace Muddymask

open Words TunnelServer

/-- The frame that the server's dispatcher finds in a datagram. -/
def carried (order : ByteOrder) (crypto : DummyCrypto) (datagram : Bytes) : Option Bytes :=
  match dispatch order crypto (recv datagram 2000) with
  | .call .relayData _ packet _ => some packet
  | _ => none

namespace Station

/-- The frames that fit in a datagram of the tunnel are sent, once and in order. -/
def Forwards (order : ByteOrder) (node : Node) : Prop :=
  node.outbox.filterMap (carried order (.new order Client.secret)) =
    node.returned.filter fun frame => frame.length ≤ 1592

section Steps
variable {order : ByteOrder} {station : Station} {node after : Node} {turn : Turn}

theorem carried_request (mac : MacAddress) :
    carried order (.new order Client.secret) (Client.request order mac) = none := by
  rw [carried, Client.request_reaches order _ mac rfl]

theorem carried_heartbeat (client : TunnelClient)
    (key : client.crypto = .new order Client.secret) (made : UInt32) :
    carried order (.new order Client.secret) (client.heartbeat order made) = none := by
  rw [carried, TunnelClient.dispatch_heartbeat order _ client key.symm]

theorem carried_frame (client : TunnelClient) (key : client.crypto = .new order Client.secret)
    (frame : Bytes) :
    carried order (.new order Client.secret) (client.relayPacket order frame) =
      if frame.length ≤ 1592 then some frame else none := by
  by_cases fits : frame.length ≤ 1592
  · have seen : dispatch order (.new order Client.secret)
        (recv (client.relayPacket order frame) 2000) =
          .call .relayData client.identity frame frame.length :=
      dispatch_frame order (.new order ⟨List.replicate 6 0, rfl⟩ Client.secret 0) client key.symm
        frame fits
    rw [if_pos fits, carried, seen]
  · rw [if_neg fits, carried, TunnelClient.dispatch_frame_long order _ client frame
      (Nat.not_le.mp fits)]

theorem forwards_record (forwards : Forwards order node) (result : Process × List Action)
    (new : (sends result.2).filterMap (carried order (.new order Client.secret)) =
      (reads node.process turn).filter fun frame => frame.length ≤ 1592) :
    Forwards order (record node turn result) := by
  simp only [Forwards, record, List.filterMap_append, List.filter_append, new]
  rw [forwards]

theorem forwards_step (candid : Candid order station node) (forwards : Forwards order node)
    (taken : station.step order node turn = some after) : Forwards order after := by
  obtain ⟨process, adopted, outbox, returned, given⟩ := node
  obtain ⟨⟨process', actions⟩, moved, rfl⟩ := Option.map_eq_some_iff.mp taken
  have key : ∀ running, process = .running running →
      running.client.crypto = .new order Client.secret := fun _ same => candid.crypto same
  refine forwards_record forwards _ ?_
  cases turn_move moved with
  | asked i => simp [sends, reads, carried_request]
  | received running peer datagram listening => simp [handle_sends, reads]
  | beat running time data asleep =>
      obtain ⟨made, rfl⟩ := candid.data running data rfl (Or.inr asleep)
      simp [sends, carried_heartbeat _ (key running rfl), reads]
  | relayed running frame read =>
      simp only [TunnelClient.handleVirtualEthernet, sends, List.filterMap_cons,
        List.filterMap_nil, carried_frame _ (key running rfl), reads_read read]
      generalize frame.take 2000 = cut
      by_cases fits : cut.length ≤ 1592 <;> simp [fits]
  | waited running frame test going =>
      obtain ⟨client, heart, veth⟩ := running
      cases test
      rfl
  | closed running frame test stopped =>
      obtain ⟨client, heart, veth⟩ := running
      cases test
      rfl
  | unanswered | answered | refused | began | prepared | slept | stilled | joined | failed => rfl

end Steps

end Station

namespace Machine

theorem step_carried {order : ByteOrder} {machine after : Machine} {peer : SockAddr}
    {datagram : Bytes} {random : UInt32} {time : Int} {actions : List Action}
    (taken : machine.step order (.datagram peer datagram random time) = some (after, actions)) :
    (writes actions).Sublist (carried order machine.server.crypto datagram).toList := by
  simp only [step, receive] at taken
  split at taken
  · cases taken
  split at taken
  · cases taken
    exact List.nil_sublist _
  · cases taken
    exact List.nil_sublist _
  · cases taken
    exact List.nil_sublist _
  · rename_i id packet length seen
    split at taken <;> cases taken
    have silent : writes (machine.server.handleHeartbeat order peer id length time).2 = [] := by
      simp only [handleHeartbeat]
      split
      · rfl
      · split <;> rfl
    rw [silent]
    exact List.nil_sublist _
  · rename_i id packet length seen
    split at taken <;> cases taken
    rw [carried, seen, ← dispatch_length seen, writes_relayData]
    split
    · exact List.Sublist.refl _
    · exact List.nil_sublist _

end Machine

namespace Network

variable {Host : Type} {order : ByteOrder} {station : Host → Station}
  {network after : Network Host}

section Up
variable [Fintype Host] [DecidableEq Host]

def takenFrom (address : SockAddr) : Event Host → Option Bytes
  | .server (.datagram peer datagram _ _) => if peer = address then some datagram else none
  | _ => none

/-- What the server has written because of an address, oldest first. -/
def writtenFor (address : SockAddr) (network : Network Host) : List Bytes :=
  network.written.filterMap fun entry => if entry.1 = address then some entry.2 else none

theorem forwards_moves (whole : Whole order station network)
    (forwards : ∀ host, Station.Forwards order (network.node host)) {event : Event Host}
    (moves : Moves order station network event after) (host : Host) :
    Station.Forwards order (after.node host) := by
  have stepped : ∀ mover turn node, (station mover).step order (network.node mover) turn = some node →
      Station.Forwards order ((network.placed mover node).node host) := by
    intro mover turn node taken
    by_cases same : host = mover
    · subst same
      rw [placed_node]
      exact Station.forwards_step (whole.candid host) (forwards host) taken
    · rw [placed_other same]
      exact forwards host
  cases moves with
  | served => exact forwards host
  | turned _ taken | delivered _ _ taken | strayed _ taken => exact stepped _ _ _ taken

theorem written_moves (whole : Whole order station network) {event : Event Host}
    (moves : Moves order station network event after) (address : SockAddr) :
    ∃ new, writtenFor address after = writtenFor address network ++ new ∧
      new.Sublist ((takenFrom address event).bind (carried order (.new order Client.secret))).toList := by
  cases moves with
  | @served event result allowed stepped =>
      refine ⟨_, List.filterMap_append, ?_⟩
      cases event with
      | datagram peer datagram random time =>
          have carries := Machine.step_carried stepped
          rw [whole.key] at carries
          by_cases same : peer = address
          · simpa [heard, takenFrom, same, List.filterMap_map, Function.comp_def] using carries
          · simp [heard, takenFrom, same, List.filterMap_map]
      | _ => exact List.nil_sublist _
  | turned | delivered | strayed => exact ⟨[], (List.append_nil _).symm, List.nil_sublist _⟩

theorem written_run (whole : Whole order station network)
    (forwards : ∀ host, Station.Forwards order (network.node host)) {events : List (Event Host)}
    (past : Runs.run (step order station) network events = some after) (address : SockAddr) :
    (∀ host, Station.Forwards order (after.node host)) ∧
    ∃ new, writtenFor address after = writtenFor address network ++ new ∧
      new.Sublist ((events.filterMap (takenFrom address)).filterMap
        (carried order (.new order Client.secret))) := by
  induction events generalizing network with
  | nil =>
      cases (Runs.run_nil ..).mp past
      exact ⟨forwards, [], (List.append_nil _).symm, List.nil_sublist _⟩
  | cons event rest ih =>
      obtain ⟨next, taken, future⟩ := (Runs.run_cons ..).mp past
      have moves := step_moves taken
      obtain ⟨first, grown, carries⟩ := written_moves whole moves address
      obtain ⟨last, second, written, others⟩ :=
        ih (whole_step whole taken) (forwards_moves whole forwards moves) future
      refine ⟨last, first ++ second, by rw [written, grown, List.append_assoc], ?_⟩
      have split : (event :: rest).filterMap
          (fun event => (takenFrom address event).bind (carried order (.new order Client.secret))) =
          ((takenFrom address event).bind (carried order (.new order Client.secret))).toList ++
            rest.filterMap fun event =>
              (takenFrom address event).bind (carried order (.new order Client.secret)) := by
        rw [List.filterMap_cons]
        split <;> simp [*]
      rw [List.filterMap_filterMap] at others ⊢
      rw [split]
      exact carries.append others

end Up

section Down

def handed [DecidableEq Host] (host : Host) : Event Host → Option Nat
  | .deliver other index => if other = host then some index else none
  | _ => none

/-- `stamps` says of each datagram of the server how many frames its interface had
returned before, and `positions` which ones the host was given. Datagrams from
`first` on do not carry earlier frames than those. -/
structure Queued (host : Host) (network : Network Host) (first : Nat) (stamps positions : List Nat) :
    Prop where
  length : stamps.length = network.sent.length
  sorted : stamps.Pairwise (· ≤ ·)
  below : ∀ stamp ∈ stamps, stamp ≤ network.read.length
  relayed : ∀ (i : Nat) (reply : Sent) (frame : Bytes) (clients : List Ptr),
    network.sent[i]? = some reply → reply.event = .forward →
      reply.machine.veth = .relay frame clients →
        ∃ position, stamps[i]? = some (position + 1) ∧ network.read[position]? = some frame
  relaying : ∀ (frame : Bytes) (clients : List Ptr), network.machine.veth = .relay frame clients →
    network.read.getLast? = some frame
  given : (network.node host).given.map some = positions.map (network.read[·]?)
  ordered : positions.Pairwise (· ≤ ·)
  inside : ∀ position ∈ positions, position < network.read.length
  behind : ∀ position ∈ positions, ∀ (i stamp : Nat), first ≤ i → stamps[i]? = some stamp →
    position < stamp

theorem queued_start (host : Host) (machine : Machine) (idle : machine.veth = .read) :
    Queued host (start machine) 0 [] [] where
  length := rfl
  sorted := .nil
  below := by simp
  relayed := by simp [start]
  relaying := by simp [start, idle]
  given := rfl
  ordered := .nil
  inside := by simp
  behind := by simp

theorem relaying_change {before after : Machine} {event : Muddymask.Event} {read : List Bytes}
    (last : ∀ (frame : Bytes) (clients : List Ptr), before.veth = .relay frame clients →
      read.getLast? = some frame) (change : Machine.Change order before event after)
    (frame : Bytes) (clients : List Ptr) (relaying : after.veth = .relay frame clients) :
    (read ++ Tunnel.reads event).getLast? = some frame := by
  cases change with
  | framed =>
      cases relaying
      simp [Tunnel.reads]
  | runt reading =>
      rw [relaying] at reading
      cases reading
  | forwarded held info targets holding =>
      cases relaying
      simpa [Tunnel.reads] using last _ _ holding
  | finished => cases relaying
  | _ => simpa [Tunnel.reads] using last _ _ relaying

section Served
variable {host : Host} {first : Nat} {stamps positions : List Nat} {event : Muddymask.Event}
  {result : Machine × List Action}

theorem read_served {position : Nat} (low : position < network.read.length) :
    (network.served event result).read[position]? = network.read[position]? :=
  List.getElem?_append_left low

/-- A new datagram with a frame carries the last one that was read. -/
theorem relayed_served (queued : Queued host network first stamps positions) {i : Nat}
    {reply : Sent} {frame : Bytes} {clients : List Ptr}
    (found : (network.served event result).sent[i]? = some reply) (forward : reply.event = .forward)
    (relaying : reply.machine.veth = .relay frame clients) :
    ∃ position, (stamps ++ List.replicate (Exchange.sends network.machine event result.2).length
        network.read.length)[i]? = some (position + 1) ∧
      (network.served event result).read[position]? = some frame := by
  rcases Nat.lt_or_ge i network.sent.length with old | new
  · simp only [served, List.getElem?_append_left old] at found
    obtain ⟨position, stamp, read⟩ := queued.relayed i reply frame clients found forward relaying
    refine ⟨position, ?_, ?_⟩
    · rwa [List.getElem?_append_left (queued.length ▸ old)]
    · rwa [read_served (List.getElem?_eq_some_iff.mp read).1]
  · simp only [served, List.getElem?_append_right new] at found
    obtain ⟨same, -, -⟩ := Exchange.mem_sends (List.mem_of_getElem? found)
    rw [same] at relaying
    have last := queued.relaying frame clients relaying
    rw [List.getLast?_eq_getElem?] at last
    have some := (List.getElem?_eq_some_iff.mp last).1
    have later := (List.getElem?_eq_some_iff.mp found).1
    refine ⟨network.read.length - 1, ?_, ?_⟩
    · rw [List.getElem?_append_right (queued.length ▸ new), queued.length,
        List.getElem?_replicate_of_lt later, Nat.sub_add_cancel (Nat.one_le_of_lt some)]
    · rwa [read_served some]

theorem queued_served (queued : Queued host network first stamps positions)
    (stepped : network.machine.step order event = some result) :
    Queued host (network.served event result) first
      (stamps ++ List.replicate (Exchange.sends network.machine event result.2).length
        network.read.length) positions := by
  obtain ⟨machine, actions⟩ := result
  have change : Machine.Change order network.machine event machine :=
    Machine.next_change (by simp [Machine.next, stepped])
  refine { length := by simp [served, queued.length], sorted := ?_, below := ?_
           relayed := fun _ _ _ _ => relayed_served queued
           relaying := relaying_change queued.relaying change, given := ?_
           ordered := queued.ordered, inside := ?_, behind := ?_ }
  · refine List.pairwise_append.mpr ⟨queued.sorted, ?_, ?_⟩
    · simp [List.pairwise_replicate]
    · intro stamp member other new
      rw [List.eq_of_mem_replicate new]
      exact queued.below stamp member
  · intro stamp member
    have bound : stamp ≤ network.read.length := by
      rcases List.mem_append.mp member with old | new
      · exact queued.below stamp old
      · exact Nat.le_of_eq (List.eq_of_mem_replicate new)
    rw [served, List.length_append]
    exact Nat.le_add_right_of_le bound
  · refine queued.given.trans (List.map_congr_left fun position member => ?_)
    exact (read_served (queued.inside position member)).symm
  · intro position member
    rw [served, List.length_append]
    exact Nat.lt_add_right _ (queued.inside position member)
  · intro position member i stamp later found
    rcases Nat.lt_or_ge i stamps.length with old | new
    · rw [List.getElem?_append_left old] at found
      exact queued.behind position member i stamp later found
    · rw [List.getElem?_append_right new] at found
      rw [List.eq_of_mem_replicate (List.mem_of_getElem? found)]
      -- a new datagram is stamped with all that was read, and the host got none but those
      exact queued.inside position member

end Served

theorem writes_once (client : TunnelClient) (peer : SockAddr) (datagram : Bytes) :
    ∀ data ∈ writes (client.handleNetworkDatagram order peer datagram).2,
      writes (client.handleNetworkDatagram order peer datagram).2 = [data] := by
  simp only [TunnelClient.handleNetworkDatagram]
  split
  · simp [writes]
  split
  · simp [writes]
  split
  · simp [writes]
  split <;> simp [writes]

variable {host : Host} {first : Nat} {stamps positions : List Nat}

theorem queued_same [DecidableEq Host] (queued : Queued host network first stamps positions)
    {mover : Host} {node : Station.Node}
    (unmoved : mover = host → node.given = (network.node host).given) :
    Queued host (network.placed mover node) first stamps positions where
  length := queued.length
  sorted := queued.sorted
  below := queued.below
  relayed := queued.relayed
  relaying := queued.relaying
  given := by
    refine Eq.trans ?_ queued.given
    by_cases same : host = mover
    · subst same
      rw [placed_node, unmoved rfl]
    · rw [placed_other same]
  ordered := queued.ordered
  inside := queued.inside
  behind := queued.behind

theorem queued_later (queued : Queued host network first stamps positions) {second : Nat}
    (later : first ≤ second) : Queued host network second stamps positions :=
  { queued with behind := fun position member i stamp beyond =>
      queued.behind position member i stamp (Nat.le_trans later beyond) }

/-- The host writes the frame in a datagram that is not behind the last one. -/
theorem queued_wrote [DecidableEq Host] (queued : Queued host network first stamps positions)
    {node : Station.Node} {index position : Nat} {frame : Bytes} (ahead : first ≤ index)
    (stamp : stamps[index]? = some (position + 1)) (read : network.read[position]? = some frame)
    (wrote : node.given = (network.node host).given ++ [frame]) :
    Queued host (network.placed host node) index stamps (positions ++ [position]) where
  length := queued.length
  sorted := queued.sorted
  below := queued.below
  relayed := queued.relayed
  relaying := queued.relaying
  given := by
    rw [placed_node, wrote, List.map_append, List.map_append, queued.given]
    exact congrArg _ (congrArg (fun entry => [entry]) read.symm)
  ordered := by
    refine List.pairwise_append.mpr ⟨queued.ordered, List.pairwise_singleton .., ?_⟩
    intro earlier member last same
    rw [List.mem_singleton.mp same]
    exact Nat.le_of_lt_succ (queued.behind earlier member index _ ahead stamp)
  inside := by
    intro place member
    rcases List.mem_append.mp member with old | new
    · exact queued.inside place old
    · rw [List.mem_singleton.mp new]
      exact (List.getElem?_eq_some_iff.mp read).1
  behind := by
    intro place member i other later found
    rcases List.mem_append.mp member with old | new
    · exact queued.behind place old i other (Nat.le_trans ahead later) found
    · rw [List.mem_singleton.mp new]
      rcases Nat.eq_or_lt_of_le later with same | beyond
      · -- the same datagram once more
        cases stamp.symm.trans (same ▸ found)
        exact Nat.lt_succ_self position
      · obtain ⟨low, here⟩ := List.getElem?_eq_some_iff.mp stamp
        obtain ⟨high, there⟩ := List.getElem?_eq_some_iff.mp found
        have sorted := List.pairwise_iff_getElem.mp queued.sorted index i low high beyond
        rwa [here, there] at sorted

theorem queued_delivered [DecidableEq Host] (whole : Whole order station network)
    (queued : Queued host network first stamps positions) {index : Nat} (ahead : first ≤ index)
    {reply : Sent} (found : network.sent[index]? = some reply)
    (address : reply.address = (station host).address) {node : Station.Node}
    (taken : (station host).step order (network.node host)
      (.receive (station host).config.remote reply.data) = some node) :
    ∃ positions, Queued host (network.placed host node) index stamps positions := by
  have passed := queued_later queued ahead
  rcases Station.step_receive taken with ⟨i, _, rfl⟩ | ⟨running, process, _, rfl⟩
  · exact ⟨_, queued_same passed fun _ => rfl⟩
  have key := (whole.candid host).crypto process
  have server := (whole.candid host).server process
  cases new : writes (running.client.handleNetworkDatagram order (station host).config.remote
    reply.data).2 with
  | nil => exact ⟨_, queued_same passed fun _ => List.append_nil _⟩
  | cons frame rest =>
      have wrote : frame ∈ writes (running.client.handleNetworkDatagram order
          (station host).config.remote reply.data).2 := by simp [new]
      have valid : running.client.validDataSource running.client.server = true := by
        by_contra foreign
        rw [← server, TunnelClient.handle_foreign order running.client
          (Bool.eq_false_iff.mpr foreign)] at wrote
        cases wrote
      have once := writes_once _ _ _ frame wrote
      obtain ⟨_, _, forward, _, info, clients, relaying, _⟩ := Tunnel.written_of_sent
        (whole.genuine host running.client key) (List.mem_of_getElem? found) address valid
        (server ▸ wrote)
      obtain ⟨position, stamp, read⟩ := queued.relayed index reply frame _ found forward relaying
      exact ⟨_, queued_wrote queued ahead stamp read (congrArg _ (new ▸ once))⟩

theorem queued_moves [Fintype Host] [DecidableEq Host] (whole : Whole order station network)
    (queued : Queued host network first stamps positions) {event : Event Host}
    (moves : Moves order station network event after)
    (ahead : ∀ index, handed host event = some index → first ≤ index) :
    ∃ stamps positions,
      Queued host after ((handed host event).getD first) stamps positions := by
  cases moves with
  | served allowed stepped => exact ⟨_, _, queued_served queued stepped⟩
  | turned mine taken =>
      refine ⟨_, _, queued_same queued ?_⟩
      rintro rfl
      exact (Station.step_own (by rintro _ _ rfl; cases mine) taken).1
  | @delivered mover index reply node found address taken =>
      by_cases same : mover = host
      · subst same
        obtain ⟨positions, later⟩ :=
          queued_delivered whole queued (ahead index (if_pos rfl)) found address taken
        exact ⟨_, positions, by simpa [handed] using later⟩
      · refine ⟨stamps, positions, ?_⟩
        simpa [handed, same] using queued_same queued fun here => absurd here same
  | @strayed mover peer datagram node foreign taken =>
      refine ⟨_, _, queued_same queued ?_⟩
      rintro rfl
      rcases Station.step_receive taken with ⟨_, _, rfl⟩ | ⟨running, process, _, rfl⟩
      · rfl
      · rw [(whole.candid mover).refuses process foreign]
        exact List.append_nil _

theorem queued_run [Fintype Host] [DecidableEq Host] (whole : Whole order station network)
    (queued : Queued host network first stamps positions) {events : List (Event Host)}
    (past : Runs.run (step order station) network events = some after)
    (ahead : ∀ index ∈ events.filterMap (handed host), first ≤ index)
    (forth : (events.filterMap (handed host)).Pairwise (· ≤ ·)) :
    ∃ first stamps positions, Queued host after first stamps positions := by
  induction events generalizing network first stamps positions with
  | nil =>
      cases (Runs.run_nil ..).mp past
      exact ⟨_, _, _, queued⟩
  | cons event rest ih =>
      obtain ⟨next, taken, future⟩ := (Runs.run_cons ..).mp past
      cases here : handed host event with
      | none =>
          rw [List.filterMap_cons_none here] at ahead forth
          obtain ⟨_, _, later⟩ := queued_moves whole queued (step_moves taken) (by simp [here])
          rw [here] at later
          exact ih (whole_step whole taken) later future ahead forth
      | some index =>
          rw [List.filterMap_cons_some here] at ahead forth
          obtain ⟨beyond, forth⟩ := List.pairwise_cons.mp forth
          obtain ⟨_, _, later⟩ := queued_moves whole queued (step_moves taken)
            (by simpa [here] using ahead index List.mem_cons_self)
          rw [here] at later
          exact ih (whole_step whole taken) later future beyond forth

end Down

/-- In every run. Up: where the server takes a host's datagrams in the order in
which they were sent, and none twice, its interface is given the host's frames in
the order in which they were read, and none twice. Down: where a host is handed
the server's datagrams in order, if some more than once, it is given frames in the
order in which the server's interface returned them. -/
theorem order_kept [Fintype Host] [DecidableEq Host] (order : ByteOrder) (station : Host → Station)
    (mac : { mac : Bytes // mac.length = 6 }) (secret : Bytes) (random : UInt32)
    (key : DummyCrypto.new order secret = DummyCrypto.new order Client.secret)
    (events : List (Event Host)) (final : Network Host)
    (past : Runs.run (step order station) (start (Machine.init order mac secret random)) events =
      some final) (host : Host) :
    ((events.filterMap (takenFrom (station host).address)).Sublist (final.node host).outbox →
      (writtenFor (station host).address final).Sublist (final.node host).returned) ∧
    ((events.filterMap (handed host)).Pairwise (· ≤ ·) →
      ∃ positions : List Nat, positions.Pairwise (· ≤ ·) ∧
        (final.node host).given.map some = positions.map (final.read[·]?)) := by
  have whole : Whole order station (start (Machine.init order mac secret random)) :=
    whole_start mac secret random key
  constructor
  · intro inOrder
    obtain ⟨forwards, new, written, carries⟩ :=
      written_run whole (fun _ => rfl) past (station host).address
    rw [written]
    refine carries.trans ((inOrder.filterMap _).trans ?_)
    rw [forwards host]
    exact List.filter_sublist
  · intro forth
    obtain ⟨_, _, positions, queued⟩ :=
      queued_run whole (queued_start host _ rfl) past (fun _ _ => Nat.zero_le _) forth
    exact ⟨positions, queued.ordered, queued.given⟩

/-- A session and two frames in either direction; the first one down comes twice. -/
def plainConverse : List (Event Unit) :=
  let address := Station.plainStation.address
  let client := TunnelClient.new .little Client.secret 11 Station.plainStation.config.remote
  let up := fun size => client.relayPacket .little (plainBroadcast size)
  [.turn () .main, .server (.datagram address (Client.request .little (plainMac 7)) 11 0),
    .server .register, .deliver () 0, .turn () .main, .turn () (.veth []),
    .turn () (.veth (plainBroadcast 60)), .turn () (.veth []),
    .turn () (.veth (plainBroadcast 70)), .server (.datagram address (up 60) 0 1),
    .server (.datagram address (up 70) 0 1), .server (.frame (plainBroadcast 80) [0]),
    .server .forward, .server .forward, .server (.frame (plainBroadcast 90) [0]),
    .server .forward, .deliver () 1, .deliver () 1, .deliver () 2]

theorem order_kept_converse : ∃ final,
    Runs.run (step .little plainHost) (start Exchange.plainHonest) plainConverse = some final ∧
    (writtenFor Station.plainStation.address final).Sublist (final.node ()).returned ∧
    ∃ positions : List Nat, positions.Pairwise (· ≤ ·) ∧
      (final.node ()).given.map some = positions.map (final.read[·]?) := by
  have taken : ((Runs.run (step .little plainHost) (start Exchange.plainHonest) plainConverse).any
      fun network => decide ((plainConverse.filterMap
        (takenFrom Station.plainStation.address)).Sublist (network.node ()).outbox)) = true := by
    decide +kernel
  obtain ⟨final, past, inOrder⟩ := (Option.any_eq_true ..).mp taken
  obtain ⟨up, down⟩ := order_kept .little plainHost ⟨[2, 0, 0, 0, 0, 2], rfl⟩ Client.secret 5 rfl
    plainConverse final past ()
  exact ⟨final, past, up (of_decide_eq_true inOrder), down (by decide +kernel)⟩

example : (Runs.run (step .little plainHost) (start Exchange.plainHonest) plainConverse).map
    (fun network => (network.written.map fun entry => entry.2.length,
      (network.node ()).given.map List.length)) = some ([60, 70], [80, 80, 90]) := by
  decide +kernel

end Network

end Muddymask
