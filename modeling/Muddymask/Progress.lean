import Muddymask.Network

/-!
What can always go on in a network: the server finishes what it has begun
without hearing anything new, and runs of the server and of one host are runs of
the network.
-/

namespace Muddymask

open Words TunnelServer

namespace Station

/-- A turn that is neither a datagram nor a failure. -/
def Willing : Turn → Prop
  | .receive .. | .fail => False
  | _ => True

end Station

namespace Machine

/-! The server finishes what it has begun. -/

/-- What a thread does that has no need of the network, the interface or the clock. -/
def Finishing : Event → Prop
  | .register | .forward | .visit | .release | .delete => True
  | _ => False

/-- No session has the identity, and none is about to get it. -/
def Gone (identity : UInt32) (machine : Machine) : Prop :=
  machine.server.dict.id.find identity = none ∧ ∀ pending, machine.net = some pending →
    (machine.server.client pending.info).identity ≠ identity

/-- How many sections are left of what the threads have begun. -/
def left (machine : Machine) : Nat :=
  (if machine.net.isSome then 1 else 0) +
    (match machine.veth with
      | .read => 0
      | .relay _ clients => clients.length + 1) +
    match machine.poll with
      | .sleep => 0
      | .sweep _ entries => 3 * entries.length + 1
      | .release _ _ entries => 3 * entries.length + 3
      | .delete _ _ entries => 3 * entries.length + 2

/-- The threads wait for the network, the interface and the clock. -/
def AtRest (machine : Machine) : Prop :=
  machine.net = none ∧ machine.veth = .read ∧ machine.poll = .sleep

theorem left_change {order : ByteOrder} {machine after : Machine} {event : Event}
    (finishing : Finishing event) (change : Change order machine event after) :
    left after < left machine := by
  cases change with
  | registered pending waiting asleep reading => simp [left, waiting]
  | forwarded frame info clients relaying => simp [left, relaying]
  | finished frame relaying => simp [left, relaying]
  | erased at_entry expired | spared at_entry alive =>
      simp only [left, at_entry, List.length_cons]
      omega
  | awoke at_end => simp [left, at_end]
  | released at_release => simp [left, at_release]
  | deleted at_delete => simp [left, at_delete]
  | _ => exact finishing.elim

theorem gone_change {order : ByteOrder} {machine after : Machine} {event : Event}
    {identity : UInt32} (gone : Gone identity machine) (finishing : Finishing event)
    (change : Change order machine event after) : Gone identity after := by
  obtain ⟨unknown, other⟩ := gone
  cases change with
  | registered pending waiting asleep reading =>
      have apart : ((machine.server.client pending.info).identity == identity) = false := by
        simpa using other pending waiting
      exact ⟨by simp [registerClient, UnorderedMap.find_insert, unknown, apart], nofun⟩
  | erased at_entry expired =>
      exact ⟨by simp [eraseClient, UnorderedMap.find_erase, unknown], other⟩
  | forwarded | finished | spared | awoke | released | deleted => exact ⟨unknown, other⟩
  | _ => exact finishing.elim

theorem finishing_goes_on (order : ByteOrder) {machine : Machine} (busy : ¬ AtRest machine) :
    ∃ event after, Finishing event ∧ next order machine event = some after := by
  obtain ⟨server, net, veth, poll⟩ := machine
  cases poll with
  | sweep now entries =>
      cases entries with
      | nil => exact ⟨.visit, _, trivial, rfl⟩
      | cons entry entries =>
          by_cases expired : server.Expired now entry.2
          · exact ⟨.visit, _, trivial, by simp [next, step, expired]; rfl⟩
          · exact ⟨.visit, _, trivial, by simp [next, step, expired]; rfl⟩
  | release now info entries => exact ⟨.release, _, trivial, rfl⟩
  | delete now info entries => exact ⟨.delete, _, trivial, rfl⟩
  | sleep =>
      cases veth with
      | relay frame clients =>
          cases clients with
          | nil => exact ⟨.forward, _, trivial, rfl⟩
          | cons info clients => exact ⟨.forward, _, trivial, rfl⟩
      | read =>
          cases net with
          | none => exact absurd ⟨rfl, rfl, rfl⟩ busy
          | some pending => exact ⟨.register, _, trivial, rfl⟩

/-- What no section of that kind undoes still holds when the server has come to rest. -/
theorem comes_to_idle (order : ByteOrder) {machine : Machine} (invariant : Machine → Prop)
    (preserved : ∀ before event after, invariant before → Finishing event →
      Change order before event after → invariant after) (initial : invariant machine) :
    ∃ events after, (∀ event ∈ events, Finishing event) ∧
      Runs.run (next order) machine events = some after ∧ invariant after ∧ AtRest after := by
  refine Runs.settles invariant AtRest Finishing left (fun machine holds busy => ?_) machine initial
  obtain ⟨event, after, finishing, taken⟩ := finishing_goes_on order busy
  have change := next_change taken
  exact ⟨event, after, finishing, taken, preserved _ _ _ holds finishing change,
    left_change finishing change⟩

end Machine

namespace Network

variable {Host : Type} {order : ByteOrder} {station : Host → Station} {network : Network Host}

/-! Steps of the server and of one host are steps of the network. -/

def served (network : Network Host) (event : Muddymask.Event)
    (result : Machine × List Action) : Network Host :=
  { network with
    machine := result.1
    sent := network.sent ++ Exchange.sends network.machine event result.2
    read := network.read ++ Tunnel.reads event
    written := network.written ++ heard result.2 event }

theorem genuine_said [Fintype Host] {host : Host}
    (alone : ∀ other, (station other).address = (station host).address → other = host)
    {datagram : Bytes} (said : datagram ∈ (network.node host).outbox) (drawn : UInt32)
    (time : Int) :
    network.genuine station (.datagram (station host).address datagram drawn time) = true := by
  refine decide_eq_true fun other => decide_eq_true fun address => ?_
  rwa [alone other address.symm]

def placed [DecidableEq Host] (network : Network Host) (host : Host) (node : Station.Node) : Network Host :=
  { network with node := Function.update network.node host node }

@[simp] theorem placed_node [DecidableEq Host] (host : Host) (node : Station.Node) :
    (network.placed host node).node host = node := Function.update_self ..

theorem placed_other [DecidableEq Host] {host other : Host} (different : other ≠ host)
    (node : Station.Node) : (network.placed host node).node other = network.node other :=
  Function.update_of_ne different ..

def serverEvent : Event Host → Option Muddymask.Event
  | .server event => some event
  | _ => none

variable [Fintype Host] [DecidableEq Host]

theorem server_taken {event : Muddymask.Event} {result : Machine × List Action}
    (allowed : network.genuine station event = true)
    (stepped : network.machine.step order event = some result) :
    step order station network (.server event) = some (network.served event result) := by
  simp [step, allowed, stepped, served]

theorem turn_taken {host : Host} {turn : Station.Turn} (willing : Station.Willing turn)
    {node : Station.Node}
    (taken : (station host).step order (network.node host) turn = some node) :
    step order station network (.turn host turn) = some (network.placed host node) := by
  have mine : own turn = true := by
    cases turn with
    | receive => exact willing.elim
    | _ => rfl
  simp [step, mine, go, taken, placed]

theorem deliver_taken {host : Host} {reply : Sent} (member : reply ∈ network.sent)
    (address : reply.address = (station host).address) {node : Station.Node}
    (taken : (station host).step order (network.node host)
      (.receive (station host).config.remote reply.data) = some node) :
    ∃ index, step order station network (.deliver host index) = some (network.placed host node) := by
  obtain ⟨index, found⟩ := List.mem_iff_getElem?.mp member
  exact ⟨index, by simp [step, found, address, go, taken, placed]⟩

theorem server_run {events : List Muddymask.Event} (finishing : ∀ event ∈ events,
    Machine.Finishing event) {machine : Machine}
    (past : Runs.run (Machine.next order) network.machine events = some machine) :
    ∃ after, Runs.run (step order station) network (events.map .server) = some after ∧
      after.machine = machine ∧ after.node = network.node := by
  induction events generalizing network with
  | nil => exact ⟨network, rfl, by simpa using past, rfl⟩
  | cons event rest ih =>
      obtain ⟨next, taken, future⟩ := (Runs.run_cons ..).mp past
      obtain ⟨result, stepped, rfl⟩ := Option.map_eq_some_iff.mp taken
      have allowed : network.genuine station event = true := by
        refine decide_eq_true fun host => ?_
        cases event with
        | datagram => exact (finishing _ List.mem_cons_self).elim
        | _ => rfl
      have later : Runs.run (Machine.next order) (network.served event result).machine rest =
          some machine := future
      obtain ⟨after, ran, same, unmoved⟩ :=
        ih (fun event member => finishing event (List.mem_cons_of_mem _ member)) later
      exact ⟨after, (Runs.run_cons ..).mpr ⟨_, server_taken allowed stepped, ran⟩, same, unmoved⟩

theorem turn_run {host : Host} {turns : List Station.Turn}
    (willing : ∀ turn ∈ turns, Station.Willing turn) {node : Station.Node}
    (past : Runs.run ((station host).step order) (network.node host) turns = some node) :
    Runs.run (step order station) network (turns.map (.turn host)) =
      some (network.placed host node) := by
  induction turns generalizing network with
  | nil =>
      cases (Runs.run_nil ..).mp past
      simp [placed]
  | cons turn rest ih =>
      obtain ⟨next, taken, future⟩ := (Runs.run_cons ..).mp past
      have later : Runs.run ((station host).step order) ((network.placed host next).node host) rest =
          some node := by
        rwa [placed_node]
      refine (Runs.run_cons ..).mpr ⟨_, turn_taken (willing _ List.mem_cons_self) taken, ?_⟩
      rw [ih (fun turn member => willing turn (List.mem_cons_of_mem _ member)) later]
      simp [placed]

theorem whole_reached {mac : { mac : Bytes // mac.length = 6 }} {secret : Bytes} {random : UInt32}
    (key : DummyCrypto.new order secret = DummyCrypto.new order Client.secret)
    {events : List (Event Host)}
    (past : Runs.run (step order station) (start (Machine.init order mac secret random)) events =
      some network) : Whole order station network :=
  Runs.final_of_along (Whole order station) (fun _ _ => True)
    (fun _ _ _ whole _ taken => whole_step whole taken) _ network events
    (whole_start mac secret random key) past
    (Runs.along_of_forall _ _ _ fun _ _ _ => trivial)

/-- What a step of a network can do. -/
inductive Moves (order : ByteOrder) (station : Host → Station) (network : Network Host) :
    Event Host → Network Host → Prop where
  | served {event : Muddymask.Event} {result : Machine × List Action}
      (allowed : network.genuine station event = true)
      (stepped : network.machine.step order event = some result) :
      Moves order station network (.server event) (network.served event result)
  | turned {host : Host} {turn : Station.Turn} {node : Station.Node} (mine : own turn = true)
      (taken : (station host).step order (network.node host) turn = some node) :
      Moves order station network (.turn host turn) (network.placed host node)
  | delivered {host : Host} {index : Nat} {reply : Sent} {node : Station.Node}
      (found : network.sent[index]? = some reply)
      (address : reply.address = (station host).address)
      (taken : (station host).step order (network.node host)
        (.receive (station host).config.remote reply.data) = some node) :
      Moves order station network (.deliver host index) (network.placed host node)
  | strayed {host : Host} {peer : SockAddr} {datagram : Bytes} {node : Station.Node}
      (foreign : ¬ (peer.sinAddr = (station host).config.remote.sinAddr ∧
        peer.sinPort = (station host).config.remote.sinPort))
      (taken : (station host).step order (network.node host) (.receive peer datagram) = some node) :
      Moves order station network (.stray host peer datagram) (network.placed host node)

theorem step_moves {event : Event Host} {after : Network Host}
    (taken : network.step order station event = some after) :
    Moves order station network event after := by
  cases event with
  | server event =>
      simp only [step] at taken
      split at taken
      · obtain ⟨result, stepped, rfl⟩ := Option.map_eq_some_iff.mp taken
        exact .served ‹_› stepped
      · cases taken
  | turn host turn =>
      simp only [step] at taken
      split at taken
      · obtain ⟨node, moved, rfl⟩ := Option.map_eq_some_iff.mp taken
        exact .turned ‹_› moved
      · cases taken
  | deliver host index =>
      simp only [step] at taken
      split at taken
      · split at taken
        · obtain ⟨node, moved, rfl⟩ := Option.map_eq_some_iff.mp taken
          exact .delivered ‹_› ‹_› moved
        · cases taken
      · cases taken
  | stray host peer datagram =>
      simp only [step] at taken
      split at taken
      · cases taken
      · obtain ⟨node, moved, rfl⟩ := Option.map_eq_some_iff.mp taken
        exact .strayed ‹_› moved

/-- The server does not notice the others. -/
theorem machine_run {events : List (Event Host)} {after : Network Host}
    (past : Runs.run (step order station) network events = some after) :
    Runs.run (Machine.next order) network.machine (events.filterMap serverEvent) =
      some after.machine := by
  induction events generalizing network with
  | nil =>
      cases (Runs.run_nil ..).mp past
      exact (Runs.run_nil ..).mpr rfl
  | cons event rest ih =>
      obtain ⟨next, taken, future⟩ := (Runs.run_cons ..).mp past
      have later := ih future
      cases step_moves taken with
      | @served event result allowed stepped =>
          exact (Runs.run_cons ..).mpr ⟨result.1, by simp [Machine.next, stepped], later⟩
      | turned | delivered | strayed => exact later

theorem machine_reached {mac : { mac : Bytes // mac.length = 6 }} {secret : Bytes}
    {random : UInt32} {events : List (Event Host)}
    (past : Runs.run (step order station) (start (Machine.init order mac secret random)) events =
      some network) : Machine.Reached order network.machine :=
  ⟨mac, secret, random, _, machine_run past⟩

end Network

end Muddymask
