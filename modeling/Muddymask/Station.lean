import Muddymask.Relay
import Muddymask.SessionGrant

/-!
A client process of `source/tunnel/main.cpp` and `source/tunnel/TunnelClient.cpp`
from its first request to its end: the main thread in `startSession`, then the
three threads of the `TunnelClient` with the flag `stop` between them. A thread
that is left by an exception takes the whole process with it. `TunnelClient.new`
and one turn of the two frame loops stand elsewhere; here are the loops.
-/

namespace Muddymask

open Words TunnelServer

namespace TunnelClient

/-- The `data` of `sendHeartbeat`: made and encrypted once, sent again and again. -/
def heartbeat (order : ByteOrder) (client : TunnelClient) (time : UInt32) : Bytes :=
  let header : PacketHeader :=
    { type := PacketHeader.kHeartbeat, length := UInt16.ofNat Heartbeat.sizeof
      identity := client.identity }
  client.crypto.encrypt order (header.encode order ++ store32 order time)
    (PacketHeader.sizeof + Heartbeat.sizeof)

theorem dispatch_heartbeat (order : ByteOrder) (crypto : DummyCrypto) (client : TunnelClient)
    (key : crypto = client.crypto) (time : UInt32) :
    dispatch order crypto (recv (client.heartbeat order time) 2000) =
      .call .handleHeartbeat client.identity (store32 order time) Heartbeat.sizeof := by
  let header : PacketHeader :=
    { type := PacketHeader.kHeartbeat, length := UInt16.ofNat Heartbeat.sizeof
      identity := client.identity }
  have text : (header.encode order ++ store32 order time).length = 12 := rfl
  have size : (client.heartbeat order time).length = 12 :=
    DummyCrypto.encrypt_length order client.crypto _ 12 (Nat.le_of_eq text.symm)
  have plain : client.crypto.decrypt order (client.heartbeat order time) 12 =
      header.encode order ++ store32 order time :=
    DummyCrypto.decrypt_encrypt order client.crypto _ _ (Nat.le_of_eq text.symm)
  rw [recv_of_le (by rw [size]; decide), key]
  refine (dispatch_call_iff ..).mpr ⟨header, ?_, ?_, ?_, ?_, rfl, rfl, rfl, ?_, rfl⟩
  · rw [size]
    decide
  · rw [size]
    decide
  · rw [size, plain]
    exact PacketHeader.read_encode ..
  · rw [size]
    rfl
  · rw [size, plain]
    exact (List.drop_left' (PacketHeader.encode_length order header)).symm

theorem dispatch_frame_long (order : ByteOrder) (crypto : DummyCrypto) (client : TunnelClient)
    (frame : Bytes) (long : 1592 < frame.length) :
    dispatch order crypto (recv (client.relayPacket order frame) 2000) = .ignore := by
  have text : ((client.relayHeader frame).encode order ++ frame).length =
      frame.length + PacketHeader.sizeof := by
    simp [Nat.add_comm]
  have size : (client.relayPacket order frame).length = frame.length + 8 := by
    rw [relayPacket, DummyCrypto.encrypt_length _ _ _ _ (Nat.le_of_eq text.symm), text]
    rfl
  have wide : (recv (client.relayPacket order frame) 2000).length > 1600 := by
    rw [recv, List.length_take, size]
    omega
  rw [dispatch, if_pos (Or.inr wide)]

end TunnelClient

/-- What a client process is started with. Its datagrams carry `address`. -/
structure Station where
  address : SockAddr
  mac : MacAddress
  config : CommandLine.Config

namespace Station

inductive Heart where
  | start
  | test (data : Bytes)
  | sleep (data : Bytes)
  | returned

inductive Veth where
  | test
  | read
  | returned

/-- The network thread is in its loop as long as `stop` is not set. -/
structure Running where
  client : TunnelClient
  heart : Heart
  veth : Veth

inductive Process where
  | session (phase : Phase)
  | running (running : Running)
  | ended

/-- Which thread goes next and what the system hands it. `silence` is a `recv` of
`startSession` that times out or fails, `fail` a system call that throws. -/
inductive Turn where
  | main
  | silence
  | receive (peer : SockAddr) (datagram : Bytes)
  | heart (time : UInt32)
  | veth (frame : Bytes)
  | fail

/-- `startClient` up to the threads. -/
def sessionTurn (order : ByteOrder) (station : Station) :
    Phase → Turn → Option (Process × List Action)
  | .sending i, .main => some (.session (.waiting i),
      [.send station.config.remote (Client.request order station.mac)])
  | .waiting i, .silence => some (.session (.after i none), [])
  | .waiting i, .receive _ datagram =>
      let received := recv datagram Client.responseSize
      some (.session (.after i (Client.response order received)), [])
  | .returned none, .main => some (.ended, [])
  | .returned (some info), .main =>
      let client := Client.startClient order station.config info
      some (.running { client, heart := .start, veth := .test }, [])
  | _, .fail => some (.ended, [])
  | _, _ => none

/-- The threads, and the joins of the main thread. -/
def runningTurn (order : ByteOrder) (running : Running) : Turn → Option (Process × List Action)
  | .receive peer datagram =>
      if running.client.stop then none
      else
        let handled := running.client.handleNetworkDatagram order peer datagram
        some (.running { running with client := handled.1 }, handled.2)
  | .heart time => match running.heart with
      | .start =>
          let data := running.client.heartbeat order time
          some (.running { running with heart := .test data }, [])
      | .test data =>
          let heart := if running.client.stop then .returned else .sleep data
          some (.running { running with heart }, [])
      | .sleep data =>
          some (.running { running with heart := .test data }, [.send running.client.server data])
      | .returned => none
  | .veth frame => match running.veth with
      | .test =>
          let veth := if running.client.stop then .returned else .read
          some (.running { running with veth }, [])
      | .read => some (.running { running with veth := .test },
          running.client.handleVirtualEthernet order frame)
      | .returned => none
  | .main => match running.heart, running.veth with
      | .returned, .returned => if running.client.stop then some (.ended, []) else none
      | _, _ => none
  | .silence => none
  | .fail => some (.ended, [])

def turn (order : ByteOrder) (station : Station) : Process → Turn → Option (Process × List Action)
  | .session phase, turn => station.sessionTurn order phase turn
  | .running running, turn => runningTurn order running turn
  | .ended, _ => none

/-- What a turn can do. Every property of a process is derived from this. -/
inductive Move (order : ByteOrder) (station : Station) :
    Process → Turn → Process → List Action → Prop where
  | asked (i : Nat) : Move order station (.session (.sending i)) .main (.session (.waiting i))
      [.send station.config.remote (Client.request order station.mac)]
  | unanswered (i : Nat) : Move order station (.session (.waiting i)) .silence
      (.session (.after i none)) []
  | answered (i : Nat) (peer : SockAddr) (datagram : Bytes) :
      Move order station (.session (.waiting i)) (.receive peer datagram)
        (.session (.after i (Client.response order (recv datagram Client.responseSize)))) []
  | refused : Move order station (.session (.returned none)) .main .ended []
  | began (info : SessionInfo) : Move order station (.session (.returned (some info))) .main
      (.running { client := Client.startClient order station.config info, heart := .start
                  veth := .test }) []
  | received (running : Running) (peer : SockAddr) (datagram : Bytes)
      (listening : running.client.stop = false) :
      Move order station (.running running) (.receive peer datagram)
        (.running { running with
          client := (running.client.handleNetworkDatagram order peer datagram).1 })
        (running.client.handleNetworkDatagram order peer datagram).2
  | prepared (running : Running) (time : UInt32) (start : running.heart = .start) :
      Move order station (.running running) (.heart time)
        (.running { running with heart := .test (running.client.heartbeat order time) }) []
  | slept (running : Running) (time : UInt32) (data : Bytes) (test : running.heart = .test data)
      (going : running.client.stop = false) :
      Move order station (.running running) (.heart time)
        (.running { running with heart := .sleep data }) []
  | stilled (running : Running) (time : UInt32) (data : Bytes) (test : running.heart = .test data)
      (stopped : running.client.stop = true) :
      Move order station (.running running) (.heart time)
        (.running { running with heart := .returned }) []
  | beat (running : Running) (time : UInt32) (data : Bytes) (sleep : running.heart = .sleep data) :
      Move order station (.running running) (.heart time)
        (.running { running with heart := .test data }) [.send running.client.server data]
  | waited (running : Running) (frame : Bytes) (test : running.veth = .test)
      (going : running.client.stop = false) :
      Move order station (.running running) (.veth frame)
        (.running { running with veth := .read }) []
  | closed (running : Running) (frame : Bytes) (test : running.veth = .test)
      (stopped : running.client.stop = true) :
      Move order station (.running running) (.veth frame)
        (.running { running with veth := .returned }) []
  | relayed (running : Running) (frame : Bytes) (read : running.veth = .read) :
      Move order station (.running running) (.veth frame)
        (.running { running with veth := .test })
        (running.client.handleVirtualEthernet order frame)
  | joined (running : Running) (heart : running.heart = .returned)
      (veth : running.veth = .returned) (stopped : running.client.stop = true) :
      Move order station (.running running) .main .ended []
  | failed (process : Process) (alive : process ≠ .ended) :
      Move order station process .fail .ended []

theorem turn_move {order : ByteOrder} {station : Station} {process after : Process}
    {turn : Turn} {actions : List Action}
    (taken : station.turn order process turn = some (after, actions)) :
    Move order station process turn after actions := by
  cases process with
  | session phase =>
      simp only [Station.turn, sessionTurn] at taken
      split at taken <;> cases taken
      · exact .asked _
      · exact .unanswered _
      · exact .answered ..
      · exact .refused
      · exact .began _
      · exact .failed _ nofun
  | running running =>
      simp only [Station.turn] at taken
      cases turn with
      | main =>
          simp only [runningTurn] at taken
          split at taken
          · rename_i heart veth
            split at taken <;> cases taken
            rename_i stopped
            exact .joined running heart veth stopped
          · cases taken
      | silence => cases taken
      | receive peer datagram =>
          simp only [runningTurn] at taken
          split at taken <;> cases taken
          rename_i listening
          exact .received running peer datagram (by simpa using listening)
      | heart time =>
          simp only [runningTurn] at taken
          split at taken
          · cases taken
            exact .prepared running time ‹_›
          · rename_i data test
            cases taken
            cases stopped : running.client.stop with
            | true => exact .stilled running time data test stopped
            | false => exact .slept running time data test stopped
          · cases taken
            exact .beat running time _ ‹_›
          · cases taken
      | veth frame =>
          simp only [runningTurn] at taken
          split at taken
          · rename_i test
            cases taken
            cases stopped : running.client.stop with
            | true => exact .closed running frame test stopped
            | false => exact .waited running frame test stopped
          · cases taken
            exact .relayed running frame ‹_›
          · cases taken
      | fail =>
          cases taken
          exact .failed _ nofun
  | ended => cases taken

/-! The history of a process. -/

/-- The session it has adopted, everything it has sent, and the frames that its
interface has returned and was given. -/
structure Node where
  process : Process
  adopted : Option SessionInfo
  outbox : List Bytes
  returned : List Bytes
  given : List Bytes

def start : Node where
  process := .session (.sending 0)
  adopted := none
  outbox := []
  returned := []
  given := []

/-- The session that a turn makes a `TunnelClient` of. -/
def adopts (process : Process) : Turn → Option SessionInfo
  | .main => match process with
      | .session (.returned info) => info
      | _ => none
  | _ => none

/-- What `veth->read` returns in a turn. -/
def reads (process : Process) : Turn → List Bytes
  | .veth frame => match process with
      | .running { veth := .read, .. } => [frame.take 2000]
      | _ => []
  | _ => []

theorem adopts_running (running : Running) (turn : Turn) : adopts (.running running) turn = none := by
  cases turn <;> rfl

theorem reads_read {running : Running} (read : running.veth = .read) (frame : Bytes) :
    reads (.running running) (.veth frame) = [frame.take 2000] := by
  obtain ⟨client, heart, veth⟩ := running
  cases read
  rfl

def sends (actions : List Action) : List Bytes :=
  actions.filterMap fun action => match action with
    | .send _ data => some data
    | .write _ => none

def record (node : Node) (turn : Turn) (result : Process × List Action) : Node where
  process := result.1
  adopted := (adopts node.process turn).or node.adopted
  outbox := node.outbox ++ sends result.2
  returned := node.returned ++ reads node.process turn
  given := node.given ++ writes result.2

def step (order : ByteOrder) (station : Station) (node : Node) (turn : Turn) : Option Node :=
  (station.turn order node.process turn).map (record node turn)

/-- The three things a process ever says. -/
inductive Said (order : ByteOrder) (station : Station) (adopted : Option SessionInfo)
    (returned : List Bytes) : Bytes → Prop where
  | request : Said order station adopted returned (Client.request order station.mac)
  | heartbeat (info : SessionInfo) (time : UInt32) (session : adopted = some info) :
      Said order station adopted returned
        ((Client.startClient order station.config info).heartbeat order time)
  | frame (info : SessionInfo) (frame : Bytes) (session : adopted = some info)
      (read : frame ∈ returned) :
      Said order station adopted returned
        ((Client.startClient order station.config info).relayPacket order frame)

theorem Said.mono {order : ByteOrder} {station : Station} {adopted after : Option SessionInfo}
    {returned more : List Bytes} {datagram : Bytes} (said : Said order station adopted returned datagram)
    (keeps : ∀ info, adopted = some info → after = some info) (grows : returned ⊆ more) :
    Said order station after more datagram := by
  cases said with
  | request => exact .request
  | heartbeat info time session => exact .heartbeat info time (keeps info session)
  | frame info frame session read => exact .frame info frame (keeps info session) (grows read)

/-- What the server's dispatcher makes of what a process says. -/
theorem said_dispatch {order : ByteOrder} {station : Station} {adopted : Option SessionInfo}
    {returned : List Bytes} {datagram : Bytes} (said : Said order station adopted returned datagram)
    (crypto : DummyCrypto) (key : crypto = DummyCrypto.new order Client.secret) :
    dispatch order crypto (recv datagram 2000) = .ignore ∨
    dispatch order crypto (recv datagram 2000) =
      .call .startSession 0 (station.mac.encode order) StartSession.sizeof ∨
    ∃ info, adopted = some info ∧
      ((∃ payload, dispatch order crypto (recv datagram 2000) =
          .call .handleHeartbeat info.identity payload Heartbeat.sizeof) ∨
        ∃ frame ∈ returned, dispatch order crypto (recv datagram 2000) =
          .call .relayData info.identity frame frame.length) := by
  cases said with
  | request => exact Or.inr (Or.inl (Client.request_reaches order crypto station.mac key))
  | heartbeat info time session =>
      exact Or.inr (Or.inr ⟨info, session, Or.inl
        ⟨_, TunnelClient.dispatch_heartbeat order crypto _ key time⟩⟩)
  | frame info frame session read =>
      by_cases fits : frame.length ≤ 1592
      · subst key
        exact Or.inr (Or.inr ⟨info, session, Or.inr ⟨frame, read, dispatch_frame order
          (.new order ⟨List.replicate 6 0, rfl⟩ Client.secret 0) _ rfl frame fits⟩⟩)
      · exact Or.inl (TunnelClient.dispatch_frame_long order crypto _ frame (Nat.not_le.mp fits))

/-- The client of a process is the one it made of the session it adopted. -/
structure Candid (order : ByteOrder) (station : Station) (node : Node) : Prop where
  session : ∀ phase, node.process = .session phase → node.adopted = none
  client : ∀ running, node.process = .running running → ∃ info, node.adopted = some info ∧
    running.client =
      { Client.startClient order station.config info with stop := running.client.stop }
  data : ∀ running data, node.process = .running running →
    running.heart = .test data ∨ running.heart = .sleep data →
      ∃ time, data = running.client.heartbeat order time
  lasting : ∀ running, node.process = .running running → running.heart = .returned →
    running.client.stop = true
  said : ∀ datagram ∈ node.outbox, Said order station node.adopted node.returned datagram

theorem candid_start (order : ByteOrder) (station : Station) : Candid order station start where
  session := fun _ _ => rfl
  client := nofun
  data := nofun
  lasting := nofun
  said := nofun

theorem handle_client (order : ByteOrder) (client : TunnelClient) (peer : SockAddr)
    (datagram : Bytes) :
    (client.handleNetworkDatagram order peer datagram).1 =
      { client with stop := (client.handleNetworkDatagram order peer datagram).1.stop } := by
  simp only [TunnelClient.handleNetworkDatagram]
  split
  · rfl
  · split
    · rfl
    · split
      · rfl
      · split <;> rfl

theorem handle_sends (order : ByteOrder) (client : TunnelClient) (peer : SockAddr)
    (datagram : Bytes) : sends (client.handleNetworkDatagram order peer datagram).2 = [] := by
  simp only [TunnelClient.handleNetworkDatagram]
  split
  · rfl
  · split
    · rfl
    · split
      · rfl
      · split <;> rfl

section Candid
variable {order : ByteOrder} {station : Station} {node : Node} {turn : Turn}

namespace Candid
variable {running : Running} (candid : Candid order station node)
  (process : node.process = .running running)
include candid process

theorem crypto : running.client.crypto = DummyCrypto.new order Client.secret := by
  obtain ⟨info, _, same⟩ := candid.client running process
  rw [same]
  rfl

theorem server : running.client.server = station.config.remote := by
  obtain ⟨info, _, same⟩ := candid.client running process
  rw [same]
  rfl

/-- The client hears the server of its configuration, if that is an `AF_INET` address. -/
theorem hears (family : station.config.remote.sinFamily = TunnelClient.afInet) :
    running.client.validDataSource station.config.remote = true := by
  simp [TunnelClient.validDataSource, candid.server process, family]

/-- It hears nobody else. -/
theorem refuses {peer : SockAddr} (foreign : ¬ (peer.sinAddr = station.config.remote.sinAddr ∧
    peer.sinPort = station.config.remote.sinPort)) (datagram : Bytes) :
    running.client.handleNetworkDatagram order peer datagram = (running.client, []) := by
  refine TunnelClient.handle_foreign order running.client ?_ datagram
  rw [← candid.server process, not_and_or] at foreign
  rw [TunnelClient.validDataSource]
  rcases foreign with other | other <;> simp [other]

end Candid

theorem said_record (candid : Candid order station node) (result : Process × List Action)
    (keeps : adopts node.process turn = none)
    (said : ∀ datagram ∈ sends result.2,
      Said order station node.adopted (node.returned ++ reads node.process turn) datagram) :
    ∀ datagram ∈ (record node turn result).outbox,
      Said order station (record node turn result).adopted (record node turn result).returned
        datagram := by
  intro datagram member
  simp only [record, keeps, Option.none_or]
  rcases List.mem_append.mp member with old | new
  · exact (candid.said datagram old).mono (fun _ => id) (List.subset_append_left ..)
  · exact said datagram new

theorem candid_running (candid : Candid order station node) {running after : Running}
    {actions : List Action} (process : node.process = .running running)
    (client : after.client = { running.client with stop := after.client.stop })
    (data : ∀ data, after.heart = .test data ∨ after.heart = .sleep data →
      (running.heart = .test data ∨ running.heart = .sleep data) ∨
        ∃ time, data = running.client.heartbeat order time)
    (lasting : after.heart = .returned → after.client.stop = true)
    (said : ∀ datagram ∈ sends actions,
      Said order station node.adopted (node.returned ++ reads node.process turn) datagram) :
    Candid order station (record node turn (.running after, actions)) where
  session := nofun
  client := by
    rintro _ ⟨rfl⟩
    obtain ⟨info, session, same⟩ := candid.client running process
    refine ⟨info, ?_, client.trans ?_⟩
    · rw [record, process, adopts_running]
      exact session
    · rw [same]
  data := by
    rintro _ made ⟨rfl⟩ holds
    have known : ∃ time, made = running.client.heartbeat order time := by
      rcases data made holds with before | new
      · exact candid.data running made process before
      · exact new
    obtain ⟨time, rfl⟩ := known
    refine ⟨time, ?_⟩
    rw [client]
    rfl
  lasting := by
    rintro _ ⟨rfl⟩
    exact lasting
  said := said_record candid _ (process ▸ adopts_running running turn) said

theorem candid_ended (candid : Candid order station node) (keeps : adopts node.process turn = none) :
    Candid order station (record node turn (.ended, [])) where
  session := nofun
  client := nofun
  data := nofun
  lasting := nofun
  said := said_record candid _ keeps nofun

theorem candid_session (candid : Candid order station node) {before phase : Phase}
    {actions : List Action} (process : node.process = .session before)
    (keeps : adopts node.process turn = none)
    (said : ∀ datagram ∈ sends actions, datagram = Client.request order station.mac) :
    Candid order station (record node turn (.session phase, actions)) where
  session := fun _ _ => by
    rw [record, keeps]
    exact candid.session before process
  client := nofun
  data := nofun
  lasting := nofun
  said := said_record candid _ keeps fun datagram new => said datagram new ▸ .request

theorem candid_began (candid : Candid order station node) {info : SessionInfo}
    (process : node.process = .session (.returned (some info))) :
    Candid order station (record node .main
      (.running { client := Client.startClient order station.config info, heart := .start
                  veth := .test }, [])) := by
  have before : node.adopted = none := candid.session _ process
  have adopted : (record node .main
      (.running { client := Client.startClient order station.config info, heart := .start
                  veth := .test }, [])).adopted = some info := by
    rw [record, process]
    rfl
  refine { session := nofun, client := ?_, data := ?_, lasting := ?_, said := ?_ }
  · rintro _ ⟨rfl⟩
    exact ⟨info, adopted, rfl⟩
  · rintro _ data ⟨rfl⟩ holds
    simp at holds
  · rintro _ ⟨rfl⟩ ended
    cases ended
  · intro datagram member
    have old := (List.mem_append.mp member).resolve_right List.not_mem_nil
    refine (candid.said datagram old).mono ?_ (List.subset_append_left ..)
    rw [before]
    exact nofun

theorem candid_step {after : Node} (candid : Candid order station node)
    (taken : station.step order node turn = some after) : Candid order station after := by
  obtain ⟨process, adopted, outbox, returned, given⟩ := node
  obtain ⟨⟨process', actions⟩, moved, rfl⟩ := Option.map_eq_some_iff.mp taken
  cases turn_move moved with
  | asked i => exact candid_session candid rfl rfl (by simp [sends])
  | unanswered i => exact candid_session candid rfl rfl (by simp [sends])
  | answered i peer datagram => exact candid_session candid rfl rfl (by simp [sends])
  | refused => exact candid_ended candid rfl
  | began info => exact candid_began candid rfl
  | received running peer datagram listening =>
      refine candid_running candid rfl (handle_client ..) (fun _ => Or.inl) (fun ended => ?_) ?_
      · exact absurd (candid.lasting running rfl ended) (by simp [listening])
      · rw [handle_sends]
        exact nofun
  | prepared running time begins =>
      refine candid_running candid rfl rfl (fun data holds => Or.inr ⟨time, ?_⟩) nofun
        (by simp [sends])
      simpa [eq_comm] using holds
  | slept running time data test going =>
      refine candid_running candid rfl rfl (fun other holds => Or.inl (Or.inl ?_)) nofun
        (by simp [sends])
      simpa [test] using holds
  | stilled running time data test stopped =>
      exact candid_running candid rfl rfl (fun other holds => by simp at holds) (fun _ => stopped)
        (by simp [sends])
  | beat running time data asleep =>
      refine candid_running candid rfl rfl (fun other holds => Or.inl (Or.inr ?_)) nofun ?_
      · simpa [asleep] using holds
      · obtain ⟨info, session, same⟩ := candid.client running rfl
        obtain ⟨made, rfl⟩ := candid.data running data rfl (Or.inr asleep)
        intro datagram new
        cases List.mem_singleton.mp new
        rw [same]
        exact .heartbeat info made session
  | waited running frame test going =>
      exact candid_running candid rfl rfl (fun _ => Or.inl) (candid.lasting running rfl)
        (by simp [sends])
  | closed running frame test stopped =>
      exact candid_running candid rfl rfl (fun _ => Or.inl) (candid.lasting running rfl)
        (by simp [sends])
  | relayed running frame read =>
      refine candid_running candid rfl rfl (fun _ => Or.inl) (candid.lasting running rfl) ?_
      obtain ⟨info, session, same⟩ := candid.client running rfl
      intro datagram new
      cases List.mem_singleton.mp new
      rw [same]
      exact .frame info (frame.take 2000) session (by simp [reads_read read])
  | joined running heart veth stopped => exact candid_ended candid rfl
  | failed process alive => exact candid_ended candid rfl

end Candid

section Steps
variable {order : ByteOrder} {station : Station} {node after : Node} {turn : Turn}

theorem step_grows (taken : station.step order node turn = some after) :
    node.outbox ⊆ after.outbox ∧ node.returned ⊆ after.returned := by
  obtain ⟨result, _, rfl⟩ := Option.map_eq_some_iff.mp taken
  exact ⟨List.subset_append_left .., List.subset_append_left ..⟩

theorem step_own (own : ∀ peer datagram, turn ≠ .receive peer datagram)
    (taken : station.step order node turn = some after) :
    after.given = node.given ∧ ∀ running, after.process = .running running →
      running.client.stop = true →
        ∃ before, node.process = .running before ∧ running.client = before.client := by
  obtain ⟨process, adopted, outbox, returned, given⟩ := node
  obtain ⟨⟨process', actions⟩, moved, rfl⟩ := Option.map_eq_some_iff.mp taken
  have silent : ∀ given : List Bytes, given ++ writes [] = given := List.append_nil
  have kept : ∀ (running : Running) (heart : Heart) (veth : Veth) (final : Running),
      Process.running { running with heart, veth } = .running final → final.client.stop = true →
        ∃ before, Process.running running = .running before ∧ final.client = before.client := by
    rintro running heart veth _ ⟨rfl⟩ _
    exact ⟨running, rfl, rfl⟩
  cases turn_move moved with
  | asked i => exact ⟨silent given, nofun⟩
  | unanswered i => exact ⟨silent given, nofun⟩
  | answered i peer datagram => exact absurd rfl (own peer datagram)
  | refused => exact ⟨silent given, nofun⟩
  | began info =>
      refine ⟨silent given, ?_⟩
      rintro _ ⟨rfl⟩ stop
      cases stop
  | received running peer datagram listening => exact absurd rfl (own peer datagram)
  | prepared running time begins => exact ⟨silent given, kept running _ _⟩
  | slept running time data test going =>
      exact ⟨silent given, kept running _ _⟩
  | stilled running time data test stopped =>
      exact ⟨silent given, kept running _ _⟩
  | beat running time data asleep =>
      exact ⟨silent given, kept running _ _⟩
  | waited running frame test going =>
      exact ⟨silent given, kept running _ _⟩
  | closed running frame test stopped =>
      exact ⟨silent given, kept running _ _⟩
  | relayed running frame read =>
      exact ⟨silent given, kept running _ _⟩
  | joined running heart veth stopped => exact ⟨silent given, nofun⟩
  | failed process alive => exact ⟨silent given, nofun⟩

/-- A datagram is an answer to `startSession`, or the network thread handles it. -/
theorem step_receive {peer : SockAddr} {datagram : Bytes}
    (taken : station.step order node (.receive peer datagram) = some after) :
    (∃ i, node.process = .session (.waiting i) ∧ after = { node with
      process := .session (.after i (Client.response order (recv datagram Client.responseSize))) }) ∨
    ∃ running, node.process = .running running ∧ running.client.stop = false ∧
      after = { node with
        process := .running { running with
          client := (running.client.handleNetworkDatagram order peer datagram).1 }
        given := node.given ++
          writes (running.client.handleNetworkDatagram order peer datagram).2 } := by
  obtain ⟨process, adopted, outbox, returned, given⟩ := node
  obtain ⟨⟨process', actions⟩, moved, rfl⟩ := Option.map_eq_some_iff.mp taken
  cases turn_move moved with
  | answered i => exact Or.inl ⟨i, rfl, by simp [record, adopts, reads, sends, writes]⟩
  | received running _ _ listening =>
      exact Or.inr ⟨running, rfl, listening, by simp [record, adopts, reads, handle_sends]⟩

end Steps

/-! The end of a process. -/

/-- How many turns a thread can still take once `stop` is set. -/
def Heart.left : Heart → Nat
  | .start | .sleep _ => 2
  | .test _ => 1
  | .returned => 0

def Veth.left : Veth → Nat
  | .read => 2
  | .test => 1
  | .returned => 0

/-- A thread that is past its test sends once more. -/
def Heart.owed : Heart → Nat
  | .sleep _ => 1
  | _ => 0

def Veth.owed : Veth → Nat
  | .read => 1
  | _ => 0

namespace Process

def left : Process → Nat
  | .running { heart, veth, .. } => heart.left + veth.left + 1
  | _ => 0

def beats : Process → Nat
  | .running { heart, .. } => heart.owed
  | _ => 0

def frames : Process → Nat
  | .running { veth, .. } => veth.owed
  | _ => 0

end Process

def Stopped : Process → Prop
  | .running running => running.client.stop = true
  | .ended => True
  | .session _ => False

/-- What lies between two moments after `stop`. -/
structure Winds (before after : Node) (turns : Nat) : Prop where
  left : turns + after.process.left ≤ before.process.left
  given : after.given = before.given
  returned : after.returned.length + after.process.frames ≤
    before.returned.length + before.process.frames
  outbox : after.outbox.length + (after.process.beats + after.process.frames) ≤
    before.outbox.length + (before.process.beats + before.process.frames)

theorem winds_trans {first second third : Node} {n m : Nat} (one : Winds first second n)
    (two : Winds second third m) : Winds first third (n + m) where
  left := by
    have := one.left
    have := two.left
    omega
  given := two.given.trans one.given
  returned := Nat.le_trans two.returned one.returned
  outbox := Nat.le_trans two.outbox one.outbox

section Ending
variable {order : ByteOrder} {station : Station} {node after : Node} {turn : Turn}

theorem winds_thread {client : TunnelClient} {heart heart' : Heart} {veth veth' : Veth}
    {actions : List Action} (process : node.process = .running ⟨client, heart, veth⟩)
    (less : heart'.left + veth'.left < heart.left + veth.left) (silent : writes actions = [])
    (sent : (sends actions).length + (heart'.owed + veth'.owed) ≤ heart.owed + veth.owed)
    (read : (reads node.process turn).length + veth'.owed ≤ veth.owed) :
    Winds node (record node turn (.running ⟨client, heart', veth'⟩, actions)) 1 where
  left := by
    simp only [record, process, Process.left]
    omega
  given := by simp [record, silent]
  returned := by
    rw [process] at read
    simp only [record, process, Process.frames, List.length_append]
    omega
  outbox := by
    simp only [record, process, Process.frames, Process.beats, List.length_append]
    omega

theorem winds_ended {running : Running} (process : node.process = .running running)
    (quiet : reads node.process turn = []) : Winds node (record node turn (.ended, [])) 1 where
  left := by
    simp only [record, process, Process.left]
    omega
  given := by simp [record, writes]
  returned := by simp [record, quiet, Process.frames]
  outbox := by simp [record, sends, Process.frames, Process.beats]

/-- Each turn after `stop` brings the end nearer, and what is sent was under way. -/
theorem stopped_step (stopped : Stopped node.process)
    (taken : station.step order node turn = some after) :
    Stopped after.process ∧ Winds node after 1 := by
  obtain ⟨process, adopted, outbox, returned, given⟩ := node
  obtain ⟨⟨process', actions⟩, moved, rfl⟩ := Option.map_eq_some_iff.mp taken
  have going : ∀ running : Running, process = .running running → running.client.stop ≠ false := by
    rintro running rfl unset
    exact Bool.false_ne_true (unset.symm.trans stopped)
  cases turn_move moved with
  | asked i => exact stopped.elim
  | unanswered i => exact stopped.elim
  | answered i peer datagram => exact stopped.elim
  | refused => exact stopped.elim
  | began info => exact stopped.elim
  | received running peer datagram listening => exact absurd listening (going running rfl)
  | prepared running time begins =>
      obtain ⟨client, heart, veth⟩ := running
      cases begins
      exact ⟨stopped, winds_thread rfl (by simp [Heart.left]) rfl (by simp [sends, Heart.owed])
        (by simp [reads])⟩
  | slept running time data test unset => exact absurd unset (going running rfl)
  | stilled running time data test set =>
      obtain ⟨client, heart, veth⟩ := running
      cases test
      exact ⟨stopped, winds_thread rfl (by simp [Heart.left]) rfl (by simp [sends, Heart.owed])
        (by simp [reads])⟩
  | beat running time data asleep =>
      obtain ⟨client, heart, veth⟩ := running
      cases asleep
      exact ⟨stopped, winds_thread rfl (by simp [Heart.left]) rfl
        (by simp only [sends, Heart.owed, List.filterMap_cons, List.filterMap_nil,
          List.length_singleton]; omega)
        (by simp [reads])⟩
  | waited running frame test unset => exact absurd unset (going running rfl)
  | closed running frame test set =>
      obtain ⟨client, heart, veth⟩ := running
      cases test
      exact ⟨stopped, winds_thread rfl (by simp [Veth.left]) rfl (by simp [sends, Veth.owed])
        (by simp [reads, Veth.owed])⟩
  | relayed running frame read =>
      obtain ⟨client, heart, veth⟩ := running
      cases read
      refine ⟨stopped, winds_thread rfl (by simp [Veth.left]) rfl ?_ (by simp [reads, Veth.owed])⟩
      simp only [TunnelClient.handleVirtualEthernet, sends, Veth.owed, List.filterMap_cons,
        List.filterMap_nil, List.length_singleton]
      omega
  | joined running heart veth set => exact ⟨trivial, winds_ended rfl rfl⟩
  | failed process alive =>
      cases process with
      | session phase => exact stopped.elim
      | running running => exact ⟨trivial, winds_ended rfl rfl⟩
      | ended => exact absurd rfl alive

theorem stopped_run {turns : List Turn} (stopped : Stopped node.process)
    (past : Runs.run (station.step order) node turns = some after) :
    Stopped after.process ∧ Winds node after turns.length := by
  induction turns generalizing node with
  | nil =>
      cases (Runs.run_nil ..).mp past
      exact ⟨stopped, by simp, rfl, Nat.le_refl _, Nat.le_refl _⟩
  | cons turn rest ih =>
      obtain ⟨next, taken, future⟩ := (Runs.run_cons ..).mp past
      obtain ⟨still, first⟩ := stopped_step stopped taken
      obtain ⟨last, others⟩ := ih still future
      rw [List.length_cons, Nat.add_comm]
      exact ⟨last, winds_trans first others⟩

/-- As long as it is not over, a thread or the main thread can go on. -/
theorem stopped_goes_on (stopped : Stopped node.process) (alive : node.process ≠ .ended)
    (time : UInt32) (frame : Bytes) :
    ∃ turn ∈ [Turn.main, .heart time, .veth frame], (station.step order node turn).isSome := by
  obtain ⟨process, adopted, outbox, returned, given⟩ := node
  cases process with
  | session phase => exact stopped.elim
  | ended => exact absurd rfl alive
  | running running =>
      obtain ⟨client, heart, veth⟩ := running
      have set : client.stop = true := stopped
      cases heart with
      | start => exact ⟨.heart time, by simp, rfl⟩
      | test data => exact ⟨.heart time, by simp, rfl⟩
      | sleep data => exact ⟨.heart time, by simp, rfl⟩
      | returned =>
          cases veth with
          | test => exact ⟨.veth frame, by simp, rfl⟩
          | read => exact ⟨.veth frame, by simp, rfl⟩
          | returned => exact ⟨.main, by simp, by simp [step, Station.turn, runningTurn, set]⟩

/-- Once `stop` is set the process ends, in any order of its threads, within
five turns; it takes nothing from the tunnel any more, reads at most one frame
and sends at most one heartbeat beside it. Until it has ended one of three turns
is possible, for whatever time is over and whatever frame comes: a thread in
`veth->read` waits for a frame. -/
theorem falls_silent (order : ByteOrder) (station : Station) (node final : Node)
    (running : Running) (process : node.process = .running running)
    (stop : running.client.stop = true) (turns : List Turn)
    (past : Runs.run (station.step order) node turns = some final) :
    turns.length ≤ 5 ∧ final.given = node.given ∧
      final.returned.length ≤ node.returned.length + 1 ∧
      final.outbox.length ≤ node.outbox.length + 2 ∧
      (final.process = .ended ∨ ∀ time frame,
        ∃ turn ∈ [Turn.main, .heart time, .veth frame], (station.step order final turn).isSome) := by
  have stopped : Stopped node.process := process ▸ stop
  obtain ⟨still, winds⟩ := stopped_run stopped past
  obtain ⟨client, heart, veth⟩ := running
  have heartBound : heart.left ≤ 2 ∧ heart.owed ≤ 1 := by cases heart <;> simp [Heart.left, Heart.owed]
  have vethBound : veth.left ≤ 2 ∧ veth.owed ≤ 1 := by cases veth <;> simp [Veth.left, Veth.owed]
  have left := winds.left
  have returned := winds.returned
  have outbox := winds.outbox
  simp only [process, Process.left, Process.frames, Process.beats] at left returned outbox
  refine ⟨by omega, winds.given, by omega, by omega, ?_⟩
  by_cases ended : final.process = .ended
  · exact Or.inl ended
  · exact Or.inr (stopped_goes_on still ended)

end Ending

/-- A heartbeat thread in `sleep` and a virtual ethernet thread in `veth->read`. -/
def plainStation : Station where
  address := { plainPeer with sinAddr := 7 }
  mac := plainMac 7
  config := plainClientConfig ""

def plainLate : Node where
  process := .running
    { client := { plainClient with stop := true }, heart := .sleep [1], veth := .read }
  adopted := none
  outbox := []
  returned := []
  given := []

theorem falls_silent_late : ∃ final,
    Runs.run (plainStation.step .little) plainLate
      [.heart 0, .veth (plainBroadcast 19), .heart 0, .veth [], .main] = some final ∧
    final.outbox.length ≤ 2 := by
  refine ⟨_, rfl, ?_⟩
  exact (falls_silent .little plainStation plainLate _ _ rfl rfl
    [.heart 0, .veth (plainBroadcast 19), .heart 0, .veth [], .main] rfl).2.2.2.1

end Station

end Muddymask
