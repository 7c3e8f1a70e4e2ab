import Muddymask.Registry

/-!
Two processes of the server, one after the other. Nothing in the program seeds
`random()`, so every process draws the same values in the same order, and an
identity of the first process comes up again in the second. A heartbeat under it
is refused only as long as no session of the second process has drawn that value.
-/

namespace Muddymask

open Words TunnelServer Machine

namespace Process

/-- How often `random()` was called: once by the constructor, and once after
every `new ClientInfo`. -/
def drawn (machine : Machine) : Nat := machine.server.next + 1

/-- An event of a process in which `random()` goes through `sequence`. -/
def seeded (sequence : Nat → UInt32) (machine : Machine) : Event → Event
  | .datagram peer datagram _ time => .datagram peer datagram (sequence (drawn machine)) time
  | event => event

def start (order : ByteOrder) (sequence : Nat → UInt32) (mac : { mac : Bytes // mac.length = 6 })
    (secret : Bytes) : Machine := Machine.init order mac secret (sequence 0)

def step (order : ByteOrder) (sequence : Nat → UInt32) (machine : Machine) (event : Event) :
    Option (Machine × List Action) := machine.step order (seeded sequence machine event)

def next (order : ByteOrder) (sequence : Nat → UInt32) (machine : Machine) (event : Event) :
    Option Machine := (step order sequence machine event).map Prod.fst

theorem seeded_random {sequence : Nat → UInt32} {machine : Machine} {event : Event}
    {peer : SockAddr} {datagram : Bytes} {random : UInt32} {time : Int}
    (same : seeded sequence machine event = .datagram peer datagram random time) :
    random = sequence (drawn machine) := by
  cases event <;> cases same
  rfl

/-- A process is a server like any other. -/
theorem reached_of_process {order : ByteOrder} {sequence : Nat → UInt32}
    {mac : { mac : Bytes // mac.length = 6 }} {secret : Bytes} {machine : Machine}
    (reached : Runs.Reachable (next order sequence) (start order sequence mac secret) machine) :
    Reached order machine := by
  refine ⟨mac, secret, sequence 0, ?_⟩
  exact Runs.reachable_induct _ reached (Runs.reachable_start _)
    fun _ _ _ _ ih taken => Runs.reachable_next ih taken

/-- The record with the number `info` took the value with the number `info + 1`. -/
theorem identity_drawn {order : ByteOrder} {sequence : Nat → UInt32}
    {mac : { mac : Bytes // mac.length = 6 }} {secret : Bytes} {machine : Machine}
    (reached : Runs.Reachable (next order sequence) (start order sequence mac secret) machine)
    (info : Ptr) (made : info < machine.server.next) :
    (machine.server.client info).identity = sequence (info + 1) := by
  refine Runs.reachable_induct (fun machine => ∀ info < machine.server.next,
    (machine.server.client info).identity = sequence (info + 1)) reached ?_ ?_ info made
  · intro info none
    exact absurd none (Nat.not_lt_zero info)
  · intro before event after _ ih taken info made
    have random := @seeded_random sequence before event
    have change := next_change (show Machine.next order before (seeded sequence before event) =
      some after from taken)
    generalize seeded sequence before event = happened at change random
    cases change with
    | opened request =>
        rcases Nat.lt_succ_iff_lt_or_eq.mp made with old | rfl
        · simpa [opened, Nat.ne_of_lt old] using ih info old
        · simpa [opened, drawn] using random rfl
    | refreshed id target =>
        rw [refreshClient_identity]
        exact ih info made
    | _ => exact ih info made

end Process

/-- What one registration of the first process handed out. -/
structure Issued where
  number : Ptr
  identity : UInt32
  mac : MacAddress

namespace Process

def issue (order : ByteOrder) (sequence : Nat → UInt32) (machine : Machine) (event : Event) :
    Option Issued :=
  match event, machine.net, next order sequence machine event with
  | .register, some pending, some _ =>
      some { number := pending.info, identity := (machine.server.client pending.info).identity
             mac := (machine.server.client pending.info).tun.mac }
  | _, _, _ => none

theorem issued_drawn {order : ByteOrder} {sequence : Nat → UInt32}
    {mac : { mac : Bytes // mac.length = 6 }} {secret : Bytes} {events : List Event}
    {issued : Issued}
    (member : issued ∈ Runs.observed (next order sequence) (issue order sequence)
      (start order sequence mac secret) events) :
    issued.identity = sequence (issued.number + 1) := by
  obtain ⟨machine, event, reached, noted⟩ := Runs.mem_observed (Runs.reachable_start _) member
  simp only [issue] at noted
  split at noted
  · rename_i pending _ waiting _
    cases noted
    have live := (sound_reached (reached_of_process reached)).pendingLive pending waiting
    exact identity_drawn reached pending.info live.1
  · cases noted

end Process

/-- A heartbeat of `peer` under the identity that the first process handed out. -/
def Stale (order : ByteOrder) (machine : Machine) (issued : Issued) (event : Event)
    (peer : SockAddr) : Prop :=
  ∃ datagram random time, event = .datagram peer datagram random time ∧
    heartbeatIdentity order machine.server.crypto datagram = some issued.identity

/-- No record of another client is written to. -/
def Untouched (before after : Machine) (mac : MacAddress) : Prop :=
  ∀ info < before.server.next, ((before.server.client info).tun.mac == mac) = false →
    (after.server.client info).alive = (before.server.client info).alive ∧
      (after.server.client info).address = (before.server.client info).address

/-- The same client has a session under this identity in the second process as well. -/
def OwnSession (machine : Machine) (issued : Issued) : Prop :=
  ∃ info, machine.server.dict.id.find issued.identity = some info ∧
    ((machine.server.client info).tun.mac == issued.mac) = true

/-- Sessions of the first process mean nothing to the second: a heartbeat under
an old identity writes to no record of another client and is told to restart.
Only a client that has the identity again in the second process is not told so. -/
def Harmless (order : ByteOrder) (sequence : Nat → UInt32) (issues : List Issued)
    (machine : Machine) (event : Event) : Prop :=
  ∀ issued ∈ issues, ∀ peer after actions, Stale order machine issued event peer →
    Process.step order sequence machine event = some (after, actions) →
    Untouched machine after issued.mac ∧ (OwnSession machine issued ∨
      actions = [machine.server.sendErrorCode order peer .kRestartSession])

/-- The same without the exception. -/
def Meaningless (order : ByteOrder) (sequence : Nat → UInt32) (issues : List Issued)
    (machine : Machine) (event : Event) : Prop :=
  ∀ issued ∈ issues, ∀ peer after actions, Stale order machine issued event peer →
    Process.step order sequence machine event = some (after, actions) →
    Untouched machine after issued.mac ∧
      actions = [machine.server.sendErrorCode order peer .kRestartSession]

/-- When a heartbeat under an old identity comes, no session of another client
has drawn the value that the first process drew for it. -/
def NoForeignTwin (order : ByteOrder) (sequence : Nat → UInt32) (issues : List Issued)
    (machine : Machine) (event : Event) : Prop :=
  ∀ issued ∈ issues, ∀ peer, Stale order machine issued event peer →
    ∀ key info, (key, info) ∈ machine.server.dict.id.entries →
      sequence (info + 1) = sequence (issued.number + 1) →
      ((machine.server.client info).tun.mac == issued.mac) = true

/-- No session at all has drawn it. -/
def NoTwin (order : ByteOrder) (sequence : Nat → UInt32) (issues : List Issued)
    (machine : Machine) (event : Event) : Prop :=
  ∀ issued ∈ issues, ∀ peer, Stale order machine issued event peer →
    ∀ key info, (key, info) ∈ machine.server.dict.id.entries →
      sequence (info + 1) ≠ sequence (issued.number + 1)

/-- What a heartbeat does, with its answer. -/
theorem step_heartbeat {order : ByteOrder} {machine after : Machine} {peer : SockAddr}
    {datagram : Bytes} {random : UInt32} {time : Int} {actions : List Action} {id : UInt32}
    (heard : heartbeatIdentity order machine.server.crypto datagram = some id)
    (taken : machine.step order (.datagram peer datagram random time) = some (after, actions)) :
    (machine.server.dict.id.find id = none ∧ after = machine ∧
      actions = [machine.server.sendErrorCode order peer .kRestartSession]) ∨
    ∃ info, machine.server.dict.id.find id = some info ∧ actions = [] ∧
      after = { machine with server := machine.server.refreshClient info peer time } := by
  simp only [heartbeatIdentity] at heard
  split at heard
  · rename_i identity packet length seen
    split at heard
    · rename_i sized
      cases heard
      simp only [Machine.step, receive, seen] at taken
      split at taken
      · cases taken
      split at taken
      · cases taken
      cases known : machine.server.dict.id.find id with
      | none =>
          simp only [handleHeartbeat, sized, ne_eq, not_true_eq_false, ↓reduceIte, known] at taken
          cases taken
          exact Or.inl ⟨rfl, rfl, rfl⟩
      | some info =>
          simp only [handleHeartbeat, sized, ne_eq, not_true_eq_false, ↓reduceIte, known] at taken
          cases taken
          exact Or.inr ⟨info, rfl, rfl, rfl⟩
    · cases heard
  · cases heard

/-- The sessions under an identity are those that drew its value. -/
theorem twin_iff {order : ByteOrder} {sequence : Nat → UInt32}
    {mac : { mac : Bytes // mac.length = 6 }} {secret : Bytes} {machine : Machine}
    (reached : Runs.Reachable (Process.next order sequence)
      (Process.start order sequence mac secret) machine) {issued : Issued}
    (value : issued.identity = sequence (issued.number + 1)) (info : Ptr) :
    machine.server.dict.id.find issued.identity = some info ↔
      (∃ key, (key, info) ∈ machine.server.dict.id.entries) ∧
        sequence (info + 1) = sequence (issued.number + 1) := by
  have sound := sound_reached (Process.reached_of_process reached)
  have drew : ∀ key, (key, info) ∈ machine.server.dict.id.entries → key = sequence (info + 1) := by
    intro key member
    rw [← sound.idKey key info member]
    exact Process.identity_drawn reached info (sound.live info (Or.inl ⟨key, member⟩)).1
  rw [← UnorderedMap.mem_iff_find, value]
  constructor
  · exact fun member => ⟨⟨_, member⟩, (drew _ member).symm⟩
  · rintro ⟨⟨key, member⟩, same⟩
    rwa [← same, ← drew key member]

section Step
variable {order : ByteOrder} {sequence : Nat → UInt32} {mac : { mac : Bytes // mac.length = 6 }}
  {secret : Bytes} {machine : Machine} {issued : Issued} {event : Event} {peer : SockAddr}

/-- A heartbeat under an old identity in the second process: it is refused, or
it refreshes the one session that drew the same value. -/
theorem stale_cases
    (reached : Runs.Reachable (Process.next order sequence)
      (Process.start order sequence mac secret) machine)
    (value : issued.identity = sequence (issued.number + 1))
    (stale : Stale order machine issued event peer) {after : Machine} {actions : List Action}
    (taken : Process.step order sequence machine event = some (after, actions)) :
    ((∀ key info, (key, info) ∈ machine.server.dict.id.entries →
        sequence (info + 1) ≠ sequence (issued.number + 1)) ∧ after = machine ∧
      actions = [machine.server.sendErrorCode order peer .kRestartSession]) ∨
    ∃ info time, machine.server.dict.id.find issued.identity = some info ∧ actions = [] ∧
      after = { machine with server := machine.server.refreshClient info peer time } := by
  obtain ⟨datagram, random, time, rfl, heard⟩ := stale
  rcases step_heartbeat heard taken with ⟨unknown, same, restart⟩ | ⟨info, known, silent, same⟩
  · refine Or.inl ⟨fun key info member twin => ?_, same, restart⟩
    have found := (twin_iff reached value info).mpr ⟨⟨key, member⟩, twin⟩
    cases unknown.symm.trans found
  · exact Or.inr ⟨info, time, known, silent, same⟩

theorem untouched_refl (mac : MacAddress) : Untouched machine machine mac :=
  fun _ _ _ => ⟨rfl, rfl⟩

theorem untouched_refreshed {mac : MacAddress} {info : Ptr} (time : Int)
    (own : ((machine.server.client info).tun.mac == mac) = true) :
    Untouched machine { machine with server := machine.server.refreshClient info peer time } mac := by
  intro other _ foreign
  have different : other ≠ info := by
    rintro rfl
    rw [own] at foreign
    cases foreign
  simp [refreshClient, different]

variable {issues : List Issued} {result : Machine}

theorem meaningless_iff
    (reached : Runs.Reachable (Process.next order sequence)
      (Process.start order sequence mac secret) machine)
    (values : ∀ issued ∈ issues, issued.identity = sequence (issued.number + 1))
    (moved : Process.next order sequence machine event = some result) :
    Meaningless order sequence issues machine event ↔ NoTwin order sequence issues machine event := by
  obtain ⟨⟨after, actions⟩, taken, _⟩ := Option.map_eq_some_iff.mp moved
  constructor
  · intro meaningless issued member peer stale
    rcases stale_cases reached (values issued member) stale taken with
      ⟨apart, _⟩ | ⟨_, _, _, silent, _⟩
    · exact apart
    · have restart := (meaningless issued member peer after actions stale taken).2
      cases silent.symm.trans restart
  · intro apart issued member peer after actions stale taken
    rcases stale_cases reached (values issued member) stale taken with
      ⟨_, rfl, restart⟩ | ⟨info, _, known, _⟩
    · exact ⟨untouched_refl _, restart⟩
    · obtain ⟨⟨key, present⟩, twin⟩ := (twin_iff reached (values issued member) info).mp known
      exact absurd twin (apart issued member peer stale key info present)

theorem harmless_iff
    (reached : Runs.Reachable (Process.next order sequence)
      (Process.start order sequence mac secret) machine)
    (values : ∀ issued ∈ issues, issued.identity = sequence (issued.number + 1))
    (moved : Process.next order sequence machine event = some result) :
    Harmless order sequence issues machine event ↔
      NoForeignTwin order sequence issues machine event := by
  obtain ⟨⟨after, actions⟩, taken, _⟩ := Option.map_eq_some_iff.mp moved
  constructor
  · intro harmless issued member peer stale key info present twin
    have known := (twin_iff reached (values issued member) info).mpr ⟨⟨key, present⟩, twin⟩
    rcases stale_cases reached (values issued member) stale taken with
      ⟨apart, _⟩ | ⟨_, _, _, silent, _⟩
    · exact absurd twin (apart key info present)
    · rcases (harmless issued member peer after actions stale taken).2 with
        ⟨other, found, own⟩ | restart
      · cases Option.some.inj (known.symm.trans found)
        exact own
      · cases silent.symm.trans restart
  · intro apart issued member peer after actions stale taken
    rcases stale_cases reached (values issued member) stale taken with
      ⟨_, rfl, restart⟩ | ⟨info, time, known, _, rfl⟩
    · exact ⟨untouched_refl _, Or.inr restart⟩
    · obtain ⟨⟨key, present⟩, twin⟩ := (twin_iff reached (values issued member) info).mp known
      have own := apart issued member peer stale key info present twin
      exact ⟨untouched_refreshed time own, Or.inl ⟨info, known, own⟩⟩

end Step

/-- Two processes with any datagrams in each. The sessions of the first mean
nothing to the second exactly as long as no heartbeat under an old identity comes
while the second has a session that drew the same value. -/
theorem restart_isolation_iff (order : ByteOrder) (sequence : Nat → UInt32)
    (firstMac secondMac : { mac : Bytes // mac.length = 6 }) (firstSecret secondSecret : Bytes)
    (first second : List Event) (final : Machine)
    (past : Runs.run (Process.next order sequence)
      (Process.start order sequence secondMac secondSecret) second = some final) :
    let issues := Runs.observed (Process.next order sequence) (Process.issue order sequence)
      (Process.start order sequence firstMac firstSecret) first
    let along := Runs.Along (Process.next order sequence)
    let restarted := Process.start order sequence secondMac secondSecret
    (along (Harmless order sequence issues) restarted second ↔
      along (NoForeignTwin order sequence issues) restarted second) ∧
    (along (Meaningless order sequence issues) restarted second ↔
      along (NoTwin order sequence issues) restarted second) := by
  intro issues along restarted
  have values : ∀ issued ∈ issues, issued.identity = sequence (issued.number + 1) :=
    fun issued => Process.issued_drawn
  have begun : Runs.Reachable (Process.next order sequence) restarted restarted :=
    Runs.reachable_start _
  constructor
  · exact Runs.along_congr_reached restarted _ _
      (fun before event after reached taken => harmless_iff reached values taken)
      restarted final second begun past
  · exact Runs.along_congr_reached restarted _ _
      (fun before event after reached taken => meaningless_iff reached values taken)
      restarted final second begun past

/-- A process in which `random()` gives 5, then 11, then 12 for ever. -/
def plainSequence : Nat → UInt32
  | 0 => 5
  | 1 => 11
  | _ => 12

def plainProcess : Machine :=
  Process.start .little plainSequence ⟨[2, 0, 0, 0, 0, 3], rfl⟩ []

def plainIssues : List Issued :=
  Runs.observed (Process.next .little plainSequence) (Process.issue .little plainSequence)
    plainProcess (plainSession 7 0 0)

theorem restart_isolation_two_clients : ∃ final,
    let along := Runs.Along (Process.next .little plainSequence)
    Runs.run (Process.next .little plainSequence) plainProcess (plainSession 8 0 0) = some final ∧
    (along (Harmless .little plainSequence plainIssues) plainProcess (plainSession 8 0 0) ↔
      along (NoForeignTwin .little plainSequence plainIssues) plainProcess (plainSession 8 0 0)) ∧
    (along (Meaningless .little plainSequence plainIssues) plainProcess (plainSession 8 0 0) ↔
      along (NoTwin .little plainSequence plainIssues) plainProcess (plainSession 8 0 0)) := by
  have computed : (Runs.run (Process.next .little plainSequence) plainProcess
      (plainSession 8 0 0)).map (fun _ => ()) = some () := by
    decide +kernel
  obtain ⟨final, past, _⟩ := Option.map_eq_some_iff.mp computed
  exact ⟨final, past, restart_isolation_iff .little plainSequence _ _ _ _ (plainSession 7 0 0)
    (plainSession 8 0 0) final past⟩

def staleHeartbeat : Event :=
  .datagram { plainPeer with sinPort := 1 } (plainHeartbeat 11) 0 40

/-- The first session of either process has the identity 11: the old client's
heartbeat moves the new client's record to the old client's address. -/
theorem restart_isolation_fails : ∃ final,
    let along := Runs.Along (Process.next .little plainSequence)
    let second := plainSession 8 0 0 ++ [staleHeartbeat]
    Runs.run (Process.next .little plainSequence) plainProcess second = some final ∧
      ¬ along (Harmless .little plainSequence plainIssues) plainProcess second ∧
      ¬ along (Meaningless .little plainSequence plainIssues) plainProcess second := by
  have issues : plainIssues.map (fun issued => (issued.identity, issued.mac.addr)) =
      [(11, [2, 0, 0, 0, 0, 7])] := by
    decide +kernel
  have computed : ((Runs.run (Process.next .little plainSequence) plainProcess
      (plainSession 8 0 0)).bind fun middle =>
        (Process.step .little plainSequence middle staleHeartbeat).map fun result =>
          ((middle.server.crypto, middle.server.next),
            ((middle.server.client 0).tun.mac.addr, (middle.server.client 0).alive),
            (result.1.server.client 0).alive)) =
      some ((plainProcess.server.crypto, 1), ([2, 0, 0, 0, 0, 8], 0), 40) := by
    decide +kernel
  obtain ⟨middle, past, rest⟩ := Option.bind_eq_some_iff.mp computed
  obtain ⟨⟨after, actions⟩, taken, seen⟩ := Option.map_eq_some_iff.mp rest
  simp only [Prod.mk.injEq] at seen
  obtain ⟨⟨crypto, made⟩, ⟨mac, before⟩, changed⟩ := seen
  obtain ⟨issued, member, known⟩ := List.mem_map.mp (issues ▸ List.mem_singleton_self _)
  simp only [Prod.mk.injEq] at known
  have stale : Stale .little middle issued staleHeartbeat { plainPeer with sinPort := 1 } :=
    ⟨_, _, _, rfl, by rw [crypto, known.1]; rfl⟩
  have touched : ¬ Untouched middle after issued.mac := by
    intro untouched
    have foreign : ((middle.server.client 0).tun.mac == issued.mac) = false := by
      apply Bool.eq_false_iff.mpr
      intro same
      have clash := (MacAddress.beq_iff _ _).mp same
      rw [mac, known.2] at clash
      exact absurd clash (by decide)
    have kept := (untouched 0 (by rw [made]; exact Nat.zero_lt_one) foreign).1
    rw [changed, before] at kept
    exact absurd kept (by decide)
  refine ⟨after, (Runs.run_append ..).mpr ⟨middle, past, ?_⟩, ?_, ?_⟩
  · exact (Runs.run_cons ..).mpr ⟨after, by simp [Process.next, taken], by simp⟩
  · intro harmless
    have last := ((Runs.along_concat _ _ _ _ _ past).mp harmless).2
    exact touched (last issued member _ after actions stale taken).1
  · intro meaningless
    have last := ((Runs.along_concat _ _ _ _ _ past).mp meaningless).2
    exact touched (last issued member _ after actions stale taken).1

end Muddymask
