import Mathlib.Data.Fintype.Card
import Muddymask.SharedMutex
import Muddymask.Simulation

/-!
`shared_mutex` is a reader-writer lock: what its threads do to the word, section by
section, are the operations of one `RwLock`. The bit is set from the claim of the lock
on, while the writer may still wait at the second gate.
-/

namespace Muddymask.SharedMutex

open ReaderWriter Simulation

namespace Thread

/-- The write bit is the thread's, which may still wait for the readers to leave. -/
def claims (thread : Thread) : Bool :=
  match thread.point with
  | .waiting .lockGate2 _ => true
  | _ => thread.exclusive

def held (thread : Thread) : List (Unit × Mode) :=
  (if thread.claims then [((), .exclusive)] else []) ++
    if thread.shared then [((), .shared)] else []

def happened (condition : Bool) (op : Op Unit) : List (Op Unit) :=
  if condition then [op] else []

/-- What a section has done to the lock, told by what its thread held before and after it. -/
def moves (before after : Thread) : List (Op Unit) :=
  happened (!before.claims && after.claims) (.acquire () .exclusive) ++
  happened (!before.exclusive && after.exclusive) (.enter ()) ++
  happened (!before.shared && after.shared) (.acquire () .shared) ++
  happened (before.exclusive && !after.exclusive) (.release () .exclusive) ++
  happened (before.shared && !after.shared) (.release () .shared)

/-- A waiter does not hold what it waits for. -/
def Fresh (thread : Thread) : Prop :=
  ∀ wait asleep, thread.point = .waiting wait asleep → thread.holds wait.mode = false

variable (thread : Thread)

theorem claims_of_exclusive (owner : thread.exclusive = true) : thread.claims = true := by
  rw [claims]
  split
  · rfl
  · exact owner

theorem claims_running (here : thread.point = .running) : thread.claims = thread.exclusive := by
  rw [claims, here]

theorem fresh_running (here : thread.point = .running) : thread.Fresh := by
  intro wait asleep there
  rw [here] at there
  cases there

theorem exclusive_mem : ((), Mode.exclusive) ∈ thread.held ↔ thread.claims = true := by
  cases claimed : thread.claims <;> cases reading : thread.shared <;> simp [held, claimed, reading]

theorem shared_mem : ((), Mode.shared) ∈ thread.held ↔ thread.shared = true := by
  cases claimed : thread.claims <;> cases reading : thread.shared <;> simp [held, claimed, reading]

theorem held_congr {left right : Thread} (claims : left.claims = right.claims)
    (shared : left.shared = right.shared) : left.held = right.held := by
  rw [held, held, claims, shared]

@[simp] theorem take_claims : (thread.take .exclusive).claims = true := rfl

@[simp] theorem take_exclusive : (thread.take .exclusive).exclusive = true := rfl

@[simp] theorem take_exclusive_shared : (thread.take .exclusive).shared = thread.shared := rfl

@[simp] theorem take_shared_claims : (thread.take .shared).claims = thread.exclusive := rfl

@[simp] theorem take_shared_exclusive : (thread.take .shared).exclusive = thread.exclusive := rfl

@[simp] theorem take_shared : (thread.take .shared).shared = true := rfl

theorem take_fresh (mode : Mode) : (thread.take mode).Fresh := by
  cases mode with
  | shared => exact fresh_running _ rfl
  | exclusive => exact fresh_running _ rfl

section
variable {thread} {mode : Mode} (here : thread.point = .running)
  (holds : thread.holds mode = true)
include here holds

theorem held_drop : (thread.drop mode).held = thread.held.erase ((), mode) := by
  obtain ⟨shared, exclusive, point⟩ := thread
  cases here
  cases mode <;> cases holds
  · cases exclusive <;> rfl
  · cases shared <;> rfl

theorem moves_drop : thread.moves (thread.drop mode) = [.release () mode] := by
  obtain ⟨shared, exclusive, point⟩ := thread
  cases here
  cases mode <;> cases holds
  · cases exclusive <;> rfl
  · cases shared <;> rfl

end

section
variable {thread} {wait : Wait} {asleep : Bool} (here : thread.point = .waiting wait asleep)
  (later : Bool)
include here

theorem claims_waiting : claims { thread with point := .waiting wait later } = thread.claims := by
  rw [claims, claims, here]
  cases wait <;> rfl

theorem fresh_waiting (fresh : thread.Fresh) :
    Fresh { thread with point := .waiting wait later } := by
  rintro other _ there
  cases there
  have before := fresh wait asleep here
  cases wait <;> exact before

end

theorem notify_cases (gate : Gate) :
    thread.notify gate = thread ∨ ∃ wait, thread.point = .waiting wait true ∧ wait.gate = gate ∧
      thread.notify gate = { thread with point := .waiting wait false } := by
  rw [notify]
  split
  · rename_i wait here
    by_cases there : wait.gate = gate
    · exact Or.inr ⟨wait, here, there, if_pos there⟩
    · exact Or.inl (if_neg there)
  · exact Or.inl rfl

section
variable (gate : Gate)

@[simp] theorem notify_shared : (thread.notify gate).shared = thread.shared := by
  rcases thread.notify_cases gate with same | ⟨wait, _, _, woken⟩
  · rw [same]
  · rw [woken]

@[simp] theorem notify_exclusive : (thread.notify gate).exclusive = thread.exclusive := by
  rcases thread.notify_cases gate with same | ⟨wait, _, _, woken⟩
  · rw [same]
  · rw [woken]

@[simp] theorem notify_claims : (thread.notify gate).claims = thread.claims := by
  rcases thread.notify_cases gate with same | ⟨wait, here, _, woken⟩
  · rw [same]
  · rw [woken, claims_waiting here]

@[simp] theorem notify_held : (thread.notify gate).held = thread.held :=
  held_congr (thread.notify_claims gate) (thread.notify_shared gate)

theorem moves_notify (before : Thread) :
    before.moves (thread.notify gate) = before.moves thread := by
  simp only [moves, notify_claims, notify_shared, notify_exclusive]

variable {thread}

theorem notify_fresh (fresh : thread.Fresh) : (thread.notify gate).Fresh := by
  rcases thread.notify_cases gate with same | ⟨wait, here, _, woken⟩
  · rwa [same]
  · rw [woken]
    exact fresh_waiting here false fresh

end

end Thread

variable {n : Nat}

namespace Machine

variable {machine : Machine n} {me : Fin n} {state : UInt32} {thread : Thread}

@[simp] theorem put_me : (machine.put me state thread).thread me = thread := if_pos rfl

theorem put_other {other : Fin n} (different : other ≠ me) :
    (machine.put me state thread).thread other = machine.thread other := if_neg different

theorem put_all (property : Fin n → Thread → Prop) (mine : property me thread)
    (others : ∀ other, other ≠ me → property other (machine.thread other)) (other : Fin n) :
    property other ((machine.put me state thread).thread other) := by
  by_cases same : other = me
  · rwa [same, put_me]
  · rw [put_other same]
    exact others other same

theorem put_keeps {Seen : Type} (observe : Thread → Seen)
    (same : observe thread = observe (machine.thread me)) (other : Fin n) :
    observe ((machine.put me state thread).thread other) = observe (machine.thread other) :=
  put_all (fun other seen => observe seen = observe (machine.thread other)) same (fun _ _ => rfl)
    other

end Machine

def emit (machine : Machine n) (event : Event n) : List (Fin n × Op Unit) :=
  match step machine event with
  | some after =>
      ((machine.thread event.me).moves (after.thread event.me)).map fun op => (event.me, op)
  | none => []

def move (locks : Unit → RwLock (Fin n)) (label : Fin n × Op Unit)
    (next : Unit → RwLock (Fin n)) : Prop := perform label.1 locks label.2 = some next

structure Related (machine : Machine n) (locks : Unit → RwLock (Fin n)) : Prop where
  agrees : Agrees locks fun thread => (machine.thread thread).held
  flag : machine.state &&& writeEntered = 0 ↔ (locks ()).writer = none
  readers : (machine.state &&& nReaders).toNat = (locks ()).readers.length
  alone : ∀ owner, (machine.thread owner).exclusive = true → (locks ()).readers = []
  fresh : ∀ me, (machine.thread me).Fresh

namespace Related

variable {machine : Machine n} {locks next : Unit → RwLock (Fin n)}

theorem start : Related (Machine.start : Machine n) free where
  agrees := agrees_free fun _ => rfl
  flag := by simp [Machine.start, free]
  readers := by simp [Machine.start, free]
  alone _ owner := by cases owner
  fresh _ := Thread.fresh_running _ rfl

variable (related : Related machine locks) {me : Fin n}
include related

theorem claims_iff (me : Fin n) :
    (locks ()).writer = some me ↔ (machine.thread me).claims = true :=
  (claimed_iff related.agrees () me).trans (Thread.exclusive_mem _)

theorem shares_iff (me : Fin n) :
    me ∈ (locks ()).readers ↔ (machine.thread me).shared = true :=
  (reading_iff related.agrees () me).trans (Thread.shared_mem _)

theorem claims_unique {left right : Fin n} (first : (machine.thread left).claims = true)
    (second : (machine.thread right).claims = true) : left = right :=
  claim_unique related.agrees ((Thread.exclusive_mem _).mpr first)
    ((Thread.exclusive_mem _).mpr second)

theorem unclaimed (none : (locks ()).writer = none) (me : Fin n) :
    (machine.thread me).claims = false := by
  by_contra claimed
  have writer := (related.claims_iff me).mpr (Bool.not_eq_false _ ▸ claimed)
  rw [none] at writer
  cases writer

theorem claimed {owner : Fin n} (inside : (machine.thread owner).exclusive = true) :
    (locks ()).writer ≠ none := by
  rw [(related.claims_iff owner).mpr (Thread.claims_of_exclusive _ inside)]
  exact Option.some_ne_none owner

theorem outside (none : (locks ()).writer = none) (me : Fin n) :
    (machine.thread me).exclusive = false :=
  Bool.eq_false_iff.mpr fun inside => related.claimed inside none

theorem nobody (empty : machine.state &&& nReaders = 0) : (locks ()).readers = [] := by
  have readers := related.readers
  rw [empty] at readers
  exact List.eq_nil_of_length_eq_zero readers.symm

theorem nodup : (locks ()).readers.Nodup := by
  refine List.nodup_iff_count_le_one.mpr fun me => ?_
  have counted : (locks ()).readers.count me = (machine.thread me).held.count ((), .shared) :=
    related.agrees () me .shared
  rw [counted, Thread.held]
  cases (machine.thread me).claims <;> cases (machine.thread me).shared <;> decide

theorem length_le : (locks ()).readers.length ≤ n := by
  simpa using related.nodup.length_le_card

theorem card_shared :
    (Finset.univ.filter fun me => (machine.thread me).shared = true).card =
      (locks ()).readers.length := by
  rw [← List.toFinset_card_of_nodup related.nodup]
  congr 1
  ext me
  simp [related.shares_iff me]

theorem put {op : Op Unit} {state : UInt32} {thread : Thread}
    (done : perform me locks op = some next) (own : thread.held = op.held (machine.thread me).held)
    (flag : state &&& writeEntered = 0 ↔ (next ()).writer = none)
    (readers : (state &&& nReaders).toNat = (next ()).readers.length)
    (mine : thread.exclusive = true → (next ()).readers = [])
    (others : ∀ owner, owner ≠ me → (machine.thread owner).exclusive = true →
      (next ()).readers = [])
    (fresh : thread.Fresh) : Related (machine.put me state thread) next where
  agrees := by
    refine agrees_perform related.agrees done ?_ fun other different => ?_
    · rw [Machine.put_me, own]
    · rw [Machine.put_other different]
  flag := flag
  readers := readers
  alone := Machine.put_all (fun _ thread => thread.exclusive = true → (next ()).readers = []) mine
    others
  fresh := Machine.put_all (fun _ => Thread.Fresh) fresh fun other _ => related.fresh other

/-- Where the threads stand does not matter to the lock. -/
theorem stand {after : Machine n} (state : after.state = machine.state)
    (held : ∀ me, (after.thread me).held = (machine.thread me).held)
    (exclusive : ∀ me, (after.thread me).exclusive = (machine.thread me).exclusive)
    (fresh : ∀ me, (after.thread me).Fresh) : Related after locks where
  agrees := agrees_same related.agrees held
  flag := by rw [state, related.flag]
  readers := by rw [state, related.readers]
  alone owner := by
    rw [exclusive]
    exact related.alone owner
  fresh := fresh

end Related

/-- Threads were notified in between, and nothing else happened. -/
structure Notified (before after : Machine n) : Prop where
  state : after.state = before.state
  thread : ∀ other, after.thread other = before.thread other ∨
    ∃ gate, after.thread other = (before.thread other).notify gate

section
variable {before after : Machine n} (notified : Notified before after) (other : Fin n)
include notified

theorem Notified.keeps {Seen : Type} (observe : Thread → Seen)
    (same : ∀ thread gate, observe (Thread.notify thread gate) = observe thread) :
    observe (after.thread other) = observe (before.thread other) := by
  rcases notified.thread other with still | ⟨gate, woken⟩
  · rw [still]
  · rw [woken, same]

theorem Notified.fresh (fresh : (before.thread other).Fresh) : (after.thread other).Fresh := by
  rcases notified.thread other with still | ⟨gate, woken⟩
  · rwa [still]
  · rw [woken]
    exact Thread.notify_fresh gate fresh

end

theorem Notified.all (machine : Machine n) (gate : Gate) :
    Notified machine (machine.notifyAll gate) :=
  ⟨rfl, fun _ => Or.inr ⟨gate, rfl⟩⟩

theorem Notified.one {machine after : Machine n} {gate : Gate} {woken : Option (Fin n)}
    (notified : machine.notifyOne gate woken = some after) : Notified machine after := by
  cases woken with
  | none =>
      rw [Machine.notifyOne] at notified
      split at notified <;> cases notified
      exact ⟨rfl, fun _ => Or.inl rfl⟩
  | some woken =>
      rw [Machine.notifyOne] at notified
      split at notified <;> cases notified
      refine ⟨rfl, fun other => ?_⟩
      by_cases same : other = woken
      · rw [same, Machine.put_me]
        exact Or.inr ⟨gate, rfl⟩
      · exact Or.inl (Machine.put_other same)

theorem unlockShared_cases {machine after : Machine n} {me : Fin n} {woken : Option (Fin n)}
    (taken : step machine (.unlockShared me woken) = some after) :
    (machine.thread me).point = .running ∧ (machine.thread me).shared = true ∧
      ∃ released, released = machine.put me (unlockShared machine.state).1
          ((machine.thread me).drop .shared) ∧ Notified released after ∧
        ∀ gate, (unlockShared machine.state).2 = some gate →
          released.notifyOne gate woken = some after := by
  simp only [step] at taken
  split at taken
  · rename_i reader
    refine ⟨reader.1, reader.2, _, rfl, ?_⟩
    split at taken
    · rename_i gate woken chosen
      refine ⟨.one taken, fun other same => ?_⟩
      cases chosen.symm.trans same
      exact taken
    · rename_i nobody
      cases taken
      refine ⟨⟨rfl, fun _ => Or.inl rfl⟩, fun gate same => ?_⟩
      cases nobody.symm.trans same
    · cases taken
  · cases taken

def Done (machine : Machine n) (locks : Unit → RwLock (Fin n)) (me : Fin n)
    (after : Machine n) : Prop :=
  ∃ next, Trace move locks
      (((machine.thread me).moves (after.thread me)).map fun op => (me, op)) next ∧
    Related after next

section Sections
variable {machine : Machine n} {locks : Unit → RwLock (Fin n)} {me : Fin n}

theorem done_put {next : Unit → RwLock (Fin n)} {state : UInt32} {thread : Thread}
    {ops : List (Op Unit)} (moves : (machine.thread me).moves thread = ops)
    (trace : Trace move locks (ops.map fun op => (me, op)) next)
    (ends : Related (machine.put me state thread) next) :
    Done machine locks me (machine.put me state thread) := by
  refine ⟨next, ?_, ends⟩
  rwa [Machine.put_me, moves]

variable (related : Related machine locks)
include related

theorem done_stand {thread : Thread} (shared : thread.shared = (machine.thread me).shared)
    (exclusive : thread.exclusive = (machine.thread me).exclusive)
    (claims : thread.claims = (machine.thread me).claims) (fresh : thread.Fresh) :
    Done machine locks me (machine.put me machine.state thread) := by
  have nothing : (machine.thread me).moves thread = [] := by
    simp [Thread.moves, Thread.happened, shared, exclusive, claims]
  refine done_put nothing (.nil locks) (related.stand rfl ?_ ?_ ?_)
  · exact Machine.put_keeps Thread.held (Thread.held_congr claims shared)
  · exact Machine.put_keeps Thread.exclusive exclusive
  · exact Machine.put_all (fun _ => Thread.Fresh) fresh fun other _ => related.fresh other

theorem done_fail (here : (machine.thread me).point = .running) :
    Done machine locks me
      (machine.put me machine.state { machine.thread me with point := .running }) := by
  refine done_stand related rfl rfl ?_ (Thread.fresh_running _ rfl)
  rw [Thread.claims_running _ here]
  exact Thread.claims_running _ rfl

theorem done_gate1 {wait : Wait} (first : wait.gate = .gate1)
    (plain : (machine.thread me).claims = (machine.thread me).exclusive)
    (fresh : (machine.thread me).holds wait.mode = false) :
    Done machine locks me
      (machine.put me machine.state { machine.thread me with point := .waiting wait true }) := by
  refine done_stand related rfl rfl ?_ ?_
  · rw [plain]
    cases wait with
    | lockGate1 => rfl
    | lockGate2 => cases first
    | lockSharedGate1 => rfl
  · rintro other asleep here
    cases here
    cases wait <;> exact fresh

section Claim
variable {state : UInt32} (unclaimed : (locks ()).writer = none)
  (flag : state &&& writeEntered ≠ 0) (readers : state &&& nReaders = machine.state &&& nReaders)
include unclaimed flag readers

theorem claim_related {thread : Thread} (shared : thread.shared = (machine.thread me).shared)
    (claims : thread.claims = true)
    (alone : thread.exclusive = true → machine.state &&& nReaders = 0) (fresh : thread.Fresh) :
    Related (machine.put me state thread) (set locks () ((locks ()).add me .exclusive)) := by
  have done : perform me locks (.acquire () .exclusive) =
      some (set locks () ((locks ()).add me .exclusive)) := if_pos unclaimed
  refine related.put done ?_ ?_ ?_ ?_ ?_ fresh
  · rw [Thread.held, Thread.held, claims, shared, related.unclaimed unclaimed me]
    rfl
  · exact iff_of_false flag (Option.some_ne_none me)
  · rw [readers, related.readers]
    rfl
  · exact fun owner => related.nobody (alone owner)
  · exact fun owner _ inside => absurd unclaimed (related.claimed inside)

theorem done_claim : Done machine locks me
    (machine.put me state { machine.thread me with point := .waiting .lockGate2 true }) := by
  have claims : Thread.claims { machine.thread me with point := .waiting .lockGate2 true } =
    true := rfl
  have claim : (machine.thread me).moves
      { machine.thread me with point := .waiting .lockGate2 true } = [.acquire () .exclusive] := by
    simp [Thread.moves, Thread.happened, related.unclaimed unclaimed me, claims]
  refine done_put claim (.one (if_pos unclaimed))
    (claim_related related unclaimed flag readers rfl claims ?_ ?_)
  · exact fun inside => absurd unclaimed (related.claimed inside)
  · rintro wait asleep here
    cases here
    exact related.outside unclaimed me

theorem done_lock (empty : machine.state &&& nReaders = 0) :
    Done machine locks me (machine.put me state ((machine.thread me).take .exclusive)) := by
  have both : (machine.thread me).moves ((machine.thread me).take .exclusive) =
      [.acquire () .exclusive, .enter ()] := by
    simp [Thread.moves, Thread.happened, related.unclaimed unclaimed me,
      related.outside unclaimed me]
  have entered : (set locks () ((locks ()).add me .exclusive) ()).readers = [] :=
    related.nobody empty
  exact done_put both (.cons (if_pos unclaimed) (.one (if_pos ⟨rfl, entered⟩)))
    (claim_related related unclaimed flag readers rfl rfl (fun _ => empty) (Thread.take_fresh _ _))

end Claim

theorem done_enter {asleep : Bool} (here : (machine.thread me).point = .waiting .lockGate2 asleep)
    (empty : machine.state &&& nReaders = 0) :
    Done machine locks me (machine.put me machine.state ((machine.thread me).take .exclusive)) := by
  have claimed : (machine.thread me).claims = true := by rw [Thread.claims, here]
  have outside : (machine.thread me).exclusive = false := related.fresh me _ _ here
  have nobody := related.nobody empty
  have done : perform me locks (.enter ()) = some locks :=
    if_pos ⟨(related.claims_iff me).mpr claimed, nobody⟩
  have enter : (machine.thread me).moves ((machine.thread me).take .exclusive) = [.enter ()] := by
    simp [Thread.moves, Thread.happened, claimed, outside]
  exact done_put enter (.one done) (related.put done (Thread.held_congr claimed.symm rfl)
    related.flag related.readers (fun _ => nobody) (fun _ _ _ => nobody) (Thread.take_fresh _ _))

theorem done_share (small : n < 2 ^ 31 - 1) (unclaimed : (locks ()).writer = none)
    (fresh : (machine.thread me).shared = false) :
    Done machine locks me
      (machine.put me (setReaders machine.state ((machine.state &&& nReaders) + 1))
        ((machine.thread me).take .shared)) := by
  have out := related.unclaimed unclaimed me
  have outside := related.outside unclaimed me
  have done : perform me locks (.acquire () .shared) =
      some (set locks () ((locks ()).add me .shared)) := if_pos unclaimed
  -- no more readers than threads, so that the count does not reach the bit
  have many := related.length_le
  have counted : ((machine.state &&& nReaders) + 1).toNat = (locks ()).readers.length + 1 := by
    rw [readers_succ, related.readers]
  have low : ((machine.state &&& nReaders) + 1).toNat < 2 ^ 31 := by omega
  have share : (machine.thread me).moves ((machine.thread me).take .shared) =
      [.acquire () .shared] := by
    simp [Thread.moves, Thread.happened, fresh, outside, out]
  refine done_put share (.one done)
    (related.put done ?_ ?_ ?_ ?_ ?_ (Thread.take_fresh _ _))
  · rw [Thread.held, Thread.held, Thread.take_shared_claims, outside, out, fresh]
    rfl
  · rw [setReaders_flag low, related.flag]
    rfl
  · rw [setReaders_readers low, counted]
    rfl
  · exact fun inside => absurd unclaimed (related.claimed inside)
  · exact fun owner _ inside => absurd unclaimed (related.claimed inside)

/-! The functions of the source. -/

theorem lock_done (plain : (machine.thread me).claims = (machine.thread me).exclusive)
    (outside : (machine.thread me).exclusive = false) :
    Done machine locks me (machine.finish me .exclusive (lock machine.state)) := by
  rw [lock]
  split
  · exact done_gate1 related rfl plain outside
  · rename_i clear
    have unclaimed := related.flag.mp (not_not.mp clear)
    rw [drain, or_readers]
    split
    · exact done_claim related unclaimed (or_flag _) (or_readers _)
    · rename_i empty
      exact done_lock related unclaimed (or_flag _) (or_readers _) (not_not.mp empty)

theorem drain_done {asleep : Bool}
    (here : (machine.thread me).point = .waiting .lockGate2 asleep) :
    Done machine locks me (machine.finish me .exclusive (drain machine.state)) := by
  rw [drain]
  split
  · exact done_stand related rfl rfl (Thread.claims_waiting here true)
      (Thread.fresh_waiting here true (related.fresh me))
  · rename_i empty
    exact done_enter related here (not_not.mp empty)

theorem tryLock_done (here : (machine.thread me).point = .running) :
    Done machine locks me (machine.finish me .exclusive (tryLock machine.state)) := by
  rw [tryLock]
  split
  · rename_i zero
    have clear := (state_eq_zero_iff machine.state).mp zero
    refine done_lock related (related.flag.mp clear.1) (by decide) ?_ clear.2
    rw [flag_readers, clear.2]
  · exact done_fail related here

theorem lockShared_done (small : n < 2 ^ 31 - 1)
    (plain : (machine.thread me).claims = (machine.thread me).exclusive)
    (fresh : (machine.thread me).shared = false) :
    Done machine locks me (machine.finish me .shared (lockShared machine.state)) := by
  rw [lockShared]
  split
  · exact done_gate1 related rfl plain fresh
  · rename_i entered
    have clear := not_not.mp (not_or.mp entered).1
    exact done_share related small (related.flag.mp clear) fresh

theorem tryLockShared_done (small : n < 2 ^ 31 - 1) (here : (machine.thread me).point = .running)
    (fresh : (machine.thread me).shared = false) :
    Done machine locks me (machine.finish me .shared (tryLockShared machine.state)) := by
  rw [tryLockShared]
  split
  · rename_i entered
    exact done_share related small (related.flag.mp entered.1) fresh
  · exact done_fail related here

theorem call_done (small : n < 2 ^ 31 - 1) (call : Call)
    (here : (machine.thread me).point = .running)
    (fresh : (machine.thread me).holds call.mode = false) :
    Done machine locks me (machine.finish me call.mode (call.run machine.state)) := by
  have plain := Thread.claims_running _ here
  cases call with
  | lock => exact lock_done related plain fresh
  | tryLock => exact tryLock_done related here
  | lockShared => exact lockShared_done related small plain fresh
  | tryLockShared => exact tryLockShared_done related small here fresh

theorem wait_done (small : n < 2 ^ 31 - 1) (wait : Wait)
    (here : (machine.thread me).point = .waiting wait false) :
    Done machine locks me (machine.finish me wait.mode (wait.run machine.state)) := by
  have fresh := related.fresh me wait false here
  cases wait with
  | lockGate1 => exact lock_done related (by rw [Thread.claims, here]) fresh
  | lockGate2 => exact drain_done related here
  | lockSharedGate1 => exact lockShared_done related small (by rw [Thread.claims, here]) fresh

theorem done_release {mode : Mode} {state : UInt32} (here : (machine.thread me).point = .running)
    (holds : (machine.thread me).holds mode = true)
    (flag : state &&& writeEntered = 0 ↔ ((locks ()).remove me mode).writer = none)
    (readers : (state &&& nReaders).toNat = ((locks ()).remove me mode).readers.length) :
    Done machine locks me (machine.put me state ((machine.thread me).drop mode)) := by
  have registered : (locks ()).count me mode ≠ 0 := by
    have counted := related.agrees () me mode
    rw [counted]
    refine Nat.ne_of_gt (List.count_pos_iff.mpr ?_)
    cases mode with
    | shared => exact (Thread.shared_mem _).mpr holds
    | exclusive => exact (Thread.exclusive_mem _).mpr (Thread.claims_of_exclusive _ holds)
  have done : perform me locks (.release () mode) =
      some (set locks () ((locks ()).remove me mode)) := if_pos registered
  have alone : ∀ owner, (machine.thread owner).exclusive = true →
      ((locks ()).remove me mode).readers = [] := by
    intro owner inside
    have empty := related.alone owner inside
    cases mode with
    | shared => rw [RwLock.remove, empty]; rfl
    | exclusive => exact empty
  refine done_put (Thread.moves_drop here holds) (.one done)
    (related.put done (Thread.held_drop here holds) flag readers ?_ (fun owner _ => alone owner)
      (Thread.fresh_running _ ?_))
  · intro inside
    refine alone me ?_
    cases mode with
    | shared => exact inside
    | exclusive => exact holds
  · cases mode with
    | shared => exact here
    | exclusive => exact here

theorem unlock_done (here : (machine.thread me).point = .running)
    (owner : (machine.thread me).exclusive = true) :
    Done machine locks me (machine.put me 0 ((machine.thread me).drop .exclusive)) := by
  refine done_release related here owner (iff_of_true UInt32.zero_and rfl) ?_
  rw [UInt32.zero_and]
  exact (congrArg List.length (related.alone me owner)).symm

theorem left_toNat (reader : (machine.thread me).shared = true) :
    ((machine.state &&& nReaders) - 1).toNat = (locks ()).readers.length - 1 := by
  have some : 1 ≤ (machine.state &&& nReaders).toNat := by
    rw [related.readers]
    exact List.length_pos_of_mem ((related.shares_iff me).mpr reader)
  exact (UInt32.toNat_sub_of_le _ _ some).trans (by rw [related.readers]; rfl)

theorem left_lt (reader : (machine.thread me).shared = true) :
    ((machine.state &&& nReaders) - 1).toNat < 2 ^ 31 := by
  have bound := readers_lt machine.state
  rw [related.readers] at bound
  rw [left_toNat related reader]
  omega

theorem unlockShared_done (here : (machine.thread me).point = .running)
    (reader : (machine.thread me).shared = true) :
    Done machine locks me
      (machine.put me (unlockShared machine.state).1 ((machine.thread me).drop .shared)) := by
  have low := left_lt related reader
  refine done_release related here reader ?_ ?_
  · rw [unlockShared, setReaders_flag low, related.flag]
    rfl
  · rw [unlockShared, setReaders_readers low, left_toNat related reader]
    exact (List.length_erase_of_mem ((related.shares_iff me).mpr reader)).symm

omit related in
theorem Done.notified {released after : Machine n} (done : Done machine locks me released)
    (notified : Notified released after) : Done machine locks me after := by
  obtain ⟨next, trace, ends⟩ := done
  refine ⟨next, ?_, ends.stand notified.state ?_ ?_ ?_⟩
  · rwa [notified.keeps me (machine.thread me).moves fun thread gate => thread.moves_notify gate _]
  · exact fun other => notified.keeps other Thread.held Thread.notify_held
  · exact fun other => notified.keeps other Thread.exclusive Thread.notify_exclusive
  · exact fun other => notified.fresh other (ends.fresh other)

/-- What the threads do to the word are the operations of a reader-writer lock. -/
theorem step_done (small : n < 2 ^ 31 - 1) {event : Event n} {after : Machine n}
    (taken : step machine event = some after) : Done machine locks event.me after := by
  cases event with
  | call me call =>
      simp only [step] at taken
      split at taken <;> cases taken
      rename_i free
      exact call_done related small call free.1 free.2
  | unlock me =>
      simp only [step] at taken
      split at taken <;> cases taken
      rename_i owner
      exact (unlock_done related owner.1 owner.2).notified (.all _ _)
  | unlockShared me woken =>
      obtain ⟨here, reader, released, rfl, notified, _⟩ := unlockShared_cases taken
      exact (unlockShared_done related here reader).notified notified
  | wake me =>
      simp only [step] at taken
      split at taken <;> cases taken
      rename_i wait here
      exact done_stand related rfl rfl (Thread.claims_waiting here false)
        (Thread.fresh_waiting here false (related.fresh me))
  | resume me =>
      simp only [step] at taken
      split at taken <;> cases taken
      rename_i wait here
      exact wait_done related small wait here

end Sections

end Muddymask.SharedMutex
