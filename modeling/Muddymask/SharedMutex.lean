import Mathlib.Algebra.Group.Nat.Defs
import Muddymask.ReaderWriter

/-!
`shared_mutex.cpp`. A section under `__mut_` is one step of the machine. It ends
where its function returns, or at a gate, and then the thread goes on with the
rest of the function after it was notified or has woken up for nothing. One word
has the bit of the writer and the number of readers.
-/

namespace Muddymask.SharedMutex

open ReaderWriter

def writeEntered : UInt32 := 0x80000000

def nReaders : UInt32 := ~~~writeEntered

/-- `__state_ &= ~__n_readers_; __state_ |= num_readers;` -/
def setReaders (state numReaders : UInt32) : UInt32 := (state &&& ~~~nReaders) ||| numReaders

inductive Gate where
  | gate1
  | gate2
  deriving DecidableEq, Repr

/-- The three calls of `wait`. -/
inductive Wait where
  | lockGate1
  | lockGate2
  | lockSharedGate1
  deriving DecidableEq, Repr

def Wait.gate : Wait → Gate
  | .lockGate1 | .lockSharedGate1 => .gate1
  | .lockGate2 => .gate2

def Wait.mode : Wait → Mode
  | .lockGate1 | .lockGate2 => .exclusive
  | .lockSharedGate1 => .shared

/-- How a section ends. What has no result returns `true`. -/
inductive Ending where
  | waits (wait : Wait)
  | returns (result : Bool)
  deriving DecidableEq, Repr

/-- `lock` from its second loop on. -/
def drain (state : UInt32) : UInt32 × Ending :=
  if state &&& nReaders ≠ 0 then (state, .waits .lockGate2) else (state, .returns true)

def lock (state : UInt32) : UInt32 × Ending :=
  if state &&& writeEntered ≠ 0 then (state, .waits .lockGate1) else drain (state ||| writeEntered)

def tryLock (state : UInt32) : UInt32 × Ending :=
  if state = 0 then (writeEntered, .returns true) else (state, .returns false)

def lockShared (state : UInt32) : UInt32 × Ending :=
  if state &&& writeEntered ≠ 0 ∨ state &&& nReaders = nReaders then
    (state, .waits .lockSharedGate1)
  else
    let numReaders := (state &&& nReaders) + 1
    (setReaders state numReaders, .returns true)

def tryLockShared (state : UInt32) : UInt32 × Ending :=
  let numReaders := state &&& nReaders
  if state &&& writeEntered = 0 ∧ numReaders ≠ nReaders then
    (setReaders state (numReaders + 1), .returns true)
  else (state, .returns false)

/-- The word, and the gate at which one thread is notified. -/
def unlockShared (state : UInt32) : UInt32 × Option Gate :=
  let numReaders := (state &&& nReaders) - 1
  let after := setReaders state numReaders
  (after, if after &&& writeEntered ≠ 0 then if numReaders = 0 then some .gate2 else none
    else if numReaders = nReaders - 1 then some .gate1 else none)

inductive Call where
  | lock
  | tryLock
  | lockShared
  | tryLockShared
  deriving DecidableEq, Repr

def Call.mode : Call → Mode
  | .lock | .tryLock => .exclusive
  | .lockShared | .tryLockShared => .shared

def Call.run : Call → UInt32 → UInt32 × Ending
  | .lock => SharedMutex.lock
  | .tryLock => SharedMutex.tryLock
  | .lockShared => SharedMutex.lockShared
  | .tryLockShared => SharedMutex.tryLockShared

/-- What is left of a function after a wait. -/
def Wait.run : Wait → UInt32 → UInt32 × Ending
  | .lockGate1 => lock
  | .lockGate2 => drain
  | .lockSharedGate1 => lockShared

inductive Point where
  | running
  | waiting (wait : Wait) (asleep : Bool)
  deriving DecidableEq, Repr

/-- What a thread holds, and where it stands. -/
structure Thread where
  shared : Bool
  exclusive : Bool
  point : Point
  deriving DecidableEq, Repr

namespace Thread

def holds (thread : Thread) : Mode → Bool
  | .shared => thread.shared
  | .exclusive => thread.exclusive

def take (thread : Thread) : Mode → Thread
  | .shared => { thread with shared := true, point := .running }
  | .exclusive => { thread with exclusive := true, point := .running }

def drop (thread : Thread) : Mode → Thread
  | .shared => { thread with shared := false }
  | .exclusive => { thread with exclusive := false }

def leave (thread : Thread) (mode : Mode) : Ending → Thread
  | .waits wait => { thread with point := .waiting wait true }
  | .returns false => { thread with point := .running }
  | .returns true => thread.take mode

/-- Not notified since it began to wait. -/
def asleep (thread : Thread) (gate : Gate) : Bool :=
  match thread.point with
  | .waiting wait true => wait.gate = gate
  | _ => false

def notify (thread : Thread) (gate : Gate) : Thread :=
  match thread.point with
  | .waiting wait true =>
      if wait.gate = gate then { thread with point := .waiting wait false } else thread
  | _ => thread

end Thread

structure Machine (n : Nat) where
  state : UInt32
  thread : Fin n → Thread

inductive Event (n : Nat) where
  | call (me : Fin n) (call : Call)
  | unlock (me : Fin n)
  | unlockShared (me : Fin n) (woken : Option (Fin n))
  | wake (me : Fin n)
  /-- A waiter that is not asleep has `__mut_` again. -/
  | resume (me : Fin n)

def Event.me {n : Nat} : Event n → Fin n
  | .call me _ | .unlock me | .unlockShared me _ | .wake me | .resume me => me

namespace Machine

variable {n : Nat}

def start : Machine n := ⟨0, fun _ => ⟨false, false, .running⟩⟩

def put (machine : Machine n) (me : Fin n) (state : UInt32) (thread : Thread) : Machine n :=
  ⟨state, fun other => if other = me then thread else machine.thread other⟩

def finish (machine : Machine n) (me : Fin n) (mode : Mode) (result : UInt32 × Ending) :
    Machine n := machine.put me result.1 ((machine.thread me).leave mode result.2)

def notifyAll (machine : Machine n) (gate : Gate) : Machine n :=
  ⟨machine.state, fun other => (machine.thread other).notify gate⟩

/-- Somebody who sleeps at the gate is notified, if there is anybody. -/
def notifyOne (machine : Machine n) (gate : Gate) : Option (Fin n) → Option (Machine n)
  | some woken =>
      if (machine.thread woken).asleep gate then
        some (machine.put woken machine.state ((machine.thread woken).notify gate))
      else none
  | none =>
      if ∀ other, (machine.thread other).asleep gate = false then some machine else none

end Machine

variable {n : Nat}

/-- Only who is in none of the functions calls one, unlocks are the holder's, and nobody
acquires what it holds. -/
def step (machine : Machine n) : Event n → Option (Machine n)
  | .call me call =>
      if (machine.thread me).point = .running ∧ (machine.thread me).holds call.mode = false then
        some (machine.finish me call.mode (call.run machine.state))
      else none
  | .unlock me =>
      if (machine.thread me).point = .running ∧ (machine.thread me).exclusive = true then
        some ((machine.put me 0 ((machine.thread me).drop .exclusive)).notifyAll .gate1)
      else none
  | .unlockShared me woken =>
      if (machine.thread me).point = .running ∧ (machine.thread me).shared = true then
        let result := unlockShared machine.state
        let released := machine.put me result.1 ((machine.thread me).drop .shared)
        match result.2, woken with
        | some gate, woken => released.notifyOne gate woken
        | none, none => some released
        | none, some _ => none
      else none
  | .wake me =>
      match (machine.thread me).point with
      | .waiting wait true =>
          let awake := { machine.thread me with point := .waiting wait false }
          some (machine.put me machine.state awake)
      | _ => none
  | .resume me =>
      match (machine.thread me).point with
      | .waiting wait false => some (machine.finish me wait.mode (wait.run machine.state))
      | _ => none

section Word

theorem flag_readers : writeEntered &&& nReaders = 0 := UInt32.and_not_self

theorem or_and (left right mask : UInt32) :
    (left ||| right) &&& mask = (left &&& mask) ||| (right &&& mask) :=
  UInt32.toBitVec_inj.mp BitVec.and_or_distrib_right

theorem state_eq_zero_iff (state : UInt32) :
    state = 0 ↔ state &&& writeEntered = 0 ∧ state &&& nReaders = 0 := by
  constructor
  · rintro rfl
    exact ⟨UInt32.zero_and, UInt32.zero_and⟩
  · rintro ⟨flag, readers⟩
    apply UInt32.toBitVec_inj.mp
    ext bit inside
    have left := congrArg (fun word : UInt32 => word.toBitVec[bit]) flag
    have right := congrArg (fun word : UInt32 => word.toBitVec[bit]) readers
    simp only [nReaders, UInt32.toBitVec_and, UInt32.toBitVec_not, BitVec.getElem_and,
      BitVec.getElem_not] at left right
    cases set : state.toBitVec[bit] with
    | false => simp
    | true => simp_all

variable (state : UInt32)

theorem or_flag : (state ||| writeEntered) &&& writeEntered ≠ 0 := by
  rw [or_and, UInt32.and_self]
  intro clear
  exact absurd (UInt32.or_eq_zero_iff.mp clear).2 (by decide)

theorem or_readers : (state ||| writeEntered) &&& nReaders = state &&& nReaders := by
  rw [or_and, flag_readers, UInt32.or_zero]

theorem readers_toNat : (state &&& nReaders).toNat = state.toNat % 2 ^ 31 := by
  have mask : nReaders.toNat = 2 ^ 31 - 1 := rfl
  rw [UInt32.toNat_and, mask, Nat.and_two_pow_sub_one_eq_mod]

theorem readers_lt : (state &&& nReaders).toNat < 2 ^ 31 := by
  rw [readers_toNat]
  exact Nat.mod_lt _ (by decide)

theorem readers_succ :
    ((state &&& nReaders) + 1).toNat = (state &&& nReaders).toNat + 1 := by
  have bound := readers_lt state
  rw [UInt32.toNat_add, UInt32.toNat_one]
  omega

variable {state} {numReaders : UInt32}

theorem readers_of_lt (low : numReaders.toNat < 2 ^ 31) : numReaders &&& nReaders = numReaders := by
  apply UInt32.toNat_inj.mp
  rw [readers_toNat, Nat.mod_eq_of_lt low]

theorem setReaders_flag (low : numReaders.toNat < 2 ^ 31) :
    setReaders state numReaders &&& writeEntered = state &&& writeEntered := by
  have clear : numReaders &&& writeEntered = 0 := by
    rw [← readers_of_lt low, UInt32.and_assoc, UInt32.and_comm nReaders, flag_readers,
      UInt32.and_zero]
  rw [setReaders, nReaders, UInt32.not_not, or_and, clear, UInt32.or_zero, UInt32.and_assoc,
    UInt32.and_self]

theorem setReaders_readers (low : numReaders.toNat < 2 ^ 31) :
    setReaders state numReaders &&& nReaders = numReaders := by
  rw [setReaders, or_and, readers_of_lt low, UInt32.and_assoc, UInt32.not_and_self,
    UInt32.and_zero, UInt32.zero_or]

end Word

end Muddymask.SharedMutex
