import Mathlib.Data.List.Basic
import Mathlib.Data.List.Count
import Mathlib.Data.Set.Basic

/-!
Reader-writer locks in which a waiting writer holds back new readers: a writer
first claims the lock, which keeps later readers and writers out, and enters
once the readers inside have left. A mutex is such a lock that nobody shares, so
its claim is already the entry.

`Agrees` relates the state of the locks to what the threads hold according to
where they stand in their code. Threads that acquire locks in the order of a
level cannot block each other in a circle.
-/

namespace Muddymask.ReaderWriter

inductive Mode where
  | shared
  | exclusive
  deriving DecidableEq

structure RwLock (Thread : Type) where
  writer : Option Thread
  readers : List Thread

/-- `lock_shared` and the first half of `lock`, its second half, and the two unlocks. -/
inductive Op (Lock : Type) where
  | acquire (lock : Lock) (mode : Mode)
  | enter (lock : Lock)
  | release (lock : Lock) (mode : Mode)

variable {Thread Lock : Type}

def Op.awaits : Op Lock → Option Lock
  | .acquire lock _ | .enter lock => some lock
  | .release _ _ => none

def free : Lock → RwLock Thread := fun _ => ⟨none, []⟩

variable [DecidableEq Thread]

namespace RwLock

def count (lock : RwLock Thread) (thread : Thread) : Mode → Nat
  | .shared => lock.readers.count thread
  | .exclusive => if lock.writer = some thread then 1 else 0

def add (lock : RwLock Thread) (thread : Thread) : Mode → RwLock Thread
  | .shared => { lock with readers := thread :: lock.readers }
  | .exclusive => { lock with writer := some thread }

def remove (lock : RwLock Thread) (thread : Thread) : Mode → RwLock Thread
  | .shared => { lock with readers := lock.readers.erase thread }
  | .exclusive => { lock with writer := none }

theorem count_add (lock : RwLock Thread) (thread other : Thread) (mode seen : Mode)
    (unclaimed : lock.writer = none) :
    (lock.add thread mode).count other seen =
      lock.count other seen + if thread = other ∧ mode = seen then 1 else 0 := by
  cases mode <;> cases seen <;> simp [add, count, unclaimed, List.count_cons]

theorem count_remove (lock : RwLock Thread) (thread other : Thread) (mode seen : Mode)
    (registered : lock.count thread mode ≠ 0) :
    (lock.remove thread mode).count other seen =
      lock.count other seen - if thread = other ∧ mode = seen then 1 else 0 := by
  cases mode <;> cases seen
  · simp [remove, count, List.count_erase]
  · rw [if_neg (by simp)]
    rfl
  · rw [if_neg (by simp)]
    rfl
  · have owner : lock.writer = some thread := by
      by_contra other
      simp [count, other] at registered
    by_cases same : thread = other <;> simp [remove, count, owner, same]

/-- Inside the lock, in either mode, or the next writer. -/
def Occupied (lock : RwLock Thread) (thread : Thread) : Prop :=
  lock.writer = some thread ∨ thread ∈ lock.readers

end RwLock

variable [DecidableEq Lock]

def set (locks : Lock → RwLock Thread) (lock : Lock) (value : RwLock Thread) :
    Lock → RwLock Thread := fun other => if other = lock then value else locks other

/-- What a thread can do to the locks; `none` while it has to wait. -/
def perform (thread : Thread) (locks : Lock → RwLock Thread) :
    Op Lock → Option (Lock → RwLock Thread)
  | .acquire lock mode =>
      if (locks lock).writer = none then some (set locks lock ((locks lock).add thread mode))
      else none
  | .enter lock =>
      if (locks lock).writer = some thread ∧ (locks lock).readers = [] then some locks else none
  | .release lock mode =>
      if (locks lock).count thread mode ≠ 0 then
        some (set locks lock ((locks lock).remove thread mode))
      else none

/-- What the thread holds after the operation. -/
def Op.held (held : List (Lock × Mode)) : Op Lock → List (Lock × Mode)
  | .acquire lock mode => (lock, mode) :: held
  | .enter _ => held
  | .release lock mode => held.erase (lock, mode)

/-- The locks know exactly what the threads hold. -/
def Agrees (locks : Lock → RwLock Thread) (holds : Thread → List (Lock × Mode)) : Prop :=
  ∀ lock thread mode, (locks lock).count thread mode = (holds thread).count (lock, mode)

theorem agrees_free {holds : Thread → List (Lock × Mode)} (none : ∀ thread, holds thread = []) :
    Agrees free holds := by
  intro lock thread mode
  cases mode <;> simp [free, RwLock.count, none]

omit [DecidableEq Thread] in
theorem same_entry (lock target : Lock) (thread : Thread) (wanted mode : Mode) :
    (lock = target ∧ thread = thread ∧ wanted = mode) ↔
      ((target, wanted) == (lock, mode)) = true := by
  rw [beq_iff_eq, Prod.mk.injEq]
  constructor
  · rintro ⟨rfl, _, rfl⟩
    exact ⟨rfl, rfl⟩
  · rintro ⟨rfl, rfl⟩
    exact ⟨rfl, rfl, rfl⟩

/-- One operation changes what its own thread holds, as `Op.held` says. -/
theorem agrees_perform {locks after : Lock → RwLock Thread}
    {holds next : Thread → List (Lock × Mode)} {thread : Thread} {op : Op Lock}
    (agrees : Agrees locks holds) (done : perform thread locks op = some after)
    (own : next thread = op.held (holds thread))
    (others : ∀ other, other ≠ thread → next other = holds other) : Agrees after next := by
  intro lock other mode
  have before := agrees lock other mode
  cases op with
  | acquire target wanted =>
      simp only [perform] at done
      split at done <;> cases done
      rename_i unclaimed
      have counted : (set locks target ((locks target).add thread wanted) lock).count other mode =
          (locks lock).count other mode +
            if lock = target ∧ thread = other ∧ wanted = mode then 1 else 0 := by
        by_cases here : lock = target
        · subst here
          simp [set, RwLock.count_add _ _ _ _ _ unclaimed]
        · simp [set, here]
      rw [counted, before]
      by_cases mine : other = thread
      · subst mine
        rw [own, Op.held, List.count_cons]
        congr 1
        exact if_congr (same_entry ..) rfl rfl
      · rw [others other mine]
        simp [Ne.symm mine]
  | enter target =>
      simp only [perform] at done
      split at done <;> cases done
      rw [before]
      by_cases mine : other = thread
      · rw [mine, own]
        rfl
      · rw [others other mine]
  | release target wanted =>
      simp only [perform] at done
      split at done <;> cases done
      rename_i registered
      have counted : (set locks target ((locks target).remove thread wanted) lock).count other mode =
          (locks lock).count other mode -
            if lock = target ∧ thread = other ∧ wanted = mode then 1 else 0 := by
        by_cases here : lock = target
        · subst here
          simp [set, RwLock.count_remove _ _ _ _ _ registered]
        · simp [set, here]
      rw [counted, before]
      by_cases mine : other = thread
      · subst mine
        rw [own, Op.held, List.count_erase]
        congr 1
        exact if_congr (same_entry ..) rfl rfl
      · rw [others other mine]
        simp [Ne.symm mine]

theorem agrees_same {locks : Lock → RwLock Thread} {holds next : Thread → List (Lock × Mode)}
    (agrees : Agrees locks holds) (same : ∀ thread, next thread = holds thread) :
    Agrees locks next := by
  intro lock thread mode
  rw [same, agrees]

/-! Mutual exclusion. -/

theorem claimed_iff {locks : Lock → RwLock Thread} {holds : Thread → List (Lock × Mode)}
    (agrees : Agrees locks holds) (lock : Lock) (thread : Thread) :
    (locks lock).writer = some thread ↔ (lock, .exclusive) ∈ holds thread := by
  have counted := agrees lock thread .exclusive
  rw [← List.count_pos_iff, ← counted, RwLock.count]
  split <;> simp_all

theorem reading_iff {locks : Lock → RwLock Thread} {holds : Thread → List (Lock × Mode)}
    (agrees : Agrees locks holds) (lock : Lock) (thread : Thread) :
    thread ∈ (locks lock).readers ↔ (lock, .shared) ∈ holds thread := by
  have counted := agrees lock thread .shared
  rw [← List.count_pos_iff, ← List.count_pos_iff, ← counted, RwLock.count]

theorem occupied_iff {locks : Lock → RwLock Thread} {holds : Thread → List (Lock × Mode)}
    (agrees : Agrees locks holds) (lock : Lock) (thread : Thread) :
    (locks lock).Occupied thread ↔ ∃ mode, (lock, mode) ∈ holds thread := by
  rw [RwLock.Occupied, claimed_iff agrees, reading_iff agrees]
  constructor
  · rintro (claimed | reading)
    · exact ⟨.exclusive, claimed⟩
    · exact ⟨.shared, reading⟩
  · rintro ⟨_ | _, held⟩
    · exact Or.inr held
    · exact Or.inl held

theorem claim_unique {locks : Lock → RwLock Thread} {holds : Thread → List (Lock × Mode)}
    (agrees : Agrees locks holds) {lock : Lock} {left right : Thread}
    (leftClaims : (lock, .exclusive) ∈ holds left)
    (rightClaims : (lock, .exclusive) ∈ holds right) : left = right := by
  rw [← claimed_iff agrees] at leftClaims rightClaims
  exact Option.some.inj (leftClaims.symm.trans rightClaims)

theorem alone {locks : Lock → RwLock Thread} {holds : Thread → List (Lock × Mode)}
    (agrees : Agrees locks holds) {lock : Lock} {owner other : Thread}
    (claims : (lock, .exclusive) ∈ holds owner) (out : (locks lock).readers = [])
    (different : other ≠ owner) (mode : Mode) : (lock, mode) ∉ holds other := by
  intro held
  cases mode with
  | shared =>
      have reading := (reading_iff agrees lock other).mpr held
      simp [out] at reading
  | exclusive => exact different (claim_unique agrees held claims)

theorem readers_stay_out {locks after : Lock → RwLock Thread} {thread owner : Thread}
    {op : Op Lock} {lock : Lock} (claimed : (locks lock).writer = some owner)
    (out : (locks lock).readers = []) (done : perform thread locks op = some after) :
    (after lock).readers = [] := by
  cases op <;> simp only [perform] at done <;> split at done <;> cases done
  case acquire target mode unclaimed =>
    have apart : lock ≠ target := by
      rintro rfl
      simp [claimed] at unclaimed
    simpa [set, apart] using out
  case enter => exact out
  case release target mode _ =>
    by_cases here : lock = target
    · subst here
      cases mode <;> simp [set, RwLock.remove, out]
    · simpa [set, here] using out

/-! Freedom from deadlock. -/

/-- The next operation of the thread is an acquisition of the lock that has to wait. -/
def Blocked (locks : Lock → RwLock Thread) (thread : Thread) (op : Option (Op Lock))
    (lock : Lock) : Prop :=
  ∃ wanted, op = some wanted ∧ wanted.awaits = some lock ∧ perform thread locks wanted = none

/-- Locks are acquired in the order of their levels. -/
def Ordered (level : Lock → Nat) (held : List (Lock × Mode)) : Option (Op Lock) → Prop
  | some (.acquire lock _) => ∀ other ∈ held, level other.1 < level lock
  | some (.enter lock) => (lock, .exclusive) ∈ held ∧
      ∀ other ∈ held, other = (lock, .exclusive) ∨ level other.1 < level lock
  | _ => True

/-- How far a thread has got: waiting for the readers of a lock comes after waiting for its claim. -/
def rank (level : Lock → Nat) : Option (Op Lock) → Nat
  | some (.acquire lock _) => 2 * level lock
  | some (.enter lock) => 2 * level lock + 1
  | _ => 0

/-- Who blocks somebody and is blocked has got further. -/
theorem rank_lt {locks : Lock → RwLock Thread} {holds : Thread → List (Lock × Mode)}
    (agrees : Agrees locks holds) {level : Lock → Nat} {ops : Thread → Option (Op Lock)}
    (ordered : ∀ thread, Ordered level (holds thread) (ops thread)) {left right : Thread}
    {lock later : Lock} (different : right ≠ left) (blocked : Blocked locks left (ops left) lock)
    (blocking : ∃ mode, (lock, mode) ∈ holds right)
    (stuck : Blocked locks right (ops right) later) :
    rank level (ops left) < rank level (ops right) := by
  obtain ⟨leftOp, leftIs, leftAwaits, _⟩ := blocked
  obtain ⟨rightOp, rightIs, rightAwaits, _⟩ := stuck
  obtain ⟨mode, held⟩ := blocking
  have leftOrdered := ordered left
  have rightOrdered := ordered right
  rw [leftIs] at leftOrdered
  rw [rightIs] at rightOrdered
  rw [leftIs, rightIs]
  cases rightOp with
  | release => cases rightAwaits
  | acquire target wanted =>
      have above : level lock < level target := rightOrdered _ held
      cases leftOp with
      | release => cases leftAwaits
      | acquire | enter =>
          cases leftAwaits
          simp only [rank]
          omega
  | enter target =>
      cases leftOp with
      | release => cases leftAwaits
      | acquire source =>
          cases leftAwaits
          rcases rightOrdered.2 _ held with same | above
          · cases same
            simp [rank]
          · simp only [rank] at above ⊢
            omega
      | enter source =>
          cases leftAwaits
          rcases rightOrdered.2 _ held with same | above
          · cases same
            -- Who waits to enter has claimed the lock, and two cannot.
            exact absurd (claim_unique agrees held leftOrdered.1) different
          · simp only [rank] at above ⊢
            omega

/-- Each thread of the set waits for a lock that another of the set holds or claims. -/
def Deadlock (locks : Lock → RwLock Thread) (ops : Thread → Option (Op Lock))
    (threads : Set Thread) : Prop :=
  threads.Nonempty ∧ ∀ left ∈ threads, ∃ lock, Blocked locks left (ops left) lock ∧
    ∃ right ∈ threads, right ≠ left ∧ (locks lock).Occupied right

/-- Threads that acquire locks in the order of a bounded level never deadlock. -/
theorem no_deadlock {locks : Lock → RwLock Thread} {holds : Thread → List (Lock × Mode)}
    (agrees : Agrees locks holds) {level : Lock → Nat} {bound : Nat}
    (bounded : ∀ lock, level lock ≤ bound) {ops : Thread → Option (Op Lock)}
    (ordered : ∀ thread, Ordered level (holds thread) (ops thread)) (threads : Set Thread) :
    ¬ Deadlock locks ops threads := by
  rintro ⟨⟨start, first⟩, stuck⟩
  have limit : ∀ op : Option (Op Lock), rank level op ≤ 2 * bound + 1 := by
    intro op
    unfold rank
    split
    · have := bounded ‹Lock›; omega
    · have := bounded ‹Lock›; omega
    · omega
  have further : ∀ left ∈ threads, ∃ right ∈ threads,
      rank level (ops left) < rank level (ops right) := by
    intro left member
    obtain ⟨lock, blocked, right, there, different, occupied⟩ := stuck left member
    obtain ⟨later, rightBlocked, _⟩ := stuck right there
    exact ⟨right, there, rank_lt agrees ordered different blocked
      ((occupied_iff agrees lock right).mp occupied) rightBlocked⟩
  -- Induction on how much further the threads of the set can get.
  have climb : ∀ height, ∃ thread ∈ threads, height ≤ rank level (ops thread) := by
    intro height
    induction height with
    | zero => exact ⟨start, first, Nat.zero_le _⟩
    | succ height ih =>
        obtain ⟨left, member, reached⟩ := ih
        obtain ⟨right, there, higher⟩ := further left member
        exact ⟨right, there, Nat.lt_of_le_of_lt reached higher⟩
  obtain ⟨thread, _, beyond⟩ := climb (2 * bound + 2)
  have := limit (ops thread)
  omega

/-- Among threads that are the only ones to hold locks, one is not blocked. -/
theorem someone_moves {locks : Lock → RwLock Thread} {holds : Thread → List (Lock × Mode)}
    (agrees : Agrees locks holds) {level : Lock → Nat} {bound : Nat}
    (bounded : ∀ lock, level lock ≤ bound) {ops : Thread → Option (Op Lock)}
    (ordered : ∀ thread, Ordered level (holds thread) (ops thread))
    (releases : ∀ thread lock mode, ops thread = some (.release lock mode) →
      (lock, mode) ∈ holds thread)
    {busy : Set Thread} (nonempty : busy.Nonempty)
    (holders : ∀ thread, holds thread ≠ [] → thread ∈ busy) :
    ∃ thread ∈ busy, ∀ op, ops thread = some op → ∃ after, perform thread locks op = some after := by
  by_contra stuck
  push Not at stuck
  refine no_deadlock agrees bounded ordered busy ⟨nonempty, fun left member => ?_⟩
  obtain ⟨op, next, never⟩ := stuck left member
  have blocked : perform left locks op = none := Option.eq_none_iff_forall_ne_some.mpr never
  have mine := ordered left
  rw [next] at mine
  have held : ∀ right lock mode, (lock, mode) ∈ holds right → right ∈ busy := by
    intro right lock mode inside
    exact holders right (List.ne_nil_of_mem inside)
  cases op with
  | acquire lock mode =>
      refine ⟨lock, ⟨_, next, rfl, blocked⟩, ?_⟩
      cases claimed : (locks lock).writer with
      | none => simp [perform, claimed] at blocked
      | some right =>
          have claims := (claimed_iff agrees lock right).mp claimed
          refine ⟨right, held right lock _ claims, ?_, Or.inl claimed⟩
          rintro rfl
          exact absurd (mine _ claims) (Nat.lt_irrefl _)
  | enter lock =>
      refine ⟨lock, ⟨_, next, rfl, blocked⟩, ?_⟩
      have claimed := (claimed_iff agrees lock left).mpr mine.1
      cases reading : (locks lock).readers with
      | nil => simp [perform, claimed, reading] at blocked
      | cons right rest =>
          have inside : right ∈ (locks lock).readers := by simp [reading]
          have shares := (reading_iff agrees lock right).mp inside
          refine ⟨right, held right lock _ shares, ?_, Or.inr inside⟩
          rintro rfl
          rcases mine.2 _ shares with same | below
          · cases same
          · exact absurd below (Nat.lt_irrefl _)
  | release lock mode =>
      have counted : (locks lock).count left mode ≠ 0 := by
        rw [agrees lock left mode]
        exact Nat.ne_of_gt (List.count_pos_iff.mpr (releases left lock mode next))
      simp [perform, counted] at blocked

/-! One lock of many, whose threads go by other names. -/

section Renaming
variable {Name : Type} [DecidableEq Name] {name : Thread → Name}

def RwLock.rename (name : Thread → Name) (lock : RwLock Thread) : RwLock Name where
  writer := lock.writer.map name
  readers := lock.readers.map name

/-- The operation on a lock that has no other one beside it, among many. -/
def Op.on (lock : Lock) : Op Unit → Op Lock
  | .acquire _ mode => .acquire lock mode
  | .enter _ => .enter lock
  | .release _ mode => .release lock mode

omit [DecidableEq Thread] [DecidableEq Name] in
theorem RwLock.rename_add (lock : RwLock Thread) (thread : Thread) (mode : Mode) :
    (lock.add thread mode).rename name = (lock.rename name).add (name thread) mode := by
  cases mode <;> rfl

theorem RwLock.rename_remove (injective : Function.Injective name) (lock : RwLock Thread)
    (thread : Thread) (mode : Mode) :
    (lock.remove thread mode).rename name = (lock.rename name).remove (name thread) mode := by
  cases mode with
  | shared => simp [remove, rename, List.map_erase injective]
  | exclusive => rfl

theorem RwLock.rename_count (injective : Function.Injective name) (lock : RwLock Thread)
    (thread : Thread) (mode : Mode) :
    (lock.rename name).count (name thread) mode = lock.count thread mode := by
  cases mode with
  | shared => exact List.count_map_of_injective lock.readers name injective thread
  | exclusive => simp [rename, count, injective.eq_iff]

omit [DecidableEq Thread] in
theorem set_same (locks : Lock → RwLock Thread) {lock : Lock} {value : RwLock Thread}
    (same : locks lock = value) : set locks lock value = locks := by
  funext other
  by_cases here : other = lock <;> simp [set, here, same]

theorem perform_rename (injective : Function.Injective name) {locks : Lock → RwLock Name}
    {lock : Lock} {own next : Unit → RwLock Thread} {thread : Thread} {op : Op Unit}
    (same : locks lock = (own ()).rename name) (done : perform thread own op = some next) :
    perform (name thread) locks (op.on lock) =
      some (set locks lock ((next ()).rename name)) := by
  cases op with
  | acquire other mode =>
      simp only [perform] at done
      split at done <;> cases done
      rename_i unclaimed
      have free : (locks lock).writer = none := by
        rw [same]
        exact Option.map_eq_none_iff.mpr unclaimed
      rw [Op.on, perform, if_pos free, same]
      simp [set, RwLock.rename_add]
  | enter other =>
      simp only [perform] at done
      split at done <;> cases done
      rename_i inside
      have entered : (locks lock).writer = some (name thread) ∧ (locks lock).readers = [] := by
        rw [same]
        exact ⟨Option.map_eq_some_iff.mpr ⟨thread, inside.1, rfl⟩, List.map_eq_nil_iff.mpr inside.2⟩
      rw [Op.on, perform, if_pos entered, set_same locks same]
  | release other mode =>
      simp only [perform] at done
      split at done <;> cases done
      rename_i registered
      have counted : (locks lock).count (name thread) mode ≠ 0 := by
        rw [same, RwLock.rename_count injective]
        exact registered
      rw [Op.on, perform, if_pos counted, same]
      simp [set, RwLock.rename_remove injective]

end Renaming

end Muddymask.ReaderWriter
