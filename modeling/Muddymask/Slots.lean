import Muddymask.Carving
import Muddymask.Places
import Muddymask.Runs

/-!
An allocator between its owner and any number of other threads. The owner
allocates and releases; the others push what they were given back to `global` in
three steps that anything may come between. `live` are the objects that users
have. Users write to their objects, and everybody to what is no arena.

Two things are assumed here. The memory for an arena is new and aligned
(`Allocates`), and `release` acts on the allocator that carved the object:
the look at the first word of the object is left out, and only an object whose
first word has the address of its allocator is released as here.
-/

namespace Muddymask

open Words Memory Heap Places Runs

/-- Where a thread is in the release of an object that is not its allocator's. -/
inductive Releasing where
  | idle
  | entered (p : Nat)
  | linked (p : Nat)
  deriving DecidableEq

def Releasing.node : Releasing → List Nat
  | idle => []
  | entered p | linked p => [p]

/-- Memory that `source.allocate` can return. The end of the address space is the
kernel's, so rounding up behind an arena does not wrap. -/
def Shape.Usable (shape : Shape) (arena : Nat) : Prop :=
  kArenaSize ∣ arena ∧ arena + kArenaSize + shape.tAlignment ≤ kAddresses

instance (shape : Shape) (arena : Nat) : Decidable (shape.Usable arena) :=
  inferInstanceAs (Decidable (_ ∧ _))

structure Slots where
  heap : Heap
  arenas : List Nat
  live : List Nat
  /-- Whether the owner is in `allocate` behind its exchange. -/
  exchanged : Bool
  thread : Nat → Releasing

namespace Slots

inductive Event where
  | exchange
  | allocate (arena : Nat)
  | releaseLocal (p : Nat)
  | enter (thread p : Nat)
  | load (thread : Nat)
  | compareExchange (thread : Nat) (spurious : Bool)
  | write (a : Nat) (byte : UInt8)

def setThread (state : Slots) (thread : Nat) (value : Releasing) : Nat → Releasing :=
  fun other => if other = thread then value else state.thread other

@[simp] theorem setThread_same (state : Slots) (thread : Nat) (value : Releasing) :
    state.setThread thread value thread = value := if_pos rfl
@[simp] theorem setThread_other (state : Slots) {thread other : Nat} (value : Releasing)
    (apart : other ≠ thread) : state.setThread thread value other = state.thread other := if_neg apart

theorem setThread_self {state : Slots} {thread : Nat} {value : Releasing}
    (stands : state.thread thread = value) : state.setThread thread value = state.thread := by
  funext other
  by_cases same : other = thread
  · rw [same, setThread_same, stands]
  · exact setThread_other state value same

/-- In an object that a user has, or outside of all arenas. -/
def Writable (shape : Shape) (state : Slots) (a : Nat) : Prop :=
  (∃ p ∈ state.live, p ≤ a ∧ a < p + shape.tObjectSize) ∨
    ∀ arena ∈ state.arenas, a < arena ∨ arena + kArenaSize ≤ a

instance (shape : Shape) (state : Slots) (a : Nat) : Decidable (state.Writable shape a) :=
  inferInstanceAs (Decidable (_ ∨ _))

section
variable (order : ByteOrder) (shape : Shape) (this : UInt64)

/-- The owner has its list, or is past its exchange; then the arena has to be new. -/
def Allocates (state : Slots) (arena : Nat) : Prop :=
  ((state.heap.allocator this).localNode ≠ 0 ∨ state.exchanged = true) ∧
    ((state.heap.allocator this).localNode = 0 → shape.Usable arena ∧ arena ∉ state.arenas)

instance (state : Slots) (arena : Nat) : Decidable (state.Allocates shape this arena) :=
  inferInstanceAs (Decidable (_ ∧ _))

/-- One step. It is not taken where `allocate` would dereference a null pointer. -/
def step (state : Slots) : Event → Option Slots
  | .exchange =>
      if (state.heap.allocator this).localNode = 0 ∧ state.exchanged = false then
        some { state with heap := state.heap.exchange this, exchanged := true }
      else none
  | .allocate arena =>
      if state.Allocates shape this arena then
        (state.heap.appendPop order shape this arena).map fun result =>
          { state with
            heap := result.2
            arenas := if (state.heap.allocator this).localNode = 0 then arena :: state.arenas
              else state.arenas
            live := result.1 :: state.live
            exchanged := false }
      else none
  | .releaseLocal p =>
      if p ∈ state.live ∧ state.exchanged = false then
        some { state with heap := state.heap.pushLocal order this p, live := state.live.erase p }
      else none
  | .enter thread p =>
      if p ∈ state.live ∧ state.thread thread = .idle then
        some { state with
          live := state.live.erase p
          thread := state.setThread thread (.entered p) }
      else none
  | .load thread =>
      match state.thread thread with
      | .entered p =>
          some { state with
            heap := state.heap.loadGlobal order this p
            thread := state.setThread thread (.linked p) }
      | _ => none
  | .compareExchange thread spurious =>
      match state.thread thread with
      | .linked p =>
          let result := state.heap.compareExchange order this p spurious
          some { state with
            heap := result.2
            thread := if result.1 then state.setThread thread .idle else state.thread }
      | _ => none
  | .write a byte =>
      if state.Writable shape a then
        some { state with heap := { state.heap with memory := state.heap.memory.write a [byte] } }
      else none

def start (heap : Heap) : Slots where
  heap := heap.setAllocator this { localNode := 0, globalNode := 0 }
  arenas := []
  live := []
  exchanged := false
  thread := fun _ => .idle

end

inductive Place where
  | localList
  | globalList
  | hands (thread : Nat)
  | user

/-- What is where, with `l` and `g` for the two lists. -/
def contents (state : Slots) (l g : List Nat) : Place → List Nat
  | .localList => l
  | .globalList => g
  | .hands thread => (state.thread thread).node
  | .user => state.live

@[simp] theorem contents_localList (state : Slots) (l g : List Nat) :
    state.contents l g .localList = l := rfl
@[simp] theorem contents_globalList (state : Slots) (l g : List Nat) :
    state.contents l g .globalList = g := rfl
@[simp] theorem contents_user (state : Slots) (l g : List Nat) :
    state.contents l g .user = state.live := rfl

def Carved (shape : Shape) (state : Slots) (p : Nat) : Prop :=
  ∃ arena ∈ state.arenas, p ∈ shape.slots arena

/-- The address `a` belongs to an object that is on neither list, or to no arena. -/
def Loose (shape : Shape) (state : Slots) (l g : List Nat) (a : Nat) : Prop :=
  (∃ p place, p ∈ state.contents l g place ∧ place ≠ .localList ∧ place ≠ .globalList ∧
    p ≤ a ∧ a < p + shape.tObjectSize) ∨
  ∀ arena ∈ state.arenas, a < arena ∨ arena + kArenaSize ≤ a

/-- What every step keeps. -/
structure Conserved (order : ByteOrder) (shape : Shape) (this : UInt64) (state : Slots)
    (l g : List Nat) : Prop where
  localChain : Chain order state.heap.memory (state.heap.allocator this).localNode l
  globalChain : Chain order state.heap.memory (state.heap.allocator this).globalNode g
  exclusive : Exclusive (state.contents l g)
  stored : ∀ p, Stored (state.contents l g) p ↔ state.Carved shape p
  usable : ∀ arena ∈ state.arenas, shape.Usable arena
  header : ∀ arena ∈ state.arenas, Memory.load order state.heap.memory arena = this

end Slots

/-! What the layout of the arenas gives. -/

theorem multiples_apart {size arena other : Nat} (aligned : size ∣ arena) (alike : size ∣ other)
    (before : arena < other) : arena + size ≤ other := by
  have distance := Nat.le_of_dvd (Nat.sub_pos_of_lt before) (Nat.dvd_sub alike aligned)
  omega

namespace Shape
variable (shape : Shape) {arena other p q : Nat} (aligned : kArenaSize ∣ arena)
  (alike : kArenaSize ∣ other)
include aligned alike

theorem arenas_apart (different : arena ≠ other) :
    arena + kArenaSize ≤ other ∨ other + kArenaSize ≤ arena :=
  (Nat.lt_or_gt_of_ne different).imp (multiples_apart aligned alike) (multiples_apart alike aligned)

theorem header_apart (member : p ∈ shape.slots arena) :
    other + kPointerSize ≤ p ∨ p + shape.tObjectSize ≤ other := by
  obtain ⟨_, low, high⟩ := shape.slot_bounds member
  have whole : kPointerSize ≤ kArenaSize := by decide
  by_cases same : arena = other
  · exact Or.inl (same ▸ low)
  · have apart := arenas_apart aligned alike same
    omega

theorem slots_apart (member : p ∈ shape.slots arena) (inOther : q ∈ shape.slots other)
    (different : p ≠ q) : p + shape.tObjectSize ≤ q ∨ q + shape.tObjectSize ≤ p := by
  by_cases same : arena = other
  · subst same
    have wide := shape.stride_ge
    obtain ⟨k, rfl, _⟩ := shape.mem_slots.mp member
    obtain ⟨m, rfl, _⟩ := shape.mem_slots.mp inOther
    rcases Nat.lt_or_gt_of_ne (fun alike : k = m => different (by rw [alike])) with less | more
    · have strides := Nat.mul_le_mul_right shape.stride (Nat.succ_le_of_lt less)
      rw [Nat.succ_mul] at strides
      omega
    · have strides := Nat.mul_le_mul_right shape.stride (Nat.succ_le_of_lt more)
      rw [Nat.succ_mul] at strides
      omega
  · obtain ⟨_, low, high⟩ := shape.slot_bounds member
    obtain ⟨_, lowOther, highOther⟩ := shape.slot_bounds inOther
    have apart := arenas_apart aligned alike same
    omega

end Shape

namespace Slots
variable {order : ByteOrder} {shape : Shape} {this : UInt64} {state : Slots} {l g : List Nat}

namespace Conserved
variable (conserved : Conserved order shape this state l g) {p q : Nat}
include conserved

theorem carved {place : Place} (member : p ∈ state.contents l g place) : state.Carved shape p :=
  (conserved.stored p).mp ⟨place, member⟩

theorem carved_local (member : p ∈ l) : state.Carved shape p :=
  (conserved.stored p).mp ⟨.localList, member⟩

theorem carved_global (member : p ∈ g) : state.Carved shape p :=
  (conserved.stored p).mp ⟨.globalList, member⟩

theorem carved_user (member : p ∈ state.live) : state.Carved shape p :=
  (conserved.stored p).mp ⟨.user, member⟩

theorem address (carved : state.Carved shape p) : 0 < p ∧ p < kAddresses := by
  obtain ⟨arena, inside, member⟩ := carved
  exact slot_address (conserved.usable arena inside).2 member

theorem apart (carved : state.Carved shape p) (other : state.Carved shape q) (different : p ≠ q) :
    p + shape.tObjectSize ≤ q ∨ q + shape.tObjectSize ≤ p := by
  obtain ⟨arena, inside, member⟩ := carved
  obtain ⟨second, within, inOther⟩ := other
  exact shape.slots_apart (conserved.usable arena inside).1 (conserved.usable second within).1
    member inOther different

theorem nodes_apart (carved : state.Carved shape p) (other : state.Carved shape q) (different : p ≠ q) :
    q + kPointerSize ≤ p ∨ p + kPointerSize ≤ q := by
  have node := shape.node
  have apart := conserved.apart carved other different
  omega

/-- What is at two places at once is at one. -/
theorem distinct {place other : Place} (member : p ∈ state.contents l g place)
    (inOther : q ∈ state.contents l g other) (different : place ≠ other) : p ≠ q := by
  rintro rfl
  exact different (conserved.exclusive.apart place other p member inOther)

theorem node_tight {place : Place} (onList : place = .localList ∨ place = .globalList)
    (member : q ∈ state.contents l g place) {a : Nat} (low : q ≤ a) (high : a < q + kPointerSize) :
    ¬ Loose shape state l g a := by
  have node := shape.node
  have carved := conserved.carved member
  rintro (⟨p, other, inOther, notLocal, notGlobal, first, last⟩ | outside)
  · have different : place ≠ other := by
      rintro rfl
      exact onList.elim notLocal notGlobal
    have := conserved.apart carved (conserved.carved inOther)
      (conserved.distinct member inOther different)
    omega
  · obtain ⟨arena, inside, slot⟩ := carved
    obtain ⟨_, behind, before⟩ := shape.slot_bounds slot
    have := outside arena inside
    omega

theorem header_tight {arena a : Nat} (inside : arena ∈ state.arenas) (low : arena ≤ a)
    (high : a < arena + kPointerSize) : ¬ Loose shape state l g a := by
  rintro (⟨p, place, member, _, _, first, last⟩ | outside)
  · obtain ⟨other, within, slot⟩ := conserved.carved member
    have := shape.header_apart (conserved.usable other within).1 (conserved.usable arena inside).1 slot
    omega
  · have whole : kPointerSize ≤ kArenaSize := by decide
    have := outside arena inside
    omega

/-- Memory may change wherever nothing is kept in it. -/
theorem rewritten {memory : Memory}
    (changed : ∀ a, ¬ Loose shape state l g a → memory a = state.heap.memory a) :
    Conserved order shape this { state with heap := { state.heap with memory := memory } } l g where
  localChain := by
    refine chain_congr (fun q member => load_congr fun a low high => ?_) conserved.localChain
    exact (changed a (conserved.node_tight (Or.inl rfl) member low high)).symm
  globalChain := by
    refine chain_congr (fun q member => load_congr fun a low high => ?_) conserved.globalChain
    exact (changed a (conserved.node_tight (Or.inr rfl) member low high)).symm
  exclusive := conserved.exclusive
  stored := conserved.stored
  usable := conserved.usable
  header := by
    intro arena inside
    rw [← conserved.header arena inside]
    exact load_congr fun a low high => changed a (conserved.header_tight inside low high)

/-- A word is stored to an object that is on neither list. -/
theorem stored_at {place : Place} (member : p ∈ state.contents l g place)
    (notLocal : place ≠ .localList) (notGlobal : place ≠ .globalList) (word : UInt64) :
    Conserved order shape this
      { state with heap := { state.heap with memory := store order state.heap.memory p word } } l g := by
  refine conserved.rewritten fun a tight => store_outside fun inside => tight (Or.inl ?_)
  exact ⟨p, place, member, notLocal, notGlobal, inside.1,
    Nat.lt_of_lt_of_le inside.2 (Nat.add_le_add_left shape.node p)⟩

/-- Nothing of the allocator changes but who has what. -/
theorem recast {next : Slots} (heap : next.heap = state.heap) (arenas : next.arenas = state.arenas)
    (same : next.contents l g = state.contents l g) : Conserved order shape this next l g where
  localChain := heap ▸ conserved.localChain
  globalChain := heap ▸ conserved.globalChain
  exclusive := same ▸ conserved.exclusive
  stored p := by
    rw [same, conserved.stored, Carved, Carved, arenas]
  usable := arenas ▸ conserved.usable
  header := by
    rw [heap, arenas]
    exact conserved.header

/-- A slot moves, and the lists are what they should be. -/
theorem moved {next : Slots} {after onGlobal : List Nat} {source target : Place}
    (moved : Moved (state.contents l g) (next.contents after onGlobal) source target p)
    (arenas : next.arenas = state.arenas)
    (localChain : Chain order next.heap.memory (next.heap.allocator this).localNode after)
    (globalChain : Chain order next.heap.memory (next.heap.allocator this).globalNode onGlobal)
    (header : ∀ arena ∈ next.arenas, Memory.load order next.heap.memory arena = this) :
    Conserved order shape this next after onGlobal where
  localChain := localChain
  globalChain := globalChain
  exclusive := moved.exclusive conserved.exclusive
  stored q := by
    rw [moved.stored conserved.exclusive, conserved.stored, Carved, Carved, arenas]
  usable := arenas ▸ conserved.usable
  header := header

end Conserved
end Slots

end Muddymask
