import Mathlib.Data.List.Nodup
import Muddymask.Memory

/-!
`ArenaAllocator` of `include/muddy/common/mm`. An allocator keeps two stacks of
free slots, linked through the slots themselves: its own and one that other
threads push to. A new arena is carved into slots by a loop that stops one slot
early where a slot ends exactly with the arena. Pointers in memory are words,
addresses are numbers; `allocator` gives the fields of the object at an address.
-/

namespace Muddymask

open Words Memory

def kArenaSize : Nat := 0x100000

/-- `tpl::align`. The sum is a `uintptr_t`. -/
def align (address alignment : Nat) : Nat :=
  (address + alignment - 1) % kAddresses / alignment * alignment

/-- The parameters of the template; a slot has room for a link. -/
structure Shape where
  tObjectSize : Nat
  tAlignment : Nat
  node : kPointerSize ≤ tObjectSize
  positive : 0 < tAlignment

/-- The fields `local` and `global`. -/
structure ArenaAllocator where
  localNode : UInt64
  globalNode : UInt64
  deriving DecidableEq

structure Heap where
  memory : Memory
  allocator : UInt64 → ArenaAllocator

namespace Heap

def setAllocator (heap : Heap) (this : UInt64) (fields : ArenaAllocator) : Heap :=
  { heap with allocator := fun other => if other = this then fields else heap.allocator other }

@[simp] theorem setAllocator_same (heap : Heap) (this : UInt64) (fields : ArenaAllocator) :
    (heap.setAllocator this fields).allocator this = fields := if_pos rfl
@[simp] theorem setAllocator_memory (heap : Heap) (this : UInt64) (fields : ArenaAllocator) :
    (heap.setAllocator this fields).memory = heap.memory := rfl

theorem setAllocator_other (heap : Heap) {this other : UInt64} (fields : ArenaAllocator)
    (apart : other ≠ this) : (heap.setAllocator this fields).allocator other = heap.allocator other :=
  if_neg apart

/-- `local = l`, with the memory that the stack `l` is in. -/
def setLocal (heap : Heap) (this : UInt64) (l : Memory × UInt64) : Heap :=
  { heap with memory := l.1 }.setAllocator this { heap.allocator this with localNode := l.2 }

section SetLocal
variable (heap : Heap) (this : UInt64) (l : Memory × UInt64)

@[simp] theorem setLocal_memory : (heap.setLocal this l).memory = l.1 := rfl
@[simp] theorem setLocal_localNode : ((heap.setLocal this l).allocator this).localNode = l.2 := by
  rw [setLocal, setAllocator_same]
@[simp] theorem setLocal_globalNode : ((heap.setLocal this l).allocator this).globalNode =
    (heap.allocator this).globalNode := by
  rw [setLocal, setAllocator_same]

theorem setLocal_other {other : UInt64} (apart : other ≠ this) :
    (heap.setLocal this l).allocator other = heap.allocator other :=
  setAllocator_other _ _ apart

end SetLocal

/-- `StackNode::push`, with the memory it is done in. -/
def push (order : ByteOrder) (stack : Memory × UInt64) (p : Nat) : Memory × UInt64 :=
  (store order stack.1 p stack.2, UInt64.ofNat p)

/-- The loop of `append`; `none` if it takes more than the given turns. No pointer
is below the bound where an object is larger than all that is before the arena's
end (there C++ leaves the difference open). -/
def carve (order : ByteOrder) (shape : Shape) (arena : Nat) :
    Nat → Memory × UInt64 → Nat → Option (Memory × UInt64)
  | 0, _, _ => none
  | turns + 1, l, begin =>
      if begin < arena + kArenaSize - shape.tObjectSize then
        carve order shape arena turns (push order l begin)
          (align (begin + shape.tObjectSize) shape.tAlignment)
      else some l

def append (order : ByteOrder) (shape : Shape) (heap : Heap) (this : UInt64) (arena : Nat) :
    Option Heap :=
  let memory := store order heap.memory arena this
  (carve order shape arena kArenaSize (memory, (heap.allocator this).localNode)
    (align (arena + kPointerSize) shape.tAlignment)).map (heap.setLocal this)

/-- `local = global.exchange(local)`. -/
def exchange (heap : Heap) (this : UInt64) : Heap :=
  let fields := heap.allocator this
  heap.setAllocator this { localNode := fields.globalNode, globalNode := fields.localNode }

/-- The end of `allocate`; `none` where a null pointer is dereferenced. -/
def pop (order : ByteOrder) (heap : Heap) (this : UInt64) : Option (Nat × Heap) :=
  let fields := heap.allocator this
  if fields.localNode = 0 then none
  else
    let p := fields.localNode.toNat
    some (p, heap.setAllocator this { fields with localNode := load order heap.memory p })

/-- `allocate` from its second test on; `arena` is what `source.allocate` returns if
it is called. -/
def appendPop (order : ByteOrder) (shape : Shape) (heap : Heap) (this : UInt64) (arena : Nat) :
    Option (Nat × Heap) :=
  let filled := if (heap.allocator this).localNode = 0 then heap.append order shape this arena
    else some heap
  filled.bind fun heap => heap.pop order this

def allocate (order : ByteOrder) (shape : Shape) (heap : Heap) (this : UInt64) (arena : Nat) :
    Option (Nat × Heap) :=
  let heap := if (heap.allocator this).localNode = 0 then heap.exchange this else heap
  heap.appendPop order shape this arena

section Pop
variable {order : ByteOrder} {shape : Shape} {heap : Heap} {this : UInt64}

theorem pop_some (present : (heap.allocator this).localNode ≠ 0) :
    heap.pop order this = some ((heap.allocator this).localNode.toNat,
      heap.setAllocator this { heap.allocator this with
        localNode := load order heap.memory (heap.allocator this).localNode.toNat }) :=
  if_neg present

theorem appendPop_some (present : (heap.allocator this).localNode ≠ 0) (arena : Nat) :
    heap.appendPop order shape this arena = heap.pop order this := by
  rw [appendPop, if_neg present, Option.bind_some]

theorem appendPop_none (null : (heap.allocator this).localNode = 0) (arena : Nat) :
    heap.appendPop order shape this arena =
      (heap.append order shape this arena).bind fun heap => heap.pop order this := by
  rw [appendPop, if_pos null]

@[simp] theorem exchange_allocator : (heap.exchange this).allocator this =
    { localNode := (heap.allocator this).globalNode, globalNode := (heap.allocator this).localNode } :=
  setAllocator_same ..

end Pop

/-! `release`. -/

def pushLocal (order : ByteOrder) (heap : Heap) (this : UInt64) (p : Nat) : Heap :=
  heap.setLocal this (push order (heap.memory, (heap.allocator this).localNode) p)

/-- `node->next = allocator->global`. -/
def loadGlobal (order : ByteOrder) (heap : Heap) (allocator : UInt64) (p : Nat) : Heap :=
  { heap with memory := store order heap.memory p (heap.allocator allocator).globalNode }

/-- `compare_exchange_weak(node->next, node)`: whether it succeeded, and what it left. -/
def compareExchange (order : ByteOrder) (heap : Heap) (allocator : UInt64) (p : Nat)
    (spurious : Bool) : Bool × Heap :=
  let fields := heap.allocator allocator
  if fields.globalNode = load order heap.memory p ∧ spurious = false then
    (true, heap.setAllocator allocator { fields with globalNode := UInt64.ofNat p })
  else (false, heap.loadGlobal order allocator p)

/-- The loop around it in a thread that nobody disturbs, after some spurious failures. -/
def compareExchangeLoop (order : ByteOrder) (heap : Heap) (allocator : UInt64) (p : Nat) :
    Nat → Heap
  | 0 => (heap.compareExchange order allocator p false).2
  | failures + 1 =>
      (heap.compareExchange order allocator p true).2.compareExchangeLoop order allocator p failures

/-- `*static_cast<ArenaAllocator**>(p)`. -/
def resolve (order : ByteOrder) (heap : Heap) (p : Nat) : UInt64 := load order heap.memory p

/-- `release` undisturbed, with the allocator whose fields it uses. -/
def release (order : ByteOrder) (heap : Heap) (this : UInt64) (p : Nat) (failures : Nat) :
    UInt64 × Heap :=
  let allocator := heap.resolve order p
  if allocator = this then (this, heap.pushLocal order this p)
  else (allocator, (heap.loadGlobal order allocator p).compareExchangeLoop order allocator p failures)

end Heap

end Muddymask
