import Muddymask.ArenaAllocator

/-!
Where the slots of an arena are. `append` pushes a sequence of slots that starts
at the first multiple of the alignment behind the header word and goes on in
equal strides. Its loop asks whether a slot ends before the end of the arena, so
a last slot that fills the arena exactly is lost, and with it the only one.
-/

namespace Muddymask

open Words Memory Heap

/-- `tpl::align` without the wrap. -/
def roundUp (address alignment : Nat) : Nat := (address + alignment - 1) / alignment * alignment

section RoundUp
variable {alignment : Nat} (positive : 0 < alignment)
include positive

theorem roundUp_bounds (address : Nat) : alignment ∣ roundUp address alignment ∧
    address ≤ roundUp address alignment ∧ roundUp address alignment < address + alignment := by
  have whole := Nat.div_add_mod' (address + alignment - 1) alignment
  have rest := Nat.mod_lt (address + alignment - 1) positive
  refine ⟨Nat.dvd_mul_left .., ?_, ?_⟩
  · rw [roundUp]
    omega
  · rw [roundUp]
    omega

theorem roundUp_add {start : Nat} (multiple : alignment ∣ start) (address : Nat) :
    roundUp (start + address) alignment = start + roundUp address alignment := by
  obtain ⟨count, rfl⟩ := multiple
  rw [roundUp, roundUp, show alignment * count + address + alignment - 1 =
    address + alignment - 1 + count * alignment by rw [Nat.mul_comm]; omega,
    Nat.add_mul_div_right _ _ positive, Nat.add_mul, Nat.mul_comm count, Nat.add_comm]

theorem align_eq {address : Nat} (room : address + alignment ≤ kAddresses) :
    align address alignment = roundUp address alignment := by
  rw [align, roundUp, Nat.mod_eq_of_lt (by omega)]

end RoundUp

namespace Shape
variable (shape : Shape)

def first (arena : Nat) : Nat := roundUp (arena + kPointerSize) shape.tAlignment

def stride : Nat := roundUp shape.tObjectSize shape.tAlignment

theorem stride_ge : shape.tObjectSize ≤ shape.stride := (roundUp_bounds shape.positive _).2.1

theorem stride_pos : 0 < shape.stride :=
  Nat.lt_of_lt_of_le (Nat.lt_of_lt_of_le (by decide) shape.node) shape.stride_ge

/-- `count` slots from `begin` on. -/
def slotsFrom (begin : Nat) : Nat → List Nat
  | 0 => []
  | count + 1 => begin :: slotsFrom (begin + shape.stride) count

def turns (arena begin : Nat) : Nat :=
  (arena + kArenaSize - shape.tObjectSize - begin + (shape.stride - 1)) / shape.stride

/-- The slots that `append` pushes, in this order. -/
def slots (arena : Nat) : List Nat :=
  shape.slotsFrom (shape.first arena) (shape.turns arena (shape.first arena))

theorem mem_slotsFrom {begin count p : Nat} :
    p ∈ shape.slotsFrom begin count ↔ ∃ k < count, p = begin + k * shape.stride := by
  induction count generalizing begin with
  | zero => simp [slotsFrom]
  | succ count ih =>
      rw [slotsFrom, List.mem_cons, ih]
      constructor
      · rintro (rfl | ⟨k, low, rfl⟩)
        · exact ⟨0, Nat.succ_pos count, by simp⟩
        · exact ⟨k + 1, Nat.succ_lt_succ low, by rw [Nat.succ_mul]; omega⟩
      · rintro ⟨_ | k, low, rfl⟩
        · exact Or.inl (by simp)
        · exact Or.inr ⟨k, Nat.lt_of_succ_lt_succ low, by rw [Nat.succ_mul]; omega⟩

theorem lt_turns_iff (arena begin k : Nat) :
    k < shape.turns arena begin ↔
      begin + k * shape.stride + shape.tObjectSize < arena + kArenaSize := by
  have positive := shape.stride_pos
  rw [turns, ← Nat.succ_le_iff, Nat.le_div_iff_mul_le positive, Nat.succ_mul]
  omega

theorem mem_slots {arena p : Nat} :
    p ∈ shape.slots arena ↔ ∃ k, p = shape.first arena + k * shape.stride ∧
      p + shape.tObjectSize < arena + kArenaSize := by
  rw [slots, mem_slotsFrom]
  constructor
  · rintro ⟨k, low, rfl⟩
    exact ⟨k, rfl, (shape.lt_turns_iff ..).mp low⟩
  · rintro ⟨k, rfl, fits⟩
    exact ⟨k, (shape.lt_turns_iff ..).mpr fits, rfl⟩

theorem slotsFrom_sorted (begin count : Nat) :
    (shape.slotsFrom begin count).Pairwise fun p q => p + shape.tObjectSize ≤ q := by
  induction count generalizing begin with
  | zero => exact List.Pairwise.nil
  | succ count ih =>
      refine List.Pairwise.cons (fun q member => ?_) (ih _)
      obtain ⟨k, _, rfl⟩ := shape.mem_slotsFrom.mp member
      have wide := shape.stride_ge
      omega

theorem slots_nodup (arena : Nat) : (shape.slots arena).Nodup := by
  refine (shape.slotsFrom_sorted _ _).imp fun {p q} ends same => ?_
  have node : 0 < shape.tObjectSize := Nat.lt_of_lt_of_le (by decide) shape.node
  omega

/-- Behind the header, on a multiple of the alignment, and inside of the arena. -/
theorem slot_bounds {arena p : Nat} (member : p ∈ shape.slots arena) :
    shape.tAlignment ∣ p ∧ arena + kPointerSize ≤ p ∧
      p + shape.tObjectSize < arena + kArenaSize := by
  obtain ⟨k, rfl, fits⟩ := shape.mem_slots.mp member
  have start := roundUp_bounds shape.positive (arena + kPointerSize)
  have step := roundUp_bounds shape.positive shape.tObjectSize
  refine ⟨Nat.dvd_add start.1 (Nat.dvd_mul_left_of_dvd step.1 k), ?_, fits⟩
  exact Nat.le_trans start.2.1 (Nat.le_add_right _ _)

theorem turns_succ {arena begin : Nat} (fits : begin + shape.tObjectSize < arena + kArenaSize) :
    shape.turns arena begin = shape.turns arena (begin + shape.stride) + 1 := by
  have shifted : ∀ k, k < shape.turns arena (begin + shape.stride) ↔
      k + 1 < shape.turns arena begin := by
    intro k
    rw [lt_turns_iff, lt_turns_iff, Nat.succ_mul]
    omega
  have some : 0 < shape.turns arena begin := (shape.lt_turns_iff arena begin 0).mpr (by omega)
  have last := shifted (shape.turns arena (begin + shape.stride))
  have previous := shifted (shape.turns arena (begin + shape.stride) - 1)
  omega

theorem turns_lt (arena : Nat) : shape.turns arena (shape.first arena) < kArenaSize := by
  refine Nat.lt_of_not_le fun many => ?_
  have low : kArenaSize - 1 < shape.turns arena (shape.first arena) := by
    simp only [kArenaSize] at many ⊢
    omega
  have fits := (shape.lt_turns_iff ..).mp low
  have wide : (kArenaSize - 1) * kPointerSize ≤ (kArenaSize - 1) * shape.stride :=
    Nat.mul_le_mul_left _ (Nat.le_trans shape.node shape.stride_ge)
  have behind := (roundUp_bounds shape.positive (arena + kPointerSize)).2.1
  simp only [first, kArenaSize, kPointerSize] at fits wide behind
  omega

end Shape

section Carve
variable {order : ByteOrder} {shape : Shape} {arena : Nat}

theorem carve_eq (room : arena + kArenaSize + shape.tAlignment ≤ kAddresses) {count fuel : Nat}
    {l : Memory × UInt64} {begin : Nat} (multiple : shape.tAlignment ∣ begin)
    (counted : shape.turns arena begin = count) (enough : count < fuel) :
    carve order shape arena fuel l begin =
      some ((shape.slotsFrom begin count).foldl (push order) l) := by
  induction count generalizing fuel l begin with
  | zero =>
      obtain ⟨fuel, rfl⟩ := Nat.exists_eq_succ_of_ne_zero (Nat.ne_of_gt enough)
      have past : ¬ begin + shape.tObjectSize < arena + kArenaSize := by
        intro fits
        have some := (shape.lt_turns_iff arena begin 0).mpr (by omega)
        rw [counted] at some
        exact Nat.lt_irrefl 0 some
      rw [carve, if_neg (by omega), Shape.slotsFrom, List.foldl_nil]
  | succ count ih =>
      obtain ⟨fuel, rfl⟩ := Nat.exists_eq_succ_of_ne_zero (Nat.ne_of_gt (Nat.zero_lt_of_lt enough))
      have fits : begin + shape.tObjectSize < arena + kArenaSize := by
        have first := (shape.lt_turns_iff arena begin 0).mp (by omega)
        omega
      have next : align (begin + shape.tObjectSize) shape.tAlignment = begin + shape.stride := by
        rw [align_eq shape.positive (by omega), roundUp_add shape.positive multiple, Shape.stride]
      have step : shape.tAlignment ∣ shape.stride := (roundUp_bounds shape.positive _).1
      have left : shape.turns arena (begin + shape.stride) = count :=
        Nat.succ.inj ((shape.turns_succ fits).symm.trans counted)
      rw [carve, if_pos (by omega), next, ih (Nat.dvd_add multiple step) left (by omega),
        Shape.slotsFrom, List.foldl_cons]

/-- Slots pushed one after the other lie on the stack in the opposite order. -/
theorem pushes_chain {slots old : List Nat} {stack : Memory × UInt64}
    (sorted : slots.Pairwise fun p q => p + kPointerSize ≤ q)
    (address : ∀ p ∈ slots, 0 < p ∧ p < kAddresses)
    (apart : ∀ p ∈ slots, ∀ q ∈ old, q + kPointerSize ≤ p ∨ p + kPointerSize ≤ q)
    (chain : Chain order stack.1 stack.2 old) :
    Chain order (slots.foldl (push order) stack).1 (slots.foldl (push order) stack).2
      (slots.reverse ++ old) := by
  induction slots generalizing stack old with
  | nil => exact chain
  | cons p rest ih =>
      obtain ⟨below, later⟩ := List.pairwise_cons.mp sorted
      obtain ⟨positive, small⟩ := address p List.mem_cons_self
      rw [List.foldl_cons, List.reverse_cons, List.append_assoc]
      refine ih later (fun q member => address q (List.mem_cons_of_mem p member)) ?_ ?_
      · intro q member other onStack
        rcases List.mem_cons.mp onStack with rfl | deeper
        · exact Or.inl (below q member)
        · exact apart q (List.mem_cons_of_mem p member) other deeper
      · exact chain_push positive small (apart p List.mem_cons_self) chain

theorem pushes_outside {slots : List Nat} {stack : Memory × UInt64} {a : Nat}
    (outside : ∀ p ∈ slots, ¬ (p ≤ a ∧ a < p + kPointerSize)) :
    (slots.foldl (push order) stack).1 a = stack.1 a := by
  induction slots generalizing stack with
  | nil => rfl
  | cons p rest ih =>
      rw [List.foldl_cons, ih fun q member => outside q (List.mem_cons_of_mem p member)]
      exact store_outside (outside p List.mem_cons_self)

/-- The memory and the local stack with the slots of a new arena. -/
def pushed (order : ByteOrder) (shape : Shape) (heap : Heap) (this : UInt64) (arena : Nat) :
    Memory × UInt64 :=
  (shape.slots arena).foldl (push order)
    (store order heap.memory arena this, (heap.allocator this).localNode)

def appended (order : ByteOrder) (shape : Shape) (heap : Heap) (this : UInt64) (arena : Nat) : Heap :=
  heap.setLocal this (pushed order shape heap this arena)

variable (room : arena + kArenaSize + shape.tAlignment ≤ kAddresses)
include room

theorem slot_address {p : Nat} (member : p ∈ shape.slots arena) : 0 < p ∧ p < kAddresses := by
  obtain ⟨_, low, high⟩ := shape.slot_bounds member
  have pointer : 0 < kPointerSize := by decide
  omega

theorem append_eq (heap : Heap) (this : UInt64) :
    heap.append order shape this arena = some (appended order shape heap this arena) := by
  have behind := roundUp_bounds shape.positive (arena + kPointerSize)
  have first : align (arena + kPointerSize) shape.tAlignment = shape.first arena :=
    align_eq shape.positive (by simp only [kPointerSize, kArenaSize] at room ⊢; omega)
  have carved : carve order shape arena kArenaSize
      (store order heap.memory arena this, (heap.allocator this).localNode) (shape.first arena) =
      some (pushed order shape heap this arena) :=
    carve_eq room behind.1 rfl (shape.turns_lt arena)
  rw [append, first, carved, Option.map_some, appended]

omit room

theorem appended_outside (heap : Heap) (this : UInt64) {a : Nat}
    (outside : a < arena ∨ arena + kArenaSize ≤ a) :
    (appended order shape heap this arena).memory a = heap.memory a := by
  rw [appended, setLocal_memory, pushed, pushes_outside]
  · refine store_outside ?_
    simp only [kPointerSize, kArenaSize] at outside ⊢
    omega
  · intro p member inside
    obtain ⟨_, low, high⟩ := shape.slot_bounds member
    have node := shape.node
    omega

theorem appended_header (heap : Heap) (this : UInt64) :
    load order (appended order shape heap this arena).memory arena = this := by
  have stored : load order (store order heap.memory arena this) arena = this := load_store ..
  rw [appended, setLocal_memory, pushed]
  refine (load_congr fun a low high => ?_).trans stored
  refine pushes_outside fun p member inside => ?_
  obtain ⟨_, behind, _⟩ := shape.slot_bounds member
  omega

theorem appended_chain (room : arena + kArenaSize + shape.tAlignment ≤ kAddresses) (heap : Heap)
    (this : UInt64) {old : List Nat}
    (apart : ∀ q ∈ old, q + kPointerSize ≤ arena ∨ arena + kArenaSize ≤ q)
    (chain : Chain order heap.memory (heap.allocator this).localNode old) :
    Chain order (appended order shape heap this arena).memory
      ((appended order shape heap this arena).allocator this).localNode
      ((shape.slots arena).reverse ++ old) := by
  have node := shape.node
  rw [appended, setLocal_localNode, setLocal_memory, pushed]
  refine pushes_chain ?_ (fun p => slot_address room) ?_ ?_
  · exact (shape.slotsFrom_sorted _ _).imp fun ends => Nat.le_trans (Nat.add_le_add_left node _) ends
  · intro p member q onStack
    obtain ⟨_, low, high⟩ := shape.slot_bounds member
    have beside := apart q onStack
    omega
  · refine chain_congr (fun q onStack => load_congr fun a low high => ?_) chain
    have beside := apart q onStack
    refine (store_outside ?_).symm
    simp only [kPointerSize, kArenaSize] at *
    omega

/-- What `append` has done when it returns; `new` are the slots it pushed. -/
structure Appended (order : ByteOrder) (shape : Shape) (before : Heap) (this : UInt64) (arena : Nat)
    (new : List Nat) (after : Heap) : Prop where
  mem : ∀ p, p ∈ new ↔ p ∈ shape.slots arena
  nodup : new.Nodup
  localChain : ∀ old, (∀ q ∈ old, q + kPointerSize ≤ arena ∨ arena + kArenaSize ≤ q) →
    Chain order before.memory (before.allocator this).localNode old →
    Chain order after.memory (after.allocator this).localNode (new ++ old)
  globalNode : (after.allocator this).globalNode = (before.allocator this).globalNode
  outside : ∀ a, a < arena ∨ arena + kArenaSize ≤ a → after.memory a = before.memory a
  header : load order after.memory arena = this

theorem append_spec (order : ByteOrder)
    (room : arena + kArenaSize + shape.tAlignment ≤ kAddresses) (heap : Heap) (this : UInt64) :
    ∃ new after, heap.append order shape this arena = some after ∧
      Appended order shape heap this arena new after := by
  refine ⟨_, _, append_eq room heap this, fun p => List.mem_reverse,
    List.nodup_reverse.mpr (shape.slots_nodup arena), fun old => appended_chain room heap this, ?_,
    fun a => appended_outside heap this, appended_header heap this⟩
  rw [appended, setLocal_globalNode]

theorem appendPop_carves (room : arena + kArenaSize + shape.tAlignment ≤ kAddresses) {heap : Heap}
    {this : UInt64} {slot : Nat} (member : slot ∈ shape.slots arena)
    (null : (heap.allocator this).localNode = 0) : ∃ p after, p ∈ shape.slots arena ∧
      heap.appendPop order shape this arena = some (p, after) := by
  obtain ⟨new, after, done, spec⟩ := append_spec order room heap this
  have pushed := spec.localChain [] (by simp) null
  rw [List.append_nil] at pushed
  have present : (after.allocator this).localNode ≠ 0 := by
    intro empty
    rw [empty, chain_null] at pushed
    simpa [pushed] using (spec.mem slot).mpr member
  obtain ⟨rest, rfl, _⟩ := chain_top present pushed
  rw [appendPop_none null, done, Option.bind_some]
  exact ⟨_, _, (spec.mem _).mp List.mem_cons_self, pop_some present⟩

/-! A slot that ends with its arena. -/

/-- The slots that end at or before the end of the arena. -/
def Shape.Fits (shape : Shape) (arena p : Nat) : Prop :=
  ∃ k, p = shape.first arena + k * shape.stride ∧ p + shape.tObjectSize ≤ arena + kArenaSize

/-- No slot ends with its arena; this does not depend on where the arena is. -/
def Shape.Slack (shape : Shape) : Prop :=
  ∀ k, roundUp kPointerSize shape.tAlignment + k * shape.stride + shape.tObjectSize ≠ kArenaSize

/-- `append` pushes every slot that fits, and no other. -/
def AppendComplete (order : ByteOrder) (shape : Shape) (arena : Nat) : Prop :=
  ∀ (heap : Heap) (this : UInt64) (old : List Nat),
    Chain order heap.memory (heap.allocator this).localNode old →
    (∀ q ∈ old, q + kPointerSize ≤ arena ∨ arena + kArenaSize ≤ q) →
    ∃ (after : Heap) (list : List Nat), heap.append order shape this arena = some after ∧
      Chain order after.memory (after.allocator this).localNode (list ++ old) ∧ list.Nodup ∧
      ∀ p, p ∈ list ↔ shape.Fits arena p

/-- `allocate` returns where one object has room, and from a new arena a slot that fits. -/
def AllocateReturns (order : ByteOrder) (shape : Shape) (arena : Nat) : Prop :=
  roundUp kPointerSize shape.tAlignment + shape.tObjectSize ≤ kArenaSize →
    ∀ (heap : Heap) (this : UInt64), ∃ p after,
      heap.allocate order shape this arena = some (p, after) ∧
      ((heap.allocator this).localNode = 0 → (heap.allocator this).globalNode = 0 →
        shape.Fits arena p)

section Complete
variable (divides : shape.tAlignment ∣ kArenaSize) (aligned : kArenaSize ∣ arena)
include divides aligned

theorem first_eq : shape.first arena = arena + roundUp kPointerSize shape.tAlignment :=
  roundUp_add shape.positive (Nat.dvd_trans divides aligned) kPointerSize

/-- One past the end of the arena is an address, so rounding up does not wrap. -/
theorem arena_room (ends : arena + kArenaSize < kAddresses) :
    arena + kArenaSize + shape.tAlignment ≤ kAddresses := by
  have small := Nat.le_of_dvd (by decide) divides
  obtain ⟨count, rfl⟩ := aligned
  simp only [kArenaSize, kAddresses] at *
  omega

theorem fits_iff_slot (slack : shape.Slack) {p : Nat} :
    shape.Fits arena p ↔ p ∈ shape.slots arena := by
  rw [Shape.mem_slots]
  refine exists_congr fun k => and_congr_right ?_
  rintro rfl
  have apart := slack k
  rw [first_eq divides aligned]
  omega

theorem slots_nonempty (slack : shape.Slack)
    (one : roundUp kPointerSize shape.tAlignment + shape.tObjectSize ≤ kArenaSize) :
    shape.first arena ∈ shape.slots arena := by
  refine (fits_iff_slot divides aligned slack).mp ⟨0, by simp, ?_⟩
  rw [first_eq divides aligned]
  omega

theorem append_complete (ends : arena + kArenaSize < kAddresses) (slack : shape.Slack) :
    AppendComplete order shape arena := by
  have room := arena_room divides aligned ends
  intro heap this old chain apart
  obtain ⟨new, after, done, spec⟩ := append_spec order room heap this
  refine ⟨after, new, done, spec.localChain old apart chain, spec.nodup, fun p => ?_⟩
  rw [spec.mem, fits_iff_slot divides aligned slack]

/-- The slot that ends with the arena is missing on the list of a new allocator. -/
theorem append_incomplete (ends : arena + kArenaSize < kAddresses) {k : Nat}
    (fills : roundUp kPointerSize shape.tAlignment + k * shape.stride + shape.tObjectSize =
      kArenaSize) : ¬ AppendComplete order shape arena := by
  intro complete
  have room := arena_room divides aligned ends
  let heap : Heap := { memory := fun _ => 0, allocator := fun _ => ⟨0, 0⟩ }
  obtain ⟨after, list, taken, chain, _, whole⟩ := complete heap 0 [] rfl (by simp)
  obtain ⟨new, other, done, spec⟩ := append_spec order room heap 0
  have pushed := spec.localChain [] (by simp) rfl
  cases Option.some.inj (taken.symm.trans done)
  have same : list = new := by simpa using chain_unique chain pushed
  have last : shape.first arena + k * shape.stride ∈ list :=
    (whole _).mpr ⟨k, rfl, by rw [first_eq divides aligned]; omega⟩
  rw [same, spec.mem] at last
  have short := (shape.slot_bounds last).2.2
  rw [first_eq divides aligned] at short
  omega

/-- The only slot of an arena is missing, and `allocate` dereferences a null pointer. -/
theorem allocate_null (ends : arena + kArenaSize < kAddresses)
    (fills : roundUp kPointerSize shape.tAlignment + shape.tObjectSize = kArenaSize) {heap : Heap}
    {this : UInt64} (onLocal : (heap.allocator this).localNode = 0)
    (onGlobal : (heap.allocator this).globalNode = 0) :
    heap.allocate order shape this arena = none := by
  have room := arena_room divides aligned ends
  have null : ((heap.exchange this).allocator this).localNode = 0 := by simpa using onGlobal
  obtain ⟨new, after, done, spec⟩ := append_spec order room (heap.exchange this) this
  have empty : new = [] := by
    refine List.eq_nil_iff_forall_not_mem.mpr fun p member => ?_
    obtain ⟨k, rfl, short⟩ := shape.mem_slots.mp ((spec.mem p).mp member)
    rw [first_eq divides aligned] at short
    omega
  have pushed := spec.localChain [] (by simp) null
  rw [empty] at pushed
  rw [allocate, if_pos onLocal, appendPop_none null, done, Option.bind_some, pop]
  exact if_pos pushed

theorem allocate_returns (ends : arena + kArenaSize < kAddresses) (slack : shape.Slack) :
    AllocateReturns order shape arena := by
  intro one heap this
  have room := arena_room divides aligned ends
  have some := slots_nonempty divides aligned slack one
  by_cases onLocal : (heap.allocator this).localNode = 0
  · rw [allocate, if_pos onLocal]
    by_cases onGlobal : (heap.allocator this).globalNode = 0
    · have null : ((heap.exchange this).allocator this).localNode = 0 := by simpa using onGlobal
      obtain ⟨p, after, member, taken⟩ := appendPop_carves room some null
      exact ⟨p, after, taken, fun _ _ => (fits_iff_slot divides aligned slack).mpr member⟩
    · have present : ((heap.exchange this).allocator this).localNode ≠ 0 := by simpa using onGlobal
      rw [appendPop_some present, pop_some present]
      exact ⟨_, _, rfl, fun _ null => absurd null onGlobal⟩
  · rw [allocate, if_neg onLocal, appendPop_some onLocal, pop_some onLocal]
    exact ⟨_, _, rfl, fun null => absurd null onLocal⟩

end Complete

/-- Carving is complete, and one object with room enough to be allocated, exactly
if no slot ends with its arena. -/
theorem carving_complete_iff (order : ByteOrder) (shape : Shape) (arena : Nat)
    (divides : shape.tAlignment ∣ kArenaSize) (aligned : kArenaSize ∣ arena)
    (ends : arena + kArenaSize < kAddresses) :
    AppendComplete order shape arena ∧ AllocateReturns order shape arena ↔ shape.Slack := by
  constructor
  · rintro ⟨complete, _⟩ k fills
    exact append_incomplete divides aligned ends fills complete
  · intro slack
    exact ⟨append_complete divides aligned ends slack, allocate_returns divides aligned ends slack⟩

theorem carving_complete_word :
    AppendComplete .little ⟨24, 8, by decide, by decide⟩ 0x7F0000000000 ∧
      AllocateReturns .little ⟨24, 8, by decide, by decide⟩ 0x7F0000000000 ↔
    Shape.Slack ⟨24, 8, by decide, by decide⟩ :=
  carving_complete_iff .little ⟨24, 8, by decide, by decide⟩ 0x7F0000000000 (by decide)
    (by decide) (by decide)

/-- One object of the arena's size less a word has room and is not carved. -/
theorem carving_fails :
    ¬ AppendComplete .little ⟨0xFFFF8, 8, by decide, by decide⟩ 0x7F0000000000 ∧
      ¬ AllocateReturns .little ⟨0xFFFF8, 8, by decide, by decide⟩ 0x7F0000000000 := by
  have divides : 8 ∣ kArenaSize := by decide
  have aligned : kArenaSize ∣ 0x7F0000000000 := by decide
  have ends : 0x7F0000000000 + kArenaSize < kAddresses := by decide
  refine ⟨append_incomplete (k := 0) divides aligned ends (by decide), fun returns => ?_⟩
  obtain ⟨p, after, taken, _⟩ := returns (by decide) ⟨fun _ => 0, fun _ => ⟨0, 0⟩⟩ 0x1000
  rw [allocate_null divides aligned ends (by decide) rfl rfl] at taken
  cases taken

end Carve

end Muddymask
