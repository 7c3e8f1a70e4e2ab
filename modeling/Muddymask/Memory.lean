import Mathlib.Algebra.Group.Nat.Defs
import Muddymask.Words

/-!
Memory by its bytes, with 64-bit words in the order of the host, and stacks that
are linked through words in memory. A stack is a `Chain`: its first word is the
address of its first node, the word at each node that of the next, and the last
one null. What a chain needs is that its nodes' words are left alone.
-/

namespace Muddymask

open Words

/-- The number of addresses of a 64-bit host. -/
def kAddresses : Nat := 0x10000000000000000

/-- `sizeof(void*)`. -/
def kPointerSize : Nat := 8

abbrev Memory := Nat → UInt8

namespace Memory

/-- The `count` lowest bytes of a number, the lowest first. -/
def split : Nat → Nat → Bytes
  | 0, _ => []
  | count + 1, number => UInt8.ofNat number :: split count (number / 256)

def join : Bytes → Nat
  | [] => 0
  | byte :: rest => byte.toNat + 256 * join rest

@[simp] theorem split_length (count number : Nat) : (split count number).length = count := by
  induction count generalizing number with
  | zero => rfl
  | succ count ih => simp [split, ih]

theorem join_split (count number : Nat) : join (split count number) = number % 256 ^ count := by
  induction count generalizing number with
  | zero => simp [split, join, Nat.mod_one]
  | succ count ih =>
      have byte : (UInt8.ofNat number).toNat = number % 256 := by simp
      rw [split, join, ih, byte, Nat.pow_succ', Nat.mod_mul]

theorem join_lt (bytes : Bytes) : join bytes < 256 ^ bytes.length := by
  induction bytes with
  | nil => exact Nat.one_pos
  | cons byte rest ih =>
      have low : byte.toNat < 256 := byte.toNat_lt
      rw [join, List.length_cons, Nat.pow_succ']
      omega

theorem split_join (bytes : Bytes) : split bytes.length (join bytes) = bytes := by
  induction bytes with
  | nil => rfl
  | cons byte rest ih =>
      have low : byte.toNat < 256 := byte.toNat_lt
      have first : (byte.toNat + 256 * join rest) % 256 = byte.toNat := by omega
      have others : (byte.toNat + 256 * join rest) / 256 = join rest := by omega
      rw [List.length_cons, join, split, others, ih]
      congr 1
      apply UInt8.toNat_inj.mp
      rw [UInt8.toNat_ofNat', first]

def bytes (order : ByteOrder) (word : UInt64) : Bytes :=
  match order with
  | .little => split kPointerSize word.toNat
  | .big => (split kPointerSize word.toNat).reverse

def ofBytes (order : ByteOrder) (bytes : Bytes) : UInt64 :=
  match order with
  | .little => UInt64.ofNat (join bytes)
  | .big => UInt64.ofNat (join bytes.reverse)

theorem bytes_length (order : ByteOrder) (word : UInt64) :
    (bytes order word).length = kPointerSize := by
  cases order <;> simp [bytes]

theorem ofBytes_bytes (order : ByteOrder) (word : UInt64) : ofBytes order (bytes order word) = word := by
  have whole : word.toNat % 256 ^ kPointerSize = word.toNat := Nat.mod_eq_of_lt word.toNat_lt
  cases order <;> simp [ofBytes, bytes, join_split, whole]

theorem toNat_join {bytes : Bytes} (whole : bytes.length = kPointerSize) :
    (UInt64.ofNat (join bytes)).toNat = join bytes := by
  have low := join_lt bytes
  rw [whole] at low
  exact UInt64.toNat_ofNat_of_lt' low

theorem bytes_ofBytes (order : ByteOrder) {bytes : Bytes} (whole : bytes.length = kPointerSize) :
    Memory.bytes order (ofBytes order bytes) = bytes := by
  cases order with
  | little =>
      rw [ofBytes, Memory.bytes, toNat_join whole, ← whole]
      exact split_join bytes
  | big =>
      have reversed : bytes.reverse.length = kPointerSize := by rw [List.length_reverse, whole]
      rw [ofBytes, Memory.bytes, toNat_join reversed, ← reversed, split_join, List.reverse_reverse]

def read (memory : Memory) (p count : Nat) : Bytes := (List.range count).map fun i => memory (p + i)

/-- `std::memcpy(p, source, source.length)`. -/
def write (memory : Memory) (p : Nat) (source : Bytes) : Memory :=
  fun a => if p ≤ a ∧ a < p + source.length then source.getD (a - p) 0 else memory a

theorem write_outside (memory : Memory) {p a : Nat} {source : Bytes}
    (outside : ¬ (p ≤ a ∧ a < p + source.length)) : memory.write p source a = memory a :=
  if_neg outside

theorem read_write (memory : Memory) (p : Nat) (source : Bytes) :
    (memory.write p source).read p source.length = source := by
  apply List.ext_getElem
  · simp [read]
  · intro i _ inside
    simp [read, write, inside]

/-- Reading depends on the bytes that are read. -/
theorem read_congr {left right : Memory} {p count : Nat}
    (same : ∀ a, p ≤ a → a < p + count → left a = right a) :
    left.read p count = right.read p count := by
  apply List.map_congr_left
  intro i inside
  exact same (p + i) (Nat.le_add_right p i) (Nat.add_lt_add_left (List.mem_range.mp inside) p)

/-- `*(void**)p`. -/
def load (order : ByteOrder) (memory : Memory) (p : Nat) : UInt64 :=
  ofBytes order (memory.read p kPointerSize)

def store (order : ByteOrder) (memory : Memory) (p : Nat) (word : UInt64) : Memory :=
  memory.write p (bytes order word)

section
variable {order : ByteOrder} {memory : Memory}

@[simp] theorem load_store (p : Nat) (word : UInt64) :
    load order (store order memory p word) p = word := by
  have same := read_write memory p (bytes order word)
  rw [bytes_length] at same
  rw [load, store, same, ofBytes_bytes]

theorem load_congr {other : Memory} {p : Nat}
    (same : ∀ a, p ≤ a → a < p + kPointerSize → memory a = other a) :
    load order memory p = load order other p := by
  rw [load, load, read_congr same]

theorem store_outside {p a : Nat} {word : UInt64} (outside : ¬ (p ≤ a ∧ a < p + kPointerSize)) :
    store order memory p word a = memory a :=
  write_outside memory (by rwa [bytes_length])

theorem load_store_apart {p q : Nat} {word : UInt64}
    (apart : q + kPointerSize ≤ p ∨ p + kPointerSize ≤ q) :
    load order (store order memory p word) q = load order memory q :=
  load_congr fun a low high => store_outside (by omega)

/-- Only the last of two words stored to a place is left. -/
theorem store_store (p : Nat) (first second : UInt64) :
    store order (store order memory p first) p second = store order memory p second := by
  funext a
  by_cases inside : p ≤ a ∧ a < p + kPointerSize
  · simp only [store, write, bytes_length, if_pos inside]
  · rw [store_outside inside, store_outside inside, store_outside inside]

theorem load_write (p : Nat) {source : Bytes} (enough : kPointerSize ≤ source.length) :
    load order (memory.write p source) p = ofBytes order (source.take kPointerSize) := by
  have front : (memory.write p source).read p kPointerSize =
      ((memory.write p source).read p source.length).take kPointerSize := by
    rw [read, read, ← List.map_take, List.take_range, Nat.min_eq_left enough]
  rw [load, front, read_write]

end

/-- The nodes of a stack, the top first. -/
def Chain (order : ByteOrder) (memory : Memory) : UInt64 → List Nat → Prop
  | head, [] => head = 0
  | head, p :: rest => head ≠ 0 ∧ head.toNat = p ∧ Chain order memory (load order memory p) rest

section Chain
variable {order : ByteOrder} {memory : Memory} {head : UInt64} {list : List Nat}

theorem chain_congr {other : Memory}
    (same : ∀ p ∈ list, load order memory p = load order other p)
    (chain : Chain order memory head list) : Chain order other head list := by
  induction list generalizing head with
  | nil => exact chain
  | cons p rest ih =>
      obtain ⟨present, address, later⟩ := chain
      refine ⟨present, address, ?_⟩
      rw [← same p List.mem_cons_self]
      exact ih (fun q member => same q (List.mem_cons_of_mem p member)) later

theorem chain_null : Chain order memory 0 list ↔ list = [] := by
  cases list with
  | nil => exact iff_of_true rfl rfl
  | cons p rest => simp [Chain]

theorem chain_top (present : head ≠ 0) (chain : Chain order memory head list) :
    ∃ rest, list = head.toNat :: rest ∧ Chain order memory (load order memory head.toNat) rest := by
  cases list with
  | nil => exact absurd chain present
  | cons p rest =>
      obtain ⟨_, rfl, later⟩ := chain
      exact ⟨rest, rfl, later⟩

theorem ofNat_address {p : Nat} (positive : 0 < p) (small : p < kAddresses) :
    UInt64.ofNat p ≠ 0 ∧ (UInt64.ofNat p).toNat = p := by
  have address : (UInt64.ofNat p).toNat = p := UInt64.toNat_ofNat_of_lt' small
  refine ⟨fun null => ?_, address⟩
  rw [null] at address
  exact Nat.ne_of_gt positive address.symm

/-- A node goes on top of a stack it does not touch. -/
theorem chain_push {p : Nat} (positive : 0 < p) (small : p < kAddresses)
    (apart : ∀ q ∈ list, q + kPointerSize ≤ p ∨ p + kPointerSize ≤ q)
    (chain : Chain order memory head list) :
    Chain order (store order memory p head) (UInt64.ofNat p) (p :: list) := by
  obtain ⟨present, address⟩ := ofNat_address positive small
  refine ⟨present, address, ?_⟩
  rw [load_store]
  exact chain_congr (fun q member => (load_store_apart (apart q member)).symm) chain

theorem chain_unique {other : List Nat} (chain : Chain order memory head list)
    (same : Chain order memory head other) : list = other := by
  induction list generalizing head other with
  | nil =>
      rw [show head = 0 from chain] at same
      exact (chain_null.mp same).symm
  | cons p rest ih =>
      obtain ⟨present, rfl, later⟩ := chain
      obtain ⟨tail, rfl, after⟩ := chain_top present same
      rw [ih later after]

end Chain

end Memory

end Muddymask
