import Mathlib.Data.Nat.Basic
import Muddymask.Memory

/-!
`AlignedAllocator` of `source/common/mm`, for unix and for win32. The address
space maps bytes; a `Kernel` is `mmap` without `MAP_FIXED`, which puts a mapping
where nothing is mapped, whatever the hint. The unix version computes an address
outside of its reservation for almost every base, and where the address is right
its second mapping, with that address as a hint, comes to lie somewhere else.
-/

namespace Muddymask

def kPageSize : Nat := 4096

/-- `PROT_NONE` and `PROT_READ | PROT_WRITE`. -/
inductive Protection where
  | none
  | readWrite
  deriving DecidableEq, Repr

/-- The bytes from `start` on. -/
structure Range where
  start : Nat
  length : Nat
  deriving DecidableEq, Repr

def Range.Contains (range : Range) (a : Nat) : Prop :=
  range.start ≤ a ∧ a < range.start + range.length

instance (range : Range) (a : Nat) : Decidable (range.Contains a) :=
  inferInstanceAs (Decidable (_ ∧ _))

/-- What is mapped, and how. -/
abbrev AddressSpace := Nat → Option Protection

namespace AddressSpace

def Free (space : AddressSpace) (range : Range) : Prop :=
  ∀ a, range.Contains a → space a = none

def map (space : AddressSpace) (range : Range) (protection : Protection) : AddressSpace :=
  fun a => if range.Contains a then some protection else space a

def unmap (space : AddressSpace) (range : Range) : AddressSpace :=
  fun a => if range.Contains a then none else space a

theorem map_inside (space : AddressSpace) {range : Range} (protection : Protection) {a : Nat}
    (inside : range.Contains a) : space.map range protection a = some protection :=
  if_pos inside

theorem map_outside (space : AddressSpace) {range : Range} (protection : Protection) {a : Nat}
    (outside : ¬ range.Contains a) : space.map range protection a = space a :=
  if_neg outside

theorem unmap_outside (space : AddressSpace) {range : Range} {a : Nat}
    (outside : ¬ range.Contains a) : space.unmap range a = space a :=
  if_neg outside

end AddressSpace

/-- `mmap` without `MAP_FIXED`: the hint is a wish, and no mapping is replaced. -/
structure Kernel where
  place : AddressSpace → Nat → Nat → Option Nat
  positive : ∀ {space hint length start}, place space hint length = some start → 0 < length
  pages : ∀ {space hint length start}, place space hint length = some start →
    kPageSize ∣ start
  room : ∀ {space hint length start}, place space hint length = some start →
    start + length ≤ kAddresses
  free : ∀ {space hint length start}, place space hint length = some start →
    space.Free ⟨start, length⟩

/-- The constructor asserts what the fields say. -/
structure AlignedAllocator where
  alignment : Nat
  positive : 0 < alignment
  pages : kPageSize ∣ alignment

/-- The address space with the calls of `munmap` so far, the last first. -/
structure Process where
  space : AddressSpace
  unmapped : List Range

namespace Process

/-- `munmap_`. A range that is empty or leaves the address space is an error,
and so is one that does not begin with a page: the wrapper throws. -/
def munmap (process : Process) (range : Range) : Option Process :=
  if range.length = 0 ∨ kAddresses < range.start + range.length ∨ ¬ kPageSize ∣ range.start then none
  else some { space := process.space.unmap range, unmapped := range :: process.unmapped }

/-- `mmap_`. -/
def mmap (process : Process) (kernel : Kernel) (hint length : Nat) (protection : Protection) :
    Option (Nat × Process) :=
  (kernel.place process.space hint length).map fun start =>
    (start, { process with space := process.space.map ⟨start, length⟩ protection })

def times (process : Process) (a : Nat) : Nat :=
  process.unmapped.countP fun range => range.Contains a

end Process

namespace AlignedAllocator

/-- A difference of two `uintptr_t`. -/
def minus (a b : Nat) : Nat := (a + (kAddresses - b)) % kAddresses

/-- `allocate` of `AlignedAllocator_unix.cpp`; `none` is an exception. -/
def allocate (allocator : AlignedAllocator) (kernel : Kernel) (process : Process) (size : Nat) :
    Option (Nat × Process) :=
  let alignment := allocator.alignment
  (process.mmap kernel 0 ((size + alignment) % kAddresses) .none).bind fun (base, process) =>
    let aligned := (base % alignment * alignment + alignment) % kAddresses
    (process.munmap ⟨base, minus aligned base⟩).bind fun process =>
      let trimmed := if minus aligned base < alignment then
          process.munmap ⟨(aligned + size) % kAddresses, alignment - minus aligned base⟩
        else some process
      trimmed.bind fun process =>
        -- where the second mapping is nobody looks at
        (process.mmap kernel aligned size .readWrite).map fun (_, process) => (aligned, process)

/-- The address that `AlignedAllocator_win32.cpp` computes. -/
def win32Address (allocator : AlignedAllocator) (base : Nat) : Nat :=
  (base / allocator.alignment * allocator.alignment + allocator.alignment) % kAddresses

/-- `allocate` of `AlignedAllocator_win32.cpp`: `VirtualAlloc` commits a part of
the reservation in place. -/
def win32Allocate (allocator : AlignedAllocator) (kernel : Kernel) (process : Process)
    (size : Nat) : Option (Nat × Process) :=
  (process.mmap kernel 0 ((size + allocator.alignment) % kAddresses) .none).map fun (base, process) =>
    let aligned := allocator.win32Address base
    (aligned, { process with space := process.space.map ⟨aligned, size⟩ .readWrite })

/-- What an allocation of `size` bytes in the reservation from `base` on promises. -/
structure Promised (allocator : AlignedAllocator) (size base p : Nat) (after : Process) : Prop where
  multiple : allocator.alignment ∣ p
  low : base ≤ p
  high : p + size ≤ base + size + allocator.alignment
  usable : ∀ a, (Range.mk p size).Contains a → after.space a = some .readWrite
  trimmed : ∀ a, (Range.mk base (size + allocator.alignment)).Contains a →
    ¬ (Range.mk p size).Contains a → after.times a = 1
  untouched : ∀ a, ¬ (Range.mk base (size + allocator.alignment)).Contains a → after.times a = 0
  agrees : p = allocator.win32Address base

/-- The next multiple of the alignment above `base`, within a reservation that
does not wrap around. -/
theorem win32Address_bounds (allocator : AlignedAllocator) {size base : Nat} (positive : 0 < size)
    (fits : base + (size + allocator.alignment) ≤ kAddresses) :
    allocator.alignment ∣ allocator.win32Address base ∧ base < allocator.win32Address base ∧
      allocator.win32Address base ≤ base + allocator.alignment := by
  have low := Nat.div_add_mod' base allocator.alignment
  have rest := Nat.mod_lt base allocator.positive
  have inside : base / allocator.alignment * allocator.alignment + allocator.alignment <
      kAddresses := by
    omega
  rw [win32Address, Nat.mod_eq_of_lt inside]
  refine ⟨?_, ?_, ?_⟩
  · exact Nat.dvd_add (Nat.dvd_mul_left ..) (Nat.dvd_refl _)
  · omega
  · omega

section Allocation
variable {allocator : AlignedAllocator} {kernel : Kernel} {process after : Process} {size base : Nat}

/-- The sibling: what the win32 version commits is aligned and inside of the reservation. -/
theorem win32Allocate_exact (positive : 0 < size)
    (fits : base + (size + allocator.alignment) ≤ kAddresses)
    (reserved : kernel.place process.space 0 ((size + allocator.alignment) % kAddresses) =
      some base) :
    ∃ after, allocator.win32Allocate kernel process size =
        some (allocator.win32Address base, after) ∧
      allocator.alignment ∣ allocator.win32Address base ∧
      base ≤ allocator.win32Address base ∧
      allocator.win32Address base + size ≤ base + size + allocator.alignment ∧
      ∀ a, (Range.mk (allocator.win32Address base) size).Contains a →
        after.space a = some .readWrite := by
  obtain ⟨multiple, low, high⟩ := win32Address_bounds allocator positive fits
  rw [win32Allocate, Process.mmap, reserved]
  refine ⟨_, rfl, multiple, Nat.le_of_lt low, by omega, fun a inside => ?_⟩
  exact AddressSpace.map_inside _ _ inside

theorem munmap_outside {range : Range} (done : process.munmap range = some after) {a : Nat}
    (outside : ¬ range.Contains a) : after.space a = process.space a := by
  rw [Process.munmap] at done
  split at done
  · cases done
  · cases done
    exact AddressSpace.unmap_outside _ outside

/-- A mapping made with a hint leaves everything that is mapped as it is. -/
theorem mmap_keeps {hint length start : Nat} {protection : Protection}
    (done : process.mmap kernel hint length protection = some (start, after)) {a : Nat}
    (mapped : process.space a ≠ none) : after.space a = process.space a := by
  rw [Process.mmap] at done
  obtain ⟨place, placed, same⟩ := Option.map_eq_some_iff.mp done
  cases same
  exact AddressSpace.map_outside _ _ fun inside => mapped (kernel.free placed a inside)

theorem minus_of_le {a b : Nat} (ordered : b ≤ a) (small : a < kAddresses) :
    minus a b = a - b := by
  have wrapped : a + (kAddresses - b) = a - b + kAddresses := by omega
  rw [minus, wrapped, Nat.add_mod_right]
  exact Nat.mod_eq_of_lt (by omega)

/-- If the address is the right one, its first byte is still reserved and nothing
more on return. -/
theorem allocate_reserved (positive : 0 < size)
    (fits : base + (size + allocator.alignment) ≤ kAddresses)
    (reserved : kernel.place process.space 0 ((size + allocator.alignment) % kAddresses) =
      some base)
    (allocated : allocator.allocate kernel process size =
      some (allocator.win32Address base, after)) :
    after.space (allocator.win32Address base) = some .none := by
  obtain ⟨_, low, high⟩ := win32Address_bounds allocator positive fits
  have length : (size + allocator.alignment) % kAddresses = size + allocator.alignment := by
    have some := kernel.positive reserved
    rcases Nat.lt_or_eq_of_le (Nat.le_trans (Nat.le_add_left _ base) fits) with inside | full
    · exact Nat.mod_eq_of_lt inside
    · rw [full, Nat.mod_self] at some
      exact absurd some (Nat.lt_irrefl 0)
  rw [length] at reserved
  rw [allocate, length] at allocated
  simp only [Process.mmap, reserved, Option.map_some, Option.bind_some] at allocated
  obtain ⟨front, unmapped, allocated⟩ := Option.bind_eq_some_iff.mp allocated
  obtain ⟨trimmed, back, allocated⟩ := Option.bind_eq_some_iff.mp allocated
  obtain ⟨⟨start, last⟩, placed, same⟩ := Option.map_eq_some_iff.mp allocated
  have address := congrArg Prod.fst same
  have final := congrArg Prod.snd same
  dsimp only at address final
  subst final
  rw [address] at unmapped back placed
  have distance := minus_of_le (Nat.le_of_lt low) (by omega : allocator.win32Address base < kAddresses)
  rw [distance] at unmapped back
  have reservedFirst : front.space (allocator.win32Address base) = some .none := by
    rw [munmap_outside unmapped fun inside => ?_]
    · exact AddressSpace.map_inside _ _ ⟨Nat.le_of_lt low, by dsimp only; omega⟩
    · have beyond := inside.2
      dsimp only at beyond
      omega
  have stillReserved : trimmed.space (allocator.win32Address base) = some .none := by
    split at back
    · rename_i excess
      have fitsBack : allocator.win32Address base + size < kAddresses := by omega
      rw [Nat.mod_eq_of_lt fitsBack] at back
      rw [munmap_outside back fun inside => ?_]
      · exact reservedFirst
      · have beyond := inside.1
        dsimp only at beyond
        omega
    · cases back
      exact reservedFirst
  rw [mmap_keeps placed (by rw [stillReserved]; exact Option.some_ne_none _)]
  exact stillReserved

/-- Far from the bottom of the address space there is no address at all: the one
that is computed lies at or below the base, and the first `munmap` fails. -/
theorem allocate_throws (high : allocator.alignment * allocator.alignment ≤ base)
    (small : base < kAddresses)
    (reserved : kernel.place process.space 0 ((size + allocator.alignment) % kAddresses) =
      some base) :
    allocator.allocate kernel process size = none := by
  have rest : base % allocator.alignment * allocator.alignment + allocator.alignment ≤
      allocator.alignment * allocator.alignment := by
    rw [← Nat.succ_mul]
    exact Nat.mul_le_mul_right _ (Nat.mod_lt base allocator.positive)
  have aligned : (base % allocator.alignment * allocator.alignment + allocator.alignment) %
      kAddresses = base % allocator.alignment * allocator.alignment + allocator.alignment :=
    Nat.mod_eq_of_lt (by omega)
  have positive := allocator.positive
  rw [allocate, Process.mmap, reserved]
  simp only [Option.map_some, Option.bind_some, aligned]
  -- The length is zero, or it goes round past the end.
  rw [Process.munmap, if_pos, Option.bind_none]
  rcases Nat.lt_or_eq_of_le (Nat.le_trans rest high) with below | same
  · right
    left
    have length : minus (base % allocator.alignment * allocator.alignment +
        allocator.alignment) base = base % allocator.alignment * allocator.alignment +
        allocator.alignment + (kAddresses - base) :=
      Nat.mod_eq_of_lt (by omega)
    dsimp only
    rw [length]
    omega
  · left
    rw [same]
    exact (minus_of_le (Nat.le_refl base) small).trans (Nat.sub_self base)

/-- No allocation keeps the promise, for any base. -/
theorem allocate_never (allocator : AlignedAllocator) (kernel : Kernel) (process : Process)
    (size base : Nat) (positive : 0 < size)
    (fits : base + (size + allocator.alignment) ≤ kAddresses)
    (reserved : kernel.place process.space 0 ((size + allocator.alignment) % kAddresses) =
      some base) :
    ¬ ∃ p after, allocator.allocate kernel process size = some (p, after) ∧
      Promised allocator size base p after := by
  rintro ⟨p, after, allocated, promised⟩
  rw [promised.agrees] at allocated
  have bare := allocate_reserved positive fits reserved allocated
  have usable := promised.usable p ⟨Nat.le_refl _, Nat.lt_add_of_pos_right positive⟩
  rw [promised.agrees, bare] at usable
  cases usable

end Allocation

/-- A mapping can be made there. -/
def Fits (space : AddressSpace) (length start : Nat) : Prop :=
  0 < length ∧ 0x10000 ≤ start ∧ kPageSize ∣ start ∧ start + length ≤ kAddresses ∧
    ∀ i < length, space (start + i) = none

instance (space : AddressSpace) (length start : Nat) : Decidable (Fits space length start) :=
  inferInstanceAs (Decidable (_ ∧ _))

def plainPlace (space : AddressSpace) (hint length : Nat) : Option Nat :=
  [hint, 0x7F0000001000, 0x7E0000000000].find? fun start => Fits space length start

theorem fits_of_plainPlace {space : AddressSpace} {hint length start : Nat}
    (placed : plainPlace space hint length = some start) : Fits space length start := by
  have found := List.find?_some placed
  exact of_decide_eq_true found

/-- A kernel that takes the hint if it can, and else one of two places. -/
def plainKernel : Kernel where
  place := plainPlace
  positive placed := (fits_of_plainPlace placed).1
  pages placed := (fits_of_plainPlace placed).2.2.1
  room placed := (fits_of_plainPlace placed).2.2.2.1
  free placed a inside := by
    have free := (fits_of_plainPlace placed).2.2.2.2
    obtain ⟨i, rfl⟩ := Nat.exists_eq_add_of_le inside.1
    exact free i (Nat.lt_of_add_lt_add_left inside.2)

def plainProcess : Process := { space := fun _ => none, unmapped := [] }

def plainAllocator : AlignedAllocator :=
  { alignment := 0x100000, positive := by decide, pages := by decide }

theorem plainKernel_place :
    plainKernel.place plainProcess.space 0 0x200000 = some 0x7F0000001000 := by
  have fits : Fits plainProcess.space 0x200000 0x7F0000001000 :=
    ⟨by decide, by decide, by decide, by decide, fun _ _ => rfl⟩
  have null : ¬ Fits plainProcess.space 0x200000 0 := fun other => absurd other.2.1 (by decide)
  simp [plainKernel, plainPlace, fits, null]

theorem allocate_never_arena :
    ¬ ∃ p after, plainAllocator.allocate plainKernel plainProcess 0x100000 = some (p, after) ∧
      Promised plainAllocator 0x100000 0x7F0000001000 p after :=
  allocate_never plainAllocator plainKernel plainProcess 0x100000 0x7F0000001000 (by decide)
    (by decide) plainKernel_place

/-- A usual place for a reservation: the allocation throws. -/
theorem allocate_fails :
    plainKernel.place plainProcess.space 0 0x200000 = some 0x7F0000001000 ∧
      plainAllocator.allocate plainKernel plainProcess 0x100000 = none ∧
      ¬ ∃ p after, plainAllocator.allocate plainKernel plainProcess 0x100000 = some (p, after) ∧
        Promised plainAllocator 0x100000 0x7F0000001000 p after := by
  have throws : plainAllocator.allocate plainKernel plainProcess 0x100000 = none :=
    allocate_throws (by decide) (by decide) plainKernel_place
  refine ⟨plainKernel_place, throws, ?_⟩
  rw [throws]
  rintro ⟨_, _, returned, _⟩
  cases returned

end AlignedAllocator

end Muddymask
