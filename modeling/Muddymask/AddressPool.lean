import Mathlib.Data.Set.Insert
import Muddymask.Words

/-!
`AddressPool` of `TunnelServer.hpp` with `allocateAddress` and `releaseAddress`.
`current` and `upper` are in host order, the stack and every address that is
handed out are in network order. Each function is one critical section of
`pool.mutex`. `Serves` states what the pool is for: together with the addresses
that are held, the stack splits the addresses issued so far.
-/

namespace Muddymask

open Words

structure AddressPool where
  upper : UInt32
  current : UInt32
  /-- `std::stack`, the top first. -/
  free : List UInt32
  deriving DecidableEq, Repr

namespace AddressPool

def allocateAddress (order : ByteOrder) (pool : AddressPool) : UInt32 × AddressPool :=
  if pool.current < pool.upper then
    (htonl order pool.current, { pool with current := pool.current + 1 })
  else match pool.free with
    | top :: rest => (top, { pool with free := rest })
    | [] => (0, pool)

def releaseAddress (address : UInt32) (pool : AddressPool) : AddressPool :=
  { pool with free := address :: pool.free }

/-- An address of the range that has been handed out at least once. -/
def Issued (order : ByteOrder) (lower : UInt32) (pool : AddressPool) (address : UInt32) : Prop :=
  ∃ host, lower ≤ host ∧ host < pool.current ∧ address = htonl order host

/-- Each issued address is either on the stack, once, or held. -/
structure Serves (order : ByteOrder) (lower : UInt32) (pool : AddressPool)
    (held : Set UInt32) : Prop where
  positive : 0 < lower
  above : lower ≤ pool.current
  below : pool.current ≤ pool.upper
  freeNodup : pool.free.Nodup
  freeIssued : ∀ address ∈ pool.free, Issued order lower pool address
  heldIssued : ∀ address ∈ held, Issued order lower pool address
  disjoint : ∀ address ∈ pool.free, address ∉ held
  complete : ∀ address, Issued order lower pool address → address ∈ pool.free ∨ address ∈ held

theorem issued_ne_zero {order : ByteOrder} {lower : UInt32} {pool : AddressPool} {address : UInt32}
    (positive : 0 < lower) (issued : Issued order lower pool address) : address ≠ 0 := by
  rcases issued with ⟨host, above, _, rfl⟩
  intro zero
  have none := htonl_eq_zero order host zero
  subst host
  exact absurd positive (UInt32.not_lt.mpr above)

theorem succ_of_lt {current upper : UInt32} (room : current < upper) (host : UInt32) :
    host < current + 1 ↔ host < current ∨ host = current := by
  have bound := upper.toNat_lt
  rw [UInt32.lt_iff_toNat_lt] at room
  have next : (current + 1).toNat = current.toNat + 1 := by
    rw [UInt32.toNat_add]
    exact Nat.mod_eq_of_lt (by simp; omega)
  simp only [UInt32.lt_iff_toNat_lt, next, ← UInt32.toNat_inj]
  omega

theorem succ_le_of_lt {current upper : UInt32} (room : current < upper) : current + 1 ≤ upper := by
  apply UInt32.not_lt.mp
  intro below
  rcases (succ_of_lt room upper).mp below with less | same
  · exact absurd (UInt32.lt_trans room less) (UInt32.lt_irrefl _)
  · exact absurd (same ▸ room) (UInt32.lt_irrefl _)

/-- What one allocation can do: issue the next address, reuse the last released
one, or fail on a pool without addresses. -/
theorem allocate_cases (order : ByteOrder) (pool : AddressPool) :
    (pool.current < pool.upper ∧ allocateAddress order pool =
      (htonl order pool.current, { pool with current := pool.current + 1 })) ∨
    (¬ pool.current < pool.upper ∧ ∃ top rest, pool.free = top :: rest ∧
      allocateAddress order pool = (top, { pool with free := rest })) ∨
    (¬ pool.current < pool.upper ∧ pool.free = [] ∧ allocateAddress order pool = (0, pool)) := by
  by_cases room : pool.current < pool.upper
  · exact Or.inl ⟨room, by simp [allocateAddress, room]⟩
  · cases stack : pool.free with
    | nil => exact Or.inr (Or.inr ⟨room, rfl, by simp [allocateAddress, room, stack]⟩)
    | cons top rest =>
        exact Or.inr (Or.inl ⟨room, top, rest, rfl, by simp [allocateAddress, room, stack]⟩)

theorem issued_next (order : ByteOrder) {lower : UInt32} {pool : AddressPool}
    (above : lower ≤ pool.current) (room : pool.current < pool.upper) (address : UInt32) :
    Issued order lower { pool with current := pool.current + 1 } address ↔
      Issued order lower pool address ∨ address = htonl order pool.current := by
  constructor
  · rintro ⟨host, low, high, rfl⟩
    rcases (succ_of_lt room host).mp high with less | same
    · exact Or.inl ⟨host, low, less, rfl⟩
    · exact Or.inr (same ▸ rfl)
  · rintro (⟨host, low, high, rfl⟩ | rfl)
    · exact ⟨host, low, (succ_of_lt room host).mpr (Or.inl high), rfl⟩
    · exact ⟨pool.current, above, (succ_of_lt room pool.current).mpr (Or.inr rfl), rfl⟩

theorem current_not_issued {order : ByteOrder} {lower : UInt32} {pool : AddressPool} :
    ¬ Issued order lower pool (htonl order pool.current) := by
  rintro ⟨host, _, high, same⟩
  exact absurd ((htonl_injective order same) ▸ high) (UInt32.lt_irrefl _)

/-- The counter issues an address that nobody can have had before. -/
theorem serves_issue {order : ByteOrder} {lower : UInt32} {pool : AddressPool}
    {held : Set UInt32} (serves : Serves order lower pool held) (room : pool.current < pool.upper) :
    htonl order pool.current ∉ held ∧
      Serves order lower { pool with current := pool.current + 1 }
        (insert (htonl order pool.current) held) := by
  have issued := issued_next order serves.above room
  refine ⟨fun member => current_not_issued (serves.heldIssued _ member), ?_⟩
  exact {
    positive := serves.positive
    above := UInt32.le_of_lt ((succ_of_lt room lower).mpr (UInt32.lt_or_eq_of_le serves.above))
    below := succ_le_of_lt room
    freeNodup := serves.freeNodup
    freeIssued := fun address member =>
      (issued address).mpr (Or.inl (serves.freeIssued address member))
    heldIssued := by
      rintro address (rfl | member)
      · exact (issued _).mpr (Or.inr rfl)
      · exact (issued address).mpr (Or.inl (serves.heldIssued address member))
    disjoint := by
      rintro address member (rfl | clash)
      · exact current_not_issued (serves.freeIssued _ member)
      · exact serves.disjoint address member clash
    complete := by
      intro address found
      rcases (issued address).mp found with old | rfl
      · rcases serves.complete address old with free | held
        · exact Or.inl free
        · exact Or.inr (Or.inr held)
      · exact Or.inr (Or.inl rfl) }

/-- The stack gives back an address that was issued earlier. -/
theorem serves_reuse {order : ByteOrder} {lower : UInt32} {pool : AddressPool}
    {held : Set UInt32} (serves : Serves order lower pool held) {top : UInt32} {rest : List UInt32}
    (stack : pool.free = top :: rest) :
    top ∉ held ∧ Serves order lower { pool with free := rest } (insert top held) := by
  have onTop : top ∈ pool.free := by simp [stack]
  have inRest : ∀ address ∈ rest, address ∈ pool.free := by
    intro address member
    simp [stack, member]
  have nodup := serves.freeNodup
  rw [stack, List.nodup_cons] at nodup
  refine ⟨serves.disjoint top onTop, ?_⟩
  exact {
    positive := serves.positive
    above := serves.above
    below := serves.below
    freeNodup := nodup.2
    freeIssued := fun address member => serves.freeIssued address (inRest address member)
    heldIssued := by
      rintro address (rfl | member)
      · exact serves.freeIssued _ onTop
      · exact serves.heldIssued address member
    disjoint := by
      rintro address member (rfl | clash)
      · exact nodup.1 member
      · exact serves.disjoint address (inRest address member) clash
    complete := by
      intro address found
      rcases serves.complete address found with free | held
      · rw [stack] at free
        rcases List.mem_cons.mp free with rfl | later
        · exact Or.inr (Or.inl rfl)
        · exact Or.inl later
      · exact Or.inr (Or.inr held) }

theorem serves_allocate {order : ByteOrder} {lower : UInt32} {pool : AddressPool}
    {held : Set UInt32} (serves : Serves order lower pool held)
    (allocated : (allocateAddress order pool).1 ≠ 0) :
    (allocateAddress order pool).1 ∉ held ∧
      Serves order lower (allocateAddress order pool).2
        (insert (allocateAddress order pool).1 held) := by
  rcases allocate_cases order pool with ⟨room, result⟩ | ⟨_, top, rest, stack, result⟩ |
    ⟨_, _, result⟩
  · rw [result]
    exact serves_issue serves room
  · rw [result]
    exact serves_reuse serves stack
  · simp [result] at allocated

theorem allocate_upper (order : ByteOrder) (pool : AddressPool) :
    (allocateAddress order pool).2.upper = pool.upper := by
  rcases allocate_cases order pool with ⟨_, result⟩ | ⟨_, _, _, _, result⟩ | ⟨_, _, result⟩ <;>
    rw [result]

theorem allocate_failed {order : ByteOrder} {lower : UInt32} {pool : AddressPool}
    {held : Set UInt32} (serves : Serves order lower pool held)
    (failed : (allocateAddress order pool).1 = 0) : (allocateAddress order pool).2 = pool := by
  rcases allocate_cases order pool with ⟨room, result⟩ | ⟨full, top, rest, stack, result⟩ |
    ⟨_, _, result⟩
  · rw [result] at failed
    -- Zero stands for failure only because no address of the range is zero.
    have zero := htonl_eq_zero order _ failed
    have above := serves.above
    rw [zero] at above
    exact absurd serves.positive (UInt32.not_lt.mpr above)
  · rw [result] at failed
    subst failed
    exact absurd rfl (issued_ne_zero serves.positive
      (serves.freeIssued 0 (by simp [stack])))
  · simp [result]

theorem serves_release {order : ByteOrder} {lower : UInt32} {pool : AddressPool}
    {held : Set UInt32} (serves : Serves order lower pool held) (address : UInt32)
    (member : address ∈ held) :
    Serves order lower (releaseAddress address pool) (held \ {address}) where
  positive := serves.positive
  above := serves.above
  below := serves.below
  freeNodup := List.nodup_cons.mpr ⟨fun free => serves.disjoint address free member, serves.freeNodup⟩
  freeIssued := by
    intro other free
    rcases List.mem_cons.mp free with rfl | later
    · exact serves.heldIssued _ member
    · exact serves.freeIssued other later
  heldIssued := fun other kept => serves.heldIssued other kept.1
  disjoint := by
    intro other free kept
    rcases List.mem_cons.mp free with rfl | later
    · exact kept.2 rfl
    · exact serves.disjoint other later kept.1
  complete := by
    intro other issued
    by_cases same : other = address
    · exact Or.inl (List.mem_cons.mpr (Or.inl same))
    · rcases serves.complete other issued with free | held
      · exact Or.inl (List.mem_cons_of_mem address free)
      · exact Or.inr ⟨held, same⟩

/-! How many addresses the pool can hand out, and how many it has handed out. -/

def available (pool : AddressPool) : Nat :=
  (pool.upper.toNat - pool.current.toNat) + pool.free.length

def taken (lower : UInt32) (pool : AddressPool) : Int :=
  pool.current.toNat - lower.toNat - pool.free.length

theorem allocate_exhausted (order : ByteOrder) {pool : AddressPool} (none : pool.available = 0) :
    allocateAddress order pool = (0, pool) := by
  obtain ⟨full, stack⟩ := Nat.add_eq_zero_iff.mp none
  have bound : ¬ pool.current < pool.upper := by
    rw [UInt32.lt_iff_toNat_lt]
    omega
  simp [allocateAddress, bound, List.length_eq_zero_iff.mp stack]

theorem allocate_available {order : ByteOrder} {lower : UInt32} {pool : AddressPool}
    {held : Set UInt32} (serves : Serves order lower pool held) (some : pool.available ≠ 0) :
    (allocateAddress order pool).1 ≠ 0 ∧
      (allocateAddress order pool).2.available + 1 = pool.available ∧
      (allocateAddress order pool).2.taken lower = pool.taken lower + 1 := by
  rcases allocate_cases order pool with ⟨room, result⟩ | ⟨full, top, rest, stack, result⟩ |
    ⟨full, stack, result⟩
  · have next : (pool.current + 1).toNat = pool.current.toNat + 1 := by
      have bound := pool.upper.toNat_lt
      rw [UInt32.lt_iff_toNat_lt] at room
      rw [UInt32.toNat_add]
      exact Nat.mod_eq_of_lt (by simp; omega)
    have issued : Issued order lower { pool with current := pool.current + 1 }
        (htonl order pool.current) :=
      (issued_next order serves.above room _).mpr (Or.inr rfl)
    rw [UInt32.lt_iff_toNat_lt] at room
    rw [result]
    refine ⟨issued_ne_zero serves.positive issued, ?_, ?_⟩ <;>
      simp only [available, taken, next] <;> omega
  · rw [result]
    refine ⟨issued_ne_zero serves.positive (serves.freeIssued top (by simp [stack])), ?_, ?_⟩ <;>
      simp only [available, taken, stack, List.length_cons] <;> omega
  · rw [UInt32.lt_iff_toNat_lt] at full
    simp only [available, stack, List.length_nil] at some
    omega

end AddressPool

end Muddymask
