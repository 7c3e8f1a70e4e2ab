import Mathlib.Data.Finset.Card
import Mathlib.Data.Finset.Image
import Mathlib.Order.Interval.Finset.Nat
import Muddymask.AddressPool
import Muddymask.Simulation

/-!
The address pool under any sequence of calls, together with the addresses that are
out. What it does is what a set of free addresses does, from which any one is taken:
a call fails if and only if the set is empty.
-/

namespace Muddymask

open Words AddressPool Simulation

/-- The free addresses, with what a call answers. -/
inductive Answer where
  | allocated (address : UInt32)
  | exhausted
  | released (address : UInt32)
  deriving DecidableEq

inductive Serve : Set UInt32 → Answer → Set UInt32 → Prop where
  | allocated {free : Set UInt32} {address : UInt32} (member : address ∈ free) :
      Serve free (.allocated address) (free \ {address})
  | exhausted : Serve ∅ .exhausted ∅
  | released {free : Set UInt32} {address : UInt32} (out : address ∉ free) :
      Serve free (.released address) (insert address free)

/-- A pool and the addresses that it gave out and did not get back. -/
structure Allocation where
  pool : AddressPool
  outstanding : Finset UInt32

namespace Allocation

inductive Call where
  | allocateAddress
  | releaseAddress (address : UInt32)

/-- A call; only an address that is out is given back. -/
def call (order : ByteOrder) (state : Allocation) : Call → Option Allocation
  | .allocateAddress =>
      let result := allocateAddress order state.pool
      some {
        pool := result.2
        outstanding :=
          if result.1 = 0 then state.outstanding else insert result.1 state.outstanding }
  | .releaseAddress address =>
      if address ∈ state.outstanding then
        some {
          pool := releaseAddress address state.pool
          outstanding := state.outstanding.erase address }
      else none

def answer (order : ByteOrder) (state : Allocation) : Call → List Answer
  | .allocateAddress =>
      let address := (allocateAddress order state.pool).1
      if address = 0 then [.exhausted] else [.allocated address]
  | .releaseAddress address => [.released address]

def start (lower upper : UInt32) : Allocation where
  pool := { upper, current := lower, free := [] }
  outstanding := ∅

def range (order : ByteOrder) (lower upper : UInt32) : Set UInt32 :=
  { address | ∃ host, lower ≤ host ∧ host < upper ∧ address = htonl order host }

/-- The pool serves its range, and the set has what is not out. -/
structure Related (order : ByteOrder) (lower upper : UInt32) (state : Allocation)
    (free : Set UInt32) : Prop where
  serves : Serves order lower state.pool state.outstanding
  bound : state.pool.upper = upper
  free : free = range order lower upper \ state.outstanding

section
variable {order : ByteOrder} {lower upper : UInt32} {state : Allocation} {free : Set UInt32}

theorem start_related (order : ByteOrder) (positive : 0 < lower) (ordered : lower ≤ upper) :
    Related order lower upper (start lower upper) (range order lower upper) where
  serves := {
    positive := positive
    above := UInt32.le_refl lower
    below := ordered
    freeNodup := List.nodup_nil
    freeIssued := by simp [start]
    heldIssued := by simp [start]
    disjoint := by simp [start]
    complete := by
      rintro address ⟨host, above, below, _⟩
      exact absurd above (UInt32.not_le.mpr below) }
  bound := rfl
  free := by simp [start]

namespace Related
variable (related : Related order lower upper state free)
include related

theorem issued_range {address : UInt32} (issued : Issued order lower state.pool address) :
    address ∈ range order lower upper := by
  obtain ⟨host, above, below, rfl⟩ := issued
  have inside : state.pool.current ≤ upper := related.bound ▸ related.serves.below
  exact ⟨host, above, UInt32.lt_of_lt_of_le below inside, rfl⟩

theorem out_range {address : UInt32} (out : address ∈ state.outstanding) :
    address ∈ range order lower upper :=
  related.issued_range (related.serves.heldIssued address out)

theorem allocates (given : (allocateAddress order state.pool).1 ≠ 0) :
    (allocateAddress order state.pool).1 ∈ free ∧
      Related order lower upper
        { pool := (allocateAddress order state.pool).2
          outstanding := insert (allocateAddress order state.pool).1 state.outstanding }
        (free \ {(allocateAddress order state.pool).1}) := by
  obtain ⟨fresh, serves⟩ := serves_allocate related.serves given
  have after : Related order lower upper
      { pool := (allocateAddress order state.pool).2
        outstanding := insert (allocateAddress order state.pool).1 state.outstanding }
      (free \ {(allocateAddress order state.pool).1}) := {
    serves := by
      rw [Finset.coe_insert]
      exact serves
    bound := (allocate_upper order state.pool).trans related.bound
    free := by
      rw [related.free, Finset.coe_insert, Set.sdiff_sdiff, Set.union_singleton] }
  refine ⟨?_, after⟩
  rw [related.free]
  exact ⟨after.out_range (Finset.mem_insert_self ..), fresh⟩

theorem fails_iff : (allocateAddress order state.pool).1 = 0 ↔ free = ∅ := by
  constructor
  · intro failed
    have none : state.pool.available = 0 := by
      by_contra some
      exact (allocate_available related.serves some).1 failed
    obtain ⟨full, stack⟩ := Nat.add_eq_zero_iff.mp none
    rw [related.free, Set.sdiff_eq_empty]
    rintro address ⟨host, above, below, rfl⟩
    have issued : Issued order lower state.pool (htonl order host) := by
      refine ⟨host, above, ?_, rfl⟩
      rw [← related.bound, UInt32.lt_iff_toNat_lt] at below
      rw [UInt32.lt_iff_toNat_lt]
      omega
    refine (related.serves.complete _ issued).resolve_left fun onStack => ?_
    rw [List.length_eq_zero_iff.mp stack] at onStack
    cases onStack
  · intro empty
    by_contra given
    have member := (related.allocates given).1
    rw [empty] at member
    exact member

theorem releases {address : UInt32} (out : address ∈ state.outstanding) :
    address ∉ free ∧
      Related order lower upper
        { pool := releaseAddress address state.pool
          outstanding := state.outstanding.erase address }
        (insert address free) := by
  refine ⟨fun member => ?_, ?_, related.bound, ?_⟩
  · rw [related.free] at member
    exact member.2 out
  · rw [Finset.coe_erase]
    exact serves_release related.serves address out
  · rw [related.free, Finset.coe_erase]
    ext other
    by_cases same : other = address
    · simp [same, related.out_range out]
    · simp [same]

end Related

theorem call_simulates :
    Simulates (call order) (answer order) Serve (Related order lower upper) := by
  intro state event after free related taken
  cases event with
  | allocateAddress =>
      cases taken
      by_cases failed : (allocateAddress order state.pool).1 = 0
      · have empty := related.fails_iff.mp failed
        subst empty
        refine ⟨∅, ?_, ?_⟩
        · rw [answer, if_pos failed]
          exact .one .exhausted
        · rw [if_pos failed, allocate_failed related.serves failed]
          exact related
      · obtain ⟨member, later⟩ := related.allocates failed
        refine ⟨free \ {(allocateAddress order state.pool).1}, ?_, ?_⟩
        · rw [answer, if_neg failed]
          exact .one (.allocated member)
        · rw [if_neg failed]
          exact later
  | releaseAddress address =>
      rw [call, Option.ite_none_right_eq_some] at taken
      obtain ⟨out, same⟩ := taken
      cases same
      obtain ⟨absent, later⟩ := related.releases out
      exact ⟨_, .one (.released absent), later⟩

/-- As a finite set, the range has one address for each number. -/
theorem range_finset (order : ByteOrder) (lower upper : UInt32) :
    ∃ all : Finset UInt32, (∀ address, address ∈ all ↔ address ∈ range order lower upper) ∧
      all.card = upper.toNat - lower.toNat := by
  refine ⟨(Finset.Ico lower.toNat upper.toNat).image fun host => htonl order (UInt32.ofNat host),
    fun address => ?_, ?_⟩
  · rw [Finset.mem_image]
    constructor
    · rintro ⟨host, inside, rfl⟩
      obtain ⟨above, below⟩ := Finset.mem_Ico.mp inside
      have small : (UInt32.ofNat host).toNat = host :=
        UInt32.toNat_ofNat_of_lt' (Nat.lt_trans below upper.toNat_lt)
      refine ⟨UInt32.ofNat host, ?_, ?_, rfl⟩
      · rwa [UInt32.le_iff_toNat_le, small]
      · rwa [UInt32.lt_iff_toNat_lt, small]
    · rintro ⟨host, above, below, rfl⟩
      refine ⟨host.toNat, Finset.mem_Ico.mpr ⟨?_, ?_⟩, by rw [UInt32.ofNat_toNat]⟩
      · exact UInt32.le_iff_toNat_le.mp above
      · exact UInt32.lt_iff_toNat_lt.mp below
  · rw [Finset.card_image_of_injOn, Nat.card_Ico]
    intro left leftInside right rightInside same
    have leftSmall := Nat.lt_trans (Finset.mem_Ico.mp leftInside).2 upper.toNat_lt
    have rightSmall := Nat.lt_trans (Finset.mem_Ico.mp rightInside).2 upper.toNat_lt
    have numbers := congrArg UInt32.toNat (htonl_injective order same)
    rwa [UInt32.toNat_ofNat_of_lt' leftSmall, UInt32.toNat_ofNat_of_lt' rightSmall] at numbers

/-- What the next call answers. -/
structure Exact (order : ByteOrder) (lower upper : UInt32) (state : Allocation) : Prop where
  fails : (allocateAddress order state.pool).1 = 0 ↔
    ∀ host, lower ≤ host → host < upper → htonl order host ∈ state.outstanding
  counted : (allocateAddress order state.pool).1 = 0 ↔
    state.outstanding.card = upper.toNat - lower.toNat
  gives : (allocateAddress order state.pool).1 ≠ 0 → ∃ host, lower ≤ host ∧ host < upper ∧
    (allocateAddress order state.pool).1 = htonl order host ∧ htonl order host ∉ state.outstanding
  below : state.pool.current ≤ upper

theorem Related.exact (related : Related order lower upper state free) :
    Exact order lower upper state := by
  have empty : free = ∅ ↔ range order lower upper ⊆ state.outstanding := by
    rw [related.free, Set.sdiff_eq_empty]
  obtain ⟨all, members, size⟩ := range_finset order lower upper
  have inside : state.outstanding ⊆ all := fun address out =>
    (members address).mpr (related.out_range out)
  constructor
  · rw [related.fails_iff, empty]
    constructor
    · intro out host above below
      exact out ⟨host, above, below, rfl⟩
    · rintro out address ⟨host, above, below, rfl⟩
      exact out host above below
  · rw [related.fails_iff, empty, ← size]
    constructor
    · intro out
      refine congrArg Finset.card (Finset.Subset.antisymm inside fun address member => ?_)
      exact out ((members address).mp member)
    · intro full address member
      rw [Finset.eq_of_subset_of_card_le inside (Nat.le_of_eq full.symm)]
      exact (members address).mpr member
  · intro given
    obtain ⟨member, _⟩ := related.allocates given
    rw [related.free] at member
    obtain ⟨⟨host, above, below, same⟩, fresh⟩ := member
    exact ⟨host, above, below, same, same ▸ fresh⟩
  · exact related.bound ▸ related.serves.below

/-- Whatever is called, the answers are those of the set of the free addresses. -/
theorem pool_refines (order : ByteOrder) (lower upper : UInt32) (positive : 0 < lower)
    (ordered : lower ≤ upper) (calls : List Call) (state : Allocation)
    (past : Runs.run (call order) (start lower upper) calls = some state) :
    Trace Serve (range order lower upper)
        (emitted (call order) (answer order) (start lower upper) calls)
        (range order lower upper \ state.outstanding) ∧
      Exact order lower upper state := by
  obtain ⟨free, trace, related⟩ := call_simulates.run (start_related order positive ordered) past
  exact ⟨related.free ▸ trace, related.exact⟩

end

/-- Two addresses, and the first one given back and handed out again. -/
def reuse : List Call :=
  [.allocateAddress, .allocateAddress, .releaseAddress (htonl .little 100), .allocateAddress]

theorem pool_refines_reuse : ∃ state,
    Runs.run (call .little) (start 100 102) reuse = some state ∧
      Trace Serve (range .little 100 102)
        (emitted (call .little) (answer .little) (start 100 102) reuse)
        (range .little 100 102 \ state.outstanding) ∧
      Exact .little 100 102 state :=
  ⟨_, rfl, pool_refines .little 100 102 (by decide) (by decide) reuse _ rfl⟩

end Allocation

end Muddymask
