import Muddymask.HashTable
import Muddymask.Memory
import Muddymask.Packet

/-!
`std::hash<MacAddress>` in `TunnelServer.hpp` and the lookups of `dict.mac`. A key
comes from a frame or from a `StartSession`, whose two last bytes are different
things: the source of the frame begins there, and nobody sets them in the other.
-/

namespace Muddymask

open Words

/-- `sizeof(size_t)`. For other widths the hash throws. -/
inductive SizeT where
  | four
  | eight
  deriving DecidableEq, Repr

namespace MacAddress

def hash (width : SizeT) (order : ByteOrder) (key : MacAddress) : Nat :=
  match width with
  | .four =>
      let a1 := load32 order (key.addr.getD 0 0) (key.addr.getD 1 0) (key.addr.getD 2 0)
        (key.addr.getD 3 0)
      let a2 := load16 order (key.addr.getD 4 0) (key.addr.getD 5 0)
      (a1 + a2.toUInt32).toNat
  | .eight => (Memory.ofBytes order (key.addr ++ [0, 0])).toNat

section
variable {width : SizeT} {order : ByteOrder} {left right : MacAddress}

theorem hash_congr (same : left.addr = right.addr) :
    left.hash width order = right.hash width order := by
  cases width with
  | four => rw [hash, hash, same]
  | eight => rw [hash, hash, same]

theorem hash_alike (same : (left == right) = true) :
    left.hash width order = right.hash width order :=
  hash_congr ((beq_iff left right).mp same)

/-- Eight bytes of hash have room for the six of the address. -/
theorem hash_injective (same : left.hash .eight order = right.hash .eight order) :
    left.addr = right.addr := by
  have whole : ∀ key : MacAddress, (key.addr ++ [0, 0]).length = kPointerSize := by
    intro key
    rw [List.length_append, key.sixBytes]
    rfl
  have words := congrArg (Memory.bytes order) (UInt64.toNat_inj.mp same)
  rw [Memory.bytes_ofBytes order (whole left), Memory.bytes_ofBytes order (whole right)] at words
  exact List.append_cancel_right words

theorem beq_congr {first second : MacAddress} (same : left.addr = first.addr)
    (others : right.addr = second.addr) : (left == right) = (first == second) := by
  change (left.addr == right.addr) = (first.addr == second.addr)
  rw [same, others]

end

theorem beq_equivalence : Equivalence fun left right : MacAddress => (left == right) = true where
  refl _ := BEq.rfl
  symm := BEq.symm
  trans := BEq.trans

section Tables
variable {Value : Type} (width : SizeT) (order : ByteOrder)

/-- The buckets of `dict.mac` cannot be seen, so the server's model does without them. -/
theorem find_buckets (count : Nat) (positive : 0 < count)
    (changes : List (HashTable.Change MacAddress Value)) (wanted : MacAddress) :
    (HashTable.build (hash width order) count positive changes).find (hash width order) wanted =
      (changes.foldl HashTable.Change.apply .empty).find wanted :=
  HashTable.find_build (fun _ _ => hash_alike) count positive changes wanted

end Tables

/-- Where a frame goes depends on the six bytes of its destination, and neither on what
is behind them nor on what was behind the six bytes of a client. -/
structure AddressOnly (width : SizeT) (order : ByteOrder) : Prop where
  alike : ∀ left right : MacAddress, (left == right) = true →
    left.hash width order = right.hash width order
  hashed : ∀ left right : MacAddress, left.addr = right.addr →
    left.hash width order = right.hash width order
  compared : ∀ left right first second : MacAddress, left.addr = first.addr →
    right.addr = second.addr → (left == right) = (first == second)
  equivalence : Equivalence fun left right : MacAddress => (left == right) = true
  injective : width = .eight → ∀ left right : MacAddress, (left != right) = true →
    left.hash width order ≠ right.hash width order
  routed : ∀ (Value : Type) (count : Nat) (positive : 0 < count)
    (changes : List (HashTable.Change MacAddress Value)) (frame other : Bytes)
    (header another : EthernetHeader), EthernetHeader.read order frame = some header →
    EthernetHeader.read order other = some another → frame.take 6 = other.take 6 →
    (HashTable.build (hash width order) count positive changes).find (hash width order)
        header.dst =
      (HashTable.build (hash width order) count positive changes).find (hash width order)
        another.dst
  /-- Nor on the padding of the keys that were inserted or erased. -/
  rebuilt : ∀ (Value : Type) (count others : Nat) (positive : 0 < count) (high : 0 < others)
    (changes again : List (HashTable.Change MacAddress Value)),
    List.Forall₂ HashTable.Change.Alike changes again → ∀ wanted : MacAddress,
    (HashTable.build (hash width order) count positive changes).find (hash width order) wanted =
      (HashTable.build (hash width order) others high again).find (hash width order) wanted

theorem address_only (width : SizeT) (order : ByteOrder) : AddressOnly width order where
  alike _ _ := hash_alike
  hashed _ _ := hash_congr
  compared _ _ _ _ := beq_congr
  equivalence := beq_equivalence
  injective := by
    rintro rfl left right different same
    have equal := (beq_iff left right).mpr (hash_injective same)
    rw [bne, equal] at different
    cases different
  routed := by
    intro Value count positive changes frame other header another parsed reparsed same
    apply HashTable.find_congr fun _ _ => hash_alike
    rw [beq_iff, EthernetHeader.dst_addr parsed, EthernetHeader.dst_addr reparsed, same]
  rebuilt := by
    intro Value count others positive high changes again built wanted
    exact HashTable.find_build_alike (fun _ _ => hash_alike) built BEq.rfl count others positive
      high

end MacAddress

end Muddymask
