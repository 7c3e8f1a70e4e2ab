import Mathlib.Data.List.Pairwise

/-!
A hash map up to its observable behaviour: distinct keys under a user equality
`==`, an iteration order that promises nothing, an insertion that keeps the old
value of a present key, and an erasure by key. Hashing itself is not modelled;
it is invisible as long as equal keys hash alike.
-/

namespace Muddymask

structure UnorderedMap (Key Value : Type) [BEq Key] where
  entries : List (Key × Value)
  distinct : entries.Pairwise fun left right => (left.1 == right.1) = false

namespace UnorderedMap

variable {Key Value : Type} [BEq Key]

def empty : UnorderedMap Key Value := ⟨[], List.Pairwise.nil⟩

def find (map : UnorderedMap Key Value) (key : Key) : Option Value :=
  (map.entries.find? fun entry => entry.1 == key).map Prod.snd

def size (map : UnorderedMap Key Value) : Nat := map.entries.length

theorem find_eq_none_iff (map : UnorderedMap Key Value) (key : Key) :
    map.find key = none ↔ ∀ entry ∈ map.entries, (entry.1 == key) = false := by
  simp [find]

def erase (map : UnorderedMap Key Value) (key : Key) : UnorderedMap Key Value :=
  ⟨map.entries.filter fun entry => !(entry.1 == key), map.distinct.filter _⟩

theorem mem_erase (map : UnorderedMap Key Value) (key : Key) (entry : Key × Value) :
    entry ∈ (map.erase key).entries ↔ entry ∈ map.entries ∧ (entry.1 == key) = false := by
  simp [erase]

section Operations
variable [EquivBEq Key]

/-- A present key keeps its value: the new one is silently dropped. -/
def insert (map : UnorderedMap Key Value) (key : Key) (value : Value) : UnorderedMap Key Value :=
  if absent : map.find key = none then
    ⟨(key, value) :: map.entries, List.pairwise_cons.mpr
      ⟨fun entry member => by
        rw [BEq.comm]
        exact (find_eq_none_iff map key).mp absent entry member, map.distinct⟩⟩
  else map

theorem entries_insert (map : UnorderedMap Key Value) (key : Key) (value : Value)
    (absent : map.find key = none) :
    (map.insert key value).entries = (key, value) :: map.entries := by
  simp [insert, absent]

theorem insert_present (map : UnorderedMap Key Value) (key : Key) (value old : Value)
    (present : map.find key = some old) : map.insert key value = map := by
  simp [insert, present]

theorem mem_insert (map : UnorderedMap Key Value) (key : Key) (value : Value)
    (entry : Key × Value) :
    entry ∈ (map.insert key value).entries ↔
      entry ∈ map.entries ∨ (map.find key = none ∧ entry = (key, value)) := by
  by_cases absent : map.find key = none
  · simp [insert, absent, or_comm]
  · simp [insert, absent]

theorem find_eq_some_iff (map : UnorderedMap Key Value) (key : Key) (value : Value) :
    map.find key = some value ↔ ∃ stored, (stored, value) ∈ map.entries ∧ stored == key := by
  obtain ⟨entries, distinct⟩ := map
  simp only [find]
  induction entries with
  | nil => simp
  | cons entry rest ih =>
      obtain ⟨apart, restDistinct⟩ := List.pairwise_cons.mp distinct
      by_cases hit : entry.1 == key
      · simp only [List.find?_cons, hit, Option.map_some, Option.some.injEq, List.mem_cons]
        constructor
        · rintro rfl
          exact ⟨entry.1, Or.inl rfl, hit⟩
        · rintro ⟨stored, same | later, found⟩
          · exact congrArg Prod.snd same.symm
          · have clash := BEq.trans hit (BEq.symm found)
            simp [apart (stored, value) later] at clash
      · have skip : (entry.1 == key) = false := by simpa using hit
        simp only [List.find?_cons, skip, ih restDistinct, List.mem_cons]
        constructor
        · rintro ⟨stored, later, found⟩
          exact ⟨stored, Or.inr later, found⟩
        · rintro ⟨stored, same | later, found⟩
          · simp [← same, found] at skip
          · exact ⟨stored, later, found⟩

theorem find_congr (map : UnorderedMap Key Value) (left right : Key) (same : left == right) :
    map.find left = map.find right := by
  apply Option.ext
  intro value
  simp only [find_eq_some_iff]
  exact exists_congr fun stored => and_congr_right fun _ =>
    ⟨fun hit => BEq.trans hit same, fun hit => BEq.trans hit (BEq.symm same)⟩

theorem find_insert (map : UnorderedMap Key Value) (key wanted : Key) (value : Value) :
    (map.insert key value).find wanted =
      (map.find wanted).or (if key == wanted then some value else none) := by
  by_cases absent : map.find key = none
  · by_cases hit : key == wanted
    · have gone : map.find wanted = none := by rw [← find_congr map key wanted hit, absent]
      rw [gone, find, entries_insert map key value absent]
      simp [hit]
    · have skip : (key == wanted) = false := by simpa using hit
      rw [find, entries_insert map key value absent]
      simp [find, skip]
  · obtain ⟨old, present⟩ := Option.ne_none_iff_exists'.mp absent
    rw [insert_present map key value old present]
    by_cases hit : key == wanted
    · simp [← find_congr map key wanted hit, present]
    · simp [hit]

theorem find_erase (map : UnorderedMap Key Value) (key wanted : Key) :
    (map.erase key).find wanted = if wanted == key then none else map.find wanted := by
  by_cases hit : wanted == key
  · simp only [hit, ↓reduceIte, find_eq_none_iff, mem_erase]
    rintro entry ⟨_, apart⟩
    cases found : entry.1 == wanted with
    | false => rfl
    | true => simp [BEq.trans found hit] at apart
  · simp only [hit, Bool.false_eq_true, ↓reduceIte]
    apply Option.ext
    intro value
    simp only [find_eq_some_iff, mem_erase]
    constructor
    · rintro ⟨stored, ⟨member, _⟩, found⟩
      exact ⟨stored, member, found⟩
    · rintro ⟨stored, member, found⟩
      refine ⟨stored, ⟨member, ?_⟩, found⟩
      cases clash : stored == key with
      | false => rfl
      | true => exact absurd (BEq.trans (BEq.symm found) clash) hit

end Operations

/-- Values that know their keys are as distinct as these. -/
theorem values_nodup [ReflBEq Key] (map : UnorderedMap Key Value) (keyOf : Value → Key)
    (known : ∀ key value, (key, value) ∈ map.entries → keyOf value = key) :
    (map.entries.map Prod.snd).Nodup := by
  rw [List.Nodup, List.pairwise_map]
  refine map.distinct.imp_of_mem fun {left right} first second apart same => ?_
  rw [← known left.1 left.2 first, ← known right.1 right.2 second, same] at apart
  simp at apart

section Lawful
variable [LawfulBEq Key]

theorem mem_iff_find (map : UnorderedMap Key Value) (key : Key) (value : Value) :
    (key, value) ∈ map.entries ↔ map.find key = some value := by
  rw [find_eq_some_iff]
  constructor
  · exact fun member => ⟨key, member, BEq.rfl⟩
  · rintro ⟨stored, member, same⟩
    rwa [← eq_of_beq same]

theorem entries_nodup (map : UnorderedMap Key Value) : map.entries.Nodup :=
  map.distinct.imp fun apart same => by simp [same] at apart

end Lawful

end UnorderedMap

end Muddymask
