import Mathlib.Data.List.Forall2
import Muddymask.UnorderedMap

/-!
A table of buckets, each of which has the entries whose keys hash to its number. An
operation looks at one bucket; now and then all entries move to another number of
buckets. If equal keys hash alike, all that can be seen of this is an `UnorderedMap`.
-/

namespace Muddymask

structure HashTable (Key Value : Type) [BEq Key] where
  count : Nat
  positive : 0 < count
  buckets : Nat → UnorderedMap Key Value

namespace HashTable

variable {Key Value : Type} [BEq Key]

def empty (count : Nat) (positive : 0 < count) : HashTable Key Value where
  count := count
  positive := positive
  buckets := fun _ => .empty

def setBucket (table : HashTable Key Value) (place : Nat) (bucket : UnorderedMap Key Value) :
    HashTable Key Value :=
  { table with buckets := fun other => if other = place then bucket else table.buckets other }

def entries (table : HashTable Key Value) : List (Key × Value) :=
  (List.range table.count).flatMap fun place => (table.buckets place).entries

/-- What is done to a table. -/
inductive Change (Key Value : Type) where
  | insert (key : Key) (value : Value)
  | erase (key : Key)
  | rehash (count : Nat) (positive : 0 < count)

section Operations
variable (hash : Key → Nat)

def place (table : HashTable Key Value) (key : Key) : Nat := hash key % table.count

def find (table : HashTable Key Value) (key : Key) : Option Value :=
  (table.buckets (table.place hash key)).find key

def erase (table : HashTable Key Value) (key : Key) : HashTable Key Value :=
  let place := table.place hash key
  table.setBucket place ((table.buckets place).erase key)

variable [EquivBEq Key]

def insert (table : HashTable Key Value) (key : Key) (value : Value) : HashTable Key Value :=
  let place := table.place hash key
  table.setBucket place ((table.buckets place).insert key value)

/-- Every entry goes to its new bucket. -/
def rehash (table : HashTable Key Value) (count : Nat) (positive : 0 < count) :
    HashTable Key Value :=
  table.entries.foldl (fun table entry => table.insert hash entry.1 entry.2) (empty count positive)

def change (table : HashTable Key Value) : Change Key Value → HashTable Key Value
  | .insert key value => table.insert hash key value
  | .erase key => table.erase hash key
  | .rehash count positive => table.rehash hash count positive

end Operations

/-- The same, without the buckets. -/
def Change.apply [EquivBEq Key] (map : UnorderedMap Key Value) :
    Change Key Value → UnorderedMap Key Value
  | insert key value => map.insert key value
  | erase key => map.erase key
  | rehash _ _ => map

/-- A table after some changes. -/
def build (hash : Key → Nat) [EquivBEq Key] (count : Nat) (positive : 0 < count)
    (changes : List (Change Key Value)) : HashTable Key Value :=
  changes.foldl (change hash) (empty count positive)

/-- The same changes, up to the equality of keys and the numbers of buckets. -/
inductive Change.Alike : Change Key Value → Change Key Value → Prop where
  | insert {left right : Key} (same : (left == right) = true) (value : Value) :
      Alike (.insert left value) (.insert right value)
  | erase {left right : Key} (same : (left == right) = true) : Alike (.erase left) (.erase right)
  | rehash (left right : Nat) (low : 0 < left) (high : 0 < right) :
      Alike (.rehash left low) (.rehash right high)

section Lookup
variable {hash : Key → Nat} {table : HashTable Key Value}

/-- The entries are where they are looked for. -/
def Placed (hash : Key → Nat) (table : HashTable Key Value) : Prop :=
  ∀ place, ∀ entry ∈ (table.buckets place).entries, table.place hash entry.1 = place

theorem empty_placed (count : Nat) (positive : 0 < count) :
    Placed hash (empty count positive : HashTable Key Value) := by
  intro place entry member
  cases member

theorem setBucket_placed (placed : Placed hash table) {place : Nat}
    {bucket : UnorderedMap Key Value}
    (here : ∀ entry ∈ bucket.entries, table.place hash entry.1 = place) :
    Placed hash (table.setBucket place bucket) := by
  intro other entry member
  by_cases same : other = place
  · subst same
    simp only [setBucket, if_true] at member
    exact here entry member
  · simp only [setBucket, if_neg same] at member
    exact placed other entry member

theorem erase_placed (placed : Placed hash table) (key : Key) :
    Placed hash (table.erase hash key) := by
  refine setBucket_placed placed fun entry member => ?_
  exact placed _ entry ((UnorderedMap.mem_erase ..).mp member).1

theorem findSome?_only {Item Found : Type} {list : List Item} {search : Item → Option Found}
    {item : Item} (member : item ∈ list) (elsewhere : ∀ other, other ≠ item → search other = none) :
    list.findSome? search = search item := by
  induction list with
  | nil => cases member
  | cons head rest ih =>
      by_cases same : head = item
      · subst same
        cases found : search head with
        | none =>
            have nowhere : ∀ other ∈ rest, search other = none := by
              intro other _
              by_cases again : other = head
              · rw [again, found]
              · exact elsewhere other again
            rw [List.findSome?_cons, found]
            exact List.findSome?_eq_none_iff.mpr nowhere
        | some value => rw [List.findSome?_cons, found]
      · rw [List.findSome?_cons, elsewhere head same]
        exact ih ((List.mem_cons.mp member).resolve_left (Ne.symm same))

theorem find_setBucket (place : Nat) (bucket : UnorderedMap Key Value) (wanted : Key) :
    (table.setBucket place bucket).find hash wanted =
      if table.place hash wanted = place then bucket.find wanted else table.find hash wanted :=
  apply_ite (fun bucket : UnorderedMap Key Value => bucket.find wanted) ..

theorem place_lt (hash : Key → Nat) (table : HashTable Key Value) (key : Key) :
    table.place hash key < table.count :=
  Nat.mod_lt _ table.positive

variable [EquivBEq Key]

theorem insert_placed (placed : Placed hash table) (key : Key) (value : Value) :
    Placed hash (table.insert hash key value) := by
  refine setBucket_placed placed fun entry member => ?_
  rcases (UnorderedMap.mem_insert ..).mp member with old | ⟨_, rfl⟩
  · exact placed _ entry old
  · rfl

theorem inserts_placed (placed : Placed hash table) (list : List (Key × Value)) :
    Placed hash (list.foldl (fun table entry => table.insert hash entry.1 entry.2) table) := by
  induction list generalizing table with
  | nil => exact placed
  | cons entry rest ih => exact ih (insert_placed placed entry.1 entry.2)

theorem rehash_placed (count : Nat) (positive : 0 < count) :
    Placed hash (table.rehash hash count positive) :=
  inserts_placed (empty_placed count positive) table.entries

theorem change_placed (placed : Placed hash table) (change : Change Key Value) :
    Placed hash (table.change hash change) := by
  cases change with
  | insert key value => exact insert_placed placed key value
  | erase key => exact erase_placed placed key
  | rehash count positive => exact rehash_placed count positive

theorem find_apply_alike {left right : UnorderedMap Key Value}
    (agree : ∀ wanted, left.find wanted = right.find wanted) {first second : Change Key Value}
    (alike : first.Alike second) (wanted : Key) :
    (first.apply left).find wanted = (second.apply right).find wanted := by
  cases alike with
  | insert same value =>
      rw [Change.apply, Change.apply, UnorderedMap.find_insert, UnorderedMap.find_insert, agree,
        BEq.congr_left same]
  | erase same =>
      rw [Change.apply, Change.apply, UnorderedMap.find_erase, UnorderedMap.find_erase, agree,
        BEq.congr_right same]
  | rehash => exact agree wanted

theorem find_applies_alike {left right : UnorderedMap Key Value}
    (agree : ∀ wanted, left.find wanted = right.find wanted)
    {first second : List (Change Key Value)} (alike : List.Forall₂ Change.Alike first second)
    (wanted : Key) : (first.foldl Change.apply left).find wanted =
      (second.foldl Change.apply right).find wanted := by
  induction alike generalizing left right with
  | nil => exact agree wanted
  | cons same _ ih => exact ih (find_apply_alike agree same)

/-! From here on equal keys hash alike. -/

variable (alike : ∀ left right : Key, (left == right) = true → hash left = hash right)
include alike

omit [EquivBEq Key] in
theorem place_congr {left right : Key} (same : (left == right) = true) :
    table.place hash left = table.place hash right := by
  rw [place, place, alike left right same]

theorem find_congr {left right : Key} (same : (left == right) = true) :
    table.find hash left = table.find hash right := by
  rw [find, find, place_congr alike same]
  exact UnorderedMap.find_congr _ left right same

theorem find_insert (key wanted : Key) (value : Value) :
    (table.insert hash key value).find hash wanted =
      (table.find hash wanted).or (if key == wanted then some value else none) := by
  rw [insert, find_setBucket]
  by_cases here : table.place hash wanted = table.place hash key
  · rw [if_pos here, find, here]
    exact UnorderedMap.find_insert _ key wanted value
  · have apart : (key == wanted) = false :=
      Bool.eq_false_iff.mpr fun same => here (place_congr alike same).symm
    rw [if_neg here, apart, if_neg Bool.false_ne_true, Option.or_none]

theorem find_erase (key wanted : Key) :
    (table.erase hash key).find hash wanted =
      if wanted == key then none else table.find hash wanted := by
  rw [erase, find_setBucket]
  by_cases here : table.place hash wanted = table.place hash key
  · rw [if_pos here, find, here]
    exact UnorderedMap.find_erase _ key wanted
  · have apart : (wanted == key) = false :=
      Bool.eq_false_iff.mpr fun same => here (place_congr alike same)
    rw [if_neg here, apart, if_neg Bool.false_ne_true]

theorem find_inserts (list : List (Key × Value)) (wanted : Key) :
    (list.foldl (fun table entry => table.insert hash entry.1 entry.2) table).find hash wanted =
      (table.find hash wanted).or ((list.find? fun entry => entry.1 == wanted).map Prod.snd) := by
  induction list generalizing table with
  | nil => simp
  | cons entry rest ih =>
      rw [List.foldl_cons, ih, find_insert alike, Option.or_assoc]
      congr 1
      by_cases same : entry.1 == wanted
      · simp [same]
      · simp [same]

omit [EquivBEq Key] in
theorem find_entries (placed : Placed hash table) (wanted : Key) :
    (table.entries.find? fun entry => entry.1 == wanted).map Prod.snd = table.find hash wanted := by
  have elsewhere : ∀ other, other ≠ table.place hash wanted →
      ((table.buckets other).entries.find? fun entry => entry.1 == wanted) = none := by
    intro other different
    refine List.find?_eq_none.mpr fun entry member same => different ?_
    rw [← place_congr alike same, placed other entry member]
  have here := List.mem_range.mpr (place_lt hash table wanted)
  rw [entries, List.find?_flatMap, findSome?_only here elsewhere]
  rfl

theorem find_rehash (placed : Placed hash table) (count : Nat) (positive : 0 < count)
    (wanted : Key) : (table.rehash hash count positive).find hash wanted =
      table.find hash wanted := by
  rw [rehash, find_inserts alike, find_entries alike placed]
  rfl

theorem find_change (placed : Placed hash table) {map : UnorderedMap Key Value}
    (agree : ∀ wanted, table.find hash wanted = map.find wanted) (change : Change Key Value)
    (wanted : Key) : (table.change hash change).find hash wanted =
      (change.apply map).find wanted := by
  cases change with
  | insert key value => rw [HashTable.change, Change.apply, find_insert alike, agree,
      UnorderedMap.find_insert]
  | erase key => rw [HashTable.change, Change.apply, find_erase alike, agree,
      UnorderedMap.find_erase]
  | rehash count positive => rw [HashTable.change, Change.apply, find_rehash alike placed, agree]

theorem find_changes (changes : List (Change Key Value)) (placed : Placed hash table)
    {map : UnorderedMap Key Value} (agree : ∀ wanted, table.find hash wanted = map.find wanted)
    (wanted : Key) : (changes.foldl (change hash) table).find hash wanted =
      (changes.foldl Change.apply map).find wanted := by
  induction changes generalizing table map with
  | nil => exact agree wanted
  | cons change rest ih =>
      exact ih (change_placed placed change) (find_change alike placed agree change)

theorem find_build (count : Nat) (positive : 0 < count) (changes : List (Change Key Value))
    (wanted : Key) : (build hash count positive changes).find hash wanted =
      (changes.foldl Change.apply .empty).find wanted :=
  find_changes alike changes (empty_placed count positive) (fun _ => rfl) wanted

theorem find_build_alike {first second : List (Change Key Value)} {left right : Key}
    (built : List.Forall₂ Change.Alike first second) (same : (left == right) = true)
    (count others : Nat) (low : 0 < count) (high : 0 < others) :
    (build hash count low first).find hash left =
      (build hash others high second).find hash right := by
  rw [find_build alike, find_build alike, find_applies_alike (fun _ => rfl) built]
  exact UnorderedMap.find_congr _ left right same

end Lookup

end HashTable

end Muddymask
