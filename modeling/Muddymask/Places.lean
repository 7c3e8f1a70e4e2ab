import Mathlib.Data.List.Nodup

/-!
Items that are at one place at a time. The places are told by what they contain,
so nothing says beforehand which items there are. An item is moved, all of them
are exchanged between places, or new ones come in; each keeps them apart and
leaves the same items stored.
-/

namespace Muddymask.Places

variable {Item Place : Type}

structure Exclusive (contents : Place → List Item) : Prop where
  nodup : ∀ place, (contents place).Nodup
  apart : ∀ place other item, item ∈ contents place → item ∈ contents other → place = other

def Stored (contents : Place → List Item) (item : Item) : Prop := ∃ place, item ∈ contents place

theorem Exclusive.one {contents : Place → List Item} (exclusive : Exclusive contents) {item : Item}
    (stored : Stored contents item) : ∃! place, item ∈ contents place := by
  obtain ⟨place, member⟩ := stored
  exact ⟨place, member, fun other there => exclusive.apart other place item there member⟩

section Move
variable [DecidableEq Item]

/-- `item` goes from `source` to `target`, and nothing else changes. -/
structure Moved (before after : Place → List Item) (source target : Place) (item : Item) : Prop where
  different : source ≠ target
  member : item ∈ before source
  removed : after source = (before source).erase item
  added : after target = item :: before target
  others : ∀ place, place ≠ source → place ≠ target → after place = before place

variable {before after : Place → List Item} {source target : Place} {item : Item}
  (moved : Moved before after source target item)
include moved

theorem Moved.mem_iff (exclusive : Exclusive before) (other : Item) (place : Place) :
    other ∈ after place ↔
      (other = item ∧ place = target) ∨ (other ≠ item ∧ other ∈ before place) := by
  by_cases atTarget : place = target
  · subst atTarget
    rw [moved.added, List.mem_cons]
    by_cases same : other = item <;> simp [same]
  · by_cases atSource : place = source
    · subst atSource
      rw [moved.removed, (exclusive.nodup place).mem_erase_iff]
      simp [atTarget]
    · rw [moved.others place atSource atTarget]
      have elsewhere : item ∉ before place := fun here =>
        atSource (exclusive.apart _ _ item here moved.member)
      by_cases same : other = item
      · simp [same, elsewhere, atTarget]
      · simp [same]

theorem Moved.exclusive (exclusive : Exclusive before) : Exclusive after := by
  constructor
  · intro place
    by_cases atTarget : place = target
    · subst atTarget
      rw [moved.added, List.nodup_cons]
      exact ⟨fun here => moved.different (exclusive.apart _ _ item moved.member here),
        exclusive.nodup place⟩
    · by_cases atSource : place = source
      · subst atSource
        rw [moved.removed]
        exact (exclusive.nodup place).erase item
      · rw [moved.others place atSource atTarget]
        exact exclusive.nodup place
  · intro place other found here there
    rw [moved.mem_iff exclusive] at here there
    rcases here with ⟨rfl, rfl⟩ | ⟨different, here⟩
    · rcases there with ⟨_, rfl⟩ | ⟨absurd, _⟩
      · rfl
      · exact (absurd rfl).elim
    · rcases there with ⟨absurd, _⟩ | ⟨_, there⟩
      · exact (different absurd).elim
      · exact exclusive.apart place other found here there

theorem Moved.stored (exclusive : Exclusive before) (other : Item) :
    Stored after other ↔ Stored before other := by
  constructor
  · rintro ⟨place, here⟩
    rcases (moved.mem_iff exclusive other place).mp here with ⟨rfl, _⟩ | ⟨_, there⟩
    · exact ⟨source, moved.member⟩
    · exact ⟨place, there⟩
  · rintro ⟨place, here⟩
    by_cases same : other = item
    · exact ⟨target, (moved.mem_iff exclusive other target).mpr (Or.inl ⟨same, rfl⟩)⟩
    · exact ⟨place, (moved.mem_iff exclusive other place).mpr (Or.inr ⟨same, here⟩)⟩

end Move

section Trade
variable {before after : Place → List Item} {trade : Place → Place}
  (same : ∀ place, after place = before (trade place))
include same

/-- The places exchange what they contain. -/
theorem Exclusive.traded (injective : trade.Injective) (exclusive : Exclusive before) :
    Exclusive after := by
  constructor
  · intro place
    rw [same]
    exact exclusive.nodup _
  · intro place other item here there
    rw [same] at here there
    exact injective (exclusive.apart _ _ item here there)

theorem stored_traded (surjective : trade.Surjective) (item : Item) :
    Stored after item ↔ Stored before item := by
  simp only [Stored, same]
  exact (surjective.exists (p := fun place => item ∈ before place)).symm

end Trade

section Add
variable {before after : Place → List Item} {target : Place} {items : List Item}
  (added : after target = items ++ before target)
  (others : ∀ place, place ≠ target → after place = before place)
include added others

theorem mem_added (item : Item) (place : Place) :
    item ∈ after place ↔ (item ∈ items ∧ place = target) ∨ item ∈ before place := by
  by_cases here : place = target
  · simp [here, added]
  · simp [here, others place here]

/-- New items come to a place. -/
theorem Exclusive.add (exclusive : Exclusive before) (nodup : items.Nodup)
    (new : ∀ item ∈ items, ¬ Stored before item) : Exclusive after := by
  constructor
  · intro place
    by_cases here : place = target
    · rw [here, added, List.nodup_append]
      refine ⟨nodup, exclusive.nodup target, fun item fresh other old same => ?_⟩
      exact new item fresh ⟨target, same ▸ old⟩
    · rw [others place here]
      exact exclusive.nodup place
  · intro place other item here there
    rw [mem_added added others] at here there
    rcases here with ⟨fresh, rfl⟩ | here
    · rcases there with ⟨_, rfl⟩ | there
      · rfl
      · exact (new item fresh ⟨other, there⟩).elim
    · rcases there with ⟨fresh, _⟩ | there
      · exact (new item fresh ⟨place, here⟩).elim
      · exact exclusive.apart place other item here there

theorem stored_add (item : Item) : Stored after item ↔ item ∈ items ∨ Stored before item := by
  simp only [Stored, mem_added added others]
  constructor
  · rintro ⟨place, ⟨fresh, _⟩ | old⟩
    · exact Or.inl fresh
    · exact Or.inr ⟨place, old⟩
  · rintro (fresh | ⟨place, old⟩)
    · exact ⟨target, Or.inl ⟨fresh, rfl⟩⟩
    · exact ⟨place, Or.inr old⟩

end Add

end Muddymask.Places
