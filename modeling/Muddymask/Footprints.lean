import Mathlib.Data.Option.Basic

/-!
States that are made of places, and actions that read some of them and write some.
What an action writes depends on what it reads only, and it reads which places these
are. Two actions of which none writes what the other one reads or writes do the same
in either order.
-/

namespace Muddymask.Footprints

structure Footprint (Place : Type) where
  reads : List Place
  writes : List Place

variable {State Place : Type} {Value : Place → Type}

/-- None of the places that the first one writes is in the second one. -/
def Footprint.Spares (first second : Footprint Place) : Prop :=
  ∀ place ∈ first.writes, place ∉ second.reads ∧ place ∉ second.writes

def Footprint.Apart (first second : Footprint Place) : Prop :=
  first.Spares second ∧ second.Spares first

/-- The action writes nothing else, and what it does depends on nothing else. -/
structure Respects (look : (place : Place) → State → Value place)
    (footprint : State → Footprint Place) (action : State → Option State) : Prop where
  frame : ∀ state after, action state = some after →
    ∀ place ∉ (footprint state).writes, look place after = look place state
  chosen : ∀ state other, (∀ place ∈ (footprint state).reads, look place other = look place state) →
    footprint other = footprint state
  depends : ∀ state other after, action state = some after →
    (∀ place ∈ (footprint state).reads, look place other = look place state) →
      ∃ last, action other = some last ∧
        ∀ place ∈ (footprint state).writes, look place last = look place after

variable {look : (place : Place) → State → Value place} {action other : State → Option State}
  {footprint further : State → Footprint Place} {state after : State}

namespace Respects

/-- Another action has left alone what the action reads. -/
theorem unread (second : Respects look further other)
    (spares : (further state).Spares (footprint state)) (taken : other state = some after) :
    ∀ place ∈ (footprint state).reads, look place after = look place state := by
  intro place read
  exact second.frame state after taken place fun written => (spares place written).1 read

theorem postponed (first : Respects look footprint action) (second : Respects look further other)
    (spares : (further state).Spares (footprint state)) {next : State}
    (done : action state = some next) (taken : other state = some after) :
    ∃ last, action after = some last ∧
      ∀ place ∈ (footprint state).writes, look place last = look place next :=
  first.depends state after next done (second.unread spares taken)

/-- It was possible before, too. -/
theorem advanced (first : Respects look footprint action) (second : Respects look further other)
    (spares : (further state).Spares (footprint state)) {next : State}
    (taken : other state = some after) (done : action after = some next) :
    ∃ middle, action state = some middle := by
  have unread := second.unread spares taken
  obtain ⟨middle, possible, _⟩ := first.depends after state next done fun place read =>
    (unread place (first.chosen state after unread ▸ read)).symm
  exact ⟨middle, possible⟩

theorem commute_of_apart (ext : ∀ left right : State, (∀ place, look place left = look place right) →
      left = right)
    (first : Respects look footprint action) (second : Respects look further other)
    (apart : (footprint state).Apart (further state)) {one both : State}
    (earlier : action state = some one) (later : other one = some both) :
    ∃ two, other state = some two ∧ action two = some both := by
  obtain ⟨two, possible⟩ := second.advanced first apart.1 earlier later
  obtain ⟨last, swapped, written⟩ := first.postponed second apart.2 earlier possible
  obtain ⟨_, same, added⟩ := second.postponed first apart.1 possible earlier
  cases later.symm.trans same
  have firstSame := first.chosen state two (second.unread apart.2 possible)
  have secondSame := second.chosen state one (first.unread apart.1 earlier)
  refine ⟨two, possible, swapped.trans (congrArg some (ext last both fun place => ?_))⟩
  by_cases mine : place ∈ (footprint state).writes
  · rw [written place mine]
    refine (second.frame one both later place ?_).symm
    rw [secondSame]
    exact (apart.1 place mine).2
  · have stays : look place last = look place two := by
      refine first.frame two last swapped place ?_
      rwa [firstSame]
    rw [stays]
    by_cases theirs : place ∈ (further state).writes
    · exact (added place theirs).symm
    · rw [second.frame state two possible place theirs,
        ← first.frame state one earlier place mine]
      refine (second.frame one both later place ?_).symm
      rwa [secondSame]

end Respects

end Muddymask.Footprints
