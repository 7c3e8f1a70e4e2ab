import Muddymask.Recycling

/-!
How much memory an allocator takes if every object is released to the allocator
that carved it. It gets an arena only after it has found both lists empty, and
then every slot of the arenas it had was in use, so it never holds more than one
arena beyond what was once in use at the same time.
-/

namespace Muddymask

open Words Memory Heap Places Runs

namespace Slots

/-- A user has the slot, or another thread is about to push it. -/
def Used (state : Slots) (p : Nat) : Prop :=
  p ∈ state.live ∨ ∃ thread, p ∈ (state.thread thread).node

/-- In some state of the run these were the arenas, with all their slots in use. -/
def WasFull (order : ByteOrder) (shape : Shape) (this : UInt64) (origin : Slots)
    (events : List Event) (arenas : List Nat) : Prop :=
  ∃ first second state, events = first ++ second ∧
    run (step order shape this) origin first = some state ∧ state.arenas = arenas ∧
    ∀ p, state.Carved shape p → state.Used p

/-- The arenas but the newest were full once; so are all of them when `allocate` is
about to get another. -/
structure Frugal (order : ByteOrder) (shape : Shape) (this : UInt64) (origin : Slots)
    (events : List Event) (state : Slots) : Prop where
  nodup : state.arenas.Nodup
  older : ∀ arena rest, state.arenas = arena :: rest →
    WasFull order shape this origin events rest
  empty : state.exchanged = true → (state.heap.allocator this).localNode = 0 →
    WasFull order shape this origin events state.arenas

section Steps
variable {order : ByteOrder} {shape : Shape} {this : UInt64} {origin state next : Slots}
  {events : List Event} {event : Event} {l g : List Nat}

theorem WasFull.later {arenas : List Nat}
    (full : WasFull order shape this origin events arenas) (more : List Event) :
    WasFull order shape this origin (events ++ more) arenas := by
  obtain ⟨first, second, state, rfl, rest⟩ := full
  exact ⟨first, second ++ more, state, List.append_assoc .., rest⟩

theorem frugal_same (frugal : Frugal order shape this origin events state)
    (arenas : next.arenas = state.arenas)
    (same : next.exchanged = true → state.exchanged = true ∧
      (next.heap.allocator this).localNode = (state.heap.allocator this).localNode) :
    Frugal order shape this origin (events ++ [event]) next where
  nodup := arenas ▸ frugal.nodup
  older arena rest grown := (frugal.older arena rest (arenas ▸ grown)).later _
  empty exchanged null := by
    obtain ⟨before, node⟩ := same exchanged
    rw [arenas]
    exact (frugal.empty before (node ▸ null)).later _

theorem used_of_empty (conserved : Conserved order shape this state [] []) {p : Nat}
    (carved : state.Carved shape p) : state.Used p := by
  obtain ⟨place, member⟩ := (conserved.stored p).mpr carved
  cases place with
  | localList | globalList => cases member
  | hands thread => exact Or.inr ⟨thread, member⟩
  | user => exact Or.inl member

theorem frugal_exchange (past : run (step order shape this) origin events = some state)
    (conserved : Conserved order shape this state l g)
    (frugal : Frugal order shape this origin events state)
    (taken : step order shape this state .exchange = some next) :
    Frugal order shape this origin (events ++ [.exchange]) next := by
  have reached := (run_concat origin next events .exchange).mpr ⟨state, past, taken⟩
  rw [step, Option.ite_none_right_eq_some] at taken
  obtain ⟨⟨null, _⟩, same⟩ := taken
  cases same
  refine ⟨frugal.nodup, fun arena rest grown => (frugal.older arena rest grown).later _,
    fun _ none => ?_⟩
  -- The owner's list was empty, and now it is what `global` was.
  have after := conserved.exchanged
  have before := conserved.localChain
  rw [null, chain_null] at before
  have now := after.localChain
  rw [none, chain_null] at now
  subst before now
  exact ⟨_, [], _, (List.append_nil _).symm, reached, rfl, fun p => used_of_empty after⟩

theorem frugal_allocate (frugal : Frugal order shape this origin events state) {arena : Nat}
    (taken : step order shape this state (.allocate arena) = some next) :
    Frugal order shape this origin (events ++ [.allocate arena]) next := by
  rw [step, Option.ite_none_right_eq_some] at taken
  obtain ⟨⟨ready, new⟩, done⟩ := taken
  obtain ⟨result, _, same⟩ := Option.map_eq_some_iff.mp done
  by_cases null : (state.heap.allocator this).localNode = 0
  · rw [if_pos null] at same
    cases same
    have exchanged := ready.resolve_left (not_not.mpr null)
    refine ⟨List.nodup_cons.mpr ⟨(new null).2, frugal.nodup⟩, ?_, by simp⟩
    rintro _ _ ⟨rfl, rfl⟩
    exact (frugal.empty exchanged null).later _
  · rw [if_neg null] at same
    cases same
    exact frugal_same frugal rfl (by simp)

theorem frugal_step (past : run (step order shape this) origin events = some state)
    (conserved : Conserved order shape this state l g)
    (frugal : Frugal order shape this origin events state)
    (taken : step order shape this state event = some next) :
    Frugal order shape this origin (events ++ [event]) next := by
  cases event with
  | exchange => exact frugal_exchange past conserved frugal taken
  | allocate arena => exact frugal_allocate frugal taken
  | releaseLocal p =>
      rw [step, Option.ite_none_right_eq_some] at taken
      obtain ⟨⟨_, outside⟩, same⟩ := taken
      cases same
      exact frugal_same frugal rfl fun inside => absurd (outside.symm.trans inside) Bool.false_ne_true
  | enter thread p | write a byte =>
      rw [step, Option.ite_none_right_eq_some] at taken
      obtain ⟨_, same⟩ := taken
      cases same
      exact frugal_same frugal rfl fun inside => ⟨inside, rfl⟩
  | load thread =>
      rw [step] at taken
      split at taken
      · cases taken
        exact frugal_same frugal rfl fun inside => ⟨inside, rfl⟩
      · cases taken
  | compareExchange thread spurious =>
      rw [step] at taken
      split at taken
      · rename_i p _
        cases taken
        refine frugal_same frugal rfl fun inside => ⟨inside, ?_⟩
        simp only [Heap.compareExchange]
        split
        · simp
        · rfl
      · cases taken

theorem frugal_run {heap : Heap}
    (past : run (step order shape this) (start this heap) events = some state) :
    Frugal order shape this (start this heap) events state := by
  induction events using List.reverseRecOn generalizing state with
  | nil =>
      cases (run_nil ..).mp past
      exact ⟨List.nodup_nil, by simp [start], by simp [start]⟩
  | append_singleton earlier event ih =>
      obtain ⟨before, reached, taken⟩ := (run_concat ..).mp past
      obtain ⟨l, g, conserved⟩ := reachable_conserved ⟨earlier, reached⟩
      exact frugal_step reached conserved (ih reached) taken

theorem slots_once {arenas : List Nat} (nodup : arenas.Nodup)
    (usable : ∀ arena ∈ arenas, shape.Usable arena) : (arenas.flatMap shape.slots).Nodup := by
  refine List.nodup_flatMap.mpr ⟨fun arena _ => shape.slots_nodup arena, ?_⟩
  refine nodup.imp_of_mem fun {arena other} inside within different p member inOther => ?_
  obtain ⟨_, low, high⟩ := shape.slot_bounds member
  obtain ⟨_, lowOther, highOther⟩ := shape.slot_bounds inOther
  have apart := Shape.arenas_apart (usable arena inside).1 (usable other within).1 different
  have node := shape.node
  omega

end Steps

/-- In every run: when the allocator has got an arena, there was a state with all
the other arenas it has in which every slot of them was in use, and these are so
many different objects. -/
theorem grows_when_full (order : ByteOrder) (shape : Shape) (this : UInt64) (heap : Heap)
    (events : List Event) (final : Slots)
    (past : run (step order shape this) (start this heap) events = some final)
    (arena : Nat) (rest : List Nat) (grown : final.arenas = arena :: rest) :
    WasFull order shape this (start this heap) events rest ∧
      (rest.flatMap shape.slots).Nodup := by
  have frugal := frugal_run past
  obtain ⟨_, _, conserved⟩ := reachable_conserved ⟨events, past⟩
  refine ⟨frugal.older arena rest grown, slots_once ?_ fun other inside => ?_⟩
  · exact (List.nodup_cons.mp (grown ▸ frugal.nodup)).2
  · exact conserved.usable other (grown ▸ List.mem_cons_of_mem arena inside)

def largeShape : Shape := ⟨0x60000, 32, by decide, by decide⟩

/-- One object is still in the hands of another thread when the owner needs a third. -/
def plainGrowth : List Event :=
  [.exchange, .allocate 0x7F0000000000, .allocate 0x7F0000000000, .enter 0 0x7F0000060020,
    .load 0, .exchange, .allocate 0x7F0000100000]

theorem grows_when_full_third : ∃ final,
    run (step .little largeShape 0x1000) (start 0x1000 plainHeap) plainGrowth = some final ∧
    final.arenas = [0x7F0000100000, 0x7F0000000000] ∧
    WasFull .little largeShape 0x1000 (start 0x1000 plainHeap) plainGrowth [0x7F0000000000] ∧
    ([0x7F0000000000].flatMap largeShape.slots).Nodup := by
  have computed : ((run (step .little largeShape 0x1000) (start 0x1000 plainHeap)
      plainGrowth).any fun final => decide (final.arenas = [0x7F0000100000, 0x7F0000000000])) =
      true := by
    decide +kernel
  obtain ⟨final, past, seen⟩ := (Option.any_eq_true ..).mp computed
  have grown := of_decide_eq_true seen
  exact ⟨final, past, grown,
    grows_when_full .little largeShape 0x1000 plainHeap plainGrowth final past _ _ grown⟩

end Slots

end Muddymask
