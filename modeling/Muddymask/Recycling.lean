import Muddymask.Slots

/-!
Slots go round: from an arena to the owner's list, to users, through the hands of
other threads to `global`, and back with an exchange. Each step moves one slot,
trades the lists or brings an arena, and keeps what `Conserved` says; so every
slot is at one place at any time, and what `allocate` returns nobody has.
-/

namespace Muddymask

open Words Memory Heap Places Runs

namespace Slots
variable {order : ByteOrder} {shape : Shape} {this : UInt64} {state : Slots} {l g : List Nat}

/-- What the owner does between its list and the users. -/
theorem contents_owner {next : Slots} {after : List Nat} (thread : next.thread = state.thread)
    {place : Place} (notLocal : place ≠ .localList) (notUser : place ≠ .user) :
    next.contents after g place = state.contents l g place := by
  cases place with
  | localList => exact (notLocal rfl).elim
  | user => exact (notUser rfl).elim
  | globalList => rfl
  | hands other => rw [contents, contents, thread]

namespace Conserved
variable (conserved : Conserved order shape this state l g) {p : Nat}
include conserved

theorem exchanged : Conserved order shape this
    { state with heap := state.heap.exchange this, exchanged := true } g l := by
  let trade : Place → Place
    | .localList => .globalList
    | .globalList => .localList
    | place => place
  have twice : Function.Involutive trade := fun place => by cases place <;> rfl
  have same : ∀ place, contents { state with heap := state.heap.exchange this, exchanged := true } g l
      place = state.contents l g (trade place) := fun place => by cases place <;> rfl
  exact {
    localChain := by
      rw [exchange_allocator]
      exact conserved.globalChain
    globalChain := by
      rw [exchange_allocator]
      exact conserved.localChain
    exclusive := Exclusive.traded same twice.injective conserved.exclusive
    stored := fun p => (stored_traded same twice.surjective p).trans (conserved.stored p)
    usable := conserved.usable
    header := conserved.header }

theorem grows {arena : Nat} {new : List Nat} {after : Heap} (usable : shape.Usable arena)
    (absent : arena ∉ state.arenas) (spec : Appended order shape state.heap this arena new after) :
    Conserved order shape this
      { state with heap := after, arenas := arena :: state.arenas } (new ++ l) g := by
  have word : 0 < kPointerSize ∧ kPointerSize ≤ kArenaSize := by decide
  have elsewhere : ∀ other ∈ state.arenas, arena + kArenaSize ≤ other ∨ other + kArenaSize ≤ arena :=
    fun other inside => Shape.arenas_apart usable.1 (conserved.usable other inside).1
      fun same => absent (same ▸ inside)
  have outside : ∀ q, state.Carved shape q → q + kPointerSize ≤ arena ∨ arena + kArenaSize ≤ q := by
    rintro q ⟨other, inside, slot⟩
    obtain ⟨_, behind, before⟩ := shape.slot_bounds slot
    have node := shape.node
    have beside := elsewhere other inside
    omega
  have untouched : ∀ q, q + kPointerSize ≤ arena ∨ arena + kArenaSize ≤ q →
      Memory.load order after.memory q = Memory.load order state.heap.memory q :=
    fun q beside => load_congr fun a low high => spec.outside a (by omega)
  have fresh : ∀ p ∈ new, ¬ Stored (state.contents l g) p := by
    intro p member stored
    obtain ⟨_, behind, before⟩ := shape.slot_bounds ((spec.mem p).mp member)
    have beside := outside p ((conserved.stored p).mp stored)
    have node := shape.node
    omega
  let next : Slots := { state with heap := after, arenas := arena :: state.arenas }
  have added : next.contents (new ++ l) g .localList = new ++ state.contents l g .localList := rfl
  have others : ∀ place : Place, place ≠ .localList →
      next.contents (new ++ l) g place = state.contents l g place := by
    intro place apart
    cases place with
    | localList => exact (apart rfl).elim
    | globalList | hands _ | user => rfl
  exact {
    localChain := spec.localChain l (fun q member => outside q (conserved.carved_local member))
      conserved.localChain
    globalChain := by
      rw [spec.globalNode]
      refine chain_congr (fun q member => (untouched q ?_).symm) conserved.globalChain
      exact outside q (conserved.carved_global member)
    exclusive := conserved.exclusive.add added others spec.nodup fresh
    stored := by
      intro p
      rw [stored_add added others, spec.mem, conserved.stored]
      simp [Carved]
    usable := by
      intro other inside
      rcases List.mem_cons.mp inside with rfl | old
      · exact usable
      · exact conserved.usable other old
    header := by
      intro other inside
      rcases List.mem_cons.mp inside with rfl | old
      · exact spec.header
      · have beside := elsewhere other old
        exact (untouched other (by omega)).trans (conserved.header other old) }

theorem pops {result : Nat × Heap} (popped : state.heap.pop order this = some result) :
    ∃ rest, l = result.1 :: rest ∧ Conserved order shape this
      { state with heap := result.2, live := result.1 :: state.live, exchanged := false } rest g := by
  by_cases null : (state.heap.allocator this).localNode = 0
  · rw [pop, if_pos null] at popped
    cases popped
  · rw [pop_some null, Option.some.injEq] at popped
    subst popped
    obtain ⟨rest, rfl, later⟩ := chain_top null conserved.localChain
    have moved : Moved (state.contents ((state.heap.allocator this).localNode.toNat :: rest) g)
        (contents { state with live := (state.heap.allocator this).localNode.toNat :: state.live }
          rest g) .localList .user (state.heap.allocator this).localNode.toNat :=
      { different := by simp
        member := List.mem_cons_self
        removed := (List.erase_cons_head ..).symm
        added := rfl
        others := fun place notLocal notUser => contents_owner (by rfl) notLocal notUser }
    refine ⟨rest, rfl, conserved.moved moved rfl ?_ ?_ conserved.header⟩
    · rw [setAllocator_same]
      exact later
    · rw [setAllocator_same]
      exact conserved.globalChain

theorem pushesLocal (inUse : p ∈ state.live) : Conserved order shape this
    { state with heap := state.heap.pushLocal order this p, live := state.live.erase p }
    (p :: l) g := by
  have carved := conserved.carved_user inUse
  have member : p ∈ state.contents l g .user := inUse
  have touched := conserved.stored_at member (by simp) (by simp)
    (state.heap.allocator this).localNode
  obtain ⟨positive, small⟩ := conserved.address carved
  have moved : Moved (state.contents l g)
      (contents { state with live := state.live.erase p } (p :: l) g) .user .localList p :=
    { different := by simp
      member := inUse
      removed := rfl
      added := rfl
      others := fun place notUser notLocal => contents_owner (by rfl) notLocal notUser }
  refine conserved.moved moved rfl ?_ ?_ touched.header
  · rw [pushLocal, setLocal_localNode]
    refine chain_push positive small (fun q onLocal => ?_) conserved.localChain
    have inList : q ∈ state.contents l g .localList := onLocal
    exact conserved.nodes_apart carved (conserved.carved_local onLocal)
      (conserved.distinct member inList (by simp))
  · rw [pushLocal, setLocal_globalNode]
    exact touched.globalChain

theorem enters {thread : Nat} (inUse : p ∈ state.live) (idle : state.thread thread = .idle) :
    Conserved order shape this
      { state with live := state.live.erase p, thread := state.setThread thread (.entered p) } l g := by
  have moved : Moved (state.contents l g)
      (contents { state with
        live := state.live.erase p
        thread := state.setThread thread (.entered p) } l g) .user (.hands thread) p :=
    { different := by simp
      member := inUse
      removed := rfl
      added := by simp [contents, idle, Releasing.node]
      others := by
        intro place notUser notHands
        cases place with
        | user => exact (notUser rfl).elim
        | hands other => simp [contents, show other ≠ thread from fun same => notHands (by rw [same])]
        | localList | globalList => rfl }
  exact conserved.moved moved rfl conserved.localChain conserved.globalChain conserved.header

/-- The thread links its object to what it takes for the top of the list. -/
theorem links {thread : Nat} {before : Releasing} (stands : state.thread thread = before)
    (holds : before.node = [p]) : Conserved order shape this
      { state with
        heap := state.heap.loadGlobal order this p
        thread := state.setThread thread (.linked p) } l g := by
  have member : p ∈ state.contents l g (.hands thread) := by simp [contents, stands, holds]
  have touched := conserved.stored_at member (by simp) (by simp) (state.heap.allocator this).globalNode
  refine touched.recast rfl rfl (funext fun place => ?_)
  cases place with
  | hands other =>
      by_cases same : other = thread
      · subst same
        simp only [contents, setThread_same, stands, holds]
        rfl
      · simp [contents, same]
  | localList | globalList | user => rfl

/-- The thread finds the top as it was, and its object is the new one. -/
theorem pushesGlobal {thread : Nat} (stands : state.thread thread = .linked p)
    (unchanged : (state.heap.allocator this).globalNode = Memory.load order state.heap.memory p) :
    Conserved order shape this
      { state with
        heap := state.heap.setAllocator this
          { state.heap.allocator this with globalNode := UInt64.ofNat p }
        thread := state.setThread thread .idle } l (p :: g) := by
  have member : p ∈ state.contents l g (.hands thread) := by simp [contents, stands, Releasing.node]
  obtain ⟨positive, small⟩ := conserved.address ((conserved.stored p).mp ⟨_, member⟩)
  obtain ⟨present, address⟩ := ofNat_address positive small
  have moved : Moved (state.contents l g)
      (contents { state with thread := state.setThread thread .idle } l (p :: g))
      (.hands thread) .globalList p :=
    { different := by simp
      member := member
      removed := by simp [contents, stands, Releasing.node]
      added := rfl
      others := by
        intro place notHands notGlobal
        cases place with
        | globalList => exact (notGlobal rfl).elim
        | hands other => simp [contents, show other ≠ thread from fun same => notHands (by rw [same])]
        | localList | user => rfl }
  refine conserved.moved moved rfl ?_ ?_ conserved.header
  · rw [setAllocator_same]
    exact conserved.localChain
  · rw [setAllocator_same]
    exact ⟨present, address, unchanged ▸ conserved.globalChain⟩

theorem writes {a : Nat} (writable : state.Writable shape a) (byte : UInt8) :
    Conserved order shape this
      { state with heap := { state.heap with memory := state.heap.memory.write a [byte] } } l g := by
  refine conserved.rewritten fun other tight => write_outside _ fun inside => tight ?_
  have same : other = a := by
    have := inside.2
    simp only [List.length_singleton] at this
    omega
  subst same
  rcases writable with ⟨p, inUse, low, high⟩ | outside
  · exact Or.inl ⟨p, .user, inUse, by simp, by simp, low, high⟩
  · exact Or.inr outside

end Conserved

theorem start_conserved (heap : Heap) : Conserved order shape this (start this heap) [] [] where
  localChain := by rw [start, setAllocator_same]; rfl
  globalChain := by rw [start, setAllocator_same]; rfl
  exclusive := by
    constructor
    · intro place
      cases place <;> exact List.nodup_nil
    · intro place other p member
      cases place <;> cases member
  stored := by
    intro p
    refine iff_of_false ?_ ?_
    · rintro ⟨place, member⟩
      cases place <;> cases member
    · rintro ⟨arena, inside, _⟩
      cases inside
  usable := by
    intro arena inside
    cases inside
  header := by
    intro arena inside
    cases inside

theorem Conserved.appendPops {arena : Nat} {result : Nat × Heap}
    (conserved : Conserved order shape this state l g)
    (new : (state.heap.allocator this).localNode = 0 → shape.Usable arena ∧ arena ∉ state.arenas)
    (popped : state.heap.appendPop order shape this arena = some result) :
    ∃ rest, Conserved order shape this
      { state with
        heap := result.2
        arenas := if (state.heap.allocator this).localNode = 0 then arena :: state.arenas
          else state.arenas
        live := result.1 :: state.live
        exchanged := false } rest g := by
  by_cases null : (state.heap.allocator this).localNode = 0
  · obtain ⟨usable, absent⟩ := new null
    obtain ⟨slots, grown, done, spec⟩ := append_spec order usable.2 state.heap this
    rw [appendPop_none null, done, Option.bind_some] at popped
    obtain ⟨rest, _, after⟩ := (conserved.grows usable absent spec).pops popped
    rw [if_pos null]
    exact ⟨rest, after⟩
  · rw [appendPop_some null] at popped
    obtain ⟨rest, _, after⟩ := conserved.pops popped
    rw [if_neg null]
    exact ⟨rest, after⟩

theorem step_conserved {event : Event} {next : Slots}
    (conserved : Conserved order shape this state l g)
    (taken : step order shape this state event = some next) :
    ∃ after onGlobal, Conserved order shape this next after onGlobal := by
  cases event with
  | exchange =>
      rw [step, Option.ite_none_right_eq_some] at taken
      obtain ⟨_, same⟩ := taken
      cases same
      exact ⟨g, l, conserved.exchanged⟩
  | allocate arena =>
      rw [step, Option.ite_none_right_eq_some] at taken
      obtain ⟨⟨_, new⟩, done⟩ := taken
      obtain ⟨result, popped, same⟩ := Option.map_eq_some_iff.mp done
      cases same
      obtain ⟨rest, after⟩ := conserved.appendPops new popped
      exact ⟨rest, g, after⟩
  | releaseLocal p =>
      rw [step, Option.ite_none_right_eq_some] at taken
      obtain ⟨⟨inUse, _⟩, same⟩ := taken
      cases same
      exact ⟨p :: l, g, conserved.pushesLocal inUse⟩
  | enter thread p =>
      rw [step, Option.ite_none_right_eq_some] at taken
      obtain ⟨⟨inUse, idle⟩, same⟩ := taken
      cases same
      exact ⟨l, g, conserved.enters inUse idle⟩
  | load thread =>
      rw [step] at taken
      split at taken
      · rename_i p stands
        cases taken
        exact ⟨l, g, conserved.links stands rfl⟩
      · cases taken
  | compareExchange thread spurious =>
      rw [step] at taken
      split at taken
      · rename_i p stands
        cases taken
        by_cases same : (state.heap.allocator this).globalNode = Memory.load order state.heap.memory p ∧
            spurious = false
        · rw [Heap.compareExchange, if_pos same]
          exact ⟨l, p :: g, conserved.pushesGlobal stands same.1⟩
        · rw [Heap.compareExchange, if_neg same]
          have again := conserved.links stands rfl
          rw [setThread_self stands] at again
          exact ⟨l, g, again⟩
      · cases taken
  | write a byte =>
      rw [step, Option.ite_none_right_eq_some] at taken
      obtain ⟨writable, same⟩ := taken
      cases same
      exact ⟨l, g, conserved.writes writable byte⟩

theorem allocate_taken {arena : Nat} (allocates : state.Allocates shape this arena)
    (nonempty : shape.slots arena ≠ []) :
    (step order shape this state (.allocate arena)).isSome = true := by
  rw [step, if_pos allocates, Option.isSome_map]
  by_cases null : (state.heap.allocator this).localNode = 0
  · obtain ⟨slot, member⟩ := List.exists_mem_of_ne_nil _ nonempty
    have carves : ∃ p after, p ∈ shape.slots arena ∧
        state.heap.appendPop order shape this arena = some (p, after) :=
      appendPop_carves (allocates.2 null).1.2 member null
    obtain ⟨p, after, _, popped⟩ := carves
    rw [popped]
    rfl
  · rw [appendPop_some null, pop_some null]
    rfl

/-- Every slot is at one place, and nobody has what `allocate` returns. -/
structure Kept (order : ByteOrder) (shape : Shape) (this : UInt64) (state : Slots)
    (l g : List Nat) : Prop where
  localChain : Chain order state.heap.memory (state.heap.allocator this).localNode l
  globalChain : Chain order state.heap.memory (state.heap.allocator this).globalNode g
  nodup : ∀ place, (state.contents l g place).Nodup
  one : ∀ p, state.Carved shape p → ∃! place, p ∈ state.contents l g place
  carved : ∀ place, ∀ p ∈ state.contents l g place, state.Carved shape p
  inside : ∀ p, state.Carved shape p → ∃ arena ∈ state.arenas, shape.tAlignment ∣ p ∧
    arena + kPointerSize ≤ p ∧ p + shape.tObjectSize ≤ arena + kArenaSize
  apart : ∀ p q, state.Carved shape p → state.Carved shape q → p ≠ q →
    p + shape.tObjectSize ≤ q ∨ q + shape.tObjectSize ≤ p
  taken : ∀ arena, state.Allocates shape this arena → shape.slots arena ≠ [] →
    (step order shape this state (.allocate arena)).isSome = true
  unused : ∀ arena next, step order shape this state (.allocate arena) = some next →
    ∃ p, next.live = p :: state.live ∧
      ∀ q, (q ∈ state.live ∨ ∃ thread, q ∈ (state.thread thread).node) →
        p + shape.tObjectSize ≤ q ∨ q + shape.tObjectSize ≤ p

theorem Conserved.unused (conserved : Conserved order shape this state l g) {arena : Nat}
    {next : Slots} (taken : step order shape this state (.allocate arena) = some next) :
    ∃ p, next.live = p :: state.live ∧
      ∀ q, (q ∈ state.live ∨ ∃ thread, q ∈ (state.thread thread).node) →
        p + shape.tObjectSize ≤ q ∨ q + shape.tObjectSize ≤ p := by
  obtain ⟨after, onGlobal, later⟩ := step_conserved conserved taken
  rw [step, Option.ite_none_right_eq_some] at taken
  obtain ⟨⟨_, new⟩, done⟩ := taken
  obtain ⟨result, popped, same⟩ := Option.map_eq_some_iff.mp done
  have live : next.live = result.1 :: state.live := by rw [← same]
  have thread : next.thread = state.thread := by rw [← same]
  have own : result.1 ∈ next.contents after onGlobal .user := by
    rw [contents, live]
    exact List.mem_cons_self
  refine ⟨result.1, live, fun q used => ?_⟩
  rcases used with inUse | ⟨holder, inHands⟩
  · have fresh : (next.contents after onGlobal .user).Nodup := later.exclusive.nodup .user
    rw [contents, live, List.nodup_cons] at fresh
    have member : q ∈ next.live := live ▸ List.mem_cons_of_mem result.1 inUse
    exact later.apart (later.carved own) (later.carved_user member) fun same => fresh.1 (same ▸ inUse)
  · have elsewhere : q ∈ next.contents after onGlobal (.hands holder) := by
      rw [contents, thread]
      exact inHands
    exact later.apart (later.carved own) (later.carved elsewhere)
      (later.distinct own elsewhere (by simp))

theorem Conserved.kept (conserved : Conserved order shape this state l g) :
    Kept order shape this state l g where
  localChain := conserved.localChain
  globalChain := conserved.globalChain
  nodup := conserved.exclusive.nodup
  one p carved := conserved.exclusive.one ((conserved.stored p).mpr carved)
  carved _ _ := conserved.carved
  inside := by
    rintro p ⟨arena, inside, slot⟩
    obtain ⟨multiple, behind, before⟩ := shape.slot_bounds slot
    exact ⟨arena, inside, multiple, behind, Nat.le_of_lt before⟩
  apart _ _ := conserved.apart
  taken _ := allocate_taken
  unused _ _ := conserved.unused

theorem reachable_conserved {heap : Heap}
    (reached : Reachable (step order shape this) (start this heap) state) :
    ∃ l g, Conserved order shape this state l g := by
  refine reachable_induct (fun state => ∃ l g, Conserved order shape this state l g) reached
    ⟨[], [], start_conserved heap⟩ ?_
  rintro before event after _ ⟨l, g, conserved⟩ taken
  exact step_conserved conserved taken

theorem slots_conserved (order : ByteOrder) (shape : Shape) (this : UInt64) (heap : Heap)
    (state : Slots) (reached : Reachable (step order shape this) (start this heap) state) :
    ∃ l g, Kept order shape this state l g := by
  obtain ⟨l, g, conserved⟩ := reachable_conserved reached
  exact ⟨l, g, conserved.kept⟩

def plainShape : Shape := ⟨24, 8, by decide, by decide⟩

def plainHeap : Heap := ⟨fun _ => 0, fun _ => ⟨0, 0⟩⟩

theorem first_reachable : ∃ state p,
    Reachable (step .little plainShape 0x1000) (start 0x1000 plainHeap) state ∧ p ∈ state.live := by
  let next : Slots := { start 0x1000 plainHeap with
    heap := (start 0x1000 plainHeap).heap.exchange 0x1000
    exchanged := true }
  have exchanged : step .little plainShape 0x1000 (start 0x1000 plainHeap) .exchange = some next := by
    rw [step]
    exact if_pos ⟨rfl, rfl⟩
  have waiting := reachable_next (reachable_start _) exchanged
  have slot : 0x7F0000000008 ∈ plainShape.slots 0x7F0000000000 :=
    plainShape.mem_slots.mpr ⟨0, by decide, by decide⟩
  have allocates : next.Allocates plainShape 0x1000 0x7F0000000000 :=
    ⟨Or.inr rfl, fun _ => ⟨by decide, List.not_mem_nil⟩⟩
  have present : (step .little plainShape 0x1000 next (.allocate 0x7F0000000000)).isSome = true :=
    allocate_taken allocates (List.ne_nil_of_mem slot)
  obtain ⟨state, taken⟩ := Option.isSome_iff_exists.mp present
  obtain ⟨l, g, conserved⟩ := reachable_conserved waiting
  obtain ⟨p, live, _⟩ := conserved.unused taken
  exact ⟨state, p, reachable_next waiting taken, live ▸ List.mem_cons_self⟩

def coarseShape : Shape := ⟨0x50000, 16, by decide, by decide⟩

/-- Another thread releases an object, at the second attempt, and the owner gets it back. -/
def plainReturn : List Event :=
  [.exchange, .allocate 0x7F0000000000, .allocate 0x7F0000000000, .allocate 0x7F0000000000,
    .enter 0 0x7F0000050010, .load 0, .compareExchange 0 true, .compareExchange 0 false,
    .exchange, .allocate 0x7F0000100000]

theorem slots_conserved_return : ∃ state,
    run (step .little coarseShape 0x1000) (start 0x1000 plainHeap) plainReturn = some state ∧
    state.arenas = [0x7F0000000000] ∧
    state.live = [0x7F0000050010, 0x7F0000000010, 0x7F00000A0010] ∧
    ∃ l g, Kept .little coarseShape 0x1000 state l g := by
  have computed : (run (step .little coarseShape 0x1000) (start 0x1000 plainHeap) plainReturn).map
      (fun state => (state.arenas, state.live)) =
        some ([0x7F0000000000], [0x7F0000050010, 0x7F0000000010, 0x7F00000A0010]) := by
    decide +kernel
  obtain ⟨state, past, seen⟩ := Option.map_eq_some_iff.mp computed
  obtain ⟨arenas, live⟩ := Prod.mk.inj seen
  exact ⟨state, past, arenas, live,
    slots_conserved .little coarseShape 0x1000 plainHeap state ⟨plainReturn, past⟩⟩

end Slots

end Muddymask
