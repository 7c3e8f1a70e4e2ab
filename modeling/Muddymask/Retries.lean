import Mathlib.Data.Finset.Card
import Muddymask.Recycling

/-!
Pushing to `global` without a lock. A thread has to try again only if `global` has
changed since it looked, and that takes another push or an exchange of the owner,
so with `n` threads there are at most `n` such retries for every one of these. A
thread that is held up is held up by threads that get on.
-/

namespace Muddymask

open Words Memory Heap Places Runs

namespace Slots

section Definitions
variable (order : ByteOrder) (this : UInt64) (state : Slots)

/-- The thread has linked its object to what is the top no longer. -/
def stale (thread : Nat) : Bool :=
  match state.thread thread with
  | .linked p => decide ((state.heap.allocator this).globalNode ≠ load order state.heap.memory p)
  | _ => false

def stales (n : Nat) : Nat := ((Finset.range n).filter fun thread => stale order this state thread).card

/-- A `compare_exchange_weak` of one of the first `n` threads that fails, but not
spuriously. -/
def retries (n : Nat) : Event → Nat
  | .compareExchange thread false =>
      if thread < n ∧ stale order this state thread = true then 1 else 0
  | _ => 0

/-- An exchange of the owner, or a `compare_exchange_weak` that succeeds. -/
def changes : Event → Nat
  | .exchange => 1
  | .compareExchange thread false => if stale order this state thread then 0 else 1
  | _ => 0

end Definitions

section Steps
variable {order : ByteOrder} {shape : Shape} {this : UInt64} {state next : Slots}
  {event : Event} {l g : List Nat} {n : Nat}

theorem stales_le (n : Nat) : stales order this state n ≤ n :=
  Nat.le_trans (Finset.card_filter_le ..) (Nat.le_of_eq (Finset.card_range n))

theorem stales_mono (kept : ∀ other, stale order this next other = true →
    stale order this state other = true) : stales order this next n ≤ stales order this state n :=
  Finset.card_le_card (Finset.monotone_filter_right _ fun other _ => kept other)

theorem stales_lt {thread : Nat} (few : thread < n) (before : stale order this state thread = true)
    (after : stale order this next thread = false)
    (kept : ∀ other, stale order this next other = true → stale order this state other = true) :
    stales order this next n + 1 ≤ stales order this state n := by
  refine Finset.card_lt_card ⟨Finset.monotone_filter_right _ fun other _ => kept other, fun all => ?_⟩
  have member := all (Finset.mem_filter.mpr ⟨Finset.mem_range.mpr few, before⟩)
  rw [(Finset.mem_filter.mp member).2] at after
  cases after

/-- A step of somebody else that leaves `global` and the objects in hands alone. -/
theorem stale_same {other : Nat} (thread : next.thread other = state.thread other)
    (global : (next.heap.allocator this).globalNode = (state.heap.allocator this).globalNode)
    (word : ∀ q ∈ (state.thread other).node,
      load order next.heap.memory q = load order state.heap.memory q) :
    stale order this next other = stale order this state other := by
  simp only [stale, thread]
  split
  · rename_i q stands
    rw [global, word q (by simp [stands, Releasing.node])]
  · rfl

theorem stale_linked {thread p : Nat} (stands : next.thread thread = .linked p)
    (looked : load order next.heap.memory p = (next.heap.allocator this).globalNode) :
    stale order this next thread = false := by
  simp [stale, stands, looked]

theorem pop_memory {heap : Heap} {result : Nat × Heap}
    (popped : heap.pop order this = some result) :
    result.2.memory = heap.memory ∧
      (result.2.allocator this).globalNode = (heap.allocator this).globalNode := by
  simp only [pop] at popped
  split at popped
  · cases popped
  · cases popped
    exact ⟨rfl, by simp⟩

theorem appendPop_memory (conserved : Conserved order shape this state l g) {arena : Nat}
    (new : (state.heap.allocator this).localNode = 0 → shape.Usable arena ∧ arena ∉ state.arenas)
    {result : Nat × Heap} (popped : state.heap.appendPop order shape this arena = some result) :
    (result.2.allocator this).globalNode = (state.heap.allocator this).globalNode ∧
      ∀ q, state.Carved shape q →
        load order result.2.memory q = load order state.heap.memory q := by
  by_cases null : (state.heap.allocator this).localNode = 0
  · obtain ⟨usable, absent⟩ := new null
    obtain ⟨slots, grown, done, spec⟩ := append_spec order usable.2 state.heap this
    rw [appendPop_none null, done, Option.bind_some] at popped
    obtain ⟨memory, global⟩ := pop_memory popped
    refine ⟨global.trans spec.globalNode, fun q carved => ?_⟩
    obtain ⟨other, inside, slot⟩ := carved
    obtain ⟨_, behind, before⟩ := shape.slot_bounds slot
    have node := shape.node
    have beside := Shape.arenas_apart usable.1 (conserved.usable other inside).1
      fun same => absent (same ▸ inside)
    rw [memory]
    exact load_congr fun a low high => spec.outside a (by omega)
  · rw [appendPop_some null] at popped
    obtain ⟨memory, global⟩ := pop_memory popped
    exact ⟨global, fun q _ => by rw [memory]⟩

theorem Conserved.hands_apart (conserved : Conserved order shape this state l g) {p q other : Nat}
    {place : Place} (member : p ∈ state.contents l g place) (holds : q ∈ (state.thread other).node)
    (different : place ≠ .hands other) :
    p + shape.tObjectSize ≤ q ∨ q + shape.tObjectSize ≤ p := by
  have inHands : q ∈ state.contents l g (.hands other) := holds
  exact conserved.apart (conserved.carved member) (conserved.carved inHands)
    (conserved.distinct member inHands different)

/-- A step after which no other thread is stale that was not, and the acting thread is not. -/
theorem quiet_paid (thread : Nat) (retries : state.retries order this n event = 0)
    (others : ∀ other, other ≠ thread → stale order this next other = stale order this state other)
    (fresh : stale order this next thread = false) :
    state.retries order this n event + stales order this next n ≤
      n * state.changes order this event + stales order this state n := by
  have fewer : stales order this next n ≤ stales order this state n := by
    refine stales_mono fun other late => ?_
    by_cases same : other = thread
    · rw [same, fresh] at late
      cases late
    · rwa [others other same] at late
  omega

/-- The thread links its object to what it takes for the top, and nobody else notices. -/
theorem links_paid (conserved : Conserved order shape this state l g) {thread p : Nat}
    {before : Releasing} (stands : state.thread thread = before) (holds : before.node = [p])
    (heap : next.heap = state.heap.loadGlobal order this p)
    (threads : next.thread = state.setThread thread (.linked p)) :
    (∀ other, other ≠ thread → stale order this next other = stale order this state other) ∧
      stale order this next thread = false := by
  refine ⟨fun other apart => ?_, ?_⟩
  · refine stale_same (by rw [threads, setThread_other _ _ apart]) (by rw [heap]; rfl) fun q held => ?_
    have member : p ∈ state.contents l g (.hands thread) := by simp [contents, stands, holds]
    have node := shape.node
    have beside := conserved.hands_apart member held (by simpa using Ne.symm apart)
    rw [heap]
    exact load_store_apart (by omega)
  · refine stale_linked (p := p) (by rw [threads, setThread_same]) ?_
    rw [heap]
    exact load_store ..

theorem compareExchange_paid (conserved : Conserved order shape this state l g) {thread p : Nat}
    {spurious : Bool} (stands : state.thread thread = .linked p)
    (heap : next.heap = (state.heap.compareExchange order this p spurious).2)
    (threads : next.thread = if (state.heap.compareExchange order this p spurious).1
      then state.setThread thread .idle else state.thread) :
    state.retries order this n (.compareExchange thread spurious) + stales order this next n ≤
      n * state.changes order this (.compareExchange thread spurious) +
        stales order this state n := by
  by_cases same : (state.heap.allocator this).globalNode = Memory.load order state.heap.memory p ∧
      spurious = false
  · -- The push comes about, and whoever has looked before it is stale now.
    have current : stale order this state thread = false := stale_linked stands same.1.symm
    have all : stales order this next n ≤ n := stales_le n
    simp only [same.2, retries, changes, current, Bool.false_eq_true, and_false, ↓reduceIte]
    omega
  · -- It does not, but the thread has taken another look and is not stale.
    rw [Heap.compareExchange, if_neg same] at heap threads
    simp only [Bool.false_eq_true, ↓reduceIte] at threads
    rw [← setThread_self stands] at threads
    obtain ⟨others, fresh⟩ := links_paid conserved stands rfl heap threads
    cases spurious with
    | true => exact quiet_paid thread rfl others fresh
    | false =>
        have late : stale order this state thread = true := by
          simpa [stale, stands] using same
        by_cases counts : thread < n
        · have fewer : stales order this next n + 1 ≤ stales order this state n := by
            refine stales_lt counts late fresh fun other stays => ?_
            by_cases here : other = thread
            · rwa [here]
            · rwa [others other here] at stays
          simp only [retries, changes, counts, late, true_and, ↓reduceIte]
          omega
        · exact quiet_paid thread (if_neg fun both => counts both.1) others fresh

theorem step_paid (conserved : Conserved order shape this state l g)
    (taken : step order shape this state event = some next) :
    state.retries order this n event + stales order this next n ≤
      n * state.changes order this event + stales order this state n := by
  have untouched : (∀ other, stale order this next other = stale order this state other) →
      stales order this next n ≤ stales order this state n :=
    fun same => stales_mono fun other late => same other ▸ late
  have node := shape.node
  cases event with
  | exchange =>
      -- whoever has looked before is stale now
      have all : stales order this next n ≤ n := stales_le n
      simp only [retries, changes]
      omega
  | allocate arena =>
      rw [step, Option.ite_none_right_eq_some] at taken
      obtain ⟨⟨_, new⟩, done⟩ := taken
      obtain ⟨result, popped, same⟩ := Option.map_eq_some_iff.mp done
      cases same
      obtain ⟨global, words⟩ := appendPop_memory conserved new popped
      have fewer := untouched fun other => stale_same rfl global fun q held => by
        have member : q ∈ state.contents l g (.hands other) := held
        exact words q (conserved.carved member)
      simpa [retries, changes] using fewer
  | releaseLocal p =>
      rw [step, Option.ite_none_right_eq_some] at taken
      obtain ⟨⟨inUse, _⟩, same⟩ := taken
      cases same
      have fewer := untouched fun other => stale_same rfl (by simp [pushLocal]) fun q held => by
        have member : p ∈ state.contents l g .user := inUse
        have beside := conserved.hands_apart member held (by simp)
        exact load_store_apart (by omega)
      simpa [retries, changes] using fewer
  | enter thread p =>
      rw [step, Option.ite_none_right_eq_some] at taken
      obtain ⟨_, same⟩ := taken
      cases same
      refine quiet_paid thread rfl (fun other apart => ?_) (by simp [stale])
      exact stale_same (setThread_other _ _ apart) rfl fun _ _ => rfl
  | load thread =>
      rw [step] at taken
      split at taken
      · rename_i p stands
        have same := Option.some.inj taken
        obtain ⟨others, fresh⟩ := @links_paid order shape this state next l g conserved thread p _ stands rfl
          (by rw [← same]) (by rw [← same])
        exact quiet_paid thread rfl others fresh
      · cases taken
  | compareExchange thread spurious =>
      rw [step] at taken
      split at taken
      · rename_i p stands
        have same := Option.some.inj taken
        exact compareExchange_paid conserved stands (by rw [← same])
          (by rw [← same])
      · cases taken
  | write a byte =>
      rw [step, Option.ite_none_right_eq_some] at taken
      obtain ⟨writable, same⟩ := taken
      cases same
      have fewer := untouched fun other => stale_same rfl rfl fun q held => by
        refine load_congr fun b low high => write_outside _ ?_
        simp only [List.length_singleton]
        rcases writable with ⟨p, inUse, first, last⟩ | outside
        · have member : p ∈ state.contents l g .user := inUse
          have beside := conserved.hands_apart member held (by simp)
          omega
        · have member : q ∈ state.contents l g (.hands other) := held
          obtain ⟨arena, inside, slot⟩ := conserved.carved member
          obtain ⟨_, behind, before⟩ := shape.slot_bounds slot
          have beside := outside arena inside
          omega
      simpa [retries, changes] using fewer

end Steps

/-- In every run, the threads below `n`, which release objects to an allocator that is
not theirs, try again at most `n` times, spurious failures apart, for every time that
`global` changes: each change is a push that comes about or an exchange of the owner. -/
theorem release_lock_free (order : ByteOrder) (shape : Shape) (this : UInt64) (heap : Heap)
    (events : List Event) (final : Slots)
    (past : run (step order shape this) (start this heap) events = some final) (n : Nat) :
    total (step order shape this) (retries order this · n) (start this heap) events ≤
      n * total (step order shape this) (changes order this) (start this heap) events := by
  have paid := total_amortised (fun state => ∃ l g, Conserved order shape this state l g)
    (retries order this · n) (changes order this) (stales order this · n) 1 n
    (fun _ _ _ ⟨l, g, conserved⟩ taken => step_conserved conserved taken)
    (fun _ _ _ ⟨l, g, conserved⟩ taken => by
      rw [Nat.one_mul]
      exact step_paid conserved taken)
    (start this heap) final events ⟨[], [], start_conserved heap⟩ past
  have none : stales order this (start this heap) n = 0 := by
    simp [stales, stale, start]
  rw [none, Nat.one_mul] at paid
  exact Nat.le_trans (Nat.le_add_right _ _) paid

def plainContention : List Event :=
  [.exchange, .allocate 0x7F0000000000, .allocate 0x7F0000000000,
    .enter 0 0x7F00000A0010, .enter 1 0x7F0000050010, .load 0, .load 1,
    .compareExchange 0 false, .compareExchange 1 false, .compareExchange 1 false]

theorem release_lock_free_pair : ∃ final,
    run (step .little coarseShape 0x1000) (start 0x1000 plainHeap) plainContention = some final ∧
    total (step .little coarseShape 0x1000) (retries .little 0x1000 · 2) (start 0x1000 plainHeap)
        plainContention ≤
      2 * total (step .little coarseShape 0x1000) (changes .little 0x1000) (start 0x1000 plainHeap)
        plainContention := by
  have computed : (run (step .little coarseShape 0x1000) (start 0x1000 plainHeap)
      plainContention).isSome = true := by
    decide +kernel
  obtain ⟨final, past⟩ := Option.isSome_iff_exists.mp computed
  exact ⟨final, past, release_lock_free .little coarseShape 0x1000 plainHeap plainContention final
    past 2⟩

example : (total (step .little coarseShape 0x1000) (retries .little 0x1000 · 2)
      (start 0x1000 plainHeap) plainContention,
    total (step .little coarseShape 0x1000) (changes .little 0x1000) (start 0x1000 plainHeap)
      plainContention) = (1, 3) := by
  decide +kernel

end Slots

end Muddymask
