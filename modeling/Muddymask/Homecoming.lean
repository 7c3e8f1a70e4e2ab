import Muddymask.Recycling

/-!
`release` looks for the allocator of an object in the first word of the object,
where the user's data is, and not in the first word of its arena, where `append`
put it. So an object goes home if its user left the address of its allocator
there, and else it goes to whatever that word points at.
-/

namespace Muddymask

open Words Memory Heap Places Runs

namespace Heap
variable {order : ByteOrder} {heap : Heap}

def fill (heap : Heap) (p : Nat) (content : Bytes) : Heap :=
  { heap with memory := heap.memory.write p content }

theorem resolve_fill (p : Nat) {content : Bytes} (enough : kPointerSize ≤ content.length) :
    (heap.fill p content).resolve order p = ofBytes order (content.take kPointerSize) :=
  load_write p enough

/-! A release that nobody disturbs. -/

theorem loadGlobal_twice (allocator : UInt64) (p : Nat) :
    (heap.loadGlobal order allocator p).loadGlobal order allocator p =
      heap.loadGlobal order allocator p := by
  simp only [loadGlobal, store_store]

def linkGlobal (order : ByteOrder) (heap : Heap) (allocator : UInt64) (p : Nat) : Heap :=
  (heap.loadGlobal order allocator p).setAllocator allocator
    { heap.allocator allocator with globalNode := UInt64.ofNat p }

theorem compareExchange_linked (allocator : UInt64) (p : Nat) :
    (heap.loadGlobal order allocator p).compareExchange order allocator p false =
      (true, heap.linkGlobal order allocator p) := by
  rw [compareExchange]
  exact if_pos ⟨(load_store ..).symm, rfl⟩

theorem compareExchange_spurious (allocator : UInt64) (p : Nat) :
    (heap.loadGlobal order allocator p).compareExchange order allocator p true =
      (false, heap.loadGlobal order allocator p) := by
  rw [compareExchange, loadGlobal_twice]
  exact if_neg fun both => Bool.noConfusion both.2

theorem compareExchangeLoop_linked (allocator : UInt64) (p failures : Nat) :
    (heap.loadGlobal order allocator p).compareExchangeLoop order allocator p failures =
      heap.linkGlobal order allocator p := by
  induction failures with
  | zero => rw [compareExchangeLoop, compareExchange_linked]
  | succ failures ih => rw [compareExchangeLoop, compareExchange_spurious, ih]

theorem release_own {this : UInt64} {p : Nat} (own : heap.resolve order p = this) (failures : Nat) :
    heap.release order this p failures = (this, heap.pushLocal order this p) := by
  rw [release, own]
  exact if_pos rfl

theorem release_other {this : UInt64} {p : Nat} (other : heap.resolve order p ≠ this)
    (failures : Nat) : heap.release order this p failures =
      (heap.resolve order p, heap.linkGlobal order (heap.resolve order p) p) := by
  rw [release]
  refine (if_neg other).trans ?_
  rw [compareExchangeLoop_linked]

theorem release_fst (this : UInt64) {p : Nat} (failures : Nat) :
    (heap.release order this p failures).1 = heap.resolve order p := by
  by_cases own : heap.resolve order p = this
  · rw [release_own own, own]
  · rw [release_other own]

end Heap

namespace Slots
variable {order : ByteOrder} {shape : Shape} {this : UInt64} {state : Slots} {l g : List Nat}
  {p : Nat}

/-! The machine's steps are those of the code where an object resolves to its allocator. -/

theorem releaseLocal_release (inUse : p ∈ state.live) (idle : state.exchanged = false)
    (own : state.heap.resolve order p = this) (failures : Nat) :
    step order shape this state (.releaseLocal p) = some { state with
      heap := (state.heap.release order this p failures).2
      live := state.live.erase p } := by
  rw [step, release_own own]
  exact if_pos ⟨inUse, idle⟩

theorem spurious_run {thread : Nat} {heap : Heap} (stands : state.thread thread = .linked p)
    (loaded : state.heap = heap.loadGlobal order this p) (failures : Nat) :
    run (step order shape this) state (List.replicate failures (.compareExchange thread true)) =
      some state := by
  have again : state.heap.compareExchange order this p true = (false, state.heap) := by
    rw [loaded, compareExchange_spurious]
  have stays : step order shape this state (.compareExchange thread true) = some state := by
    simp [step, stands, again]
  induction failures with
  | zero => rw [List.replicate_zero, run_nil]
  | succ failures ih =>
      rw [List.replicate_succ, run_cons]
      exact ⟨state, stays, ih⟩

theorem release_run {thread : Nat} (inUse : p ∈ state.live) (idle : state.thread thread = .idle)
    (own : state.heap.resolve order p = this) {releaser : UInt64} (other : releaser ≠ this)
    (failures : Nat) :
    run (step order shape this) state (.enter thread p :: .load thread ::
      (List.replicate failures (.compareExchange thread true) ++ [.compareExchange thread false])) =
    some { state with
      heap := (state.heap.release order releaser p failures).2
      live := state.live.erase p } := by
  let entered : Slots := { state with
    live := state.live.erase p
    thread := state.setThread thread (.entered p) }
  let linked : Slots := { entered with
    heap := state.heap.loadGlobal order this p
    thread := entered.setThread thread (.linked p) }
  have enter : step order shape this state (.enter thread p) = some entered := by
    rw [step]
    exact if_pos ⟨inUse, idle⟩
  have load : step order shape this entered (.load thread) = some linked := by
    simp [step, entered, linked]
  have stands : linked.thread thread = .linked p := setThread_same ..
  have swap : linked.heap.compareExchange order this p false =
      (true, state.heap.linkGlobal order this p) := compareExchange_linked this p
  have final : linked.setThread thread .idle = state.thread := by
    funext other
    by_cases same : other = thread
    · rw [same, setThread_same, idle]
    · rw [setThread_other linked _ same]
      exact (setThread_other entered _ same).trans (setThread_other state _ same)
  rw [run_cons]
  refine ⟨entered, enter, (run_cons ..).mpr ⟨linked, load, (run_concat ..).mpr ⟨linked, ?_, ?_⟩⟩⟩
  · exact spurious_run stands rfl failures
  · rw [release_other (own ▸ other.symm), own]
    simp [step, swap, final, linked, entered]

/-! Where an object goes. -/

/-- `p` has come to the list of the allocator `this` that `releaser` may push to, and
no other allocator was touched. -/
structure Home (order : ByteOrder) (this releaser : UInt64) (before : Heap) (p : Nat)
    (result : UInt64 × Heap) : Prop where
  dereferenced : result.1 = this
  others : ∀ other, other ≠ this → result.2.allocator other = before.allocator other
  lists : ∃ l g, Chain order before.memory (before.allocator this).localNode l ∧
    Chain order before.memory (before.allocator this).globalNode g ∧
    Chain order result.2.memory (result.2.allocator this).localNode
      (if releaser = this then p :: l else l) ∧
    Chain order result.2.memory (result.2.allocator this).globalNode
      (if releaser = this then g else p :: g)

/-- `p` is on no list of the allocator. -/
def Lost (order : ByteOrder) (this : UInt64) (p : Nat) (after : Heap) : Prop :=
  ∃ l g, Chain order after.memory (after.allocator this).localNode l ∧
    Chain order after.memory (after.allocator this).globalNode g ∧ p ∉ l ∧ p ∉ g

namespace Conserved
variable (conserved : Conserved order shape this state l g)
include conserved

theorem fills (inUse : p ∈ state.live) {content : Bytes} (whole : content.length = shape.tObjectSize) :
    Conserved order shape this { state with heap := state.heap.fill p content } l g := by
  refine conserved.rewritten fun a tight => write_outside _ fun inside => tight (Or.inl ?_)
  exact ⟨p, .user, inUse, by simp, by simp, inside.1, whole ▸ inside.2⟩

theorem release_home (inUse : p ∈ state.live) (own : state.heap.resolve order p = this)
    (releaser : UInt64) (failures : Nat) :
    Home order this releaser state.heap p (state.heap.release order releaser p failures) := by
  by_cases same : releaser = this
  · subst same
    have home := conserved.pushesLocal inUse
    rw [release_own own]
    refine ⟨rfl, fun other apart => setLocal_other _ _ _ apart, l, g, conserved.localChain,
      conserved.globalChain, ?_, ?_⟩
    · rw [if_pos rfl]
      exact home.localChain
    · rw [if_pos rfl]
      exact home.globalChain
  · have member : p ∈ state.contents l g .user := inUse
    have carved := conserved.carved_user inUse
    have touched := conserved.stored_at member (by simp) (by simp)
      (state.heap.allocator this).globalNode
    obtain ⟨positive, small⟩ := conserved.address carved
    rw [release_other (own ▸ Ne.symm same), own]
    refine ⟨rfl, fun other apart => setAllocator_other _ _ apart, l, g, conserved.localChain,
      conserved.globalChain, ?_, ?_⟩
    · rw [if_neg same, linkGlobal, setAllocator_same]
      exact touched.localChain
    · rw [if_neg same, linkGlobal, setAllocator_same]
      refine chain_push positive small (fun q onGlobal => ?_) conserved.globalChain
      have inList : q ∈ state.contents l g .globalList := onGlobal
      exact conserved.nodes_apart carved (conserved.carved_global onGlobal)
        (conserved.distinct member inList (by simp))

/-- Any other object is lost: the lists of its allocator stay as they are. -/
theorem release_lost (inUse : p ∈ state.live) (away : state.heap.resolve order p ≠ this)
    (releaser : UInt64) (failures : Nat) :
    Lost order this p (state.heap.release order releaser p failures).2 := by
  have member : p ∈ state.contents l g .user := inUse
  have absent : p ∉ l ∧ p ∉ g := by
    constructor
    · intro onLocal
      have inList : p ∈ state.contents l g .localList := onLocal
      exact conserved.distinct member inList (by simp) rfl
    · intro onGlobal
      have inList : p ∈ state.contents l g .globalList := onGlobal
      exact conserved.distinct member inList (by simp) rfl
  by_cases same : state.heap.resolve order p = releaser
  · have touched := conserved.stored_at member (by simp) (by simp)
      (state.heap.allocator releaser).localNode
    have kept := setLocal_other state.heap releaser
      (push order (state.heap.memory, (state.heap.allocator releaser).localNode) p)
      (fun alike => away (same.trans alike.symm) : this ≠ releaser)
    rw [release_own same, pushLocal, Lost, kept]
    exact ⟨l, g, touched.localChain, touched.globalChain, absent⟩
  · have touched := conserved.stored_at member (by simp) (by simp)
      (state.heap.allocator (state.heap.resolve order p)).globalNode
    have kept : (state.heap.linkGlobal order (state.heap.resolve order p) p).allocator this =
      state.heap.allocator this := setAllocator_other _ _ away.symm
    rw [release_other same, Lost, kept]
    exact ⟨l, g, touched.localChain, touched.globalChain, absent⟩

end Conserved

/-- Whatever the user of an object has written to it, and whoever releases it, it
goes home exactly if it begins with the address of its allocator. Else it is on no
list of its allocator. -/
theorem homecoming_iff (order : ByteOrder) (shape : Shape) (this : UInt64) (heap : Heap)
    (state : Slots) (reached : Reachable (step order shape this) (start this heap) state) (p : Nat)
    (inUse : p ∈ state.live) (content : Bytes) (whole : content.length = shape.tObjectSize)
    (releaser : UInt64) (failures : Nat) :
    (Home order this releaser (state.heap.fill p content) p
        ((state.heap.fill p content).release order releaser p failures) ↔
      ofBytes order (content.take kPointerSize) = this) ∧
    (ofBytes order (content.take kPointerSize) ≠ this →
      Lost order this p ((state.heap.fill p content).release order releaser p failures).2) := by
  obtain ⟨l, g, conserved⟩ := reachable_conserved reached
  have filled := conserved.fills inUse whole
  have word : (state.heap.fill p content).resolve order p =
      ofBytes order (content.take kPointerSize) := resolve_fill p (whole ▸ shape.node)
  rw [← word]
  refine ⟨⟨fun home => ?_, fun own => filled.release_home inUse own releaser failures⟩,
    fun away => filled.release_lost inUse away releaser failures⟩
  rw [← release_fst releaser failures]
  exact home.dereferenced

theorem homecoming_marked : ∃ state p,
    Reachable (step .little plainShape 0x1000) (start 0x1000 plainHeap) state ∧ p ∈ state.live ∧
    (Home .little 0x1000 0x2000 (state.heap.fill p (bytes .little 0x1000 ++ List.replicate 16 7)) p
        ((state.heap.fill p (bytes .little 0x1000 ++ List.replicate 16 7)).release .little 0x2000 p 1) ↔
      ofBytes .little ((bytes .little 0x1000 ++ List.replicate 16 7).take kPointerSize) = 0x1000) ∧
    (ofBytes .little ((bytes .little 0x1000 ++ List.replicate 16 7).take kPointerSize) ≠ 0x1000 →
      Lost .little 0x1000 p
        ((state.heap.fill p (bytes .little 0x1000 ++ List.replicate 16 7)).release .little 0x2000 p
          1).2) := by
  obtain ⟨state, p, reached, inUse⟩ := first_reachable
  exact ⟨state, p, reached, inUse,
    homecoming_iff .little plainShape 0x1000 plainHeap state reached p inUse _ rfl 0x2000 1⟩

/-- A zeroed object that its own allocator releases. -/
theorem homecoming_fails : ∃ state p,
    Reachable (step .little plainShape 0x1000) (start 0x1000 plainHeap) state ∧ p ∈ state.live ∧
    ¬ Home .little 0x1000 0x1000 (state.heap.fill p (List.replicate 24 0)) p
      ((state.heap.fill p (List.replicate 24 0)).release .little 0x1000 p 0) := by
  obtain ⟨state, p, reached, inUse⟩ := first_reachable
  refine ⟨state, p, reached, inUse, fun home => ?_⟩
  have found := home.dereferenced
  rw [release_fst, resolve_fill p (by decide)] at found
  exact absurd found (by decide)

end Slots

end Muddymask
