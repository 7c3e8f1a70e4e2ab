import Mathlib.Data.List.DropRight
import Muddymask.DummyCrypto

/-!
`basename` of `source/common/util/path.cpp`. It scans a path backwards twice:
over trailing separators and over the last component. A scan that ends at the
start of the path says nothing about what is there, and a separator there is
taken for the start of the component.
-/

namespace Muddymask.Util

open Words DummyCrypto

/-- `while (p > path && !stop(*p)) --p`; `none` if a byte is read that the string
does not have. -/
def scanBack (stop : UInt8 → Bool) (path : Bytes) : Nat → Option Nat
  | 0 => some 0
  | p + 1 => path[p + 1]?.bind fun c => if stop c then some (p + 1) else scanBack stop path p

/-- The offset of the result; `path` is what the memory there holds. -/
def basename (separator : UInt8) (path : Bytes) : Option Nat :=
  let path := cString path
  if path.length = 0 then some 0
  else
    (scanBack (· ≠ separator) path (path.length - 1)).bind fun p =>
      (scanBack (· = separator) path p).map fun p => if p = 0 then 0 else p + 1

theorem scanBack_inside (stop : UInt8 → Bool) {path : Bytes} {p : Nat} (inside : p < path.length) :
    ∃ q ≤ p, scanBack stop path p = some q := by
  induction p with
  | zero => exact ⟨0, Nat.le_refl 0, rfl⟩
  | succ p ih =>
      rw [scanBack, List.getElem?_eq_getElem inside, Option.bind_some]
      split
      · exact ⟨p + 1, Nat.le_refl _, rfl⟩
      · obtain ⟨q, before, found⟩ := ih (Nat.lt_of_succ_lt inside)
        exact ⟨q, Nat.le_succ_of_le before, found⟩

theorem basename_inside (separator : UInt8) (path : Bytes) :
    ∃ offset ≤ (cString path).length, basename separator path = some offset := by
  rw [basename]
  split
  · exact ⟨0, Nat.zero_le _, rfl⟩
  · obtain ⟨p, before, first⟩ := scanBack_inside (· ≠ separator)
      (Nat.sub_one_lt ‹(cString path).length ≠ 0›)
    have inside : p < (cString path).length := by omega
    obtain ⟨q, below, second⟩ := scanBack_inside (· = separator) inside
    rw [first, Option.bind_some, second, Option.map_some]
    refine ⟨_, ?_, rfl⟩
    split <;> omega

/-- Where a scan ends: at the start or at the last byte it stops at. -/
theorem scanBack_eq {stop : UInt8 → Bool} {path : Bytes} {p target : Nat} (before : target ≤ p)
    (passed : ∀ k, target < k → k ≤ p → ∃ c, path[k]? = some c ∧ stop c = false)
    (stops : target = 0 ∨ ∃ c, path[target]? = some c ∧ stop c = true) :
    scanBack stop path p = some target := by
  induction p with
  | zero => rw [Nat.le_zero.mp before, scanBack]
  | succ p ih =>
      rcases Nat.lt_or_eq_of_le before with below | rfl
      · obtain ⟨c, here, going⟩ := passed (p + 1) below (Nat.le_refl _)
        rw [scanBack, here, Option.bind_some, if_neg (by simp [going])]
        exact ih (Nat.le_of_lt_succ below) fun k above inside =>
          passed k above (Nat.le_succ_of_le inside)
      · rcases stops with zero | ⟨c, here, stopped⟩
        · cases zero
        · rw [scanBack, here, Option.bind_some, if_pos stopped]

/-- The last component of a path, between what is before it and trailing separators. -/
structure Component (separator : UInt8) (path front component trailing : Bytes) : Prop where
  whole : path = front ++ (component ++ trailing)
  named : component ≠ []
  plain : separator ∉ component
  closed : ∀ c ∈ trailing, c = separator
  start : front = [] ∨ ∃ parents, front = parents ++ [separator]

theorem component_exists {separator : UInt8} {path : Bytes} (visible : ∃ c ∈ path, c ≠ separator) :
    ∃ front component trailing, Component separator path front component trailing := by
  let body := path.rdropWhile (· = separator)
  have nonempty : body ≠ [] := by
    intro empty
    obtain ⟨c, member, different⟩ := visible
    exact different (by simpa using List.rdropWhile_eq_nil_iff.mp empty c member)
  refine ⟨body.rdropWhile (· ≠ separator), body.rtakeWhile (· ≠ separator),
    path.rtakeWhile (· = separator), ?_, ?_, ?_, ?_, ?_⟩
  · rw [← List.append_assoc, List.rdropWhile_append_rtakeWhile, List.rdropWhile_append_rtakeWhile]
  · intro empty
    have last : body.getLast nonempty ≠ separator := fun same =>
      List.rdropWhile_last_not _ _ nonempty (decide_eq_true same)
    exact List.rtakeWhile_eq_nil_iff.mp empty nonempty (decide_eq_true last)
  · intro member
    simpa using List.mem_rtakeWhile_imp member
  · intro c member
    simpa using List.mem_rtakeWhile_imp member
  · by_cases empty : body.rdropWhile (· ≠ separator) = []
    · exact Or.inl empty
    · have last : (body.rdropWhile (· ≠ separator)).getLast empty = separator := by
        by_contra different
        exact List.rdropWhile_last_not _ _ empty (decide_eq_true different)
      refine Or.inr ⟨(body.rdropWhile (· ≠ separator)).dropLast, ?_⟩
      have joined := List.dropLast_append_getLast empty
      rw [last] at joined
      exact joined.symm

section
variable {separator : UInt8} {path front component trailing : Bytes}

namespace Component
variable (split : Component separator path front component trailing)
include split

theorem length_pos : 0 < component.length := List.length_pos_of_ne_nil split.named

theorem length_eq : path.length = front.length + component.length + trailing.length := by
  rw [split.whole, List.length_append, List.length_append, Nat.add_assoc]

theorem inside {k : Nat} (low : front.length ≤ k) (high : k < front.length + component.length) :
    ∃ c, path[k]? = some c ∧ c ≠ separator := by
  obtain ⟨i, rfl⟩ := Nat.exists_eq_add_of_le low
  have within : i < component.length := by omega
  refine ⟨component[i], ?_, fun same => split.plain (same ▸ List.getElem_mem within)⟩
  rw [split.whole, List.getElem?_append_right (Nat.le_add_right ..), Nat.add_sub_cancel_left,
    List.getElem?_append_left within, List.getElem?_eq_getElem within]

theorem behind {k : Nat} (low : front.length + component.length ≤ k) (high : k < path.length) :
    path[k]? = some separator := by
  obtain ⟨i, rfl⟩ := Nat.exists_eq_add_of_le low
  have within : i < trailing.length := by
    have := split.length_eq
    omega
  rw [split.whole, Nat.add_assoc, List.getElem?_append_right (Nat.le_add_right ..),
    Nat.add_sub_cancel_left, List.getElem?_append_right (Nat.le_add_right ..),
    Nat.add_sub_cancel_left, List.getElem?_eq_getElem within, split.closed _ (List.getElem_mem within)]

theorem before (nonempty : front ≠ []) : path[front.length - 1]? = some separator := by
  rcases split.start with empty | ⟨parents, rfl⟩
  · exact absurd empty nonempty
  · rw [split.whole, List.append_assoc, List.length_append, List.length_singleton,
      Nat.add_sub_cancel, List.getElem?_append_right (Nat.le_refl _), Nat.sub_self]
    rfl

theorem scans : scanBack (· ≠ separator) path (path.length - 1) =
      some (front.length + component.length - 1) ∧
    scanBack (· = separator) path (front.length + component.length - 1) =
      some (front.length - 1) := by
  have positive := split.length_pos
  have whole := split.length_eq
  constructor
  · refine scanBack_eq (by omega) (fun k low high => ?_) (Or.inr ?_)
    · exact ⟨separator, split.behind (by omega) (by omega), by simp⟩
    · obtain ⟨c, here, different⟩ := split.inside (k := front.length + component.length - 1)
        (by omega) (by omega)
      exact ⟨c, here, by simpa using different⟩
  · refine scanBack_eq (by omega) (fun k low high => ?_) ?_
    · obtain ⟨c, here, different⟩ := split.inside (k := k) (by omega) (by omega)
      exact ⟨c, here, by simpa using different⟩
    · by_cases empty : front = []
      · exact Or.inl (by rw [empty]; rfl)
      · exact Or.inr ⟨separator, split.before empty, by simp⟩

end Component

/-- The result is the start of the last component, or of the path if there is just
one byte before the component. -/
theorem basename_component (split : Component separator (cString path) front component trailing) :
    basename separator path = some (if front.length = 1 then 0 else front.length) := by
  have positive := split.length_pos
  have whole := split.length_eq
  obtain ⟨first, second⟩ := split.scans
  rw [basename, if_neg (by omega), first, Option.bind_some, second, Option.map_some]
  congr 1
  split_ifs <;> omega

/-- What `basename` has to do: stay inside of the string, and find the last component
of a path that has one. -/
def FindsComponent (separator : UInt8) (path : Bytes) : Prop :=
  (∃ offset ≤ (cString path).length, basename separator path = some offset) ∧
  ((∃ c ∈ cString path, c ≠ separator) → ∃ front component trailing,
    Component separator (cString path) front component trailing ∧
    basename separator path = some front.length ∧
    ∃ c, ((cString path).drop front.length).head? = some c ∧ c ≠ separator)

/-- A separator that starts the path and precedes its last component is taken for
part of it. -/
theorem rooted_fails (rooted : Component separator (cString path) [separator] component trailing) :
    ¬ FindsComponent separator path := by
  rintro ⟨_, finds⟩
  have positive := rooted.length_pos
  have visible : ∃ c ∈ cString path, c ≠ separator := by
    obtain ⟨c, here, different⟩ := rooted.inside (k := 1) (by simp) (by
      rw [List.length_singleton]
      omega)
    exact ⟨c, List.mem_of_getElem? here, different⟩
  obtain ⟨front, other, rest, split, result, _⟩ := finds visible
  rw [basename_component rooted] at result
  have empty : front = [] := List.length_eq_zero_iff.mp (Option.some.inj result).symm
  have positive := split.length_pos
  obtain ⟨c, here, different⟩ := split.inside (k := 0) (by simp [empty]) (by omega)
  rw [rooted.whole] at here
  exact different (Option.some.inj here).symm

/-- The result is what it has to be unless all that precedes the last component is
one separator. -/
theorem basename_iff (separator : UInt8) (path : Bytes) : FindsComponent separator path ↔
    ∀ component trailing, ¬ Component separator (cString path) [separator] component trailing := by
  constructor
  · intro finds component trailing rooted
    exact rooted_fails rooted finds
  · intro unrooted
    refine ⟨basename_inside separator path, fun visible => ?_⟩
    obtain ⟨front, component, trailing, split⟩ := component_exists visible
    refine ⟨front, component, trailing, split, ?_, ?_⟩
    · rw [basename_component split, if_neg fun one => ?_]
      rcases split.start with rfl | ⟨parents, rfl⟩
      · cases one
      · have none : parents = [] := by simpa using one
        subst none
        exact unrooted component trailing split
    · obtain ⟨c, here, different⟩ := split.inside (k := front.length) (Nat.le_refl _) (by
        have := split.length_pos
        omega)
      exact ⟨c, by rw [List.head?_drop]; exact here, different⟩

/-- A file in the root directory. -/
theorem basename_fails : ¬ FindsComponent 47 (ascii "/abc") := by
  have rooted : Component 47 (cString (ascii "/abc")) [47] (ascii "abc") [] :=
    ⟨by decide, by decide, by decide, by decide +kernel, Or.inr ⟨[], rfl⟩⟩
  exact rooted_fails rooted

end

end Muddymask.Util
