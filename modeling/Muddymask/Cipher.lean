import Mathlib.Data.List.TakeWhile
import Muddymask.DummyCrypto

/-!
What the cipher and its key are, byte by byte. A buffer meets the four bytes of
the key over and over; a key is the four lanes of its secret, each the exclusive
or of every fourth byte. So a secret that repeats a whole number of words an even
number of times has the key zero, and nothing is encrypted.
-/

namespace Muddymask.DummyCrypto

open Words

section Stream
variable (order : ByteOrder) (crypto : DummyCrypto) (text : Bytes)

/-- A buffer in two parts, the first of which is a whole number of words. -/
theorem encrypt_parts (first length : Nat) (fits : length ≤ text.length) (inside : first ≤ length)
    (aligned : first % 4 = 0) :
    (encrypt order crypto text first).take first ++
        encrypt order crypto ((encrypt order crypto text first).drop first) (length - first) =
      encrypt order crypto text length := by
  have early : first ≤ text.length := Nat.le_trans inside fits
  have sameLength := encrypt_length order crypto text first early
  have front : ((encrypt order crypto text first).take first).length = first := by
    rw [List.length_take, sameLength]
    exact Nat.min_eq_left early
  have rest : length - first ≤ ((encrypt order crypto text first).drop first).length := by
    rw [List.length_drop, sameLength]
    exact Nat.sub_le_sub_right fits first
  apply List.ext_getElem?
  intro j
  rw [List.getElem?_append, front, encrypt_getElem? _ _ _ _ _ fits]
  by_cases low : j < first
  · rw [if_pos low, List.getElem?_take_of_lt low, encrypt_getElem? _ _ _ _ _ early]
    simp only [low, Nat.lt_of_lt_of_le low inside]
  · have back : first + (j - first) = j := by omega
    have lane : (j - first) % 4 = j % 4 := by omega
    rw [if_neg low, encrypt_getElem? _ _ _ _ _ rest, List.getElem?_drop, back,
      encrypt_getElem? _ _ _ _ _ early, Option.map_map, lane]
    congr 1
    funext byte
    have same : j - first < length - first ↔ j < length := by omega
    simp [low, same]

/-- The cipher is a byte stream, undoes itself, and goes on where it stopped. -/
theorem cipher_exact (length : Nat) (fits : length ≤ text.length) :
    (∀ j, (encrypt order crypto text length)[j]? =
      text[j]?.map fun byte =>
        if j < length then byte ^^^ byte32 order crypto.key (j % 4) else byte) ∧
    decrypt order crypto (encrypt order crypto text length) length = text ∧
    ∀ first ≤ length, first % 4 = 0 →
      (encrypt order crypto text first).take first ++
          encrypt order crypto ((encrypt order crypto text first).drop first) (length - first) =
        encrypt order crypto text length :=
  ⟨fun j => encrypt_getElem? order crypto text length j fits,
    decrypt_encrypt order crypto text length fits,
    fun first inside aligned => encrypt_parts order crypto text first length fits inside aligned⟩

theorem cipher_exact_word_and_a_half :
    (∀ j : Nat, (encrypt .little ⟨0x04030201⟩ [7, 7, 7, 7, 7, 7, 7] 6)[j]? =
      ([7, 7, 7, 7, 7, 7, 7] : Bytes)[j]?.map fun byte =>
        if j < 6 then byte ^^^ byte32 .little 0x04030201 (j % 4) else byte) ∧
    encrypt .little ⟨0x04030201⟩ [7, 7, 7, 7, 7, 7, 7] 6 = [6, 5, 4, 3, 6, 5, 7] :=
  ⟨(cipher_exact .little ⟨0x04030201⟩ [7, 7, 7, 7, 7, 7, 7] 6 (by decide)).1, by decide⟩

end Stream

/-! The key. -/

/-- The exclusive or of the bytes below `length` at the positions that are `k` modulo 4. -/
def lane (k : Nat) (text : Bytes) (length : Nat) : UInt8 :=
  ((List.range length).filter fun j => j % 4 = k).foldl (fun lane j => lane ^^^ text.getD j 0) 0

theorem lane_succ (k : Nat) (text : Bytes) (length : Nat) :
    lane k text (length + 1) =
      if length % 4 = k then lane k text length ^^^ text.getD length 0 else lane k text length := by
  rw [lane, List.range_succ, List.filter_append, List.foldl_append]
  by_cases here : length % 4 = k <;> simp [here, lane]

/-- Nothing is added past the end. -/
theorem lane_past (k : Nat) (text : Bytes) {length : Nat} (past : text.length ≤ length) :
    lane k text length = lane k text text.length := by
  obtain ⟨extra, rfl⟩ := Nat.exists_eq_add_of_le past
  clear past
  induction extra with
  | zero => rfl
  | succ extra ih =>
      have absent : text.getD (text.length + extra) 0 = 0 := by simp
      rw [← Nat.add_assoc, lane_succ, ih, absent, UInt8.xor_zero, ite_self]

/-- A word adds one byte to each lane. -/
theorem lane_word (k : Nat) (text : Bytes) (count : Nat) (inside : k < 4) :
    lane k text (4 * (count + 1)) = lane k text (4 * count) ^^^ text.getD (4 * count + k) 0 := by
  have r0 : 4 * count % 4 = 0 := by omega
  have r1 : (4 * count + 1) % 4 = 1 := by omega
  have r2 : (4 * count + 2) % 4 = 2 := by omega
  have r3 : (4 * count + 3) % 4 = 3 := by omega
  rw [show 4 * (count + 1) = 4 * count + 1 + 1 + 1 + 1 by omega]
  simp only [lane_succ, r0, r1, r2, r3]
  rcases (by omega : k = 0 ∨ k = 1 ∨ k = 2 ∨ k = 3) with rfl | rfl | rfl | rfl <;> simp

theorem lane_words (order : ByteOrder) (k : Nat) (text : Bytes) (count : Nat) (inside : k < 4) :
    byte32 order ((List.range count).foldl
        (fun key word => key ^^^ loadWord order text (4 * word)) 0) k =
      lane k text (4 * count) := by
  induction count with
  | zero => exact byte32_zero order k
  | succ count ih =>
      rw [List.range_succ, List.foldl_append, List.foldl_cons, List.foldl_nil, byte32_xor, ih,
        byte32_loadWord order text _ k inside, lane_word k text count inside]

/-- Whole words and the padded last one alike: a byte of the key is a lane. -/
theorem key_lane (order : ByteOrder) (str : Bytes) (k : Nat) (inside : k < 4) :
    byte32 order (new order str).key k = lane k (cString str) (cString str).length := by
  have words := lane_words order k (cString str) ((cString str).length / 4) inside
  rw [new]
  by_cases tail : (cString str).length / 4 * 4 < (cString str).length
  · rw [if_pos tail, byte32_xor, words, byte32_loadWord order _ _ k inside,
      Nat.mul_comm _ 4, ← lane_word k _ _ inside]
    exact lane_past k _ (by omega)
  · rw [if_neg tail, words]
    congr 1
    omega

/-- No byte is the terminator. -/
def NulFree (str : Bytes) : Prop := ∀ byte ∈ str, byte ≠ 0

instance (str : Bytes) : Decidable (NulFree str) :=
  inferInstanceAs (Decidable (∀ byte ∈ str, byte ≠ 0))

theorem cString_of_nulFree {str : Bytes} (nulFree : NulFree str) : cString str = str := by
  rw [cString, List.takeWhile_eq_self_iff]
  exact fun byte member => decide_eq_true (nulFree byte member)

theorem lane_congr (k : Nat) {left right : Bytes} {length : Nat}
    (same : ∀ j < length, left.getD j 0 = right.getD j 0) :
    lane k left length = lane k right length := by
  induction length with
  | zero => rfl
  | succ length ih =>
      rw [lane_succ, lane_succ, ih fun j low => same j (Nat.lt_succ_of_lt low),
        same length (Nat.lt_succ_self length)]

/-- After a whole number of words the lanes start over. -/
theorem lane_append (k : Nat) (s t : Bytes) (aligned : s.length % 4 = 0) (length : Nat) :
    lane k (s ++ t) (s.length + length) = lane k s s.length ^^^ lane k t length := by
  induction length with
  | zero =>
      have front : lane k (s ++ t) s.length = lane k s s.length :=
        lane_congr k fun j low => by simp [List.getElem?_append_left low]
      rw [Nat.add_zero, front]
      exact UInt8.xor_zero.symm
  | succ length ih =>
      have position : (s.length + length) % 4 = length % 4 := by omega
      have byte : (s ++ t).getD (s.length + length) 0 = t.getD length 0 := by
        simp [List.getElem?_append_right]
      rw [← Nat.add_assoc, lane_succ, lane_succ, ih, position, byte]
      split
      · exact UInt8.xor_assoc ..
      · rfl

theorem key_append (order : ByteOrder) {s t : Bytes} (nulFree : NulFree s) (other : NulFree t)
    (aligned : s.length % 4 = 0) :
    (new order (s ++ t)).key = (new order s).key ^^^ (new order t).key := by
  have both : NulFree (s ++ t) := fun byte member =>
    (List.mem_append.mp member).elim (nulFree byte) (other byte)
  apply word_ext order
  intro k inside
  rw [byte32_xor, key_lane order _ k inside, key_lane order _ k inside, key_lane order _ k inside,
    cString_of_nulFree both, cString_of_nulFree nulFree, cString_of_nulFree other,
    List.length_append]
  exact lane_append k s t aligned t.length

theorem key_even (order : ByteOrder) {s : Bytes} (nulFree : NulFree s) (aligned : s.length % 4 = 0)
    (n : Nat) : NulFree (List.replicate (2 * n) s).flatten ∧
      (new order (List.replicate (2 * n) s).flatten).key = 0 := by
  induction n with
  | zero => exact ⟨by simp [NulFree], by simp [new, cString]⟩
  | succ n ih =>
      obtain ⟨restFree, zero⟩ := ih
      have copies : (List.replicate (2 * (n + 1)) s).flatten =
          s ++ (s ++ (List.replicate (2 * n) s).flatten) := by
        rw [show 2 * (n + 1) = 2 * n + 1 + 1 by omega]
        simp only [List.replicate_succ, List.flatten_cons]
      have append : ∀ t, NulFree t → NulFree (s ++ t) := fun t free byte member =>
        (List.mem_append.mp member).elim (nulFree byte) (free byte)
      have once := append _ restFree
      rw [copies]
      refine ⟨append _ once, ?_⟩
      rw [key_append order nulFree once aligned, key_append order nulFree restFree aligned, zero,
        UInt32.xor_zero, UInt32.xor_self]

theorem encrypt_zero (order : ByteOrder) {crypto : DummyCrypto} (zero : crypto.key = 0)
    (text : Bytes) (length : Nat) (fits : length ≤ text.length) :
    encrypt order crypto text length = text := by
  apply List.ext_getElem?
  intro j
  rw [encrypt_getElem? _ _ _ _ _ fits, zero]
  simp

/-- A key is the four lanes of its secret, and an even number of copies of whole
words is no secret at all. -/
theorem key_exact (order : ByteOrder) (s : Bytes) (nulFree : NulFree s) :
    (∀ k < 4, byte32 order (new order s).key k = lane k s s.length) ∧
    (s.length % 4 = 0 →
      (∀ t, NulFree t → (new order (s ++ t)).key = (new order s).key ^^^ (new order t).key) ∧
      (new order (s ++ s)).key = 0 ∧
      ∀ n, (new order (List.replicate (2 * n) s).flatten).key = 0 ∧
        ∀ (text : Bytes) (length : Nat), length ≤ text.length →
          encrypt order (new order (List.replicate (2 * n) s).flatten) text length = text) := by
  refine ⟨fun k inside => ?_, fun aligned => ⟨fun t other => ?_, ?_, fun n => ?_⟩⟩
  · rw [key_lane order s k inside, cString_of_nulFree nulFree]
  · exact key_append order nulFree other aligned
  · rw [key_append order nulFree nulFree aligned, UInt32.xor_self]
  · have zero := (key_even order nulFree aligned n).2
    exact ⟨zero, encrypt_zero order zero⟩

/-- The secret `abcdabcd` encrypts nothing. -/
theorem key_exact_twice : (new .little (ascii "abcd" ++ ascii "abcd")).key = 0 :=
  ((key_exact .little (ascii "abcd") (by decide +kernel)).2 rfl).2.1

end Muddymask.DummyCrypto
