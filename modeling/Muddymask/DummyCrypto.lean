import Mathlib.Data.List.TakeDrop
import Muddymask.Words

/-!
`source/crypto/DummyCrypto.cpp`. The key is the exclusive or of the words of
the secret, the last one padded with zero bytes. The cipher combines the text
word by word with the key, in place. A buffer is a list of bytes; the word
loops are folds over the word indices, so that the buffer is the accumulator.
-/

namespace Muddymask.DummyCrypto

open Words

/-- The `uint32_t` at `text + i`. Bytes past the end read as the zeros of the
temporary that the code copies a partial word into. -/
def loadWord (order : ByteOrder) (text : Bytes) (i : Nat) : UInt32 :=
  load32 order (text.getD i 0) (text.getD (i + 1) 0) (text.getD (i + 2) 0) (text.getD (i + 3) 0)

/-- `std::memcpy(text + i, source, source.length)`. -/
def memcpyAt (text : Bytes) (i : Nat) (source : Bytes) : Bytes :=
  text.take i ++ source ++ text.drop (i + source.length)

/-- A C string ends before its first NUL. -/
def cString (str : Bytes) : Bytes := str.takeWhile (· ≠ 0)

end DummyCrypto

open Words DummyCrypto

structure DummyCrypto where
  key : UInt32
  deriving DecidableEq, Repr

namespace DummyCrypto

def new (order : ByteOrder) (str : Bytes) : DummyCrypto :=
  let text := cString str
  let length := text.length
  let i := length / 4 * 4
  let key := (List.range (length / 4)).foldl (fun key k => key ^^^ loadWord order text (4 * k)) 0
  if i < length then ⟨key ^^^ loadWord order text i⟩ else ⟨key⟩

/-- One turn of the word loop: `*(uint32_t*)(text + i) ^= key`. -/
def encryptWord (order : ByteOrder) (key : UInt32) (text : Bytes) (i : Nat) : Bytes :=
  memcpyAt text i (store32 order (loadWord order text i ^^^ key))

/-- `for (i = 0; i < count * 4; i += 4)`. -/
def encryptWords (order : ByteOrder) (key : UInt32) (text : Bytes) (count : Nat) : Bytes :=
  (List.range count).foldl (fun text k => encryptWord order key text (4 * k)) text

def encrypt (order : ByteOrder) (crypto : DummyCrypto) (text : Bytes) (length : Nat) : Bytes :=
  let i := length / 4 * 4
  let words := encryptWords order crypto.key text (length / 4)
  if i < length then
    -- the partial last word goes through a temporary
    let v := loadWord order ((words.drop i).take (length - i)) 0 ^^^ crypto.key
    memcpyAt words i ((store32 order v).take (length - i))
  else words

def decrypt (order : ByteOrder) (crypto : DummyCrypto) (cypher : Bytes) (length : Nat) : Bytes :=
  encrypt order crypto cypher length

theorem memcpyAt_getElem? (text source : Bytes) (i j : Nat)
    (fits : i + source.length ≤ text.length) :
    (memcpyAt text i source)[j]? =
      if i ≤ j ∧ j < i + source.length then source[j - i]? else text[j]? := by
  have before : (text.take i).length = i := by simp; omega
  have front : (text.take i ++ source).length = i + source.length := by simp; omega
  rw [memcpyAt, List.getElem?_append, front]
  by_cases inFront : j < i + source.length
  · rw [if_pos inFront, List.getElem?_append, before]
    by_cases low : j < i
    · have outside : ¬ (i ≤ j ∧ j < i + source.length) := by omega
      rw [if_pos low, if_neg outside, List.getElem?_take_of_lt low]
    · rw [if_neg low, if_pos ⟨by omega, inFront⟩]
  · have outside : ¬ (i ≤ j ∧ j < i + source.length) := by omega
    rw [if_neg inFront, if_neg outside, List.getElem?_drop]
    congr 1
    omega

theorem memcpyAt_length (text source : Bytes) (i : Nat) (fits : i + source.length ≤ text.length) :
    (memcpyAt text i source).length = text.length := by
  simp [memcpyAt]
  omega

theorem byte32_loadWord (order : ByteOrder) (text : Bytes) (i offset : Nat) (inside : offset < 4) :
    byte32 order (loadWord order text i) offset = text.getD (i + offset) 0 := by
  rw [loadWord, byte32_load32 order _ _ _ _ offset inside]
  rcases (by omega : offset = 0 ∨ offset = 1 ∨ offset = 2 ∨ offset = 3) with
    rfl | rfl | rfl | rfl <;> rfl

theorem encryptWord_length (order : ByteOrder) (key : UInt32) (text : Bytes) (i : Nat)
    (fits : i + 4 ≤ text.length) : (encryptWord order key text i).length = text.length :=
  memcpyAt_length text _ i fits

theorem encryptWord_getElem? (order : ByteOrder) (key : UInt32) (text : Bytes) (i j : Nat)
    (fits : i + 4 ≤ text.length) :
    (encryptWord order key text i)[j]? =
      text[j]?.map fun byte =>
        if i ≤ j ∧ j < i + 4 then byte ^^^ byte32 order key (j - i) else byte := by
  rw [encryptWord, memcpyAt_getElem? _ _ _ _ fits, store32_length]
  by_cases inside : i ≤ j ∧ j < i + 4
  · have present : j < text.length := by omega
    have same : i + (j - i) = j := by omega
    simp [inside, store32_getElem?, (by omega : j - i < 4), byte32_loadWord, same,
      List.getElem?_eq_getElem present]
  · simp [inside]

theorem encryptWords_succ (order : ByteOrder) (key : UInt32) (text : Bytes) (count : Nat) :
    encryptWords order key text (count + 1) =
      encryptWord order key (encryptWords order key text count) (4 * count) := by
  simp [encryptWords, List.range_succ]

theorem encryptWords_length (order : ByteOrder) (key : UInt32) (text : Bytes) (count : Nat)
    (fits : 4 * count ≤ text.length) : (encryptWords order key text count).length = text.length := by
  induction count with
  | zero => rfl
  | succ count ih =>
      have earlier := ih (by omega)
      rw [encryptWords_succ, encryptWord_length _ _ _ _ (by omega), earlier]

/-- The law of the word loop: after `count` turns the first `4 * count` bytes
are combined with the key and the rest is untouched. -/
theorem encryptWords_getElem? (order : ByteOrder) (key : UInt32) (text : Bytes) (count j : Nat)
    (fits : 4 * count ≤ text.length) :
    (encryptWords order key text count)[j]? =
      text[j]?.map fun byte =>
        if j < 4 * count then byte ^^^ byte32 order key (j % 4) else byte := by
  induction count with
  | zero => simp [encryptWords]
  | succ count ih =>
      have earlier := ih (by omega)
      have sameLength := encryptWords_length order key text count (by omega)
      rw [encryptWords_succ, encryptWord_getElem? _ _ _ _ _ (by omega), earlier, Option.map_map]
      congr 1
      funext byte
      simp only [Function.comp_apply]
      -- The last turn touches the four bytes from `4 * count` on and no others.
      by_cases done : j < 4 * count
      · rw [if_pos done, if_neg (by omega), if_pos (by omega)]
      · by_cases now : j < 4 * (count + 1)
        · have offset : j - 4 * count = j % 4 := by omega
          rw [if_neg done, if_pos (by omega), if_pos now, offset]
        · rw [if_neg done, if_neg (by omega), if_neg now]

/-- The cipher is a byte stream: byte `j` meets byte `j % 4` of the key in
memory order, in whole words and in the partial last one alike. -/
theorem encrypt_getElem? (order : ByteOrder) (crypto : DummyCrypto) (text : Bytes) (length j : Nat)
    (fits : length ≤ text.length) :
    (encrypt order crypto text length)[j]? =
      text[j]?.map fun byte =>
        if j < length then byte ^^^ byte32 order crypto.key (j % 4) else byte := by
  have whole : 4 * (length / 4) ≤ text.length := by omega
  have sameLength := encryptWords_length order crypto.key text (length / 4) whole
  have words := encryptWords_getElem? order crypto.key text (length / 4) j whole
  rw [encrypt]
  by_cases tail : length / 4 * 4 < length
  · have short : length - length / 4 * 4 < 4 := by omega
    have copied : ((store32 order (loadWord order (((encryptWords order crypto.key text
        (length / 4)).drop (length / 4 * 4)).take (length - length / 4 * 4)) 0 ^^^
          crypto.key)).take (length - length / 4 * 4)).length = length - length / 4 * 4 := by
      simp
      omega
    simp only [tail, ↓reduceIte]
    rw [memcpyAt_getElem? _ _ _ _ (by omega), copied, words]
    by_cases inside : length / 4 * 4 ≤ j ∧ j < length / 4 * 4 + (length - length / 4 * 4)
    · have offset : j - length / 4 * 4 = j % 4 := by omega
      have present : j < text.length := by omega
      have untouched : ¬ j < 4 * (length / 4) := by omega
      have same : length / 4 * 4 + j % 4 = j := by omega
      rw [if_pos inside, offset, List.getElem?_take_of_lt (by omega),
        store32_getElem? _ _ _ (by omega), byte32_xor, byte32_loadWord _ _ _ _ (by omega)]
      simp only [Nat.zero_add, List.getD_eq_getElem?_getD]
      rw [List.getElem?_take_of_lt (by omega), List.getElem?_drop, same, words]
      simp [untouched, List.getElem?_eq_getElem present, (by omega : j < length)]
    · rw [if_neg inside]
      congr 1
      funext byte
      by_cases done : j < 4 * (length / 4)
      · rw [if_pos done, if_pos (by omega)]
      · rw [if_neg done, if_neg (by omega)]
  · have aligned : 4 * (length / 4) = length := by omega
    simp only [tail, ↓reduceIte]
    rw [words, aligned]

theorem encrypt_length (order : ByteOrder) (crypto : DummyCrypto) (text : Bytes) (length : Nat)
    (fits : length ≤ text.length) : (encrypt order crypto text length).length = text.length := by
  apply Nat.le_antisymm
  · apply List.getElem?_eq_none_iff.mp
    simp [encrypt_getElem? order crypto text length _ fits]
  · apply List.getElem?_eq_none_iff.mp
    have absent := encrypt_getElem? order crypto text length
      (encrypt order crypto text length).length fits
    rw [List.getElem?_eq_none (Nat.le_refl _)] at absent
    exact Option.map_eq_none_iff.mp absent.symm

theorem decrypt_length (order : ByteOrder) (crypto : DummyCrypto) (packet : Bytes) :
    (decrypt order crypto packet packet.length).length = packet.length :=
  encrypt_length order crypto packet packet.length (Nat.le_refl _)

theorem decrypt_encrypt (order : ByteOrder) (crypto : DummyCrypto) (text : Bytes) (length : Nat)
    (fits : length ≤ text.length) :
    decrypt order crypto (encrypt order crypto text length) length = text := by
  apply List.ext_getElem?
  intro j
  have stillFits : length ≤ (encrypt order crypto text length).length := by
    rwa [encrypt_length order crypto text length fits]
  rw [decrypt, encrypt_getElem? _ _ _ _ _ stillFits, encrypt_getElem? _ _ _ _ _ fits,
    Option.map_map]
  cases text[j]? with
  | none => rfl
  | some byte =>
      by_cases inside : j < length <;> simp [inside]

/-- Whole words at the front of a cypher decrypt without the rest. -/
theorem decrypt_take (order : ByteOrder) (crypto : DummyCrypto) (text : Bytes) (count : Nat)
    (fits : count ≤ text.length) :
    decrypt order crypto ((encrypt order crypto text text.length).take count) count =
      text.take count := by
  have sameLength := encrypt_length order crypto text text.length (Nat.le_refl _)
  apply List.ext_getElem?
  intro j
  rw [decrypt, encrypt_getElem? _ _ _ _ _ (by rw [List.length_take]; omega)]
  by_cases inside : j < count
  · rw [List.getElem?_take_of_lt inside, List.getElem?_take_of_lt inside,
      encrypt_getElem? _ _ _ _ _ (Nat.le_refl _), Option.map_map]
    cases text[j]? with
    | none => rfl
    | some byte => simp [inside, (by omega : j < text.length)]
  · rw [List.getElem?_eq_none (by rw [List.length_take]; omega),
      List.getElem?_eq_none (by rw [List.length_take]; omega)]
    rfl

/-- What a receiver makes of an encrypted text that its buffer may have cut. -/
theorem decrypt_received (order : ByteOrder) (crypto : DummyCrypto) (text : Bytes) (size : Nat) :
    let received := (encrypt order crypto text text.length).take size
    decrypt order crypto received received.length = text.take size := by
  intro received
  have sameLength := encrypt_length order crypto text text.length (Nat.le_refl _)
  by_cases cut : size ≤ text.length
  · have count : received.length = size := by
      rw [List.length_take, sameLength]
      exact Nat.min_eq_left cut
    rw [count]
    exact decrypt_take order crypto text size cut
  · have whole : received = encrypt order crypto text text.length :=
      List.take_of_length_le (by omega)
    rw [whole, sameLength, List.take_of_length_le (by omega)]
    exact decrypt_encrypt order crypto text text.length (Nat.le_refl _)

end DummyCrypto

end Muddymask
