import Mathlib.Data.List.Basic

/-!
Machine words and the bytes that hold them in memory. A host is either little
or big endian; network order is the big-endian one. Nothing here depends on a
program: a codec reads and writes its fields with these functions, and a word
cipher is related to its byte stream by `byte32_xor`.
-/

namespace Muddymask.Words

abbrev Bytes := List UInt8

/-- The bytes of a text in ASCII. -/
def ascii (text : String) : Bytes := text.toList.map fun c => UInt8.ofNat c.toNat

inductive ByteOrder where
  | little
  | big
  deriving DecidableEq, Repr

def load32 (order : ByteOrder) (b0 b1 b2 b3 : UInt8) : UInt32 :=
  match order with
  | .little => ⟨b3.toBitVec ++ b2.toBitVec ++ b1.toBitVec ++ b0.toBitVec⟩
  | .big => ⟨b0.toBitVec ++ b1.toBitVec ++ b2.toBitVec ++ b3.toBitVec⟩

/-- The byte at offset `index` of a stored word. -/
def byte32 (order : ByteOrder) (word : UInt32) (index : Nat) : UInt8 :=
  match order with
  | .little => ⟨word.toBitVec.extractLsb' (8 * index) 8⟩
  | .big => ⟨word.toBitVec.extractLsb' (8 * (3 - index)) 8⟩

def store32 (order : ByteOrder) (word : UInt32) : Bytes :=
  [byte32 order word 0, byte32 order word 1, byte32 order word 2, byte32 order word 3]

def load16 (order : ByteOrder) (b0 b1 : UInt8) : UInt16 :=
  match order with
  | .little => ⟨b1.toBitVec ++ b0.toBitVec⟩
  | .big => ⟨b0.toBitVec ++ b1.toBitVec⟩

def byte16 (order : ByteOrder) (word : UInt16) (index : Nat) : UInt8 :=
  match order with
  | .little => ⟨word.toBitVec.extractLsb' (8 * index) 8⟩
  | .big => ⟨word.toBitVec.extractLsb' (8 * (1 - index)) 8⟩

def store16 (order : ByteOrder) (word : UInt16) : Bytes :=
  [byte16 order word 0, byte16 order word 1]

@[simp] theorem store32_length (order : ByteOrder) (word : UInt32) :
    (store32 order word).length = 4 := rfl

@[simp] theorem store16_length (order : ByteOrder) (word : UInt16) :
    (store16 order word).length = 2 := rfl

@[simp] theorem load32_bytes (order : ByteOrder) (word : UInt32) :
    load32 order (byte32 order word 0) (byte32 order word 1)
      (byte32 order word 2) (byte32 order word 3) = word := by
  apply UInt32.toBitVec_inj.mp
  cases order <;> simp only [load32, byte32] <;> ext index bound <;>
    simp only [BitVec.getElem_append, BitVec.getElem_extractLsb'] <;>
    grind

@[simp] theorem load16_bytes (order : ByteOrder) (word : UInt16) :
    load16 order (byte16 order word 0) (byte16 order word 1) = word := by
  apply UInt16.toBitVec_inj.mp
  cases order <;> simp only [load16, byte16] <;> ext index bound <;>
    simp only [BitVec.getElem_append, BitVec.getElem_extractLsb'] <;>
    grind

theorem byte32_load32 (order : ByteOrder) (b0 b1 b2 b3 : UInt8) (index : Nat)
    (inside : index < 4) :
    byte32 order (load32 order b0 b1 b2 b3) index = [b0, b1, b2, b3][index] := by
  apply UInt8.toBitVec_inj.mp
  rcases (by omega : index = 0 ∨ index = 1 ∨ index = 2 ∨ index = 3) with rfl | rfl | rfl | rfl <;>
    cases order <;> simp only [load32, byte32] <;> ext bit bound <;>
    simp only [BitVec.getElem_extractLsb', BitVec.getLsbD_append] <;>
    grind

theorem byte16_load16 (order : ByteOrder) (b0 b1 : UInt8) (index : Nat) (inside : index < 2) :
    byte16 order (load16 order b0 b1) index = [b0, b1][index] := by
  apply UInt8.toBitVec_inj.mp
  rcases (by omega : index = 0 ∨ index = 1) with rfl | rfl <;>
    cases order <;> simp only [load16, byte16] <;> ext bit bound <;>
    simp only [BitVec.getElem_extractLsb', BitVec.getLsbD_append] <;>
    grind

theorem store32_getElem? (order : ByteOrder) (word : UInt32) (index : Nat) (inside : index < 4) :
    (store32 order word)[index]? = some (byte32 order word index) := by
  rcases (by omega : index = 0 ∨ index = 1 ∨ index = 2 ∨ index = 3) with rfl | rfl | rfl | rfl <;>
    rfl

/-- Bitwise exclusive or of words is exclusive or of the bytes that hold them. -/
@[simp] theorem byte32_xor (order : ByteOrder) (left right : UInt32) (index : Nat) :
    byte32 order (left ^^^ right) index =
      byte32 order left index ^^^ byte32 order right index := by
  cases order <;> simp [byte32, UInt8.ofBitVec_xor, BitVec.extractLsb'_xor]

@[simp] theorem byte32_zero (order : ByteOrder) (index : Nat) : byte32 order 0 index = 0 := by
  cases order <;> simp [byte32]

/-- A key that meets a byte twice leaves it as it was. -/
@[simp] theorem xor_cancel (byte key : UInt8) : byte ^^^ key ^^^ key = byte := by
  rw [UInt8.xor_assoc, UInt8.xor_self, UInt8.xor_zero]

theorem xor_same_iff {byte left right : UInt8} :
    byte ^^^ left ^^^ right = byte ↔ left = right := by
  constructor
  · intro same
    have cancelled : byte ^^^ (left ^^^ right) = byte ^^^ 0 := by
      rw [← UInt8.xor_assoc, same, UInt8.xor_zero]
    exact UInt8.xor_eq_zero_iff.mp ((UInt8.xor_right_inj byte).mp cancelled)
  · rintro rfl
    exact xor_cancel byte left

theorem store32_injective (order : ByteOrder) : Function.Injective (store32 order) := by
  intro left right same
  simp only [store32, List.cons.injEq, and_true] at same
  rw [← load32_bytes order left, ← load32_bytes order right,
    same.1, same.2.1, same.2.2.1, same.2.2.2]

/-- The four bytes of a word determine it. -/
theorem word_ext (order : ByteOrder) (left right : UInt32)
    (same : ∀ j < 4, byte32 order left j = byte32 order right j) : left = right := by
  apply store32_injective order
  simp [store32, same]

/-- The word whose bytes in memory are the big-endian bytes of `host`. -/
def htonl (order : ByteOrder) (host : UInt32) : UInt32 :=
  load32 order (byte32 .big host 0) (byte32 .big host 1) (byte32 .big host 2) (byte32 .big host 3)

def ntohl (order : ByteOrder) (network : UInt32) : UInt32 :=
  load32 .big (byte32 order network 0) (byte32 order network 1)
    (byte32 order network 2) (byte32 order network 3)

@[simp] theorem ntohl_htonl (order : ByteOrder) (host : UInt32) :
    ntohl order (htonl order host) = host := by
  simp [ntohl, htonl, byte32_load32]

theorem htonl_injective (order : ByteOrder) : Function.Injective (htonl order) :=
  Function.LeftInverse.injective (ntohl_htonl order)

def htons (order : ByteOrder) (host : UInt16) : UInt16 :=
  load16 order (byte16 .big host 0) (byte16 .big host 1)

theorem htonl_eq_zero (order : ByteOrder) (host : UInt32) (zero : htonl order host = 0) :
    host = 0 := by
  have back := ntohl_htonl order host
  rw [zero] at back
  rw [← back]
  cases order <;> decide

theorem htons_eq_zero (order : ByteOrder) (host : UInt16) (zero : htons order host = 0) :
    host = 0 := by
  have first := congrArg (fun word => byte16 order word 0) zero
  have second := congrArg (fun word => byte16 order word 1) zero
  simp only [htons, byte16_load16 order _ _ 0 (by decide), byte16_load16 order _ _ 1 (by decide)]
    at first second
  rw [← load16_bytes .big host, show byte16 .big host 0 = byte16 order 0 0 from first,
    show byte16 .big host 1 = byte16 order 0 1 from second]
  cases order <;> decide

end Muddymask.Words
