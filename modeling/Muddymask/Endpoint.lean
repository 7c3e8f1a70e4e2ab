import Muddymask.Cipher
import Muddymask.CommandLine

/-!
Endpoint strings: a host, a colon and a port. `getInetAddress` leaves the port to
`sscanf`, which skips white space, takes a sign and does not look behind the
digits, and its range test loses the last port.
-/

namespace Muddymask

open Words DummyCrypto

theorem nulFree_cString (string : Bytes) : NulFree (cString string) := by
  intro byte member
  simpa using List.mem_takeWhile_imp member

namespace Util

/-- Decimal digits and nothing else. -/
def Plain (text : Bytes) : Prop := text ≠ [] ∧ ∀ digit ∈ text, isDigit digit = true

instance (text : Bytes) : Decidable (Plain text) := inferInstanceAs (Decidable (_ ∧ _))

def decimal (digits : Bytes) : Nat :=
  digits.foldl (fun (value : Nat) digit => 10 * value + (digit.toNat - 48)) 0

theorem digit_kind {c : UInt8} (digit : isDigit c = true) : isSpace c = false ∧ c ≠ 43 ∧ c ≠ 45 := by
  simp only [isDigit, Bool.and_eq_true, decide_eq_true_eq] at digit
  refine ⟨?_, ?_, ?_⟩
  · simp only [isSpace, Bool.or_eq_false_iff, Bool.and_eq_false_iff, decide_eq_false_iff_not]
    grind
  · grind
  · grind

/-- A number as `%d` reads it: white space, a sign, its digits, and what follows them. -/
structure Reads (text blanks sign digits rest : Bytes) : Prop where
  whole : text = blanks ++ (sign ++ (digits ++ rest))
  blank : ∀ c ∈ blanks, isSpace c = true
  sign : sign = [] ∨ sign = [43] ∨ sign = [45]
  plain : Plain digits
  ended : rest.takeWhile isDigit = []

/-- The `int` that a number becomes: it is cut to the range of `long` and then to
the low 32 bits. -/
def cut (sign : Bytes) (value : Nat) : Int :=
  let long : Int :=
    if sign = [45] then max (-value) (-0x8000000000000000) else min value 0x7FFFFFFFFFFFFFFF
  long.bmod 0x100000000

theorem cut_small {value : Nat} (small : value < 0x80000000) : cut [] value = value := by
  have long : min (value : Int) 0x7FFFFFFFFFFFFFFF = value := by omega
  rw [cut, if_neg (by simp), long]
  exact Int.bmod_eq_of_le (by omega) (by omega)

theorem Reads.scanInt {text blanks sign digits rest : Bytes}
    (reads : Reads text blanks sign digits rest) (nulFree : NulFree text) :
    scanInt text = some (cut sign (decimal digits)) := by
  obtain ⟨whole, blank, signed, ⟨nonempty, plain⟩, ended⟩ := reads
  obtain ⟨first, others, rfl⟩ := List.exists_cons_of_ne_nil nonempty
  obtain ⟨visible, notPlus, notMinus⟩ := digit_kind (plain first List.mem_cons_self)
  have unsigned : (first :: (others ++ rest)).takeWhile isDigit = first :: others := by
    rw [← List.cons_append, List.takeWhile_append_of_pos plain, ended, List.append_nil]
  have skipped : text.dropWhile isSpace = sign ++ first :: (others ++ rest) := by
    rw [whole, List.dropWhile_append_of_pos blank]
    rcases signed with rfl | rfl | rfl
    · exact List.dropWhile_cons_of_neg (by simp [visible])
    · rfl
    · rfl
  simp only [Util.scanInt, cString_of_nulFree nulFree, skipped]
  rcases signed with rfl | rfl | rfl
  · simp only [List.nil_append, List.headD_cons, notPlus, notMinus, or_self, if_false, unsigned,
      reduceCtorEq]
    rfl
  · simp only [List.cons_append, List.nil_append, List.headD_cons, List.tail_cons, true_or, if_true,
      unsigned, reduceCtorEq, if_false]
    rfl
  · simp only [List.cons_append, List.nil_append, List.headD_cons, List.tail_cons, or_true, if_true,
      unsigned, reduceCtorEq, if_false]
    rfl

theorem sign_split (text : Bytes) : ∃ sign unsigned, (sign = [] ∨ sign = [43] ∨ sign = [45]) ∧
    text = sign ++ unsigned ∧
    (if text.headD 0 = 43 ∨ text.headD 0 = 45 then text.tail else text) = unsigned := by
  cases text with
  | nil => exact ⟨[], [], Or.inl rfl, rfl, rfl⟩
  | cons c rest =>
      by_cases plus : c = 43
      · exact ⟨[43], rest, Or.inr (Or.inl rfl), by rw [plus]; rfl, by simp [plus]⟩
      · by_cases minus : c = 45
        · exact ⟨[45], rest, Or.inr (Or.inr rfl), by rw [minus]; rfl, by simp [minus]⟩
        · exact ⟨[], c :: rest, Or.inl rfl, rfl, by simp [plus, minus]⟩

theorem digits_ended (text : Bytes) : (text.dropWhile isDigit).takeWhile isDigit = [] := by
  have stop := List.head?_dropWhile_not isDigit text
  cases rest : text.dropWhile isDigit with
  | nil => rfl
  | cons c others =>
      rw [rest] at stop
      exact List.takeWhile_cons_of_neg (by simpa using stop)

theorem reads_of_scanInt {text : Bytes} {number : Int} (nulFree : NulFree text)
    (read : scanInt text = some number) :
    ∃ blanks sign digits rest, Reads text blanks sign digits rest ∧
      number = cut sign (decimal digits) := by
  obtain ⟨sign, unsigned, signed, split, same⟩ := sign_split (text.dropWhile isSpace)
  have some := read
  simp only [scanInt, cString_of_nulFree nulFree, same, Option.ite_none_left_eq_some] at some
  have reads : Reads text (text.takeWhile isSpace) sign (unsigned.takeWhile isDigit)
      (unsigned.dropWhile isDigit) := {
    whole := by
      rw [List.takeWhile_append_dropWhile, ← split, List.takeWhile_append_dropWhile]
    blank := fun c member => List.mem_takeWhile_imp member
    sign := signed
    plain := ⟨some.1, fun digit member => List.mem_takeWhile_imp member⟩
    ended := digits_ended unsigned }
  exact ⟨_, _, _, _, reads, Option.some.inj (read.symm.trans (reads.scanInt nulFree))⟩

/-- Digits are read as their value, as long as that is an `int`. -/
theorem scanInt_plain {text : Bytes} (plain : Plain text) (nulFree : NulFree text)
    (small : decimal text < 0x80000000) : scanInt text = some (decimal text : Int) := by
  have reads : Reads text [] [] text [] :=
    ⟨by simp, by simp, Or.inl rfl, plain, rfl⟩
  rw [reads.scanInt nulFree, cut_small small]

theorem Reads.alone {text blanks sign digits rest : Bytes}
    (reads : Reads text blanks sign digits rest) (plain : Plain text) :
    blanks = [] ∧ sign = [] ∧ rest = [] := by
  have digit : ∀ c ∈ blanks ++ (sign ++ (digits ++ rest)), isDigit c = true :=
    reads.whole ▸ plain.2
  simp only [List.mem_append] at digit
  refine ⟨?_, ?_, ?_⟩
  · refine List.eq_nil_iff_forall_not_mem.mpr fun c member => ?_
    have visible := (digit_kind (digit c (Or.inl member))).1
    rw [reads.blank c member] at visible
    cases visible
  · rcases reads.sign with none | rfl | rfl
    · exact none
    · exact absurd (digit 43 (by simp)) (by decide)
    · exact absurd (digit 45 (by simp)) (by decide)
  · rw [← reads.ended]
    refine (List.takeWhile_eq_self_iff.mpr fun c member => ?_).symm
    exact digit c (Or.inr (Or.inr (Or.inr member)))

/-- A string that is a host, a colon and a port. -/
structure Parts (string host port : Bytes) : Prop where
  whole : cString string = host ++ 58 :: port
  named : host ≠ []
  first : 58 ∉ host

theorem takeWhile_host {host : Bytes} (first : 58 ∉ host) (port : Bytes) :
    (host ++ 58 :: port).takeWhile (· ≠ 58) = host := by
  induction host with
  | nil => rfl
  | cons c rest ih =>
      obtain ⟨different, later⟩ := not_or.mp (List.mem_cons.not.mp first)
      rw [List.cons_append, List.takeWhile_cons_of_pos (by simpa using Ne.symm different), ih later]

theorem colon_cases (string : Bytes) : string.drop (string.takeWhile (· ≠ 58)).length = [] ∨
    ∃ host port, string = host ++ 58 :: port ∧ 58 ∉ host := by
  induction string with
  | nil => exact Or.inl rfl
  | cons c rest ih =>
      by_cases colon : c = 58
      · exact Or.inr ⟨[], rest, by rw [colon, List.nil_append], List.not_mem_nil⟩
      · rw [List.takeWhile_cons_of_pos (by simpa using colon), List.length_cons, List.drop_succ_cons]
        refine ih.imp id ?_
        rintro ⟨host, port, rfl, first⟩
        exact ⟨c :: host, port, rfl, by simp [first, Ne.symm colon]⟩

theorem parts_unique {host port other text : Bytes} (first : 58 ∉ host) (alike : 58 ∉ other)
    (same : host ++ 58 :: port = other ++ 58 :: text) : host = other ∧ port = text := by
  have hosts : host = other := by
    rw [← takeWhile_host first port, same, takeWhile_host alike]
  subst hosts
  exact ⟨rfl, List.tail_eq_of_cons_eq (List.append_cancel_left same)⟩

section
variable {order : ByteOrder} {gethostbyname : Bytes → Option UInt32} {string : Bytes}

theorem getInetAddress_iff {address : SockAddr} :
    getInetAddress order gethostbyname string = .ok address ↔
      ∃ host port number known, Parts string host port ∧ scanInt port = some number ∧
        0 < number ∧ number < 65535 ∧ gethostbyname host = some known ∧
        address = ⟨2, htons order (UInt16.ofNat number.toNat), known⟩ := by
  rcases colon_cases (cString string) with absent | ⟨host, port, whole, first⟩
  · have failed : getInetAddress order gethostbyname string =
        .error ⟨"invalid address string: ", cString string⟩ := by
      simp only [getInetAddress, absent]
    rw [failed]
    refine iff_of_false (by simp) ?_
    rintro ⟨host, port, _, _, parts, _⟩
    rw [parts.whole, takeWhile_host parts.first, List.drop_left] at absent
    cases absent
  · simp only [getInetAddress, whole, takeWhile_host first, List.drop_left]
    constructor
    · intro accepted
      split at accepted
      · cases accepted
      · rename_i named
        split at accepted
        · cases accepted
        · rename_i number scanned
          split at accepted
          · cases accepted
          · rename_i inRange
            split at accepted
            · cases accepted
            · rename_i known found
              cases accepted
              refine ⟨host, port, number, known, ⟨whole, named, first⟩, scanned, ?_, ?_, found, rfl⟩
              · omega
              · omega
    · rintro ⟨other, text, number, known, parts, scanned, positive, small, found, rfl⟩
      obtain ⟨rfl, rfl⟩ := parts_unique first parts.first (whole.symm.trans parts.whole)
      rw [if_neg parts.named, scanned]
      dsimp only
      rw [if_neg (by omega), found]

theorem getInetAddress_port {address : SockAddr}
    (parsed : getInetAddress order gethostbyname string = .ok address) : address.sinPort ≠ 0 := by
  obtain ⟨host, port, number, known, _, _, positive, small, _, rfl⟩ := getInetAddress_iff.mp parsed
  intro zero
  have null := congrArg UInt16.toNat (htons_eq_zero order _ zero)
  rw [UInt16.toNat_ofNat_of_lt' (by simp only [UInt16.size]; omega)] at null
  simp only [UInt16.toNat_zero] at null
  omega

/-- What an endpoint string has to be, and what it stands for. -/
structure Names (order : ByteOrder) (gethostbyname : Bytes → Option UInt32) (string : Bytes)
    (host port : Bytes) (address : SockAddr) : Prop where
  parts : Parts string host port
  plain : Plain port
  positive : 1 ≤ decimal port
  small : decimal port ≤ 65535
  sinFamily : address.sinFamily = 2
  sinPort : address.sinPort = htons order (UInt16.ofNat (decimal port))
  sinAddr : gethostbyname host = some address.sinAddr

/-- The string is parsed as its endpoint, or refused if it is none. -/
def Exact (order : ByteOrder) (gethostbyname : Bytes → Option UInt32) (string : Bytes) : Prop :=
  ∀ address, getInetAddress order gethostbyname string = .ok address ↔
    ∃ host port, Names order gethostbyname string host port address

/-- Where a number from 1 to 65534 is read there is nothing about its digits, and
they are not cut; and the port is not the last one. -/
def Strict (port : Bytes) : Prop :=
  (∀ blanks sign digits rest, Reads port blanks sign digits rest →
    0 < cut sign (decimal digits) → cut sign (decimal digits) < 65535 →
    blanks = [] ∧ sign = [] ∧ rest = [] ∧ decimal digits < 65535) ∧
  ¬ (Plain port ∧ decimal port = 65535)

theorem Parts.nulFree {host port : Bytes} (parts : Parts string host port) : NulFree port := by
  refine fun byte member => nulFree_cString string byte ?_
  rw [parts.whole]
  exact List.mem_append_right host (List.mem_cons_of_mem 58 member)

theorem Parts.scanned {host port : Bytes} (parts : Parts string host port) (plain : Plain port)
    (small : decimal port ≤ 65535) : scanInt port = some (decimal port : Int) :=
  scanInt_plain plain parts.nulFree (by omega)

theorem Exact.strict (exact : Exact order gethostbyname string) {host port : Bytes} {known : UInt32}
    (parts : Parts string host port) (found : gethostbyname host = some known) : Strict port := by
  constructor
  · intro blanks sign digits rest reads positive small
    have scanned := reads.scanInt parts.nulFree
    obtain ⟨other, text, names⟩ := (exact _).mp (getInetAddress_iff.mpr
      ⟨host, port, _, known, parts, scanned, positive, small, found, rfl⟩)
    obtain ⟨rfl, rfl⟩ := parts_unique parts.first names.parts.first
      (parts.whole.symm.trans names.parts.whole)
    obtain ⟨rfl, rfl, rfl⟩ := reads.alone names.plain
    have text : port = digits := by simpa using reads.whole
    subst text
    have value := Option.some.inj (scanned.symm.trans (parts.scanned names.plain names.small))
    exact ⟨rfl, rfl, rfl, by omega⟩
  · rintro ⟨plain, last⟩
    have names : Names order gethostbyname string host port
        ⟨2, htons order (UInt16.ofNat (decimal port)), known⟩ :=
      ⟨parts, plain, by omega, by omega, rfl, rfl, found⟩
    obtain ⟨other, text, number, _, again, scanned, _, small, _⟩ :=
      getInetAddress_iff.mp ((exact _).mpr ⟨host, port, names⟩)
    obtain ⟨rfl, rfl⟩ := parts_unique parts.first again.first (parts.whole.symm.trans again.whole)
    have value := Option.some.inj (scanned.symm.trans (parts.scanned plain (by omega)))
    omega

theorem exact_of_strict (strict : ∀ host port known, Parts string host port →
    gethostbyname host = some known → Strict port) : Exact order gethostbyname string := by
  intro address
  rw [getInetAddress_iff]
  constructor
  · rintro ⟨host, port, number, known, parts, scanned, positive, small, found, rfl⟩
    obtain ⟨blanks, sign, digits, rest, reads, rfl⟩ := reads_of_scanInt parts.nulFree scanned
    obtain ⟨rfl, rfl, rfl, below⟩ :=
      (strict host port known parts found).1 blanks sign digits rest reads positive small
    have text : port = digits := by simpa using reads.whole
    subst text
    rw [cut_small (by omega)] at positive ⊢
    refine ⟨host, port, parts, reads.plain, by omega, by omega, rfl, ?_, found⟩
    rw [Int.toNat_natCast]
  · rintro ⟨host, port, names⟩
    have below : decimal port ≠ 65535 := fun last =>
      (strict host port _ names.parts names.sinAddr).2 ⟨names.plain, last⟩
    have small := names.small
    have positive := names.positive
    refine ⟨host, port, decimal port, address.sinAddr, names.parts,
      names.parts.scanned names.plain small, by omega, by omega, names.sinAddr, ?_⟩
    rw [Int.toNat_natCast, ← names.sinFamily, ← names.sinPort]

/-- A string is parsed exactly unless a known host comes with a port that `sscanf`
mistakes or with the last port. -/
theorem exact_iff (order : ByteOrder) (gethostbyname : Bytes → Option UInt32) (string : Bytes) :
    Exact order gethostbyname string ↔ ∀ host port known, Parts string host port →
      gethostbyname host = some known → Strict port :=
  ⟨fun exact _ _ _ parts found => exact.strict parts found, exact_of_strict⟩

/-- The last port is refused, and what follows the digits is not looked at. -/
theorem exact_fails :
    ¬ Exact .little (fun _ => some 0x0100007F) (ascii "localhost:65535") ∧
      ¬ Exact .little (fun _ => some 0x0100007F) (ascii "localhost:80x") := by
  constructor
  · intro exact
    have parts : Parts (ascii "localhost:65535") (ascii "localhost") (ascii "65535") :=
      ⟨by decide, by decide, by decide⟩
    exact (exact.strict parts rfl).2 (by decide +kernel)
  · intro exact
    have parts : Parts (ascii "localhost:80x") (ascii "localhost") (ascii "80x") :=
      ⟨by decide, by decide, by decide⟩
    have reads : Reads (ascii "80x") [] [] (ascii "80") (ascii "x") :=
      ⟨by decide, by simp, Or.inl rfl, by decide +kernel, by decide⟩
    have alone := (exact.strict parts rfl).1 [] [] _ _ reads (by decide) (by decide)
    exact absurd alone.2.2.1 (by decide)

end

end Util

end Muddymask
