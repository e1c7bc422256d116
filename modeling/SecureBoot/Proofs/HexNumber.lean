import Mathlib.Data.List.Induction
import SecureBoot.Proofs.Bytes
import SecureBoot.Proofs.Text
import SecureBoot.Text.HexNumber

/-!
Hexadecimal texts as numbers. What a text states is defined on its characters alone: digits of
either case behind an optional marker, with white space around. The field of a text is the number it
states in base 256, whatever the number of its digits and of the zeros in front of them; a text that
states no number has none.
-/

namespace SecureBoot

namespace Bytes

variable {bytes : Bytes} {size number count : Nat}

theorem value_append (low high : Bytes) :
    value (low ++ high) = value low + capacity low.length * value high := by
  induction low with
  | nil => simp [value, capacity]
  | cons byte rest ih =>
    rw [List.cons_append, value, ih, value, List.length_cons, capacity, Nat.mul_add, Nat.add_assoc,
      Nat.mul_assoc]

@[simp] theorem value_zeros (size : Nat) : value (zeros size) = 0 := by
  induction size with
  | zero => rfl
  | succ size ih =>
    rw [zeros, List.replicate_succ, value, show List.replicate size 0 = zeros size from rfl, ih]
    rfl

/-- The least number of bytes in which a number fits. -/
structure Needs (number count : Nat) : Prop where
  fits : number < 256 ^ count
  least : ∀ fewer, number < 256 ^ fewer → count ≤ fewer

/-- Bytes need their own number of bytes if the most significant of them is not zero. -/
theorem needs_of_head? (solid : ∀ first, bytes.head? = some first → first ≠ 0) :
    Needs (value bytes.reverse) bytes.length := by
  have small := value_lt bytes.reverse
  rw [List.length_reverse, capacity_eq] at small
  refine ⟨small, fun fewer fits => ?_⟩
  cases bytes with
  | nil => exact Nat.zero_le _
  | cons first rest =>
    have positive : 0 < first.toNat :=
      Nat.pos_of_ne_zero fun zero => solid first rfl (UInt8.toNat_inj.mp zero)
    have large : 256 ^ rest.length ≤ value (first :: rest).reverse := by
      rw [List.reverse_cons, value_append, List.length_reverse, capacity_eq, value, value]
      exact Nat.le_trans (Nat.le_mul_of_pos_right _ (by omega)) (Nat.le_add_left _ _)
    exact (Nat.pow_lt_pow_iff_right (by decide)).mp (Nat.lt_of_le_of_lt large fits)

/-- The zeros in front of the significant bytes carry no value. -/
theorem value_significant (bytes : Bytes) :
    value (bytes.dropWhile (· == 0)).reverse = value bytes.reverse := by
  have front : bytes.takeWhile (· == 0) = zeros (bytes.takeWhile (· == 0)).length := by
    rw [zeros, List.eq_replicate_iff]
    exact ⟨rfl, fun byte member => by simpa using List.mem_takeWhile_imp member⟩
  conv_rhs => rw [← List.takeWhile_append_dropWhile (p := (· == 0)) (l := bytes), front]
  rw [List.reverse_append, value_append, zeros, List.reverse_replicate,
    show List.replicate _ 0 = zeros _ from rfl, value_zeros, Nat.mul_zero, Nat.add_zero]

end Bytes

namespace Text

variable {text before after solid : List Char}

/-- White space on both sides is trimmed. -/
theorem trim_append (front : ∀ c ∈ before, isBlank c = true) (back : ∀ c ∈ after, isBlank c = true)
    (begins : ∀ c, solid.head? = some c → isBlank c = false)
    (ends : ∀ c, solid.getLast? = some c → isBlank c = false) :
    trim (before ++ (solid ++ after)) = solid := by
  rw [trim, List.dropWhile_append_of_pos front]
  cases solid with
  | nil =>
    rw [List.nil_append, List.dropWhile_eq_nil_iff.mpr back]
    rfl
  | cons first rest =>
    have stays : (first :: rest ++ after).dropWhile isBlank = first :: rest ++ after :=
      dropWhile_blank fun c found => begins c found
    have behind : ∀ c ∈ after.reverse, isBlank c = true :=
      fun c member => back c (List.mem_reverse.mp member)
    rw [stays, List.reverse_append, List.dropWhile_append_of_pos behind, dropWhile_blank,
      List.reverse_reverse]
    intro c found
    rw [List.head?_reverse] at found
    exact ends c found

/-- What is trimmed away is white space on both sides. -/
theorem exists_trim (text : List Char) : ∃ before after, text = before ++ (trim text ++ after) ∧
    (∀ c ∈ before, isBlank c = true) ∧ ∀ c ∈ after, isBlank c = true := by
  refine ⟨text.takeWhile isBlank, ((text.dropWhile isBlank).reverse.takeWhile isBlank).reverse,
    ?_, fun c member => List.mem_takeWhile_imp member,
    fun c member => List.mem_takeWhile_imp (List.mem_reverse.mp member)⟩
  rw [trim, ← List.reverse_append, List.takeWhile_append_dropWhile, List.reverse_reverse,
    List.takeWhile_append_dropWhile]

namespace HexNumber

/-- A character is the digit of a number below 16, in either case. -/
def Denotes (c : Char) (number : Nat) : Prop :=
  number < 16 ∧ (c = Hex.digit number ∨ c = (Hex.digit number).toUpper)

/-- At least one digit, the most significant digit first. -/
inductive Numeral : List Char → Nat → Prop
  | first {c : Char} {number : Nat} (digit : Denotes c number) : Numeral [c] number
  | more {digits : List Char} {c : Char} {high low : Nat} (front : Numeral digits high)
      (digit : Denotes c low) : Numeral (digits ++ [c]) (16 * high + low)

/-- The marker in front of the digits, which may be missing. -/
def IsMarker (marker : List Char) : Prop :=
  marker = [] ∨ marker = ['0', 'x'] ∨ marker = ['0', 'X']

/-- A text states a number: it is a numeral with white space around and a marker in front. -/
inductive States : List Char → Nat → Prop
  | intro {before marker digits after : List Char} {number : Nat}
      (front : ∀ c ∈ before, isBlank c = true) (marked : IsMarker marker)
      (numeral : Numeral digits number) (back : ∀ c ∈ after, isBlank c = true) :
      States (before ++ (marker ++ digits ++ after)) number

/-- The byte is the digit of a number. -/
def Reads (byte : UInt8) (number : Nat) : Prop :=
  Hex.digitValue? byte = some number

/-- The number that digits in a base state, after the number that those in front of them state. -/
def continued (base high : Nat) (digits : List Nat) : Nat :=
  digits.foldl (fun high low => base * high + low) high

variable {c : Char} {digits : List Char} {byte : UInt8} {bytes decoded : Bytes} {numbers : List Nat}
  {number size : Nat} {order : Endian} {string : String}

theorem lt_of_reads (reads : Reads byte number) : number < 16 := by
  simp only [Reads, Hex.digitValue?] at reads
  split at reads
  · obtain rfl := Option.some.inj reads
    omega
  · split at reads
    · obtain rfl := Option.some.inj reads
      omega
    · split at reads
      · obtain rfl := Option.some.inj reads
        omega
      · cases reads

theorem not_reads_of_le (large : 128 ≤ byte.toNat) : ¬ Reads byte number := by
  have noDigit : Hex.digitValue? byte = none := by
    simp only [Hex.digitValue?]
    rw [if_neg (by omega), if_neg (by omega), if_neg (by omega)]
  rw [Reads, noDigit]
  exact nofun

/-- Among the characters of one byte, the digits are those that are read as such. -/
theorem denotes_iff_reads (small : c.toNat < 128) : Denotes c number ↔ Reads c.val.toUInt8 number := by
  have each : ∀ (code : Fin 128) (number : Fin 16),
      Hex.digitValue? (Char.ofNat code.val).val.toUInt8 = some number.val ↔
        Char.ofNat code.val = Hex.digit number.val ∨
          Char.ofNat code.val = (Hex.digit number.val).toUpper := by
    decide +kernel
  have same : Char.ofNat c.toNat = c := Char.ofNat_toNat c
  constructor
  · rintro ⟨below, digit⟩
    have reads := (each ⟨c.toNat, small⟩ ⟨number, below⟩).mpr
    rw [same] at reads
    exact reads digit
  · intro reads
    have below := lt_of_reads reads
    have digit := (each ⟨c.toNat, small⟩ ⟨number, below⟩).mp
    rw [same] at digit
    exact ⟨below, digit reads⟩

theorem small_of_denotes (denotes : Denotes c number) : c.toNat < 128 := by
  have each : ∀ number : Fin 16,
      (Hex.digit number.val).toNat < 128 ∧ (Hex.digit number.val).toUpper.toNat < 128 := by decide
  obtain ⟨below, rfl | rfl⟩ := denotes
  · exact (each ⟨number, below⟩).1
  · exact (each ⟨number, below⟩).2

theorem isBlank_of_denotes (denotes : Denotes c number) : isBlank c = false := by
  have each : ∀ number : Fin 16,
      isBlank (Hex.digit number.val) = false ∧ isBlank (Hex.digit number.val).toUpper = false := by
    decide
  obtain ⟨below, rfl | rfl⟩ := denotes
  · exact (each ⟨number, below⟩).1
  · exact (each ⟨number, below⟩).2

theorem not_denotes_marker : ¬ Denotes 'x' number ∧ ¬ Denotes 'X' number := by
  have each : ∀ number : Fin 16,
      ¬ ('x' = Hex.digit number.val ∨ 'x' = (Hex.digit number.val).toUpper) ∧
        ¬ ('X' = Hex.digit number.val ∨ 'X' = (Hex.digit number.val).toUpper) := by decide
  exact ⟨fun denotes => (each ⟨number, denotes.1⟩).1 denotes.2,
    fun denotes => (each ⟨number, denotes.1⟩).2 denotes.2⟩

/-- A character of several bytes begins with a byte that is no digit. -/
theorem utf8EncodeChar_of_le (large : 128 ≤ c.toNat) :
    ∃ first rest, String.utf8EncodeChar c = first :: rest ∧ 128 ≤ first.toNat := by
  have scalar : c.toNat < 0x110000 := by
    rcases c.valid with low | high
    · exact Nat.lt_trans low (by decide)
    · exact high.2
  unfold String.utf8EncodeChar
  simp only [show c.val.toNat = c.toNat from rfl]
  generalize c.toNat = code at *
  split
  · omega
  · split
    · exact ⟨_, _, rfl, by rw [UInt8.toNat_ofNat']; omega⟩
    · split
      · exact ⟨_, _, rfl, by rw [UInt8.toNat_ofNat']; omega⟩
      · exact ⟨_, _, rfl, by rw [UInt8.toNat_ofNat']; omega⟩

/-- The bytes of a text are digits just if its characters are. -/
theorem forall₂_reads_utf8_iff :
    List.Forall₂ Reads (utf8 digits) numbers ↔ List.Forall₂ Denotes digits numbers := by
  induction digits generalizing numbers with
  | nil => simp [utf8]
  | cons c rest ih =>
    rw [utf8, List.flatMap_cons, List.forall₂_cons_left_iff]
    by_cases small : c.toNat < 128
    · have single : String.utf8EncodeChar c = [c.val.toUInt8] := by
        unfold String.utf8EncodeChar
        exact if_pos (Nat.le_of_lt_succ small)
      rw [single, List.singleton_append, List.forall₂_cons_left_iff]
      simp only [denotes_iff_reads small]
      exact exists_congr fun number => exists_congr fun others => and_congr_right fun _ =>
        and_congr_left fun _ => ih
    · obtain ⟨first, more, encoded, large⟩ := utf8EncodeChar_of_le (Nat.le_of_not_lt small)
      rw [encoded, List.cons_append, List.forall₂_cons_left_iff]
      constructor
      · rintro ⟨number, -, reads, -⟩
        exact absurd reads (not_reads_of_le large)
      · rintro ⟨number, -, denotes, -⟩
        exact absurd (small_of_denotes denotes) small

/-- The digits of bytes as numbers, high half of each byte first. -/
def halves (bytes : Bytes) : List Nat :=
  bytes.flatMap fun byte => [byte.toNat / 16, byte.toNat % 16]

theorem halves_cons {high low : Nat} (highSmall : high < 16) (lowSmall : low < 16) :
    halves (UInt8.ofNat (16 * high + low) :: bytes) = high :: low :: halves bytes := by
  have joined : (UInt8.ofNat (16 * high + low)).toNat = 16 * high + low := by
    rw [UInt8.toNat_ofNat']
    omega
  have front : (16 * high + low) / 16 = high := by omega
  have back : (16 * high + low) % 16 = low := by omega
  rw [halves, List.flatMap_cons, joined, front, back]
  rfl

/-- An even number of digits are the halves of bytes. -/
theorem exists_halves : ∀ {numbers : List Nat}, (∀ number ∈ numbers, number < 16) →
    numbers.length % 2 = 0 → ∃ bytes, halves bytes = numbers
  | [], _, _ => ⟨[], rfl⟩
  | high :: low :: rest, small, even => by
    obtain ⟨highSmall, lowSmall, others⟩ :
        high < 16 ∧ low < 16 ∧ ∀ number ∈ rest, number < 16 := by simpa using small
    have evenToo : rest.length % 2 = 0 := by
      rw [List.length_cons, List.length_cons] at even
      omega
    obtain ⟨bytes, rfl⟩ := exists_halves others evenToo
    exact ⟨UInt8.ofNat (16 * high + low) :: bytes, halves_cons highSmall lowSmall⟩

/-- Reading digits gives the bytes that the digits are the halves of. -/
theorem decodeFrom_eq_ok_iff {position : Nat} :
    Hex.decodeFrom position bytes = .ok decoded ↔ List.Forall₂ Reads bytes (halves decoded) := by
  constructor
  · intro ran
    fun_induction Hex.decodeFrom position bytes generalizing decoded with
    | case1 =>
      obtain rfl := Except.ok.inj ran
      exact .nil
    | case2 => cases ran
    | case3 => cases ran
    | case4 => cases ran
    | case5 => cases ran
    | case6 position high low rest highNumber highReads lowNumber lowReads bytes behind ih =>
      obtain rfl := Except.ok.inj ran
      rw [halves_cons (lt_of_reads highReads) (lt_of_reads lowReads)]
      exact .cons highReads (.cons lowReads (ih behind))
  · intro reads
    induction decoded generalizing bytes position with
    | nil =>
      obtain rfl := List.forall₂_nil_right_iff.mp reads
      rfl
    | cons byte rest ih =>
      obtain ⟨high, more, highReads, behind, rfl⟩ := List.forall₂_cons_right_iff.mp reads
      obtain ⟨low, others, lowReads, remaining, rfl⟩ := List.forall₂_cons_right_iff.mp behind
      have joined : UInt8.ofNat (16 * (byte.toNat / 16) + byte.toNat % 16) = byte := by
        rw [Nat.div_add_mod, UInt8.ofNat_toNat]
      rw [Reads] at highReads lowReads
      simp only [Hex.decodeFrom, highReads, lowReads, ih remaining, joined]

/-- Two digits in base 16 are one in base 256. -/
theorem continued_halves (bytes : Bytes) (high : Nat) :
    continued 16 high (halves bytes) = continued 256 high (bytes.map UInt8.toNat) := by
  induction bytes generalizing high with
  | nil => rfl
  | cons byte rest ih =>
    have joined : 16 * (16 * high + byte.toNat / 16) + byte.toNat % 16 = 256 * high + byte.toNat := by
      omega
    have step : continued 16 high (halves (byte :: rest)) =
        continued 16 (16 * (16 * high + byte.toNat / 16) + byte.toNat % 16) (halves rest) := rfl
    rw [step, joined, ih]
    rfl

theorem continued_append_singleton (base high number : Nat) (numbers : List Nat) :
    continued base high (numbers ++ [number]) = base * continued base high numbers + number := by
  rw [continued, List.foldl_append]
  rfl

theorem value_reverse (bytes : Bytes) :
    Bytes.value bytes.reverse = continued 256 0 (bytes.map UInt8.toNat) := by
  induction bytes using List.reverseRecOn with
  | nil => rfl
  | append_singleton front byte ih =>
    rw [List.reverse_append, List.reverse_singleton, List.singleton_append, Bytes.value, ih,
      List.map_append, List.map_singleton, continued_append_singleton, Nat.add_comm]

theorem Numeral.append {high : Nat} {more : List Char} (numeral : Numeral digits high)
    (denote : List.Forall₂ Denotes more numbers) :
    Numeral (digits ++ more) (continued 16 high numbers) := by
  induction denote generalizing digits high with
  | nil => rwa [List.append_nil]
  | cons digit _ ih =>
    rw [List.append_cons]
    exact ih (numeral.more digit)

/-- A numeral states what its digits amount to. -/
theorem numeral_iff : Numeral digits number ↔
    digits ≠ [] ∧ ∃ numbers, List.Forall₂ Denotes digits numbers ∧ continued 16 0 numbers = number := by
  constructor
  · intro numeral
    induction numeral with
    | first digit =>
      refine ⟨List.cons_ne_nil _ _, [_], .cons digit .nil, ?_⟩
      simp [continued]
    | more front digit ih =>
      obtain ⟨-, numbers, denote, rfl⟩ := ih
      refine ⟨by simp, numbers ++ [_], List.rel_append denote (.cons digit .nil), ?_⟩
      exact continued_append_singleton _ _ _ _
  · rintro ⟨filled, numbers, denote, rfl⟩
    cases denote with
    | nil => exact absurd rfl filled
    | @cons c low rest others digit denote =>
      have numeral : Numeral ([c] ++ rest) (continued 16 low others) := (Numeral.first digit).append denote
      have begins : continued 16 0 (low :: others) = continued 16 low others := by
        simp [continued]
      rwa [begins]

/-- What the digits of a text are read as, with a zero in front if there is an odd number of them. -/
theorem decode_paired (denote : List.Forall₂ Denotes digits numbers) :
    ∃ decoded, Hex.decode (paired digits) = .ok decoded ∧
      Bytes.value decoded.reverse = continued 16 0 numbers := by
  have reads : List.Forall₂ Reads (utf8 digits) numbers := forall₂_reads_utf8_iff.mpr denote
  have small : ∀ number ∈ numbers, number < 16 := by
    intro number member
    obtain ⟨byte, -, reads⟩ := exists_of_mem_right reads member
    exact lt_of_reads reads
  obtain ⟨padded, readsPaired, total⟩ : ∃ padded, List.Forall₂ Reads (paired digits) padded ∧
      continued 16 0 padded = continued 16 0 numbers ∧ padded.length % 2 = 0 ∧
        ∀ number ∈ padded, number < 16 := by
    rw [paired]
    by_cases odd : (utf8 digits).length % 2 = 1
    · have zero : Reads 0x30 0 := rfl
      refine ⟨0 :: numbers, ?_, rfl, ?_, List.forall_mem_cons.mpr ⟨by decide, small⟩⟩
      · simpa only [if_pos odd] using reads.cons zero
      · rw [List.length_cons, ← reads.length_eq]
        omega
    · refine ⟨numbers, by simpa only [if_neg odd] using reads, rfl, ?_, small⟩
      rw [← reads.length_eq]
      omega
  obtain ⟨same, even, below⟩ := total
  obtain ⟨decoded, rfl⟩ := exists_halves below even
  refine ⟨decoded, ?_, ?_⟩
  · have evenToo : ¬ (paired digits).length % 2 = 1 := by
      rw [readsPaired.length_eq]
      omega
    rw [Hex.decode, if_neg evenToo]
    exact decodeFrom_eq_ok_iff.mpr readsPaired
  · rw [value_reverse, ← continued_halves, same]

/-- Only digits are read. -/
theorem denotes_of_decode_paired (ran : Hex.decode (paired digits) = .ok decoded) :
    ∃ numbers, List.Forall₂ Denotes digits numbers := by
  rw [Hex.decode] at ran
  split at ran
  · cases ran
  · have reads := decodeFrom_eq_ok_iff.mp ran
    simp only [paired] at reads
    split at reads
    · obtain ⟨_, numbers, -, behind, -⟩ := List.forall₂_cons_left_iff.mp reads
      exact ⟨numbers, forall₂_reads_utf8_iff.mp behind⟩
    · exact ⟨_, forall₂_reads_utf8_iff.mp reads⟩

theorem isBlank_of_mem_marker {marker : List Char} (marked : IsMarker marker) (member : c ∈ marker) :
    isBlank c = false := by
  have each : isBlank '0' = false ∧ isBlank 'x' = false ∧ isBlank 'X' = false := ⟨rfl, rfl, rfl⟩
  rcases marked with rfl | rfl | rfl
  · cases member
  · revert c
    simp [each]
  · revert c
    simp [each]

theorem digitsOf_of_denotes {marker : List Char} (marked : IsMarker marker)
    (denote : List.Forall₂ Denotes digits numbers) {text : List Char}
    (trimmed : trim text = marker ++ digits) : digitsOf text = digits := by
  rw [digitsOf, trimmed]
  rcases marked with rfl | rfl | rfl
  · rw [List.nil_append]
    split
    · obtain ⟨_, _, -, behind, -⟩ := List.forall₂_cons_left_iff.mp denote
      obtain ⟨number, _, marks, -⟩ := List.forall₂_cons_left_iff.mp behind
      exact absurd marks not_denotes_marker.1
    · obtain ⟨_, _, -, behind, -⟩ := List.forall₂_cons_left_iff.mp denote
      obtain ⟨number, _, marks, -⟩ := List.forall₂_cons_left_iff.mp behind
      exact absurd marks not_denotes_marker.2
    · rfl
  · rfl
  · rfl

theorem exists_marker (text : List Char) :
    ∃ marker, IsMarker marker ∧ trim text = marker ++ digitsOf text := by
  rw [digitsOf]
  split
  · exact ⟨['0', 'x'], .inr (.inl rfl), by assumption⟩
  · exact ⟨['0', 'X'], .inr (.inr rfl), by assumption⟩
  · exact ⟨[], .inl rfl, rfl⟩

/-- A text states a number just if the digits that are found in it do. -/
theorem states_iff {text : List Char} : States text number ↔ Numeral (digitsOf text) number := by
  constructor
  · rintro ⟨front, marked, numeral, back⟩
    rename_i before marker digits after
    obtain ⟨filled, numbers, denote, rfl⟩ := numeral_iff.mp numeral
    have solid : ∀ c ∈ marker ++ digits, isBlank c = false := by
      intro c member
      rcases List.mem_append.mp member with inside | inside
      · exact isBlank_of_mem_marker marked inside
      · obtain ⟨number, -, digit⟩ := exists_of_mem_right denote.flip inside
        exact isBlank_of_denotes digit
    have trimmed : trim (before ++ (marker ++ digits ++ after)) = marker ++ digits :=
      trim_append front back (fun c found => solid c (List.mem_of_head? found))
        fun c found => solid c (List.mem_of_getLast? found)
    rwa [digitsOf_of_denotes marked denote trimmed]
  · intro numeral
    obtain ⟨before, after, same, front, back⟩ := exists_trim text
    obtain ⟨marker, marked, trimmed⟩ := exists_marker text
    rw [same, trimmed]
    exact .intro front marked numeral back

section Fields

/-- The significant bytes of a number that fits, zero-extended, are its digits in base 256. -/
theorem zeroExtended (fits : (decoded.dropWhile (· == 0)).length ≤ size) :
    (decoded.dropWhile (· == 0)).reverse ++
        Bytes.zeros (size - (decoded.dropWhile (· == 0)).length) =
      Bytes.digits size (Bytes.value decoded.reverse) := by
  generalize whole : (decoded.dropWhile (· == 0)).reverse ++
    Bytes.zeros (size - (decoded.dropWhile (· == 0)).length) = field
  have length : field.length = size := by
    rw [← whole, List.length_append, List.length_reverse, Bytes.length_zeros]
    omega
  have value : Bytes.value field = Bytes.value decoded.reverse := by
    rw [← whole, Bytes.value_append, Bytes.value_zeros, Nat.mul_zero, Nat.add_zero,
      Bytes.value_significant]
  rw [← value, ← length, Bytes.digits_value]

theorem needs_significant (decoded : Bytes) :
    Bytes.Needs (Bytes.value decoded.reverse) (decoded.dropWhile (· == 0)).length := by
  rw [← Bytes.value_significant]
  refine Bytes.needs_of_head? fun first found => ?_
  have stops := List.head?_dropWhile_not (· == 0) decoded
  rw [found] at stops
  simpa using stops

/-- The field of a text that states a number holds that number, or it is too small for it. -/
theorem toField_of_states (states : States string.toList number) :
    (number < 256 ^ size →
        toField string size order = .ok (order.arrange (Bytes.digits size number))) ∧
      (256 ^ size ≤ number → ∃ count, Bytes.Needs number count ∧
        toField string size order = .error (.sizeExceeded count size)) := by
  obtain ⟨filled, numbers, denote, rfl⟩ := numeral_iff.mp (states_iff.mp states)
  obtain ⟨decoded, ran, value⟩ := decode_paired denote
  have needs := needs_significant decoded
  rw [value] at needs
  have field : toField string size order =
      if (decoded.dropWhile (· == 0)).length ≤ size then
        .ok (order.arrange ((decoded.dropWhile (· == 0)).reverse ++
          Bytes.zeros (size - (decoded.dropWhile (· == 0)).length)))
      else .error (.sizeExceeded (decoded.dropWhile (· == 0)).length size) := by
    simp only [toField, ran]
    rw [bind_of_ok (require_of filled), bind_of_ok rfl, require]
    split <;> rfl
  rw [field]
  constructor
  · intro small
    have fits := needs.least size small
    rw [if_pos fits, zeroExtended fits, value]
  · intro large
    have larger : ¬ (decoded.dropWhile (· == 0)).length ≤ size := by
      intro fits
      have enough : 256 ^ (decoded.dropWhile (· == 0)).length ≤ 256 ^ size :=
        Nat.pow_le_pow_right (by decide) fits
      exact absurd (Nat.lt_of_lt_of_le needs.fits enough) (Nat.not_lt.mpr large)
    exact ⟨_, needs, if_neg larger⟩

/-- A text that states no number is refused, and the failure names the text. -/
theorem toField_of_not_states (unstated : ∀ number, ¬ States string.toList number) :
    toField string size order = .error (.invalidHex (.empty string)) ∨
      ∃ fault, toField string size order = .error (.invalidHex (.number string fault)) := by
  simp only [toField]
  by_cases filled : digitsOf string.toList ≠ []
  · rw [bind_of_ok (require_of filled)]
    cases ran : Hex.decode (paired (digitsOf string.toList)) with
    | ok decoded =>
      obtain ⟨numbers, denote⟩ := denotes_of_decode_paired ran
      exact absurd (states_iff.mpr (numeral_iff.mpr ⟨filled, numbers, denote, rfl⟩)) (unstated _)
    | error fault => exact .inr ⟨fault, rfl⟩
  · exact .inl (require_bind_of_not filled)

/-- The digits of bytes state the number that the bytes hold, most significant byte first. -/
theorem states_encode (filled : bytes ≠ []) :
    States ("0x" ++ Hex.encode bytes).toList (Bytes.value bytes.reverse) := by
  have written : Hex.encodeChars bytes = (halves bytes).map Hex.digit := by
    rw [Hex.encodeChars, halves, List.map_flatMap]
    rfl
  have denote : List.Forall₂ Denotes (Hex.encodeChars bytes) (halves bytes) := by
    rw [written, List.forall₂_map_left_iff, List.forall₂_same]
    intro number member
    obtain ⟨byte, -, half⟩ := List.mem_flatMap.mp member
    have small := byte.toNat_lt
    have below : number < 16 := by
      simp only [List.mem_cons, List.not_mem_nil, or_false] at half
      omega
    exact ⟨below, .inl rfl⟩
  have nonempty : Hex.encodeChars bytes ≠ [] := by
    rw [← List.length_pos_iff, Hex.length_encodeChars]
    exact Nat.mul_pos (by decide) (List.length_pos_iff.mpr filled)
  have value : continued 16 0 (halves bytes) = Bytes.value bytes.reverse := by
    rw [continued_halves, value_reverse]
  have numeral : Numeral (Hex.encodeChars bytes) (Bytes.value bytes.reverse) :=
    numeral_iff.mpr ⟨nonempty, _, denote, value⟩
  have states : States ([] ++ (['0', 'x'] ++ Hex.encodeChars bytes ++ [])) (Bytes.value bytes.reverse) :=
    .intro (by simp) (.inr (.inl rfl)) numeral (by simp)
  rw [String.toList_append, Hex.encode, String.toList_ofList]
  simpa using states

/-- A field is read back from its text. -/
theorem toField_ofField (filled : bytes ≠ []) :
    toField (ofField bytes order) bytes.length order = .ok bytes := by
  have nonempty : order.arrange bytes.reverse ≠ [] := by
    rw [← List.length_pos_iff, Endian.length_arrange, List.length_reverse]
    exact List.length_pos_iff.mpr filled
  have length : (order.arrange bytes.reverse).reverse.length = bytes.length := by simp
  have small : Bytes.value (order.arrange bytes.reverse).reverse < 256 ^ bytes.length := by
    rw [← Bytes.capacity_eq, ← length]
    exact Bytes.value_lt _
  have field : toField (ofField bytes order) bytes.length order = .ok (order.arrange
      (Bytes.digits bytes.length (Bytes.value (order.arrange bytes.reverse).reverse))) :=
    (toField_of_states (states_encode nonempty)).1 small
  have digits : Bytes.digits bytes.length (Bytes.value (order.arrange bytes.reverse).reverse) =
      (order.arrange bytes.reverse).reverse := by
    conv_lhs => rw [← length, Bytes.digits_value]
  rw [field, digits]
  cases order <;> simp [Endian.arrange]

/-- The field of a text is the number that the text states in base 256, if the text states one and
the field has room for it. Every other text is refused, and the text of a field of at least one byte
is read as that field. -/
theorem toField_exact (string : String) (size : Nat) (order : Endian) :
    (∀ number, States string.toList number →
        (number < 256 ^ size →
          toField string size order = .ok (order.arrange (Bytes.digits size number))) ∧
        (256 ^ size ≤ number → ∃ count, Bytes.Needs number count ∧
          toField string size order = .error (.sizeExceeded count size))) ∧
      ((∀ number, ¬ States string.toList number) →
        toField string size order = .error (.invalidHex (.empty string)) ∨
          ∃ fault, toField string size order = .error (.invalidHex (.number string fault))) ∧
      ∀ bytes : Bytes, bytes ≠ [] →
        toField (ofField bytes order) bytes.length order = .ok bytes :=
  ⟨fun _ => toField_of_states, toField_of_not_states, fun _ => toField_ofField⟩

theorem toField_exact_mixedCase :
    States [' ', '0', 'X', '0', '1', 'f', 'F'] 0x1FF ∧
      toField " 0X01fF" 4 .little = .ok [0xFF, 0x01, 0x00, 0x00] ∧
      (∃ count, toField " 0X01fF" 1 .big = .error (.sizeExceeded count 1)) ∧
      (toField "0x" 4 .big = .error (.invalidHex (.empty "0x")) ∨
        ∃ fault, toField "0x" 4 .big = .error (.invalidHex (.number "0x" fault))) ∧
      toField (ofField [0x00, 0x2A] .big) 2 .big = .ok [0x00, 0x2A] := by
  have numeral : Numeral ['0', '1', 'f', 'F'] 0x1FF :=
    numeral_iff.mpr ⟨by decide, [0, 1, 15, 15],
      .cons ⟨by decide, by decide⟩ (.cons ⟨by decide, by decide⟩
        (.cons ⟨by decide, by decide⟩ (.cons ⟨by decide, by decide⟩ .nil))), rfl⟩
  have states : States ([' '] ++ (['0', 'X'] ++ ['0', '1', 'f', 'F'] ++ [])) 0x1FF :=
    .intro (List.forall_mem_singleton.mpr rfl) (.inr (.inr rfl)) numeral nofun
  have unstated (number : Nat) : ¬ States "0x".toList number := by
    rw [states_iff, numeral_iff]
    exact fun states => states.1 rfl
  refine ⟨states, ?_, ?_, ?_, ?_⟩
  · exact ((toField_exact " 0X01fF" 4 .little).1 0x1FF states).1 (by decide)
  · obtain ⟨count, -, exceeded⟩ := ((toField_exact " 0X01fF" 1 .big).1 0x1FF states).2 (by decide)
    exact ⟨count, exceeded⟩
  · exact (toField_exact "0x" 4 .big).2.1 unstated
  · exact (toField_exact "0x" 4 .big).2.2 [0x00, 0x2A] (by decide)

end Fields

end HexNumber
end Text
end SecureBoot
