import Mathlib.Data.List.Sort
import SecureBoot.Proofs.Tampering

/-!
Bursts: changes of up to four bytes in a row. In what a checksum covers, or in the word that holds
it, a burst makes the checksum wrong, whatever the length of the buffer and whatever else is
registered. The check then fails at the lowest checksum that is wrong, and for no other reason,
because a burst moves no word out of the buffer.
-/

namespace SecureBoot.Buffer

variable {buffer : Buffer} {other : Bytes} {addresses : List Nat} {address start width : Nat}

/-- Of checksums that all lie inside the buffer, the first wrong one is reported. -/
theorem checkCrcs_of_wrong (known : ∀ address ∈ addresses, address ∈ buffer.crcAddresses)
    (inside : ∀ address ∈ addresses, address + 4 ≤ buffer.size) (wrong : ¬ buffer.HasCrcs addresses) :
    ∃ before first after expected actual, addresses = before ++ first :: after ∧
      buffer.HasCrcs before ∧ expected ≠ actual ∧
        buffer.checkCrcs addresses = .error (.crcMismatch first expected actual) := by
  induction addresses with
  | nil => exact absurd (List.forall_mem_nil _) wrong
  | cons first rest ih =>
    obtain ⟨registered, others⟩ := List.forall_mem_cons.mp known
    obtain ⟨here, room⟩ := List.forall_mem_cons.mp inside
    have computed : buffer.computedCrc first = .ok (Bytes.crc32 (buffer.bytes.take first)) :=
      computedCrc_eq_ok_iff.mpr ⟨registered, by omega, rfl⟩
    have stored : buffer.storedCrc first = .ok (Bytes.wordAt buffer.bytes first) :=
      storedCrc_eq_ok_iff.mpr ⟨registered, here, rfl⟩
    rw [checkCrcs, bind_of_ok computed, bind_of_ok stored]
    by_cases same : Bytes.crc32 (buffer.bytes.take first) = Bytes.wordAt buffer.bytes first
    · have later : ¬ buffer.HasCrcs rest := by
        intro matching
        exact wrong (List.forall_mem_cons.mpr ⟨⟨here, same.symm⟩, matching⟩)
      obtain ⟨before, found, after, expected, actual, split, matching, differ, ran⟩ :=
        ih others room later
      refine ⟨first :: before, found, after, expected, actual, ?_, ?_, differ, ?_⟩
      · rw [split, List.cons_append]
      · exact List.forall_mem_cons.mpr ⟨⟨here, same.symm⟩, matching⟩
      · rw [bind_of_ok (require_of same), ran]
    · exact ⟨[], first, rest, _, _, rfl, List.forall_mem_nil _, same, require_bind_of_not same⟩

/-- Checksum words that all lie inside the buffer are checked from the lowest up to the first wrong
one. -/
theorem validateCrc_of_wrong (inside : ∀ address ∈ buffer.crcAddresses, address + 4 ≤ buffer.size)
    (member : address ∈ buffer.crcAddresses)
    (wrong : Bytes.wordAt buffer.bytes address ≠ Bytes.crc32 (buffer.bytes.take address)) :
    ∃ lowest expected actual, lowest ≤ address ∧ expected ≠ actual ∧
      buffer.validateCrc = .error (.crcMismatch lowest expected actual) := by
  let sorted := buffer.crcAddresses.mergeSort (· ≤ ·)
  have known : ∀ address ∈ sorted, address ∈ buffer.crcAddresses :=
    fun _ there => List.mem_mergeSort.mp there
  have listed : address ∈ sorted := List.mem_mergeSort.mpr member
  have ascending : sorted.Pairwise (· ≤ ·) := List.pairwise_mergeSort' (· ≤ ·) _
  obtain ⟨before, lowest, after, expected, actual, split, matching, differ, ran⟩ :=
    checkCrcs_of_wrong known (fun address there => inside address (known address there))
      fun matching => wrong (matching address listed).2
  refine ⟨lowest, expected, actual, ?_, differ, ran⟩
  rw [split] at listed ascending
  rcases List.mem_append.mp listed with earlier | here
  · exact absurd (matching address earlier).2 wrong
  · rcases List.mem_cons.mp here with same | later
    · exact Nat.le_of_eq same.symm
    · obtain ⟨-, behind, -⟩ := List.pairwise_append.mp ascending
      exact (List.pairwise_cons.mp behind).1 address later

/-- A burst in what a checksum covers, or in the checksum's own word, makes it wrong. -/
theorem HasCrcs.wrong_of_burst (matching : buffer.HasCrcs addresses) (member : address ∈ addresses)
    (agree : buffer.bytes.AgreeBeside other start width) (narrow : width ≤ 4)
    (confined : start + width ≤ address ∨ address ≤ start ∧ start + width ≤ address + 4)
    (changed : other ≠ buffer.bytes) :
    Bytes.wordAt other address ≠ Bytes.crc32 (other.take address) := by
  obtain ⟨inside, stored⟩ := matching address member
  intro same
  apply changed
  rcases confined with covered | ⟨starts, upTo⟩
  · rw [agree.wordAt (.inr covered), stored] at same
    have room : 0 + address ≤ buffer.bytes.length := by
      rw [size] at inside
      omega
    refine agree.eq_of_crc32 narrow room (Nat.zero_le start) (by omega) ?_
    rw [Bytes.slice_zero, Bytes.slice_zero, same]
  · have front : Bytes.slice other 0 address = Bytes.slice buffer.bytes 0 address :=
      agree.slice (.inl (by omega))
    rw [Bytes.slice_zero, Bytes.slice_zero] at front
    rw [front, ← stored] at same
    have inner (bytes : Bytes) : Bytes.slice bytes start width =
        Bytes.slice (Bytes.slice bytes address 4) (start - address) width := by
      rw [Bytes.slice_slice (by omega), Nat.add_sub_cancel' starts]
    have long : address + 4 ≤ other.length := by
      rw [agree.length]
      exact inside
    refine agree.eq_of_slice ?_
    rw [inner other, inner buffer.bytes, ← Bytes.ofWord_wordAt long, same, Bytes.ofWord_wordAt inside]

/-- A burst in a buffer whose checksums match, inside what one of them covers or inside its word, is
reported as a mismatch, at this checksum or at a lower one. -/
theorem burst_mismatches (valid : buffer.validateCrc = .ok ())
    (member : address ∈ buffer.crcAddresses)
    (agree : buffer.bytes.AgreeBeside other start width) (narrow : width ≤ 4)
    (confined : start + width ≤ address ∨ address ≤ start ∧ start + width ≤ address + 4)
    (changed : other ≠ buffer.bytes) :
    ∃ lowest expected actual, lowest ≤ address ∧ expected ≠ actual ∧
      { buffer with bytes := other }.validateCrc =
        .error (.crcMismatch lowest expected actual) := by
  have matching := validateCrc_eq_ok_iff.mp valid
  refine validateCrc_of_wrong (fun address there => ?_) member
    (matching.wrong_of_burst member agree narrow confined changed)
  rw [size, agree.length]
  exact (matching address there).1

/-- The digits from 1 to 9, behind them their checksum, and behind that the checksum of both. -/
def sealedDigits : Buffer :=
  { Buffer.empty none with
    bytes := [0x31, 0x32, 0x33, 0x34, 0x35, 0x36, 0x37, 0x38, 0x39, 0x18, 0x19, 0x89, 0xFC, 0xE6,
      0x1D, 0xBE, 0x6C]
    crcAddresses := [13, 9] }

/-- The whole inner word is overwritten, which the outer checksum covers. -/
theorem burst_mismatches_innerWord :
    sealedDigits.validateCrc = .ok () ∧ 13 ∈ sealedDigits.crcAddresses ∧
      ∃ other, sealedDigits.bytes.AgreeBeside other 9 4 ∧ 9 + 4 ≤ 13 ∧ other ≠ sealedDigits.bytes ∧
        ∃ lowest expected actual, lowest ≤ 13 ∧ expected ≠ actual ∧
          { sealedDigits with bytes := other }.validateCrc =
            .error (.crcMismatch lowest expected actual) := by
  have valid : sealedDigits.validateCrc = .ok () := by
    refine validateCrc_eq_ok_iff.mpr (List.forall_mem_cons.mpr ⟨?_, List.forall_mem_singleton.mpr ?_⟩)
    · decide +kernel
    · decide +kernel
  have member : 13 ∈ sealedDigits.crcAddresses := List.mem_cons_self
  have agree : sealedDigits.bytes.AgreeBeside (Bytes.splice sealedDigits.bytes 9 (Bytes.zeros 4)) 9 4 :=
    .splice (by decide)
  have changed : Bytes.splice sealedDigits.bytes 9 (Bytes.zeros 4) ≠ sealedDigits.bytes := by decide
  have inside : 9 + 4 ≤ 13 := Nat.le_refl 13
  exact ⟨valid, member, _, agree, inside, changed,
    burst_mismatches valid member agree (Nat.le_refl 4) (.inl inside) changed⟩

end SecureBoot.Buffer
