import SecureBoot.Proofs.Buffer

/-!
Sealed buffers. The checksum at an address covers the words of all checksums at lower ones, so that
storing an inner one late would spoil the outer ones; stored from the lowest address up, every word
is final when it is covered. The order in which the addresses were registered plays no part.
-/

namespace SecureBoot.Buffer

variable {buffer other : Buffer} {addresses : List Nat}

/-- Buffers that differ in nothing but some words have the same bytes beside them. -/
theorem AgreesBeside.getElem?_eq (agrees : AgreesBeside addresses buffer other) {index : Nat}
    (beside : ∀ address ∈ addresses, Beside index 1 address) :
    other.bytes[index]? = buffer.bytes[index]? := by
  by_cases inside : index + 1 ≤ buffer.size
  · have shown := agrees.shown index 1 beside
    rw [getRaw_eq_ok_iff.mpr ⟨inside, rfl⟩, getRaw_eq_ok_iff] at shown
    have first := congrArg (·[0]?) shown.2
    simpa [Bytes.getElem?_slice] using first
  · have beyond : buffer.bytes.length ≤ index := Nat.le_of_not_lt inside
    have beyondToo : other.bytes.length ≤ index := Nat.le_trans (Nat.le_of_eq agrees.size) beyond
    rw [List.getElem?_eq_none beyond, List.getElem?_eq_none beyondToo]

/-- In whatever order checksum words were registered that lie inside a buffer and do not overlap,
refreshing them succeeds and makes all of them match. Doing it again changes nothing, and nothing
but these words was changed. -/
theorem updateCrc_seals (inside : ∀ address ∈ buffer.crcAddresses, address + 4 ≤ buffer.size)
    (apart : buffer.crcAddresses.Pairwise Apart) :
    ∃ changed, updateCrc buffer = .ok () changed ∧ changed.validateCrc = .ok () ∧
      updateCrc changed = .ok () changed ∧
      changed = { buffer with bytes := changed.bytes } ∧ changed.size = buffer.size ∧
      ∀ index, (∀ address ∈ buffer.crcAddresses, Beside index 1 address) →
        changed.bytes[index]? = buffer.bytes[index]? := by
  obtain ⟨changed, refreshes, matching⟩ := updateCrc_hasCrcs inside apart
  have agrees : AgreesBeside buffer.crcAddresses buffer changed :=
    .updateCrc refreshes fun _ member => member
  have registered : changed.crcAddresses = buffer.crcAddresses := by rw [agrees.layout]
  rw [← registered] at matching
  refine ⟨changed, refreshes, validateCrc_eq_ok_iff.mpr matching, updateCrc_of_hasCrcs matching,
    agrees.layout, agrees.size, fun index beside => agrees.getElem?_eq beside⟩

/-- A buffer with three nested words, the outermost registered first and the innermost next. -/
def threeWords : Buffer :=
  { Buffer.empty none with bytes := List.replicate 26 0x5A, crcAddresses := [20, 4, 12] }

theorem updateCrc_seals_threeWords :
    ∃ changed, updateCrc threeWords = .ok () changed ∧ changed.validateCrc = .ok () ∧
      updateCrc changed = .ok () changed ∧ changed.size = 26 ∧
      changed.bytes[8]? = some 0x5A ∧ changed.bytes[24]? = some 0x5A := by
  have inside : ∀ address ∈ threeWords.crcAddresses, address + 4 ≤ threeWords.size := by decide
  have apart : threeWords.crcAddresses.Pairwise Apart := by
    simp [threeWords, Apart, Beside]
  obtain ⟨changed, refreshes, valid, again, -, sized, shown⟩ := updateCrc_seals inside apart
  refine ⟨changed, refreshes, valid, again, sized, shown 8 ?_, shown 24 ?_⟩ <;>
    simp [threeWords, Beside]

end SecureBoot.Buffer
