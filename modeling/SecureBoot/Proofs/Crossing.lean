import SecureBoot.Proofs.Flat

/-!
Writes that a sequence of buffers refuses. The member that holds the first byte decides: a range
that runs past the end of that member is said to cross members, also when there is no byte behind
it. So a range that leaves the sequence is called out of bounds only if it begins behind the last
byte.
-/

namespace SecureBoot
namespace Layout

/-- The range begins in one of the pieces and runs past its end. -/
def Leaves (offset count : Nat) (sizes : List Nat) : Prop :=
  ∃ before size after, sizes = before ++ size :: after ∧ total before ≤ offset ∧
    offset < total before + size ∧ total before + size < offset + count

/-- The range lies in the pieces, its first byte in one of them and its last byte in a later one. -/
def Straddles (offset count : Nat) (sizes : List Nat) : Prop :=
  Leaves offset count sizes ∧ offset + count ≤ total sizes

variable {offset count size : Nat} {sizes : List Nat}

@[simp] theorem leaves_nil : ¬ Leaves offset count [] := by
  rintro ⟨before, size, after, split, -⟩
  simp at split

/-- A range leaves the first piece, or it begins behind it and leaves a later one. -/
theorem leaves_cons_iff :
    Leaves offset count (size :: sizes) ↔
      offset < size ∧ size < offset + count ∨ size ≤ offset ∧ Leaves (offset - size) count sizes := by
  constructor
  · rintro ⟨before, own, after, split, reached, within, past⟩
    cases before with
    | nil =>
      obtain ⟨rfl, rfl⟩ : size = own ∧ sizes = after := by simpa using split
      rw [total, Nat.zero_add] at within past
      exact .inl ⟨within, past⟩
    | cons first before =>
      obtain ⟨rfl, rfl⟩ : size = first ∧ sizes = before ++ own :: after := by simpa using split
      rw [total] at reached within past
      exact .inr ⟨by omega, before, own, after, rfl, by omega, by omega, by omega⟩
  · rintro (⟨within, past⟩ | ⟨beyond, before, own, after, rfl, reached, within, past⟩)
    · exact ⟨[], size, sizes, rfl, Nat.zero_le _, by simpa [total] using within,
        by simpa [total] using past⟩
    · refine ⟨size :: before, own, after, rfl, ?_, ?_, ?_⟩ <;> rw [total] <;> omega

theorem Leaves.begins (leaves : Leaves offset count sizes) : offset < total sizes := by
  obtain ⟨before, size, after, rfl, -, within, -⟩ := leaves
  rw [total_append, total]
  omega

/-- A range that runs past all the pieces leaves the one that it begins in. -/
theorem leaves_of_past (begins : offset < total sizes) (past : total sizes < offset + count) :
    Leaves offset count sizes := by
  induction sizes generalizing offset with
  | nil => simp [total] at begins
  | cons first rest ih =>
    rw [total] at begins past
    rw [leaves_cons_iff]
    by_cases here : offset < first
    · exact .inl ⟨here, by omega⟩
    · exact .inr ⟨by omega, ih (by omega) (by omega)⟩

end Layout

namespace Sequence

variable {sequence : Sequence Buffer} {bytes : Bytes} {offset start : Nat} {failure : Failure}

/-- The members refuse a write just when it leaves the one it begins in. -/
theorem scatter_eq_error_iff {σ : Type} {items : List Buffer} {put : List Buffer → σ}
    (behind : start ≤ offset) :
    Part.scatter bytes offset start (Part.ofList put items) = some (.error failure) ↔
      Layout.Leaves (offset - start) bytes.length (items.map Buffer.size) ∧
        failure = .crossFragmentWrite offset bytes.length := by
  induction items generalizing start put with
  | nil => simp [Part.ofList, Part.scatter]
  | cons first rest ih =>
    rw [Part.ofList, Part.scatter, List.map_cons, Layout.leaves_cons_iff]
    have size : (Part.of first fun changed => put (changed :: rest)).size = first.size := rfl
    rw [size]
    by_cases here : offset < start + first.size
    · have within : offset - start < first.size := by omega
      have notBeyond : ¬ first.size ≤ offset - start := by omega
      rw [if_pos ⟨behind, here⟩]
      by_cases past : start + first.size < offset + bytes.length
      · have leaves : first.size < offset - start + bytes.length := by omega
        simp [past, within, leaves, eq_comm]
      · have stays : ¬ first.size < offset - start + bytes.length := by omega
        have inside : offset - start + bytes.length ≤ first.size := by omega
        obtain ⟨changed, wrote⟩ : ∃ changed, first.setRaw bytes (offset - start) = .ok changed :=
          ⟨_, Buffer.setRaw_eq_ok_iff.mpr ⟨inside, rfl⟩⟩
        have taken : (Part.of first fun changed => put (changed :: rest)).writeBytes bytes
            (offset - start) = .ok (put (changed :: rest)) :=
          map_eq_ok_iff.mpr ⟨changed, wrote, rfl⟩
        simp [past, taken, stays, notBeyond]
    · have beyond : first.size ≤ offset - start := by omega
      have notWithin : ¬ offset - start < first.size := by omega
      have shifted : offset - (start + first.size) = offset - start - first.size := by omega
      rw [if_neg fun both => here both.2, ih (by omega), shifted]
      simp [beyond, notWithin]

/-- A write of at least one byte is refused when it leaves the member that it begins in, and when it
begins in none. -/
theorem setRaw_eq_error_iff (nonempty : bytes ≠ []) :
    sequence.setRaw bytes offset = .error failure ↔
      Layout.Leaves offset bytes.length sequence.sizes ∧
          failure = .crossFragmentWrite offset bytes.length ∨
        sequence.totalSize ≤ offset ∧
          failure = .outOfBounds offset bytes.length sequence.totalSize := by
  have total : Part.totalSize (Composite.parts sequence) = sequence.totalSize := sequence.size_eq
  have members : Part.scatter bytes offset 0 (Composite.parts sequence) = some (.error failure) ↔
      Layout.Leaves offset bytes.length sequence.sizes ∧
        failure = .crossFragmentWrite offset bytes.length :=
    scatter_eq_error_iff (Nat.zero_le offset)
  have missed : Part.scatter bytes offset 0 (Composite.parts sequence) = none ↔
      sequence.totalSize ≤ offset := by
    rw [Part.scatter_eq_none_iff (Nat.zero_le _), total, Nat.zero_add]
  rw [setRaw, Composite.writeBytes, Part.writeSpan, total, ← members, ← missed]
  cases scattered : Part.scatter bytes offset 0 (Composite.parts sequence) with
  | none => simp [nonempty, eq_comm (a := failure)]
  | some outcome => simp

/-- A write of at least one byte is refused when it straddles members or runs past the end, and then
changes nothing. It is called a crossing write in the first case, but in the second case out of
bounds just when it also begins behind the last byte. -/
theorem refused_write (nonempty : bytes ≠ []) :
    ((∃ failure, sequence.setRaw bytes offset = .error failure) ↔
        Layout.Straddles offset bytes.length sequence.sizes ∨
          sequence.totalSize < offset + bytes.length) ∧
      ∀ failure, sequence.setRaw bytes offset = .error failure →
        (Layout.Straddles offset bytes.length sequence.sizes →
            failure = .crossFragmentWrite offset bytes.length) ∧
          (sequence.totalSize < offset + bytes.length →
            (failure = .outOfBounds offset bytes.length sequence.totalSize ↔
              sequence.totalSize ≤ offset)) ∧
          (Edit.change (·.setRaw bytes offset)).after sequence = sequence := by
  have count : 0 < bytes.length := List.length_pos_iff.mpr nonempty
  have total := sequence.total_sizes
  simp only [Layout.Straddles, total]
  refine ⟨?_, fun failure refused => ⟨?_, ?_, Edit.after_change_of_error _ refused⟩⟩
  · constructor
    · rintro ⟨failure, refused⟩
      obtain ⟨leaves, -⟩ | ⟨beyond, -⟩ := (setRaw_eq_error_iff nonempty).mp refused
      · by_cases past : sequence.totalSize < offset + bytes.length
        · exact .inr past
        · exact .inl ⟨leaves, by omega⟩
      · exact .inr (by omega)
    · rintro (⟨leaves, -⟩ | past)
      · exact ⟨_, (setRaw_eq_error_iff nonempty).mpr (.inl ⟨leaves, rfl⟩)⟩
      · by_cases begins : offset < sequence.totalSize
        · have leaves : Layout.Leaves offset bytes.length sequence.sizes :=
            Layout.leaves_of_past (total ▸ begins) (total ▸ past)
          exact ⟨_, (setRaw_eq_error_iff nonempty).mpr (.inl ⟨leaves, rfl⟩)⟩
        · exact ⟨_, (setRaw_eq_error_iff nonempty).mpr (.inr ⟨by omega, rfl⟩)⟩
  · rintro ⟨leaves, inside⟩
    obtain ⟨-, rfl⟩ | ⟨beyond, -⟩ := (setRaw_eq_error_iff nonempty).mp refused
    · rfl
    · omega
  · intro past
    obtain ⟨leaves, rfl⟩ | ⟨beyond, rfl⟩ := (setRaw_eq_error_iff nonempty).mp refused
    · have begins := leaves.begins
      rw [total] at begins
      simpa using begins
    · simpa using beyond

/-- Two bytes and two more. -/
def twoPairs : Sequence Buffer :=
  { (empty none : Sequence Buffer) with
    items := [{ Buffer.empty none with bytes := [0x00, 0x11] },
      { Buffer.empty none with bytes := [0x22, 0x33] }] }

theorem refused_write_twoPairs :
    ([0xAA, 0xBB] : Bytes) ≠ [] ∧ Layout.Straddles 1 2 twoPairs.sizes ∧
      twoPairs.setRaw [0xAA, 0xBB] 1 = .error (.crossFragmentWrite 1 2) ∧
      twoPairs.setRaw [0xAA, 0xBB] 4 = .error (.outOfBounds 4 2 4) := by
  have nonempty : ([0xAA, 0xBB] : Bytes) ≠ [] := by decide
  have straddles : Layout.Straddles 1 2 twoPairs.sizes :=
    ⟨⟨[], 2, [2], rfl, by decide, by decide, by decide⟩, by decide⟩
  obtain ⟨failure, refused⟩ := (refused_write nonempty).1.mpr (.inl straddles)
  obtain ⟨beyondFailure, beyond⟩ : ∃ failure, twoPairs.setRaw [0xAA, 0xBB] 4 = .error failure :=
    (refused_write nonempty).1.mpr (.inr (by decide))
  have crossing := ((refused_write nonempty).2 failure refused).1 straddles
  have outside := (((refused_write nonempty).2 beyondFailure beyond).2.1 (by decide)).mpr (by decide)
  exact ⟨nonempty, straddles, crossing ▸ refused, outside ▸ beyond⟩

/-- Writing past the end is called a crossing write although there is nothing to cross into. -/
theorem overrun_called_crossing :
    ∃ (sequence : Sequence Buffer) (bytes : Bytes) (offset : Nat), bytes ≠ [] ∧
      sequence.length = 1 ∧ sequence.totalSize < offset + bytes.length ∧
      sequence.setRaw bytes offset = .error (.crossFragmentWrite offset bytes.length) :=
  ⟨{ (empty none : Sequence Buffer) with
      items := [{ Buffer.empty none with bytes := [0x00, 0x11, 0x22, 0x33] }] },
    [0xAA, 0xBB], 3, by decide, rfl, by decide, rfl⟩

end Sequence
end SecureBoot
