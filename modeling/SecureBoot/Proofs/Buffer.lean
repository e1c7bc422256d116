import SecureBoot.Buffer
import SecureBoot.Proofs.Bytes
import SecureBoot.Proofs.Keeping

/-!
Buffers, call by call: what reading, writing and checking a buffer come to in terms of its bytes.
Refreshing a valid buffer leaves it alone, and refreshing any buffer whose checksum words lie
inside it and apart from each other makes every checksum match.
-/

namespace SecureBoot.Buffer

variable {buffer changed blank : Buffer} {bytes : Bytes} {word : UInt32} {offset size : Nat}
  {answer : Unit}

@[simp] theorem getRaw_eq_ok_iff :
    buffer.getRaw offset size = .ok bytes ↔
      offset + size ≤ buffer.size ∧ Bytes.slice buffer.bytes offset size = bytes := by
  simp [getRaw, checkRange]

@[simp] theorem setRaw_eq_ok_iff :
    buffer.setRaw bytes offset = .ok changed ↔
      offset + bytes.length ≤ buffer.size ∧
        { buffer with bytes := Bytes.splice buffer.bytes offset bytes } = changed := by
  simp [setRaw, checkRange]

@[simp] theorem getWord_eq_ok_iff :
    buffer.getWord offset = .ok word ↔
      offset + 4 ≤ buffer.size ∧ Bytes.wordAt buffer.bytes offset = word := by
  simp [getWord, Bytes.wordAt, and_assoc]

@[simp] theorem setWord_eq_ok_iff :
    buffer.setWord word offset = .ok changed ↔
      offset + 4 ≤ buffer.size ∧
        { buffer with bytes := Bytes.splice buffer.bytes offset (Bytes.ofWord word) } = changed := by
  simp [setWord]

/-- Storing the word that stands there changes nothing. -/
theorem setWord_of_wordAt (inside : offset + 4 ≤ buffer.size)
    (there : Bytes.wordAt buffer.bytes offset = word) : buffer.setWord word offset = .ok buffer := by
  rw [setWord_eq_ok_iff, ← there, Bytes.splice_wordAt inside]
  exact ⟨inside, rfl⟩

/-- Two writes that meet are one write. -/
theorem setRaw_setRaw_iff {more : Bytes} {next : Nat} (meets : offset + bytes.length = next) :
    (∃ between, buffer.setRaw bytes offset = .ok between ∧ between.setRaw more next = .ok changed) ↔
      buffer.setRaw (bytes ++ more) offset = .ok changed := by
  subst meets
  simp only [setRaw_eq_ok_iff, List.length_append]
  constructor
  · rintro ⟨_, ⟨first, rfl⟩, second, rfl⟩
    rw [size, Bytes.length_splice first, Nat.add_assoc] at second
    exact ⟨second, by rw [Bytes.splice_splice_after second]⟩
  · rintro ⟨whole, rfl⟩
    have first : offset + bytes.length ≤ buffer.bytes.length := by
      rw [size] at whole
      omega
    refine ⟨_, ⟨first, rfl⟩, ?_, by rw [Bytes.splice_splice_after whole]⟩
    rw [size, Bytes.length_splice first, Nat.add_assoc]
    exact whole

theorem size_setRaw (written : buffer.setRaw bytes offset = .ok changed) :
    changed.size = buffer.size := by
  obtain ⟨inside, rfl⟩ := setRaw_eq_ok_iff.mp written
  exact Bytes.length_splice inside

theorem getWord_setWord (stored : buffer.setWord word offset = .ok changed) :
    changed.getWord offset = .ok word := by
  have sized : changed.size = buffer.size := size_setRaw stored
  obtain ⟨inside, rfl⟩ := setWord_eq_ok_iff.mp stored
  exact getWord_eq_ok_iff.mpr ⟨sized ▸ inside, Bytes.wordAt_splice inside⟩

theorem getRaw_congr {other : Buffer} {start count : Nat} (sized : other.size = buffer.size)
    (same : Bytes.slice other.bytes start count = Bytes.slice buffer.bytes start count) :
    other.getRaw start count = buffer.getRaw start count := by
  by_cases inside : start + count ≤ buffer.size
  · rw [getRaw_eq_ok_iff.mpr ⟨inside, rfl⟩]
    exact getRaw_eq_ok_iff.mpr ⟨by rwa [sized], same⟩
  · simp [getRaw, checkRange, require, sized, inside]

/-- Writing shows in no range that it does not touch. -/
theorem getRaw_setRaw {start count : Nat} (written : buffer.setRaw bytes offset = .ok changed)
    (apart : start + count ≤ offset ∨ offset + bytes.length ≤ start) :
    changed.getRaw start count = buffer.getRaw start count := by
  have sized := size_setRaw written
  obtain ⟨inside, rfl⟩ := setRaw_eq_ok_iff.mp written
  exact getRaw_congr sized (Bytes.slice_splice_of_disjoint inside apart)

theorem getWord_congr {other : Buffer} {start : Nat}
    (same : other.getRaw start 4 = buffer.getRaw start 4) :
    other.getWord start = buffer.getWord start := by
  rw [getWord, getWord, same]

theorem getWord_setRaw {start : Nat} (written : buffer.setRaw bytes offset = .ok changed)
    (apart : start + 4 ≤ offset ∨ offset + bytes.length ≤ start) :
    changed.getWord start = buffer.getWord start :=
  getWord_congr (getRaw_setRaw written apart)

@[simp] theorem append_eq_ok_iff :
    buffer.append bytes = .ok changed ↔
      (∀ most, buffer.limit = some most → buffer.size + bytes.length ≤ most) ∧
        { buffer with bytes := buffer.bytes ++ bytes } = changed := by
  simp [append]

/-- Every one of the given magic numbers stands at its offset. -/
def HasMagics (buffer : Buffer) (magics : List (UInt32 × Nat)) : Prop :=
  ∀ magic ∈ magics, magic.2 + 4 ≤ buffer.size ∧ Bytes.wordAt buffer.bytes magic.2 = magic.1

/-- The word at each of the given addresses is the checksum of everything before it. -/
def HasCrcs (buffer : Buffer) (addresses : List Nat) : Prop :=
  ∀ address ∈ addresses, address + 4 ≤ buffer.size ∧
    Bytes.wordAt buffer.bytes address = Bytes.crc32 (buffer.bytes.take address)

theorem checkMagics_eq_ok_iff {magics : List (UInt32 × Nat)} :
    buffer.checkMagics magics = .ok answer ↔ buffer.HasMagics magics := by
  induction magics with
  | nil => simp [checkMagics, HasMagics]
  | cons first rest ih =>
    obtain ⟨magic, offset⟩ := first
    simp only [checkMagics, bind_eq_ok_iff, getWord_eq_ok_iff, require_eq_ok_iff, exists_unit_iff, ih]
    simp only [HasMagics, List.forall_mem_cons]
    constructor
    · rintro ⟨_, ⟨inside, rfl⟩, same, others⟩
      exact ⟨⟨inside, same⟩, others⟩
    · rintro ⟨⟨inside, same⟩, others⟩
      exact ⟨_, ⟨inside, rfl⟩, same, others⟩

theorem computedCrc_eq_ok_iff {address : Nat} :
    buffer.computedCrc address = .ok word ↔
      address ∈ buffer.crcAddresses ∧ address ≤ buffer.size ∧
        Bytes.crc32 (buffer.bytes.take address) = word := by
  simp [computedCrc, Bytes.slice_zero, and_assoc]

theorem storedCrc_eq_ok_iff {address : Nat} :
    buffer.storedCrc address = .ok word ↔
      address ∈ buffer.crcAddresses ∧ address + 4 ≤ buffer.size ∧
        Bytes.wordAt buffer.bytes address = word := by
  simp [storedCrc]

theorem checkCrcs_eq_ok_iff {addresses : List Nat} :
    buffer.checkCrcs addresses = .ok answer ↔
      (∀ address ∈ addresses, address ∈ buffer.crcAddresses) ∧ buffer.HasCrcs addresses := by
  induction addresses with
  | nil => simp [checkCrcs, HasCrcs]
  | cons first rest ih =>
    simp only [checkCrcs, bind_eq_ok_iff, computedCrc_eq_ok_iff, storedCrc_eq_ok_iff,
      require_eq_ok_iff, exists_unit_iff, ih]
    simp only [HasCrcs, List.forall_mem_cons]
    constructor
    · rintro ⟨_, ⟨known, _, rfl⟩, _, ⟨_, inside, rfl⟩, same, others, checksums⟩
      exact ⟨⟨known, others⟩, ⟨inside, same.symm⟩, checksums⟩
    · rintro ⟨⟨known, others⟩, ⟨inside, same⟩, checksums⟩
      exact ⟨_, ⟨known, by omega, rfl⟩, _, ⟨known, inside, rfl⟩, same.symm, others, checksums⟩

theorem validateCrc_eq_ok_iff :
    buffer.validateCrc = .ok answer ↔ buffer.HasCrcs buffer.crcAddresses := by
  simp only [validateCrc, checkCrcs_eq_ok_iff, HasCrcs, List.mem_mergeSort, imp_self,
    implies_true, true_and]

theorem validate_eq_ok_iff :
    buffer.validate = .ok answer ↔
      (∀ most, buffer.limit = some most → buffer.size ≤ most) ∧
        buffer.HasMagics buffer.magics ∧ buffer.HasCrcs buffer.crcAddresses := by
  simp only [validate, validateMagic, bind_eq_ok_iff, checkBound_eq_ok_iff, exists_unit_iff,
    checkMagics_eq_ok_iff, validateCrc_eq_ok_iff]

theorem storeMagics_of_hasMagics {magics : List (UInt32 × Nat)}
    (stand : buffer.HasMagics magics) : storeMagics magics buffer = .ok () buffer := by
  induction magics with
  | nil => rfl
  | cons first rest ih =>
    obtain ⟨magic, offset⟩ := first
    obtain ⟨here, others⟩ := List.forall_mem_cons.mp stand
    have inside : offset + 4 ≤ buffer.size := here.1
    have same : Bytes.wordAt buffer.bytes offset = magic := here.2
    have unchanged : buffer.setWord magic offset = .ok buffer := by
      rw [setWord_eq_ok_iff, ← same, Bytes.splice_wordAt inside]
      exact ⟨inside, rfl⟩
    rw [storeMagics, Edit.bind_of_ok (Edit.change_of_ok unchanged), ih others]

/-- Refreshing checksums that match already leaves the buffer alone. -/
theorem storeCrcs_of_hasCrcs {addresses : List Nat}
    (known : ∀ address ∈ addresses, address ∈ buffer.crcAddresses)
    (stand : buffer.HasCrcs addresses) : storeCrcs addresses buffer = .ok () buffer := by
  induction addresses with
  | nil => rfl
  | cons first rest ih =>
    obtain ⟨⟨inside, same⟩, others⟩ := List.forall_mem_cons.mp stand
    have computed : buffer.computedCrc first = .ok (Bytes.wordAt buffer.bytes first) :=
      computedCrc_eq_ok_iff.mpr ⟨known first (by simp), by omega, same.symm⟩
    have unchanged : buffer.setWord (Bytes.wordAt buffer.bytes first) first = .ok buffer := by
      rw [setWord_eq_ok_iff, Bytes.splice_wordAt inside]
      exact ⟨inside, rfl⟩
    have asked : Edit.ask (·.computedCrc first) buffer =
        .ok (Bytes.wordAt buffer.bytes first) buffer := by
      rw [Edit.ask_eq_ok_iff]
      exact ⟨computed, rfl⟩
    rw [storeCrcs, Edit.bind_of_ok asked, Edit.bind_of_ok (Edit.change_of_ok unchanged)]
    exact ih (fun address member => known address (List.mem_cons_of_mem _ member)) others

theorem updateCrc_of_hasCrcs (stand : buffer.HasCrcs buffer.crcAddresses) :
    updateCrc buffer = .ok () buffer := by
  have sorted : buffer.HasCrcs (buffer.crcAddresses.mergeSort (· ≤ ·)) := by
    intro address member
    exact stand address (List.mem_mergeSort.mp member)
  exact storeCrcs_of_hasCrcs (fun _ member => List.mem_mergeSort.mp member) sorted

theorem updateMagic_of_hasMagics (stand : buffer.HasMagics buffer.magics) :
    updateMagic buffer = .ok () buffer :=
  storeMagics_of_hasMagics stand

/-- The bytes with the checksum of everything before it stored at each address in turn. -/
def sealed : List Nat → Bytes → Bytes
  | [], bytes => bytes
  | address :: rest, bytes =>
    sealed rest (Bytes.splice bytes address (Bytes.ofWord (Bytes.crc32 (bytes.take address))))

theorem length_sealed {addresses : List Nat}
    (inside : ∀ address ∈ addresses, address + 4 ≤ bytes.length) :
    (sealed addresses bytes).length = bytes.length := by
  induction addresses generalizing bytes with
  | nil => rfl
  | cons first rest ih =>
    obtain ⟨here, others⟩ := List.forall_mem_cons.mp inside
    have others : ∀ address ∈ rest, address + 4 ≤ (Bytes.splice bytes first
        (Bytes.ofWord (Bytes.crc32 (bytes.take first)))).length := by
      rw [Bytes.length_splice_ofWord here]
      exact others
    rw [sealed, ih others, Bytes.length_splice_ofWord here]

theorem storeCrcs_eq_ok_iff {addresses : List Nat} :
    storeCrcs addresses buffer = .ok answer changed ↔
      (∀ address ∈ addresses, address ∈ buffer.crcAddresses ∧ address + 4 ≤ buffer.size) ∧
        { buffer with bytes := sealed addresses buffer.bytes } = changed := by
  induction addresses generalizing buffer with
  | nil => simp [storeCrcs, sealed]
  | cons first rest ih =>
    simp only [storeCrcs, Edit.bind_eq_ok_iff, Edit.ask_eq_ok_iff, Edit.change_eq_ok_iff,
      computedCrc_eq_ok_iff, setWord_eq_ok_iff, ih, List.forall_mem_cons, sealed]
    constructor
    · rintro ⟨_, _, ⟨⟨known, _, rfl⟩, rfl⟩, _, _, ⟨inside, rfl⟩, others, rfl⟩
      simp only [size, Bytes.length_splice_ofWord inside] at others
      exact ⟨⟨⟨known, inside⟩, others⟩, rfl⟩
    · rintro ⟨⟨⟨known, inside⟩, others⟩, rfl⟩
      refine ⟨_, buffer, ⟨⟨known, by omega, rfl⟩, rfl⟩, (), _, ⟨inside, rfl⟩, ?_, rfl⟩
      simp only [size, Bytes.length_splice_ofWord inside]
      exact others

theorem updateCrc_eq_ok_iff :
    updateCrc buffer = .ok answer changed ↔
      (∀ address ∈ buffer.crcAddresses, address + 4 ≤ buffer.size) ∧
        { buffer with bytes := sealed (buffer.crcAddresses.mergeSort (· ≤ ·)) buffer.bytes } =
          changed := by
  simp only [updateCrc, Edit.bind_eq_ok_iff, Edit.get_eq_ok_iff]
  constructor
  · rintro ⟨_, _, ⟨rfl, rfl⟩, stored⟩
    obtain ⟨inside, rfl⟩ := storeCrcs_eq_ok_iff.mp stored
    exact ⟨fun address member => (inside address (List.mem_mergeSort.mpr member)).2, rfl⟩
  · rintro ⟨inside, rfl⟩
    refine ⟨buffer, buffer, ⟨rfl, rfl⟩, storeCrcs_eq_ok_iff.mpr ⟨?_, rfl⟩⟩
    intro address member
    have registered := List.mem_mergeSort.mp member
    exact ⟨registered, inside address registered⟩

/-- Refreshing checksums shows only in their words. -/
theorem slice_sealed {addresses : List Nat} (start count : Nat)
    (inside : ∀ address ∈ addresses, address + 4 ≤ bytes.length)
    (apart : ∀ address ∈ addresses, start + count ≤ address ∨ address + 4 ≤ start) :
    Bytes.slice (sealed addresses bytes) start count = Bytes.slice bytes start count := by
  induction addresses generalizing bytes with
  | nil => rfl
  | cons first rest ih =>
    obtain ⟨here, others⟩ := List.forall_mem_cons.mp inside
    obtain ⟨beside, away⟩ := List.forall_mem_cons.mp apart
    have others : ∀ address ∈ rest, address + 4 ≤ (Bytes.splice bytes first
        (Bytes.ofWord (Bytes.crc32 (bytes.take first)))).length := by
      rw [Bytes.length_splice_ofWord here]
      exact others
    rw [sealed, ih others away, Bytes.slice_splice_of_disjoint]
    · rw [Bytes.length_ofWord]
      exact here
    · rw [Bytes.length_ofWord]
      exact beside

/-- Checksums stored from the lowest address up match, because no later word lies in what an
earlier one covers. -/
theorem wordAt_sealed {addresses : List Nat}
    (inside : ∀ address ∈ addresses, address + 4 ≤ bytes.length)
    (ascending : addresses.Pairwise fun first second => first + 4 ≤ second) :
    ∀ address ∈ addresses, Bytes.wordAt (sealed addresses bytes) address =
      Bytes.crc32 ((sealed addresses bytes).take address) := by
  induction addresses generalizing bytes with
  | nil => simp
  | cons first rest ih =>
    obtain ⟨here, others⟩ := List.forall_mem_cons.mp inside
    obtain ⟨later, ordered⟩ := List.pairwise_cons.mp ascending
    have fits : first + (Bytes.ofWord (Bytes.crc32 (bytes.take first))).length ≤ bytes.length := by
      rw [Bytes.length_ofWord]
      exact here
    have room : ∀ address ∈ rest, address + 4 ≤ (Bytes.splice bytes first
        (Bytes.ofWord (Bytes.crc32 (bytes.take first)))).length := by
      rw [Bytes.length_splice fits]
      exact others
    have word := slice_sealed first 4 room (fun address member => .inl (later address member))
    have covered := slice_sealed 0 first room
      (fun address member => .inl (by have := later address member; omega))
    rw [List.forall_mem_cons]
    refine ⟨?_, ih room ordered⟩
    rw [Bytes.slice_zero, Bytes.slice_zero, Bytes.take_splice_of_le fits (Nat.le_refl first)] at covered
    rw [sealed, Bytes.wordAt, word, covered, ← Bytes.wordAt, Bytes.wordAt_splice here]

/-- A range that does not overlap a word. -/
def Beside (start count address : Nat) : Prop :=
  start + count ≤ address ∨ address + 4 ≤ start

/-- Two words that do not overlap. -/
def Apart (first second : Nat) : Prop :=
  Beside first 4 second

/-- Whatever the order of registration, refreshing makes every checksum match. -/
theorem updateCrc_hasCrcs (inside : ∀ address ∈ buffer.crcAddresses, address + 4 ≤ buffer.size)
    (apart : buffer.crcAddresses.Pairwise Apart) :
    ∃ changed, updateCrc buffer = .ok () changed ∧ changed.HasCrcs buffer.crcAddresses := by
  refine ⟨_, updateCrc_eq_ok_iff.mpr ⟨inside, rfl⟩, ?_⟩
  have permuted := List.mergeSort_perm buffer.crcAddresses (· ≤ ·)
  have sorted : (buffer.crcAddresses.mergeSort (· ≤ ·)).Pairwise (fun a b => decide (a ≤ b) = true) :=
    List.pairwise_mergeSort (fun a b c first second => by simp at *; omega)
      (fun a b => by simp; omega) _
  have spread := (permuted.pairwise_iff fun {a b} (disjoint : Apart a b) => disjoint.symm).mpr apart
  have ascending : (buffer.crcAddresses.mergeSort (· ≤ ·)).Pairwise fun a b => a + 4 ≤ b := by
    refine sorted.imp₂ ?_ spread
    intro a b ordered disjoint
    rcases disjoint with before | after
    · exact before
    · have := of_decide_eq_true ordered
      omega
  have within : ∀ address ∈ buffer.crcAddresses.mergeSort (· ≤ ·),
      address + 4 ≤ buffer.bytes.length :=
    fun address member => inside address (List.mem_mergeSort.mp member)
  intro address member
  refine ⟨?_, wordAt_sealed within ascending address (List.mem_mergeSort.mpr member)⟩
  simp only [size, length_sealed within]
  exact inside address member

theorem hasCrcs_updateCrc (ran : updateCrc buffer = .ok answer changed)
    (apart : buffer.crcAddresses.Pairwise Apart) : changed.HasCrcs buffer.crcAddresses := by
  obtain ⟨inside, -⟩ := updateCrc_eq_ok_iff.mp ran
  obtain ⟨other, refreshes, matching⟩ := updateCrc_hasCrcs inside apart
  rw [ran] at refreshes
  simp only [EStateM.Result.ok.injEq] at refreshes
  exact refreshes.2 ▸ matching

theorem size_updateCrc (ran : updateCrc buffer = .ok answer changed) :
    changed.size = buffer.size := by
  obtain ⟨inside, rfl⟩ := updateCrc_eq_ok_iff.mp ran
  exact length_sealed fun address member => inside address (List.mem_mergeSort.mp member)

/-- Refreshing the checksums keeps the ranges beside them. -/
theorem getRaw_updateCrc {start count : Nat} (ran : updateCrc buffer = .ok answer changed)
    (away : ∀ address ∈ buffer.crcAddresses, Beside start count address) :
    changed.getRaw start count = buffer.getRaw start count := by
  have sized := size_updateCrc ran
  obtain ⟨inside, rfl⟩ := updateCrc_eq_ok_iff.mp ran
  refine getRaw_congr sized (slice_sealed start count ?_ ?_)
  · exact fun address member => inside address (List.mem_mergeSort.mp member)
  · exact fun address member => away address (List.mem_mergeSort.mp member)

theorem getWord_updateCrc {start : Nat} (ran : updateCrc buffer = .ok answer changed)
    (apart : ∀ address ∈ buffer.crcAddresses, Apart start address) :
    changed.getWord start = buffer.getWord start :=
  getWord_congr (getRaw_updateCrc ran apart)

/-- Writing beside the magic numbers leaves them standing. -/
theorem HasMagics.setRaw {magics : List (UInt32 × Nat)} (stand : buffer.HasMagics magics)
    (written : buffer.setRaw bytes offset = .ok changed)
    (apart : ∀ magic ∈ magics, magic.2 + 4 ≤ offset ∨ offset + bytes.length ≤ magic.2) :
    changed.HasMagics magics := by
  intro magic member
  have word := getWord_setRaw written (apart magic member)
  exact getWord_eq_ok_iff.mp (word.trans (getWord_eq_ok_iff.mpr (stand magic member)))

/-- Magic numbers that do not overlap all stand once they are stored. -/
theorem storeMagics_exists {magics : List (UInt32 × Nat)}
    (inside : ∀ magic ∈ magics, magic.2 + 4 ≤ buffer.size)
    (apart : magics.Pairwise fun first second => Apart first.2 second.2) :
    ∃ changed, storeMagics magics buffer = .ok () changed ∧ changed.size = buffer.size ∧
      changed.HasMagics magics ∧
      ∀ start count, (∀ magic ∈ magics, Beside start count magic.2) →
        changed.getRaw start count = buffer.getRaw start count := by
  induction magics generalizing buffer with
  | nil => exact ⟨buffer, rfl, rfl, by simp [HasMagics], fun _ _ _ => rfl⟩
  | cons first rest ih =>
    obtain ⟨magic, offset⟩ := first
    obtain ⟨here, others⟩ := List.forall_mem_cons.mp inside
    obtain ⟨beside, later⟩ := List.pairwise_cons.mp apart
    obtain ⟨between, stored⟩ : ∃ between, buffer.setWord magic offset = .ok between :=
      ⟨_, setWord_eq_ok_iff.mpr ⟨here, rfl⟩⟩
    have size : between.size = buffer.size := size_setRaw stored
    obtain ⟨changed, ran, same, stand, kept⟩ := ih (by rwa [size]) later
    have word : between.getWord offset = .ok magic := getWord_setWord stored
    refine ⟨changed, ?_, same.trans size, ?_, fun start count away => ?_⟩
    · rw [storeMagics, Edit.bind_of_ok (Edit.change_of_ok stored), ran]
    · refine List.forall_mem_cons.mpr ⟨?_, stand⟩
      exact getWord_eq_ok_iff.mp ((getWord_congr (kept offset 4 beside)).trans word)
    · obtain ⟨first, more⟩ := List.forall_mem_cons.mp away
      rw [kept start count more]
      refine getRaw_setRaw stored ?_
      rwa [Bytes.length_ofWord]

theorem size_storeMagics {magics : List (UInt32 × Nat)}
    (ran : storeMagics magics buffer = .ok answer changed) : changed.size = buffer.size := by
  induction magics generalizing buffer with
  | nil =>
    rw [storeMagics, Edit.pure_eq_ok_iff] at ran
    rw [ran.2]
  | cons first rest ih =>
    rw [storeMagics, Edit.bind_eq_ok_iff] at ran
    obtain ⟨_, _, stored, ran⟩ := ran
    rw [ih ran, size_setRaw (Edit.change_eq_ok_iff.mp stored)]

theorem size_reset (ran : reset size buffer = .ok answer changed) : changed.size = size := by
  simp only [reset, Edit.bind_eq_ok_iff, Edit.ask_eq_ok_iff, Edit.modify_eq_ok_iff] at ran
  obtain ⟨_, _, ⟨-, rfl⟩, _, _, rfl, ran⟩ := ran
  rw [size_storeMagics ran]
  exact Bytes.length_zeros size

/-- A buffer is reset to any size its limit and its magic numbers allow, to zeros beside those. -/
theorem reset_exists (most : ∀ limit, buffer.limit = some limit → size ≤ limit)
    (inside : ∀ magic ∈ buffer.magics, magic.2 + 4 ≤ size)
    (apart : buffer.magics.Pairwise fun first second => Apart first.2 second.2) :
    ∃ changed, reset size buffer = .ok () changed ∧ changed.size = size ∧
      changed.HasMagics buffer.magics ∧
      ∀ start count, (∀ magic ∈ buffer.magics, Beside start count magic.2) →
        start + count ≤ size → changed.getRaw start count = .ok (Bytes.zeros count) := by
  let cleared : Buffer := { buffer with bytes := Bytes.zeros size }
  have zeros : cleared.size = size := Bytes.length_zeros size
  have room : ∀ magic ∈ buffer.magics, magic.2 + 4 ≤ cleared.size := by rwa [zeros]
  obtain ⟨changed, ran, same, stand, kept⟩ := storeMagics_exists room apart
  refine ⟨changed, ?_, same.trans zeros, stand, fun start count away inside => ?_⟩
  · simp only [reset, Edit.bind_eq_ok_iff, Edit.ask_eq_ok_iff, checkBound_eq_ok_iff,
      Edit.modify_eq_ok_iff]
    exact ⟨(), buffer, ⟨most, rfl⟩, (), cleared, rfl, ran⟩
  · rw [kept start count away]
    exact getRaw_eq_ok_iff.mpr ⟨by rwa [zeros], Bytes.slice_zeros inside⟩

/-- No checksum word overlaps another one or a magic number. -/
structure Spread (buffer : Buffer) : Prop where
  apart : buffer.crcAddresses.Pairwise Apart
  beside : ∀ magic ∈ buffer.magics, ∀ address ∈ buffer.crcAddresses, Apart magic.2 address

/-- Only the checksums are missing: the size is allowed, the magic numbers stand, and there is room
for the checksums beside them. -/
structure Ready (buffer : Buffer) : Prop where
  most : ∀ limit, buffer.limit = some limit → buffer.size ≤ limit
  stand : buffer.HasMagics buffer.magics
  inside : ∀ address ∈ buffer.crcAddresses, address + 4 ≤ buffer.size
  spread : buffer.Spread

theorem Ready.of_valid (valid : buffer.validate = .ok answer) (spread : buffer.Spread) :
    buffer.Ready := by
  obtain ⟨most, stand, matching⟩ := validate_eq_ok_iff.mp valid
  exact ⟨most, stand, fun address member => (matching address member).1, spread⟩

/-- Words beside the magic numbers may be exchanged before the checksums are stored. -/
theorem Ready.setWord (ready : buffer.Ready) (stored : buffer.setWord word offset = .ok changed)
    (clear : ∀ magic ∈ buffer.magics, Apart magic.2 offset) : changed.Ready := by
  have sized : changed.size = buffer.size := size_setRaw stored
  have stood : changed.HasMagics buffer.magics := ready.stand.setRaw stored fun magic member => by
    rw [Bytes.length_ofWord]
    exact clear magic member
  obtain ⟨-, rfl⟩ := setWord_eq_ok_iff.mp stored
  exact ⟨sized ▸ ready.most, stood, sized ▸ ready.inside, ready.spread.apart, ready.spread.beside⟩

/-- Refreshing makes a buffer valid whose magic numbers stand beside its checksums. -/
theorem Ready.updateCrc_exists (ready : buffer.Ready) :
    ∃ changed, updateCrc buffer = .ok () changed ∧ changed.validate = .ok () := by
  obtain ⟨changed, ran, matching⟩ := updateCrc_hasCrcs ready.inside ready.spread.apart
  have sized := size_updateCrc ran
  have stood : changed.HasMagics buffer.magics := fun magic member => by
    have word := getWord_updateCrc ran (ready.spread.beside magic member)
    exact getWord_eq_ok_iff.mp (word.trans (getWord_eq_ok_iff.mpr (ready.stand magic member)))
  refine ⟨changed, ran, ?_⟩
  obtain ⟨-, rfl⟩ := updateCrc_eq_ok_iff.mp ran
  exact validate_eq_ok_iff.mpr ⟨sized ▸ ready.most, stood, matching⟩

/-- A buffer is made valid after a word beside its magic numbers and checksums was exchanged. -/
theorem Ready.rewrite_exists (ready : buffer.Ready) (fits : offset + 4 ≤ buffer.size)
    (clear : ∀ magic ∈ buffer.magics, Apart magic.2 offset)
    (crcs : ∀ address ∈ buffer.crcAddresses, Apart offset address) (word : UInt32) :
    ∃ stored changed, buffer.setWord word offset = .ok stored ∧
      updateCrc stored = .ok () changed ∧ changed.validate = .ok () ∧
      changed.size = buffer.size ∧ changed.getWord offset = .ok word ∧
      ∀ start count, Beside start count offset →
        (∀ address ∈ buffer.crcAddresses, Beside start count address) →
        changed.getRaw start count = buffer.getRaw start count := by
  obtain ⟨stored, stores⟩ : ∃ stored, buffer.setWord word offset = .ok stored :=
    ⟨_, setWord_eq_ok_iff.mpr ⟨fits, rfl⟩⟩
  obtain ⟨changed, refreshes, valid⟩ := (ready.setWord stores clear).updateCrc_exists
  have same : stored.crcAddresses = buffer.crcAddresses := by
    obtain ⟨-, rfl⟩ := setWord_eq_ok_iff.mp stores
    rfl
  rw [← same] at crcs
  refine ⟨stored, changed, stores, refreshes, valid,
    (size_updateCrc refreshes).trans (size_setRaw stores),
    (getWord_updateCrc refreshes crcs).trans (getWord_setWord stores),
    fun start count away beside => ?_⟩
  rw [← same] at beside
  rw [getRaw_updateCrc refreshes beside]
  refine getRaw_setRaw stores ?_
  rwa [Bytes.length_ofWord]

/-- The buffers differ in nothing but the words at the given addresses. -/
structure AgreesBeside (addresses : List Nat) (buffer other : Buffer) : Prop where
  layout : other = { buffer with bytes := other.bytes }
  size : other.size = buffer.size
  shown : ∀ start count, (∀ address ∈ addresses, Beside start count address) →
    other.getRaw start count = buffer.getRaw start count

namespace AgreesBeside

variable {addresses : List Nat} {other : Buffer}

theorem refl (addresses : List Nat) (buffer : Buffer) : buffer.AgreesBeside addresses buffer :=
  ⟨rfl, rfl, fun _ _ _ => rfl⟩

theorem trans (agrees : AgreesBeside addresses buffer other)
    (later : AgreesBeside addresses other changed) : AgreesBeside addresses buffer changed where
  layout := by rw [later.layout, agrees.layout]
  size := later.size.trans agrees.size
  shown start count beside := (later.shown start count beside).trans (agrees.shown start count beside)

theorem setWord (stored : buffer.setWord word offset = .ok changed) (member : offset ∈ addresses) :
    AgreesBeside addresses buffer changed where
  layout := by
    obtain ⟨-, rfl⟩ := setWord_eq_ok_iff.mp stored
    rfl
  size := size_setRaw stored
  shown _ _ beside := getRaw_setRaw stored (beside offset member)

theorem updateCrc (ran : Buffer.updateCrc buffer = .ok answer changed)
    (members : ∀ address ∈ buffer.crcAddresses, address ∈ addresses) :
    AgreesBeside addresses buffer changed where
  layout := by
    obtain ⟨-, rfl⟩ := updateCrc_eq_ok_iff.mp ran
    rfl
  size := size_updateCrc ran
  shown _ _ beside := getRaw_updateCrc ran fun address member => beside address (members address member)

end AgreesBeside

section Reading

variable {fine : Buffer → Prop}

theorem keeps_appendFrom (appends : ∀ bytes, Edit.Keeps fine (Edit.change (·.append bytes)))
    (call : Edit Stream Bytes) : Edit.Keeps (Edit.First fine) (appendFrom call) :=
  .bind (.fromStream call) fun bytes =>
    .bind (appends bytes).onObject fun _ => .pure bytes.length

theorem keeps_fill (appends : ∀ bytes, Edit.Keeps fine (Edit.change (·.append bytes))) :
    Edit.Keeps (Edit.First fine) fill := by
  unfold fill
  refine .bind .get fun (buffer, _) => ?_
  dsimp only
  cases buffer.limit with
  | none => exact keeps_appendFrom appends Stream.readToEnd
  | some limit => exact .ite (.pure 0) (keeps_appendFrom appends _)

/-- Reading keeps what appending keeps. -/
theorem keeps_read (appends : ∀ bytes, Edit.Keeps fine (Edit.change (·.append bytes))) :
    Edit.Keeps (Edit.First fine) read := by
  refine .bind (keeps_fill appends) fun count => .bind .get fun (buffer, _) => ?_
  exact .ite (.bind (Edit.Keeps.ask validate).onObject fun _ => .pure count) (.pure count)

/-- However far it gets, reading takes no bytes away. -/
theorem size_le_after_read (buffer : Buffer) (stream : Stream) :
    buffer.size ≤ (Edit.after Fragment.read (buffer, stream)).1.size := by
  have appends (bytes : Bytes) :
      Edit.Keeps (buffer.size ≤ ·.size) (Edit.change fun other : Buffer => other.append bytes) := by
    refine .change fun other changed least ran => ?_
    obtain ⟨-, rfl⟩ := append_eq_ok_iff.mp ran
    calc buffer.size ≤ other.size := least
      _ ≤ (other.bytes ++ bytes).length := by
        rw [List.length_append]
        exact Nat.le_add_right _ _
  exact keeps_read appends (buffer, stream) (Nat.le_refl buffer.size)

end Reading

/-- The buffer is a blank one with bytes in it, no more of them than the blank one admits. -/
structure Follows (buffer blank : Buffer) : Prop where
  layout : buffer = { blank with bytes := buffer.bytes }
  bounded : ∀ most, blank.limit = some most → buffer.size ≤ most

namespace Follows

theorem limit (follows : buffer.Follows blank) : buffer.limit = blank.limit := by
  rw [follows.layout]

theorem within (follows : buffer.Follows blank) :
    ∀ most, buffer.limit = some most → buffer.size ≤ most :=
  fun most bounded => follows.bounded most (follows.limit ▸ bounded)

theorem magics (follows : buffer.Follows blank) : buffer.magics = blank.magics := by
  rw [follows.layout]

theorem crcAddresses (follows : buffer.Follows blank) :
    buffer.crcAddresses = blank.crcAddresses := by
  rw [follows.layout]

theorem withBytes (follows : buffer.Follows blank)
    (fits : ∀ most, blank.limit = some most → bytes.length ≤ most) :
    { buffer with bytes := bytes }.Follows blank :=
  ⟨by rw [follows.layout], fits⟩

/-- Filling the blank buffer gives the buffer back. -/
theorem append_blank (follows : buffer.Follows blank) (unfilled : blank.bytes = []) :
    blank.append buffer.bytes = .ok buffer := by
  rw [append_eq_ok_iff, size, unfilled, List.nil_append]
  refine ⟨?_, follows.layout.symm⟩
  rw [List.length_nil, Nat.zero_add]
  exact follows.bounded

theorem setRaw (follows : buffer.Follows blank) (ran : buffer.setRaw bytes offset = .ok changed) :
    changed.Follows blank := by
  obtain ⟨inside, rfl⟩ := setRaw_eq_ok_iff.mp ran
  refine follows.withBytes ?_
  rw [Bytes.length_splice inside]
  exact follows.bounded

theorem setWord (follows : buffer.Follows blank) (ran : buffer.setWord word offset = .ok changed) :
    changed.Follows blank :=
  follows.setRaw ran

theorem append (follows : buffer.Follows blank) (ran : buffer.append bytes = .ok changed) :
    changed.Follows blank := by
  obtain ⟨fits, rfl⟩ := append_eq_ok_iff.mp ran
  refine follows.withBytes ?_
  rw [List.length_append, ← follows.limit]
  exact fits

theorem keeps_setWord (word : UInt32) (offset : Nat) :
    Edit.Keeps (Follows · blank) (Edit.change (·.setWord word offset)) := by
  refine .change fun _ _ follows ran => ?_
  exact follows.setWord ran

theorem keeps_storeMagics (magics : List (UInt32 × Nat)) :
    Edit.Keeps (Follows · blank) (storeMagics magics) := by
  induction magics with
  | nil => exact .pure ()
  | cons first rest ih => exact .bind (keeps_setWord first.1 first.2) fun _ => ih

theorem keeps_updateMagic : Edit.Keeps (Follows · blank) updateMagic := by
  unfold updateMagic
  refine .bind .get fun buffer => ?_
  exact keeps_storeMagics buffer.magics

/-- The bytes of a buffer that is reset are within its limit before any magic number is stored. -/
theorem keeps_reset (size : Nat) : Edit.Keeps (Follows · blank) (reset size) := by
  unfold Buffer.reset
  refine .bind_of (.ask _) fun buffer _ _ follows ran _ => ?_
  obtain ⟨fits, rfl⟩ := Edit.ask_eq_ok_iff.mp ran
  have cleared : { buffer with bytes := Bytes.zeros size }.Follows blank := by
    refine follows.withBytes ?_
    rw [Bytes.length_zeros, ← follows.limit]
    exact checkBound_eq_ok_iff.mp fits
  exact keeps_updateMagic _ cleared

theorem keeps_storeCrcs (addresses : List Nat) :
    Edit.Keeps (Follows · blank) (storeCrcs addresses) := by
  induction addresses with
  | nil => exact .pure ()
  | cons address rest ih =>
    unfold storeCrcs
    refine .bind (.ask _) fun crc => ?_
    exact .bind (keeps_setWord crc address) fun _ => ih

theorem keeps_updateCrc : Edit.Keeps (Follows · blank) updateCrc := by
  unfold updateCrc
  refine .bind .get fun buffer => ?_
  exact keeps_storeCrcs _

theorem keeps_append (bytes : Bytes) :
    Edit.Keeps (Follows · blank) (Edit.change (·.append bytes)) :=
  .change fun _ _ follows ran => follows.append ran

theorem keeps_fill : Edit.Keeps (Edit.First (Follows · blank)) fill :=
  Buffer.keeps_fill keeps_append

theorem keeps_read :
    Edit.Keeps (Edit.First (Follows · blank)) (Fragment.read : Edit (Buffer × Stream) Nat) :=
  Buffer.keeps_read keeps_append

theorem reset (follows : buffer.Follows blank)
    (ran : Buffer.reset size buffer = .ok answer changed) : changed.Follows blank :=
  (keeps_reset size).of_ok follows ran

theorem updateCrc (follows : buffer.Follows blank)
    (ran : Buffer.updateCrc buffer = .ok answer changed) : changed.Follows blank :=
  keeps_updateCrc.of_ok follows ran

/-- A buffer with nothing registered has only its size to check. -/
theorem validate_of_plain (follows : buffer.Follows blank) (magics : blank.magics = [])
    (crcs : blank.crcAddresses = []) : buffer.validate = .ok () := by
  rw [validate_eq_ok_iff, follows.limit, follows.magics, follows.crcAddresses, magics, crcs]
  exact ⟨follows.bounded, by simp [HasMagics], by simp [HasCrcs]⟩

theorem self (blank : Buffer) (fits : ∀ most, blank.limit = some most → blank.size ≤ most) :
    blank.Follows blank :=
  ⟨rfl, fits⟩

end Follows

/-- Bytes that nothing bounds and for which nothing is registered are valid. -/
theorem validate_unbounded (bytes : Bytes) :
    ({ Buffer.empty none with bytes := bytes } : Buffer).validate = .ok () := by
  have follows : ({ Buffer.empty none with bytes := bytes } : Buffer).Follows (Buffer.empty none) :=
    ⟨rfl, fun _ bounded => nomatch bounded⟩
  exact follows.validate_of_plain rfl rfl

/-- The same magic numbers and checksums are registered, in whatever else the buffers differ. -/
structure Registers (buffer blank : Buffer) : Prop where
  magics : buffer.magics = blank.magics
  crcAddresses : buffer.crcAddresses = blank.crcAddresses

theorem Follows.registers (follows : buffer.Follows blank) :
    buffer.Registers blank :=
  ⟨follows.magics, follows.crcAddresses⟩

namespace Registers

theorem setWord (registers : buffer.Registers blank)
    (ran : buffer.setWord word offset = .ok changed) : changed.Registers blank := by
  obtain ⟨-, rfl⟩ := setWord_eq_ok_iff.mp ran
  exact ⟨registers.magics, registers.crcAddresses⟩

theorem updateCrc (registers : buffer.Registers blank)
    (ran : Buffer.updateCrc buffer = .ok answer changed) : changed.Registers blank := by
  obtain ⟨-, rfl⟩ := updateCrc_eq_ok_iff.mp ran
  exact ⟨registers.magics, registers.crcAddresses⟩

theorem spread (registers : buffer.Registers blank) (spread : blank.Spread) : buffer.Spread := by
  refine ⟨registers.crcAddresses ▸ spread.apart, ?_⟩
  rw [registers.magics, registers.crcAddresses]
  exact spread.beside

/-- The bytes of a valid buffer pass the checks of any buffer with its registrations that they fit
into. -/
theorem validate_refilled (registers : buffer.Registers blank) (valid : buffer.validate = .ok ())
    (fits : blank.limit = some buffer.size) :
    { blank with bytes := buffer.bytes }.validate = .ok () := by
  obtain ⟨-, stand, matching⟩ := validate_eq_ok_iff.mp valid
  rw [registers.magics] at stand
  rw [registers.crcAddresses] at matching
  exact validate_eq_ok_iff.mpr
    ⟨fun most bounded => Nat.le_of_eq (Option.some.inj (fits.symm.trans bounded)), stand, matching⟩

/-- A valid buffer begins with the magic number that is registered for its first word. -/
theorem leads {magic : UInt32} (registers : buffer.Registers blank)
    (valid : buffer.validate = .ok ()) (first : (magic, 0) ∈ blank.magics) :
    Bytes.wordAt buffer.bytes 0 = magic := by
  obtain ⟨-, stand, -⟩ := validate_eq_ok_iff.mp valid
  exact (stand (magic, 0) (registers.magics ▸ first)).2

end Registers

/-- A buffer of the given size has room for what it registers and for words of its own, none of which
overlap. -/
structure Layout (buffer : Buffer) (size : Nat) (words : List (UInt32 × Nat)) : Prop where
  most : ∀ limit, buffer.limit = some limit → size ≤ limit
  magics : ∀ magic ∈ buffer.magics, magic.2 + 4 ≤ size
  room : ∀ word ∈ words, word.2 + 4 ≤ size
  crcs : ∀ address ∈ buffer.crcAddresses, address + 4 ≤ size
  spread : buffer.Spread
  apart : (buffer.magics ++ words).Pairwise fun first second => Apart first.2 second.2
  beside : ∀ word ∈ words, ∀ address ∈ buffer.crcAddresses, Apart word.2 address

/-- A buffer that is reset, given its words and refreshed is valid, holds the words and nothing but
zeros beside them. -/
theorem Layout.initialize_exists {words : List (UInt32 × Nat)} (layout : buffer.Layout size words)
    (self : buffer.Follows buffer) :
    ∃ cleared stored changed, reset size buffer = .ok () cleared ∧
      storeMagics words cleared = .ok () stored ∧ updateCrc stored = .ok () changed ∧
      changed.validate = .ok () ∧ changed.size = size ∧ changed.Follows buffer ∧
      (∀ word ∈ words, changed.getWord word.2 = .ok word.1) ∧
      ∀ start count, (∀ word ∈ buffer.magics ++ words, Beside start count word.2) →
        (∀ address ∈ buffer.crcAddresses, Beside start count address) → start + count ≤ size →
        changed.getRaw start count = .ok (Bytes.zeros count) := by
  obtain ⟨apartMagics, apartWords, across⟩ := List.pairwise_append.mp layout.apart
  obtain ⟨cleared, ran, sized, stand, zeros⟩ := reset_exists layout.most layout.magics apartMagics
  have room : ∀ word ∈ words, word.2 + 4 ≤ cleared.size := by
    rw [sized]
    exact layout.room
  obtain ⟨stored, stores, same, held, kept⟩ := storeMagics_exists room apartWords
  have follows : stored.Follows buffer :=
    (Follows.keeps_storeMagics words).of_ok (self.reset ran) stores
  have stood : stored.HasMagics buffer.magics := fun magic member => by
    have word := getWord_congr (kept magic.2 4 (across magic member))
    exact getWord_eq_ok_iff.mp (word.trans (getWord_eq_ok_iff.mpr (stand magic member)))
  have inside : ∀ address ∈ stored.crcAddresses, address + 4 ≤ stored.size := by
    rw [follows.crcAddresses, same, sized]
    exact layout.crcs
  have ready : stored.Ready :=
    ⟨follows.within, by rwa [follows.magics], inside, follows.registers.spread layout.spread⟩
  obtain ⟨changed, refreshes, valid⟩ := ready.updateCrc_exists
  refine ⟨cleared, stored, changed, ran, stores, refreshes, valid,
    (size_updateCrc refreshes).trans (same.trans sized), follows.updateCrc refreshes,
    fun word member => ?_, fun start count away clear fits => ?_⟩
  · rw [getWord_updateCrc refreshes (follows.crcAddresses ▸ layout.beside word member)]
    exact getWord_eq_ok_iff.mpr (held word member)
  · obtain ⟨before, between⟩ := List.forall_mem_append.mp away
    rw [getRaw_updateCrc refreshes (by rwa [follows.crcAddresses]), kept start count between,
      zeros start count before fits]

end SecureBoot.Buffer
