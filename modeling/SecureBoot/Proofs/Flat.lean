import SecureBoot.Proofs.ByteView

/-!
Sequences of buffers as one flat buffer. A sequence and a buffer that holds the bytes of all its
members read alike, whatever members a range spans. Writing is another matter: a sequence writes
inside one member only. As long as every registered word lies inside one, storing the magic numbers
and the checksums of both succeeds and leaves them holding the same bytes again.
-/

namespace SecureBoot

open Nested (layout)

namespace Part

variable {σ α : Type} {bytes : Bytes} {offset start : Nat} {object changed : σ}

/-- What is written into a member leaves an object with another list of members. -/
theorem scatter_ofList [Fragment α] {items : List α} {put : List α → σ}
    (ran : scatter bytes offset start (ofList put items) = some (.ok changed)) :
    ∃ others, changed = put others := by
  induction items generalizing start put with
  | nil => cases ran
  | cons first rest ih =>
    rw [ofList, scatter] at ran
    split at ran
    · split at ran
      · cases ran
      · obtain ⟨other, -, rfl⟩ := map_eq_ok_iff.mp (Option.some.inj ran)
        exact ⟨other :: rest, rfl⟩
    · obtain ⟨others, rfl⟩ := ih ran
      exact ⟨first :: others, rfl⟩

end Part

namespace Sequence

variable {sequence changed : Sequence Buffer} {buffer written : Buffer} {patch bytes : Bytes}
  {magics : List (UInt32 × Nat)} {addresses : List Nat} {offset count address : Nat} {word : UInt32}

/-- Writing changes nothing but the members. -/
theorem setRaw_layout {α : Type} [Fragment α] {sequence changed : Sequence α}
    (ran : sequence.setRaw patch offset = .ok changed) :
    changed = { sequence with items := changed.items } := by
  rw [setRaw, Composite.writeBytes, Part.writeSpan] at ran
  split at ran
  · rename_i outcome scattered
    subst ran
    obtain ⟨others, rfl⟩ := Part.scatter_ofList scattered
    rfl
  · split at ran
    · obtain rfl := Except.ok.inj ran
      rfl
    · cases ran

/-- The sizes of the members in order, which say where each of them begins. -/
def sizes (sequence : Sequence Buffer) : List Nat :=
  sequence.items.map Buffer.size

theorem sizes_layout (sequence : Sequence Buffer) : (layout sequence).sizes = sequence.sizes := by
  suffices each : ∀ items : List Buffer,
      Layout.sizes.sizesOf (items.map layout) = items.map Buffer.size from each sequence.items
  intro items
  induction items with
  | nil => rfl
  | cons first rest ih =>
    rw [List.map_cons, List.map_cons, Layout.sizes.sizesOf, ih]
    rfl

theorem total_sizes (sequence : Sequence Buffer) :
    Layout.total sequence.sizes = sequence.totalSize := by
  rw [← sizes_layout]
  exact (Fragment.Viewed.view sequence).laid

/-- The buffer holds the bytes of all members, and the same magic numbers and checksum words are
registered. It has no more bytes than can be allocated, as every buffer in memory. -/
structure FlattensTo (sequence : Sequence Buffer) (buffer : Buffer) : Prop where
  bytes : buffer.bytes = sequence.items.flatMap Buffer.bytes
  magics : buffer.magics = sequence.magics
  crcAddresses : buffer.crcAddresses = sequence.crcAddresses
  allocated : buffer.size < allocationLimit

namespace FlattensTo

theorem toBytes (flat : sequence.FlattensTo buffer) : Composite.toBytes sequence = buffer.bytes := by
  rw [toBytes_eq, flat.bytes]
  rfl

theorem size (flat : sequence.FlattensTo buffer) : Composite.size sequence = buffer.size := by
  rw [← Composite.length_toBytes, flat.toBytes, Buffer.size]

section Reading

/-- A range has the same bytes in both. -/
theorem getRaw_iff (flat : sequence.FlattensTo buffer) :
    sequence.getRaw offset count = .ok bytes ↔ buffer.getRaw offset count = .ok bytes := by
  rw [Buffer.getRaw_eq_ok_iff, ← flat.size, ← flat.toBytes]
  constructor
  · exact Composite.readBytes_sound
  · rintro ⟨inside, rfl⟩
    have small : offset + count < allocationLimit := by
      refine Nat.lt_of_le_of_lt inside ?_
      rw [flat.size]
      exact flat.allocated
    exact Composite.readBytes_inside inside (.of_lt small)

theorem getValue_iff (flat : sequence.FlattensTo buffer) {order : Endian} {value : UInt64} :
    sequence.getValue offset count order = .ok value ↔
      buffer.getValue offset count order = .ok value := by
  simp only [getValue, Buffer.getValue, bind_eq_ok_iff, flat.getRaw_iff]

theorem getWord_iff (flat : sequence.FlattensTo buffer) :
    sequence.getWord offset = .ok word ↔ buffer.getWord offset = .ok word := by
  simp only [getWord, Buffer.getWord, bind_eq_ok_iff, flat.getRaw_iff]

theorem storedCrc_iff (flat : sequence.FlattensTo buffer) :
    sequence.storedCrc address = .ok word ↔ buffer.storedCrc address = .ok word := by
  simp only [storedCrc, Buffer.storedCrc, bind_eq_ok_iff, require_eq_ok_iff, flat.crcAddresses,
    flat.getWord_iff]

theorem computedCrc_iff (flat : sequence.FlattensTo buffer) :
    sequence.computedCrc address = .ok word ↔ buffer.computedCrc address = .ok word := by
  simp only [computedCrc, Buffer.computedCrc, bind_eq_ok_iff, require_eq_ok_iff, flat.crcAddresses,
    flat.getRaw_iff]

theorem checkMagics_iff (flat : sequence.FlattensTo buffer) :
    sequence.checkMagics magics = .ok () ↔ buffer.checkMagics magics = .ok () := by
  induction magics with
  | nil => rfl
  | cons first rest ih =>
    simp only [checkMagics, Buffer.checkMagics, bind_eq_ok_iff, flat.getWord_iff, ih]

theorem checkCrcs_iff (flat : sequence.FlattensTo buffer) :
    sequence.checkCrcs addresses = .ok () ↔ buffer.checkCrcs addresses = .ok () := by
  induction addresses with
  | nil => rfl
  | cons first rest ih =>
    simp only [checkCrcs, Buffer.checkCrcs, bind_eq_ok_iff, flat.computedCrc_iff, flat.storedCrc_iff,
      ih]

/-- What a sequence checks besides its members and bounds is what the buffer checks. -/
theorem validate_iff (flat : sequence.FlattensTo buffer) :
    sequence.validate = .ok () ↔
      { sequence with magics := [], crcAddresses := [] }.validate = .ok () ∧
        buffer.validateMagic = .ok () ∧ buffer.validateCrc = .ok () := by
  have unregistered : ([] : List Nat).mergeSort (· ≤ ·) = [] := List.mergeSort_nil
  rw [Buffer.validateMagic, Buffer.validateCrc, flat.magics, flat.crcAddresses,
    ← flat.checkMagics_iff, ← flat.checkCrcs_iff]
  simp only [validate, bind_eq_ok_iff, exists_unit_iff, validateItems_eq_ok_iff,
    checkBound_eq_ok_iff, checkCount_eq_ok_iff, unregistered, checkMagics, checkCrcs, and_true]
  constructor
  · rintro ⟨each, whole, counted, stand, matching⟩
    exact ⟨⟨each, whole, counted⟩, stand, matching⟩
  · rintro ⟨⟨each, whole, counted⟩, stand, matching⟩
    exact ⟨each, whole, counted, stand, matching⟩

end Reading

section Writing

/-- What is written into a member is written into the buffer. -/
theorem setRaw (flat : sequence.FlattensTo buffer)
    (ran : sequence.setRaw patch offset = .ok changed) :
    ∃ written, buffer.setRaw patch offset = .ok written ∧ changed.FlattensTo written ∧
      changed.sizes = sequence.sizes := by
  have view := Fragment.Viewed.view sequence
  obtain ⟨spliced, same⟩ := view.written ran
  have inside : offset + patch.length ≤ buffer.size := by
    rw [← flat.size, size_eq]
    have upTo := (view.writable.mp ⟨changed, ran⟩).le_size
    rwa [view.laid] at upTo
  have shape := setRaw_layout ran
  have held : Bytes.splice buffer.bytes offset patch = changed.items.flatMap Buffer.bytes := by
    rw [← flat.toBytes]
    exact spliced.symm.trans (toBytes_eq changed)
  refine ⟨_, Buffer.setRaw_eq_ok_iff.mpr ⟨inside, rfl⟩, ⟨held, ?_, ?_, ?_⟩, ?_⟩
  · rw [shape]
    exact flat.magics
  · rw [shape]
    exact flat.crcAddresses
  · exact Nat.lt_of_le_of_lt (Nat.le_of_eq (Bytes.length_splice inside)) flat.allocated
  · rw [← sizes_layout, same, sizes_layout]

theorem total_sizes (flat : sequence.FlattensTo buffer) :
    Layout.total sequence.sizes = buffer.size := by
  rw [← flat.size, size_eq, sequence.total_sizes]

/-- A word that lies inside one member is stored in both. -/
theorem setWord_exists (flat : sequence.FlattensTo buffer)
    (inside : Layout.Inside offset 4 sequence.sizes) (word : UInt32) :
    ∃ changed written, sequence.setWord word offset = .ok changed ∧
      buffer.setWord word offset = .ok written ∧ changed.FlattensTo written ∧
        changed.sizes = sequence.sizes := by
  have accepted : (layout sequence).Accepts (Bytes.ofWord word) offset := by
    right
    rw [sizes_layout, Bytes.length_ofWord]
    exact inside
  obtain ⟨changed, ran⟩ := (Fragment.Viewed.view sequence).writable.mpr accepted
  obtain ⟨written, wrote, again, same⟩ := flat.setRaw ran
  exact ⟨changed, written, ran, wrote, again, same⟩

end Writing

/-- A call on the sequence and one on the buffer both succeed. Afterwards the buffer holds the bytes
of all members again, and each of them begins where it began. -/
def Together (sequence : Sequence Buffer) (buffer : Buffer) (call : Edit (Sequence Buffer) Unit)
    (other : Edit Buffer Unit) : Prop :=
  ∃ changed written, call sequence = .ok () changed ∧ other buffer = .ok () written ∧
    changed.FlattensTo written ∧ changed.sizes = sequence.sizes

section Storing

/-- One magic number after the other, in the order of registration. -/
theorem storeMagics (flat : sequence.FlattensTo buffer)
    (inside : ∀ magic ∈ magics, Layout.Inside magic.2 4 sequence.sizes) :
    Together sequence buffer (Sequence.storeMagics magics) (Buffer.storeMagics magics) := by
  induction magics generalizing sequence buffer with
  | nil => exact ⟨sequence, buffer, rfl, rfl, flat, rfl⟩
  | cons first rest ih =>
    obtain ⟨magic, offset⟩ := first
    obtain ⟨here, others⟩ := List.forall_mem_cons.mp inside
    obtain ⟨between, stored, ran, wrote, flatToo, sizes⟩ := flat.setWord_exists here magic
    rw [← sizes] at others
    obtain ⟨changed, written, ranOn, wroteOn, again, same⟩ := ih flatToo others
    refine ⟨changed, written, ?_, ?_, again, same.trans sizes⟩
    · rw [Sequence.storeMagics, Edit.bind_of_ok (Edit.change_of_ok ran), ranOn]
    · rw [Buffer.storeMagics, Edit.bind_of_ok (Edit.change_of_ok wrote), wroteOn]

/-- One checksum after the other; each is computed over what the earlier ones left. -/
theorem storeCrcs (flat : sequence.FlattensTo buffer)
    (known : ∀ address ∈ addresses, address ∈ sequence.crcAddresses)
    (inside : ∀ address ∈ addresses, Layout.Inside address 4 sequence.sizes) :
    Together sequence buffer (Sequence.storeCrcs addresses) (Buffer.storeCrcs addresses) := by
  induction addresses generalizing sequence buffer with
  | nil => exact ⟨sequence, buffer, rfl, rfl, flat, rfl⟩
  | cons first rest ih =>
    obtain ⟨registered, knownToo⟩ := List.forall_mem_cons.mp known
    obtain ⟨here, others⟩ := List.forall_mem_cons.mp inside
    have room : first + 4 ≤ buffer.size := flat.total_sizes ▸ here.le_total
    obtain ⟨crc, covers⟩ : ∃ crc, buffer.computedCrc first = .ok crc :=
      ⟨_, Buffer.computedCrc_eq_ok_iff.mpr ⟨flat.crcAddresses ▸ registered, by omega, rfl⟩⟩
    have asked : Edit.ask (·.computedCrc first) sequence = .ok crc sequence :=
      Edit.ask_eq_ok_iff.mpr ⟨flat.computedCrc_iff.mpr covers, rfl⟩
    have askedToo : Edit.ask (·.computedCrc first) buffer = .ok crc buffer :=
      Edit.ask_eq_ok_iff.mpr ⟨covers, rfl⟩
    obtain ⟨between, stored, ran, wrote, flatToo, sizes⟩ := flat.setWord_exists here crc
    have same : between.crcAddresses = sequence.crcAddresses := by rw [setRaw_layout ran]
    rw [← sizes] at others
    rw [← same] at knownToo
    obtain ⟨changed, written, ranOn, wroteOn, again, sizesToo⟩ := ih flatToo knownToo others
    refine ⟨changed, written, ?_, ?_, again, sizesToo.trans sizes⟩
    · rw [Sequence.storeCrcs, Edit.bind_of_ok asked, Edit.bind_of_ok (Edit.change_of_ok ran), ranOn]
    · rw [Buffer.storeCrcs, Edit.bind_of_ok askedToo, Edit.bind_of_ok (Edit.change_of_ok wrote),
        wroteOn]

theorem updateMagic (flat : sequence.FlattensTo buffer)
    (inside : ∀ magic ∈ sequence.magics, Layout.Inside magic.2 4 sequence.sizes) :
    Together sequence buffer Sequence.updateMagic Buffer.updateMagic := by
  obtain ⟨changed, written, ran, wrote, again, sizes⟩ := flat.storeMagics inside
  rw [← flat.magics] at wrote
  exact ⟨changed, written, ran, wrote, again, sizes⟩

theorem updateCrc (flat : sequence.FlattensTo buffer)
    (inside : ∀ address ∈ sequence.crcAddresses, Layout.Inside address 4 sequence.sizes) :
    Together sequence buffer Sequence.updateCrc Buffer.updateCrc := by
  have known : ∀ address ∈ sequence.crcAddresses.mergeSort (· ≤ ·),
      address ∈ sequence.crcAddresses := fun _ member => List.mem_mergeSort.mp member
  obtain ⟨changed, written, ran, wrote, again, sizes⟩ :=
    flat.storeCrcs known fun address member => inside address (known address member)
  rw [← flat.crcAddresses] at wrote
  exact ⟨changed, written, ran, wrote, again, sizes⟩

end Storing

end FlattensTo

/-- A sequence of buffers answers as the flat buffer does, passes the same checks, and is refreshed
as it is if every word to be stored lies inside one member. -/
theorem behaves_as_flat (flat : sequence.FlattensTo buffer) :
    (∀ offset count bytes,
        sequence.getRaw offset count = .ok bytes ↔ buffer.getRaw offset count = .ok bytes) ∧
      (∀ offset count order value,
        sequence.getValue offset count order = .ok value ↔
          buffer.getValue offset count order = .ok value) ∧
      (∀ address crc,
        (sequence.storedCrc address = .ok crc ↔ buffer.storedCrc address = .ok crc) ∧
          (sequence.computedCrc address = .ok crc ↔ buffer.computedCrc address = .ok crc)) ∧
      ((∀ magic ∈ sequence.magics, Layout.Inside magic.2 4 sequence.sizes) →
        FlattensTo.Together sequence buffer updateMagic Buffer.updateMagic) ∧
      ((∀ address ∈ sequence.crcAddresses, Layout.Inside address 4 sequence.sizes) →
        FlattensTo.Together sequence buffer updateCrc Buffer.updateCrc) ∧
      (sequence.checkMagics sequence.magics = .ok () ↔ buffer.validateMagic = .ok ()) ∧
      (sequence.checkCrcs (sequence.crcAddresses.mergeSort (· ≤ ·)) = .ok () ↔
        buffer.validateCrc = .ok ()) ∧
      (sequence.validate = .ok () ↔
        { sequence with magics := [], crcAddresses := [] }.validate = .ok () ∧
          buffer.validateMagic = .ok () ∧ buffer.validateCrc = .ok ()) := by
  refine ⟨fun _ _ _ => flat.getRaw_iff, fun _ _ _ _ => flat.getValue_iff,
    fun _ _ => ⟨flat.storedCrc_iff, flat.computedCrc_iff⟩, flat.updateMagic, flat.updateCrc, ?_, ?_,
    flat.validate_iff⟩
  · rw [Buffer.validateMagic, flat.magics]
    exact flat.checkMagics_iff
  · rw [Buffer.validateCrc, flat.crcAddresses]
    exact flat.checkCrcs_iff

/-- Eight bytes, no byte and twelve bytes, with a magic number and a checksum word in both of the
members that have bytes. -/
def threeMembers : Sequence Buffer :=
  { (empty none : Sequence Buffer) with
    items := [{ Buffer.empty none with bytes := Bytes.zeros 8 }, Buffer.empty none,
      { Buffer.empty none with bytes := Bytes.zeros 12 }]
    magics := [(0xC0DE, 8), (0xCAFE, 0)]
    crcAddresses := [16, 4] }

theorem behaves_as_flat_threeMembers :
    ∃ buffer, threeMembers.FlattensTo buffer ∧
      (∀ magic ∈ threeMembers.magics, Layout.Inside magic.2 4 threeMembers.sizes) ∧
      (∀ address ∈ threeMembers.crcAddresses, Layout.Inside address 4 threeMembers.sizes) ∧
      threeMembers.getRaw 6 4 = .ok (Bytes.zeros 4) ∧
      FlattensTo.Together threeMembers buffer updateMagic Buffer.updateMagic ∧
      FlattensTo.Together threeMembers buffer updateCrc Buffer.updateCrc := by
  let buffer : Buffer :=
    { Buffer.empty none with
      bytes := Bytes.zeros 20, magics := threeMembers.magics,
      crcAddresses := threeMembers.crcAddresses }
  have flat : threeMembers.FlattensTo buffer := ⟨rfl, rfl, rfl, by decide⟩
  have first (offset : Nat) (within : offset + 4 ≤ 8) :
      Layout.Inside offset 4 threeMembers.sizes :=
    ⟨[], 8, [0, 12], rfl, Nat.zero_le _, by rwa [Layout.total, Nat.zero_add]⟩
  have last (offset : Nat) (behind : 8 ≤ offset) (within : offset + 4 ≤ 20) :
      Layout.Inside offset 4 threeMembers.sizes :=
    ⟨[8, 0], 12, [], rfl, behind, within⟩
  have magics : ∀ magic ∈ threeMembers.magics, Layout.Inside magic.2 4 threeMembers.sizes :=
    List.forall_mem_cons.mpr ⟨last 8 (by decide) (by decide),
      List.forall_mem_singleton.mpr (first 0 (by decide))⟩
  have crcs : ∀ address ∈ threeMembers.crcAddresses, Layout.Inside address 4 threeMembers.sizes :=
    List.forall_mem_cons.mpr ⟨last 16 (by decide) (by decide),
      List.forall_mem_singleton.mpr (first 4 (by decide))⟩
  obtain ⟨reads, -, -, storesMagics, storesCrcs, -⟩ := behaves_as_flat flat
  exact ⟨buffer, flat, magics, crcs, (reads 6 4 _).mpr (Buffer.getRaw_eq_ok_iff.mpr ⟨by decide, rfl⟩),
    storesMagics magics, storesCrcs crcs⟩

end Sequence
end SecureBoot
