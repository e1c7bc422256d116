import SecureBoot.Proofs.Entry

/-!
Building and signing chain entries. Refreshing an entry writes the first words of its header and
nothing else, so it leaves a valid entry alone; and every entry that is built or signed is laid out
as the ones that are read.
-/

namespace SecureBoot

theorem Bytes.encodeLength_eq_ok_iff {size : Nat} {word : UInt32} :
    Bytes.encodeLength size = .ok word ↔ word.toNat = size := by
  simp only [Bytes.encodeLength, bind_eq_ok_iff, require_eq_ok_iff, exists_unit_iff, pure_eq_ok_iff]
  constructor
  · rintro ⟨fits, rfl⟩
    exact UInt32.toNat_ofNat_of_lt' (Nat.lt_succ_of_le fits)
  · rintro rfl
    exact ⟨Nat.le_of_lt_succ word.toNat_lt, UInt32.ofNat_toNat⟩

namespace ChainEntry

variable {entry changed : ChainEntry} {slot : Bytes} {answer : Unit}

/-- The words at the start of a header: the magic number and the three lengths. -/
def leadingWords (magic total data signature : UInt32) : Bytes :=
  Bytes.ofWord magic ++ (Bytes.ofWord total ++ (Bytes.ofWord data ++ Bytes.ofWord signature))

theorem length_leadingWords (magic total data signature : UInt32) :
    (leadingWords magic total data signature).length = reservedOffset := by
  simp [leadingWords, reservedOffset]

theorem signature_eq_of_leadingWords_eq {magic total data signature magicToo totalToo dataToo
    signatureToo : UInt32}
    (same : leadingWords magic total data signature =
      leadingWords magicToo totalToo dataToo signatureToo) : signature = signatureToo := by
  have four (word : UInt32) : (Bytes.ofWord word).length = 4 := Bytes.length_ofWord word
  have size (first second : UInt32) : (Bytes.ofWord first).length = (Bytes.ofWord second).length := by
    rw [four, four]
  obtain ⟨-, same⟩ := List.append_inj same (size _ _)
  obtain ⟨-, same⟩ := List.append_inj same (size _ _)
  obtain ⟨-, same⟩ := List.append_inj same (size _ _)
  rw [← Bytes.toWord_ofWord signature, same, Bytes.toWord_ofWord]

/-- Storing the lengths and then the magic number is storing the leading words. -/
theorem splice_leadingWords {bytes : Bytes} (inside : reservedOffset ≤ bytes.length)
    (magic total data signature : UInt32) :
    Bytes.splice (Bytes.splice (Bytes.splice (Bytes.splice bytes totalLengthOffset
      (Bytes.ofWord total)) dataLengthOffset (Bytes.ofWord data)) signatureLengthOffset
        (Bytes.ofWord signature)) 0 (Bytes.ofWord magic) =
      leadingWords magic total data signature ++ bytes.drop reservedOffset := by
  have four (word : UInt32) : (Bytes.ofWord word).length = 4 := Bytes.length_ofWord word
  have inside : 16 ≤ bytes.length := inside
  have second : dataLengthOffset = totalLengthOffset + (Bytes.ofWord total).length := by
    rw [four]
    rfl
  have third : signatureLengthOffset =
      totalLengthOffset + (Bytes.ofWord total ++ Bytes.ofWord data).length := by
    rw [List.length_append, four, four]
    rfl
  have first : totalLengthOffset = 0 + (Bytes.ofWord magic).length := by
    rw [four]
    rfl
  rw [second, Bytes.splice_splice_after (by simp only [four, totalLengthOffset]; omega), third,
    Bytes.splice_splice_after (by simp only [List.length_append, four, totalLengthOffset]; omega),
    first, Bytes.splice_splice_before (by simp only [List.length_append, four]; omega),
    List.append_assoc, Bytes.splice, ← leadingWords, length_leadingWords]
  rfl

theorem Headed.registered (headed : entry.Headed) :
    entry.header.magics = [(entry.kind.magic, 0)] := by
  rw [headed.magics]
  rfl

/-- The words that are stored in turn stand together at the start of the header. -/
private theorem storeWords_eq_ok_iff {header stored : Buffer} {magic total data signature : UInt32}
    (registered : header.magics = [(magic, 0)]) :
    (do
      Edit.change (·.setWord total totalLengthOffset)
      Edit.change (·.setWord data dataLengthOffset)
      Edit.change (·.setWord signature signatureLengthOffset)
      Buffer.updateMagic : Edit Buffer Unit) header = .ok answer stored ↔
      reservedOffset ≤ header.size ∧
        { header with bytes := leadingWords magic total data signature ++
          header.bytes.drop reservedOffset } = stored := by
  have offsets : totalLengthOffset + 4 = dataLengthOffset ∧
      dataLengthOffset + 4 = signatureLengthOffset ∧
        signatureLengthOffset + 4 = reservedOffset := ⟨rfl, rfl, rfl⟩
  obtain ⟨bytes, limit, magics, crcAddresses, description⟩ := header
  obtain rfl : magics = [(magic, 0)] := registered
  simp only [Edit.bind_eq_ok_iff, Edit.change_eq_ok_iff, Buffer.setWord_eq_ok_iff,
    Buffer.updateMagic, Edit.get_eq_ok_iff]
  constructor
  · rintro ⟨_, _, ⟨first, rfl⟩, _, _, ⟨second, rfl⟩, _, _, ⟨third, rfl⟩, _, _, ⟨rfl, rfl⟩, ran⟩
    simp only [Buffer.storeMagics, Edit.bind_eq_ok_iff, Edit.change_eq_ok_iff,
      Buffer.setWord_eq_ok_iff, Edit.pure_eq_ok_iff] at ran
    obtain ⟨_, _, ⟨fourth, rfl⟩, -, rfl⟩ := ran
    simp only [Buffer.size] at first second third
    rw [Bytes.length_splice_ofWord first] at second
    rw [Bytes.length_splice_ofWord (by rwa [Bytes.length_splice_ofWord first]),
      Bytes.length_splice_ofWord first] at third
    have inside : reservedOffset ≤ bytes.length := offsets.2.2 ▸ third
    refine ⟨inside, ?_⟩
    rw [splice_leadingWords inside]
  · rintro ⟨inside, rfl⟩
    simp only [Buffer.size] at inside
    have first : totalLengthOffset + 4 ≤ bytes.length := by omega
    have second : dataLengthOffset + 4 ≤
        (Bytes.splice bytes totalLengthOffset (Bytes.ofWord total)).length := by
      rw [Bytes.length_splice_ofWord first]
      omega
    have third : signatureLengthOffset + 4 ≤ (Bytes.splice (Bytes.splice bytes totalLengthOffset
        (Bytes.ofWord total)) dataLengthOffset (Bytes.ofWord data)).length := by
      rw [Bytes.length_splice_ofWord second, Bytes.length_splice_ofWord first]
      omega
    refine ⟨(), _, ⟨first, rfl⟩, (), _, ⟨second, rfl⟩, (), _, ⟨third, rfl⟩, _, _, ⟨rfl, rfl⟩, ?_⟩
    simp only [Buffer.storeMagics, Edit.bind_eq_ok_iff, Edit.change_eq_ok_iff,
      Buffer.setWord_eq_ok_iff, Edit.pure_eq_ok_iff]
    refine ⟨(), _, ⟨?_, rfl⟩, trivial, ?_⟩
    · rw [Buffer.size, Bytes.length_splice_ofWord third, Bytes.length_splice_ofWord second,
        Bytes.length_splice_ofWord first]
      omega
    · rw [splice_leadingWords inside]

/-- Refreshing an entry writes the leading words of its header. -/
theorem update_eq_ok_iff (headed : entry.Headed) :
    update entry = .ok answer changed ↔
      reservedOffset ≤ entry.header.size ∧ ∃ total data signature : UInt32,
        total.toNat = entry.size ∧ data.toNat = Fragment.size entry.data ∧
          signature.toNat = entry.slot.size ∧
          { entry with header := { entry.header with
            bytes := leadingWords entry.kind.magic total data signature ++
              entry.header.bytes.drop reservedOffset } } = changed := by
  simp only [update, Edit.bind_eq_ok_iff, Edit.get_eq_ok_iff, Edit.ask_eq_ok_iff,
    Bytes.encodeLength_eq_ok_iff]
  constructor
  · rintro ⟨_, _, ⟨rfl, rfl⟩, total, _, ⟨whole, rfl⟩, data, _, ⟨middle, rfl⟩, signature, _,
      ⟨last, rfl⟩, ran⟩
    obtain ⟨header, stored, rfl⟩ := Edit.within_eq_ok_iff.mp ran
    obtain ⟨inside, rfl⟩ := (storeWords_eq_ok_iff headed.registered).mp stored
    exact ⟨inside, total, data, signature, whole, middle, last, rfl⟩
  · rintro ⟨inside, total, data, signature, whole, middle, last, rfl⟩
    refine ⟨_, _, ⟨rfl, rfl⟩, total, _, ⟨whole, rfl⟩, data, _, ⟨middle, rfl⟩, signature, _,
      ⟨last, rfl⟩, Edit.within_eq_ok_iff.mpr ⟨_, ?_, rfl⟩⟩
    exact (storeWords_eq_ok_iff headed.registered).mpr ⟨inside, rfl⟩

/-- The header of a valid entry begins with the words that refreshing would store. -/
theorem leadingWords_of_valid (headed : entry.Headed) (valid : entry.validate = .ok ()) :
    leadingWords entry.kind.magic (Bytes.wordAt entry.header.bytes totalLengthOffset)
        (Bytes.wordAt entry.header.bytes dataLengthOffset)
        (Bytes.wordAt entry.header.bytes signatureLengthOffset) ++
      entry.header.bytes.drop reservedOffset = entry.header.bytes := by
  have whole : entry.header.bytes.length = 24 := header_size headed valid
  have word (offset : Nat) (inside : offset + 4 ≤ 24) :
      Bytes.ofWord (Bytes.wordAt entry.header.bytes offset) =
        Bytes.slice entry.header.bytes offset 4 :=
    Bytes.ofWord_wordAt (by omega)
  rw [leadingWords, ← header_magic headed valid, word 0 (by decide), word _ (by decide),
    word _ (by decide), word _ (by decide)]
  calc Bytes.slice entry.header.bytes 0 4 ++ (Bytes.slice entry.header.bytes (0 + 4) 4 ++
        (Bytes.slice entry.header.bytes (0 + 4 + 4) 4 ++
          Bytes.slice entry.header.bytes (0 + 4 + 4 + 4) 4)) ++ entry.header.bytes.drop 16
      = entry.header.bytes.take 16 ++ entry.header.bytes.drop 16 := by
        rw [Bytes.slice_append_slice, Bytes.slice_append_slice, Bytes.slice_append_slice,
          Bytes.slice_zero]
    _ = entry.header.bytes := List.take_append_drop 16 _

/-- Refreshing leaves a valid entry alone, because its lengths and its magic number stand. -/
theorem update_of_valid (valid : entry.validate = .ok ()) : update entry = .ok () entry := by
  obtain ⟨⟨header, -⟩, measured, -⟩ := validate_eq_ok_iff.mp valid
  obtain ⟨-, stand, -⟩ := Buffer.validate_eq_ok_iff.mp header
  have store {word : UInt32} {offset : Nat} (before : offset < reservedOffset)
      (there : Bytes.wordAt entry.header.bytes offset = word) :
      Edit.change (·.setWord word offset) entry.header = .ok () entry.header := by
    have room := measured.room
    exact Edit.change_of_ok (Buffer.setWord_of_wordAt (by omega) there)
  simp only [update, Edit.bind_eq_ok_iff, Edit.get_eq_ok_iff, Edit.ask_eq_ok_iff,
    Bytes.encodeLength_eq_ok_iff]
  refine ⟨_, _, ⟨rfl, rfl⟩, _, _, ⟨measured.total, rfl⟩, _, _, ⟨measured.data, rfl⟩, _, _,
    ⟨measured.signature, rfl⟩, Edit.within_eq_ok_iff.mpr ⟨entry.header, ?_, rfl⟩⟩
  rw [Edit.bind_of_ok (store (by decide) rfl), Edit.bind_of_ok (store (by decide) rfl),
    Edit.bind_of_ok (store (by decide) rfl)]
  exact Buffer.updateMagic_of_hasMagics stand

theorem update_same (valid : entry.validate = .ok ()) (ran : update entry = .ok answer changed) :
    changed = entry := by
  rw [update_of_valid valid] at ran
  simpa using ran.symm

/-- Refreshing keeps everything but the lengths in the header. -/
theorem Headed.update (headed : entry.Headed)
    (ran : ChainEntry.update entry = .ok answer changed) :
    changed.Headed ∧ changed.data = entry.data ∧ changed.slot = entry.slot ∧
      changed.header.bytes.drop reservedOffset = entry.header.bytes.drop reservedOffset ∧
      changed.size = entry.size ∧ entry.size < 2 ^ 32 := by
  obtain ⟨inside, total, data, signature, whole, -, -, rfl⟩ := (update_eq_ok_iff headed).mp ran
  have exact := length_leadingWords entry.kind.magic total data signature
  have same : (leadingWords entry.kind.magic total data signature ++
      entry.header.bytes.drop reservedOffset).length = entry.header.size := by
    rw [List.length_append, exact, List.length_drop]
    exact Nat.add_sub_cancel' inside
  refine ⟨headed.withBytes ?_, rfl, rfl, ?_, ?_, whole ▸ total.toNat_lt⟩
  · rw [same]
    exact headed.bounded
  · rw [List.drop_left' exact]
  · rw [size_eq, size_eq]
    exact congrArg (· + (Fragment.size entry.data + entry.slot.size)) same

theorem Standard.update (standard : entry.Standard)
    (ran : ChainEntry.update entry = .ok answer changed) : changed.Standard := by
  obtain ⟨headed, data, slot, -⟩ := standard.header.update ran
  exact ⟨headed, data ▸ standard.data, slot ▸ standard.slot⟩

/-- Filling the slot keeps the data and, of the header, everything but the lengths. -/
theorem Headed.fillSlot (headed : entry.Headed)
    (ran : ChainEntry.fillSlot slot entry = .ok answer changed) :
    changed.Headed ∧ changed.data = entry.data ∧
      changed.slot = { Buffer.empty none with bytes := slot } ∧
      changed.header.bytes.drop reservedOffset = entry.header.bytes.drop reservedOffset ∧
      changed.header.size = entry.header.size ∧ changed.size < 2 ^ 32 := by
  simp only [ChainEntry.fillSlot, Edit.bind_eq_ok_iff, Edit.modify_eq_ok_iff] at ran
  obtain ⟨_, _, rfl, ran⟩ := ran
  have filled : { entry with slot := { Buffer.empty none with bytes := slot } }.Headed := headed
  obtain ⟨again, data, same, tail, whole, small⟩ := filled.update ran
  refine ⟨again, data, same, tail, ?_, whole ▸ small⟩
  rw [size_eq, size_eq, data, same] at whole
  simpa using whole

theorem setSignature_eq_ok_iff {signature : Signature} :
    setSignature signature entry = .ok answer changed ↔
      entry.kind.isRoot = false ∧ fillSlot signature.toBytes entry = .ok answer changed := by
  simp only [setSignature, Edit.bind_eq_ok_iff, Edit.ask_eq_ok_iff, require_eq_ok_iff]
  constructor
  · rintro ⟨_, _, ⟨unsigned, rfl⟩, ran⟩
    exact ⟨unsigned, ran⟩
  · rintro ⟨unsigned, ran⟩
    exact ⟨(), entry, ⟨unsigned, rfl⟩, ran⟩

/-- Storing a signature in a valid entry shows in its header unless the signature has the size of
what was in the slot. -/
theorem Headed.setSignature_header_iff {signature : Signature} (headed : entry.Headed)
    (valid : entry.validate = .ok ())
    (ran : setSignature signature entry = .ok answer changed) :
    changed.header.bytes = entry.header.bytes ↔ signature.size = entry.slot.size := by
  obtain ⟨-, filled⟩ := setSignature_eq_ok_iff.mp ran
  simp only [ChainEntry.fillSlot, Edit.bind_eq_ok_iff, Edit.modify_eq_ok_iff] at filled
  obtain ⟨_, _, rfl, ran⟩ := filled
  have headedToo : { entry with slot :=
      { Buffer.empty none with bytes := signature.toBytes } }.Headed := headed
  obtain ⟨-, total, data, length, whole, middle, last, rfl⟩ := (update_eq_ok_iff headedToo).mp ran
  obtain ⟨-, measured, -⟩ := validate_eq_ok_iff.mp valid
  have stored : length.toNat = signature.size := last
  have standing := leadingWords_of_valid headed valid
  constructor
  · intro same
    have words := List.append_cancel_right (same.trans standing.symm)
    rw [← stored, signature_eq_of_leadingWords_eq words, measured.signature]
  · intro same
    have first : total = Bytes.wordAt entry.header.bytes totalLengthOffset := by
      refine UInt32.toNat_inj.mp (whole.trans ?_)
      rw [measured.total, size_eq, size_eq]
      exact congrArg (fun size => entry.header.size + (Fragment.size entry.data + size)) same
    have second : data = Bytes.wordAt entry.header.bytes dataLengthOffset :=
      UInt32.toNat_inj.mp (middle.trans measured.data.symm)
    have third : length = Bytes.wordAt entry.header.bytes signatureLengthOffset := by
      rw [← UInt32.toNat_inj, stored, same, measured.signature]
    rw [first, second, third]
    exact standing

theorem Standard.setSignature {signature : Signature} (standard : entry.Standard)
    (ran : ChainEntry.setSignature signature entry = .ok answer changed) : changed.Standard := by
  obtain ⟨-, filled⟩ := setSignature_eq_ok_iff.mp ran
  obtain ⟨headed, data, slot, -⟩ := standard.header.fillSlot filled
  exact ⟨headed, data ▸ standard.data, by rw [slot]; exact ⟨rfl, by simp [Buffer.empty]⟩⟩

/-- What follows the leading words decides the hash selector. -/
theorem hashSelector_of_drop {other : ChainEntry} {selector : HashSelector}
    (selected : entry.hashSelector = .ok selector)
    (same : other.header.bytes.drop reservedOffset = entry.header.bytes.drop reservedOffset) :
    other.hashSelector = .ok selector := by
  obtain ⟨inside, found⟩ := hashSelector_eq_ok_iff.mp selected
  have word (bytes : Bytes) : Bytes.wordAt bytes hashSelectorOffset =
      Bytes.wordAt (bytes.drop reservedOffset) 4 := by
    rw [Bytes.wordAt, Bytes.wordAt, Bytes.slice, Bytes.slice, List.drop_drop]
    rfl
  have length := congrArg List.length same
  simp only [List.length_drop] at length
  refine hashSelector_eq_ok_iff.mpr ⟨?_, by rw [word, same, ← word, found]⟩
  simp only [Buffer.size, hashSelectorOffset, reservedOffset] at inside length ⊢
  omega

/-- An entry that is built is valid and holds what it was built from. -/
theorem headed_build {data : EntryData} {selector : HashSelector}
    (ran : build data slot selector = .ok entry) :
    entry.Headed ∧ entry.validate = .ok () ∧ entry.data = data ∧
      entry.slot = { Buffer.empty none with bytes := slot } ∧
      entry.hashSelector = .ok selector := by
  simp only [build, bind_eq_ok_iff, pure_eq_ok_iff, Edit.result_eq_ok_iff, exists_unit_iff,
    Edit.bind_eq_ok_iff] at ran
  obtain ⟨_, ⟨begun, head, filled⟩, valid, rfl⟩ := ran
  obtain ⟨header, headed, rfl⟩ := Edit.within_eq_ok_iff.mp head
  simp only [Edit.bind_eq_ok_iff, Edit.change_eq_ok_iff] at headed
  obtain ⟨_, cleared, reset, stored⟩ := headed
  have blank := Buffer.Follows.self (ofData data).header fun _ _ => Nat.zero_le _
  have begun : { ofData data with header := header }.Headed := (blank.reset reset).setWord stored
  obtain ⟨again, same, slotBytes, tail, -⟩ := begun.fillSlot filled
  refine ⟨again, valid, same, slotBytes, hashSelector_of_drop (hashSelector_eq_ok_iff.mpr ?_) tail⟩
  obtain ⟨inside, rfl⟩ := Buffer.setWord_eq_ok_iff.mp stored
  refine ⟨?_, ?_⟩
  · rw [Buffer.size, Bytes.length_splice_ofWord inside]
    exact inside
  · rw [Bytes.wordAt_splice inside, HashSelector.ofValue?_value]

theorem standard_build {data : EntryData} {selector : HashSelector} (standard : data.Standard)
    (ran : build data slot selector = .ok entry) :
    entry.Standard ∧ entry.validate = .ok () ∧ entry.data = data := by
  obtain ⟨headed, valid, same, slot, -⟩ := headed_build ran
  exact ⟨⟨headed, same ▸ standard, by rw [slot]; exact ⟨rfl, by simp [Buffer.empty]⟩⟩, valid, same⟩

/-- A key hash word goes to the front of a block of zeros. -/
theorem reservedFor_eq_ok_iff {word : Bytes} {reserved : Buffer} :
    EntryData.reservedFor word = .ok reserved ↔ word.length ≤ Size.rootReserved ∧
      { EntryData.reservedBlock with bytes := Bytes.splice (Bytes.zeros Size.rootReserved) 0 word } =
        reserved := by
  have cleared : Buffer.reset Size.rootReserved EntryData.reservedBlock = .ok ()
      { EntryData.reservedBlock with bytes := Bytes.zeros Size.rootReserved } := rfl
  simp only [EntryData.reservedFor, Edit.result_eq_ok_iff, exists_unit_iff,
    Edit.bind_of_ok cleared, Edit.change_eq_ok_iff, Buffer.setRaw_eq_ok_iff, Nat.zero_add]
  exact Iff.rfl

theorem reservedFor_eq_ok {word : Bytes} {reserved : Buffer}
    (ran : EntryData.reservedFor word = .ok reserved) :
    reserved.Follows EntryData.reservedBlock ∧ reserved.size = Size.rootReserved := by
  obtain ⟨short, rfl⟩ := reservedFor_eq_ok_iff.mp ran
  have inside : 0 + word.length ≤ (Bytes.zeros Size.rootReserved).length := by
    rwa [Bytes.length_zeros, Nat.zero_add]
  have whole : (Bytes.splice (Bytes.zeros Size.rootReserved) 0 word).length = Size.rootReserved := by
    rw [Bytes.length_splice inside, Bytes.length_zeros]
  refine ⟨⟨rfl, fun most bounded => ?_⟩, whole⟩
  obtain rfl : Size.rootReserved = most := Option.some.inj bounded
  exact Nat.le_of_eq whole

theorem standard_root {key : PublicKey} {selector : HashSelector} (standard : key.Standard)
    (ran : root key selector = .ok entry) :
    entry.Standard ∧ entry.validate = .ok () ∧ entry.kind = .root := by
  simp only [root, bind_eq_ok_iff, require_eq_ok_iff, exists_unit_iff] at ran
  obtain ⟨⟨filled, format⟩, word, -, reserved, ran, built⟩ := ran
  obtain ⟨follows, whole⟩ := reservedFor_eq_ok ran
  have standardData : (EntryData.root reserved key).Standard :=
    ⟨follows, standard, format, fun _ => whole⟩
  obtain ⟨again, valid, data⟩ := standard_build standardData built
  exact ⟨again, valid, by rw [kind, data]; rfl⟩

theorem standard_publicKey {key : PublicKey} {selector : HashSelector} (standard : key.Standard)
    (ran : publicKey key selector = .ok entry) :
    entry.Standard ∧ entry.validate = .ok () ∧ entry.data = .publicKey key := by
  simp only [publicKey, bind_eq_ok_iff, require_eq_ok_iff, exists_unit_iff] at ran
  have standardData : (EntryData.publicKey key).Standard := standard
  exact standard_build standardData ran.2

theorem standard_block0 {selector : HashSelector} (ran : block0 selector = .ok entry) :
    entry.Standard ∧ entry.validate = .ok () ∧ entry.data = .block0 ∧
      entry.hashSelector = .ok selector := by
  have standardData : EntryData.block0.Standard := trivial
  obtain ⟨again, valid, data⟩ := standard_build standardData ran
  obtain ⟨-, -, -, -, selected⟩ := headed_build ran
  exact ⟨again, valid, data, selected⟩

end ChainEntry
end SecureBoot
