import SecureBoot.Chain.Entry
import SecureBoot.Proofs.Data

/-!
Chain entries in a stream. The header of a valid entry announces its kind and the lengths of what
follows, so an entry is recognized by its first bytes and read back from its own bytes whatever
follows them; and an entry that was read is valid and has just the bytes that were taken.
-/

namespace SecureBoot.ChainEntry

variable {entry changed : ChainEntry} {kind : EntryKind} {format : KeyFormat} {bytes rest : Bytes}
  {count : Nat} {stream left : Stream} {answer : Unit}

instance : Composite.Lawful ChainEntry where
  parts entry := by
    rw [show Composite.parts entry = [_, _, _] from rfl, List.forall_mem_cons, List.forall_mem_cons]
    exact ⟨Part.lawful_of entry.header fun header => { entry with header := header },
      Part.lawful_of entry.data fun data => { entry with data := data },
      by simpa using Part.lawful_of entry.slot fun slot => { entry with slot := slot }⟩

instance : Fragment.Lawful ChainEntry where
  length_toBytes := Composite.length_toBytes
  readBytes_sound := Composite.readBytes_sound
  readBytes_inside := Composite.readBytes_inside
  writeBytes_same := Composite.writeBytes_same

theorem toBytes_eq (entry : ChainEntry) :
    Fragment.toBytes entry =
      entry.header.bytes ++ (Fragment.toBytes entry.data ++ entry.slot.bytes) := by
  rw [show Fragment.toBytes entry =
    entry.header.bytes ++ (Fragment.toBytes entry.data ++ (entry.slot.bytes ++ [])) from rfl,
    List.append_nil]

theorem size_eq (entry : ChainEntry) :
    entry.size = entry.header.size + (Fragment.size entry.data + entry.slot.size) :=
  rfl

/-- The header is laid out as the one that is read when the kind of the entry comes next in a
stream. -/
def Headed (entry : ChainEntry) : Prop :=
  entry.header.Follows (ofData entry.data).header

/-- The entry is laid out as the one that is read when its kind comes next in a stream. -/
structure Standard (entry : ChainEntry) : Prop where
  header : entry.Headed
  data : entry.data.Standard
  slot : entry.slot.Follows (Buffer.empty none)

theorem header_ofData {data other : EntryData} (same : data.kind = other.kind) :
    (ofData data).header = (ofData other).header := by
  rw [ofData, ofData, same]

/-- The header states the lengths of the entry and of its parts. -/
structure Measured (entry : ChainEntry) : Prop where
  room : reservedOffset + 4 ≤ entry.header.size
  total : (Bytes.wordAt entry.header.bytes totalLengthOffset).toNat = entry.size
  data : (Bytes.wordAt entry.header.bytes dataLengthOffset).toNat = Fragment.size entry.data
  signature : (Bytes.wordAt entry.header.bytes signatureLengthOffset).toNat = entry.slot.size
  reserved : Bytes.wordAt entry.header.bytes reservedOffset = 0
  aligned : entry.size % 8 = 0

theorem validateLengths_eq_ok_iff : entry.validateLengths = .ok answer ↔ entry.Measured := by
  simp only [validateLengths, totalLength, dataLength, signatureLength, checkLength, bind_eq_ok_iff,
    Buffer.getWord_eq_ok_iff, require_eq_ok_iff, exists_unit_iff]
  constructor
  · rintro ⟨_, ⟨-, rfl⟩, _, ⟨-, rfl⟩, _, ⟨-, rfl⟩, total, data, signature, _, ⟨room, rfl⟩, reserved,
      aligned⟩
    exact ⟨room, total, data, signature, reserved, aligned⟩
  · rintro ⟨room, total, data, signature, reserved, aligned⟩
    have before : signatureLengthOffset + 4 ≤ entry.header.size := Nat.le_trans (by decide) room
    exact ⟨_, ⟨Nat.le_trans (by decide) before, rfl⟩, _, ⟨Nat.le_trans (by decide) before, rfl⟩, _,
      ⟨before, rfl⟩, total, data, signature, _, ⟨room, rfl⟩, reserved, aligned⟩

theorem hashSelector_eq_ok_iff {selector : HashSelector} :
    entry.hashSelector = .ok selector ↔
      hashSelectorOffset + 4 ≤ entry.header.size ∧
        HashSelector.ofValue? (Bytes.wordAt entry.header.bytes hashSelectorOffset) =
          some selector := by
  simp only [hashSelector, bind_eq_ok_iff, Buffer.getWord_eq_ok_iff]
  constructor
  · rintro ⟨_, ⟨inside, rfl⟩, ran⟩
    refine ⟨inside, ?_⟩
    cases found : HashSelector.ofValue? (Bytes.wordAt entry.header.bytes hashSelectorOffset) with
    | none => simp [found] at ran
    | some other => simpa [found] using ran
  · rintro ⟨inside, found⟩
    exact ⟨_, ⟨inside, rfl⟩, by simp [found]⟩

theorem validateParts_eq_ok_iff :
    Composite.validateParts entry = .ok answer ↔
      entry.header.validate = .ok () ∧ Fragment.validate entry.data = .ok () ∧
        entry.slot.validate = .ok () := by
  rw [Composite.validateParts_eq_ok_iff]
  simp [Composite.parts, Part.of, Fragment.validate]

theorem validate_eq_ok_iff :
    entry.validate = .ok answer ↔
      (entry.header.validate = .ok () ∧ Fragment.validate entry.data = .ok () ∧
        entry.slot.validate = .ok ()) ∧
      entry.Measured ∧ (∃ selector, entry.hashSelector = .ok selector) ∧
      entry.validateKind = .ok () := by
  simp only [validate, bind_eq_ok_iff, exists_unit_iff, validateParts_eq_ok_iff,
    validateLengths_eq_ok_iff, exists_and_right]

theorem filled_of_checkRootKeys {keys : List PublicKey} (checked : checkRootKeys kind keys = .ok answer) :
    ∀ key ∈ keys, key.isEmpty = false := by
  induction keys with
  | nil => simp
  | cons first others ih =>
    simp only [checkRootKeys, checkRootKey, bind_eq_ok_iff, require_eq_ok_iff,
      exists_unit_iff] at checked
    obtain ⟨⟨there, -⟩, later⟩ := checked
    exact List.forall_mem_cons.mpr ⟨there, ih later⟩

/-- The keys that the kind of an entry demands are there. -/
theorem filled_of_validateKind (checked : entry.validateKind = .ok answer) :
    entry.data.Filled ∧ (entry.data.kind = .block0 ∨ entry.data.keys ≠ []) := by
  obtain ⟨header, data, slot⟩ := entry
  cases data with
  | root reserved key =>
    simp only [validateKind, checkRootKey, bind_eq_ok_iff, require_eq_ok_iff, exists_unit_iff] at checked
    obtain ⟨-, ⟨there, -⟩, -⟩ := checked
    exact ⟨by simpa [EntryData.Filled, EntryData.keys] using there, .inr (by simp [EntryData.keys])⟩
  | multiRoot reserved keys =>
    simp only [validateKind, bind_eq_ok_iff, require_eq_ok_iff, exists_unit_iff] at checked
    obtain ⟨-, some, each, -⟩ := checked
    refine ⟨filled_of_checkRootKeys each, .inr ?_⟩
    simpa [Sequence.isEmpty, EntryData.keys] using some
  | publicKey key =>
    simp only [validateKind, require_eq_ok_iff] at checked
    exact ⟨by simpa [EntryData.Filled, EntryData.keys] using checked,
      .inr (by simp [EntryData.keys])⟩
  | block0 => exact ⟨by simp [EntryData.Filled, EntryData.keys], .inl rfl⟩

/-- The hash selector is the last word of a header, so a valid entry has all of it. -/
theorem le_headerSize (valid : entry.validate = .ok answer) :
    Size.entryHeader ≤ entry.header.size := by
  obtain ⟨-, -, ⟨selector, selected⟩, -⟩ := validate_eq_ok_iff.mp valid
  exact (hashSelector_eq_ok_iff.mp selected).1

/-- The header of a valid entry is complete. -/
theorem header_size (headed : entry.Headed) (valid : entry.validate = .ok answer) :
    entry.header.size = Size.entryHeader :=
  Nat.le_antisymm (headed.bounded _ rfl) (le_headerSize valid)

theorem le_size (valid : entry.validate = .ok answer) : Size.entryHeader ≤ entry.size :=
  Nat.le_add_right_of_le (le_headerSize valid)

/-- The header of a valid entry begins with the magic number of its kind. -/
theorem header_magic (headed : entry.Headed) (valid : entry.validate = .ok answer) :
    Bytes.wordAt entry.header.bytes 0 = entry.kind.magic := by
  obtain ⟨⟨header, -⟩, -⟩ := validate_eq_ok_iff.mp valid
  obtain ⟨-, stand, -⟩ := Buffer.validate_eq_ok_iff.mp header
  rw [headed.magics] at stand
  exact (stand (entry.kind.magic, 0) (by
    simp [ofData, Buffer.withMagic, Buffer.withDescription, Buffer.empty, ChainEntry.kind])).2

private theorem take_toBytes {size : Nat} (inside : size ≤ entry.header.size) (rest : Bytes) :
    (Fragment.toBytes entry ++ rest).take size = entry.header.bytes.take size := by
  rw [toBytes_eq, List.append_assoc, List.take_append_of_le_length inside]

/-- The format of a public key entry is looked up in the word behind the header. -/
private theorem take_toBytes_publicKey {key : PublicKey} (standard : entry.Standard)
    (valid : entry.validate = .ok ()) (keyed : entry.data = .publicKey key) (rest : Bytes) :
    ((Fragment.toBytes entry ++ rest).take (Size.entryHeader + 4)).length = Size.entryHeader + 4 ∧
      KeyFormat.ofMagic? (Bytes.wordAt ((Fragment.toBytes entry ++ rest).take
        (Size.entryHeader + 4)) Size.entryHeader) = some key.format := by
  have whole := header_size standard.header valid
  obtain ⟨⟨-, validData, -⟩, -, -, kindValid⟩ := validate_eq_ok_iff.mp valid
  obtain ⟨filled, -⟩ := filled_of_validateKind kindValid
  have standardKey := standard.data
  rw [keyed] at validData filled standardKey
  have there := filled key (by simp [EntryData.keys])
  obtain ⟨-, buffer, long, -⟩ :=
    PublicKey.validate_filled (EntryData.validate_publicKey.mp validData) there
  obtain ⟨four, magic⟩ := PublicKey.magic_of_valid standardKey buffer
  have split : Fragment.toBytes entry ++ rest =
      entry.header.bytes ++ (key.buffer.bytes ++ (entry.slot.bytes ++ rest)) := by
    rw [toBytes_eq, keyed, EntryData.toBytes_publicKey, List.append_assoc, List.append_assoc]
  have starts : entry.header.bytes.length = Size.entryHeader := whole
  rw [split]
  constructor
  · rw [List.length_take_of_le]
    simp only [List.length_append, starts]
    have : key.buffer.bytes.length = key.size := rfl
    omega
  · rw [Bytes.wordAt_take (Nat.le_refl _), Bytes.wordAt_append_right (by omega), starts, Nat.sub_self,
      Bytes.wordAt_append_left four, magic, KeyFormat.ofMagic?_magic]

/-- No entry begins here: the bytes are too few or begin with no magic number of an entry. -/
def NoEntry (bytes : Bytes) : Prop :=
  bytes.length < 8 ∨ EntryKind.ofMagic? (Bytes.wordAt bytes 0) = none

theorem serves_sniff_none (absent : NoEntry rest) : Edit.Serves sniff [] rest none := by
  refine (Edit.Serves.peek 8 rest).last ?_
  by_cases short : (rest.take 8).length < 8
  · rw [if_pos short]
    exact .pure none rest
  · have long : ¬rest.length < 8 := by
      rw [List.length_take] at short
      omega
    rw [if_neg short, Bytes.wordAt_take (by decide), absent.resolve_left long]
    exact .pure none rest

/-- A valid entry is recognized by its first bytes. -/
theorem serves_sniff (standard : entry.Standard) (valid : entry.validate = .ok ()) (rest : Bytes) :
    Edit.Serves sniff [] (Fragment.toBytes entry ++ rest)
      (some (empty entry.kind entry.data.keyFormat)) := by
  have whole := header_size standard.header valid
  have head : (Fragment.toBytes entry ++ rest).take 8 = entry.header.bytes.take 8 :=
    take_toBytes (by rw [whole]; decide) rest
  have eight : (entry.header.bytes.take 8).length = 8 :=
    List.length_take_of_le (by rw [show entry.header.bytes.length = _ from whole]; decide)
  have found : EntryKind.ofMagic? (Bytes.wordAt (entry.header.bytes.take 8) 0) = some entry.kind := by
    rw [Bytes.wordAt_take (by decide), header_magic standard.header valid, EntryKind.ofMagic?_magic]
  refine (Edit.Serves.peek 8 _).last ?_
  rw [head, if_neg (by omega), found]
  cases keyed : entry.data with
  | root reserved key =>
    rw [show entry.kind = .root by rw [ChainEntry.kind, keyed]; rfl]
    exact .pure _ _
  | multiRoot reserved keys =>
    rw [show entry.kind = .multiRoot by rw [ChainEntry.kind, keyed]; rfl]
    exact .pure _ _
  | publicKey key =>
    rw [show entry.kind = .publicKey by rw [ChainEntry.kind, keyed]; rfl]
    obtain ⟨long, format⟩ := take_toBytes_publicKey standard valid keyed rest
    refine (Edit.Serves.peek (Size.entryHeader + 4) _).last ?_
    rw [format]
    refine (Edit.Serves.ask fun _ => require_of (Nat.le_of_eq long.symm)).look ?_
    exact .pure _ _
  | block0 =>
    rw [show entry.kind = .block0 by rw [ChainEntry.kind, keyed]; rfl]
    exact .pure _ _

/-- A valid entry is read back from its own bytes. -/
theorem takes_read (standard : entry.Standard) (valid : entry.validate = .ok ()) (rest : Bytes) :
    Edit.Takes read (empty entry.kind entry.data.keyFormat) (Fragment.toBytes entry) rest entry.size
      entry := by
  have whole := header_size standard.header valid
  obtain ⟨⟨validHeader, validData, -⟩, measured, -, kindValid⟩ := validate_eq_ok_iff.mp valid
  obtain ⟨filled, keyed⟩ := filled_of_validateKind kindValid
  have exact := Fragment.Lawful.length_toBytes entry.data
  let begun : ChainEntry := { empty entry.kind entry.data.keyFormat with header := entry.header }
  let loaded : ChainEntry := { begun with data := entry.data }
  have headed : onHeader (Edit.change (·.append entry.header.bytes))
      (empty entry.kind entry.data.keyFormat) = .ok () begun := by
    have blank : (empty entry.kind entry.data.keyFormat).header = (ofData entry.data).header :=
      header_ofData (EntryData.kind_empty _ _)
    refine Edit.within_eq_ok_iff.mpr ⟨entry.header, Edit.change_of_ok ?_, rfl⟩
    rw [blank]
    exact standard.header.append_blank rfl
  have checked : onHeader (Edit.ask Buffer.validate) begun = .ok () begun :=
    Edit.within_eq_ok_iff.mpr ⟨entry.header, Edit.ask_eq_ok_iff.mpr ⟨validHeader, rfl⟩, rfl⟩
  have dataWord : Edit.ask dataLength begun =
      .ok (Bytes.wordAt entry.header.bytes dataLengthOffset) begun :=
    Edit.ask_eq_ok_iff.mpr
      ⟨Buffer.getWord_eq_ok_iff.mpr ⟨Nat.le_trans (by decide) measured.room, rfl⟩, rfl⟩
  have read : Edit.readInside ChainEntry.data (fun entry data => { entry with data := data })
      (Fragment.toBytes entry.data) begun = .ok (Fragment.size entry.data) loaded :=
    Edit.readInside_of_takes (EntryData.takes_read standard.data validData filled keyed)
  have slotWord : Edit.ask signatureLength loaded =
      .ok (Bytes.wordAt entry.header.bytes signatureLengthOffset) loaded :=
    Edit.ask_eq_ok_iff.mpr
      ⟨Buffer.getWord_eq_ok_iff.mpr ⟨Nat.le_trans (by decide) measured.room, rfl⟩, rfl⟩
  have closed : Edit.change (fun other : ChainEntry => do
      return { other with slot := ← other.slot.append entry.slot.bytes }) loaded =
        .ok () entry := by
    refine Edit.change_of_ok ?_
    simp only [bind_eq_ok_iff, pure_eq_ok_iff]
    exact ⟨entry.slot, standard.slot.append_blank rfl, rfl⟩
  rw [toBytes_eq]
  refine .look (.ask fun _ => require_of rfl) ?_
  refine .bind (.fromStream (.takeExactly whole .entryHeader) _) ?_
  refine .look (.onObject headed _) (.look (.onObject checked _) (.look (.onObject dataWord _) ?_))
  rw [measured.data]
  refine .bind (.fromStream (.takeExactly exact .entryData) _) ?_
  refine .look (.onObject read _) (.look (.ask fun _ => require_of rfl) ?_)
  refine .look (.onObject slotWord _) ?_
  rw [measured.signature]
  refine .last (.fromStream (.takeExactly rfl .entrySignature) _) ?_
  refine .look (.onObject closed rest) ?_
  refine .look (.onObject (Edit.ask_eq_ok_iff.mpr ⟨valid, rfl⟩) rest) ?_
  exact .get_bind fun stream _ => .pure entry.size entry rest

/-- Reading an empty entry takes just the bytes of the valid entry that comes of it. -/
theorem read_sound (steady : stream.Steady)
    (ran : read (empty kind format, stream) = .ok count (entry, left)) :
    stream.Advances left (Fragment.toBytes entry) ∧ count = entry.size ∧
      entry.validate = .ok () ∧ entry.Standard ∧ entry.kind = kind ∧
      Size.entryHeader ≤ entry.size := by
  simp only [read, Edit.bind_eq_ok_iff, Prod.exists, Edit.ask_eq_ok_iff, Prod.mk.injEq,
    Edit.fromStream_eq_ok_iff, Edit.onObject_eq_ok_iff, Edit.change_eq_ok_iff,
    Edit.get_eq_ok_iff, Edit.pure_eq_ok_iff] at ran
  obtain ⟨_, _, _, ⟨-, rfl, rfl⟩, ran⟩ := ran
  obtain ⟨headerBytes, _, _, ⟨tookHeader, rfl⟩, ran⟩ := ran
  obtain ⟨_, headed, _, ⟨head, rfl⟩, ran⟩ := ran
  obtain ⟨_, _, _, ⟨check, rfl⟩, ran⟩ := ran
  obtain ⟨dataWord, _, _, ⟨⟨-, rfl⟩, rfl⟩, ran⟩ := ran
  obtain ⟨dataBytes, _, _, ⟨tookData, rfl⟩, ran⟩ := ran
  obtain ⟨consumed, loaded, _, ⟨load, rfl⟩, ran⟩ := ran
  obtain ⟨_, _, _, ⟨same, rfl, rfl⟩, ran⟩ := ran
  obtain ⟨slotWord, _, _, ⟨⟨-, rfl⟩, rfl⟩, ran⟩ := ran
  obtain ⟨slotBytes, _, _, ⟨tookSlot, rfl⟩, ran⟩ := ran
  obtain ⟨_, _, _, ⟨close, rfl⟩, ran⟩ := ran
  obtain ⟨_, _, _, ⟨⟨valid, rfl⟩, rfl⟩, ran⟩ := ran
  obtain ⟨_, _, _, _, ⟨⟨rfl, rfl⟩, rfl, rfl⟩, rfl, rfl, rfl⟩ := ran
  obtain ⟨whole, first⟩ := Edit.takeExactly_sound steady tookHeader
  obtain ⟨exact, second⟩ := Edit.takeExactly_sound first.steady tookData
  obtain ⟨-, third⟩ := Edit.takeExactly_sound second.steady tookSlot
  obtain ⟨header, grown, rfl⟩ := Edit.within_eq_ok_iff.mp head
  obtain ⟨_, checked, rfl⟩ := Edit.within_eq_ok_iff.mp check
  obtain ⟨-, rfl⟩ := Edit.ask_eq_ok_iff.mp checked
  obtain ⟨data, rest, ranData, rfl⟩ := Edit.readInside_eq_ok_iff.mp load
  obtain ⟨advances, rfl, kinds, standardData⟩ :=
    EntryData.read_sound (Stream.steady_ofBytes dataBytes) ranData
  simp only [bind_eq_ok_iff, pure_eq_ok_iff] at close
  obtain ⟨slot, closed, rfl⟩ := close
  have blankHeader := Buffer.Follows.self (empty kind format).header fun _ _ => Nat.zero_le _
  have blankSlot := Buffer.Follows.self (Buffer.empty none) fun _ _ => Nat.zero_le _
  have followsHeader := blankHeader.append (Edit.change_eq_ok_iff.mp grown)
  have followsSlot := blankSlot.append closed
  obtain rfl : header.bytes = headerBytes := by
    rw [← (Buffer.append_eq_ok_iff.mp (Edit.change_eq_ok_iff.mp grown)).2]
    rfl
  obtain rfl : slot.bytes = slotBytes := by
    rw [← (Buffer.append_eq_ok_iff.mp closed).2]
    rfl
  -- The data block is read from a stream of its own, so that it takes all of it must be said.
  have all : dataBytes = Fragment.toBytes data := by
    have split := advances.unread
    rw [Stream.unread_ofBytes] at split
    have length := congrArg List.length split
    rw [List.length_append, exact, ← require_eq_ok_iff.mp same, Fragment.Lawful.length_toBytes] at length
    rw [split, List.eq_nil_of_length_eq_zero (by omega : rest.unread.length = 0), List.append_nil]
  have kept : (empty kind format).header = (ofData data).header :=
    header_ofData (by rw [EntryData.kind_empty, kinds])
  rw [kept] at followsHeader
  refine ⟨?_, rfl, valid, ⟨followsHeader, standardData, followsSlot⟩, kinds, ?_⟩
  · rw [toBytes_eq, ← all]
    exact first.trans (second.trans third)
  · rw [size_eq, Buffer.size, whole]
    omega

theorem sniff_sound {found : Option ChainEntry} (steady : stream.Steady)
    (ran : sniff stream = .ok found left) :
    stream.Advances left [] ∧ (found = none → NoEntry stream.unread) ∧
      ∀ blank, found = some blank → ∃ kind format, blank = empty kind format := by
  simp only [sniff, Edit.bind_eq_ok_iff] at ran
  obtain ⟨head, looked, peeked, ran⟩ := ran
  obtain ⟨rfl, looks⟩ := Edit.peek_sound steady peeked
  by_cases short : (stream.unread.take 8).length < 8
  · rw [if_pos short, Edit.pure_eq_ok_iff] at ran
    obtain ⟨rfl, rfl⟩ := ran
    rw [List.length_take] at short
    exact ⟨looks, fun _ => .inl (by omega), by simp⟩
  rw [if_neg short, Bytes.wordAt_take (by decide)] at ran
  cases leads : EntryKind.ofMagic? (Bytes.wordAt stream.unread 0) with
  | none =>
    simp only [leads, Edit.pure_eq_ok_iff] at ran
    obtain ⟨rfl, rfl⟩ := ran
    exact ⟨looks, fun _ => .inr leads, by simp⟩
  | some kind =>
    cases kind with
    | publicKey =>
      simp only [leads, Edit.bind_eq_ok_iff, Edit.ask_eq_ok_iff, Edit.pure_eq_ok_iff] at ran
      obtain ⟨_, further, peeked, _, _, ⟨-, rfl⟩, rfl, rfl⟩ := ran
      obtain ⟨-, more⟩ := Edit.peek_sound looks.steady peeked
      exact ⟨looks.trans more, by simp, fun blank same => ⟨_, _, (Option.some.inj same).symm⟩⟩
    | root | multiRoot | block0 =>
      simp only [leads, Edit.pure_eq_ok_iff] at ran
      obtain ⟨rfl, rfl⟩ := ran
      exact ⟨looks, by simp, fun blank same => ⟨_, _, (Option.some.inj same).symm⟩⟩

end SecureBoot.ChainEntry
