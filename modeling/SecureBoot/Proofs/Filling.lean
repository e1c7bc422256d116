import SecureBoot.Proofs.Consistency
import SecureBoot.Proofs.Module

/-!
What filling the slot of an entry comes to. The leading words of the header are made anew, and
nothing else of the entry changes; so a signature of any size can be stored in a valid entry that
takes one, and the entry is valid again just if its new size is a multiple of eight.
-/

namespace SecureBoot

namespace ChainEntry

variable {entry changed other : ChainEntry} {slot : Bytes} {answer : Unit} {offset : Nat}

/-- The entry with the leading words that go with its kind and its sizes. -/
def refreshed (entry : ChainEntry) : ChainEntry :=
  { entry with header := { entry.header with
      bytes := leadingWords entry.kind.magic (UInt32.ofNat entry.size)
        (UInt32.ofNat (Fragment.size entry.data)) (UInt32.ofNat entry.slot.size) ++
          entry.header.bytes.drop reservedOffset } }

/-- The entry with other bytes in its slot. -/
def withSlot (entry : ChainEntry) (slot : Bytes) : ChainEntry :=
  { entry with slot := { Buffer.empty none with bytes := slot } }

/-- The length words of the header are the sizes of what they describe. -/
structure Announces (entry : ChainEntry) : Prop where
  total : (Bytes.wordAt entry.header.bytes totalLengthOffset).toNat = entry.size
  data : (Bytes.wordAt entry.header.bytes dataLengthOffset).toNat = Fragment.size entry.data
  signature : (Bytes.wordAt entry.header.bytes signatureLengthOffset).toNat = entry.slot.size

theorem header_size_refreshed (room : reservedOffset ≤ entry.header.size) :
    entry.refreshed.header.size = entry.header.size := by
  have whole : (leadingWords entry.kind.magic (UInt32.ofNat entry.size)
      (UInt32.ofNat (Fragment.size entry.data)) (UInt32.ofNat entry.slot.size) ++
        entry.header.bytes.drop reservedOffset).length = entry.header.size := by
    rw [List.length_append, length_leadingWords, List.length_drop]
    exact Nat.add_sub_cancel' room
  exact whole

theorem size_refreshed (room : reservedOffset ≤ entry.header.size) :
    entry.refreshed.size = entry.size := by
  rw [size_eq, size_eq, header_size_refreshed room]
  rfl

theorem drop_refreshed (entry : ChainEntry) :
    entry.refreshed.header.bytes.drop reservedOffset = entry.header.bytes.drop reservedOffset :=
  List.drop_left' (length_leadingWords _ _ _ _)

/-- The words behind the leading words are the same if the bytes behind them are. -/
theorem wordAt_of_drop
    (same : other.header.bytes.drop reservedOffset = entry.header.bytes.drop reservedOffset)
    (behind : reservedOffset ≤ offset) :
    Bytes.wordAt other.header.bytes offset = Bytes.wordAt entry.header.bytes offset := by
  have word (bytes : Bytes) : Bytes.wordAt bytes offset =
      Bytes.wordAt (bytes.drop reservedOffset) (offset - reservedOffset) := by
    rw [Bytes.wordAt, Bytes.wordAt, Bytes.slice, Bytes.slice, List.drop_drop,
      Nat.add_sub_cancel' behind]
  rw [word, same, ← word]

theorem Headed.refreshed (headed : entry.Headed) (room : reservedOffset ≤ entry.header.size) :
    entry.refreshed.Headed := by
  refine headed.withBytes ?_
  rw [show (leadingWords _ _ _ _ ++ _ : Bytes).length = _ from header_size_refreshed room]
  exact headed.bounded

/-- Refreshing succeeds if the entry can state its size. -/
theorem Headed.update_eq_refreshed_iff (headed : entry.Headed) :
    ChainEntry.update entry = .ok answer changed ↔
      reservedOffset ≤ entry.header.size ∧ entry.size < 2 ^ 32 ∧ entry.refreshed = changed := by
  have word {size : Nat} (small : size < 2 ^ 32) : (UInt32.ofNat size).toNat = size :=
    UInt32.toNat_ofNat_of_lt' small
  rw [ChainEntry.update_eq_ok_iff headed]
  refine and_congr_right fun room => ?_
  constructor
  · rintro ⟨total, data, signature, whole, middle, last, rfl⟩
    refine ⟨whole ▸ total.toNat_lt, ?_⟩
    rw [ChainEntry.refreshed, ← whole, ← middle, ← last]
    simp only [UInt32.ofNat_toNat]
  · rintro ⟨small, rfl⟩
    have parts := size_eq entry
    exact ⟨_, _, _, word small, word (by omega), word (by omega), rfl⟩

/-- The first word of a refreshed header is the magic number of the kind. -/
theorem magic_refreshed (entry : ChainEntry) :
    Bytes.wordAt entry.refreshed.header.bytes 0 = entry.kind.magic := by
  rw [refreshed, leadingWords, List.append_assoc]
  exact Bytes.wordAt_ofWord_append _ _

theorem announces_refreshed (room : reservedOffset ≤ entry.header.size)
    (small : entry.size < 2 ^ 32) : entry.refreshed.Announces := by
  have word {size : Nat} (small : size < 2 ^ 32) : (UInt32.ofNat size).toNat = size :=
    UInt32.toNat_ofNat_of_lt' small
  have parts := size_eq entry
  have whole := size_refreshed room
  refine ⟨?_, ?_, ?_⟩
  · rw [refreshed, leadingWords, List.append_assoc, List.append_assoc,
      show totalLengthOffset = 0 + 4 from rfl, Bytes.wordAt_ofWord_append_add,
      Bytes.wordAt_ofWord_append, word small]
    exact whole.symm
  · rw [refreshed, leadingWords, List.append_assoc, List.append_assoc, List.append_assoc,
      show dataLengthOffset = 0 + 4 + 4 from rfl, Bytes.wordAt_ofWord_append_add,
      Bytes.wordAt_ofWord_append_add, Bytes.wordAt_ofWord_append, word (by omega)]
  · rw [refreshed, leadingWords, List.append_assoc, List.append_assoc, List.append_assoc,
      show signatureLengthOffset = 0 + 4 + 4 + 4 from rfl, Bytes.wordAt_ofWord_append_add,
      Bytes.wordAt_ofWord_append_add, Bytes.wordAt_ofWord_append_add, Bytes.wordAt_ofWord_append,
      word (by omega)]

theorem validateKind_refreshed (entry : ChainEntry) :
    entry.refreshed.validateKind = entry.validateKind :=
  rfl

/-- What is left to check of a complete entry once it is refreshed. -/
theorem validate_refreshed_iff (headed : entry.Headed) (whole : entry.header.size = Size.entryHeader)
    (small : entry.size < 2 ^ 32) :
    entry.refreshed.validate = .ok () ↔
      (Fragment.validate entry.data = .ok () ∧ entry.slot.validate = .ok ()) ∧
        (Bytes.wordAt entry.header.bytes reservedOffset = 0 ∧ entry.size % 8 = 0) ∧
        (∃ selector, entry.hashSelector = .ok selector) ∧ entry.validateKind = .ok () := by
  have room : reservedOffset ≤ entry.header.size := by
    rw [whole]
    decide
  have size := size_refreshed room
  have headerSize := header_size_refreshed room
  have tail := drop_refreshed entry
  obtain ⟨total, data, signature⟩ := announces_refreshed room small
  have again := headed.refreshed room
  have header : entry.refreshed.header.validate = .ok () := by
    rw [Buffer.validate_eq_ok_iff, again.registered, again.crcAddresses]
    refine ⟨again.within, ?_, by simp [ofData, Buffer.withMagic, Buffer.withDescription, Buffer.empty,
      Buffer.HasCrcs]⟩
    rw [Buffer.HasMagics, List.forall_mem_singleton, headerSize, whole, magic_refreshed]
    exact ⟨(by decide : 0 + 4 ≤ Size.entryHeader), rfl⟩
  have reserved : Bytes.wordAt entry.refreshed.header.bytes reservedOffset =
      Bytes.wordAt entry.header.bytes reservedOffset := wordAt_of_drop tail (Nat.le_refl _)
  have selector (selector : HashSelector) :
      entry.refreshed.hashSelector = .ok selector ↔ entry.hashSelector = .ok selector :=
    ⟨fun selected => hashSelector_of_drop selected tail.symm,
      fun selected => hashSelector_of_drop selected tail⟩
  rw [validate_eq_ok_iff, validateKind_refreshed]
  simp only [selector]
  constructor
  · rintro ⟨⟨-, validData, validSlot⟩, measured, selected, kind⟩
    exact ⟨⟨validData, validSlot⟩, ⟨reserved ▸ measured.reserved, size ▸ measured.aligned⟩, selected,
      kind⟩
  · rintro ⟨⟨validData, validSlot⟩, ⟨unreserved, aligned⟩, selected, kind⟩
    refine ⟨⟨header, validData, validSlot⟩, ⟨?_, total, data, signature, ?_, ?_⟩, selected, kind⟩
    · rw [headerSize, whole]
      decide
    · rw [reserved, unreserved]
    · rw [size, aligned]

theorem size_withSlot (entry : ChainEntry) (slot : Bytes) :
    (entry.withSlot slot).size = entry.header.size + Fragment.size entry.data + slot.length := by
  rw [size_eq, Nat.add_assoc]
  rfl

/-- Filling the slot of an entry succeeds if the entry can state its size. -/
theorem Headed.fillSlot_eq_ok_iff (headed : entry.Headed) :
    ChainEntry.fillSlot slot entry = .ok answer changed ↔
      reservedOffset ≤ entry.header.size ∧ (entry.withSlot slot).size < 2 ^ 32 ∧
        (entry.withSlot slot).refreshed = changed := by
  have headedToo : (entry.withSlot slot).Headed := headed
  have refreshes : ChainEntry.fillSlot slot entry = .ok answer changed ↔
      ChainEntry.update (entry.withSlot slot) = .ok answer changed := Iff.rfl
  exact refreshes.trans headedToo.update_eq_refreshed_iff

/-- A new header is complete, and holds the selector and a reserved word of zero. -/
theorem begin_exists (data : EntryData) (selector : HashSelector) :
    ∃ begun, (onHeader do
        Buffer.reset Size.entryHeader
        Edit.change (·.setWord selector.value hashSelectorOffset)) (ofData data) = .ok () begun ∧
      begun.Headed ∧ begun.data = data ∧ begun.header.size = Size.entryHeader ∧
      Bytes.wordAt begun.header.bytes reservedOffset = 0 ∧ begun.hashSelector = .ok selector := by
  have most : ∀ limit, (ofData data).header.limit = some limit → Size.entryHeader ≤ limit :=
    fun limit limited => Nat.le_of_eq (Option.some.inj limited)
  have magics : (ofData data).header.magics = [(data.kind.magic, 0)] := rfl
  obtain ⟨cleared, reset, whole, -, zeros⟩ := Buffer.reset_exists most
    (magics ▸ List.forall_mem_singleton.mpr (by decide : 0 + 4 ≤ Size.entryHeader))
    (magics ▸ List.pairwise_singleton _ _)
  have inside : hashSelectorOffset + 4 ≤ cleared.bytes.length := Nat.le_of_eq whole.symm
  obtain ⟨header, stored⟩ : ∃ header, cleared.setWord selector.value hashSelectorOffset = .ok header :=
    ⟨_, Buffer.setWord_eq_ok_iff.mpr ⟨inside, rfl⟩⟩
  have blank := Buffer.Follows.self (ofData data).header fun _ _ => Nat.zero_le _
  have size : header.size = Size.entryHeader := (Buffer.size_setRaw stored).trans whole
  have apart : ∀ magic ∈ (ofData data).header.magics, Buffer.Beside reservedOffset 4 magic.2 :=
    magics ▸ List.forall_mem_singleton.mpr (.inr (by decide : 0 + 4 ≤ reservedOffset))
  obtain ⟨-, reserved⟩ := Buffer.getRaw_eq_ok_iff.mp (zeros reservedOffset 4 apart (by decide))
  refine ⟨{ ofData data with header := header }, Edit.within_eq_ok_iff.mpr ⟨header, ?_, rfl⟩,
    (blank.reset reset).setWord stored, rfl, size, ?_, hashSelector_eq_ok_iff.mpr ⟨?_, ?_⟩⟩
  · rw [Edit.bind_of_ok reset, Edit.change_of_ok stored]
  · obtain ⟨-, rfl⟩ := Buffer.setWord_eq_ok_iff.mp stored
    rw [Bytes.wordAt_splice_ofWord_of_disjoint inside (.inl (by decide)), Bytes.wordAt, reserved]
    decide
  · exact Nat.le_of_eq size.symm
  · obtain ⟨-, rfl⟩ := Buffer.setWord_eq_ok_iff.mp stored
    rw [Bytes.wordAt_splice inside, HashSelector.ofValue?_value]

/-- Data is built into an entry if it is valid, the entry can state its size and is aligned, and the
demands of the kind are met. -/
theorem build_exists {data : EntryData} (selector : HashSelector)
    (valid : Fragment.validate data = .ok ())
    (small : Size.entryHeader + Fragment.size data + slot.length < 2 ^ 32)
    (aligned : (Size.entryHeader + Fragment.size data + slot.length) % 8 = 0)
    (demands : ∀ header, validateKind ⟨header, data, { Buffer.empty none with bytes := slot }⟩ =
      .ok ()) :
    ∃ entry, build data slot selector = .ok entry := by
  obtain ⟨begun, ran, headed, rfl, whole, reserved, selected⟩ := begin_exists data selector
  have room : reservedOffset ≤ begun.header.size := by
    rw [whole]
    decide
  have size : (begun.withSlot slot).size =
      Size.entryHeader + Fragment.size begun.data + slot.length := by
    rw [size_withSlot, whole]
  have filled : fillSlot slot begun = .ok () (begun.withSlot slot).refreshed :=
    headed.fillSlot_eq_ok_iff.mpr ⟨room, size ▸ small, rfl⟩
  have headedToo : (begun.withSlot slot).Headed := headed
  have fine : (begun.withSlot slot).refreshed.validate = .ok () :=
    (validate_refreshed_iff headedToo whole (size ▸ small)).mpr ⟨⟨valid, Buffer.validate_unbounded _⟩,
      ⟨reserved, size ▸ aligned⟩, ⟨selector, selected⟩, demands begun.header⟩
  refine ⟨(begun.withSlot slot).refreshed, ?_⟩
  simp only [build, bind_eq_ok_iff, pure_eq_ok_iff, Edit.result_eq_ok_iff, exists_unit_iff,
    Edit.bind_eq_ok_iff]
  exact ⟨_, ⟨begun, ran, filled⟩, fine, rfl⟩

end ChainEntry

namespace Signature

variable {signature : Signature}

/-- The signature is laid out as every signature that is built or read. -/
def Standard (signature : Signature) : Prop :=
  signature.buffer.Follows ((Buffer.empty none).withMagic Magic.signature 0)

theorem standard_ofComponents {r s : Bytes} (ran : ofComponents r s = .ok signature) :
    signature.Standard := by
  simp only [ofComponents, fillIn, bind_eq_ok_iff, pure_eq_ok_iff, Edit.result_eq_ok_iff,
    Edit.bind_eq_ok_iff, Edit.change_eq_ok_iff] at ran
  obtain ⟨-, -, buffer, ⟨_, _, cleared, reset, _, b2, first, _, b3, second, _, b4, third, _, b5,
    fourth, fifth⟩, rfl⟩ := ran
  have blank := Buffer.Follows.self ((Buffer.empty none).withMagic Magic.signature 0)
    (by simp [Buffer.empty, Buffer.withMagic])
  exact (((((blank.reset reset).setWord first).setWord second).setWord third).setRaw fourth).setRaw
    fifth

theorem ofBytes_eq_ok_iff {bytes : Bytes} :
    ofBytes bytes = .ok signature ↔
      signature.Standard ∧ signature.toBytes = bytes ∧ signature.validate = .ok () := by
  simp only [ofBytes, Buffer.create, bind_eq_ok_iff, exists_unit_iff, pure_eq_ok_iff,
    checkBound_eq_ok_iff]
  constructor
  · rintro ⟨_, ⟨-, rfl⟩, valid, rfl⟩
    exact ⟨⟨rfl, by simp [Buffer.empty, Buffer.withMagic]⟩, rfl, valid⟩
  · rintro ⟨⟨layout, -⟩, rfl, valid⟩
    obtain ⟨buffer⟩ := signature
    have same : ({ Buffer.empty none with bytes := toBytes ⟨buffer⟩ } : Buffer).withMagic
        Magic.signature 0 = buffer := layout.symm
    refine ⟨_, ⟨by simp, rfl⟩, ?_⟩
    rw [same]
    exact ⟨valid, rfl⟩

/-- A valid signature is found in a slot that holds its bytes. -/
theorem ofSlot_toBytes (standard : signature.Standard) (valid : signature.validate = .ok ()) :
    ofSlot signature.toBytes = .ok (some signature) := by
  have signed : ¬ Bytes.allZero signature.toBytes = true := by
    intro zeros
    have checked := valid
    simp only [validate, bind_eq_ok_iff, exists_unit_iff] at checked
    obtain ⟨-, stand, -⟩ := Buffer.validate_eq_ok_iff.mp checked.1
    rw [standard.magics] at stand
    obtain ⟨long, magic⟩ := stand (Magic.signature, 0) (List.mem_singleton_self _)
    exact absurd (magic.symm.trans (Bytes.wordAt_of_allZero zeros long)) (by decide)
  rw [ofSlot, if_neg signed, bind_of_ok (ofBytes_eq_ok_iff.mpr ⟨standard, rfl, valid⟩)]
  rfl

end Signature

namespace ChainEntry

variable {entry : ChainEntry} {slot : Bytes}

/-- What storing a signature makes of an entry. -/
structure Signed (entry : ChainEntry) (signature : Signature) (changed : ChainEntry) : Prop where
  slot : changed.slot.bytes = signature.toBytes
  data : changed.data = entry.data
  length : changed.header.size = entry.header.size
  magic : Bytes.wordAt changed.header.bytes 0 = Bytes.wordAt entry.header.bytes 0
  tail : changed.header.bytes.drop reservedOffset = entry.header.bytes.drop reservedOffset
  announces : changed.Announces
  parsed : signature.Standard → signature.validate = .ok () →
    changed.signature = .ok (some signature)
  valid : changed.validate = .ok () ↔ changed.size % 8 = 0
  settled : update changed = .ok () changed

/-- Entries that take a signature do not look at their slot. -/
theorem validateKind_withSlot (unsigned : entry.kind.isRoot = false) :
    (entry.withSlot slot).validateKind = entry.validateKind := by
  obtain ⟨header, data, old⟩ := entry
  cases data with
  | root | multiRoot => cases unsigned
  | publicKey | block0 => rfl

theorem Signed.of_refreshed {signature : Signature} (headed : entry.Headed)
    (valid : entry.validate = .ok ()) (unsigned : entry.kind.isRoot = false)
    (small : (entry.withSlot signature.toBytes).size < 2 ^ 32) :
    entry.Signed signature (entry.withSlot signature.toBytes).refreshed := by
  have whole : entry.header.size = Size.entryHeader := header_size headed valid
  have room : reservedOffset ≤ entry.header.size := by
    rw [whole]
    decide
  have headedToo : (entry.withSlot signature.toBytes).Headed := headed
  have refreshes : update (entry.withSlot signature.toBytes) =
      .ok () (entry.withSlot signature.toBytes).refreshed :=
    headedToo.update_eq_refreshed_iff.mpr ⟨room, small, rfl⟩
  obtain ⟨⟨-, validData, -⟩, measured, selected, kind⟩ := validate_eq_ok_iff.mp valid
  refine ⟨rfl, rfl, header_size_refreshed room, ?_, drop_refreshed _, announces_refreshed room small,
    Signature.ofSlot_toBytes, ?_, headedToo.update_again refreshes⟩
  · rw [magic_refreshed, header_magic headed valid]
    rfl
  · have size : (entry.withSlot signature.toBytes).refreshed.size =
        (entry.withSlot signature.toBytes).size := size_refreshed room
    rw [validate_refreshed_iff headedToo whole small, validateKind_withSlot unsigned, size]
    constructor
    · rintro ⟨-, ⟨-, aligned⟩, -⟩
      exact aligned
    · intro aligned
      exact ⟨⟨validData, Buffer.validate_unbounded _⟩, ⟨measured.reserved, aligned⟩, selected, kind⟩

theorem Signed.size {signature : Signature} {changed : ChainEntry}
    (signed : entry.Signed signature changed) :
    changed.size = entry.header.size + Fragment.size entry.data + signature.size := by
  have slot : changed.slot.size = signature.size := congrArg List.length signed.slot
  rw [size_eq, signed.length, signed.data, slot, Nat.add_assoc]

/-- Root entries refuse a signature and stay as they are. A valid entry of another kind takes every
signature with which it can still state its size, and changes in the slot and the length words only. -/
theorem setSignature_of_valid (headed : entry.Headed) (valid : entry.validate = .ok ())
    (signature : Signature) :
    (entry.kind.isRoot = true →
        setSignature signature entry = .error (.invalidField .rootEntrySigned) entry) ∧
      (entry.kind.isRoot = false →
        ((∃ changed, setSignature signature entry = .ok () changed) ↔
            entry.header.size + Fragment.size entry.data + signature.size < 2 ^ 32) ∧
          ∀ changed, setSignature signature entry = .ok () changed →
            entry.Signed signature changed) := by
  refine ⟨fun root => ?_, fun unsigned => ?_⟩
  · have refused : Edit.ask (fun entry : ChainEntry =>
        require (entry.kind.isRoot = false) (.invalidField .rootEntrySigned)) entry =
          .error (.invalidField .rootEntrySigned) entry := by
      simp only [Edit.ask, require, root, Bool.true_eq_false, if_false]
    rw [setSignature, Edit.bind_of_error refused]
  · have room : reservedOffset ≤ entry.header.size := by
      rw [header_size headed valid]
      decide
    have takes {changed : ChainEntry} : setSignature signature entry = .ok () changed ↔
        (entry.withSlot signature.toBytes).size < 2 ^ 32 ∧
          (entry.withSlot signature.toBytes).refreshed = changed := by
      rw [setSignature_eq_ok_iff, headed.fillSlot_eq_ok_iff]
      simp only [unsigned, room, true_and]
    refine ⟨?_, fun changed stored => ?_⟩
    · simp only [takes, exists_and_left, exists_eq', and_true, size_withSlot]
      exact Iff.rfl
    · obtain ⟨small, rfl⟩ := takes.mp stored
      exact .of_refreshed headed valid unsigned small

/-- A block0 entry and a signature for it. -/
def unsignedBlock0 : Except Failure (ChainEntry × Signature) := do
  return (← block0 .intel, ← Signature.ofComponents (Bytes.zeros 48) (Bytes.zeros 48))

theorem setSignature_of_valid_block0 :
    ∃ entry signature changed, unsignedBlock0 = .ok (entry, signature) ∧ entry.Headed ∧
      entry.validate = .ok () ∧ setSignature signature entry = .ok () changed ∧
      entry.Signed signature changed ∧ changed.signature = .ok (some signature) ∧
      changed.validate = .ok () := by
  have there : (unsignedBlock0.toOption.map fun (entry, signature) =>
      (signature.validate, entry.header.size + Fragment.size entry.data + signature.size)) =
        some (.ok (), 136) := by decide +kernel
  obtain ⟨⟨entry, signature⟩, built, seen⟩ := exists_of_map_eq_some there
  have made := built
  simp only [unsignedBlock0, bind_eq_ok_iff, pure_eq_ok_iff, Prod.mk.injEq] at made
  obtain ⟨begun, closes, given, gives, rfl, rfl⟩ := made
  obtain ⟨validSignature, sized⟩ := Prod.mk.inj seen
  obtain ⟨standard, valid, data, -⟩ := standard_block0 closes
  have unsigned : begun.kind.isRoot = false := by
    rw [kind, data]
    rfl
  obtain ⟨stores, signs⟩ := (setSignature_of_valid standard.header valid given).2 unsigned
  obtain ⟨changed, stored⟩ := stores.mpr (sized ▸ by decide)
  have signed := signs changed stored
  refine ⟨begun, given, changed, built, standard.header, valid, stored, signed,
    signed.parsed (Signature.standard_ofComponents gives) validSignature, signed.valid.mpr ?_⟩
  rw [signed.size, sized]

end ChainEntry
end SecureBoot
