import SecureBoot.Header.Certificate
import SecureBoot.Proofs.Span

/-!
Headers of sections and certificates. A header is `Standard` when its buffer carries the
registrations that every header is built with; such a header is reset and refreshed to a valid one,
and is what is read from its own bytes.
-/

namespace SecureBoot

/-- A full header whose magic numbers stand before its checksum is refreshed to a valid one. -/
theorem Buffer.updateCrc_header {buffer : Buffer} (limit : buffer.limit = some Size.header)
    (whole : buffer.size = Size.header) (crcs : buffer.crcAddresses = [SectionHeader.crcOffset])
    (stand : buffer.HasMagics buffer.magics)
    (before : ∀ magic ∈ buffer.magics, magic.2 + 4 ≤ SectionHeader.crcOffset) :
    ∃ changed, updateCrc buffer = .ok () changed ∧ changed.size = Size.header ∧
      changed.validate = .ok () ∧
      ∀ start, start + 4 ≤ SectionHeader.crcOffset →
        changed.getWord start = buffer.getWord start := by
  have inside : ∀ address ∈ buffer.crcAddresses, address + 4 ≤ buffer.size := by
    rw [crcs, whole, List.forall_mem_singleton]
    decide
  have apart : buffer.crcAddresses.Pairwise Apart := by
    rw [crcs]
    exact List.pairwise_singleton _ _
  have beside : ∀ magic ∈ buffer.magics, ∀ address ∈ buffer.crcAddresses, Apart magic.2 address := by
    rw [crcs]
    exact fun magic member address here => .inl (List.mem_singleton.mp here ▸ before magic member)
  have ready : buffer.Ready := ⟨by simp [limit, whole], stand, inside, apart, beside⟩
  obtain ⟨changed, ran, valid⟩ := ready.updateCrc_exists
  refine ⟨changed, ran, (size_updateCrc ran).trans whole, valid, fun start front => ?_⟩
  refine getWord_updateCrc ran ?_
  rw [crcs, List.forall_mem_singleton]
  exact .inl front

instance : Fragment.Lawful SectionHeader :=
  Buffered.lawful fun _ => rfl

instance : Fragment.Lawful CertificateHeader :=
  Buffered.lawful fun _ => rfl

namespace SectionHeader

variable {header changed : SectionHeader} {length : UInt32} {answer : Unit}

theorem validate_eq_ok_iff :
    header.validate = .ok answer ↔ header.size = Size.header ∧ header.buffer.validate = .ok () := by
  simp only [validate, bind_eq_ok_iff, require_eq_ok_iff, exists_unit_iff]

theorem setSectionLength_eq_ok_iff :
    header.setSectionLength length = .ok changed ↔
      ∃ buffer, header.buffer.setWord length sectionLengthOffset = .ok buffer ∧ ⟨buffer⟩ = changed := by
  simp only [setSectionLength, bind_eq_ok_iff, pure_eq_ok_iff]

theorem update_eq_ok_iff :
    Fragment.update header = .ok answer changed ↔
      ∃ buffer, Buffer.updateCrc header.buffer = .ok answer buffer ∧ ⟨buffer⟩ = changed :=
  Edit.within_eq_ok_iff

/-- The registrations are those of a header that is to be read. -/
def Standard (header : SectionHeader) : Prop :=
  header.buffer.Follows empty.buffer

/-- The header as it is read from its own bytes. -/
def reread (header : SectionHeader) : SectionHeader :=
  ⟨{ empty.buffer with bytes := header.buffer.bytes }⟩

theorem Standard.reread (standard : header.Standard) : header.reread = header := by
  rw [SectionHeader.reread, ← Buffer.Follows.layout standard]

theorem Standard.setSectionLength (standard : header.Standard)
    (ran : header.setSectionLength length = .ok changed) : changed.Standard := by
  obtain ⟨buffer, stored, rfl⟩ := setSectionLength_eq_ok_iff.mp ran
  exact Buffer.Follows.setWord standard stored

theorem Standard.update (standard : header.Standard)
    (ran : Fragment.update header = .ok answer changed) : changed.Standard := by
  obtain ⟨buffer, stored, rfl⟩ := update_eq_ok_iff.mp ran
  exact Buffer.Follows.updateCrc standard stored

/-- A full header whose magic number stands is refreshed to a valid one. -/
theorem Standard.update_exists (standard : header.Standard) (whole : header.size = Size.header)
    (stand : header.buffer.HasMagics empty.buffer.magics) :
    ∃ changed, Fragment.update header = .ok () changed ∧ changed.validate = .ok () := by
  have magics := Buffer.Follows.magics standard
  obtain ⟨buffer, ran, size, valid, -⟩ := Buffer.updateCrc_header
    (Buffer.Follows.limit standard) whole (Buffer.Follows.crcAddresses standard)
    (magics ▸ stand) (by rw [magics]; decide)
  exact ⟨⟨buffer⟩, update_eq_ok_iff.mpr ⟨buffer, ran, rfl⟩, validate_eq_ok_iff.mpr ⟨size, valid⟩⟩

/-- The length of the payload stands behind the magic numbers and before the checksums. -/
structure SparesLength (header : SectionHeader) : Prop where
  magics : ∀ magic ∈ header.buffer.magics, magic.2 + 4 ≤ sectionLengthOffset
  crcs : ∀ address ∈ header.buffer.crcAddresses, sectionLengthOffset + 4 ≤ address
  apart : header.buffer.crcAddresses.Pairwise Buffer.Apart

theorem sparesLength_of_registers (registers : header.buffer.Registers empty.buffer) :
    header.SparesLength where
  magics := by
    rw [registers.magics]
    decide
  crcs := by
    rw [registers.crcAddresses]
    decide
  apart := by
    rw [registers.crcAddresses]
    exact List.pairwise_singleton _ _

theorem Standard.sparesLength (standard : header.Standard) : header.SparesLength :=
  sparesLength_of_registers (Buffer.Follows.registers standard)

/-- A valid header that spares the length of the payload is given any length and refreshed. -/
theorem measure_exists (valid : header.validate = .ok ()) (spares : header.SparesLength)
    (length : UInt32) :
    ∃ measured refreshed, header.setSectionLength length = .ok measured ∧
      Fragment.update measured = .ok () refreshed ∧ refreshed.validate = .ok () ∧
      refreshed.sectionLength = .ok length ∧
      ∀ start, start + 4 ≤ sectionLengthOffset →
        refreshed.buffer.getWord start = header.buffer.getWord start := by
  obtain ⟨whole, checked⟩ := validate_eq_ok_iff.mp valid
  have fits : sectionLengthOffset + 4 ≤ header.buffer.size := by
    rw [show header.buffer.size = Size.header from whole]
    decide
  have away (start : Nat) (before : start ≤ sectionLengthOffset) :
      ∀ address ∈ header.buffer.crcAddresses, Buffer.Apart start address := fun address member =>
    .inl (Nat.le_trans (Nat.add_le_add_right before 4) (spares.crcs address member))
  have front (magic : UInt32 × Nat) (member : magic ∈ header.buffer.magics) :
      magic.2 ≤ sectionLengthOffset :=
    Nat.le_trans (Nat.le_add_right _ 4) (spares.magics magic member)
  have ready : header.buffer.Ready := .of_valid checked
    ⟨spares.apart, fun magic member => away magic.2 (front magic member)⟩
  obtain ⟨measured, refreshed, stores, refreshes, validToo, same, word, kept⟩ :=
    ready.rewrite_exists fits (fun magic member => .inl (spares.magics magic member))
      (away _ (Nat.le_refl _)) length
  exact ⟨⟨measured⟩, ⟨refreshed⟩, setSectionLength_eq_ok_iff.mpr ⟨measured, stores, rfl⟩,
    update_eq_ok_iff.mpr ⟨refreshed, refreshes, rfl⟩,
    validate_eq_ok_iff.mpr ⟨same.trans whole, validToo⟩, word, fun start before =>
      Buffer.getWord_congr (kept start 4 (.inl before)
        (away start (Nat.le_trans (Nat.le_add_right _ 4) before)))⟩

/-- A new header is valid. -/
theorem reset_exists (sectionType : UInt32) :
    ∃ header, (reset sectionType).result empty = .ok header ∧ header.Standard ∧
      header.validate = .ok () := by
  have blank : empty.buffer.Follows empty.buffer := .self _ fun _ _ => Nat.zero_le _
  have most : ∀ limit, empty.buffer.limit = some limit → Size.header ≤ limit :=
    fun limit bounded => Nat.le_of_eq (Option.some.inj bounded)
  obtain ⟨cleared, ran, size, stand, -⟩ :=
    Buffer.reset_exists most (by decide) (List.pairwise_singleton _ _)
  obtain ⟨typed, stored⟩ : ∃ typed, cleared.setWord sectionType sectionTypeOffset = .ok typed :=
    ⟨_, Buffer.setWord_eq_ok_iff.mpr ⟨by rw [size]; decide, rfl⟩⟩
  have standard : (⟨typed⟩ : SectionHeader).Standard := (blank.reset ran).setWord stored
  have beside : ∀ magic ∈ empty.buffer.magics, magic.2 + 4 ≤ sectionTypeOffset ∨
      sectionTypeOffset + (Bytes.ofWord sectionType).length ≤ magic.2 := by
    rw [Bytes.length_ofWord]
    decide
  obtain ⟨header, refreshed, valid⟩ :=
    standard.update_exists ((Buffer.size_setRaw stored).trans size) (stand.setRaw stored beside)
  refine ⟨header, ?_, standard.update refreshed, valid⟩
  obtain ⟨sealed, refreshes, rfl⟩ := update_eq_ok_iff.mp refreshed
  rw [Edit.result_eq_ok_iff, reset]
  refine ⟨(), Edit.within_eq_ok_iff.mpr ⟨sealed, ?_, rfl⟩⟩
  rw [show Buffered.buffer empty = empty.buffer from rfl, Edit.bind_of_ok ran,
    Edit.bind_of_ok (Edit.change_of_ok stored)]
  exact refreshes

end SectionHeader

theorem Text.HexNumber.length_toField {text : String} {size : Nat} {bytes : Bytes}
    (ran : toField text size .little = .ok bytes) : bytes.length = size := by
  simp only [toField, bind_eq_ok_iff, require_eq_ok_iff, exists_unit_iff] at ran
  obtain ⟨-, ran⟩ := ran
  split at ran <;>
    simp only [bind_eq_ok_iff, require_eq_ok_iff, exists_unit_iff, pure_eq_ok_iff] at ran
  next =>
    obtain ⟨_, -, fits, rfl⟩ := ran
    rw [Endian.arrange, List.length_append, List.length_reverse, Bytes.length_zeros]
    exact Nat.add_sub_cancel' fits
  next =>
    obtain ⟨_, failed, -⟩ := ran
    cases failed

namespace CertificateHeader

variable {header changed : CertificateHeader} {uid hmac keyHash : String} {answer : Unit}

theorem validate_eq_ok_iff :
    header.validate = .ok answer ↔ header.size = Size.header ∧ header.buffer.validate = .ok () ∧
      header.buffer.getWord SectionHeader.sectionTypeOffset = .ok Magic.certificateSection := by
  simp only [validate, bind_eq_ok_iff, require_eq_ok_iff, exists_unit_iff, exists_eq_right]

theorem update_eq_ok_iff :
    Fragment.update header = .ok answer changed ↔
      ∃ buffer, Buffer.updateCrc header.buffer = .ok answer buffer ∧ ⟨buffer⟩ = changed :=
  Edit.within_eq_ok_iff

/-- The registrations are those of a header that is to be read. -/
def Standard (header : CertificateHeader) : Prop :=
  header.buffer.Follows empty.buffer

theorem Standard.update (standard : header.Standard)
    (ran : Fragment.update header = .ok answer changed) : changed.Standard := by
  obtain ⟨buffer, stored, rfl⟩ := update_eq_ok_iff.mp ran
  exact Buffer.Follows.updateCrc standard stored

/-- Refreshing leaves a valid header alone. -/
theorem update_of_valid (valid : header.validate = .ok ()) :
    Fragment.update header = .ok () header := by
  obtain ⟨-, checked, -⟩ := validate_eq_ok_iff.mp valid
  obtain ⟨-, -, matching⟩ := Buffer.validate_eq_ok_iff.mp checked
  exact update_eq_ok_iff.mpr ⟨_, Buffer.updateCrc_of_hasCrcs matching, rfl⟩

/-- The header of a device is valid. -/
theorem reset_exists {device code hash : Bytes}
    (deviceField : Text.HexNumber.toField uid uidSize .little = .ok device)
    (codeField : Text.HexNumber.toField hmac hmacSize .little = .ok code)
    (hashField : Text.HexNumber.toField keyHash keyHashSize .little = .ok hash) :
    ∃ header, (reset uid hmac keyHash).result empty = .ok header ∧ header.Standard ∧
      header.validate = .ok () := by
  have devices := Text.HexNumber.length_toField deviceField
  have codes := Text.HexNumber.length_toField codeField
  have hashes := Text.HexNumber.length_toField hashField
  have blank : empty.buffer.Follows empty.buffer := .self _ fun _ _ => Nat.zero_le _
  have most : ∀ limit, empty.buffer.limit = some limit → Size.header ≤ limit :=
    fun limit bounded => Nat.le_of_eq (Option.some.inj bounded)
  have apart : empty.buffer.magics.Pairwise fun first second => Buffer.Apart first.2 second.2 := by
    simp [empty, Buffer.withDescription, Buffer.withCrc, Buffer.withMagic, Buffer.empty,
      Buffer.Apart, Buffer.Beside, magicOffset]
  obtain ⟨cleared, ran, size, stand, -⟩ := Buffer.reset_exists most (by decide) apart
  obtain ⟨typed, storeType⟩ : ∃ typed, cleared.setWord Magic.certificateSection
      SectionHeader.sectionTypeOffset = .ok typed :=
    ⟨_, Buffer.setWord_eq_ok_iff.mpr ⟨by rw [size]; decide, rfl⟩⟩
  have typedSize := (Buffer.size_setRaw storeType).trans size
  obtain ⟨named, storeDevice⟩ : ∃ named, typed.setRaw device uidOffset = .ok named :=
    ⟨_, Buffer.setRaw_eq_ok_iff.mpr ⟨by rw [typedSize, devices]; decide, rfl⟩⟩
  have namedSize := (Buffer.size_setRaw storeDevice).trans typedSize
  obtain ⟨coded, storeCode⟩ : ∃ coded, named.setRaw code hmacOffset = .ok coded :=
    ⟨_, Buffer.setRaw_eq_ok_iff.mpr ⟨by rw [namedSize, codes]; decide, rfl⟩⟩
  have codedSize := (Buffer.size_setRaw storeCode).trans namedSize
  obtain ⟨hashed, storeHash⟩ : ∃ hashed, coded.setRaw hash keyHashOffset = .ok hashed :=
    ⟨_, Buffer.setRaw_eq_ok_iff.mpr ⟨by rw [codedSize, hashes]; decide, rfl⟩⟩
  have hashedSize := (Buffer.size_setRaw storeHash).trans codedSize
  have follows : hashed.Follows empty.buffer :=
    ((((blank.reset ran).setWord storeType).setRaw storeDevice).setRaw storeCode).setRaw storeHash
  have beside : ∀ magic ∈ empty.buffer.magics,
      magic.2 + 4 ≤ SectionHeader.sectionTypeOffset ∨
        SectionHeader.sectionTypeOffset + (Bytes.ofWord Magic.certificateSection).length ≤
          magic.2 := by decide
  have before (offset count : Nat) (behind : uidOffset ≤ offset) :
      ∀ magic ∈ empty.buffer.magics, magic.2 + 4 ≤ offset ∨ offset + count ≤ magic.2 := by
    have front : ∀ magic ∈ empty.buffer.magics, magic.2 + 4 ≤ uidOffset := by decide
    exact fun magic member => .inl (Nat.le_trans (front magic member) behind)
  have stood := (((stand.setRaw storeType beside).setRaw storeDevice
    (before _ _ (by decide))).setRaw storeCode (before _ _ (by decide))).setRaw storeHash
      (before _ _ (by decide))
  have word : hashed.getWord SectionHeader.sectionTypeOffset = .ok Magic.certificateSection := by
    rw [Buffer.getWord_setRaw storeHash (.inl (by decide)),
      Buffer.getWord_setRaw storeCode (.inl (by decide)),
      Buffer.getWord_setRaw storeDevice (.inl (by decide)), Buffer.getWord_setWord storeType]
  have magics := follows.magics
  obtain ⟨sealed, refreshes, whole, valid, kept⟩ := Buffer.updateCrc_header follows.limit hashedSize
    follows.crcAddresses (magics ▸ stood) (by rw [magics]; decide)
  refine ⟨⟨sealed⟩, ?_, follows.updateCrc refreshes,
    validate_eq_ok_iff.mpr ⟨whole, valid, (kept _ (by decide)).trans word⟩⟩
  rw [Edit.result_eq_ok_iff, reset]
  simp only [Edit.bind_eq_ok_iff, Edit.ask_eq_ok_iff]
  refine ⟨(), device, _, ⟨deviceField, rfl⟩, code, _, ⟨codeField, rfl⟩, hash, _, ⟨hashField, rfl⟩,
    Edit.within_eq_ok_iff.mpr ⟨sealed, ?_, rfl⟩⟩
  rw [show Buffered.buffer empty = empty.buffer from rfl, Edit.bind_of_ok ran,
    Edit.bind_of_ok (Edit.change_of_ok storeType), Edit.bind_of_ok (Edit.change_of_ok storeDevice),
    Edit.bind_of_ok (Edit.change_of_ok storeCode), Edit.bind_of_ok (Edit.change_of_ok storeHash)]
  exact refreshes

end CertificateHeader
end SecureBoot
