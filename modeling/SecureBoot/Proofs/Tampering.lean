import SecureBoot.Proofs.Checksum
import SecureBoot.Proofs.Dispatch
import SecureBoot.Proofs.ContainerUpkeep

/-!
Tampering with a configuration. Every header and every signature descriptor is a block of 4 KiB that
ends with the checksum of the rest, and where the blocks begin is told by words of earlier blocks. So
in bytes that were changed only inside one block the parser looks for this block at the same place,
finds the same checksum behind it, and refuses a change that the checksum tells.
-/

namespace SecureBoot

namespace Bytes

variable {bytes other front part back : Bytes} {start width block offset size : Nat}

/-- Bytes of one length that are the same outside a window. -/
structure AgreeBeside (bytes other : Bytes) (start width : Nat) : Prop where
  length : other.length = bytes.length
  beside : ∀ index, index < start ∨ start + width ≤ index → other[index]? = bytes[index]?

namespace AgreeBeside

theorem slice (agree : bytes.AgreeBeside other start width)
    (away : offset + size ≤ start ∨ start + width ≤ offset) :
    Bytes.slice other offset size = Bytes.slice bytes offset size := by
  apply List.ext_getElem?
  intro index
  rw [getElem?_slice, getElem?_slice]
  by_cases inside : index < size
  · rw [if_pos inside, if_pos inside]
    exact agree.beside _ (by omega)
  · rw [if_neg inside, if_neg inside]

theorem wordAt (agree : bytes.AgreeBeside other start width)
    (away : offset + 4 ≤ start ∨ start + width ≤ offset) :
    Bytes.wordAt other offset = Bytes.wordAt bytes offset := by
  rw [Bytes.wordAt, Bytes.wordAt, agree.slice away]

theorem eq_of_slice (agree : bytes.AgreeBeside other start width)
    (same : Bytes.slice other start width = Bytes.slice bytes start width) : other = bytes := by
  apply List.ext_getElem?
  intro index
  by_cases inside : start ≤ index ∧ index < start + width
  · have shown := congrArg (·[index - start]?) same
    simp only [getElem?_slice] at shown
    rwa [if_pos (by omega), if_pos (by omega), Nat.add_sub_cancel' inside.1] at shown
  · exact agree.beside index (by omega)

/-- A checksum tells a change of up to four bytes in a row of what it covers. -/
theorem eq_of_crc32 (agree : bytes.AgreeBeside other start width) (narrow : width ≤ 4)
    (room : offset + size ≤ bytes.length) (before : offset ≤ start)
    (behind : start + width ≤ offset + size)
    (sums : crc32 (Bytes.slice other offset size) = crc32 (Bytes.slice bytes offset size)) :
    other = bytes := by
  have cut (bytes : Bytes) : Bytes.slice bytes offset size =
      Bytes.slice bytes offset (start - offset) ++ (Bytes.slice bytes start width ++
        Bytes.slice bytes (start + width) (offset + size - (start + width))) := by
    rw [slice_append_slice, ← Nat.add_sub_cancel' before, Nat.add_sub_cancel_left,
      slice_append_slice]
    congr 1
    omega
  have long : (Bytes.slice other start width).length = width := by
    apply length_slice
    rw [agree.length]
    omega
  have longToo : (Bytes.slice bytes start width).length = width := length_slice (by omega)
  rw [cut other, cut bytes, agree.slice (.inl (by omega)), agree.slice (.inr (Nat.le_refl _))] at sums
  exact agree.eq_of_slice (crc32_burst (long.trans longToo.symm) (long.trans_le narrow) sums)

/-- Writing a patch is a change inside the window it is written to. -/
theorem splice {patch : Bytes} (inside : offset + patch.length ≤ bytes.length) :
    bytes.AgreeBeside (Bytes.splice bytes offset patch) offset patch.length := by
  have room : offset ≤ bytes.length := Nat.le_of_add_right_le inside
  exact ⟨length_splice inside, fun index outside => getElem?_splice_of_outside room outside⟩

end AgreeBeside

/-- How much of a block of 4 KiB its checksum covers: all but the checksum. -/
def covered : Nat := 0xFFC

/-- A block of 4 KiB ends with the checksum of the rest of it. -/
structure SealedAt (bytes : Bytes) (block : Nat) : Prop where
  inside : block + Size.header ≤ bytes.length
  checksum : wordAt bytes (block + covered) = crc32 (slice bytes block covered)

theorem SealedAt.within (stands : part.SealedAt block) (front back : Bytes) :
    (front ++ (part ++ back)).SealedAt (front.length + block) := by
  have inside := stands.inside
  have room : block + covered + 4 ≤ part.length := inside
  refine ⟨by simp only [List.length_append]; omega, ?_⟩
  rw [wordAt_append_right (by omega), slice_append_right (by omega),
    show front.length + block + covered - front.length = block + covered by omega,
    Nat.add_sub_cancel_left, wordAt_append_left room, slice_append_left (by omega)]
  exact stands.checksum

/-- Up to four bytes of what a checksum covers are not changed without changing the checksum. -/
theorem SealedAt.eq_of_agreeBeside (stands : bytes.SealedAt block) (standsToo : other.SealedAt block)
    (agree : bytes.AgreeBeside other start width) (narrow : width ≤ 4) (before : block ≤ start)
    (behind : start + width ≤ block + covered) : other = bytes := by
  have room : block + covered ≤ bytes.length :=
    Nat.le_trans (Nat.add_le_add_left (by decide) block) stands.inside
  have sums := stands.checksum
  rw [← agree.wordAt (.inr behind), standsToo.checksum] at sums
  exact agree.eq_of_crc32 narrow room before behind sums

end Bytes

open Bytes (covered)

/-- A valid buffer of 4 KiB with a checksum registered at its end is such a block. -/
theorem Buffer.sealedAt {buffer : Buffer} (whole : buffer.size = Size.header)
    (valid : buffer.validate = .ok ()) (closed : covered ∈ buffer.crcAddresses) :
    buffer.bytes.SealedAt 0 := by
  obtain ⟨-, -, matching⟩ := validate_eq_ok_iff.mp valid
  refine ⟨by rw [Nat.zero_add]; exact Nat.le_of_eq whole.symm, ?_⟩
  rw [Nat.zero_add, Bytes.slice_zero]
  exact (matching covered closed).2

theorem SignatureDescriptor.Standard.sealedAt {descriptor : SignatureDescriptor}
    (standard : descriptor.Standard) (valid : descriptor.validate = .ok ()) :
    (Fragment.toBytes descriptor).SealedAt 0 := by
  obtain ⟨header, -, table, -⟩ := (standard.steady valid).sizes valid
  obtain ⟨whole, -, -, crc, computed, stored⟩ := validate_eq_ok_iff.mp valid
  obtain ⟨-, covers⟩ := computedCrc_eq_ok_iff.mp computed
  obtain ⟨-, states⟩ := Buffer.getWord_eq_ok_iff.mp stored
  have front : descriptor.header.bytes.length + (Fragment.toBytes descriptor.table).length =
      covered := by
    rw [Fragment.Lawful.length_toBytes]
    exact (congrArg₂ (· + ·) header table).trans rfl
  refine ⟨?_, ?_⟩
  · rw [Fragment.Lawful.length_toBytes, Nat.zero_add]
    exact Nat.le_of_eq whole.symm
  · rw [Nat.zero_add, Bytes.slice_zero]
    refine Eq.trans ?_ covers.symm
    rw [toBytes_eq, ← List.append_assoc, Bytes.wordAt_append_right, List.length_append, front,
      Nat.sub_self, states]
    rw [List.length_append, front]

namespace Section

variable {sect : Section} {before others : List Section} {tail rest : Bytes}

theorem Standard.sealedAt (standard : sect.Standard) (valid : sect.validate = .ok ()) :
    (Fragment.toBytes sect).SealedAt 0 ∧ (Fragment.toBytes sect).SealedAt Size.header := by
  obtain ⟨⟨validHeader, validSignatures, -⟩, -⟩ := validate_eq_ok_iff.mp valid
  obtain ⟨whole, checked⟩ := SectionHeader.validate_eq_ok_iff.mp validHeader
  have closed : covered ∈ sect.header.buffer.crcAddresses := by
    rw [Buffer.Follows.crcAddresses standard.header]
    exact List.mem_singleton_self _
  have first := (Buffer.sealedAt whole checked closed).within []
    (Fragment.toBytes sect.signatures ++ sect.payload.bytes)
  have second := (standard.signatures.sealedAt validSignatures).within sect.header.buffer.bytes
    sect.payload.bytes
  rw [show sect.header.buffer.bytes.length = Size.header from whole] at second
  rw [toBytes_eq]
  exact ⟨first, second⟩

/-- The size of a valid section is told by its fifth word. -/
theorem size_of_valid (valid : sect.validate = .ok ()) :
    Fragment.size sect = Size.header + (Size.signatureDescriptor +
      (Bytes.wordAt (Fragment.toBytes sect) SectionHeader.sectionLengthOffset).toNat) := by
  obtain ⟨⟨validHeader, validSignatures, -⟩, -, length, stated, exact⟩ :=
    validate_eq_ok_iff.mp valid
  obtain ⟨inside, word⟩ := Buffer.getWord_eq_ok_iff.mp stated
  have filled := (SignatureDescriptor.validate_eq_ok_iff.mp validSignatures).1
  have size : Fragment.size sect = sect.header.size + (Composite.size sect.signatures +
    sect.payload.size) := size_eq sect
  rw [size, (SectionHeader.validate_eq_ok_iff.mp validHeader).1, filled, toBytes_eq,
    Bytes.wordAt_append_left inside, word, exact]

/-- As many valid sections take as much space if they agree as far as the first of them reach. -/
theorem totalSize_eq (fine : ∀ sect ∈ before, sect.validate = .ok ())
    (fineToo : ∀ sect ∈ others, sect.validate = .ok ()) (many : others.length = before.length)
    (same : (others.flatMap Fragment.toBytes ++ rest).take (Fragment.totalSize before) =
      (before.flatMap Fragment.toBytes ++ tail).take (Fragment.totalSize before)) :
    Fragment.totalSize others = Fragment.totalSize before := by
  induction before generalizing others with
  | nil =>
    rw [List.eq_nil_of_length_eq_zero many]
  | cons first later ih =>
    cases others with
    | nil => cases many
    | cons second more =>
      obtain ⟨valid, fine⟩ := List.forall_mem_cons.mp fine
      obtain ⟨validToo, fineToo⟩ := List.forall_mem_cons.mp fineToo
      simp only [List.flatMap_cons, List.append_assoc, Fragment.totalSize] at same ⊢
      have length := Fragment.Lawful.length_toBytes first
      have lengthToo := Fragment.Lawful.length_toBytes second
      have long : SectionHeader.sectionLengthOffset + 4 ≤ Fragment.size first := by
        rw [← length]
        exact Nat.le_trans (by decide) (header_le valid)
      have longToo : SectionHeader.sectionLengthOffset + 4 ≤ Fragment.size second := by
        rw [← lengthToo]
        exact Nat.le_trans (by decide) (header_le validToo)
      have word := congrArg (Bytes.wordAt · SectionHeader.sectionLengthOffset) same
      simp only [Bytes.wordAt_take (Nat.le_add_right_of_le long)] at word
      rw [Bytes.wordAt_append_left (lengthToo ▸ longToo), Bytes.wordAt_append_left (length ▸ long)]
        at word
      have size : Fragment.size second = Fragment.size first := by
        rw [size_of_valid valid, size_of_valid validToo, word]
      have behind := congrArg (List.drop (Fragment.size first)) same
      rw [List.drop_take, List.drop_take, List.drop_left' (lengthToo.trans size),
        List.drop_left' length, Nat.add_sub_cancel_left] at behind
      rw [size, ih fine fineToo (Nat.succ.inj many) behind]

end Section

namespace Configuration

variable {configuration other : Configuration} {bytes : Bytes} {block start width : Nat}

/-- Where the sections begin. -/
def sectionsOffset : Nat := Size.header + Size.signatureDescriptor

/-- The offsets at which the headers and the signature descriptors of a configuration begin: its
own, and those of every section. -/
inductive BlockAt (configuration : Configuration) : Nat → Prop
  | header : BlockAt configuration 0
  | signatures : BlockAt configuration Size.header
  | sectionHeader (before : List Section) (sect : Section) (behind : List Section)
      (split : configuration.sections = before ++ sect :: behind) :
      BlockAt configuration (sectionsOffset + Fragment.totalSize before)
  | sectionSignatures (before : List Section) (sect : Section) (behind : List Section)
      (split : configuration.sections = before ++ sect :: behind) :
      BlockAt configuration (sectionsOffset + (Fragment.totalSize before + Size.header))

theorem valid_parts (valid : configuration.validate = .ok ()) :
    configuration.header.size = Size.header ∧ configuration.header.buffer.validate = .ok () ∧
      configuration.signatures.validate = .ok () ∧
      ∀ sect ∈ configuration.sections, sect.validate = .ok () := by
  obtain ⟨header, signatures, sections, -⟩ :=
    validateParts_eq_ok_iff.mp (validate_eq_ok_iff.mp valid).1
  obtain ⟨whole, checked⟩ := ConfigurationHeader.buffer_of_validate header
  exact ⟨whole, checked, signatures, sections⟩

/-- Header and signature descriptor, and the sections and payload behind them. -/
theorem toBytes_split (valid : configuration.validate = .ok ()) :
    ∃ front, front.length = sectionsOffset ∧ Fragment.toBytes configuration =
      front ++ (configuration.sections.flatMap Fragment.toBytes ++ configuration.payload.bytes) := by
  obtain ⟨whole, -, signatures, -⟩ := valid_parts valid
  refine ⟨configuration.header.buffer.bytes ++ Fragment.toBytes configuration.signatures, ?_, ?_⟩
  · rw [List.length_append, Fragment.Lawful.length_toBytes]
    exact congrArg₂ (· + ·) whole (SignatureDescriptor.validate_eq_ok_iff.mp signatures).1
  · rw [toBytes_eq, List.append_assoc]

/-- Wherever a block begins, it is sealed. -/
theorem Standard.sealedAt (standard : configuration.Standard)
    (valid : configuration.validate = .ok ()) (begins : configuration.BlockAt block) :
    (Fragment.toBytes configuration).SealedAt block := by
  obtain ⟨whole, checked, signatures, sections⟩ := valid_parts valid
  have ofSection {before behind : List Section} {sect : Section} {offset : Nat}
      (split : configuration.sections = before ++ sect :: behind)
      (stands : (Fragment.toBytes sect).SealedAt offset) :
      (Fragment.toBytes configuration).SealedAt
        (sectionsOffset + (Fragment.totalSize before + offset)) := by
    obtain ⟨front, length, same⟩ := toBytes_split valid
    have inner := (stands.within (before.flatMap Fragment.toBytes)
      (behind.flatMap Fragment.toBytes)).within front configuration.payload.bytes
    rw [length, Fragment.length_flatMap_toBytes] at inner
    rw [same, split, List.flatMap_append, List.flatMap_cons]
    exact inner
  cases begins with
  | header =>
    have closed : covered ∈ configuration.header.buffer.crcAddresses := by
      rw [(Buffer.Follows.crcAddresses standard.header).trans ConfigurationHeader.crcAddresses_empty]
      exact List.mem_cons_self
    have inner := (Buffer.sealedAt whole checked closed).within []
    rw [toBytes_eq]
    exact inner _
  | signatures =>
    have inner := (standard.signatures.sealedAt signatures).within configuration.header.buffer.bytes
    rw [show configuration.header.buffer.bytes.length = Size.header from whole] at inner
    rw [toBytes_eq]
    exact inner _
  | sectionHeader before sect behind split =>
    have member : sect ∈ configuration.sections := by simp [split]
    exact ofSection split ((standard.sections sect member).sealedAt (sections sect member)).1
  | sectionSignatures before sect behind split =>
    have member : sect ∈ configuration.sections := by simp [split]
    exact ofSection split ((standard.sections sect member).sealedAt (sections sect member)).2

/-- The number of sections is told by a word of the header. -/
theorem length_sections (valid : configuration.validate = .ok ()) :
    configuration.sections.length = (Bytes.wordAt (Fragment.toBytes configuration)
      ConfigurationHeader.sectionsRemainingOffset).toNat := by
  obtain ⟨-, -, -, count, stated, announced⟩ := validate_eq_ok_iff.mp valid
  obtain ⟨inside, word⟩ := Buffer.getWord_eq_ok_iff.mp stated
  rw [toBytes_eq, Bytes.wordAt_append_left inside, word, announced_of_checkCounts announced]

/-- Bytes that agree up to a section have as many bytes of sections before it. -/
theorem exists_split (valid : configuration.validate = .ok ()) (validToo : other.validate = .ok ())
    (agree : (Fragment.toBytes configuration).AgreeBeside (Fragment.toBytes other) start width)
    {before behind : List Section} {sect : Section}
    (split : configuration.sections = before ++ sect :: behind)
    (reaches : sectionsOffset + Fragment.totalSize before ≤ start) :
    ∃ first second rest, other.sections = first ++ second :: rest ∧
      Fragment.totalSize first = Fragment.totalSize before := by
  have many : other.sections.length = configuration.sections.length := by
    rw [length_sections valid, length_sections validToo, agree.wordAt]
    exact .inl (Nat.le_trans (by decide) (Nat.le_trans (Nat.le_add_right _ _) reaches))
  rw [split, List.length_append, List.length_cons] at many
  obtain ⟨first, later, cut, count⟩ : ∃ first later, other.sections = first ++ later ∧
      first.length = before.length :=
    ⟨other.sections.take before.length, other.sections.drop before.length,
      (List.take_append_drop _ _).symm, List.length_take_of_le (by omega)⟩
  obtain ⟨second, rest, rfl⟩ : ∃ second rest, later = second :: rest := by
    refine List.exists_cons_of_ne_nil fun none => ?_
    rw [cut, none, List.append_nil] at many
    omega
  obtain ⟨-, -, -, sections⟩ := valid_parts valid
  obtain ⟨-, -, -, sectionsToo⟩ := valid_parts validToo
  obtain ⟨front, length, same⟩ := toBytes_split valid
  obtain ⟨frontToo, lengthToo, sameToo⟩ := toBytes_split validToo
  have shown := agree.slice (.inl reaches)
  rw [same, sameToo, Bytes.slice_append_right (Nat.le_of_eq length),
    Bytes.slice_append_right (Nat.le_of_eq lengthToo), length, lengthToo, Nat.sub_self,
    Bytes.slice_zero, Bytes.slice_zero, split, cut, List.flatMap_append, List.flatMap_append,
    List.append_assoc, List.append_assoc] at shown
  refine ⟨first, second, rest, cut, Section.totalSize_eq (fun sect member => ?_)
    (fun sect member => ?_) count shown⟩
  · exact sections sect (by simp [split, member])
  · exact sectionsToo sect (by simp [cut, member])

/-- A block that comes before a change begins at the same place after it. -/
theorem BlockAt.of_agreeBeside (begins : configuration.BlockAt block)
    (valid : configuration.validate = .ok ()) (validToo : other.validate = .ok ())
    (agree : (Fragment.toBytes configuration).AgreeBeside (Fragment.toBytes other) start width)
    (before : block ≤ start) : other.BlockAt block := by
  cases begins with
  | header => exact .header
  | signatures => exact .signatures
  | sectionHeader front sect behind split =>
    obtain ⟨first, second, rest, cut, size⟩ := exists_split valid validToo agree split before
    rw [← size]
    exact .sectionHeader first second rest cut
  | sectionSignatures front sect behind split =>
    obtain ⟨first, second, rest, cut, size⟩ := exists_split valid validToo agree split (by omega)
    rw [← size]
    exact .sectionSignatures first second rest cut

end Configuration

namespace Image

variable {bytes other : Bytes} {configuration : Configuration} {start width block : Nat}

/-- A configuration that was parsed is valid, is laid out like a new one and has all the bytes. -/
theorem cmf_of_parsed (parsed : ofBytes bytes = .ok (.cmf configuration)) :
    configuration.Standard ∧ configuration.validate = .ok () ∧
      Fragment.toBytes configuration = bytes := by
  obtain ⟨left, ran⟩ := Edit.answer_eq_ok_iff.mp parsed
  obtain ⟨route, between, after, found, looks, read, -⟩ :=
    recognise_sound (Stream.steady_ofBytes bytes) ran
  have held : between.unread = bytes :=
    looks.unread_eq ((Stream.unread_ofBytes bytes).trans (List.nil_append bytes).symm)
  have made := Route.makes_of_read read
  cases route with
  | bareSection | certificate | chain | signingModule | raw => exact made.elim
  | cmf =>
    obtain ⟨_, object, ranObject, same⟩ := readAs_eq_ok_iff.mp read
    obtain rfl := Image.cmf.inj same
    obtain ⟨standard, valid⟩ := Configuration.standard_empty.read ranObject
    obtain ⟨advances, ended, -⟩ := Configuration.read_sound looks.steady ranObject
    have all := advances.unread
    rw [held, ended, List.append_nil] at all
    exact ⟨standard, valid, all.symm⟩

/-- Bytes that were parsed as a configuration are not parsed as one again after a change of one to
four bytes in a row inside what the checksum of one of its headers or signature descriptors
covers. -/
theorem tampering_refused (parsed : ofBytes bytes = .ok (.cmf configuration))
    (agree : bytes.AgreeBeside other start width) (narrow : width ≤ 4)
    (begins : configuration.BlockAt block) (before : block ≤ start)
    (behind : start + width ≤ block + covered) (changed : other ≠ bytes) :
    ∀ accepted, ofBytes other ≠ .ok (.cmf accepted) := by
  intro accepted parsedToo
  obtain ⟨standard, valid, rfl⟩ := cmf_of_parsed parsed
  obtain ⟨standardToo, validToo, rfl⟩ := cmf_of_parsed parsedToo
  have beginsToo := begins.of_agreeBeside valid validToo agree before
  have stands := standard.sealedAt valid begins
  have standsToo := standardToo.sealedAt validToo beginsToo
  exact changed (stands.eq_of_agreeBeside standsToo agree narrow before behind)

/-- The first byte of the signature descriptor of a section is changed. -/
theorem tampering_refused_section :
    ∃ bytes other configuration sect, ofBytes bytes = .ok (.cmf configuration) ∧
      configuration.sections = [sect] ∧ other ≠ bytes ∧
      bytes.AgreeBeside other (Configuration.sectionsOffset + Size.header) 1 ∧
      ∀ accepted, ofBytes other ≠ .ok (.cmf accepted) := by
  obtain ⟨before, configuration, registered, updated, valid, held, -⟩ :=
    Configuration.refreshed_exists (show ∀ item ∈ [((1 : UInt32), ([0, 17] : Bytes))],
      item.2.length < 2 ^ 32 by decide) (by decide) [1, 2, 3]
  have refreshed := registered.update updated valid
  have parsed := ofBytes_of_route (Route.of?_configuration refreshed) (serves_readAs refreshed.takes)
  obtain ⟨sect, sections⟩ : ∃ sect, configuration.reread.sections = [sect] := by
    refine List.length_eq_one_iff.mp ?_
    have many := congrArg List.length held
    rw [List.length_map, List.length_map] at many
    exact (List.length_map _).trans many
  let start := Configuration.sectionsOffset + Size.header
  have begins : configuration.reread.BlockAt start := .sectionSignatures [] sect [] sections
  obtain ⟨standard, validToo, same⟩ := cmf_of_parsed parsed
  have room := (standard.sealedAt validToo begins).inside
  rw [same] at room
  generalize Fragment.toBytes configuration = bytes at parsed room
  obtain ⟨byte, there⟩ : ∃ byte, Bytes.slice bytes start 1 = [byte] := by
    refine List.length_eq_one_iff.mp (Bytes.length_slice ?_)
    exact Nat.le_trans (Nat.add_le_add_left (by decide) _) room
  let patch : Bytes := [if byte = 0 then 1 else 0]
  have narrow : patch.length ≤ 4 := (by decide : 1 ≤ 4)
  have inside : start + patch.length ≤ bytes.length :=
    Nat.le_trans (Nat.add_le_add_left (Nat.le_trans narrow (by decide)) _) room
  have changed : Bytes.splice bytes start patch ≠ bytes := by
    intro unchanged
    have written := Bytes.slice_splice inside
    rw [unchanged, show patch.length = 1 from rfl, there] at written
    have equal : byte = if byte = 0 then 1 else 0 := List.singleton_inj.mp written
    split at equal <;> simp_all
  have behind : start + patch.length ≤ start + covered :=
    Nat.add_le_add_left (Nat.le_trans narrow (by decide)) _
  exact ⟨bytes, _, _, sect, parsed, sections, changed, .splice inside,
    tampering_refused parsed (.splice inside) narrow begins (Nat.le_refl _) behind changed⟩

end Image
end SecureBoot
