import SecureBoot.Proofs.Recognition
import SecureBoot.Proofs.Refreshing

/-!
Parsing what was serialized. The first bytes of a refreshed and valid object lead to the reader for
objects of its own type: the word behind a header is that of a signature descriptor for a signed
structure and that of a signature, or zero, for a signing module.
-/

namespace SecureBoot

theorem Edit.Serves.answer_eq {α : Type} {call : Edit Stream α} {bytes rest : Bytes}
    {answer other : α} (first : Serves call bytes rest answer)
    (second : Serves call bytes rest other) : answer = other := by
  obtain ⟨left, ran, -⟩ :=
    first _ (Stream.steady_ofBytes (bytes ++ rest)) (Stream.unread_ofBytes _)
  exact (second.sound (Stream.steady_ofBytes _) (Stream.unread_ofBytes _) ran).1

/-- The bytes of a valid descriptor are many and begin with its magic number. -/
theorem SignatureDescriptor.Standard.leads {descriptor : SignatureDescriptor}
    (standard : descriptor.Standard) (valid : descriptor.validate = .ok ()) :
    4 ≤ (Fragment.toBytes descriptor).length ∧
      Bytes.wordAt (Fragment.toBytes descriptor) 0 = Magic.signatureDescriptor := by
  obtain ⟨-, announced, -⟩ := validate_eq_ok_iff.mp valid
  obtain ⟨-, stand, -⟩ := Buffer.validate_eq_ok_iff.mp announced.valid
  rw [standard.header.magics] at stand
  obtain ⟨long, word⟩ := stand (Magic.signatureDescriptor, 0) (by decide)
  have inside : 0 + 4 ≤ descriptor.header.bytes.length := long
  rw [toBytes_eq, List.length_append]
  exact ⟨Nat.le_add_right_of_le inside, (Bytes.wordAt_append_left inside).trans word⟩

namespace Image

open Edit (Serves)

variable {front back bytes : Bytes} {tag : StreamTag} {route : Route} {image : Image}

theorem ofBytes_of_route (found : Route.of? bytes = some route)
    (reads : Serves route.read bytes [] image) : ofBytes bytes = .ok image :=
  ofBytes_of_serves (serves_recognise (by rwa [List.append_nil]) reads)

theorem slotFollows_header (whole : front.length = Size.header) (four : 4 ≤ back.length) :
    slotFollows (front ++ back) =
      decide (Bytes.wordAt back 0 = Magic.signature ∨ Bytes.wordAt back 0 = 0) := by
  have long : Size.header + 4 ≤ (front ++ back).length := by
    rw [List.length_append, whole]
    exact Nat.add_le_add_left four _
  rw [slotFollows, Bytes.wordAt_append_right (Nat.le_of_eq whole), whole, Nat.sub_self]
  simp only [long, true_and]

/-- A signature descriptor behind a header is no signature. -/
theorem slotFollows_descriptor {descriptor : SignatureDescriptor} {rest : Bytes}
    (whole : front.length = Size.header) (standard : descriptor.Standard)
    (valid : descriptor.validate = .ok ()) :
    slotFollows (front ++ (Fragment.toBytes descriptor ++ rest)) = false := by
  obtain ⟨long, word⟩ := standard.leads valid
  rw [slotFollows_header whole (by rw [List.length_append]; exact Nat.le_add_right_of_le long),
    Bytes.wordAt_append_left long, word]
  decide

/-- The slot of a signing module is a signature or a blank slot for one. -/
theorem slotFollows_slot {slot : Buffer} {signature : Option Signature}
    (whole : front.length = Size.header) (sized : slot.size = Size.signature)
    (signed : Signature.ofSlot slot.bytes = .ok signature) :
    slotFollows (front ++ slot.bytes) = true := by
  have long : 0 + 4 ≤ slot.bytes.length := by
    rw [show slot.bytes.length = _ from sized]
    decide
  rw [slotFollows_header whole long]
  exact decide_eq_true (Signature.wordAt_slot signed long)

namespace Route

theorem of?_header (whole : front.length = Size.header)
    (leads : Bytes.wordAt front 0 = tag.magic) :
    of? (front ++ back) = ofTag? (front ++ back) (some tag) := by
  have inside : 0 + 4 ≤ front.length := by
    rw [whole]
    decide
  have long : ¬(front ++ back).length < 4 := by
    rw [List.length_append]
    omega
  rw [of?, if_neg long, Bytes.wordAt_append_left inside, leads, StreamTag.ofMagic?_magic]

theorem of?_sectionHeader (whole : front.length = Size.header)
    (leads : Bytes.wordAt front 0 = StreamTag.sectionDescriptor.magic) :
    of? (front ++ back) =
      if Bytes.wordAt front SectionHeader.sectionTypeOffset ≠ Magic.certificateSection then
        some bareSection
      else some (if slotFollows (front ++ back) then
        signingModule .certificateHeader .singleRoot else certificate) := by
  have inside : SectionHeader.sectionTypeOffset + 4 ≤ front.length := by
    rw [whole]
    decide
  have long : ¬(front ++ back).length < 0x10 := by
    rw [List.length_append, whole]
    exact Nat.not_lt.mpr (Nat.le_add_right_of_le (by decide))
  rw [of?_header whole leads, ofTag?, if_neg long, Bytes.wordAt_append_left inside]

theorem of?_configuration {configuration : Configuration} (refreshed : configuration.Refreshed) :
    of? (Fragment.toBytes configuration) = some cmf := by
  obtain ⟨validHeader, validSignatures, -⟩ := Configuration.validateParts_eq_ok_iff.mp
    (Configuration.validate_eq_ok_iff.mp refreshed.valid).1
  obtain ⟨whole, checked⟩ := ConfigurationHeader.buffer_of_validate validHeader
  have leads : Bytes.wordAt configuration.header.buffer.bytes 0 = StreamTag.cmfDescriptor.magic :=
    refreshed.header.leads checked (by decide)
  rw [Configuration.toBytes_eq, of?_header whole leads, ofTag?,
    slotFollows_descriptor whole refreshed.signatures validSignatures]
  rfl

theorem of?_section {sect : Section} (refreshed : sect.Refreshed)
    (other : sect.header.sectionType ≠ .ok Magic.certificateSection) :
    of? (Fragment.toBytes sect) = some bareSection := by
  obtain ⟨⟨validHeader, -⟩, -⟩ := Section.validate_eq_ok_iff.mp refreshed.valid
  obtain ⟨whole, checked⟩ := SectionHeader.validate_eq_ok_iff.mp validHeader
  have leads : Bytes.wordAt sect.header.buffer.bytes 0 = StreamTag.sectionDescriptor.magic :=
    refreshed.registered.header.leads checked (by decide)
  have typed : Bytes.wordAt sect.header.buffer.bytes SectionHeader.sectionTypeOffset ≠
      Magic.certificateSection := fun same => other <| Buffer.getWord_eq_ok_iff.mpr
    ⟨by rw [show sect.header.buffer.size = Size.header from whole]; decide, same⟩
  rw [Section.toBytes_eq, of?_sectionHeader whole leads, if_pos typed]

theorem of?_certificate {certificate : Certificate} (registered : certificate.Registered)
    (valid : certificate.validate = .ok ()) :
    of? (Fragment.toBytes certificate) = some .certificate := by
  obtain ⟨-, ⟨validHeader, validSignatures⟩, -⟩ := Certificate.validate_eq_ok_iff.mp valid
  obtain ⟨whole, checked, typed⟩ := CertificateHeader.validate_eq_ok_iff.mp validHeader
  have leads : Bytes.wordAt certificate.header.buffer.bytes 0 = StreamTag.sectionDescriptor.magic :=
    registered.header.leads checked (by decide)
  have word := (Buffer.getWord_eq_ok_iff.mp typed).2
  have behind := @slotFollows_descriptor _ _ [] whole registered.signatures validSignatures
  rw [List.append_nil] at behind
  rw [Certificate.toBytes_eq, of?_sectionHeader whole leads, if_neg (not_not.mpr word), behind]
  rfl

/-- The layout that the route of a public key entry states is that of its key. -/
theorem of?_publicKey {entry : ChainEntry} (standard : entry.Standard)
    (valid : entry.validate = .ok ()) (keyed : entry.kind = .publicKey) :
    ∃ format, of? (Fragment.toBytes (SigningModule.publicKey entry)) =
        some (.signingModule .publicKey format) ∧
      SigningModule.empty .publicKey format = .empty .publicKey entry.data.keyFormat := by
  have long : Size.entryHeader + 4 ≤ (Fragment.toBytes entry).length :=
    Nat.le_trans (Nat.add_le_add_left (by decide) _) (ChainEntry.le_length_of_keyed valid keyed)
  have inside : 0 + 4 ≤ entry.header.bytes.length := by
    rw [show entry.header.bytes.length = _ from ChainEntry.header_size standard.header valid]
    decide
  have leads : Bytes.wordAt (Fragment.toBytes entry) 0 = Magic.publicKeyEntry := by
    rw [ChainEntry.toBytes_eq, Bytes.wordAt_append_left inside,
      ChainEntry.header_magic standard.header valid, keyed]
    rfl
  have known := ChainEntry.serves_sniff standard valid []
  rw [List.append_nil, keyed] at known
  have same := Option.some.inj ((serves_sniff_publicKey leads long).answer_eq known)
  refine ⟨_, ?_, congrArg SigningModule.publicKey same⟩
  rw [SigningModule.toBytes_publicKey, of?, if_neg (by omega), leads,
    show StreamTag.ofMagic? Magic.publicKeyEntry = some .publicKeyEntry from rfl, ofTag?,
    if_neg (by omega)]

theorem of?_signingModule {signingModule : SigningModule} (registered : signingModule.Registered)
    (valid : signingModule.validate = .ok ()) :
    ∃ format, of? (Fragment.toBytes signingModule) =
        some (.signingModule signingModule.kind format) ∧
      SigningModule.empty signingModule.kind format =
        .empty signingModule.kind signingModule.keyFormat := by
  obtain ⟨parts, sized, signature, signed⟩ := SigningModule.validate_eq_ok_iff.mp valid
  have checked := Composite.validateParts_eq_ok_iff.mp parts
  cases signingModule with
  | cmfDescriptor header slot =>
    have validHeader : header.validate = .ok () := checked _ List.mem_cons_self
    obtain ⟨whole, stands⟩ := ConfigurationHeader.buffer_of_validate validHeader
    have leads : Bytes.wordAt header.buffer.bytes 0 = StreamTag.cmfDescriptor.magic :=
      Buffer.Registers.leads registered stands (by decide)
    refine ⟨.singleRoot, ?_, rfl⟩
    rw [SigningModule.toBytes_cmfDescriptor, of?_header whole leads, ofTag?,
      slotFollows_slot whole sized signed]
    rfl
  | certificateHeader header slot =>
    have validHeader : header.validate = .ok () := checked _ List.mem_cons_self
    obtain ⟨whole, stands, typed⟩ := CertificateHeader.validate_eq_ok_iff.mp validHeader
    have leads : Bytes.wordAt header.buffer.bytes 0 = StreamTag.sectionDescriptor.magic :=
      Buffer.Registers.leads registered stands (by decide)
    have word := (Buffer.getWord_eq_ok_iff.mp typed).2
    refine ⟨.singleRoot, ?_, rfl⟩
    rw [SigningModule.toBytes_certificateHeader, of?_sectionHeader whole leads,
      if_neg (not_not.mpr word), slotFollows_slot whole sized signed]
    rfl
  | publicKey entry =>
    exact of?_publicKey registered.1 (SigningModule.validate_publicKey valid) registered.2

end Route

/-- An object with the registrations of new ones that was refreshed and is valid is parsed from its
own bytes as an object of its own type with the same bytes. Of a configuration the sections, what
each of them holds and what follows the last of them are found again. -/
theorem parsed_as_serialized :
    (∀ before configuration : Configuration, before.Registered →
      Configuration.update before = .ok () configuration → configuration.validate = .ok () →
      ∃ read, ofBytes (Fragment.toBytes configuration) = .ok (.cmf read) ∧
        Fragment.toBytes read = Fragment.toBytes configuration ∧
        read.sections.length = configuration.sections.length ∧
        read.sections.map (·.payload.bytes) = configuration.sections.map (·.payload.bytes) ∧
        read.payload.bytes = configuration.payload.bytes) ∧
    (∀ before certificate : Certificate, before.Registered →
      Certificate.update before = .ok () certificate → certificate.validate = .ok () →
      ∃ read, ofBytes (Fragment.toBytes certificate) = .ok (.certificate read) ∧
        Fragment.toBytes read = Fragment.toBytes certificate) ∧
    (∀ before sect : Section, before.Registered →
      Section.update before = .ok () sect → sect.validate = .ok () →
      sect.header.sectionType ≠ .ok Magic.certificateSection →
      ∃ read, ofBytes (Fragment.toBytes sect) = .ok (.bareSection read) ∧
        Fragment.toBytes read = Fragment.toBytes sect) ∧
    (∀ before chain : SignatureChain, before.Standard →
      Fragment.update before = .ok () chain → chain.validate = .ok () → chain.isEmpty = false →
      ofBytes (Fragment.toBytes chain) = .ok (.chain chain)) ∧
    (∀ before after : SigningModule, before.Registered →
      SigningModule.update before = .ok () after → after.validate = .ok () →
      ∃ read, ofBytes (Fragment.toBytes after) = .ok (.signingModule read) ∧
        Fragment.toBytes read = Fragment.toBytes after) := by
  refine ⟨?_, ?_, ?_, ?_, ?_⟩
  · intro before configuration registered updated valid
    have refreshed := registered.update updated valid
    refine ⟨configuration.reread, ofBytes_of_route (Route.of?_configuration refreshed)
      (serves_readAs refreshed.takes), configuration.toBytes_reread, List.length_map _, ?_, rfl⟩
    rw [Configuration.reread, List.map_map]
    rfl
  · intro before certificate registered updated valid
    obtain ⟨again, padded⟩ := registered.update updated
    exact ⟨certificate.reread, ofBytes_of_route (Route.of?_certificate again valid)
      (serves_readAs (again.takes padded valid [])), certificate.toBytes_reread⟩
  · intro before sect registered updated valid other
    obtain ⟨again, padded⟩ := registered.update updated
    have refreshed : sect.Refreshed := ⟨again, padded, valid⟩
    exact ⟨sect.reread, ofBytes_of_route (Route.of?_section refreshed other)
      (serves_readAs (refreshed.takes [])), sect.toBytes_reread⟩
  · intro before chain standard updated valid filled
    refine ofBytes_of_serves (serves_chain (standard.update updated) valid filled (.inr ?_))
    exact .inl (by decide)
  · intro before after registered updated valid
    have again := registered.update updated
    obtain ⟨format, found, same⟩ := Route.of?_signingModule again valid
    obtain ⟨count, takes⟩ := again.takes valid []
    rw [← same] at takes
    exact ⟨after.reread, ofBytes_of_route found (serves_readAs takes), after.toBytes_reread⟩

/-- A configuration of two sections with other data behind them, the certificate of a device, a
section, a closed chain and a module for an unsigned configuration header. -/
theorem parsed_as_serialized_mixed :
    (∃ before configuration read, before.Registered ∧
      Configuration.update before = .ok () configuration ∧ configuration.validate = .ok () ∧
      ofBytes (Fragment.toBytes configuration) = .ok (.cmf read) ∧
      Fragment.toBytes read = Fragment.toBytes configuration ∧
      read.sections.map (·.payload.bytes) = [[0, 17], [34]] ∧ read.payload.bytes = [1, 2, 3]) ∧
    (∃ before certificate read, Certificate.create "1" "2" "3" = .ok before ∧
      Certificate.update before = .ok () certificate ∧ certificate.validate = .ok () ∧
      ofBytes (Fragment.toBytes certificate) = .ok (.certificate read) ∧
      Fragment.toBytes read = Fragment.toBytes certificate) ∧
    (∃ before sect read, before.Registered ∧ Section.update before = .ok () sect ∧
      sect.validate = .ok () ∧ sect.header.sectionType = .ok 7 ∧
      ofBytes (Fragment.toBytes sect) = .ok (.bareSection read) ∧
      Fragment.toBytes read = Fragment.toBytes sect) ∧
    (∃ chain, SignatureChain.closedChain = .ok chain ∧ chain.isEmpty = false ∧
      ofBytes (Fragment.toBytes chain) = .ok (.chain chain)) ∧
    (∃ header after read, SigningModule.ofConfiguration header = .ok after ∧
      SigningModule.update after = .ok () after ∧ after.validate = .ok () ∧
      ofBytes (Fragment.toBytes after) = .ok (.signingModule read) ∧
      Fragment.toBytes read = Fragment.toBytes after) := by
  refine ⟨?_, ?_, ?_, ?_, ?_⟩
  · obtain ⟨before, configuration, registered, updated, validToo, held, behind⟩ :=
      Configuration.refreshed_exists (show ∀ item ∈ [((1 : UInt32), ([0, 17] : Bytes)), (2, [34])],
        item.2.length < 2 ^ 32 by decide) (by decide) [1, 2, 3]
    obtain ⟨read, parsed, same, -, found, rest⟩ :=
      parsed_as_serialized.1 before configuration registered updated validToo
    exact ⟨before, configuration, read, registered, updated, validToo, parsed, same,
      found.trans held, rest.trans behind⟩
  · obtain ⟨before, made, standard, valid⟩ : ∃ before, Certificate.create "1" "2" "3" =
        .ok before ∧ before.Standard ∧ before.validate = .ok () :=
      Certificate.create_exists rfl rfl rfl
    obtain ⟨-, ⟨validHeader, validSignatures⟩, -⟩ := Certificate.validate_eq_ok_iff.mp valid
    obtain ⟨certificate, updated, validToo⟩ := Certificate.update_exists
      (standard.signatures.steady validSignatures) validHeader validSignatures
    have registered : before.Registered :=
      ⟨Buffer.Follows.registers standard.header, standard.signatures⟩
    obtain ⟨read, parsed, same⟩ :=
      parsed_as_serialized.2.1 before certificate registered updated validToo
    exact ⟨before, certificate, read, made, updated, validToo, parsed, same⟩
  · obtain ⟨before, sect, registered, updated, validToo, typed⟩ :=
      Section.refreshed_exists 7 (show ([1, 2, 3, 4] : Bytes).length < 2 ^ 32 by decide)
    obtain ⟨read, parsed, same⟩ :=
      parsed_as_serialized.2.2.1 before sect registered updated validToo (by rw [typed]; decide)
    exact ⟨before, sect, read, registered, updated, validToo, typed, parsed, same⟩
  · obtain ⟨chain, built, -, two, -⟩ := SignatureChain.closedChain_exists
    obtain ⟨standard, valid⟩ := SignatureChain.standard_closedChain built
    have filled : chain.isEmpty = false := Bool.eq_false_iff.mpr fun empty => by
      rw [standard.eq_empty valid empty] at two
      exact absurd two (by decide)
    exact ⟨chain, built, filled, parsed_as_serialized.2.2.2.1 chain chain standard
      (standard.update_of_valid valid) valid filled⟩
  · obtain ⟨header, -, standard, signable, -⟩ := ConfigurationHeader.reset_exists
    obtain ⟨after, made, updated, valid, registered⟩ :=
      SigningModule.ofConfiguration_exists standard signable
    obtain ⟨read, parsed, same⟩ := parsed_as_serialized.2.2.2.2 after after registered updated valid
    exact ⟨header, after, read, made, updated, valid, parsed, same⟩

end Image
end SecureBoot
