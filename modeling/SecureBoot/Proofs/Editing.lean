import SecureBoot.Proofs.ContainerUpkeep
import SecureBoot.Proofs.Refreshing

/-!
Configurations that are edited. Whoever has made a configuration, or read it, may push sections,
exchange what follows them, add chains and refresh it in any order, and however these calls end:
every one of them leaves the configuration fit to be refreshed, and all but the refusals refresh it.
-/

namespace SecureBoot

namespace DescriptorFormat

variable {format : DescriptorFormat} {digest : ShaType}

/-- A known format is recognised by its value. -/
theorem ofValue_value (known : format.requiredSha? = some digest) :
    ofValue format.value = format := by
  cases format with
  | unknown _ => cases known
  | _ => rfl

/-- The digest that a format requires is recognised by its magic number. -/
theorem ofMagic_requiredSha (known : format.requiredSha? = some digest) :
    ShaType.ofMagic digest.magic = digest := by
  cases format <;> cases known <;> rfl

end DescriptorFormat

namespace ConfigurationHeader

variable {header other : ConfigurationHeader} {format shape : DescriptorFormat}

/-- The format of a header may be exchanged for any known one before the checksums are refreshed. -/
theorem Refreshable.setFormat_exists (refreshable : header.Refreshable shape) {digest : ShaType}
    (known : format.requiredSha? = some digest) :
    ∃ changed, setFormat format header = .ok () changed ∧ changed.Refreshable format := by
  have size : header.buffer.size = Size.header := refreshable.whole
  have clear : ∀ magic ∈ header.buffer.magics,
      Buffer.Apart magic.2 formatOffset ∧ Buffer.Apart magic.2 digestOffset := by
    rw [refreshable.registers.magics, magics_empty]
    unfold Buffer.Apart Buffer.Beside
    decide
  obtain ⟨typed, types⟩ : ∃ typed, header.buffer.setWord format.value formatOffset = .ok typed :=
    ⟨_, Buffer.setWord_eq_ok_iff.mpr ⟨by rw [size]; decide, rfl⟩⟩
  have sizeTyped : typed.size = Size.header := (Buffer.size_setRaw types).trans size
  obtain ⟨stored, stores⟩ : ∃ stored, typed.setWord digest.magic digestOffset = .ok stored :=
    ⟨_, Buffer.setWord_eq_ok_iff.mpr ⟨by rw [sizeTyped]; decide, rfl⟩⟩
  have registersTyped := refreshable.registers.setWord types
  have readyTyped : typed.Ready :=
    refreshable.ready.setWord types fun magic member => (clear magic member).1
  have ready : stored.Ready := readyTyped.setWord stores fun magic member =>
    (clear magic (by rwa [refreshable.registers.magics, ← registersTyped.magics])).2
  have agrees : Buffer.AgreesBeside [formatOffset, digestOffset] header.buffer stored :=
    (Buffer.AgreesBeside.setWord types (by decide)).trans (.setWord stores (by decide))
  have kept (word : HeaderWord) (accepted : List UInt32) {offset : Nat}
      (fixed : offset ∈ [headerLengthOffset, flagsOffset, releaseOffset, sectionTypeOffset]) :
      checkWord ⟨stored⟩ word offset accepted = header.checkWord word offset accepted := by
    have beside : ∀ offset ∈ [headerLengthOffset, flagsOffset, releaseOffset, sectionTypeOffset],
        ∀ changed ∈ [formatOffset, digestOffset], Buffer.Beside offset 4 changed := by
      unfold Buffer.Beside
      decide
    rw [checkWord, Buffer.getWord_congr (agrees.shown offset 4 (beside offset fixed)), checkWord]
  have formatted : stored.getWord formatOffset = .ok format.value := by
    rw [Buffer.getWord_setRaw stores (.inl (by decide)), Buffer.getWord_setWord types]
  refine ⟨⟨stored⟩, ?_, registersTyped.setWord stores, agrees.size.trans size, ready, ?_⟩
  · refine Edit.within_eq_ok_iff.mpr ⟨stored, ?_, rfl⟩
    rw [Edit.bind_of_ok (Edit.change_of_ok types), known]
    exact Edit.change_of_ok stores
  · have stated := refreshable.stated
    refine ⟨?_, ⟨digest, ?_, known⟩, (kept _ _ (by decide)).trans stated.length,
      (kept _ _ (by decide)).trans stated.flags, (kept _ _ (by decide)).trans stated.release,
      (kept _ _ (by decide)).trans stated.sectionType⟩
    · rw [ConfigurationHeader.format, show stored.getWord formatOffset = _ from formatted]
      exact congrArg Except.ok (DescriptorFormat.ofValue_value known)
    · rw [ConfigurationHeader.digest, Buffer.getWord_setWord stores]
      exact congrArg Except.ok (DescriptorFormat.ofMagic_requiredSha known)

end ConfigurationHeader

namespace SectionHeader

/-- A full header that registers nothing but a magic number where the number of sections stands. -/
def pinned (word : UInt32) : SectionHeader :=
  ⟨{ Buffer.empty none with
      bytes := Bytes.splice (Bytes.zeros Size.header) sectionsRemainingOffset (Bytes.ofWord word)
      magics := [(word, sectionsRemainingOffset)] }⟩

theorem validate_pinned (word : UInt32) : (pinned word).validate = .ok () := by
  have room : sectionsRemainingOffset + 4 ≤ (Bytes.zeros Size.header).length := by
    rw [Bytes.length_zeros]
    decide
  have size : (pinned word).size = Size.header :=
    (Bytes.length_splice_ofWord room).trans (Bytes.length_zeros _)
  have inside : sectionsRemainingOffset + 4 ≤ (pinned word).buffer.size := by
    rw [show (pinned word).buffer.size = Size.header from size]
    decide
  refine validate_eq_ok_iff.mpr ⟨size, Buffer.validate_eq_ok_iff.mpr ⟨?_, ?_, List.forall_mem_nil _⟩⟩
  · exact fun _ bounded => nomatch bounded
  · exact List.forall_mem_singleton.mpr ⟨inside, Bytes.wordAt_splice room⟩

end SectionHeader

namespace Section

variable {sect : Section} {word : UInt32}

/-- The header registers nothing but a magic number where the number of sections stands. -/
def Pinned (word : UInt32) (sect : Section) : Prop :=
  sect.header.buffer.magics = [(word, SectionHeader.sectionsRemainingOffset)] ∧
    sect.header.buffer.crcAddresses = []

/-- There are valid sections with such a header. -/
theorem pinned_exists (word : UInt32) :
    ∃ sect : Section, sect.Pinned word ∧ sect.signatures.Standard ∧ sect.validate = .ok () := by
  obtain ⟨signatures, -, standard, -, valid, -⟩ := SignatureDescriptor.create_exists .classic
  let before : Section := ⟨SectionHeader.pinned word, signatures, Buffer.empty none⟩
  have front : SectionHeader.sectionsRemainingOffset + 4 ≤ SectionHeader.sectionLengthOffset := by
    decide
  have spares : before.header.SparesLength :=
    ⟨List.forall_mem_singleton.mpr front, List.forall_mem_nil _, List.Pairwise.nil⟩
  obtain ⟨sect, updated, validToo, -⟩ := @Section.update_exists before standard
    (SectionHeader.validate_pinned word) spares valid (Buffer.validate_unbounded [])
    (Nat.two_pow_pos 32)
  obtain ⟨standardToo, -⟩ := update_keeps standard updated
  obtain ⟨_, _, _, _, _, -, measures, refreshes, -, -, rfl⟩ := update_eq_ok_iff.mp updated
  obtain ⟨_, stores, rfl⟩ := SectionHeader.setSectionLength_eq_ok_iff.mp measures
  obtain ⟨_, seals, rfl⟩ := SectionHeader.update_eq_ok_iff.mp refreshes
  obtain ⟨-, rfl⟩ := Buffer.setWord_eq_ok_iff.mp stores
  obtain ⟨-, rfl⟩ := Buffer.updateCrc_eq_ok_iff.mp seals
  exact ⟨_, ⟨rfl, rfl⟩, standardToo, validToo⟩

/-- Counting the sections behind such a section overwrites the magic number. -/
theorem Pinned.recount_exists (pinned : sect.Pinned word) (standard : sect.signatures.Standard)
    (valid : sect.validate = .ok ()) {count : UInt32} (other : count ≠ word) :
    ∃ counted changed, sect.header.setSectionsRemaining count = .ok counted ∧
      Section.update { sect with header := counted } = .ok () changed ∧
      changed.validate ≠ .ok () := by
  obtain ⟨⟨validHeader, validSignatures, -⟩, -, length, -, exact⟩ := validate_eq_ok_iff.mp valid
  obtain ⟨whole, -⟩ := SectionHeader.validate_eq_ok_iff.mp validHeader
  have size : sect.header.buffer.size = Size.header := whole
  obtain ⟨counted, counts⟩ : ∃ counted, sect.header.buffer.setWord count
      SectionHeader.sectionsRemainingOffset = .ok counted :=
    ⟨_, Buffer.setWord_eq_ok_iff.mpr ⟨by rw [size]; decide, rfl⟩⟩
  obtain ⟨measured, measures⟩ : ∃ measured, counted.setWord length
      SectionHeader.sectionLengthOffset = .ok measured :=
    ⟨_, Buffer.setWord_eq_ok_iff.mpr ⟨by rw [Buffer.size_setRaw counts, size]; decide, rfl⟩⟩
  have held : measured.getWord SectionHeader.sectionsRemainingOffset = .ok count := by
    rw [Buffer.getWord_setRaw measures (.inl (by decide)), Buffer.getWord_setWord counts]
  obtain ⟨magics, crcs⟩ : measured.magics = sect.header.buffer.magics ∧
      measured.crcAddresses = sect.header.buffer.crcAddresses := by
    obtain ⟨-, rfl⟩ := Buffer.setWord_eq_ok_iff.mp counts
    obtain ⟨-, rfl⟩ := Buffer.setWord_eq_ok_iff.mp measures
    exact ⟨rfl, rfl⟩
  have seals : Buffer.updateCrc measured = .ok () measured := by
    refine Buffer.updateCrc_of_hasCrcs ?_
    rw [crcs, pinned.2]
    exact List.forall_mem_nil _
  obtain ⟨fresh, signed, freshens, links, -⟩ := (standard.steady validSignatures).relink_exists
    validSignatures (⟨measured⟩ : SectionHeader)
  refine ⟨⟨counted⟩, ⟨⟨measured⟩, signed, sect.payload⟩,
    SectionHeader.setSectionsRemaining_eq_ok_iff.mpr ⟨_, counts, rfl⟩, update_eq_ok_iff.mpr
      ⟨length, ⟨measured⟩, ⟨measured⟩, fresh, signed, Bytes.encodeLength_eq_ok_iff.mpr exact,
        SectionHeader.setSectionLength_eq_ok_iff.mpr ⟨_, measures, rfl⟩,
        SectionHeader.update_eq_ok_iff.mpr ⟨_, seals, rfl⟩, freshens, links, rfl⟩, fun validToo => ?_⟩
  obtain ⟨⟨validMeasured, -⟩, -⟩ := validate_eq_ok_iff.mp validToo
  obtain ⟨-, checked⟩ := SectionHeader.validate_eq_ok_iff.mp validMeasured
  obtain ⟨-, stand, -⟩ := Buffer.validate_eq_ok_iff.mp checked
  rw [show (SectionHeader.buffer ⟨measured⟩).magics = _ from magics.trans pinned.1] at stand
  obtain ⟨-, there⟩ := stand _ List.mem_cons_self
  exact other ((Buffer.getWord_eq_ok_iff.mp held).2.symm.trans there)

end Section

namespace Configuration

variable {configuration start : Configuration} {header : ConfigurationHeader}
  {format : DescriptorFormat}

/-- What may be done to a configuration. -/
inductive Change
  | push (sect : Section)
  | fill (payload : Bytes)
  | add (chain : SignatureChain)
  | refresh

/-- The sections that a change pushes. -/
def Change.sections : Change → List Section
  | push sect => [sect]
  | fill _ | add _ | refresh => []

/-- The configuration that a change leaves behind, whether it fails or not. -/
def Change.apply (configuration : Configuration) : Change → Configuration
  | push sect => (pushSection sect).after configuration
  | fill payload => configuration.withPayload payload
  | add chain => (addChain chain).after configuration
  | refresh => update.after configuration

/-- The configuration that changes leave behind one after the other. -/
def run (start : Configuration) (changes : List Change) : Configuration :=
  changes.foldl Change.apply start

/-- A configuration that may be edited, and the header it begins with: one that was made for a known
format, one made for a valid header, however many sections it counts, or one that was read. -/
inductive Begins : ConfigurationHeader → Configuration → Prop
  | created {format : DescriptorFormat} {start : Configuration}
      (known : format ∈ [DescriptorFormat.sdmLite, .sdmFull, .fm])
      (made : create format = .ok start) : Begins start.header start
  | headed {header : ConfigurationHeader} {start : Configuration}
      (registers : header.buffer.Registers ConfigurationHeader.empty.buffer)
      (valid : header.validate = .ok ()) (made : ofHeader header = .ok start) :
      Begins header start
  | received {before start : Configuration} {stream left : Stream} {count : Nat}
      (standard : before.Standard)
      (ran : Fragment.read (before, stream) = .ok count (start, left)) : Begins start.header start

/-- The sections of a valid configuration can be counted. -/
theorem length_lt_of_validate (valid : configuration.validate = .ok ()) :
    configuration.sections.length < 2 ^ 32 := by
  obtain ⟨-, -, -, count, -, checked⟩ := validate_eq_ok_iff.mp valid
  rw [← announced_of_checkCounts checked]
  exact count.toNat_lt

/-- A valid configuration with the layout of a new one is fit for refreshing. -/
theorem Registered.fit_of_valid (registered : configuration.Registered)
    (valid : configuration.validate = .ok ()) : ∃ format, configuration.Fit format := by
  obtain ⟨parts, -, ⟨format, formatted, shape⟩, -⟩ := validate_eq_ok_iff.mp valid
  obtain ⟨validHeader, validSignatures, validSections, payload⟩ := validateParts_eq_ok_iff.mp parts
  have announced := (SignatureDescriptor.validate_eq_ok_iff.mp validSignatures).2.1.format
  exact ⟨format, registered.fit validHeader formatted validSignatures
    (Except.ok.inj (announced.symm.trans shape)) validSections payload⟩

/-- The configuration for a header is valid as soon as the header can be refreshed. -/
theorem ofHeader_exists (refreshable : header.Refreshable format) :
    ∃ start, ofHeader header = .ok start ∧ start.Fit format ∧ start.validate = .ok () ∧
      start.sections = [] ∧ header.AgreesBesideCounts start.header := by
  obtain ⟨signatures, begun, standard, -, valid, shape, -⟩ :=
    SignatureDescriptor.create_exists (.ofDescriptor format)
  have plain : (Buffer.empty none).validate = .ok () := Buffer.validate_unbounded []
  have fit : (⟨header, signatures, [], Buffer.empty none⟩ : Configuration).Fit format :=
    ⟨refreshable, standard.steady valid, valid, shape, List.forall_mem_nil _, plain⟩
  obtain ⟨start, updated, fitToo, validToo, agrees, payloads, -⟩ := fit.update_exists
  have made : ofHeader header = .ok start := by
    rw [ofHeader, bind_of_ok refreshable.stated.format, bind_of_ok begun]
    exact Edit.result_eq_ok_iff.mpr ⟨(), updated⟩
  exact ⟨start, made, fitToo, validToo (Nat.two_pow_pos 32), List.map_eq_nil_iff.mp payloads, agrees⟩

/-- There is a new configuration of every known format. -/
theorem create_exists {digest : ShaType} (known : format.requiredSha? = some digest) :
    ∃ start, create format = .ok start ∧ start.Fit format ∧ start.validate = .ok () ∧
      start.sections = [] := by
  obtain ⟨blank, resets, standard, signable, -⟩ := ConfigurationHeader.reset_exists
  obtain ⟨validBlank, -⟩ := ConfigurationHeader.validateForSigning_eq_ok_iff.mp signable
  obtain ⟨_, begun⟩ := ConfigurationHeader.refreshable_of_valid
    (Buffer.Follows.registers standard) validBlank
  obtain ⟨header, formats, refreshable⟩ := begun.setFormat_exists known
  obtain ⟨start, made, fit, valid, noSections, -⟩ := ofHeader_exists refreshable
  obtain ⟨_, cleared⟩ := Edit.result_eq_ok_iff.mp resets
  refine ⟨start, ?_, fit, valid, noSections⟩
  rw [create, bind_of_ok (Edit.result_eq_ok_iff.mpr ⟨(), Edit.bind_eq_ok_iff.mpr
    ⟨_, _, cleared, formats⟩⟩), made]

/-- Whichever way a configuration begins, it is valid and can be refreshed. -/
theorem Begins.fit (begins : Begins header start) :
    (∃ format, start.Fit format) ∧ start.validate = .ok () ∧
      header.AgreesBesideCounts start.header := by
  cases begins with
  | @created format _ known made =>
    obtain ⟨digest, required⟩ : ∃ digest, format.requiredSha? = some digest := by
      simp only [List.mem_cons, List.not_mem_nil, or_false] at known
      rcases known with rfl | rfl | rfl <;> exact ⟨_, rfl⟩
    obtain ⟨_, madeToo, fit, valid, -⟩ := create_exists required
    obtain rfl := Except.ok.inj (made.symm.trans madeToo)
    exact ⟨⟨format, fit⟩, valid, .refl _ _⟩
  | headed registers valid made =>
    obtain ⟨format, refreshable⟩ := ConfigurationHeader.refreshable_of_valid registers valid
    obtain ⟨_, madeToo, fit, validToo, -, agrees⟩ := ofHeader_exists refreshable
    obtain rfl := Except.ok.inj (made.symm.trans madeToo)
    exact ⟨⟨format, fit⟩, validToo, agrees⟩
  | received standard ran =>
    obtain ⟨standardToo, valid⟩ := standard.read ran
    exact ⟨standardToo.registered.fit_of_valid valid, valid, .refl _ _⟩

/-- What holds after every change: the configuration can be refreshed, it is valid if its sections
can be counted, and the header shows what it showed. -/
structure Sound (header : ConfigurationHeader) (format : DescriptorFormat) (count : Nat)
    (configuration : Configuration) : Prop where
  fit : configuration.Fit format
  valid : count < 2 ^ 32 → configuration.validate = .ok ()
  agrees : header.AgreesBesideCounts configuration.header
  length : configuration.sections.length = count

/-- Refreshing makes sound what is fit for it. -/
theorem Fit.sound_update (fit : configuration.Fit format)
    (agrees : header.AgreesBesideCounts configuration.header) :
    ∃ changed, update configuration = .ok () changed ∧
      changed.Sound header format configuration.sections.length := by
  obtain ⟨changed, updated, fitToo, valid, later, payloads, -⟩ := fit.update_exists
  have length := congrArg List.length payloads
  rw [List.length_map, List.length_map] at length
  exact ⟨changed, updated, fitToo, valid, agrees.trans later, length⟩

namespace Sound

variable {count : Nat} {changes : List Change}

theorem push (sound : configuration.Sound header format count) {sect : Section} (fine : sect.Fit) :
    (Change.apply configuration (.push sect)).Sound header format (count + 1) := by
  let pushed : Configuration :=
    { configuration with sections := configuration.sections ++ [sect] }
  have fit : pushed.Fit format := { sound.fit with
    sections := List.forall_mem_append.mpr ⟨sound.fit.sections, List.forall_mem_singleton.mpr fine⟩ }
  obtain ⟨changed, updated, soundToo⟩ := fit.sound_update sound.agrees
  have ran : pushSection sect configuration = .ok () changed :=
    Edit.bind_eq_ok_iff.mpr ⟨(), pushed, rfl, updated⟩
  have length : pushed.sections.length = count + 1 := by
    rw [List.length_append, List.length_singleton, sound.length]
  rw [Change.apply, Edit.after, ran, ← length]
  exact soundToo

/-- What follows the sections has nothing to do with the rest. -/
theorem fill (sound : configuration.Sound header format count) (payload : Bytes) :
    (Change.apply configuration (.fill payload)).Sound header format count := by
  have plain := Buffer.validate_unbounded payload
  refine ⟨{ sound.fit with payload := plain }, fun few => ?_, sound.agrees, sound.length⟩
  obtain ⟨parts, rest⟩ := validate_eq_ok_iff.mp (sound.valid few)
  obtain ⟨validHeader, validSignatures, validSections, -⟩ := validateParts_eq_ok_iff.mp parts
  exact validate_eq_ok_iff.mpr ⟨validateParts_eq_ok_iff.mpr
    ⟨validHeader, validSignatures, validSections, plain⟩, rest⟩

/-- A chain that is refused leaves everything as it is. -/
theorem add (sound : configuration.Sound header format count) (chain : SignatureChain) :
    (Change.apply configuration (.add chain)).Sound header format count := by
  rcases sound.fit.steady.addChain sound.fit.signatures chain with
    ⟨failure, refused⟩ | ⟨index, signatures, added, shape, steady, valid⟩
  · have ran : Configuration.addChain chain configuration = .error failure configuration := by
      refine Edit.bind_of_error ?_
      simp only [onSignatures, Edit.within, refused]
    rw [Change.apply, Edit.after, ran]
    exact sound
  · let stored : Configuration := { configuration with signatures := signatures }
    have fit : stored.Fit format := { sound.fit with
      steady := steady
      signatures := valid
      shape := shape.trans sound.fit.shape }
    obtain ⟨changed, updated, soundToo⟩ := fit.sound_update sound.agrees
    have ran : Configuration.addChain chain configuration = .ok index changed :=
      addChain_eq_ok_iff.mpr ⟨signatures, added, updated⟩
    rw [Change.apply, Edit.after, ran, ← sound.length]
    exact soundToo

theorem refresh (sound : configuration.Sound header format count) :
    (Change.apply configuration .refresh).Sound header format count := by
  obtain ⟨changed, updated, soundToo⟩ := sound.fit.sound_update sound.agrees
  rw [Change.apply, Edit.after, updated, ← sound.length]
  exact soundToo

/-- Every change keeps a configuration sound. -/
theorem apply (sound : configuration.Sound header format count) {change : Change}
    (fine : ∀ sect ∈ change.sections, sect.Fit) :
    (change.apply configuration).Sound header format (count + change.sections.length) := by
  cases change with
  | push sect => exact sound.push (fine sect List.mem_cons_self)
  | fill payload => exact sound.fill payload
  | add chain => exact sound.add chain
  | refresh => exact sound.refresh

/-- So does every sequence of them. -/
theorem run (sound : configuration.Sound header format count)
    (fine : ∀ sect ∈ changes.flatMap Change.sections, sect.Fit) :
    (run configuration changes).Sound header format
      (count + (changes.flatMap Change.sections).length) := by
  induction changes generalizing configuration count with
  | nil => exact sound
  | cons first later ih =>
    rw [List.flatMap_cons] at fine ⊢
    obtain ⟨here, others⟩ := List.forall_mem_append.mp fine
    rw [List.length_append, ← Nat.add_assoc]
    exact ih (sound.apply here) others

end Sound

/-- Whatever is done to a configuration after it was made or read, and whether the calls fail or not,
its header shows what the one it was made with showed, beside the number of sections and the
checksums; and after every call it is valid just if its sections can be counted. The sections that
are pushed are valid and register what new ones do; the chains may be any. -/
theorem edits_stay_valid {changes : List Change} (begins : Begins header start)
    (fine : ∀ sect ∈ changes.flatMap Change.sections, sect.Registered ∧ sect.validate = .ok ())
    (passed : List Change) (calls : passed <+: changes) :
    header.AgreesBesideCounts (run start passed).header ∧
      ((run start passed).validate = .ok () ↔
        start.sections.length + (passed.flatMap Change.sections).length < 2 ^ 32) := by
  obtain ⟨⟨format, fit⟩, valid, agrees⟩ := begins.fit
  have sound : start.Sound header format start.sections.length := ⟨fit, fun _ => valid, agrees, rfl⟩
  obtain ⟨later, rfl⟩ := calls
  rw [List.flatMap_append] at fine
  obtain ⟨finePassed, -⟩ := List.forall_mem_append.mp fine
  have after := sound.run fun sect member =>
    (finePassed sect member).1.fit (finePassed sect member).2
  exact ⟨after.agrees, fun validToo => after.length ▸ length_lt_of_validate validToo, after.valid⟩

/-- A new configuration that is filled, given a section, a chain and something that is no chain, and
refreshed. -/
theorem edits_stay_valid_sdmLite :
    ∃ start sect chain, create .sdmLite = .ok start ∧ sect.Registered ∧ sect.validate = .ok () ∧
      SignatureChain.closedChain = .ok chain ∧
      start.header.AgreesBesideCounts (run start [.fill [1, 2, 3], .push sect, .add chain,
        .add (SignatureChain.expecting none), .refresh]).header ∧
      (run start [.fill [1, 2, 3], .push sect, .add chain,
        .add (SignatureChain.expecting none), .refresh]).validate = .ok () := by
  obtain ⟨start, made, -, -, noSections⟩ := create_exists (show DescriptorFormat.sdmLite.requiredSha? =
    some .sha384 from rfl)
  obtain ⟨sect, -, header, signatures, -, valid⟩ :=
    Section.create_exists 1 (show ([0, 17] : Bytes).length < 2 ^ 32 by decide) .classic
  obtain ⟨chain, built, -⟩ := SignatureChain.closedChain_exists
  have registered : sect.Registered := ⟨Buffer.Follows.registers header, signatures⟩
  obtain ⟨agrees, few⟩ := edits_stay_valid (.created (by decide) made)
    (List.forall_mem_singleton.mpr ⟨registered, valid⟩)
    [.fill [1, 2, 3], .push sect, .add chain, .add (SignatureChain.expecting none), .refresh]
    (List.prefix_refl _)
  refine ⟨start, sect, chain, made, registered, valid, built, agrees, few.mpr ?_⟩
  rw [noSections]
  exact (show 0 + 1 < 2 ^ 32 by decide)

/-- Pushing a section whose header pins the number of sections leaves nothing valid. -/
theorem Fit.push_pinned (fit : start.Fit format) (noSections : start.sections = []) {sect : Section}
    {word : UInt32} (pinned : sect.Pinned word) (standard : sect.signatures.Standard)
    (valid : sect.validate = .ok ()) (other : 0 ≠ word) :
    (run start [.push sect]).validate ≠ .ok () := by
  obtain ⟨counted, changed, counts, updated, broken⟩ := pinned.recount_exists standard valid other
  have renews : updateSections (start.sections ++ [sect]) = .ok () [changed] := by
    rw [noSections]
    exact updateSections_cons_eq_ok_iff.mpr ⟨counted, changed, [], counts, updated, rfl, rfl⟩
  obtain ⟨recounted, header, recounts, refreshes, -⟩ :=
    fit.header.recount_exists (UInt32.ofNat [changed].length)
  obtain ⟨fresh, signed, freshens, links, -⟩ := fit.steady.relink_exists fit.signatures header
  have ran : pushSection sect start = .ok () ⟨header, signed, [changed], start.payload⟩ :=
    Edit.bind_eq_ok_iff.mpr ⟨(), _, rfl, update_eq_ok_iff.mpr ⟨[changed], recounted, header, fresh,
      signed, renews, recounts, refreshes, freshens, links, rfl⟩⟩
  rw [show run start [.push sect] = (pushSection sect).after start from rfl, Edit.after, ran]
  intro validToo
  obtain ⟨-, -, each, -⟩ := validateParts_eq_ok_iff.mp (validate_eq_ok_iff.mp validToo).1
  exact broken (each changed List.mem_cons_self)

theorem length_sections_pushes (count : Nat) (sect : Section) :
    ((List.replicate count (Change.push sect)).flatMap Change.sections).length = count := by
  induction count with
  | zero => rfl
  | succ count ih =>
    rw [List.replicate_succ, List.flatMap_cons, List.length_append, ih, Nat.add_comm]
    rfl

/-- A valid section that registers a magic number where the number of sections stands is no longer
valid once it was pushed, and neither is a configuration with more sections than a word can count. -/
theorem edits_not_valid :
    (∃ start sect, create .sdmFull = .ok start ∧ sect.Pinned 7 ∧ sect.validate = .ok () ∧
      (run start [.push sect]).validate ≠ .ok ()) ∧
    ∃ start sect, create .sdmFull = .ok start ∧ sect.Registered ∧ sect.validate = .ok () ∧
      (run start (List.replicate (2 ^ 32) (.push sect))).validate ≠ .ok () := by
  obtain ⟨start, made, fit, valid, noSections⟩ := create_exists (show DescriptorFormat.sdmFull.requiredSha? =
    some .sha512 from rfl)
  constructor
  · obtain ⟨sect, pinned, standard, validSection⟩ := Section.pinned_exists 7
    exact ⟨start, sect, made, pinned, validSection,
      fit.push_pinned noSections pinned standard validSection (by decide)⟩
  · obtain ⟨sect, -, header, signatures, -, validSection⟩ :=
      Section.create_exists 1 (show ([0, 17] : Bytes).length < 2 ^ 32 by decide) .classic
    have registered : sect.Registered := ⟨Buffer.Follows.registers header, signatures⟩
    have fine (count : Nat) : ∀ other ∈ (List.replicate count (Change.push sect)).flatMap
        Change.sections, other.Fit := by
      intro other member
      obtain ⟨change, pushed, there⟩ := List.mem_flatMap.mp member
      rw [List.eq_of_mem_replicate pushed] at there
      rw [List.mem_singleton.mp there]
      exact registered.fit validSection
    have sound : start.Sound start.header .sdmFull 0 :=
      ⟨fit, fun _ => valid, .refl _ _, congrArg List.length noSections⟩
    have after := sound.run (fine (2 ^ 32))
    refine ⟨start, sect, made, registered, validSection, fun validToo => ?_⟩
    have few := length_lt_of_validate validToo
    rw [after.length, length_sections_pushes, Nat.zero_add] at few
    exact Nat.lt_irrefl _ few

end Configuration
end SecureBoot
