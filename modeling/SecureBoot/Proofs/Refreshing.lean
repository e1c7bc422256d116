import SecureBoot.Proofs.Restoring

/-!
Refreshing succeeds. A configuration of valid parts with the layout of new ones is refreshed to a
valid one, however many sections it has: each section is told how many follow it, and the header how
many there are.
-/

namespace SecureBoot

/-- A new section header states the type it was made for. -/
theorem SectionHeader.sectionType_reset {header : SectionHeader} {sectionType : UInt32}
    (ran : (reset sectionType).result empty = .ok header) :
    header.sectionType = .ok sectionType := by
  simp only [Edit.result_eq_ok_iff, reset, Buffered.onBuffer, Edit.within_eq_ok_iff,
    Edit.bind_eq_ok_iff, Edit.change_eq_ok_iff] at ran
  obtain ⟨_, sealed, ⟨_, cleared, resets, _, typed, stores, seals⟩, rfl⟩ := ran
  have blank : (Buffered.buffer empty).Follows empty.buffer := .self _ fun _ _ => Nat.zero_le _
  have follows := (blank.reset resets).setWord stores
  have beside : ∀ address ∈ typed.crcAddresses, Buffer.Apart sectionTypeOffset address := by
    rw [follows.crcAddresses]
    unfold Buffer.Apart Buffer.Beside
    decide
  exact (Buffer.getWord_updateCrc seals beside).trans (Buffer.getWord_setWord stores)

theorem SectionHeader.spread_empty : empty.buffer.Spread := by
  refine ⟨List.pairwise_singleton _ _, ?_⟩
  unfold Buffer.Apart Buffer.Beside
  decide

/-- A valid section header is given any two counts and refreshed. -/
theorem SectionHeader.recount_exists {header : SectionHeader}
    (registers : header.buffer.Registers empty.buffer) (valid : header.validate = .ok ())
    (count length : UInt32) :
    ∃ counted measured refreshed, header.setSectionsRemaining count = .ok counted ∧
      counted.setSectionLength length = .ok measured ∧
      Fragment.update measured = .ok () refreshed ∧ refreshed.validate = .ok () ∧
      refreshed.sectionsRemaining = .ok count ∧ refreshed.sectionLength = .ok length := by
  obtain ⟨whole, checked⟩ := validate_eq_ok_iff.mp valid
  have size : header.buffer.size = Size.header := whole
  have room : sectionsRemainingOffset + 4 ≤ header.buffer.size ∧
      sectionLengthOffset + 4 ≤ header.buffer.size := by
    rw [size]
    decide
  have front : ∀ magic ∈ empty.buffer.magics,
      magic.2 + 4 ≤ sectionsRemainingOffset ∧ magic.2 + 4 ≤ sectionLengthOffset := by decide
  obtain ⟨counted, counts⟩ : ∃ counted, header.buffer.setWord count sectionsRemainingOffset =
      .ok counted := ⟨_, Buffer.setWord_eq_ok_iff.mpr ⟨room.1, rfl⟩⟩
  have sizeCounted : counted.size = header.buffer.size := Buffer.size_setRaw counts
  obtain ⟨measured, measures⟩ : ∃ measured, counted.setWord length sectionLengthOffset =
      .ok measured := ⟨_, Buffer.setWord_eq_ok_iff.mpr ⟨sizeCounted ▸ room.2, rfl⟩⟩
  have registersCounted := registers.setWord counts
  have registersMeasured := registersCounted.setWord measures
  have ready : header.buffer.Ready := .of_valid checked (registers.spread spread_empty)
  have readyCounted : counted.Ready := ready.setWord counts fun magic member =>
    .inl (front magic (registers.magics ▸ member)).1
  have readyMeasured : measured.Ready := readyCounted.setWord measures fun magic member =>
    .inl (front magic (registersCounted.magics ▸ member)).2
  obtain ⟨refreshed, refreshes, validToo⟩ := readyMeasured.updateCrc_exists
  have kept (start : Nat) (before : start + 4 ≤ crcOffset) :
      refreshed.getWord start = measured.getWord start := by
    refine Buffer.getWord_updateCrc refreshes ?_
    rw [registersMeasured.crcAddresses]
    exact List.forall_mem_singleton.mpr (.inl before)
  have sizeRefreshed : refreshed.size = Size.header := by
    rw [Buffer.size_updateCrc refreshes, Buffer.size_setRaw measures, sizeCounted, size]
  have stored : measured.getWord sectionsRemainingOffset = .ok count := by
    rw [Buffer.getWord_setRaw measures (.inl (by decide)), Buffer.getWord_setWord counts]
  exact ⟨⟨counted⟩, ⟨measured⟩, ⟨refreshed⟩, setSectionsRemaining_eq_ok_iff.mpr ⟨_, counts, rfl⟩,
    setSectionLength_eq_ok_iff.mpr ⟨_, measures, rfl⟩, update_eq_ok_iff.mpr ⟨_, refreshes, rfl⟩,
    validate_eq_ok_iff.mpr ⟨sizeRefreshed, validToo⟩, (kept _ (by decide)).trans stored,
    (kept _ (by decide)).trans (Buffer.getWord_setWord measures)⟩

/-- What refreshing needs to leave a section valid. -/
structure Section.Fit (sect : Section) : Prop where
  header : sect.header.buffer.Registers SectionHeader.empty.buffer
  signatures : sect.signatures.Steady
  valid : sect.validate = .ok ()

theorem Section.Registered.fit {sect : Section} (registered : sect.Registered)
    (valid : sect.validate = .ok ()) : sect.Fit := by
  obtain ⟨⟨-, validSignatures, -⟩, -⟩ := validate_eq_ok_iff.mp valid
  exact ⟨registered.header, registered.signatures.steady validSignatures, valid⟩

/-- A valid section that registers what a new one does is told how many follow it and refreshed. -/
theorem Section.Fit.recount_exists {sect : Section} (fit : sect.Fit) (count : UInt32) :
    ∃ counted changed, sect.header.setSectionsRemaining count = .ok counted ∧
      Section.update { sect with header := counted } = .ok () changed ∧ changed.Fit ∧
      changed.sectionsRemaining = .ok count ∧ changed.payload = sect.payload := by
  obtain ⟨⟨validHeader, validSignatures, plain⟩, -, length, -, exact⟩ :=
    validate_eq_ok_iff.mp fit.valid
  obtain ⟨counted, measured, refreshed, counts, measures, refreshes, validRefreshed, remaining,
    long⟩ := SectionHeader.recount_exists fit.header validHeader count length
  obtain ⟨fresh, signed, freshens, links, -, steady, validSigned, linked⟩ :=
    fit.signatures.relink_exists validSignatures refreshed
  have encoded : Bytes.encodeLength sect.payload.size = .ok length :=
    Bytes.encodeLength_eq_ok_iff.mpr exact
  have registers : refreshed.buffer.Registers SectionHeader.empty.buffer := by
    obtain ⟨_, stores, rfl⟩ := SectionHeader.setSectionsRemaining_eq_ok_iff.mp counts
    obtain ⟨_, storesToo, rfl⟩ := SectionHeader.setSectionLength_eq_ok_iff.mp measures
    obtain ⟨_, seals, rfl⟩ := SectionHeader.update_eq_ok_iff.mp refreshes
    exact ((fit.header.setWord stores).setWord storesToo).updateCrc seals
  exact ⟨counted, ⟨refreshed, signed, sect.payload⟩, counts, update_eq_ok_iff.mpr ⟨length, measured,
    refreshed, fresh, signed, encoded, measures, refreshes, freshens, links, rfl⟩,
    ⟨registers, steady, validate_eq_ok_iff.mpr ⟨⟨validRefreshed, validSigned, plain⟩, linked, length,
      long, exact⟩⟩, remaining, rfl⟩

/-- There is a refreshed section of every type with every payload. -/
theorem Section.refreshed_exists (sectionType : UInt32) {payload : Bytes}
    (short : payload.length < 2 ^ 32) :
    ∃ before sect : Section, before.Registered ∧ update before = .ok () sect ∧
      sect.validate = .ok () ∧ sect.header.sectionType = .ok sectionType := by
  obtain ⟨header, made, standard, valid⟩ := SectionHeader.reset_exists sectionType
  obtain ⟨signatures, -, signs, -, validSignatures, -⟩ :=
    SignatureDescriptor.create_exists .multiRoot
  let before : Section := ⟨header, signatures, { Buffer.empty none with bytes := payload }⟩
  have plain : before.payload.validate = .ok () := Buffer.validate_unbounded payload
  obtain ⟨sect, updated, validToo, -, kept⟩ := @Section.update_exists before signs valid
    standard.sparesLength validSignatures plain short
  exact ⟨before, sect, ⟨Buffer.Follows.registers standard, signs⟩, updated, validToo,
    (kept _ (by decide)).trans (SectionHeader.sectionType_reset made)⟩

/-- The module for a header that can be signed is valid, and refreshing leaves it alone. -/
theorem SigningModule.ofConfiguration_exists {header : ConfigurationHeader}
    (standard : header.Standard) (signable : header.validateForSigning = .ok ()) :
    ∃ signingModule, ofConfiguration header = .ok signingModule ∧
      update signingModule = .ok () signingModule ∧ signingModule.validate = .ok () ∧
      signingModule.Registered := by
  obtain ⟨validHeader, -⟩ := ConfigurationHeader.validateForSigning_eq_ok_iff.mp signable
  obtain ⟨-, checked⟩ := ConfigurationHeader.buffer_of_validate validHeader
  obtain ⟨-, -, matching⟩ := Buffer.validate_eq_ok_iff.mp checked
  have made : ofConfiguration header = .ok (cmfDescriptor header blankSlot) := by
    rw [ofConfiguration, bind_of_ok signable]
    rfl
  have refreshes : Fragment.update header = .ok () header :=
    ConfigurationHeader.update_eq_ok_iff.mpr ⟨_, Buffer.updateCrc_of_hasCrcs matching, rfl⟩
  have whole : blankSlot.size = Size.signature := Bytes.length_zeros _
  have plain := (follows_slot whole).validate_of_plain rfl rfl
  refine ⟨_, made, updateSigned_eq_ok_iff.mpr ⟨header, blankSlot, refreshes,
    Buffer.updateCrc_of_hasCrcs (List.forall_mem_nil _), rfl⟩, validate_eq_ok_iff.mpr
    ⟨Composite.validateParts_eq_ok_iff.mpr ?_, whole, none, rfl⟩, Buffer.Follows.registers standard⟩
  exact List.forall_mem_cons.mpr ⟨validHeader, List.forall_mem_singleton.mpr plain⟩

namespace Configuration

variable {configuration : Configuration} {sections : List Section} {format : DescriptorFormat}

/-- Valid sections with the layout of new ones. -/
def NewSections (sections : List Section) : Prop :=
  ∀ sect ∈ sections, sect.header.Standard ∧ sect.signatures.Standard ∧ sect.validate = .ok ()

theorem NewSections.registered (new : NewSections sections) : ∀ sect ∈ sections, sect.Registered :=
  fun sect member => ⟨Buffer.Follows.registers (new sect member).1, (new sect member).2.1⟩

/-- Sections are refreshed, and announce each other if a word can count them. -/
theorem updateSections_exists (fit : ∀ sect ∈ sections, sect.Fit) :
    ∃ renewed, updateSections sections = .ok () renewed ∧
      renewed.map Section.payload = sections.map Section.payload ∧
      (∀ sect ∈ renewed, sect.Fit) ∧
      (sections.length < 2 ^ 32 →
        ∀ index, checkCounts index sections.length renewed = .ok ()) := by
  induction sections with
  | nil => exact ⟨[], rfl, rfl, List.forall_mem_nil _, fun _ _ => rfl⟩
  | cons first later ih =>
    obtain ⟨fitFirst, others⟩ := List.forall_mem_cons.mp fit
    obtain ⟨renewed, renews, payloads, each, counted⟩ := ih others
    obtain ⟨fresh, changed, counts, updated, fitToo, stated, same⟩ :=
      fitFirst.recount_exists (UInt32.ofNat later.length)
    have length : renewed.length = later.length := length_updateSections renews
    refine ⟨changed :: renewed, updateSections_cons_eq_ok_iff.mpr
      ⟨fresh, changed, renewed, counts, updated, renews, rfl⟩, ?_,
      List.forall_mem_cons.mpr ⟨fitToo, each⟩, fun few index => ?_⟩
    · rw [List.map_cons, List.map_cons, same, payloads]
    · rw [List.length_cons] at few
      have exact : (UInt32.ofNat later.length).toNat = later.length :=
        UInt32.toNat_ofNat_of_lt' (Nat.lt_of_succ_lt few)
      rw [checkCounts, bind_of_ok (require_of (by rw [length, List.length_cons])),
        bind_of_ok stated, exact]
      exact counted (Nat.lt_of_succ_lt few) (index + 1)

/-- What refreshing needs to make a configuration of the given format valid. -/
structure Fit (configuration : Configuration) (format : DescriptorFormat) : Prop where
  header : configuration.header.Refreshable format
  steady : configuration.signatures.Steady
  signatures : configuration.signatures.validate = .ok ()
  shape : configuration.signatures.table.format = .ofDescriptor format
  sections : ∀ sect ∈ configuration.sections, sect.Fit
  payload : configuration.payload.validate = .ok ()

/-- Refreshing keeps a configuration fit and what it holds, and makes it valid if a word can count
its sections. -/
theorem Fit.update_exists (fit : configuration.Fit format) :
    ∃ changed, Configuration.update configuration = .ok () changed ∧ changed.Fit format ∧
      (configuration.sections.length < 2 ^ 32 → changed.validate = .ok ()) ∧
      configuration.header.AgreesBesideCounts changed.header ∧
      changed.sections.map Section.payload = configuration.sections.map Section.payload ∧
      changed.payload = configuration.payload := by
  obtain ⟨renewed, renews, payloads, each, announced⟩ := updateSections_exists fit.sections
  obtain ⟨counted, fresh, counts, refreshes, validFresh, refreshable, stated, agrees⟩ :=
    fit.header.recount_exists (UInt32.ofNat renewed.length)
  obtain ⟨refreshed, signed, freshens, links, shape, steady, validSigned, linked⟩ :=
    fit.steady.relink_exists fit.signatures fresh
  have shapeToo : signed.table.format = .ofDescriptor format := shape.trans fit.shape
  have shapeSigned : signed.format = .ok (.ofDescriptor format) := by
    rw [(SignatureDescriptor.validate_eq_ok_iff.mp validSigned).2.1.format, shapeToo]
  refine ⟨⟨fresh, signed, renewed, configuration.payload⟩, update_eq_ok_iff.mpr ⟨renewed, counted,
    fresh, refreshed, signed, renews, counts, refreshes, freshens, links, rfl⟩,
    ⟨refreshable, steady, validSigned, shapeToo, each, fit.payload⟩, fun few => ?_, agrees, payloads,
    rfl⟩
  have exact : (UInt32.ofNat renewed.length).toNat = configuration.sections.length := by
    rw [length_updateSections renews]
    exact UInt32.toNat_ofNat_of_lt' few
  refine validate_eq_ok_iff.mpr ⟨validateParts_eq_ok_iff.mpr ⟨validFresh, validSigned,
    fun sect member => (each sect member).valid, fit.payload⟩, linked,
    ⟨format, refreshable.stated.format, shapeSigned⟩, _, stated, ?_⟩
  rw [exact]
  exact announced few 0

/-- Valid parts of one format with the layout of new ones are fit for refreshing. -/
theorem Registered.fit (registered : configuration.Registered)
    (validHeader : configuration.header.validate = .ok ())
    (formatted : configuration.header.format = .ok format)
    (validSignatures : configuration.signatures.validate = .ok ())
    (shape : configuration.signatures.table.format = .ofDescriptor format)
    (validSections : ∀ sect ∈ configuration.sections, sect.validate = .ok ())
    (payload : configuration.payload.validate = .ok ()) : configuration.Fit format := by
  obtain ⟨_, refreshable⟩ := ConfigurationHeader.refreshable_of_valid registered.header validHeader
  obtain rfl := Except.ok.inj (refreshable.stated.format.symm.trans formatted)
  exact ⟨refreshable, registered.signatures.steady validSignatures, validSignatures, shape,
    fun sect member => (registered.sections sect member).fit (validSections sect member), payload⟩

/-- New sections of any types with any payloads. -/
private theorem newSections_exists {items : List (UInt32 × Bytes)}
    (short : ∀ item ∈ items, item.2.length < 2 ^ 32) :
    ∃ sections, NewSections sections ∧ sections.length = items.length ∧
      sections.map (·.payload.bytes) = items.map Prod.snd := by
  induction items with
  | nil => exact ⟨[], List.forall_mem_nil _, rfl, rfl⟩
  | cons first later ih =>
    obtain ⟨here, others⟩ := List.forall_mem_cons.mp short
    obtain ⟨sections, new, count, held⟩ := ih others
    obtain ⟨sect, -, header, signatures, payload, valid⟩ :=
      Section.create_exists first.1 here .classic
    refine ⟨sect :: sections, List.forall_mem_cons.mpr ⟨⟨header, signatures, valid⟩, new⟩, ?_, ?_⟩
    · rw [List.length_cons, List.length_cons, count]
    · rw [List.map_cons, List.map_cons, held, payload]

/-- There is a refreshed configuration with sections of any types and payloads and with any bytes
behind them. -/
theorem refreshed_exists {items : List (UInt32 × Bytes)}
    (short : ∀ item ∈ items, item.2.length < 2 ^ 32) (few : items.length < 2 ^ 32) (rest : Bytes) :
    ∃ before configuration : Configuration, before.Registered ∧
      update before = .ok () configuration ∧ configuration.validate = .ok () ∧
      configuration.sections.map (·.payload.bytes) = items.map Prod.snd ∧
      configuration.payload.bytes = rest := by
  obtain ⟨header, -, standardHeader, signable, formatted, -⟩ := ConfigurationHeader.reset_exists
  obtain ⟨signatures, -, standard, -, valid, shape, -⟩ :=
    SignatureDescriptor.create_exists (.ofDescriptor .sdmFull)
  obtain ⟨sections, new, count, held⟩ := newSections_exists short
  let before : Configuration :=
    ⟨header, signatures, sections, { Buffer.empty none with bytes := rest }⟩
  have plain : before.payload.validate = .ok () := Buffer.validate_unbounded rest
  have registered : before.Registered :=
    ⟨Buffer.Follows.registers standardHeader, standard, new.registered⟩
  obtain ⟨validHeader, -⟩ := ConfigurationHeader.validateForSigning_eq_ok_iff.mp signable
  have fit : before.Fit .sdmFull := registered.fit validHeader formatted valid shape
    (fun sect member => (new sect member).2.2) plain
  obtain ⟨configuration, updated, -, valid, -, payloads, behind⟩ := fit.update_exists
  have validToo : configuration.validate = .ok () := valid (count ▸ few)
  have same := congrArg (List.map Buffer.bytes) payloads
  rw [List.map_map, List.map_map] at same
  exact ⟨before, configuration, registered, updated, validToo, same.trans held, by rw [behind]⟩

end Configuration
end SecureBoot
