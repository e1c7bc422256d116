import SecureBoot.Container.Configuration
import SecureBoot.Proofs.Container

/-!
Configurations that are refreshed. Refreshing stores the number of sections in the header and
leaves everything alone that signing demands of it.
-/

namespace SecureBoot

namespace ConfigurationHeader

variable {header changed other : ConfigurationHeader} {count : UInt32} {answer : Unit}

theorem setSectionsRemaining_eq_ok_iff :
    header.setSectionsRemaining count = .ok changed ↔
      ∃ buffer, header.buffer.setWord count sectionsRemainingOffset = .ok buffer ∧
        ⟨buffer⟩ = changed := by
  simp only [setSectionsRemaining, bind_eq_ok_iff, pure_eq_ok_iff]

theorem update_eq_ok_iff :
    Fragment.update header = .ok answer changed ↔
      ∃ buffer, Buffer.updateCrc header.buffer = .ok answer buffer ∧ ⟨buffer⟩ = changed :=
  Edit.within_eq_ok_iff

/-- The words beside magic numbers and checksums hold what is checked: a format with the digest it
requires, and the values that are fixed. -/
structure Stated (header : ConfigurationHeader) (shape : DescriptorFormat) : Prop where
  format : header.format = .ok shape
  digest : ∃ digest, header.digest = .ok digest ∧ shape.requiredSha? = some digest
  length : header.checkWord .headerLength headerLengthOffset [bootHeaderLength] = .ok ()
  flags : header.checkWord .flags flagsOffset [0] = .ok ()
  release : header.checkWord .publicVersion releaseOffset [0, releaseFlag] = .ok ()
  sectionType : header.checkWord .sectionType sectionTypeOffset [Magic.cmfSection] = .ok ()

theorem validate_eq_ok_iff :
    header.validate = .ok answer ↔
      header.size = Size.header ∧ header.buffer.validate = .ok () ∧
        ∃ format, header.Stated format := by
  simp only [validate, bind_eq_ok_iff, require_eq_ok_iff, exists_unit_iff]
  constructor
  · rintro ⟨whole, checked, format, formatted, digest, digested, words⟩
    refine ⟨whole, checked, format, ?_⟩
    cases required : format.requiredSha? with
    | none => simp [required] at words
    | some _ =>
      simp only [required, bind_eq_ok_iff, require_eq_ok_iff, exists_unit_iff] at words
      obtain ⟨rfl, length, flags, release, sectionType⟩ := words
      exact ⟨formatted, ⟨_, digested, required⟩, length, flags, release, sectionType⟩
  · rintro ⟨whole, checked, format, formatted, ⟨digest, digested, required⟩, length, flags, release,
      sectionType⟩
    refine ⟨whole, checked, format, formatted, digest, digested, ?_⟩
    simp only [required, bind_eq_ok_iff, require_eq_ok_iff, exists_unit_iff, true_and]
    exact ⟨length, flags, release, sectionType⟩

theorem buffer_of_validate (valid : header.validate = .ok answer) :
    header.size = Size.header ∧ header.buffer.validate = .ok () := by
  obtain ⟨whole, checked, -⟩ := validate_eq_ok_iff.mp valid
  exact ⟨whole, checked⟩

theorem validateForSigning_eq_ok_iff :
    header.validateForSigning = .ok answer ↔
      header.validate = .ok () ∧
        ∃ block, header.toolInformation = .ok block ∧ Bytes.allZero block = true := by
  simp only [validateForSigning, bind_eq_ok_iff, require_eq_ok_iff, exists_unit_iff]

/-- The registrations are those of a header that is to be read. -/
def Standard (header : ConfigurationHeader) : Prop :=
  header.buffer.Follows empty.buffer

theorem Standard.setSectionsRemaining (standard : header.Standard)
    (ran : header.setSectionsRemaining count = .ok changed) : changed.Standard := by
  obtain ⟨buffer, stored, rfl⟩ := setSectionsRemaining_eq_ok_iff.mp ran
  exact Buffer.Follows.setWord standard stored

theorem Standard.update (standard : header.Standard)
    (ran : Fragment.update header = .ok answer changed) : changed.Standard := by
  obtain ⟨buffer, stored, rfl⟩ := update_eq_ok_iff.mp ran
  exact Buffer.Follows.updateCrc standard stored

/-- The words beside magic numbers and checksums that are checked. -/
def checkedRanges : List (Nat × Nat) :=
  [(formatOffset, 4), (digestOffset, 4), (headerLengthOffset, 4), (flagsOffset, 4),
    (releaseOffset, 4), (sectionTypeOffset, 4)]

theorem Stated.congr {format : DescriptorFormat} (stated : header.Stated format)
    (same : ∀ range ∈ checkedRanges,
      other.buffer.getRaw range.1 range.2 = header.buffer.getRaw range.1 range.2) :
    other.Stated format := by
  simp only [checkedRanges, List.forall_mem_cons] at same
  obtain ⟨formatted, digest, length, flags, release, sectionType, -⟩ := same
  refine ⟨?_, ?_, ?_, ?_, ?_, ?_⟩
  · rw [ConfigurationHeader.format, Buffer.getWord_congr formatted]
    exact stated.format
  · rw [ConfigurationHeader.digest, Buffer.getWord_congr digest]
    exact stated.digest
  · rw [← stated.length, checkWord, Buffer.getWord_congr length, checkWord]
  · rw [← stated.flags, checkWord, Buffer.getWord_congr flags, checkWord]
  · rw [← stated.release, checkWord, Buffer.getWord_congr release, checkWord]
  · rw [← stated.sectionType, checkWord, Buffer.getWord_congr sectionType, checkWord]

/-- The header registers what a new one does, and only the checksums are missing to make it valid. -/
structure Refreshable (header : ConfigurationHeader) (format : DescriptorFormat) : Prop where
  registers : header.buffer.Registers empty.buffer
  whole : header.size = Size.header
  ready : header.buffer.Ready
  stated : header.Stated format

theorem magics_empty : empty.buffer.magics =
    [(Magic.cmfDescriptor, 0), (Magic.sectionDescriptor, descriptionOffset)] := by
  decide

theorem crcAddresses_empty : empty.buffer.crcAddresses = [outerCrcOffset, innerCrcOffset] := by
  decide

theorem spread_empty : empty.buffer.Spread := by
  refine ⟨?_, ?_⟩
  · rw [crcAddresses_empty]
    simp [Buffer.Apart, Buffer.Beside, outerCrcOffset, innerCrcOffset]
  · rw [magics_empty, crcAddresses_empty]
    simp [Buffer.Apart, Buffer.Beside, descriptionOffset, outerCrcOffset, innerCrcOffset]

theorem refreshable_of_valid (registers : header.buffer.Registers empty.buffer)
    (valid : header.validate = .ok answer) : ∃ format, header.Refreshable format := by
  obtain ⟨whole, checked, format, stated⟩ := validate_eq_ok_iff.mp valid
  exact ⟨format, registers, whole, .of_valid checked (registers.spread spread_empty), stated⟩

/-- The words that counting sections and refreshing the checksums change. -/
def countOffsets : List Nat :=
  [sectionsRemainingOffset, outerCrcOffset, innerCrcOffset]

/-- The headers differ in nothing but the number of sections and the checksums. -/
def AgreesBesideCounts (header other : ConfigurationHeader) : Prop :=
  Buffer.AgreesBeside countOffsets header.buffer other.buffer

theorem recount_keeps {counted : ConfigurationHeader}
    (registers : header.buffer.Registers empty.buffer)
    (counts : header.setSectionsRemaining count = .ok counted)
    (refreshes : Fragment.update counted = .ok answer changed) :
    changed.buffer.Registers empty.buffer ∧ header.AgreesBesideCounts changed := by
  obtain ⟨stored, stores, rfl⟩ := setSectionsRemaining_eq_ok_iff.mp counts
  obtain ⟨sealed, seals, rfl⟩ := update_eq_ok_iff.mp refreshes
  have registersToo := registers.setWord stores
  refine ⟨registersToo.updateCrc seals,
    (Buffer.AgreesBeside.setWord stores List.mem_cons_self).trans (.updateCrc seals ?_)⟩
  rw [registersToo.crcAddresses, crcAddresses_empty]
  exact fun address member => List.mem_cons_of_mem _ member

/-- A header becomes valid when the number of sections is exchanged and the checksums are refreshed,
and shows it nowhere else. -/
theorem Refreshable.recount_exists {format : DescriptorFormat}
    (refreshable : header.Refreshable format) (count : UInt32) :
    ∃ counted changed, header.setSectionsRemaining count = .ok counted ∧
      Fragment.update counted = .ok () changed ∧ changed.validate = .ok () ∧
      changed.Refreshable format ∧ changed.sectionsRemaining = .ok count ∧
      header.AgreesBesideCounts changed := by
  have registers := refreshable.registers
  have whole := refreshable.whole
  have fits : sectionsRemainingOffset + 4 ≤ header.buffer.size := by
    rw [show header.buffer.size = Size.header from whole]
    decide
  have clear : ∀ magic ∈ header.buffer.magics, Buffer.Apart magic.2 sectionsRemainingOffset := by
    rw [registers.magics, magics_empty]
    simp [Buffer.Apart, Buffer.Beside, descriptionOffset, sectionsRemainingOffset]
  have away : ∀ address ∈ header.buffer.crcAddresses,
      Buffer.Apart sectionsRemainingOffset address := by
    rw [registers.crcAddresses, crcAddresses_empty]
    simp [Buffer.Apart, Buffer.Beside, outerCrcOffset, innerCrcOffset, sectionsRemainingOffset]
  obtain ⟨stored, refreshed, stores, refreshes, validToo, size, word, -⟩ :=
    refreshable.ready.rewrite_exists fits clear away count
  have counts : header.setSectionsRemaining count = .ok ⟨stored⟩ :=
    setSectionsRemaining_eq_ok_iff.mpr ⟨stored, stores, rfl⟩
  have seals : Fragment.update (⟨stored⟩ : ConfigurationHeader) = .ok () ⟨refreshed⟩ :=
    update_eq_ok_iff.mpr ⟨refreshed, refreshes, rfl⟩
  obtain ⟨registersToo, agrees⟩ := recount_keeps registers counts seals
  have beside : ∀ range ∈ checkedRanges, ∀ offset ∈ countOffsets,
      Buffer.Beside range.1 range.2 offset := by
    unfold Buffer.Beside
    decide
  have stated : (⟨refreshed⟩ : ConfigurationHeader).Stated format :=
    refreshable.stated.congr fun range member => agrees.shown range.1 range.2 (beside range member)
  have wholeToo := size.trans whole
  exact ⟨⟨stored⟩, ⟨refreshed⟩, counts, seals,
    validate_eq_ok_iff.mpr ⟨wholeToo, validToo, format, stated⟩,
    ⟨registersToo, wholeToo, .of_valid validToo (registersToo.spread spread_empty), stated⟩, word,
    agrees⟩

/-- A header that can be signed still can after it was recounted. -/
theorem Standard.recount_exists (standard : header.Standard)
    (valid : header.validateForSigning = .ok ()) (count : UInt32) :
    ∃ counted changed, header.setSectionsRemaining count = .ok counted ∧
      Fragment.update counted = .ok () changed ∧ changed.Standard ∧
      changed.validateForSigning = .ok () ∧ changed.format = header.format ∧
      changed.sectionsRemaining = .ok count := by
  obtain ⟨validHeader, block, blank, zeros⟩ := validateForSigning_eq_ok_iff.mp valid
  obtain ⟨format, refreshable⟩ :=
    refreshable_of_valid (Buffer.Follows.registers standard) validHeader
  obtain ⟨counted, changed, counts, updates, validToo, again, stated, agrees⟩ :=
    refreshable.recount_exists count
  have beside : ∀ offset ∈ countOffsets,
      Buffer.Beside toolInformationOffset toolInformationSize offset := by
    unfold Buffer.Beside
    decide
  have tools : changed.toolInformation = .ok block := by
    rw [← blank]
    exact agrees.shown _ _ beside
  exact ⟨counted, changed, counts, updates, (standard.setSectionsRemaining counts).update updates,
    validateForSigning_eq_ok_iff.mpr ⟨validToo, block, tools, zeros⟩,
    again.stated.format.trans refreshable.stated.format.symm, stated⟩

/-- The words that a new header holds beside its magic numbers. -/
def newWords : List (UInt32 × Nat) :=
  [(DescriptorFormat.sdmFull.value, formatOffset), (Magic.sha512, digestOffset),
    (bootHeaderLength, headerLengthOffset), (Magic.cmfSection, sectionTypeOffset)]

theorem layout_empty : empty.buffer.Layout Size.header newWords := by
  refine ⟨fun limit bounded => Nat.le_of_eq (Option.some.inj bounded), by decide, by decide, ?_,
    spread_empty, ?_, ?_⟩
  · rw [crcAddresses_empty]
    decide
  · rw [magics_empty]
    unfold Buffer.Apart Buffer.Beside
    decide
  · rw [crcAddresses_empty]
    unfold Buffer.Apart Buffer.Beside
    decide

/-- What a new header leaves blank and is looked at. -/
def newBlanks : List (Nat × Nat) :=
  [(flagsOffset, 4), (releaseOffset, 4), (sectionsRemainingOffset, 4),
    (toolInformationOffset, toolInformationSize)]

theorem beside_newBlanks : ∀ range ∈ newBlanks,
    (∀ word ∈ empty.buffer.magics ++ newWords, Buffer.Beside range.1 range.2 word.2) ∧
      (∀ address ∈ empty.buffer.crcAddresses, Buffer.Beside range.1 range.2 address) ∧
      range.1 + range.2 ≤ Size.header := by
  rw [magics_empty, crcAddresses_empty]
  unfold Buffer.Beside
  decide

/-- A new header can be signed and counts no sections. -/
theorem reset_exists :
    ∃ header, reset.result empty = .ok header ∧ header.Standard ∧
      header.validateForSigning = .ok () ∧ header.format = .ok .sdmFull ∧
      header.sectionsRemaining = .ok 0 := by
  obtain ⟨cleared, stored, sealed, ran, stores, refreshes, valid, full, follows, held, zeros⟩ :=
    layout_empty.initialize_exists (.self _ fun _ _ => Nat.zero_le _)
  have blanks : ∀ range ∈ newBlanks, sealed.getRaw range.1 range.2 = .ok (Bytes.zeros range.2) := by
    intro range member
    obtain ⟨away, clear, fits⟩ := beside_newBlanks range member
    exact zeros range.1 range.2 away clear fits
  have zero {start : Nat} (there : sealed.getRaw start 4 = .ok (Bytes.zeros 4)) :
      sealed.getWord start = .ok 0 := by
    rw [Buffer.getWord, there]
    rfl
  simp only [newWords, List.forall_mem_cons] at held
  obtain ⟨format, digest, length, sectionType, -⟩ := held
  simp only [newBlanks, List.forall_mem_cons] at blanks
  obtain ⟨flags, release, count, tools, -⟩ := blanks
  let header : ConfigurationHeader := ⟨sealed⟩
  have formatted : header.format = .ok .sdmFull := by
    rw [ConfigurationHeader.format, show header.buffer = sealed from rfl, format]
    rfl
  have digested : header.digest = .ok .sha512 := by
    rw [ConfigurationHeader.digest, show header.buffer = sealed from rfl, digest]
    rfl
  refine ⟨header, ?_, follows, validateForSigning_eq_ok_iff.mpr ⟨?_, _, tools, by decide⟩, formatted,
    zero count⟩
  · simp only [newWords, Buffer.storeMagics, Edit.bind_eq_ok_iff, Edit.change_eq_ok_iff,
      Edit.pure_eq_ok_iff] at stores
    obtain ⟨_, _, first, _, _, second, _, _, third, _, _, fourth, -, rfl⟩ := stores
    rw [Edit.result_eq_ok_iff, reset]
    refine ⟨(), Edit.within_eq_ok_iff.mpr ⟨sealed, ?_, rfl⟩⟩
    rw [show Buffered.buffer empty = empty.buffer from rfl, Edit.bind_of_ok ran,
      Edit.bind_of_ok (Edit.change_of_ok first), Edit.bind_of_ok (Edit.change_of_ok second),
      Edit.bind_of_ok (Edit.change_of_ok third), Edit.bind_of_ok (Edit.change_of_ok fourth)]
    exact refreshes
  · have whole : header.size = Size.header := full
    rw [validate, require_of whole, show header.buffer.validate = .ok () from valid, formatted,
      digested]
    simp only [checkWord, show header.buffer = sealed from rfl, length, zero flags, zero release,
      sectionType]
    rfl

end ConfigurationHeader

namespace Configuration

variable {configuration changed : Configuration} {sections renewed : List Section} {index : Nat}
  {announced : Nat} {answer : Unit}

theorem length_updateSections (ran : updateSections sections = .ok answer renewed) :
    renewed.length = sections.length := by
  induction sections generalizing renewed with
  | nil =>
    obtain ⟨-, rfl⟩ : answer = () ∧ [] = renewed := by simpa [updateSections] using ran
    rfl
  | cons first rest ih =>
    rw [updateSections] at ran
    split at ran
    · cases ran
    · split at ran
      · cases ran
      · next later =>
        simp only [EStateM.Result.ok.injEq, true_and] at ran
        rw [← ran, List.length_cons, List.length_cons, ih later]

/-- Refreshing a configuration renews its sections, counts them in the header and refreshes it, and
refreshes the signatures and links them to the header. -/
theorem update_eq_ok_iff :
    update configuration = .ok answer changed ↔
      ∃ sections counted header signatures signed,
        updateSections configuration.sections = .ok () sections ∧
        configuration.header.setSectionsRemaining (UInt32.ofNat sections.length) = .ok counted ∧
        Fragment.update counted = .ok () header ∧
        SignatureDescriptor.update configuration.signatures = .ok () signatures ∧
        SignatureDescriptor.setBlock0Hash (Fragment.sha384 header) signatures = .ok () signed ∧
        ⟨header, signed, sections, configuration.payload⟩ = changed := by
  simp only [update, Edit.bind_eq_ok_iff, Edit.get_eq_ok_iff, onHeader, onSignatures]
  constructor
  · rintro ⟨_, _, renewing, _, _, ⟨rfl, rfl⟩, _, _, counting, _, _, refreshing, _, _, signing, _, _,
      ⟨rfl, rfl⟩, linking⟩
    obtain ⟨sections, renews, rfl⟩ := Edit.within_eq_ok_iff.mp renewing
    obtain ⟨counted, counts, rfl⟩ := Edit.within_eq_ok_iff.mp counting
    obtain ⟨header, refreshes, rfl⟩ := Edit.within_eq_ok_iff.mp refreshing
    obtain ⟨signatures, signs, rfl⟩ := Edit.within_eq_ok_iff.mp signing
    obtain ⟨signed, links, rfl⟩ := Edit.within_eq_ok_iff.mp linking
    exact ⟨sections, counted, header, signatures, signed, renews, Edit.change_eq_ok_iff.mp counts,
      refreshes, signs, links, rfl⟩
  · rintro ⟨sections, counted, header, signatures, signed, renews, counts, refreshes, signs, links,
      rfl⟩
    exact ⟨(), _, Edit.within_eq_ok_iff.mpr ⟨sections, renews, rfl⟩, _, _, ⟨rfl, rfl⟩, (), _,
      Edit.within_eq_ok_iff.mpr ⟨counted, Edit.change_of_ok counts, rfl⟩, (), _,
      Edit.within_eq_ok_iff.mpr ⟨header, refreshes, rfl⟩, (), _,
      Edit.within_eq_ok_iff.mpr ⟨signatures, signs, rfl⟩, _, _, ⟨rfl, rfl⟩,
      Edit.within_eq_ok_iff.mpr ⟨signed, links, rfl⟩⟩

theorem addChain_eq_ok_iff {chain : SignatureChain} :
    addChain chain configuration = .ok index changed ↔
      ∃ signatures, SignatureDescriptor.addChain chain configuration.signatures =
          .ok index signatures ∧
        update { configuration with signatures := signatures } = .ok () changed := by
  simp only [addChain, Edit.bind_eq_ok_iff, Edit.pure_eq_ok_iff, onSignatures]
  constructor
  · rintro ⟨_, _, adding, _, _, updated, rfl, rfl⟩
    obtain ⟨signatures, adds, rfl⟩ := Edit.within_eq_ok_iff.mp adding
    exact ⟨signatures, adds, updated⟩
  · rintro ⟨signatures, adds, updated⟩
    exact ⟨index, _, Edit.within_eq_ok_iff.mpr ⟨signatures, adds, rfl⟩, (), changed, updated, rfl,
      rfl⟩

theorem announced_of_checkCounts (checked : checkCounts index announced sections = .ok answer) :
    announced = sections.length := by
  cases sections with
  | nil => exact require_eq_ok_iff.mp checked
  | cons first rest =>
    rw [checkCounts, bind_eq_ok_iff] at checked
    obtain ⟨_, exact, -⟩ := checked
    exact require_eq_ok_iff.mp exact

theorem validate_eq_ok_iff :
    configuration.validate = .ok answer ↔
      Composite.validateParts configuration = .ok () ∧
      configuration.signatures.block0Hash = .ok (Fragment.sha384 configuration.header) ∧
      (∃ format, configuration.header.format = .ok format ∧
        configuration.signatures.format = .ok (.ofDescriptor format)) ∧
      ∃ count, configuration.header.sectionsRemaining = .ok count ∧
        checkCounts 0 count.toNat configuration.sections = .ok () := by
  simp only [validate, SignatureDescriptor.checkLink, bind_eq_ok_iff, exists_unit_iff,
    require_eq_ok_iff]
  constructor
  · rintro ⟨parts, ⟨_, linked, rfl⟩, format, found, _, shape, rfl, count, stated, checked⟩
    exact ⟨parts, linked, ⟨format, found, shape⟩, count, stated, checked⟩
  · rintro ⟨parts, linked, ⟨format, found, shape⟩, count, stated, checked⟩
    exact ⟨parts, ⟨_, linked, rfl⟩, format, found, _, shape, rfl, count, stated, checked⟩

/-- The header of a valid configuration counts its sections. -/
theorem count_of_validate (valid : configuration.validate = .ok answer) :
    configuration.header.sectionsRemaining =
      .ok (UInt32.ofNat configuration.sections.length) := by
  obtain ⟨-, -, -, count, stated, checked⟩ := validate_eq_ok_iff.mp valid
  rw [← announced_of_checkCounts checked, UInt32.ofNat_toNat, stated]

/-- Refreshing leaves a header alone that can be signed and counts the sections. -/
theorem header_update_of_counted (valid : configuration.header.validateForSigning = .ok ())
    (counted : configuration.header.sectionsRemaining =
      .ok (UInt32.ofNat configuration.sections.length))
    (ran : update configuration = .ok answer changed) : changed.header = configuration.header := by
  obtain ⟨sections, header, refreshed, signatures, signed, renews, counts, refreshes, -, -, rfl⟩ :=
    update_eq_ok_iff.mp ran
  obtain ⟨buffer, stores, rfl⟩ := ConfigurationHeader.setSectionsRemaining_eq_ok_iff.mp counts
  obtain ⟨inside, word⟩ := Buffer.getWord_eq_ok_iff.mp counted
  rw [length_updateSections renews, Buffer.setWord_of_wordAt inside word] at stores
  obtain rfl := Except.ok.inj stores
  obtain ⟨-, checked⟩ := ConfigurationHeader.buffer_of_validate
    (ConfigurationHeader.validateForSigning_eq_ok_iff.mp valid).1
  obtain ⟨-, -, matching⟩ := Buffer.validate_eq_ok_iff.mp checked
  obtain ⟨sealed, seals, rfl⟩ := ConfigurationHeader.update_eq_ok_iff.mp refreshes
  rw [Buffer.updateCrc_of_hasCrcs matching] at seals
  simp only [EStateM.Result.ok.injEq, true_and] at seals
  rw [← seals]

/-- Adding a chain leaves a header that can be signed as it is just if it counts the sections. -/
theorem header_addChain_iff {chain : SignatureChain}
    (signable : configuration.header.validateForSigning = .ok ())
    (added : addChain chain configuration = .ok index changed) (valid : changed.validate = .ok ()) :
    configuration.header.buffer.bytes = changed.header.buffer.bytes ↔
      configuration.header.sectionsRemaining =
        .ok (UInt32.ofNat configuration.sections.length) := by
  obtain ⟨signatures, -, updated⟩ := addChain_eq_ok_iff.mp added
  constructor
  · intro bytes
    have counted := count_of_validate valid
    obtain ⟨sections, _, header, _, _, renews, -, -, -, -, rfl⟩ := update_eq_ok_iff.mp updated
    rw [length_updateSections renews] at counted
    rw [← counted]
    have size : configuration.header.buffer.size = header.buffer.size := congrArg List.length bytes
    exact Buffer.getWord_congr (Buffer.getRaw_congr size (by rw [bytes]))
  · intro counted
    let before : Configuration := { configuration with signatures := signatures }
    have signableBefore : before.header.validateForSigning = .ok () := signable
    rw [header_update_of_counted signableBefore counted updated]

end Configuration
end SecureBoot
