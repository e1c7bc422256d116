import SecureBoot.Proofs.Parsing

/-!
Reading back what was refreshed. An object whose headers register the magic numbers and checksums
that new headers register is read back from its own bytes, with the same bytes in every part. The
sections of a configuration are found again because each says how many follow.
-/

namespace SecureBoot

namespace ConfigurationHeader

variable {header : ConfigurationHeader}

/-- The header as it is read from its own bytes. -/
def reread (header : ConfigurationHeader) : ConfigurationHeader :=
  ⟨{ empty.buffer with bytes := header.buffer.bytes }⟩

theorem standard_reread (whole : header.size = Size.header) : header.reread.Standard :=
  ⟨rfl, fun _ bounded => Nat.le_of_eq (whole.trans (Option.some.inj bounded))⟩

theorem validate_reread (registers : header.buffer.Registers empty.buffer)
    (valid : header.validate = .ok ()) : header.reread.validate = .ok () := by
  obtain ⟨whole, checked⟩ := buffer_of_validate valid
  have refilled : header.reread.buffer.validate = .ok () :=
    registers.validate_refilled checked (congrArg some whole.symm)
  rw [← valid, validate, validate, refilled, checked]
  rfl

end ConfigurationHeader

theorem SectionHeader.setSectionsRemaining_eq_ok_iff {header changed : SectionHeader}
    {count : UInt32} :
    header.setSectionsRemaining count = .ok changed ↔
      ∃ buffer, header.buffer.setWord count sectionsRemainingOffset = .ok buffer ∧
        ⟨buffer⟩ = changed := by
  simp only [setSectionsRemaining, bind_eq_ok_iff, pure_eq_ok_iff]

theorem SectionHeader.validate_reread {header : SectionHeader}
    (registers : header.buffer.Registers empty.buffer) (valid : header.validate = .ok ()) :
    header.reread.validate = .ok () := by
  obtain ⟨whole, checked⟩ := validate_eq_ok_iff.mp valid
  exact validate_eq_ok_iff.mpr
    ⟨whole, registers.validate_refilled checked (congrArg some whole.symm)⟩

namespace CertificateHeader

variable {header : CertificateHeader}

/-- The header as it is read from its own bytes. -/
def reread (header : CertificateHeader) : CertificateHeader :=
  ⟨{ empty.buffer with bytes := header.buffer.bytes }⟩

theorem standard_reread (whole : header.size = Size.header) : header.reread.Standard :=
  ⟨rfl, fun _ bounded => Nat.le_of_eq (whole.trans (Option.some.inj bounded))⟩

theorem validate_reread (registers : header.buffer.Registers empty.buffer)
    (valid : header.validate = .ok ()) : header.reread.validate = .ok () := by
  obtain ⟨whole, checked, typed⟩ := validate_eq_ok_iff.mp valid
  exact validate_eq_ok_iff.mpr
    ⟨whole, registers.validate_refilled checked (congrArg some whole.symm), typed⟩

end CertificateHeader

variable {answer : Unit} {rest : Bytes}

namespace Section

variable {sect changed : Section}

/-- The header registers what a new one does, and the signatures are laid out like new ones. -/
structure Registered (sect : Section) : Prop where
  header : sect.header.buffer.Registers SectionHeader.empty.buffer
  signatures : sect.signatures.Standard

/-- A valid section that was refreshed. -/
structure Refreshed (sect : Section) : Prop where
  registered : sect.Registered
  padded : sect.signatures.table.Padded
  valid : sect.validate = .ok ()

theorem Registered.update (registered : sect.Registered)
    (ran : Section.update sect = .ok answer changed) :
    changed.Registered ∧ changed.signatures.table.Padded := by
  obtain ⟨standard, padded, -⟩ := update_keeps registered.signatures ran
  obtain ⟨_, _, _, _, _, -, measures, refreshes, -, -, rfl⟩ := update_eq_ok_iff.mp ran
  obtain ⟨_, stores, rfl⟩ := SectionHeader.setSectionLength_eq_ok_iff.mp measures
  obtain ⟨_, seals, rfl⟩ := SectionHeader.update_eq_ok_iff.mp refreshes
  exact ⟨⟨(registered.header.setWord stores).updateCrc seals, standard⟩, padded⟩

@[simp] theorem toBytes_reread (sect : Section) :
    Fragment.toBytes sect.reread = Fragment.toBytes sect := by
  rw [toBytes_eq, toBytes_eq]
  rfl

namespace Refreshed

theorem takes (refreshed : sect.Refreshed) (rest : Bytes) :
    Edit.Takes Fragment.read empty (Fragment.toBytes sect) rest (Fragment.size sect)
      sect.reread := by
  obtain ⟨⟨validHeader, -⟩, -⟩ := validate_eq_ok_iff.mp refreshed.valid
  exact takes_read refreshed.registered.signatures refreshed.padded refreshed.valid
    (SectionHeader.validate_reread refreshed.registered.header validHeader) rest

theorem validate_reread (refreshed : sect.Refreshed) : sect.reread.validate = .ok () := by
  obtain ⟨left, ran, -⟩ := refreshed.takes [] (Stream.ofBytes (Fragment.toBytes sect))
    (Stream.steady_ofBytes _) (by simp)
  exact (read_sound (Stream.steady_ofBytes _) ran).2.2

theorem length_toBytes_pos (refreshed : sect.Refreshed) : 0 < (Fragment.toBytes sect).length :=
  Nat.lt_of_lt_of_le (by decide) (header_le refreshed.valid)

end Refreshed
end Section

namespace Configuration

variable {configuration changed : Configuration} {sections renewed : List Section}
  {index rounds : Nat} {remaining : UInt32}

/-- The headers register what new ones do, and the signatures are laid out like new ones. -/
structure Registered (configuration : Configuration) : Prop where
  header : configuration.header.buffer.Registers ConfigurationHeader.empty.buffer
  signatures : configuration.signatures.Standard
  sections : ∀ sect ∈ configuration.sections, sect.Registered

theorem validateParts_eq_ok_iff :
    Composite.validateParts configuration = .ok answer ↔
      configuration.header.validate = .ok () ∧ configuration.signatures.validate = .ok () ∧
        (∀ sect ∈ configuration.sections, sect.validate = .ok ()) ∧
        configuration.payload.validate = .ok () := by
  rw [Composite.validateParts_eq_ok_iff, show Composite.parts configuration =
    [_, _] ++ Part.ofList _ configuration.sections ++ [_] from rfl, List.forall_mem_append,
    List.forall_mem_append, List.forall_mem_cons, List.forall_mem_singleton,
    List.forall_mem_singleton, Part.validate_ofList, and_assoc, and_assoc]
  rfl

/-- Each section is told how many follow it, and is refreshed. -/
theorem updateSections_cons_eq_ok_iff {first : Section} :
    updateSections (first :: sections) = .ok answer renewed ↔
      ∃ counted fresh others,
        first.header.setSectionsRemaining (UInt32.ofNat sections.length) = .ok counted ∧
        Section.update { first with header := counted } = .ok () fresh ∧
        updateSections sections = .ok () others ∧ fresh :: others = renewed := by
  have renew {fresh : Section} {answer : Unit} : (do
      Section.onHeader (Edit.change (·.setSectionsRemaining (UInt32.ofNat sections.length)))
      Section.update : Edit Section Unit) first = .ok answer fresh ↔
        ∃ counted, first.header.setSectionsRemaining (UInt32.ofNat sections.length) = .ok counted ∧
          Section.update { first with header := counted } = .ok () fresh := by
    simp only [Section.onHeader, Edit.bind_eq_ok_iff, Edit.within_eq_ok_iff, Edit.change_eq_ok_iff]
    constructor
    · rintro ⟨_, _, ⟨counted, counts, rfl⟩, updated⟩
      exact ⟨counted, counts, updated⟩
    · rintro ⟨counted, counts, updated⟩
      exact ⟨(), _, ⟨counted, counts, rfl⟩, updated⟩
  constructor
  · intro ran
    rw [updateSections] at ran
    split at ran
    · cases ran
    · next fresh ranFirst =>
      obtain ⟨counted, counts, updated⟩ := renew.mp ranFirst
      split at ran
      · cases ran
      · next others ranOthers =>
        simp only [EStateM.Result.ok.injEq, true_and] at ran
        exact ⟨counted, fresh, others, counts, updated, ranOthers, ran⟩
  · rintro ⟨counted, fresh, others, counts, updated, ranOthers, rfl⟩
    have ranFirst := (@renew fresh ()).mpr ⟨counted, counts, updated⟩
    simp only [updateSections, ranFirst, ranOthers]

theorem updateSections_registered (registered : ∀ sect ∈ sections, sect.Registered)
    (ran : updateSections sections = .ok answer renewed) :
    ∀ sect ∈ renewed, sect.Registered ∧ sect.signatures.table.Padded := by
  induction sections generalizing renewed with
  | nil =>
    obtain ⟨-, rfl⟩ : answer = () ∧ [] = renewed := by simpa [updateSections] using ran
    exact List.forall_mem_nil _
  | cons first others ih =>
    obtain ⟨here, later⟩ := List.forall_mem_cons.mp registered
    obtain ⟨_, fresh, renewedOthers, counts, updated, ranOthers, rfl⟩ :=
      updateSections_cons_eq_ok_iff.mp ran
    obtain ⟨_, stores, rfl⟩ := SectionHeader.setSectionsRemaining_eq_ok_iff.mp counts
    have counted : Section.Registered { first with header := _ } :=
      ⟨here.header.setWord stores, here.signatures⟩
    exact List.forall_mem_cons.mpr ⟨counted.update updated, ih later ranOthers⟩

/-- The configuration as it is read from its own bytes. -/
def reread (configuration : Configuration) : Configuration where
  header := configuration.header.reread
  signatures := configuration.signatures
  sections := configuration.sections.map Section.reread
  payload := { Buffer.empty none with bytes := configuration.payload.bytes }

@[simp] theorem toBytes_reread (configuration : Configuration) :
    Fragment.toBytes configuration.reread = Fragment.toBytes configuration := by
  rw [toBytes_eq, toBytes_eq, reread, List.flatMap_map]
  simp only [Section.toBytes_reread]
  rfl

/-- A valid configuration that was refreshed. -/
structure Refreshed (configuration : Configuration) : Prop where
  header : configuration.header.buffer.Registers ConfigurationHeader.empty.buffer
  signatures : configuration.signatures.Standard
  padded : configuration.signatures.table.Padded
  sections : ∀ sect ∈ configuration.sections, sect.Refreshed
  valid : configuration.validate = .ok ()

theorem Registered.update (registered : configuration.Registered)
    (ran : Configuration.update configuration = .ok answer changed)
    (valid : changed.validate = .ok ()) : changed.Refreshed := by
  obtain ⟨sections, counted, header, signatures, signed, renews, counts, refreshes, signs, links,
    rfl⟩ := update_eq_ok_iff.mp ran
  obtain ⟨_, stores, rfl⟩ := ConfigurationHeader.setSectionsRemaining_eq_ok_iff.mp counts
  obtain ⟨_, seals, rfl⟩ := ConfigurationHeader.update_eq_ok_iff.mp refreshes
  obtain ⟨again, padded, -⟩ := registered.signatures.update signs
  obtain ⟨linked, table⟩ := again.setBlock0Hash links
  obtain ⟨-, -, each, -⟩ := validateParts_eq_ok_iff.mp (validate_eq_ok_iff.mp valid).1
  have renewed := updateSections_registered registered.sections renews
  exact ⟨(registered.header.setWord stores).updateCrc seals, linked, table ▸ padded,
    fun sect member => ⟨(renewed sect member).1, (renewed sect member).2, each sect member⟩, valid⟩

theorem checkCounts_reread (index announced : Nat) (sections : List Section) :
    checkCounts index announced (sections.map Section.reread) =
      checkCounts index announced sections := by
  induction sections generalizing index announced with
  | nil => rfl
  | cons first later ih =>
    rw [List.map_cons, checkCounts, checkCounts, List.length_map]
    simp only [ih]
    rfl

theorem Refreshed.validate_reread (refreshed : configuration.Refreshed) :
    configuration.reread.validate = .ok () := by
  obtain ⟨parts, linked, shape, count, stated, checked⟩ := validate_eq_ok_iff.mp refreshed.valid
  obtain ⟨validHeader, validSignatures, -⟩ := validateParts_eq_ok_iff.mp parts
  have follows : configuration.reread.payload.Follows (Buffer.empty none) :=
    ⟨rfl, fun _ bounded => nomatch bounded⟩
  refine validate_eq_ok_iff.mpr ⟨validateParts_eq_ok_iff.mpr
    ⟨ConfigurationHeader.validate_reread refreshed.header validHeader, validSignatures, ?_,
      follows.validate_of_plain rfl rfl⟩, linked, shape, count, stated, ?_⟩
  · refine List.forall_mem_map.mpr fun sect member => ?_
    exact (refreshed.sections sect member).validate_reread
  · rw [← checked]
    exact checkCounts_reread 0 count.toNat configuration.sections

/-- Every section takes bytes from the stream. -/
theorem length_le_flatMap (refreshed : ∀ sect ∈ sections, sect.Refreshed) :
    sections.length ≤ (sections.flatMap Fragment.toBytes).length := by
  induction sections with
  | nil => exact Nat.le_refl 0
  | cons first later ih =>
    obtain ⟨here, others⟩ := List.forall_mem_cons.mp refreshed
    rw [List.flatMap_cons, List.length_append, List.length_cons, Nat.add_comm]
    exact Nat.add_le_add here.length_toBytes_pos (ih others)

/-- As many sections are read as are announced, each of which announces those behind it. -/
theorem takes_readSections (refreshed : ∀ sect ∈ sections, sect.Refreshed)
    (announced : checkCounts index remaining.toNat sections = .ok answer)
    (enough : sections.length < rounds) (configuration : Configuration) (rest : Bytes) :
    Edit.Takes (readSections rounds remaining) configuration (sections.flatMap Fragment.toBytes)
      rest (Fragment.totalSize sections)
      { configuration with
        sections := configuration.sections ++ sections.map Section.reread } := by
  induction sections generalizing index remaining rounds configuration with
  | nil =>
    obtain ⟨rounds, rfl⟩ := Nat.exists_eq_add_one_of_ne_zero (Nat.ne_zero_of_lt enough)
    obtain rfl : remaining = 0 := UInt32.toNat_inj.mp (announced_of_checkCounts announced)
    rw [readSections, List.map_nil, List.append_nil]
    exact .pure 0 _ rest
  | cons first later ih =>
    obtain ⟨rounds, rfl⟩ := Nat.exists_eq_add_one_of_ne_zero (Nat.ne_zero_of_lt enough)
    obtain ⟨here, others⟩ := List.forall_mem_cons.mp refreshed
    have count : remaining.toNat = later.length + 1 := announced_of_checkCounts announced
    rw [checkCounts, bind_eq_ok_iff] at announced
    obtain ⟨_, -, announced⟩ := announced
    obtain ⟨next, stated, announcedLater⟩ := bind_eq_ok_iff.mp announced
    have unfinished : remaining ≠ 0 := by
      rintro rfl
      simp at count
    have fewer : next < remaining := by
      rw [UInt32.lt_iff_toNat_lt, announced_of_checkCounts announcedLater, count]
      exact Nat.lt_succ_self _
    have there : (Fragment.toBytes first ++ later.flatMap Fragment.toBytes ++ rest).isEmpty =
        false := by
      have := here.length_toBytes_pos
      rw [List.isEmpty_eq_false_iff, ← List.length_pos_iff, List.append_assoc, List.length_append]
      omega
    have takesFirst := here.takes (later.flatMap Fragment.toBytes ++ rest)
    have takesLater := ih others announcedLater (Nat.lt_of_succ_lt_succ enough)
      { configuration with sections := configuration.sections ++ [first.reread] }
    rw [List.append_assoc, List.singleton_append] at takesLater
    rw [readSections, if_neg unfinished, List.flatMap_cons, Fragment.totalSize]
    refine .look (.fromStream (.isExhausted _) _) (.get_bind fun stream _ => ?_)
    refine .look (.ask fun _ => require_of there) (.bind (.fromStream (.readNew takesFirst) _) ?_)
    refine .look (.ask fun _ => stated) (.look (.ask fun _ => require_of fewer) ?_)
    refine .look (.modify _ _ _) (.last takesLater ?_)
    exact .pure _ _ rest

/-- A valid configuration that was refreshed is read back from its own bytes. -/
theorem Refreshed.takes (refreshed : configuration.Refreshed) :
    Edit.Takes Fragment.read empty (Fragment.toBytes configuration) []
      (Size.header + Size.signatureDescriptor + Fragment.totalSize configuration.sections +
        configuration.payload.size) configuration.reread := by
  have validToo := refreshed.validate_reread
  obtain ⟨parts, -, -, count, stated, announced⟩ := validate_eq_ok_iff.mp refreshed.valid
  obtain ⟨validHeader, validSignatures, -⟩ := validateParts_eq_ok_iff.mp parts
  have whole := (ConfigurationHeader.buffer_of_validate validHeader).1
  have reads := ConfigurationHeader.validate_reread refreshed.header validHeader
  have follows : (Buffered.buffer configuration.header.reread).Follows
      (Buffered.buffer ConfigurationHeader.empty) := ConfigurationHeader.standard_reread whole
  let headed : Configuration := { empty with header := configuration.header.reread }
  let signed : Configuration := { headed with signatures := configuration.signatures }
  let divided : Configuration :=
    { signed with sections := configuration.sections.map Section.reread }
  have readHeader (rest : Bytes) : Edit.Takes (Edit.readPart Configuration.header
      (fun configuration header => { configuration with header := header })) empty
        configuration.header.buffer.bytes rest Size.header headed := by
    rw [← whole]
    refine .readPart (Buffered.takes_read follows rfl (congrArg some whole.symm) rfl reads rest)
  have readSignatures (rest : Bytes) : Edit.Takes (Edit.readPart Configuration.signatures
      (fun configuration signatures => { configuration with signatures := signatures })) headed
        (Fragment.toBytes configuration.signatures) rest Size.signatureDescriptor signed :=
    .readPart (SignatureDescriptor.takes_read refreshed.signatures refreshed.padded validSignatures
      rest)
  have asked : Edit.ask (fun configuration : Configuration =>
      configuration.header.sectionsRemaining) signed = .ok count signed :=
    Edit.ask_eq_ok_iff.mpr ⟨stated, rfl⟩
  have readPayload : Edit.Takes (Edit.readPart Configuration.payload
      (fun configuration payload => { configuration with payload := payload })) divided
        configuration.payload.bytes [] configuration.payload.size configuration.reread :=
    .readPart (Buffer.takes_rest configuration.payload.bytes)
  rw [toBytes_eq]
  show Edit.Takes read _ _ _ _ _
  rw [read]
  refine .bind (readHeader _) (.look (.ask fun _ => require_of rfl) ?_)
  refine .bind (readSignatures _) (.look (.modify _ signed _) (.look (.onObject asked _) ?_))
  refine .get_bind fun stream unread => ?_
  have enough : configuration.sections.length < stream.unread.length + 1 := by
    have := length_le_flatMap refreshed.sections
    rw [unread, List.length_append, List.length_append]
    omega
  refine .bind (takes_readSections refreshed.sections announced enough _ _) ?_
  refine .look (.modify _ _ _) (.last readPayload (.look (.check validToo _) ?_))
  exact .pure _ _ []

end Configuration

namespace Certificate

variable {certificate changed : Certificate}

/-- The header registers what a new one does, and the signatures are laid out like new ones. -/
structure Registered (certificate : Certificate) : Prop where
  header : certificate.header.buffer.Registers CertificateHeader.empty.buffer
  signatures : certificate.signatures.Standard

/-- The certificate as it is read from its own bytes. -/
def reread (certificate : Certificate) : Certificate :=
  ⟨certificate.header.reread, certificate.signatures⟩

@[simp] theorem toBytes_reread (certificate : Certificate) :
    Fragment.toBytes certificate.reread = Fragment.toBytes certificate := by
  rw [toBytes_eq, toBytes_eq]
  rfl

theorem Registered.update (registered : certificate.Registered)
    (ran : Certificate.update certificate = .ok answer changed) :
    changed.Registered ∧ changed.signatures.table.Padded := by
  obtain ⟨header, signatures, signed, refreshes, signs, links, rfl⟩ := update_eq_ok_iff.mp ran
  obtain ⟨_, seals, rfl⟩ := CertificateHeader.update_eq_ok_iff.mp refreshes
  obtain ⟨again, padded, -⟩ := registered.signatures.update signs
  obtain ⟨linked, table⟩ := again.setBlock0Hash links
  exact ⟨⟨registered.header.updateCrc seals, linked⟩, table ▸ padded⟩

/-- A valid certificate that was refreshed is read back from its own bytes. -/
theorem Registered.takes (registered : certificate.Registered)
    (padded : certificate.signatures.table.Padded) (valid : certificate.validate = .ok ())
    (rest : Bytes) :
    Edit.Takes Fragment.read empty (Fragment.toBytes certificate) rest Size.certificate
      certificate.reread := by
  obtain ⟨whole, ⟨validHeader, validSignatures⟩, linked⟩ := validate_eq_ok_iff.mp valid
  have size := (CertificateHeader.validate_eq_ok_iff.mp validHeader).1
  have standard : certificate.reread.Standard :=
    ⟨CertificateHeader.standard_reread size, registered.signatures⟩
  have validToo : certificate.reread.validate = .ok () := validate_eq_ok_iff.mpr
    ⟨whole, ⟨CertificateHeader.validate_reread registered.header validHeader, validSignatures⟩,
      linked⟩
  rw [← toBytes_reread]
  exact takes_read standard padded validToo rest

end Certificate

theorem Bytes.wordAt_of_allZero {bytes : Bytes} (zeros : allZero bytes = true)
    (long : 0 + 4 ≤ bytes.length) : wordAt bytes 0 = 0 := by
  have same : bytes = Bytes.zeros bytes.length := by
    refine List.eq_replicate_iff.mpr ⟨rfl, fun byte member => ?_⟩
    simpa using List.all_eq_true.mp zeros byte member
  rw [same, wordAt, slice_zeros long]
  decide

/-- A slot of zeros or of a valid signature begins with a zero word or with the magic number of
signatures. -/
theorem Signature.wordAt_slot {slot : Bytes} {signature : Option Signature}
    (there : ofSlot slot = .ok signature) (long : 0 + 4 ≤ slot.length) :
    Bytes.wordAt slot 0 = Magic.signature ∨ Bytes.wordAt slot 0 = 0 := by
  rw [ofSlot] at there
  split at there
  · next zeros => exact .inr (Bytes.wordAt_of_allZero zeros long)
  · simp only [ofBytes, Buffer.create, validate, bind_eq_ok_iff, exists_unit_iff, pure_eq_ok_iff]
      at there
    obtain ⟨_, ⟨_, ⟨-, rfl⟩, ⟨checked, -⟩, -⟩, -⟩ := there
    obtain ⟨-, stand, -⟩ := Buffer.validate_eq_ok_iff.mp checked
    exact .inl (stand (Magic.signature, 0) (List.mem_singleton_self _)).2

namespace SigningModule

variable {signingModule changed : SigningModule}

/-- The header registers what a new one does, and an entry is laid out like a new one that carries a
public key. -/
def Registered : SigningModule → Prop
  | cmfDescriptor header _ => header.buffer.Registers ConfigurationHeader.empty.buffer
  | certificateHeader header _ => header.buffer.Registers CertificateHeader.empty.buffer
  | publicKey entry => entry.Standard ∧ entry.kind = .publicKey

/-- The module as it is read from its own bytes. -/
def reread : SigningModule → SigningModule
  | cmfDescriptor header slot => cmfDescriptor header.reread { emptySlot with bytes := slot.bytes }
  | certificateHeader header slot =>
    certificateHeader header.reread { emptySlot with bytes := slot.bytes }
  | publicKey entry => publicKey entry

@[simp] theorem toBytes_reread (signingModule : SigningModule) :
    Fragment.toBytes signingModule.reread = Fragment.toBytes signingModule := by
  cases signingModule with
  | cmfDescriptor => rw [reread, toBytes_cmfDescriptor, toBytes_cmfDescriptor]; rfl
  | certificateHeader => rw [reread, toBytes_certificateHeader, toBytes_certificateHeader]; rfl
  | publicKey => rfl

/-- The layout of the key in the entry. -/
def keyFormat : SigningModule → KeyFormat
  | cmfDescriptor .. | certificateHeader .. => .singleRoot
  | publicKey entry => entry.data.keyFormat

theorem updateSigned_eq_ok_iff {α : Type} [Fragment α] {build : α → Buffer → SigningModule}
    {header : α} {slot : Buffer} :
    updateSigned build header slot = .ok answer changed ↔
      ∃ newHeader newSlot, Fragment.update header = .ok () newHeader ∧
        Fragment.update slot = .ok () newSlot ∧ build newHeader newSlot = changed := by
  rw [updateSigned]
  cases Fragment.update header with
  | error => simp
  | ok _ newHeader => cases Fragment.update slot <;> simp

theorem Registered.update (registered : signingModule.Registered)
    (ran : SigningModule.update signingModule = .ok answer changed) : changed.Registered := by
  cases signingModule with
  | cmfDescriptor header slot =>
    obtain ⟨_, _, refreshes, -, rfl⟩ := updateSigned_eq_ok_iff.mp ran
    obtain ⟨_, seals, rfl⟩ := ConfigurationHeader.update_eq_ok_iff.mp refreshes
    exact Buffer.Registers.updateCrc registered seals
  | certificateHeader header slot =>
    obtain ⟨_, _, refreshes, -, rfl⟩ := updateSigned_eq_ok_iff.mp ran
    obtain ⟨_, seals, rfl⟩ := CertificateHeader.update_eq_ok_iff.mp refreshes
    exact Buffer.Registers.updateCrc registered seals
  | publicKey entry =>
    obtain ⟨standard, keyed⟩ := registered
    rw [SigningModule.update] at ran
    split at ran
    · cases ran
    · next fresh updated =>
      obtain ⟨-, rfl⟩ : answer = () ∧ publicKey fresh = changed := by simpa using ran
      obtain ⟨-, data, -⟩ := standard.header.update updated
      exact ⟨standard.update updated, by rw [ChainEntry.kind, data]; exact keyed⟩

theorem follows_slot {slot : Buffer} (sized : slot.size = Size.signature) :
    ({ emptySlot with bytes := slot.bytes } : Buffer).Follows emptySlot :=
  ⟨rfl, fun _ bounded => Nat.le_of_eq (sized.trans (Option.some.inj bounded))⟩

theorem Registered.validate_reread (registered : signingModule.Registered)
    (valid : signingModule.validate = .ok ()) : signingModule.reread.validate = .ok () := by
  obtain ⟨parts, sized, signed⟩ := validate_eq_ok_iff.mp valid
  have checked := Composite.validateParts_eq_ok_iff.mp parts
  have plain {slot : Buffer} (sized : slot.size = Size.signature) :
      ({ emptySlot with bytes := slot.bytes } : Buffer).validate = .ok () :=
    (follows_slot sized).validate_of_plain rfl rfl
  cases signingModule with
  | cmfDescriptor header slot =>
    have reads := ConfigurationHeader.validate_reread registered (checked _ List.mem_cons_self)
    refine validate_eq_ok_iff.mpr ⟨Composite.validateParts_eq_ok_iff.mpr ?_, sized, signed⟩
    exact List.forall_mem_cons.mpr ⟨reads, List.forall_mem_singleton.mpr (plain sized)⟩
  | certificateHeader header slot =>
    have reads := CertificateHeader.validate_reread registered (checked _ List.mem_cons_self)
    refine validate_eq_ok_iff.mpr ⟨Composite.validateParts_eq_ok_iff.mpr ?_, sized, signed⟩
    exact List.forall_mem_cons.mpr ⟨reads, List.forall_mem_singleton.mpr (plain sized)⟩
  | publicKey entry => exact valid

/-- A header and the slot behind it are read back. -/
theorem takes_headed {α : Type} [Buffered α] {build : α → Buffer → SigningModule}
    {header blank : α} {slot : Buffer}
    (follows : (Buffered.buffer header).Follows (Buffered.buffer blank))
    (unfilled : (Buffered.buffer blank).bytes = [])
    (bounded : (Buffered.buffer blank).limit = some (Buffered.buffer header).size)
    (put : Buffered.withBuffer blank (Buffered.buffer header) = header)
    (valid : Buffered.check header = .ok ()) (sized : slot.size = Size.signature)
    (start : SigningModule) (rest : Bytes) :
    Edit.Takes (@readSigned _ Buffered.fragment build blank emptySlot) start
      ((Buffered.buffer header).bytes ++ slot.bytes) rest
      ((Buffered.buffer header).size + Size.signature)
      (build header { emptySlot with bytes := slot.bytes }) := by
  let _ : Fragment α := Buffered.fragment
  have headed : Edit.Takes (Fragment.read : Edit (α × Stream) Nat) blank
      (Buffered.buffer header).bytes (slot.bytes ++ rest) (Buffered.buffer header).size header :=
    Buffered.takes_read follows unfilled bounded put valid _
  have behind := follows_slot sized
  have filled := behind.takes_read rfl (congrArg some sized.symm)
    (behind.validate_of_plain rfl rfl) rest
  rw [← sized]
  exact takes_readSigned headed filled start

theorem Registered.takes_readParts (registered : signingModule.Registered)
    (valid : signingModule.validate = .ok ()) (rest : Bytes) :
    ∃ count, Edit.Takes readParts (empty signingModule.kind signingModule.keyFormat)
      (Fragment.toBytes signingModule) rest count signingModule.reread := by
  obtain ⟨parts, sized, -⟩ := validate_eq_ok_iff.mp valid
  have checked := Composite.validateParts_eq_ok_iff.mp parts
  cases signingModule with
  | cmfDescriptor header slot =>
    have validHeader : header.validate = .ok () := checked _ List.mem_cons_self
    have whole := (ConfigurationHeader.buffer_of_validate validHeader).1
    have follows : (Buffered.buffer header.reread).Follows
        (Buffered.buffer ConfigurationHeader.empty) := ConfigurationHeader.standard_reread whole
    have takes := @takes_headed _ _ cmfDescriptor _ _ _ follows rfl (congrArg some whole.symm) rfl
      (ConfigurationHeader.validate_reread registered validHeader) sized
      (empty .cmfDescriptor .singleRoot) rest
    rw [toBytes_cmfDescriptor]
    exact ⟨_, fun stream steady held => takes stream steady held⟩
  | certificateHeader header slot =>
    have validHeader : header.validate = .ok () := checked _ List.mem_cons_self
    have whole := (CertificateHeader.validate_eq_ok_iff.mp validHeader).1
    have follows : (Buffered.buffer header.reread).Follows
        (Buffered.buffer CertificateHeader.empty) := CertificateHeader.standard_reread whole
    have takes := @takes_headed _ _ certificateHeader _ _ _ follows rfl (congrArg some whole.symm)
      rfl (CertificateHeader.validate_reread registered validHeader) sized
      (empty .certificateHeader .singleRoot) rest
    rw [toBytes_certificateHeader]
    exact ⟨_, fun stream steady held => takes stream steady held⟩
  | publicKey entry =>
    obtain ⟨standard, keyed⟩ := registered
    have takes := ChainEntry.takes_read standard (validate_publicKey valid) rest
    rw [keyed] at takes
    rw [toBytes_publicKey]
    refine ⟨entry.size, fun stream steady held => ?_⟩
    obtain ⟨left, ran, advances⟩ := takes stream steady held
    exact ⟨left, readParts_publicKey_eq_ok_iff.mpr ⟨entry, ran, rfl⟩, advances⟩

/-- A valid module is read back from its own bytes. -/
theorem Registered.takes (registered : signingModule.Registered)
    (valid : signingModule.validate = .ok ()) (rest : Bytes) :
    ∃ count, Edit.Takes Fragment.read (empty signingModule.kind signingModule.keyFormat)
      (Fragment.toBytes signingModule) rest count signingModule.reread := by
  have validToo := registered.validate_reread valid
  obtain ⟨count, takes⟩ := registered.takes_readParts valid rest
  have full : signingModule.reread.checkHeaderSize = .ok () := by
    cases signingModule with
    | cmfDescriptor header slot =>
      have parts := (validate_eq_ok_iff.mp validToo).1
      have validHeader : header.reread.validate = .ok () :=
        Composite.validateParts_eq_ok_iff.mp parts _ List.mem_cons_self
      exact require_of (ConfigurationHeader.buffer_of_validate validHeader).1
    | certificateHeader | publicKey => rfl
  exact ⟨count, .last takes (.look (.check full _) (.look (.check validToo _) (.pure _ _ rest)))⟩

end SigningModule
end SecureBoot
