import SecureBoot.Proofs.Atomicity

/-!
Adding to a container. A section or a chain is put into the container first, and the container is
refreshed afterwards; what was put in is not taken out again if that fails. So adding a section that
fails always leaves the section behind, and adding a chain that fails leaves the container as it was
just if the chain table refused the chain. What is valid and registers what a new container does can
be refreshed whatever is added, and then adding is all or nothing.
-/

namespace SecureBoot

namespace Artifact

variable {σ : Type} {artifact : Artifact σ} {object left : σ} {failure : Failure}
  {chain : SignatureChain}

/-- Nothing is checked once the signatures are stored. -/
def unchecked (artifact : Artifact σ) : Artifact σ :=
  { artifact with check := fun _ => .ok () }

/-- Store a chain and refresh what it signs, answering the slot of the chain. -/
def store (artifact : Artifact σ) (chain : SignatureChain) : Edit σ Nat := do
  let slot ← Edit.within artifact.signatures artifact.withSignatures
    (SignatureDescriptor.addChain chain)
  artifact.refresh
  return slot

/-- Storing a chain is signing with a chain that is there already, without the check. -/
theorem store_eq_sign : artifact.store chain = artifact.unchecked.sign fun _ => .ok chain :=
  rfl

theorem store_of_refused {refusal : Failure}
    (refused : (artifact.signatures object).table.add chain = .error refusal) :
    artifact.store chain object = .error refusal object := by
  rw [store_eq_sign]
  exact sign_of_refused rfl (SignatureDescriptor.addChain_of_refused refused)

theorem left_of_refused (refused : ∃ refusal,
      (artifact.signatures object).table.add chain = .error refusal)
    (ran : artifact.store chain object = .error failure left) : left = object := by
  obtain ⟨refusal, refused⟩ := refused
  rw [store_of_refused refused] at ran
  exact (EStateM.Result.error.inj ran).2.symm

/-- Storing a chain with entries that fails leaves an artifact as it is just if the table refused the
chain. -/
theorem store_unchanged_iff (filled : chain.isEmpty = false)
    (ran : artifact.store chain object = .error failure left) :
    left = object ↔ ∃ refusal, (artifact.signatures object).table.add chain = .error refusal := by
  have given : ∀ other, (.ok chain : Except Failure SignatureChain) = .ok other →
      other.isEmpty = false := by
    rintro _ ⟨⟩
    exact filled
  rw [store_eq_sign] at ran
  refine (@sign_unchanged_iff σ artifact.unchecked (fun _ => .ok chain) object left failure given
    ran).trans ?_
  constructor
  · exact fun refuses => refuses chain rfl
  · rintro refused _ ⟨⟩
    exact refused

/-- Storing a chain is all or nothing for an artifact with valid signatures that can be refreshed
whatever valid signatures it is given. -/
theorem store_unchanged (steady : (artifact.signatures object).Steady)
    (valid : (artifact.signatures object).validate = .ok ())
    (refreshes : ∀ descriptor : SignatureDescriptor, descriptor.Steady →
      descriptor.validate = .ok () →
      descriptor.table.format = (artifact.signatures object).table.format →
      ∃ changed, artifact.refresh (artifact.withSignatures object descriptor) = .ok () changed)
    (ran : artifact.store chain object = .error failure left) : left = object := by
  have accepts : ∀ descriptor : SignatureDescriptor, descriptor.Steady →
      descriptor.validate = .ok () →
      descriptor.table.format = (artifact.signatures object).table.format →
      ∃ changed, artifact.refresh (artifact.withSignatures object descriptor) = .ok () changed ∧
        artifact.unchecked.check changed = .ok () := by
    intro descriptor steadyToo validToo format
    obtain ⟨changed, refreshed⟩ := refreshes descriptor steadyToo validToo format
    exact ⟨changed, refreshed, rfl⟩
  rw [store_eq_sign] at ran
  exact @sign_unchanged σ artifact.unchecked _ object left failure steady valid accepts ran

/-- A chain that the table takes is left in an artifact that cannot be refreshed. -/
theorem store_leaves {slot : Nat} {table : ChainTable} (filled : chain.isEmpty = false)
    (added : (artifact.signatures object).table.add chain = .ok (slot, table))
    (stuck : ∀ descriptor changed,
      artifact.refresh (artifact.withSignatures object descriptor) ≠ .ok () changed) :
    ∃ failure left, artifact.store chain object = .error failure left ∧ left ≠ object := by
  cases ran : artifact.store chain object with
  | ok index changed =>
    rw [store] at ran
    simp only [Edit.bind_eq_ok_iff] at ran
    obtain ⟨_, _, adding, _, between, refreshed, -⟩ := ran
    obtain ⟨descriptor, -, rfl⟩ := Edit.within_eq_ok_iff.mp adding
    exact absurd refreshed (stuck descriptor between)
  | error failure left =>
    refine ⟨failure, left, rfl, fun same => ?_⟩
    obtain ⟨refusal, refused⟩ := (store_unchanged_iff filled ran).mp same
    cases added.symm.trans refused

end Artifact

namespace Section

variable {sect left : Section} {chain : SignatureChain} {failure : Failure} {index : Nat}

theorem keeps_update (settled : Fragment.update chain = .ok () chain) :
    Edit.Keeps (fun sect : Section => sect.signatures.Holds index chain) update := by
  unfold update onHeader onSignatures
  refine .bind (.ask _) fun _ => .bind (.elsewhere _ fun _ _ held => held) fun _ =>
    .bind (.elsewhere _ fun _ _ held => held) fun _ => .bind ?_ fun _ => .bind .get fun _ => ?_
  · exact (SignatureDescriptor.keeps_update settled).within (fun _ held => held) fun _ _ _ kept => kept
  · exact (SignatureDescriptor.keeps_setBlock0Hash _).within (fun _ held => held)
      fun _ _ _ kept => kept

/-- Refreshing does nothing to the payload. -/
theorem keeps_payload (payload : Buffer) :
    Edit.Keeps (fun sect : Section => sect.payload = payload) update := by
  unfold update onHeader onSignatures
  exact .bind (.ask _) fun _ => .bind (.elsewhere _ fun _ _ held => held) fun _ =>
    .bind (.elsewhere _ fun _ _ held => held) fun _ => .bind (.elsewhere _ fun _ _ held => held)
      fun _ => .bind .get fun _ => .elsewhere _ fun _ _ held => held

/-- Sections are signed too. -/
def artifact : Artifact Section where
  signatures := Section.signatures
  withSignatures sect signatures := { sect with signatures := signatures }
  refresh := update
  check := validate
  same _ := rfl
  shown _ _ := rfl
  keeps settled := keeps_update settled

/-- A section that can be refreshed is left as it was by adding a chain that fails. -/
theorem addChain_unchanged (registered : sect.Registered) (valid : sect.validate = .ok ())
    (ran : addChain chain sect = .error failure left) : left = sect := by
  obtain ⟨⟨validHeader, validSignatures, payload⟩, -, length, -, exact⟩ :=
    validate_eq_ok_iff.mp valid
  refine artifact.store_unchanged (registered.signatures.steady validSignatures) validSignatures
    (fun descriptor steady validToo _ => ?_) ran
  have spares := SectionHeader.sparesLength_of_registers registered.header
  obtain ⟨changed, updated, -⟩ := @update_exists_of_steady { sect with signatures := descriptor }
    steady validHeader spares validToo payload (exact ▸ length.toNat_lt)
  exact ⟨changed, updated⟩

end Section

namespace Certificate

variable {certificate left : Certificate} {chain : SignatureChain} {failure : Failure}

/-- So is a certificate. -/
theorem addChain_unchanged (standard : certificate.signatures.Standard)
    (valid : certificate.validate = .ok ())
    (ran : addChain chain certificate = .error failure left) : left = certificate := by
  obtain ⟨-, ⟨validHeader, validSignatures⟩, -⟩ := validate_eq_ok_iff.mp valid
  refine artifact.store_unchanged (standard.steady validSignatures) validSignatures
    (fun descriptor steady validToo _ => ?_) ran
  obtain ⟨changed, updated, -⟩ :=
    @update_exists { certificate with signatures := descriptor } steady validHeader validToo
  exact ⟨changed, updated⟩

end Certificate

namespace Configuration

variable {configuration left : Configuration} {sections : List Section} {sect : Section}
  {chain : SignatureChain} {failure : Failure}

/-- So is a configuration. -/
theorem addChain_unchanged (registered : configuration.Registered)
    (valid : configuration.validate = .ok ())
    (ran : addChain chain configuration = .error failure left) : left = configuration := by
  obtain ⟨format, fit⟩ := registered.fit_of_valid valid
  refine artifact.store_unchanged fit.steady fit.signatures
    (fun descriptor steady validToo shape => ?_) ran
  have fitToo : ({ configuration with signatures := descriptor } : Configuration).Fit format :=
    { fit with steady := steady, signatures := validToo, shape := shape.trans fit.shape }
  obtain ⟨changed, updated, -⟩ := fitToo.update_exists
  exact ⟨changed, updated⟩

/-- Renewing sections does nothing to their payloads, however it ends. -/
theorem keeps_payloads (payloads : List Buffer) :
    Edit.Keeps (fun sections : List Section => sections.map Section.payload = payloads)
      updateSections := by
  intro sections
  induction sections generalizing payloads with
  | nil => exact fun held => held
  | cons first rest ih =>
    rintro rfl
    have keeps : Edit.Keeps (fun sect : Section => sect.payload = first.payload)
        (renewal rest.length) :=
      .bind (.elsewhere _ fun _ _ held => held) fun _ => Section.keeps_payload first.payload
    have later : (Edit.after updateSections rest).map Section.payload =
        rest.map Section.payload := ih _ rfl
    cases ran : renewal rest.length first with
    | error failure changed =>
      simp only [after_updateSections_of_error ran]
      rw [List.map_cons, List.map_cons, keeps.of_error rfl ran]
    | ok answer changed =>
      simp only [after_updateSections_of_ok ran]
      rw [List.map_cons, List.map_cons, keeps.of_ok rfl ran, later]

/-- Whether adding a section succeeds or fails, the payload of the section stands behind those of the
others. -/
theorem payloads_pushSection (sect : Section) (configuration : Configuration) :
    ((pushSection sect).after configuration).sections.map Section.payload =
      configuration.sections.map Section.payload ++ [sect.payload] := by
  have keeps : Edit.Keeps (fun other : Configuration => other.sections.map Section.payload =
      configuration.sections.map Section.payload ++ [sect.payload]) update := by
    unfold update onHeader onSignatures
    refine .bind ((keeps_payloads _).within (fun _ held => held) fun _ _ _ kept => kept) fun _ =>
      .bind .get fun _ => .bind (.elsewhere _ fun _ _ held => held) fun _ =>
        .bind (.elsewhere _ fun _ _ held => held) fun _ => .bind (.elsewhere _ fun _ _ held => held)
          fun _ => .bind .get fun _ => .elsewhere _ fun _ _ held => held
  exact keeps { configuration with sections := configuration.sections ++ [sect] } (by simp)

/-- A section that registers what a new one does and is valid is added to any such configuration. -/
theorem pushSection_exists (registered : configuration.Registered)
    (valid : configuration.validate = .ok ()) (registeredToo : sect.Registered)
    (validToo : sect.validate = .ok ()) :
    ∃ changed, pushSection sect configuration = .ok () changed := by
  obtain ⟨format, fit⟩ := registered.fit_of_valid valid
  have each : ∀ other ∈ configuration.sections ++ [sect], other.Fit :=
    List.forall_mem_append.mpr
      ⟨fit.sections, List.forall_mem_singleton.mpr (registeredToo.fit validToo)⟩
  have grown : ({ configuration with
      sections := configuration.sections ++ [sect] } : Configuration).Fit format :=
    { fit with sections := each }
  obtain ⟨changed, updated, -⟩ := grown.update_exists
  exact ⟨changed, updated⟩

end Configuration

/-- Adding a section that fails never leaves a configuration as it was, because the section stays; it
does not fail where the configuration and the section are valid and register what new ones do.
Adding a chain that fails leaves a configuration, a section or a certificate as it was if the chain
table refused the chain, and with a chain that has entries only then; and always one that is valid
and registers what a new one does. -/
theorem adding_unchanged_iff (configuration : Configuration) (sect : Section)
    (certificate : Certificate) (chain : SignatureChain) :
    (∀ left failure, Configuration.pushSection sect configuration = .error failure left →
      left ≠ configuration ∧
      left.sections.map Section.payload =
        configuration.sections.map Section.payload ++ [sect.payload] ∧
      ¬(configuration.Registered ∧ configuration.validate = .ok () ∧ sect.Registered ∧
        sect.validate = .ok ())) ∧
    (∀ left failure, Configuration.addChain chain configuration = .error failure left →
      ((∃ refusal, configuration.signatures.table.add chain = .error refusal) →
        left = configuration) ∧
      (chain.isEmpty = false → left = configuration →
        ∃ refusal, configuration.signatures.table.add chain = .error refusal) ∧
      (configuration.Registered → configuration.validate = .ok () → left = configuration)) ∧
    (∀ left failure, Section.addChain chain sect = .error failure left →
      ((∃ refusal, sect.signatures.table.add chain = .error refusal) → left = sect) ∧
      (chain.isEmpty = false → left = sect →
        ∃ refusal, sect.signatures.table.add chain = .error refusal) ∧
      (sect.Registered → sect.validate = .ok () → left = sect)) ∧
    ∀ left failure, Certificate.addChain chain certificate = .error failure left →
      ((∃ refusal, certificate.signatures.table.add chain = .error refusal) →
        left = certificate) ∧
      (chain.isEmpty = false → left = certificate →
        ∃ refusal, certificate.signatures.table.add chain = .error refusal) ∧
      (certificate.signatures.Standard → certificate.validate = .ok () →
        left = certificate) := by
  refine ⟨fun left failure ran => ?_, fun left failure ran => ?_, fun left failure ran => ?_,
    fun left failure ran => ?_⟩
  · have held := Configuration.payloads_pushSection sect configuration
    rw [Edit.after, ran] at held
    refine ⟨?_, held, ?_⟩
    · rintro rfl
      simpa using congrArg List.length held
    · rintro ⟨registered, valid, registeredToo, validToo⟩
      obtain ⟨_, pushed⟩ :=
        Configuration.pushSection_exists registered valid registeredToo validToo
      cases pushed.symm.trans ran
  · exact ⟨fun refused => Configuration.artifact.left_of_refused refused ran,
      fun filled => (Configuration.artifact.store_unchanged_iff filled ran).mp,
      fun registered valid => Configuration.addChain_unchanged registered valid ran⟩
  · exact ⟨fun refused => Section.artifact.left_of_refused refused ran,
      fun filled => (Section.artifact.store_unchanged_iff filled ran).mp,
      fun registered valid => Section.addChain_unchanged registered valid ran⟩
  · exact ⟨fun refused => Certificate.artifact.left_of_refused refused ran,
      fun filled => (Certificate.artifact.store_unchanged_iff filled ran).mp,
      fun standard valid => Certificate.addChain_unchanged standard valid ran⟩

/-- A chain that expects entries yet is refused by every table. -/
theorem ChainTable.add_expecting (table : ChainTable) :
    ∃ refusal, table.add (SignatureChain.expecting none) = .error refusal := by
  cases added : table.add (SignatureChain.expecting none) with
  | error refusal => exact ⟨refusal, rfl⟩
  | ok pair =>
    have settled : (SignatureChain.expecting none).validate ≠ .ok () := by decide
    exact absurd (ChainTable.add_eq_ok_iff.mp added).1 settled

/-- A section that was not read yet cannot be counted. -/
theorem Configuration.pushSection_empty {configuration : Configuration}
    (noSections : configuration.sections = []) :
    ∃ failure left, pushSection Section.empty configuration = .error failure left := by
  obtain ⟨failure, rest, stops⟩ : ∃ failure rest,
      updateSections [Section.empty] = .error failure rest := ⟨_, _, rfl⟩
  let grown : Configuration :=
    { configuration with sections := configuration.sections ++ [Section.empty] }
  have failed : Edit.within Configuration.sections
      (fun configuration sections => { configuration with sections := sections }) updateSections
      grown = .error failure { grown with sections := rest } := by
    simp only [Edit.within, grown, noSections, List.nil_append, stops]
  have added : pushSection Section.empty configuration = update grown := rfl
  exact ⟨failure, _, added.trans (Edit.bind_of_error failed)⟩

/-- A chain that is not complete is refused by a valid configuration, a new section and a new
certificate, which stay as they are; a section that was not read stays in a new configuration. -/
theorem adding_unchanged_iff_refused :
    ∃ (configuration start left same : Configuration) (sect other : Section)
      (certificate another : Certificate) (failure first second third : Failure),
      Configuration.create .sdmLite = .ok start ∧
      Configuration.pushSection Section.empty start = .error failure left ∧
      left ≠ start ∧ left.sections.map Section.payload = [Section.empty.payload] ∧
      configuration.Registered ∧ configuration.validate = .ok () ∧
      configuration.sections.map (·.payload.bytes) = [[0, 17, 34, 51]] ∧
      Configuration.addChain (SignatureChain.expecting none) configuration = .error first same ∧
      same = configuration ∧
      Section.create 7 [1, 2, 3] .classic = .ok sect ∧
      Section.addChain (SignatureChain.expecting none) sect = .error second other ∧ other = sect ∧
      Certificate.create "1" "2" "3" = .ok certificate ∧
      Certificate.addChain (SignatureChain.expecting none) certificate = .error third another ∧
      another = certificate := by
  obtain ⟨start, created, -, -, noSections⟩ := @Configuration.create_exists .sdmLite .sha384 rfl
  obtain ⟨failure, left, pushed⟩ := Configuration.pushSection_empty noSections
  obtain ⟨before, configuration, registered, updated, valid, payloads, -⟩ :=
    @Configuration.refreshed_exists [(1, [0, 17, 34, 51])] (by decide) (by decide) []
  have refreshed := registered.update updated valid
  have registeredToo : configuration.Registered := ⟨refreshed.header, refreshed.signatures,
    fun sect member => (refreshed.sections sect member).registered⟩
  obtain ⟨sect, made, -⟩ := @Section.create_exists 7 [1, 2, 3] (by decide) .classic
  obtain ⟨certificate, certified, -⟩ : ∃ certificate,
      Certificate.create "1" "2" "3" = .ok certificate ∧ certificate.Standard ∧
        certificate.validate = .ok () := Certificate.create_exists rfl rfl rfl
  obtain ⟨first, refusedFirst⟩ := configuration.signatures.table.add_expecting
  obtain ⟨second, refusedSecond⟩ := sect.signatures.table.add_expecting
  obtain ⟨third, refusedThird⟩ := certificate.signatures.table.add_expecting
  have ranFirst := Configuration.artifact.store_of_refused refusedFirst
  have ranSecond := Section.artifact.store_of_refused refusedSecond
  have ranThird := Certificate.artifact.store_of_refused refusedThird
  have pushes := (adding_unchanged_iff start Section.empty certificate SignatureChain.empty).1
  obtain ⟨changed, stays, -⟩ := pushes left failure pushed
  obtain ⟨-, configurations, sections, certificates⟩ :=
    adding_unchanged_iff configuration sect certificate (SignatureChain.expecting none)
  refine ⟨configuration, start, left, _, sect, _, certificate, _, failure, first, second, third,
    created, pushed, changed, by simpa [noSections] using stays, registeredToo, valid, payloads, ranFirst,
    (configurations _ _ ranFirst).2.2 registeredToo valid, made, ranSecond,
    (sections _ _ ranSecond).1 ⟨second, refusedSecond⟩, certified, ranThird,
    (certificates _ _ ranThird).1 ⟨third, refusedThird⟩⟩

/-- A section that was not read fails to be added and stays; and a chain with entries fails to be
added to containers whose headers were not read, and stays in their tables. -/
theorem adding_leaves_part :
    (∃ start failure left, Configuration.create .sdmLite = .ok start ∧
      Configuration.pushSection Section.empty start = .error failure left ∧ left ≠ start) ∧
    ∃ chain signatures, SignatureChain.openChain = .ok chain ∧
      SignatureDescriptor.create .classic = .ok signatures ∧
      (∃ failure left, Configuration.addChain chain { Configuration.empty with
          signatures := signatures } = .error failure left ∧
        left ≠ { Configuration.empty with signatures := signatures }) ∧
      (∃ failure left, Section.addChain chain { Section.empty with signatures := signatures } =
          .error failure left ∧ left ≠ { Section.empty with signatures := signatures }) ∧
      ∃ failure left, Certificate.addChain chain { Certificate.empty with
          signatures := signatures } = .error failure left ∧
        left ≠ { Certificate.empty with signatures := signatures } := by
  constructor
  · obtain ⟨start, created, -, -, noSections⟩ := @Configuration.create_exists .sdmLite .sha384 rfl
    obtain ⟨failure, left, pushed⟩ := Configuration.pushSection_empty noSections
    have held := Configuration.payloads_pushSection Section.empty start
    rw [Edit.after, pushed] at held
    refine ⟨start, failure, left, created, pushed, ?_⟩
    rintro rfl
    simpa using congrArg List.length held
  · obtain ⟨chain, opened, -, -, size⟩ := SignatureChain.openChain_exists
    obtain ⟨standardChain, validChain⟩ := SignatureChain.standard_openChain opened
    obtain ⟨signatures, made, standard, -, valid, shape, chains⟩ :=
      SignatureDescriptor.create_exists .classic
    have fits : Size.chainTableHeader + chain.size ≤ SignatureDescriptor.tableSize := by
      rw [size]
      decide
    obtain ⟨_, adds, -⟩ := (standard.steady valid).addChain_exists valid (shape ▸ chains)
      (standardChain.update_of_valid validChain) validChain fits
    obtain ⟨table, added, -⟩ := SignatureDescriptor.addChain_eq_ok_iff.mp adds
    have filled : chain.isEmpty = false := Bool.eq_false_iff.mpr fun empty => by
      have zero := (ChainTable.size_of_isEmpty empty).2
      omega
    refine ⟨chain, signatures, opened, made,
      Configuration.artifact.store_leaves filled added fun descriptor changed updated => ?_,
      Section.artifact.store_leaves filled added fun descriptor changed updated => ?_,
      Certificate.artifact.store_leaves filled added fun descriptor changed updated => ?_⟩
    · obtain ⟨_, _, _, _, _, -, counts, -⟩ := Configuration.update_eq_ok_iff.mp updated
      obtain ⟨_, stored, -⟩ := ConfigurationHeader.setSectionsRemaining_eq_ok_iff.mp counts
      have short : ¬ConfigurationHeader.sectionsRemainingOffset + 4 ≤
        ConfigurationHeader.empty.buffer.size := by decide
      exact short (Buffer.setWord_eq_ok_iff.mp stored).1
    · obtain ⟨_, _, _, _, _, -, measures, -⟩ := Section.update_eq_ok_iff.mp updated
      obtain ⟨_, stored, -⟩ := SectionHeader.setSectionLength_eq_ok_iff.mp measures
      have short : ¬SectionHeader.sectionLengthOffset + 4 ≤ SectionHeader.empty.buffer.size := by
        decide
      exact short (Buffer.setWord_eq_ok_iff.mp stored).1
    · obtain ⟨_, _, _, refreshes, -⟩ := Certificate.update_eq_ok_iff.mp updated
      obtain ⟨_, seals, -⟩ := CertificateHeader.update_eq_ok_iff.mp refreshes
      have short : ¬∀ address ∈ CertificateHeader.empty.buffer.crcAddresses,
        address + 4 ≤ CertificateHeader.empty.buffer.size := by decide
      exact short (Buffer.updateCrc_eq_ok_iff.mp seals).1

end SecureBoot
