import SecureBoot.Proofs.Editing
import SecureBoot.Proofs.Signing

/-!
Signing that fails. The chain is stored before the rest is refreshed and checked, and it is not taken
out again: what was to be signed is left as it was just if no chain came about or the table had no
place for it. What can be refreshed to something valid is always left as it was, because then
nothing fails once the chain is stored.
-/

namespace SecureBoot

section Settled

variable {chain : SignatureChain} {index : Nat}

/-- A chain that refreshing leaves alone stays in its slot while its table is refreshed. -/
theorem ChainTable.keeps_update (settled : Fragment.update chain = .ok () chain) :
    Edit.Keeps (fun table : ChainTable => table.chain? index = some chain) update := by
  unfold update updateHeader pad
  refine .bind ((Edit.Keeps.each_at settled index).within (fun _ held => held) fun _ _ _ kept => kept)
    fun _ => .bind ?_ fun _ => ?_
  · exact .bind .get fun table => .elsewhere _ fun _ _ held => held
  · exact .bind (.ask _) fun room => .bind (.modify fun _ held => held) fun _ =>
      .elsewhere _ fun _ _ held => held

variable {table changed : ChainTable}

/-- The table that takes a chain has refreshed it, and stores it as it was given. -/
theorem ChainTable.settled_of_add (added : table.add chain = .ok (index, changed)) :
    Fragment.update chain = .ok () chain := by
  obtain ⟨valid, free, updated⟩ := add_eq_ok_iff.mp added
  obtain ⟨inside, -⟩ := List.findIdx?_eq_some_iff_getElem.mp free
  obtain ⟨chains, _, each, -⟩ := update_eq_ok_iff.mp updated
  have insideSet : index < (table.chains.set index chain).length := by rwa [List.length_set]
  have refreshed := each.get insideSet (each.length_eq ▸ insideSet)
  simp only [List.get_eq_getElem, List.getElem_set_self] at refreshed
  rwa [SignatureChain.update_same valid refreshed] at refreshed

/-- The slot that takes a chain holds an empty one. -/
theorem ChainTable.isEmpty_of_add (added : table.add chain = .ok (index, changed))
    {held : SignatureChain} (there : table.chain? index = some held) : held.isEmpty = true := by
  obtain ⟨-, free, -⟩ := add_eq_ok_iff.mp added
  obtain ⟨inside, empty, -⟩ := List.findIdx?_eq_some_iff_getElem.mp free
  obtain ⟨_, rfl⟩ := List.getElem?_eq_some_iff.mp there
  exact empty

namespace SignatureDescriptor

/-- The chain in a slot of the table. -/
def Holds (index : Nat) (chain : SignatureChain) (descriptor : SignatureDescriptor) : Prop :=
  descriptor.table.chain? index = some chain

theorem keeps_updateCrc : Edit.Keeps (Holds index chain) updateCrc := by
  unfold updateCrc
  exact .bind (.ask _) fun crc => .elsewhere _ fun _ _ held => held

theorem keeps_update (settled : Fragment.update chain = .ok () chain) :
    Edit.Keeps (Holds index chain) update := by
  refine .bind ?_ fun _ => keeps_updateCrc
  exact (ChainTable.keeps_update settled).within (fun _ held => held) fun _ _ _ kept => kept

theorem keeps_setBlock0Hash (hash : Bytes) :
    Edit.Keeps (Holds index chain) (setBlock0Hash hash) :=
  .bind (.elsewhere _ fun _ _ held => held) fun _ => keeps_updateCrc

variable {descriptor : SignatureDescriptor}

/-- A chain that found a place in the table is in the descriptor even if the rest fails. -/
theorem holds_after_addChain (added : descriptor.table.add chain = .ok (index, table)) :
    Holds index chain ((addChain chain).after descriptor) := by
  have stored : onTable (Edit.exchange (·.add chain)) descriptor =
      .ok index { descriptor with table := table } :=
    Edit.within_eq_ok_iff.mpr ⟨table, Edit.exchange_eq_ok_iff.mpr added, rfl⟩
  obtain ⟨-, there⟩ := ChainTable.chain?_add added
  rw [addChain, Edit.after_bind stored]
  exact (keeps_updateCrc.bind fun _ => .pure index) _ there

end SignatureDescriptor

end Settled

/-- Something that is signed: it has signatures, which refreshing keeps, and is refreshed and checked
once they are stored. -/
structure Artifact (σ : Type) where
  signatures : σ → SignatureDescriptor
  withSignatures : σ → SignatureDescriptor → σ
  refresh : Edit σ Unit
  check : σ → Except Failure Unit
  same : ∀ object, withSignatures object (signatures object) = object
  shown : ∀ object descriptor, signatures (withSignatures object descriptor) = descriptor
  keeps : ∀ {index chain}, Fragment.update chain = .ok () chain →
    Edit.Keeps (fun object => (signatures object).Holds index chain) refresh

namespace Artifact

variable {σ : Type} {artifact : Artifact σ} {prepare : σ → Except Failure SignatureChain}
  {object left : σ} {failure : Failure} {chain : SignatureChain}

/-- Store the chain that is prepared for an artifact, refresh the artifact and check it, answering
the slot of the chain. -/
def sign (artifact : Artifact σ) (prepare : σ → Except Failure SignatureChain) : Edit σ Nat := do
  let chain ← Edit.ask prepare
  let slot ← Edit.within artifact.signatures artifact.withSignatures
    (SignatureDescriptor.addChain chain)
  artifact.refresh
  Edit.ask artifact.check
  return slot

theorem sign_of_unprepared (unprepared : prepare object = .error failure) :
    artifact.sign prepare object = .error failure object := by
  refine Edit.bind_of_error ?_
  simp only [Edit.ask, unprepared]

theorem sign_of_prepared (prepared : prepare object = .ok chain) :
    artifact.sign prepare object = (do
      let slot ← Edit.within artifact.signatures artifact.withSignatures
        (SignatureDescriptor.addChain chain)
      artifact.refresh
      Edit.ask artifact.check
      return slot : Edit σ Nat) object :=
  Edit.bind_of_ok (Edit.ask_eq_ok_iff.mpr ⟨prepared, rfl⟩)

/-- An artifact whose descriptor refuses the chain is left as it is. -/
theorem sign_of_refused (prepared : prepare object = .ok chain)
    (refused : SignatureDescriptor.addChain chain (artifact.signatures object) =
      .error failure (artifact.signatures object)) :
    artifact.sign prepare object = .error failure object := by
  rw [sign_of_prepared prepared]
  refine Edit.bind_of_error ?_
  simp only [Edit.within, refused, artifact.same]

/-- A chain that found a place in the table is in the artifact however signing ends. -/
theorem holds_after_sign {index : Nat} {table : ChainTable} (prepared : prepare object = .ok chain)
    (added : (artifact.signatures object).table.add chain = .ok (index, table)) :
    (artifact.signatures ((artifact.sign prepare).after object)).Holds index chain := by
  have stored := SignatureDescriptor.holds_after_addChain added
  have keeps : Edit.Keeps (fun object => (artifact.signatures object).Holds index chain)
      artifact.refresh := artifact.keeps (ChainTable.settled_of_add added)
  rw [Edit.after, sign_of_prepared prepared, ← Edit.after]
  cases ran : SignatureDescriptor.addChain chain (artifact.signatures object) with
  | error failure descriptor =>
    rw [Edit.after, ran] at stored
    have stops : Edit.within artifact.signatures artifact.withSignatures
        (SignatureDescriptor.addChain chain) object =
          .error failure (artifact.withSignatures object descriptor) := by
      simp only [Edit.within, ran]
    rw [Edit.after, Edit.bind_of_error stops]
    simpa only [artifact.shown] using stored
  | ok slot descriptor =>
    rw [Edit.after, ran] at stored
    rw [Edit.after_bind (Edit.within_eq_ok_iff.mpr ⟨descriptor, ran, rfl⟩)]
    refine keeps.bind (fun _ => .bind (.ask _) fun _ => .pure slot) _ ?_
    simpa only [artifact.shown] using stored

/-- Signing that fails leaves an artifact as it is just if no chain was prepared or the table refused
the one that was. -/
theorem sign_unchanged_iff (filled : ∀ chain, prepare object = .ok chain → chain.isEmpty = false)
    (ran : artifact.sign prepare object = .error failure left) :
    left = object ↔ ∀ chain, prepare object = .ok chain →
      ∃ refusal, (artifact.signatures object).table.add chain = .error refusal := by
  constructor
  · rintro rfl chain prepared
    cases added : (artifact.signatures left).table.add chain with
    | error refusal => exact ⟨refusal, rfl⟩
    | ok pair =>
      -- the chain would stand in a slot that was free before
      have held := holds_after_sign prepared added
      rw [Edit.after, ran] at held
      have empty := ChainTable.isEmpty_of_add added held
      rw [filled chain prepared] at empty
      cases empty
  · intro refuses
    cases prepared : prepare object with
    | error refusal =>
      rw [sign_of_unprepared prepared] at ran
      exact (EStateM.Result.error.inj ran).2.symm
    | ok chain =>
      obtain ⟨refusal, refused⟩ := refuses chain prepared
      rw [sign_of_refused prepared (SignatureDescriptor.addChain_of_refused refused)] at ran
      exact (EStateM.Result.error.inj ran).2.symm

/-- Signing is all or nothing for an artifact with valid signatures that refreshing makes valid
whatever valid signatures it is given. -/
theorem sign_unchanged (steady : (artifact.signatures object).Steady)
    (valid : (artifact.signatures object).validate = .ok ())
    (refreshes : ∀ descriptor : SignatureDescriptor, descriptor.Steady →
      descriptor.validate = .ok () →
      descriptor.table.format = (artifact.signatures object).table.format →
      ∃ changed, artifact.refresh (artifact.withSignatures object descriptor) = .ok () changed ∧
        artifact.check changed = .ok ())
    (ran : artifact.sign prepare object = .error failure left) : left = object := by
  cases prepared : prepare object with
  | error refusal =>
    rw [sign_of_unprepared prepared] at ran
    exact (EStateM.Result.error.inj ran).2.symm
  | ok chain =>
    rcases steady.addChain valid chain with ⟨refusal, refused⟩ |
      ⟨slot, descriptor, added, format, steadyToo, validToo⟩
    · rw [sign_of_refused prepared refused] at ran
      exact (EStateM.Result.error.inj ran).2.symm
    · obtain ⟨changed, refreshed, checked⟩ := refreshes descriptor steadyToo validToo format
      have signs : artifact.sign prepare object = .ok slot changed := by
        rw [sign_of_prepared prepared,
          Edit.bind_of_ok (Edit.within_eq_ok_iff.mpr ⟨descriptor, added, rfl⟩),
          Edit.bind_of_ok refreshed, Edit.bind_of_ok (Edit.ask_eq_ok_iff.mpr ⟨checked, rfl⟩)]
        rfl
      rw [signs] at ran
      cases ran

end Artifact

section Artifacts

variable {chain : SignatureChain} {index : Nat}

theorem Configuration.keeps_update (settled : Fragment.update chain = .ok () chain) :
    Edit.Keeps (fun configuration : Configuration => configuration.signatures.Holds index chain)
      update := by
  unfold update onHeader onSignatures
  refine .bind (.elsewhere _ fun _ _ held => held) fun _ => .bind .get fun _ =>
    .bind (.elsewhere _ fun _ _ held => held) fun _ => .bind (.elsewhere _ fun _ _ held => held)
      fun _ => .bind ?_ fun _ => .bind .get fun _ => ?_
  · exact (SignatureDescriptor.keeps_update settled).within (fun _ held => held) fun _ _ _ kept => kept
  · exact (SignatureDescriptor.keeps_setBlock0Hash _).within (fun _ held => held)
      fun _ _ _ kept => kept

theorem Certificate.keeps_update (settled : Fragment.update chain = .ok () chain) :
    Edit.Keeps (fun certificate : Certificate => certificate.signatures.Holds index chain)
      update := by
  unfold update onSignatures
  refine .bind (.elsewhere _ fun _ _ held => held) fun _ => .bind ?_ fun _ => .bind .get fun _ => ?_
  · exact (SignatureDescriptor.keeps_update settled).within (fun _ held => held) fun _ _ _ kept => kept
  · exact (SignatureDescriptor.keeps_setBlock0Hash _).within (fun _ held => held)
      fun _ _ _ kept => kept

end Artifacts

/-- Refreshing makes only a configuration valid whose chains have the layout that its header calls
for. -/
theorem Configuration.shape_of_update {configuration changed : Configuration}
    {format : DescriptorFormat} (refreshable : configuration.header.Refreshable format)
    (steady : configuration.signatures.Steady) (valid : configuration.signatures.validate = .ok ())
    (updated : update configuration = .ok () changed) (validToo : changed.validate = .ok ()) :
    configuration.signatures.table.format = .ofDescriptor format := by
  obtain ⟨sections, _, header, _, signed, -, counts, refreshes, freshens, links, rfl⟩ :=
    update_eq_ok_iff.mp updated
  obtain ⟨_, _, countsToo, refreshesToo, -, again, -⟩ :=
    refreshable.recount_exists (UInt32.ofNat sections.length)
  obtain rfl := Except.ok.inj (counts.symm.trans countsToo)
  obtain ⟨-, rfl⟩ := EStateM.Result.ok.inj (refreshes.symm.trans refreshesToo)
  obtain ⟨_, _, freshensToo, linksToo, shape, -, validSigned, -⟩ := steady.relink_exists valid header
  obtain ⟨-, rfl⟩ := EStateM.Result.ok.inj (freshens.symm.trans freshensToo)
  obtain ⟨-, rfl⟩ := EStateM.Result.ok.inj (links.symm.trans linksToo)
  obtain ⟨-, -, ⟨called, formatted, laid⟩, -⟩ := validate_eq_ok_iff.mp validToo
  obtain rfl := Except.ok.inj (again.stated.format.symm.trans formatted)
  have announced := (SignatureDescriptor.validate_eq_ok_iff.mp validSigned).2.1.format
  exact shape.symm.trans (Except.ok.inj (announced.symm.trans laid))

/-- Configurations are signed. -/
def Configuration.artifact : Artifact Configuration where
  signatures := Configuration.signatures
  withSignatures configuration signatures := { configuration with signatures := signatures }
  refresh := update
  check := validate
  same _ := rfl
  shown _ _ := rfl
  keeps settled := keeps_update settled

/-- So are certificates. -/
def Certificate.artifact : Artifact Certificate where
  signatures := Certificate.signatures
  withSignatures certificate signatures := { certificate with signatures := signatures }
  refresh := update
  check := validate
  same _ := rfl
  shown _ _ := rfl
  keeps settled := keeps_update settled

namespace Signer

variable {signer : Signer} {disk : Files.Disk} {service : SigningService} {request : Request}
  {chain : SignatureChain} {configuration : Configuration} {certificate : Certificate}

/-- The chain that is stored in a configuration. -/
def chainForConfiguration (signer : Signer) (disk : Files.Disk) (service : SigningService)
    (configuration : Configuration) : Except Failure SignatureChain := do
  signer.complete service (← signer.requestForConfiguration disk configuration)

/-- The chain that is stored in a certificate. -/
def chainForCertificate (signer : Signer) (disk : Files.Disk) (service : SigningService)
    (certificate : Certificate) : Except Failure SignatureChain := do
  signer.complete service (← signer.requestForCertificate disk certificate)

theorem signConfiguration_eq_sign : signer.signConfiguration disk service =
    Configuration.artifact.sign (signer.chainForConfiguration disk service) := by
  simp only [signConfiguration, Configuration.addChain, bind_assoc, pure_bind]
  rfl

theorem signCertificate_eq_sign : signer.signCertificate disk service =
    Certificate.artifact.sign (signer.chainForCertificate disk service) := by
  simp only [signCertificate, Certificate.addChain, bind_assoc, pure_bind]
  rfl

/-- A chain that was completed has the entry of the service. -/
theorem isEmpty_of_complete (completed : signer.complete service request = .ok chain) :
    chain.isEmpty = false := by
  obtain ⟨_, entry, -, -, appends⟩ := complete_eq_ok_iff.mp completed
  obtain ⟨-, rfl⟩ := SignatureChain.append_eq_ok appends
  simp [SignatureChain.isEmpty, Sequence.isEmpty]

theorem isEmpty_chainForConfiguration
    (made : signer.chainForConfiguration disk service configuration = .ok chain) :
    chain.isEmpty = false := by
  obtain ⟨request, -, completed⟩ := bind_eq_ok_iff.mp made
  exact isEmpty_of_complete completed

theorem isEmpty_chainForCertificate
    (made : signer.chainForCertificate disk service certificate = .ok chain) :
    chain.isEmpty = false := by
  obtain ⟨request, -, completed⟩ := bind_eq_ok_iff.mp made
  exact isEmpty_of_complete completed

/-- A configuration that can be refreshed is left as it was by signing that fails. -/
theorem signConfiguration_unchanged {left : Configuration} {failure : Failure}
    (registered : configuration.Registered) (valid : configuration.validate = .ok ())
    (ran : signer.signConfiguration disk service configuration = .error failure left) :
    left = configuration := by
  obtain ⟨format, fit⟩ := registered.fit_of_valid valid
  have few := Configuration.length_lt_of_validate valid
  rw [signConfiguration_eq_sign] at ran
  refine Artifact.sign_unchanged fit.steady fit.signatures ?_ ran
  intro descriptor steady validToo shape
  have fitToo : ({ configuration with signatures := descriptor } : Configuration).Fit format :=
    { fit with steady := steady, signatures := validToo, shape := shape.trans fit.shape }
  obtain ⟨changed, updated, -, validChanged, -⟩ := fitToo.update_exists
  exact ⟨changed, updated, validChanged few⟩

/-- So is a certificate. -/
theorem signCertificate_unchanged {left : Certificate} {failure : Failure}
    (standard : certificate.signatures.Standard) (valid : certificate.validate = .ok ())
    (ran : signer.signCertificate disk service certificate = .error failure left) :
    left = certificate := by
  obtain ⟨-, ⟨validHeader, validSignatures⟩, -⟩ := Certificate.validate_eq_ok_iff.mp valid
  rw [signCertificate_eq_sign] at ran
  refine Artifact.sign_unchanged (standard.steady validSignatures) validSignatures ?_ ran
  intro descriptor steady validToo _
  exact @Certificate.update_exists { certificate with signatures := descriptor } steady validHeader
    validToo

/-- Signing that fails leaves a configuration or a certificate as it was just if no chain came about
or the chain table refused the one that did; and always one that was valid and registers what a new
one does. -/
theorem signing_unchanged_iff (signer : Signer) (disk : Files.Disk) (service : SigningService) :
    (∀ configuration left failure,
      signer.signConfiguration disk service configuration = .error failure left →
        (left = configuration ↔
          ∀ chain, signer.chainForConfiguration disk service configuration = .ok chain →
            ∃ refusal, configuration.signatures.table.add chain = .error refusal) ∧
        (configuration.Registered → configuration.validate = .ok () → left = configuration)) ∧
    (∀ certificate left failure,
      signer.signCertificate disk service certificate = .error failure left →
        (left = certificate ↔
          ∀ chain, signer.chainForCertificate disk service certificate = .ok chain →
            ∃ refusal, certificate.signatures.table.add chain = .error refusal) ∧
        (certificate.signatures.Standard → certificate.validate = .ok () →
          left = certificate)) := by
  constructor
  · intro configuration left failure ran
    refine ⟨?_, fun registered valid => signConfiguration_unchanged registered valid ran⟩
    rw [signConfiguration_eq_sign] at ran
    exact Artifact.sign_unchanged_iff (fun _ => isEmpty_chainForConfiguration) ran
  · intro certificate left failure ran
    refine ⟨?_, fun standard valid => signCertificate_unchanged standard valid ran⟩
    rw [signCertificate_eq_sign] at ran
    exact Artifact.sign_unchanged_iff (fun _ => isEmpty_chainForCertificate) ran

/-- A service that signs nothing. -/
def idleService (failure : Failure) : SigningService := fun _ => .error failure

theorem chainForConfiguration_idleService (signer : Signer) (disk : Files.Disk) (failure : Failure)
    (configuration : Configuration) :
    ∃ refusal, signer.chainForConfiguration disk (idleService failure) configuration =
      .error refusal := by
  rw [chainForConfiguration]
  cases signer.requestForConfiguration disk configuration with
  | error refusal => exact ⟨refusal, rfl⟩
  | ok request => exact ⟨failure, rfl⟩

theorem chainForCertificate_idleService (signer : Signer) (disk : Files.Disk) (failure : Failure)
    (certificate : Certificate) :
    ∃ refusal, signer.chainForCertificate disk (idleService failure) certificate =
      .error refusal := by
  rw [chainForCertificate]
  cases signer.requestForCertificate disk certificate with
  | error refusal => exact ⟨refusal, rfl⟩
  | ok request => exact ⟨failure, rfl⟩

/-- A service that signs nothing leaves a configuration with a section and a new certificate as they
were. -/
theorem signing_unchanged_iff_idleService :
    ∃ (configuration left : Configuration) (certificate same : Certificate) (failure refusal : Failure),
      configuration.Registered ∧ configuration.validate = .ok () ∧
      configuration.sections.map (·.payload.bytes) = [[0, 17, 34, 51]] ∧
      Certificate.create "1" "2" "3" = .ok certificate ∧
      signConfiguration {} (.empty []) (idleService (.invalidField .noPublicKey)) configuration =
        .error failure left ∧ left = configuration ∧
      signCertificate {} (.empty []) (idleService (.invalidField .noPublicKey)) certificate =
        .error refusal same ∧ same = certificate := by
  let service := idleService (.invalidField .noPublicKey)
  obtain ⟨before, configuration, registered, updated, valid, payloads, -⟩ :=
    @Configuration.refreshed_exists [(1, [0, 17, 34, 51])] (by decide) (by decide) []
  obtain ⟨certificate, made, standard, validCertificate⟩ : ∃ certificate,
      Certificate.create "1" "2" "3" = .ok certificate ∧ certificate.Standard ∧
        certificate.validate = .ok () := Certificate.create_exists rfl rfl rfl
  have refreshed := registered.update updated valid
  have registeredToo : configuration.Registered := ⟨refreshed.header, refreshed.signatures,
    fun sect member => (refreshed.sections sect member).registered⟩
  obtain ⟨failure, unmade⟩ :=
    chainForConfiguration_idleService {} (.empty []) (.invalidField .noPublicKey) configuration
  obtain ⟨refusal, unmadeToo⟩ :=
    chainForCertificate_idleService {} (.empty []) (.invalidField .noPublicKey) certificate
  have ran : signConfiguration {} (.empty []) service configuration =
      .error failure configuration := by
    rw [signConfiguration_eq_sign]
    exact Artifact.sign_of_unprepared unmade
  have ranToo : signCertificate {} (.empty []) service certificate = .error refusal certificate := by
    rw [signCertificate_eq_sign]
    exact Artifact.sign_of_unprepared unmadeToo
  obtain ⟨configurations, certificates⟩ := signing_unchanged_iff {} (.empty []) service
  exact ⟨configuration, configuration, certificate, certificate, failure, refusal, registeredToo, valid,
    payloads, made, ran, (configurations _ _ _ ran).2 registeredToo valid, ranToo,
    (certificates _ _ _ ranToo).2 standard.signatures validCertificate⟩

/-- Only a configuration whose chains have the layout that its header calls for is signed. -/
theorem shape_of_signConfiguration {signed : Configuration} {slot : Nat} {format : DescriptorFormat}
    (refreshable : configuration.header.Refreshable format)
    (steady : configuration.signatures.Steady) (valid : configuration.signatures.validate = .ok ())
    (ran : signer.signConfiguration disk service configuration = .ok slot signed) :
    configuration.signatures.table.format = .ofDescriptor format := by
  obtain ⟨_, chain, -, -, added, validSigned⟩ := signConfiguration_eq_ok_iff.mp ran
  obtain ⟨stored, adds, updated⟩ := Configuration.addChain_eq_ok_iff.mp added
  rcases steady.addChain valid chain with
    ⟨_, refused⟩ | ⟨_, _, addsToo, shape, steadyToo, validToo⟩
  · rw [adds] at refused
    cases refused
  · obtain ⟨-, rfl⟩ := EStateM.Result.ok.inj (adds.symm.trans addsToo)
    rw [← shape]
    exact @Configuration.shape_of_update { configuration with signatures := stored } signed format
      refreshable steadyToo validToo updated validSigned

/-- A header that calls for other chains than the signature descriptor has is signed in vain, and the
chain stays. -/
theorem signing_leaves_chain :
    ∃ header keychain signatures failure left, ConfigurationHeader.reset.result .empty = .ok header ∧
      SignatureChain.openChain = .ok keychain ∧
      SignatureDescriptor.create .multiRoot = .ok signatures ∧
      signConfiguration { keychain := some keychain } (.empty []) plainService
        ⟨header, signatures, [], Buffer.empty none⟩ = .error failure left ∧
      left ≠ ⟨header, signatures, [], Buffer.empty none⟩ := by
  obtain ⟨header, resets, standardHeader, signable, formatted, -⟩ := ConfigurationHeader.reset_exists
  obtain ⟨keychain, chain, opened, completed, standardChain, validChain, size⟩ :=
    complete_exists header
  obtain ⟨signatures, created, standard, -, valid, shape, chains⟩ :=
    SignatureDescriptor.create_exists .multiRoot
  have steady := standard.steady valid
  let configuration : Configuration := ⟨header, signatures, [], Buffer.empty none⟩
  have asked : requestForConfiguration { keychain := some keychain } (.empty []) configuration =
      .ok ⟨keychain, .cmfDescriptor header SigningModule.blankSlot⟩ :=
    requestForConfiguration_exists opened signable formatted _
  have prepared : chainForConfiguration { keychain := some keychain } (.empty []) plainService
      configuration = .ok chain := by
    rw [chainForConfiguration, bind_of_ok asked, completed]
  have fits : Size.chainTableHeader + chain.size ≤ SignatureDescriptor.tableSize := by
    rw [size]
    decide
  obtain ⟨_, adds, -⟩ := steady.addChain_exists valid (shape ▸ chains)
    (standardChain.update_of_valid validChain) validChain fits
  obtain ⟨table, takes, -⟩ := SignatureDescriptor.addChain_eq_ok_iff.mp adds
  cases ran : signConfiguration { keychain := some keychain } (.empty []) plainService
      configuration with
  | ok slot signed =>
    obtain ⟨validHeader, -⟩ := ConfigurationHeader.validateForSigning_eq_ok_iff.mp signable
    obtain ⟨_, refreshable⟩ := ConfigurationHeader.refreshable_of_valid
      (Buffer.Follows.registers standardHeader) validHeader
    obtain rfl := Except.ok.inj (formatted.symm.trans refreshable.stated.format)
    have called := shape_of_signConfiguration refreshable steady valid ran
    rw [show configuration.signatures.table.format = .multiRoot from shape] at called
    cases called
  | error failure left =>
    refine ⟨header, keychain, signatures, failure, left, resets, opened, created, ran, fun same => ?_⟩
    rw [signConfiguration_eq_sign] at ran
    obtain ⟨refusal, refused⟩ :=
      (Artifact.sign_unchanged_iff (fun _ => isEmpty_chainForConfiguration) ran).mp same chain prepared
    have clash := takes.symm.trans refused
    simp at clash

end Signer

end SecureBoot
