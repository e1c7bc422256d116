import SecureBoot.Proofs.Calls
import SecureBoot.Proofs.Storing

/-!
Where objects come from. The layouts that other results assume hold of everything that any number of
calls makes, in whatever order and however they end, signing included; and what is valid besides can
be refreshed, and is added to as a whole or not at all.
-/

namespace SecureBoot

namespace Object

variable {object first second : Object}

/-- A call, given some objects, makes another one or leaves one of them changed. -/
inductive Call (given : List Object) : Object → Prop
  | key {changed : PublicKey} (call : PublicKey.Call given changed) : Call given (.key changed)
  | entry {changed : ChainEntry} (call : ChainEntry.Call given changed) : Call given (.entry changed)
  | chain {changed : SignatureChain} (call : SignatureChain.Call given changed) :
      Call given (.chain changed)
  | table {changed : ChainTable} (call : ChainTable.Call given changed) : Call given (.table changed)
  | signatures {changed : SignatureDescriptor} (call : SignatureDescriptor.Call given changed) :
      Call given (.signatures changed)
  | sectionHeader {changed : SectionHeader} (call : SectionHeader.Call given changed) :
      Call given (.sectionHeader changed)
  | configurationHeader {changed : ConfigurationHeader}
      (call : ConfigurationHeader.Call given changed) : Call given (.configurationHeader changed)
  | sect {changed : Section} (call : Section.Call given changed) : Call given (.sect changed)
  | certificate {changed : Certificate} (call : Certificate.Call given changed) :
      Call given (.certificate changed)
  | configuration {changed : Configuration} (call : Configuration.Call given changed) :
      Call given (.configuration changed)

/-- Whatever a call is given, what it makes is laid out like a new object if that is. -/
theorem Call.standard (call : Call given object) (each : ∀ other ∈ given, other.Standard) :
    object.Standard := by
  cases call with
  | key call | entry call | chain call | table call | signatures call | sectionHeader call
  | configurationHeader call | sect call | certificate call | configuration call =>
    exact call.standard each

/-- The objects that some number of calls makes, each given objects that were made before. -/
inductive Made : Object → Prop
  | call {given : List Object} {object : Object} (call : Call given object)
      (made : ∀ other ∈ given, Made other) : Made object

theorem Made.of_none (call : Call [] object) : Made object :=
  .call call (List.forall_mem_nil _)

theorem Made.of_one (call : Call [first] object) (made : Made first) : Made object :=
  .call call (List.forall_mem_singleton.mpr made)

theorem Made.of_two (call : Call [first, second] object) (made : Made first) (other : Made second) :
    Made object :=
  .call call (List.forall_mem_cons.mpr ⟨made, List.forall_mem_singleton.mpr other⟩)

/-- Every object that is made is laid out like a new one. -/
theorem Made.standard (made : Made object) : object.Standard := by
  induction made with
  | call call _ each => exact call.standard each

end Object

namespace Signer

variable {signer : Signer} {disk : Files.Disk} {service : SigningService} {chain : SignatureChain}
  {signingModule : SigningModule} {signature : Signature} {selector : HashSelector}
  {signed : ChainEntry} {pending : Option Nat} {path : String} {request : Request}

/-- The keychain was made, if the signer holds it. -/
def Provided (signer : Signer) : Prop :=
  ∀ chain, signer.keychain = some chain → Object.Made (.chain chain)

/-- A keychain comes from where it was made or was read from a file. -/
theorem Provided.made_openKeychain (provided : signer.Provided)
    (ran : signer.openKeychain disk = .ok chain) : Object.Made (.chain chain) := by
  simp only [openKeychain, fetchKeychain, bind_eq_ok_iff, exists_unit_iff, pure_eq_ok_iff] at ran
  obtain ⟨fetched, ⟨-, ran⟩, -, -, -, rfl⟩ := ran
  cases held : signer.keychain with
  | some keychain =>
    simp only [held, pure_eq_ok_iff] at ran
    exact ran ▸ provided keychain held
  | none =>
    cases file : signer.keychainFile with
    | none =>
      simp only [held, file] at ran
      cases ran
    | some path =>
      simp only [held, file, Edit.result_eq_ok_iff] at ran
      obtain ⟨_, loaded⟩ := ran
      have begun : Object.Made (.chain (SignatureChain.expecting none)) :=
        .of_none (.chain (.expecting none))
      have same : (Files.load disk path).after (SignatureChain.expecting none) = fetched := by
        rw [Edit.after, loaded]
      rw [← same]
      rcases Files.after_load disk path (SignatureChain.expecting none) with untouched | step
      · rwa [untouched]
      · exact .of_one (.chain (.fragment step)) begun

/-- The entry that carries the signature of a header is a new one. -/
theorem made_signedEntry (entries : ∀ entry, signingModule = .publicKey entry →
      Object.Made (.entry entry))
    (ran : signingModule.signedEntry signature selector = .ok signed) :
    Object.Made (.entry signed) := by
  have signs {entry filled : ChainEntry} (made : Object.Made (.entry entry))
      (stores : ChainEntry.setSignature signature entry = .ok () filled) :
      Object.Made (.entry filled) := by
    have same : (ChainEntry.setSignature signature).after entry = filled := by
      rw [Edit.after, stores]
    rw [← same]
    exact .of_one (.entry (.setSignature entry signature)) made
  simp only [SigningModule.signedEntry, bind_eq_ok_iff, Edit.result_eq_ok_iff] at ran
  obtain ⟨filled, ⟨_, stores⟩, ran⟩ := ran
  have closes (ran : (do
      (ChainEntry.setSignature signature).result (← ChainEntry.block0 selector) :
        Except Failure ChainEntry) = .ok signed) : Object.Made (.entry signed) := by
    simp only [bind_eq_ok_iff, Edit.result_eq_ok_iff] at ran
    obtain ⟨entry, built, _, stores⟩ := ran
    exact signs (.of_none (.entry (.block0 built))) stores
  cases signingModule with
  | cmfDescriptor header slot =>
    obtain ⟨_, -, rfl⟩ := SigningModule.setSignature_cmfDescriptor.mp stores
    exact closes ran
  | certificateHeader header slot =>
    obtain ⟨_, -, rfl⟩ := SigningModule.setSignature_certificateHeader.mp stores
    exact closes ran
  | publicKey entry =>
    obtain ⟨_, stored, rfl⟩ := SigningModule.setSignature_publicKey.mp stores
    obtain rfl := Except.ok.inj ran
    exact signs (entries entry rfl) stored

theorem made_complete (keychain : Object.Made (.chain request.keychain))
    (entries : ∀ entry, request.signingModule = .publicKey entry → Object.Made (.entry entry))
    (ran : signer.complete service request = .ok chain) : Object.Made (.chain chain) := by
  obtain ⟨signature, signed, -, signs, appends⟩ := complete_eq_ok_iff.mp ran
  exact .of_two (.chain (.append appends)) keychain (made_signedEntry entries signs)

/-- Signing makes nothing of a configuration that other calls do not make, however it ends. -/
theorem Provided.keeps_signConfiguration (provided : signer.Provided) :
    Edit.Keeps (fun configuration => Object.Made (.configuration configuration))
      (signer.signConfiguration disk service) := by
  refine .bind_of (.ask _) fun object chain between _ ran made => ?_
  obtain ⟨prepared, -⟩ := Edit.ask_eq_ok_iff.mp ran
  simp only [requestForConfiguration, SigningModule.ofConfiguration, bind_eq_ok_iff, exists_unit_iff,
    pure_eq_ok_iff] at prepared
  obtain ⟨_, ⟨_, -, _, -, -, keychain, opened, _, ⟨-, rfl⟩, rfl⟩, completed⟩ := prepared
  have fine : Object.Made (.chain chain) :=
    made_complete (provided.made_openKeychain opened) (fun _ same => by cases same) completed
  have adds : Edit.Keeps (fun configuration => Object.Made (.configuration configuration))
      (Configuration.addChain chain) := fun configuration made =>
    .of_two (.configuration (.addChain configuration chain)) made fine
  exact (Edit.Keeps.bind adds fun slot => .bind (.ask _) fun _ => .pure slot) between made

/-- Nor of a certificate. -/
theorem Provided.keeps_signCertificate (provided : signer.Provided) :
    Edit.Keeps (fun certificate => Object.Made (.certificate certificate))
      (signer.signCertificate disk service) := by
  refine .bind_of (.ask _) fun object chain between _ ran made => ?_
  obtain ⟨prepared, -⟩ := Edit.ask_eq_ok_iff.mp ran
  simp only [requestForCertificate, SigningModule.ofCertificate, bind_eq_ok_iff, exists_unit_iff,
    pure_eq_ok_iff] at prepared
  obtain ⟨_, ⟨keychain, opened, _, ⟨-, rfl⟩, rfl⟩, completed⟩ := prepared
  have fine : Object.Made (.chain chain) :=
    made_complete (provided.made_openKeychain opened) (fun _ same => by cases same) completed
  have adds : Edit.Keeps (fun certificate => Object.Made (.certificate certificate))
      (Certificate.addChain chain) := fun certificate made =>
    .of_two (.certificate (.addChain certificate chain)) made fine
  exact (Edit.Keeps.bind adds fun slot => .bind (.ask _) fun _ => .pure slot) between made

/-- A chain with a key that is signed is made of the keychain and the key. -/
theorem Provided.made_signKey {key : PublicKey} (provided : signer.Provided)
    (made : Object.Made (.key key)) (ran : signer.signKey disk service key = .ok chain) :
    Object.Made (.chain chain) := by
  simp only [signKey, requestForKey, SigningModule.ofKey, bind_eq_ok_iff, exists_unit_iff,
    pure_eq_ok_iff] at ran
  obtain ⟨_, ⟨keychain, opened, _, ⟨entry, built, rfl⟩, rfl⟩, _, completed, -, rfl⟩ := ran
  refine made_complete (provided.made_openKeychain opened) (fun other same => ?_) completed
  obtain rfl := SigningModule.publicKey.inj same
  exact .of_one (.entry (.publicKey built)) made

end Signer

/-- A section that is made and valid is refreshed to a valid one, and takes a chain or stays as it
is. -/
theorem Section.kept_valid {sect : Section} (made : Object.Made (.sect sect))
    (valid : sect.validate = .ok ()) :
    (∃ changed, Section.update sect = .ok () changed ∧ changed.validate = .ok ()) ∧
      ∀ chain failure left, Section.addChain chain sect = .error failure left → left = sect := by
  have standard : sect.Standard := made.standard
  obtain ⟨⟨validHeader, validSignatures, payload⟩, -, length, -, exact⟩ :=
    validate_eq_ok_iff.mp valid
  obtain ⟨changed, updated, validToo, -⟩ := update_exists standard.signatures validHeader
    standard.header.sparesLength validSignatures payload (exact ▸ length.toNat_lt)
  exact ⟨⟨changed, updated, validToo⟩, fun _ _ _ ran =>
    addChain_unchanged standard.registered valid ran⟩

/-- So is a certificate. -/
theorem Certificate.kept_valid {certificate : Certificate}
    (made : Object.Made (.certificate certificate)) (valid : certificate.validate = .ok ()) :
    (∃ changed, Certificate.update certificate = .ok () changed ∧ changed.validate = .ok ()) ∧
      ∀ chain failure left, Certificate.addChain chain certificate = .error failure left →
        left = certificate := by
  have standard : certificate.Standard := made.standard
  obtain ⟨-, ⟨validHeader, validSignatures⟩, -⟩ := validate_eq_ok_iff.mp valid
  exact ⟨update_exists (standard.signatures.steady validSignatures) validHeader validSignatures,
    fun _ _ _ ran => addChain_unchanged standard.signatures valid ran⟩

/-- So is a configuration, which besides takes every valid section that was made. -/
theorem Configuration.kept_valid {configuration : Configuration}
    (made : Object.Made (.configuration configuration)) (valid : configuration.validate = .ok ()) :
    (∃ changed, Configuration.update configuration = .ok () changed ∧
      changed.validate = .ok ()) ∧
      (∀ chain failure left, Configuration.addChain chain configuration = .error failure left →
        left = configuration) ∧
      ∀ sect, Object.Made (.sect sect) → sect.validate = .ok () →
        ∃ changed, Configuration.pushSection sect configuration = .ok () changed := by
  have standard : configuration.Standard := made.standard
  obtain ⟨format, fit⟩ := standard.registered.fit_of_valid valid
  obtain ⟨changed, updated, -, validToo, -⟩ := fit.update_exists
  refine ⟨⟨changed, updated, validToo (length_lt_of_validate valid)⟩, fun _ _ _ ran =>
    addChain_unchanged standard.registered valid ran, fun sect madeToo validSection => ?_⟩
  have fine : sect.Standard := madeToo.standard
  exact pushSection_exists standard.registered valid fine.registered validSection

end SecureBoot
