import SecureBoot.Proofs.Atomicity

/-!
Signing a certificate. Nothing between the service and the stored chain touches the header: a valid
header is refreshed to itself, and so is every chain that was there before. What the service signed
is therefore the header that is stored, and the table differs in one slot only.
-/

namespace SecureBoot

/-- Refreshing leaves valid chains alone. -/
theorem ChainTable.chains_update {table changed : ChainTable}
    (each : ∀ chain ∈ table.chains, chain.validate = .ok ())
    (ran : update table = .ok () changed) : changed.chains = table.chains := by
  obtain ⟨chains, header, refreshed, -, -, rfl⟩ := update_eq_ok_iff.mp ran
  exact refreshed_eq each refreshed

/-- Adding a chain to a table of valid ones changes the first empty slot and no other. -/
theorem ChainTable.chains_add {table changed : ChainTable} {chain : SignatureChain} {index : Nat}
    (each : ∀ held ∈ table.chains, held.validate = .ok ())
    (ran : table.add chain = .ok (index, changed)) :
    table.chains.findIdx? SignatureChain.isEmpty = some index ∧
      changed.chains = table.chains.set index chain ∧
      ∀ held ∈ changed.chains, held.validate = .ok () := by
  obtain ⟨valid, free, updated⟩ := add_eq_ok_iff.mp ran
  have eachToo : ∀ held ∈ table.chains.set index chain, held.validate = .ok () :=
    fun held member => (List.mem_or_eq_of_mem_set member).elim (each held) (· ▸ valid)
  have same : changed.chains = table.chains.set index chain := chains_update eachToo updated
  exact ⟨free, same, same ▸ eachToo⟩

namespace SignatureDescriptor

variable {descriptor changed : SignatureDescriptor}

theorem table_updateCrc {answer : Unit} (ran : updateCrc descriptor = .ok answer changed) :
    changed.table = descriptor.table := by
  obtain ⟨_, -, -, rfl⟩ := updateCrc_eq_ok_iff.mp ran
  rfl

theorem chains_update (each : ∀ chain ∈ descriptor.table.chains, chain.validate = .ok ())
    (ran : update descriptor = .ok () changed) : changed.table.chains = descriptor.table.chains := by
  obtain ⟨table, updated, stored⟩ := update_eq_ok_iff.mp ran
  rw [table_updateCrc stored]
  exact ChainTable.chains_update each updated

theorem format_update {answer : Unit} (ran : update descriptor = .ok answer changed) :
    changed.table.format = descriptor.table.format := by
  obtain ⟨table, updated, stored⟩ := update_eq_ok_iff.mp ran
  obtain ⟨_, _, -, -, -, rfl⟩ := ChainTable.update_eq_ok_iff.mp updated
  rw [table_updateCrc stored]

theorem chains_of_valid (valid : descriptor.validate = .ok ()) :
    ∀ chain ∈ descriptor.table.chains, chain.validate = .ok () := by
  obtain ⟨-, -, validTable, -⟩ := validate_eq_ok_iff.mp valid
  obtain ⟨_, _, ⟨-, each, -⟩, -⟩ := ChainTable.validate_eq_ok_iff.mp validTable
  exact each

end SignatureDescriptor

namespace Certificate

variable {certificate changed : Certificate} {chain : SignatureChain} {slot : Nat}

theorem addChain_eq_ok_iff :
    addChain chain certificate = .ok slot changed ↔
      ∃ signatures, SignatureDescriptor.addChain chain certificate.signatures = .ok slot signatures ∧
        update { certificate with signatures := signatures } = .ok () changed := by
  simp only [addChain, Edit.bind_eq_ok_iff, Edit.pure_eq_ok_iff, onSignatures]
  constructor
  · rintro ⟨_, _, adding, _, _, updated, rfl, rfl⟩
    obtain ⟨signatures, adds, rfl⟩ := Edit.within_eq_ok_iff.mp adding
    exact ⟨signatures, adds, updated⟩
  · rintro ⟨signatures, adds, updated⟩
    exact ⟨slot, _, Edit.within_eq_ok_iff.mpr ⟨signatures, adds, rfl⟩, (), changed, updated, rfl, rfl⟩

/-- Refreshing leaves a valid header and valid chains alone. -/
theorem chains_update (validHeader : certificate.header.validate = .ok ())
    (each : ∀ chain ∈ certificate.signatures.table.chains, chain.validate = .ok ())
    (ran : update certificate = .ok () changed) :
    changed.header = certificate.header ∧
      changed.signatures.table.chains = certificate.signatures.table.chains := by
  obtain ⟨header, refreshed, linked, refreshes, freshens, links, rfl⟩ := update_eq_ok_iff.mp ran
  rw [CertificateHeader.update_of_valid validHeader] at refreshes
  refine ⟨(EStateM.Result.ok.inj refreshes).2.symm, ?_⟩
  rw [SignatureDescriptor.table_setBlock0Hash links]
  exact SignatureDescriptor.chains_update each freshens

/-- Adding a chain to a valid certificate changes the first empty slot, the checksums and the digest
only. -/
theorem chains_addChain (valid : certificate.validate = .ok ())
    (ran : addChain chain certificate = .ok slot changed) :
    certificate.signatures.table.chains.findIdx? SignatureChain.isEmpty = some slot ∧
      changed.signatures.table.chains = certificate.signatures.table.chains.set slot chain ∧
      changed.header = certificate.header := by
  obtain ⟨-, ⟨validHeader, validSignatures⟩, -⟩ := validate_eq_ok_iff.mp valid
  obtain ⟨signatures, adds, updated⟩ := addChain_eq_ok_iff.mp ran
  obtain ⟨table, added, stored⟩ := SignatureDescriptor.addChain_eq_ok_iff.mp adds
  obtain ⟨free, placed, each⟩ :=
    ChainTable.chains_add (SignatureDescriptor.chains_of_valid validSignatures) added
  have kept : signatures.table = table := SignatureDescriptor.table_updateCrc stored
  have eachToo : ∀ held ∈ signatures.table.chains, held.validate = .ok () := kept ▸ each
  obtain ⟨header, chains⟩ :=
    @chains_update { certificate with signatures := signatures } _ validHeader eachToo updated
  exact ⟨free, by rw [chains, kept, placed], header⟩

end Certificate

namespace SigningModule

variable {header : CertificateHeader} {signature : Signature} {selector : HashSelector}
  {begun signed : ChainEntry}

/-- The signature over a certificate header is carried as one over a configuration header is. -/
theorem signedEntry_certificateHeader {slot : Buffer}
    (ran : (certificateHeader header slot).signedEntry signature selector = .ok signed) :
    signed.Standard ∧ signed.data = .block0 ∧ signed.slot.bytes = signature.toBytes ∧
      signed.hashSelector = .ok selector := by
  simp only [signedEntry, bind_eq_ok_iff, Edit.result_eq_ok_iff,
    setSignature_certificateHeader] at ran
  obtain ⟨_, ⟨-, filled, -, rfl⟩, ran⟩ := ran
  simp only [bind_eq_ok_iff, Edit.result_eq_ok_iff] at ran
  obtain ⟨begun, closes, _, signs⟩ := ran
  exact ChainEntry.signed_block0 closes signs

theorem signedEntry_certificateHeader_of_block0 (sized : signature.size = Size.signature)
    (closes : ChainEntry.block0 selector = .ok begun)
    (signs : ChainEntry.setSignature signature begun = .ok () signed) :
    (certificateHeader header blankSlot).signedEntry signature selector = .ok signed := by
  obtain ⟨filled, fills⟩ := fillSlot_blankSlot sized
  have stores : setSignature signature (certificateHeader header blankSlot) =
      .ok () (certificateHeader header filled) :=
    setSignature_certificateHeader.mpr ⟨filled, fills, rfl⟩
  rw [signedEntry, bind_of_ok (Edit.result_eq_ok_iff.mpr ⟨(), stores⟩)]
  simp only [bind_eq_ok_iff, Edit.result_eq_ok_iff]
  exact ⟨begun, closes, (), signs⟩

end SigningModule

namespace Signer

variable {signer : Signer} {disk : Files.Disk} {service : SigningService}
  {certificate signed : Certificate} {slot : Nat}

theorem requestForCertificate_eq_ok_iff {request : Request} :
    signer.requestForCertificate disk certificate = .ok request ↔
      ∃ keychain, signer.openKeychain disk = .ok keychain ∧
        certificate.header.validate = .ok () ∧
        ⟨keychain, .certificateHeader certificate.header SigningModule.blankSlot⟩ = request := by
  simp only [requestForCertificate, SigningModule.ofCertificate, bind_eq_ok_iff, pure_eq_ok_iff,
    exists_unit_iff]
  constructor
  · rintro ⟨keychain, opened, _, ⟨valid, rfl⟩, rfl⟩
    exact ⟨keychain, opened, valid, rfl⟩
  · rintro ⟨keychain, opened, valid, rfl⟩
    exact ⟨keychain, opened, _, ⟨valid, rfl⟩, rfl⟩

theorem signCertificate_eq_ok_iff :
    signer.signCertificate disk service certificate = .ok slot signed ↔
      ∃ request chain, signer.requestForCertificate disk certificate = .ok request ∧
        signer.complete service request = .ok chain ∧
        Certificate.addChain chain certificate = .ok slot signed ∧ signed.validate = .ok () := by
  simp only [signCertificate, Edit.bind_eq_ok_iff, Edit.ask_eq_ok_iff, Edit.pure_eq_ok_iff,
    bind_eq_ok_iff]
  constructor
  · rintro ⟨chain, _, ⟨⟨request, asked, completed⟩, rfl⟩, _, _, added, _, _, ⟨valid, rfl⟩, rfl, rfl⟩
    exact ⟨request, chain, asked, completed, added, valid⟩
  · rintro ⟨request, chain, asked, completed, added, valid⟩
    exact ⟨chain, certificate, ⟨⟨request, asked, completed⟩, rfl⟩, slot, signed, added, (), signed,
      ⟨valid, rfl⟩, rfl, rfl⟩

/-- A valid certificate is signed as it is: the service is given the bytes of the header that is
stored, the first empty slot takes the keychain and the block0 entry with the service's signature, no
other slot changes, and the certificate is valid with the digest of that header. -/
theorem signCertificate_signs_stored_header (signer : Signer) (disk : Files.Disk)
    (service : SigningService) (certificate signed : Certificate) (slot : Nat)
    (valid : certificate.validate = .ok ())
    (ran : signer.signCertificate disk service certificate = .ok slot signed) :
    ∃ keychain signingModule signature chain entry,
      signer.openKeychain disk = .ok keychain ∧ service signingModule = .ok signature ∧
      signingModule.payload = .ok signed.header.buffer.bytes ∧
      signed.header = certificate.header ∧
      certificate.signatures.table.chains.findIdx? SignatureChain.isEmpty = some slot ∧
      signed.signatures.table.chains = certificate.signatures.table.chains.set slot chain ∧
      chain.entries.items = keychain.entries.items ++ [entry] ∧ entry.data = .block0 ∧
      entry.slot.bytes = signature.toBytes ∧ entry.hashSelector = .ok signer.selector ∧
      signed.signatures.block0Hash = .ok (Bytes.sha384 signed.header.buffer.bytes) ∧
      signed.validate = .ok () := by
  obtain ⟨request, chain, asked, completed, added, validSigned⟩ := signCertificate_eq_ok_iff.mp ran
  obtain ⟨keychain, opened, -, rfl⟩ := requestForCertificate_eq_ok_iff.mp asked
  obtain ⟨signature, entry, gives, signs, appends⟩ := complete_eq_ok_iff.mp completed
  obtain ⟨-, closing, carries, selects⟩ := SigningModule.signedEntry_certificateHeader signs
  obtain ⟨free, placed, kept⟩ := Certificate.chains_addChain valid added
  obtain ⟨-, -, linked⟩ := Certificate.validate_eq_ok_iff.mp validSigned
  refine ⟨keychain, _, signature, chain, entry, opened, gives, ?_, kept, free, placed, ?_, closing,
    carries, selects, linked, validSigned⟩
  · rw [kept]
    rfl
  · obtain ⟨-, rfl⟩ := SignatureChain.append_eq_ok appends
    rfl

/-- The service completes an open keychain for any certificate header. -/
theorem complete_certificate_exists (header : CertificateHeader) :
    ∃ keychain chain, SignatureChain.openChain = .ok keychain ∧
      complete { keychain := some keychain } plainService
        ⟨keychain, .certificateHeader header SigningModule.blankSlot⟩ = .ok chain ∧
      chain.Standard ∧ chain.validate = .ok () ∧ chain.size = 256 := by
  obtain ⟨keychain, signature, begun, entry, chain, opened, given, sized, closes, signs, grown,
    standard, valid, size⟩ := servedChain_exists
  have closed : (SigningModule.certificateHeader header SigningModule.blankSlot).signedEntry
      signature .intel = .ok entry :=
    SigningModule.signedEntry_certificateHeader_of_block0 sized closes signs
  exact ⟨keychain, chain, opened, complete_eq_ok_iff.mpr ⟨signature, entry, given, closed, grown⟩,
    standard, valid, size⟩

/-- A new certificate has room for a chain: it is valid and all its slots are empty. -/
theorem new_certificate_takes {uid hmac keyHash : String} {certificate : Certificate}
    {chain : SignatureChain} (made : Certificate.create uid hmac keyHash = .ok certificate)
    (standard : certificate.Standard) (valid : certificate.validate = .ok ())
    (standardChain : chain.Standard) (validChain : chain.validate = .ok ())
    (small : Size.chainTableHeader + chain.size ≤ SignatureDescriptor.tableSize) :
    ∃ signed, Certificate.addChain chain certificate = .ok 0 signed ∧ signed.validate = .ok () := by
  obtain ⟨-, ⟨validHeader, validSignatures⟩, -⟩ := Certificate.validate_eq_ok_iff.mp valid
  simp only [Certificate.create, bind_eq_ok_iff, Edit.result_eq_ok_iff] at made
  obtain ⟨header, -, begun, created, _, updated⟩ := made
  obtain ⟨_, createdToo, -, -, validBegun, shape, chains⟩ :=
    SignatureDescriptor.create_exists .classic
  obtain rfl := Except.ok.inj (created.symm.trans createdToo)
  obtain ⟨_, refreshed, linked, -, freshens, links, rfl⟩ := Certificate.update_eq_ok_iff.mp updated
  have blank : linked.table.chains =
      List.replicate linked.table.format.chainCount SignatureChain.empty := by
    rw [SignatureDescriptor.table_setBlock0Hash links,
      SignatureDescriptor.chains_update (SignatureDescriptor.chains_of_valid validBegun) freshens,
      SignatureDescriptor.format_update freshens, chains, shape]
  have steady : linked.Steady := standard.signatures.steady validSignatures
  obtain ⟨stored, adds, -, steadyStored, validStored⟩ := steady.addChain_exists validSignatures blank
    (standardChain.update_of_valid validChain) validChain small
  obtain ⟨signed, refreshes, validSigned⟩ :=
    @Certificate.update_exists { header := _, signatures := stored } steadyStored validHeader
      validStored
  exact ⟨signed, Certificate.addChain_eq_ok_iff.mpr ⟨stored, adds, refreshes⟩, validSigned⟩

/-- A new certificate is signed into its first slot, behind an open keychain. -/
theorem signCertificate_signs_stored_header_new :
    ∃ certificate keychain signed, Certificate.create "1" "2" "3" = .ok certificate ∧
      certificate.validate = .ok () ∧ SignatureChain.openChain = .ok keychain ∧
      signCertificate { keychain := some keychain } (.empty []) plainService certificate =
        .ok 0 signed ∧
      ∃ (chain : SignatureChain) (entry : ChainEntry),
        signed.signatures.table.chains = certificate.signatures.table.chains.set 0 chain ∧
        chain.entries.items = keychain.entries.items ++ [entry] ∧
        entry.hashSelector = .ok .intel ∧ signed.header = certificate.header := by
  obtain ⟨certificate, made, standard, valid⟩ : ∃ certificate,
      Certificate.create "1" "2" "3" = .ok certificate ∧ certificate.Standard ∧
        certificate.validate = .ok () := Certificate.create_exists rfl rfl rfl
  obtain ⟨-, ⟨validHeader, -⟩, -⟩ := Certificate.validate_eq_ok_iff.mp valid
  obtain ⟨keychain, chain, opened, completed, standardChain, validChain, size⟩ :=
    complete_certificate_exists certificate.header
  have fits : Size.chainTableHeader + chain.size ≤ SignatureDescriptor.tableSize := by
    rw [size]
    decide
  obtain ⟨signed, added, validSigned⟩ :=
    new_certificate_takes made standard valid standardChain validChain fits
  have fetched := openKeychain_exists opened (.empty [])
  have ran : signCertificate { keychain := some keychain } (.empty []) plainService certificate =
      .ok 0 signed :=
    signCertificate_eq_ok_iff.mpr ⟨_, chain, requestForCertificate_eq_ok_iff.mpr
      ⟨keychain, fetched, validHeader, rfl⟩, completed, added, validSigned⟩
  obtain ⟨handed, _, _, stored, entry, openedToo, -, -, kept, -, placed, extended, -, -, selects, -⟩ :=
    signCertificate_signs_stored_header _ _ _ _ _ _ valid ran
  obtain rfl := Except.ok.inj (fetched.symm.trans openedToo)
  exact ⟨certificate, keychain, signed, made, valid, opened, ran, stored, entry, placed, extended,
    selects, kept⟩

end Signer
end SecureBoot
