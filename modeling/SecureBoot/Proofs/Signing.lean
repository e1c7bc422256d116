import SecureBoot.Proofs.Module
import SecureBoot.Proofs.Refreshing

/-!
Signing a configuration. The service signs the header as it was handed in, and only afterwards the
header is given the number of sections; so the signature is one over the header that is stored just
if the number was right before.
-/

namespace SecureBoot

/-- A block0 entry that was signed closes a chain and holds the signature. -/
theorem ChainEntry.signed_block0 {signature : Signature} {selector : HashSelector}
    {begun signed : ChainEntry} (closes : block0 selector = .ok begun)
    (signs : setSignature signature begun = .ok () signed) :
    signed.Standard ∧ signed.data = .block0 ∧ signed.slot.bytes = signature.toBytes ∧
      signed.hashSelector = .ok selector := by
  obtain ⟨standard, -, data, selected⟩ := standard_block0 closes
  obtain ⟨-, fills⟩ := setSignature_eq_ok_iff.mp signs
  obtain ⟨-, same, slot, tail, -⟩ := standard.header.fillSlot fills
  exact ⟨standard.setSignature signs, same.trans data, by rw [slot],
    hashSelector_of_drop selected tail⟩

/-- The entry that carries a signature over a header closes a chain and holds that signature. -/
theorem SigningModule.signedEntry_cmfDescriptor {header : ConfigurationHeader} {slot : Buffer}
    {signature : Signature} {selector : HashSelector} {signed : ChainEntry}
    (ran : (cmfDescriptor header slot).signedEntry signature selector = .ok signed) :
    signed.Standard ∧ signed.data = .block0 ∧ signed.slot.bytes = signature.toBytes ∧
      signed.hashSelector = .ok selector := by
  simp only [signedEntry, bind_eq_ok_iff, Edit.result_eq_ok_iff, setSignature_cmfDescriptor] at ran
  obtain ⟨_, ⟨-, filled, -, rfl⟩, ran⟩ := ran
  simp only [bind_eq_ok_iff, Edit.result_eq_ok_iff] at ran
  obtain ⟨begun, closes, _, signs⟩ := ran
  exact ChainEntry.signed_block0 closes signs

/-- A signature of the one size fills a blank slot. -/
theorem SigningModule.fillSlot_blankSlot {signature : Signature}
    (sized : signature.size = Size.signature) :
    ∃ filled, fillSlot signature blankSlot = .ok filled := by
  have room : 0 + signature.toBytes.length ≤ blankSlot.size := by
    rw [Nat.zero_add, show blankSlot.size = Size.signature from Bytes.length_zeros _]
    exact Nat.le_of_eq sized
  exact ⟨_, fillSlot_eq_ok_iff.mpr ⟨sized, Buffer.setRaw_eq_ok_iff.mpr ⟨room, rfl⟩⟩⟩

/-- A signature that fills the slot behind a header is carried by a block0 entry. -/
theorem SigningModule.signedEntry_of_block0 {header : ConfigurationHeader} {signature : Signature}
    {selector : HashSelector} {begun signed : ChainEntry} (sized : signature.size = Size.signature)
    (closes : ChainEntry.block0 selector = .ok begun)
    (signs : ChainEntry.setSignature signature begun = .ok () signed) :
    (cmfDescriptor header blankSlot).signedEntry signature selector = .ok signed := by
  obtain ⟨filled, fills⟩ := fillSlot_blankSlot sized
  have stores : setSignature signature (cmfDescriptor header blankSlot) =
      .ok () (cmfDescriptor header filled) := setSignature_cmfDescriptor.mpr ⟨filled, fills, rfl⟩
  rw [signedEntry, bind_of_ok (Edit.result_eq_ok_iff.mpr ⟨(), stores⟩)]
  simp only [bind_eq_ok_iff, Edit.result_eq_ok_iff]
  exact ⟨begun, closes, (), signs⟩

namespace Signer

variable {signer : Signer} {disk : Files.Disk} {service : SigningService}
  {configuration signed : Configuration} {slot : Nat}

theorem requestForConfiguration_eq_ok {request : Request}
    (asked : signer.requestForConfiguration disk configuration = .ok request) :
    request.signingModule = .cmfDescriptor configuration.header SigningModule.blankSlot ∧
      configuration.header.validateForSigning = .ok () := by
  simp only [requestForConfiguration, SigningModule.ofConfiguration, bind_eq_ok_iff,
    pure_eq_ok_iff, exists_unit_iff] at asked
  obtain ⟨_, -, _, -, -, _, -, _, ⟨valid, rfl⟩, rfl⟩ := asked
  exact ⟨rfl, valid⟩

theorem signConfiguration_eq_ok_iff :
    signer.signConfiguration disk service configuration = .ok slot signed ↔
      ∃ request chain, signer.requestForConfiguration disk configuration = .ok request ∧
        signer.complete service request = .ok chain ∧
        Configuration.addChain chain configuration = .ok slot signed ∧
        signed.validate = .ok () := by
  simp only [signConfiguration, Edit.bind_eq_ok_iff, Edit.ask_eq_ok_iff, Edit.pure_eq_ok_iff,
    bind_eq_ok_iff]
  constructor
  · rintro ⟨chain, _, ⟨⟨request, asked, completed⟩, rfl⟩, _, _, added, _, _, ⟨valid, rfl⟩, rfl, rfl⟩
    exact ⟨request, chain, asked, completed, added, valid⟩
  · rintro ⟨request, chain, asked, completed, added, valid⟩
    exact ⟨chain, configuration, ⟨⟨request, asked, completed⟩, rfl⟩, slot, signed, added, (), signed,
      ⟨valid, rfl⟩, rfl, rfl⟩

/-- What the service signed is the header that is stored, and its digest the one that is stored, just
if the header that was handed in counted the sections; the chain in the answered slot is the keychain
and the block0 entry with the service's signature in any case. -/
theorem signConfiguration_signs_header_iff (signer : Signer) (disk : Files.Disk)
    (service : SigningService) (configuration signed : Configuration) (slot : Nat)
    (ran : signer.signConfiguration disk service configuration = .ok slot signed) :
    ∃ keychain signingModule signature chain entry,
      signer.requestForConfiguration disk configuration = .ok ⟨keychain, signingModule⟩ ∧
      service signingModule = .ok signature ∧
      (signingModule.payload = .ok signed.header.buffer.bytes ↔
        configuration.header.sectionsRemaining =
          .ok (UInt32.ofNat configuration.sections.length)) ∧
      (signingModule.payload = .ok signed.header.buffer.bytes →
        signingModule.payloadHash = signed.signatures.block0Hash) ∧
      signed.signatures.table.chain? slot = some chain ∧
      chain.entries.items = keychain.entries.items ++ [entry] ∧ entry.data = .block0 ∧
      entry.slot.bytes = signature.toBytes ∧ entry.hashSelector = .ok signer.selector := by
  obtain ⟨⟨keychain, signingModule⟩, chain, asked, completed, added, valid⟩ :=
    signConfiguration_eq_ok_iff.mp ran
  obtain ⟨rfl, signable⟩ := requestForConfiguration_eq_ok asked
  obtain ⟨signature, entry, gives, signs, appends⟩ := complete_eq_ok_iff.mp completed
  obtain ⟨-, closing, carries, selects⟩ := SigningModule.signedEntry_cmfDescriptor signs
  have right := Configuration.header_addChain_iff signable added valid
  obtain ⟨-, linked, -⟩ := Configuration.validate_eq_ok_iff.mp valid
  obtain ⟨signatures, adds, updated⟩ := Configuration.addChain_eq_ok_iff.mp added
  obtain ⟨validChain, there⟩ := SignatureDescriptor.chain?_addChain adds
  obtain ⟨_, _, _, _, _, -, -, -, freshens, links, rfl⟩ := Configuration.update_eq_ok_iff.mp updated
  refine ⟨keychain, _, signature, chain, entry, asked, gives, ?_, fun same => ?_, ?_, ?_, closing,
    carries, selects⟩
  · rw [← right]
    exact ⟨Except.ok.inj, congrArg Except.ok⟩
  · rw [linked, SigningModule.payloadHash, same]
    rfl
  · rw [SignatureDescriptor.table_setBlock0Hash links]
    exact SignatureDescriptor.chain?_update freshens there validChain
  · simp only [SignatureChain.append, bind_eq_ok_iff, exists_unit_iff, Sequence.append_eq_ok_iff,
      pure_eq_ok_iff] at appends
    obtain ⟨-, _, ⟨-, -, rfl⟩, rfl⟩ := appends
    rfl

/-- A service that gives the same signature to everyone. -/
def plainService : SigningService := fun _ =>
  Signature.ofComponents (Bytes.zeros 48) (Bytes.zeros 48)

/-- An open chain closed by the service's signature. -/
def servedChain : Except Failure SignatureChain := do
  let keychain ← SignatureChain.openChain
  let signature ← Signature.ofComponents (Bytes.zeros 48) (Bytes.zeros 48)
  keychain.append (← (ChainEntry.setSignature signature).result (← ChainEntry.block0 .intel))

/-- An open chain takes the block0 entry with the service's signature. -/
theorem servedChain_exists :
    ∃ keychain signature begun entry chain, SignatureChain.openChain = .ok keychain ∧
      Signature.ofComponents (Bytes.zeros 48) (Bytes.zeros 48) = .ok signature ∧
      signature.size = Size.signature ∧ ChainEntry.block0 .intel = .ok begun ∧
      ChainEntry.setSignature signature begun = .ok () entry ∧ keychain.append entry = .ok chain ∧
      chain.Standard ∧ chain.validate = .ok () ∧ chain.size = 256 := by
  have there : (servedChain.toOption.map fun chain => (chain.validate.toOption, chain.size)) =
      some (some (), 256) := by decide +kernel
  obtain ⟨chain, served, seen⟩ := exists_of_map_eq_some there
  simp only [servedChain, bind_eq_ok_iff, Edit.result_eq_ok_iff] at served
  obtain ⟨keychain, opened, signature, given, begun, closes, entry, ⟨_, signs⟩, grown⟩ := served
  obtain ⟨standard, -⟩ := SignatureChain.standard_openChain opened
  obtain ⟨standardEntry, -⟩ := ChainEntry.signed_block0 closes signs
  obtain ⟨valid, size⟩ := Prod.mk.inj seen
  have validChain : chain.validate = .ok () := by
    cases checked : chain.validate with
    | error failure => simp [checked, Except.toOption] at valid
    | ok answer => rfl
  exact ⟨keychain, signature, begun, entry, chain, opened, given, Signature.size_ofComponents given,
    closes, signs, grown, standard.append standardEntry grown, validChain, size⟩

/-- The service completes an open keychain for any header. -/
theorem complete_exists (header : ConfigurationHeader) :
    ∃ keychain chain, SignatureChain.openChain = .ok keychain ∧
      complete { keychain := some keychain } plainService
        ⟨keychain, .cmfDescriptor header SigningModule.blankSlot⟩ = .ok chain ∧
      chain.Standard ∧ chain.validate = .ok () ∧ chain.size = 256 := by
  obtain ⟨keychain, signature, begun, entry, chain, opened, given, sized, closes, signs, grown,
    standard, valid, size⟩ := servedChain_exists
  have closed : (SigningModule.cmfDescriptor header SigningModule.blankSlot).signedEntry signature
      .intel = .ok entry := SigningModule.signedEntry_of_block0 sized closes signs
  exact ⟨keychain, chain, opened, complete_eq_ok_iff.mpr ⟨signature, entry, given, closed, grown⟩,
    standard, valid, size⟩

/-- A signer that is given an open keychain signs with it. -/
theorem openKeychain_exists {keychain : SignatureChain}
    (opened : SignatureChain.openChain = .ok keychain) (disk : Files.Disk) :
    openKeychain { keychain := some keychain } disk = .ok keychain := by
  obtain ⟨_, openedToo, going, rooted, -⟩ := SignatureChain.openChain_exists
  obtain rfl := Except.ok.inj (opened.symm.trans openedToo)
  obtain ⟨-, validKeychain⟩ := SignatureChain.standard_openChain opened
  simp only [openKeychain, bind_eq_ok_iff, exists_unit_iff, require_eq_ok_iff, pure_eq_ok_iff]
  exact ⟨keychain, rfl, validKeychain, going, rooted, rfl⟩

/-- With an open keychain the service is asked for a header that can be signed. -/
theorem requestForConfiguration_exists {keychain : SignatureChain}
    (opened : SignatureChain.openChain = .ok keychain)
    (signable : configuration.header.validateForSigning = .ok ())
    (formatted : configuration.header.format = .ok .sdmFull) (disk : Files.Disk) :
    requestForConfiguration { keychain := some keychain } disk configuration =
      .ok ⟨keychain, .cmfDescriptor configuration.header SigningModule.blankSlot⟩ := by
  have fetched : openKeychain { keychain := some keychain } disk = .ok keychain :=
    openKeychain_exists opened disk
  have asks : configuration.isSignable = .ok true := by
    rw [Configuration.isSignable, formatted]
    rfl
  simp only [requestForConfiguration, SigningModule.ofConfiguration, bind_eq_ok_iff,
    exists_unit_iff, pure_eq_ok_iff, require_eq_ok_iff]
  exact ⟨true, asks, _, formatted, rfl, keychain, fetched, _, ⟨signable, rfl⟩, rfl⟩

/-- A new configuration with a header that can be signed is signed. -/
theorem signConfiguration_exists {header : ConfigurationHeader} (standard : header.Standard)
    (signable : header.validateForSigning = .ok ()) (formatted : header.format = .ok .sdmFull)
    (disk : Files.Disk) :
    ∃ keychain signatures slot signed, SignatureChain.openChain = .ok keychain ∧
      SignatureDescriptor.create .classic = .ok signatures ∧
      signConfiguration { keychain := some keychain } disk plainService
        ⟨header, signatures, [], Buffer.empty none⟩ = .ok slot signed := by
  obtain ⟨keychain, chain, opened, completed, standardChain, validChain, size⟩ :=
    complete_exists header
  obtain ⟨signatures, created, standardSignatures, -, valid, shape, chains⟩ :=
    SignatureDescriptor.create_exists .classic
  obtain ⟨validHeader, -⟩ := ConfigurationHeader.validateForSigning_eq_ok_iff.mp signable
  let configuration : Configuration := ⟨header, signatures, [], Buffer.empty none⟩
  have plain : configuration.payload.validate = .ok () := Buffer.validate_unbounded []
  have registered : configuration.Registered :=
    ⟨Buffer.Follows.registers standard, standardSignatures, List.forall_mem_nil _⟩
  have fit : configuration.Fit .sdmFull :=
    registered.fit validHeader formatted valid shape (List.forall_mem_nil _) plain
  have fits : Size.chainTableHeader + chain.size ≤ SignatureDescriptor.tableSize := by
    rw [size]
    decide
  obtain ⟨stored, adds, format, steady, validStored⟩ := fit.steady.addChain_exists valid
    (shape ▸ chains) (standardChain.update_of_valid validChain) validChain fits
  have fitStored : ({ configuration with signatures := stored } : Configuration).Fit .sdmFull :=
    { fit with steady := steady, signatures := validStored, shape := format.trans shape }
  obtain ⟨signed, updated, -, validSigned, -⟩ := fitStored.update_exists
  have added : Configuration.addChain chain configuration = .ok 0 signed :=
    Configuration.addChain_eq_ok_iff.mpr ⟨stored, adds, updated⟩
  have asked : requestForConfiguration { keychain := some keychain } disk configuration =
      .ok ⟨keychain, .cmfDescriptor header SigningModule.blankSlot⟩ :=
    requestForConfiguration_exists opened signable formatted disk
  exact ⟨keychain, signatures, 0, signed, opened, created, signConfiguration_eq_ok_iff.mpr
    ⟨_, chain, asked, completed, added, validSigned (Nat.two_pow_pos 32)⟩⟩

/-- A new header counts no sections, which is right for a new configuration. -/
theorem signConfiguration_signs_header_iff_new :
    ∃ header keychain signatures slot signed, ConfigurationHeader.reset.result .empty = .ok header ∧
      SignatureChain.openChain = .ok keychain ∧
      SignatureDescriptor.create .classic = .ok signatures ∧
      signConfiguration { keychain := some keychain } (.empty []) plainService
        ⟨header, signatures, [], Buffer.empty none⟩ = .ok slot signed ∧
      ∃ (request : Request), requestForConfiguration { keychain := some keychain } (.empty [])
          ⟨header, signatures, [], Buffer.empty none⟩ = .ok request ∧
        request.signingModule.payload = .ok signed.header.buffer.bytes ∧
        request.signingModule.payloadHash = signed.signatures.block0Hash := by
  obtain ⟨header, made, standard, signable, formatted, counted⟩ := ConfigurationHeader.reset_exists
  obtain ⟨keychain, signatures, slot, signed, opened, created, ran⟩ :=
    signConfiguration_exists standard signable formatted (.empty [])
  obtain ⟨_, signingModule, _, _, _, asked, -, right, hashed, -⟩ :=
    signConfiguration_signs_header_iff _ _ _ _ _ _ ran
  have same := right.mpr counted
  exact ⟨header, keychain, signatures, slot, signed, made, opened, created, ran, _, asked, same,
    hashed same⟩

/-- A header that counts one section where there are none is signed, and what is stored is another
header. -/
theorem stale_count_signed :
    ∃ new counted header keychain signatures slot signed,
      ConfigurationHeader.reset.result .empty = .ok new ∧
      new.setSectionsRemaining 1 = .ok counted ∧ Fragment.update counted = .ok () header ∧
      SignatureChain.openChain = .ok keychain ∧
      SignatureDescriptor.create .classic = .ok signatures ∧
      signConfiguration { keychain := some keychain } (.empty []) plainService
        ⟨header, signatures, [], Buffer.empty none⟩ = .ok slot signed ∧
      ∃ (request : Request), requestForConfiguration { keychain := some keychain } (.empty [])
          ⟨header, signatures, [], Buffer.empty none⟩ = .ok request ∧
        request.signingModule.payload ≠ .ok signed.header.buffer.bytes := by
  obtain ⟨new, made, standardNew, signableNew, formattedNew, -⟩ := ConfigurationHeader.reset_exists
  obtain ⟨counted, header, counts, refreshes, standard, signable, formatted, stated⟩ :=
    standardNew.recount_exists signableNew 1
  obtain ⟨keychain, signatures, slot, signed, opened, created, ran⟩ :=
    signConfiguration_exists standard signable (formatted.trans formattedNew) (.empty [])
  obtain ⟨request, chain, asked, -, added, valid⟩ := signConfiguration_eq_ok_iff.mp ran
  obtain ⟨handed, -⟩ := requestForConfiguration_eq_ok asked
  let configuration : Configuration := ⟨header, signatures, [], Buffer.empty none⟩
  have signableToo : configuration.header.validateForSigning = .ok () := signable
  have right := Configuration.header_addChain_iff signableToo added valid
  refine ⟨new, counted, header, keychain, signatures, slot, signed, made, counts, refreshes, opened,
    created, ran, request, asked, fun same => ?_⟩
  rw [handed] at same
  have zero := right.mp (Except.ok.inj same)
  rw [show configuration.header.sectionsRemaining = .ok 1 from stated] at zero
  have stale : (1 : UInt32) ≠ 0 := by decide
  exact stale (Except.ok.inj zero)

end Signer
end SecureBoot
