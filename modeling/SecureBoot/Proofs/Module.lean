import SecureBoot.Proofs.Chain
import SecureBoot.Proofs.Header
import SecureBoot.Signing.Signer

/-!
Signing modules. What a service signs is the header of a module or the front of its entry, and the
front of an entry states the size of its slot; so a signature that does not fill the slot of a
public key entry changes what it signs.
-/

namespace SecureBoot

/-- A signature that is built has the size of its header and its components. -/
theorem Signature.size_ofComponents {r s : Bytes} {signature : Signature}
    (ran : ofComponents r s = .ok signature) :
    signature.size = Size.signatureHeader + r.length + s.length := by
  simp only [ofComponents, fillIn, bind_eq_ok_iff, pure_eq_ok_iff, Edit.result_eq_ok_iff,
    Edit.bind_eq_ok_iff, Edit.change_eq_ok_iff] at ran
  obtain ⟨-, -, buffer, ⟨_, _, cleared, reset, _, b2, first, _, b3, second, _, b4, third, _, b5,
    fourth, fifth⟩, rfl⟩ := ran
  have whole := Buffer.size_reset reset
  rw [size, Buffer.size_setRaw fifth, Buffer.size_setRaw fourth, Buffer.size_setRaw third,
    Buffer.size_setRaw second, Buffer.size_setRaw first, whole]

namespace SigningModule

variable {signingModule changed : SigningModule} {entry signed : ChainEntry} {slot filled : Buffer}
  {signature : Signature} {selector : HashSelector} {payload : Bytes} {answer : Unit}

/-- The entry of a public key module has the header of such an entry. -/
def Standard : SigningModule → Prop
  | cmfDescriptor .. | certificateHeader .. => True
  | publicKey entry => entry.Headed

theorem fillSlot_eq_ok_iff :
    fillSlot signature slot = .ok filled ↔
      signature.size = Size.signature ∧ slot.setRaw signature.toBytes 0 = .ok filled := by
  simp only [fillSlot, bind_eq_ok_iff, require_eq_ok_iff, exists_unit_iff]

theorem setSignature_cmfDescriptor {header : ConfigurationHeader} :
    setSignature signature (cmfDescriptor header slot) = .ok answer changed ↔
      ∃ filled, fillSlot signature slot = .ok filled ∧ cmfDescriptor header filled = changed := by
  rw [setSignature]
  cases fillSlot signature slot <;> simp

theorem setSignature_certificateHeader {header : CertificateHeader} :
    setSignature signature (certificateHeader header slot) = .ok answer changed ↔
      ∃ filled, fillSlot signature slot = .ok filled ∧ certificateHeader header filled = changed := by
  rw [setSignature]
  cases fillSlot signature slot <;> simp

theorem setSignature_publicKey :
    setSignature signature (publicKey entry) = .ok answer changed ↔
      ∃ signed, ChainEntry.setSignature signature entry = .ok answer signed ∧
        publicKey signed = changed := by
  rw [setSignature]
  cases ChainEntry.setSignature signature entry <;> simp

/-- The front of an entry without the signature that ends it. -/
theorem take_toBytes (entry : ChainEntry) :
    (Fragment.toBytes entry).take (entry.size - entry.slot.size) =
      entry.header.bytes ++ Fragment.toBytes entry.data := by
  have exact := Fragment.Lawful.length_toBytes entry.data
  rw [ChainEntry.toBytes_eq, ← List.append_assoc]
  refine List.take_left' ?_
  rw [List.length_append, exact, ChainEntry.size_eq, ← Nat.add_assoc, Nat.add_sub_cancel]
  rfl

theorem payload_publicKey (small : entry.size < 2 ^ 32) :
    (publicKey entry).payload = .ok (entry.header.bytes ++ Fragment.toBytes entry.data) := by
  have inside : 0 + (entry.size - entry.slot.size) ≤ Fragment.size entry := by
    rw [Nat.zero_add]
    exact Nat.sub_le _ _
  have copyable : Copyable 0 (entry.size - entry.slot.size) := by
    refine .of_lt ?_
    rw [Nat.zero_add]
    exact Nat.lt_of_le_of_lt (Nat.sub_le _ _) (Nat.lt_trans small (by decide))
  rw [payload, Fragment.Lawful.readBytes_inside inside copyable, Bytes.slice_zero, take_toBytes]

theorem validate_eq_ok_iff :
    signingModule.validate = .ok answer ↔
      Composite.validateParts signingModule = .ok () ∧
        (match signingModule with
          | cmfDescriptor _ slot | certificateHeader _ slot => slot.size = Size.signature
          | publicKey _ => True) ∧
        ∃ signature, signingModule.signature = .ok signature := by
  cases signingModule <;>
    simp [validate, checkSlot, require_eq_ok_iff, bind_eq_ok_iff]

theorem validate_publicKey (valid : (publicKey entry).validate = .ok answer) :
    entry.validate = .ok () := by
  obtain ⟨parts, -⟩ := validate_eq_ok_iff.mp valid
  exact Composite.validateParts_eq_ok_iff.mp parts _ (List.mem_singleton_self _)

theorem small_of_valid (valid : entry.validate = .ok ()) : entry.size < 2 ^ 32 := by
  obtain ⟨-, measured, -⟩ := ChainEntry.validate_eq_ok_iff.mp valid
  rw [← measured.total]
  exact UInt32.toNat_lt _

/-- A signature is stored behind the header of a valid module only if it fills the slot there. -/
theorem size_of_fillSlot (sized : slot.size = Size.signature)
    (ran : fillSlot signature slot = .ok filled) : signature.size = slot.bytes.length :=
  (fillSlot_eq_ok_iff.mp ran).1.trans sized.symm

/-- Storing a signature keeps what is signed just if the signature has the size of the slot. -/
theorem payload_setSignature_iff (standard : signingModule.Standard)
    (valid : signingModule.validate = .ok ())
    (ran : setSignature signature signingModule = .ok answer changed) :
    ∃ payload, signingModule.payload = .ok payload ∧
      (changed.payload = .ok payload ↔ signature.size = signingModule.slotBytes.length) := by
  cases signingModule with
  | cmfDescriptor header slot =>
    obtain ⟨-, sized, -⟩ := validate_eq_ok_iff.mp valid
    obtain ⟨filled, fills, rfl⟩ := setSignature_cmfDescriptor.mp ran
    exact ⟨_, rfl, iff_of_true rfl (size_of_fillSlot sized fills)⟩
  | certificateHeader header slot =>
    obtain ⟨-, sized, -⟩ := validate_eq_ok_iff.mp valid
    obtain ⟨filled, fills, rfl⟩ := setSignature_certificateHeader.mp ran
    exact ⟨_, rfl, iff_of_true rfl (size_of_fillSlot sized fills)⟩
  | publicKey entry =>
    have headed : entry.Headed := standard
    have validEntry := validate_publicKey valid
    obtain ⟨signed, signs, rfl⟩ := setSignature_publicKey.mp ran
    obtain ⟨-, filled⟩ := ChainEntry.setSignature_eq_ok_iff.mp signs
    obtain ⟨-, data, -, -, -, small⟩ := headed.fillSlot filled
    refine ⟨_, payload_publicKey (small_of_valid validEntry), ?_⟩
    rw [payload_publicKey small, data, Except.ok.injEq, List.append_cancel_right_eq]
    exact headed.setSignature_header_iff validEntry signs

/-- The front of a signed entry is what was signed just if the signature has the size of the
slot. -/
theorem take_signedEntry_iff (headed : entry.Headed) (valid : entry.validate = .ok ())
    (ran : (publicKey entry).signedEntry signature selector = .ok signed) :
    (entry.header.bytes ++ Fragment.toBytes entry.data).length = signed.size - signature.size ∧
      ((Fragment.toBytes signed).take (signed.size - signature.size) =
          entry.header.bytes ++ Fragment.toBytes entry.data ↔
        signature.size = entry.slot.size) := by
  simp only [signedEntry, bind_eq_ok_iff, Edit.result_eq_ok_iff, setSignature_publicKey] at ran
  obtain ⟨_, ⟨_, changed, signs, rfl⟩, same⟩ := ran
  simp only [pure_eq_ok_iff] at same
  subst same
  obtain ⟨-, filled⟩ := ChainEntry.setSignature_eq_ok_iff.mp signs
  obtain ⟨-, data, slot, -, header, -⟩ := headed.fillSlot filled
  have size : signature.size = changed.slot.size := by
    rw [slot]
    rfl
  have exact := Fragment.Lawful.length_toBytes entry.data
  refine ⟨?_, ?_⟩
  · rw [ChainEntry.size_eq, size, header, data, List.length_append, exact, ← Nat.add_assoc,
      Nat.add_sub_cancel]
    rfl
  · rw [← headed.setSignature_header_iff valid signs, size, take_toBytes, data,
      List.append_cancel_right_eq]

end SigningModule

namespace Signer

variable {signer : Signer} {disk : Files.Disk} {service : SigningService} {request : Request}
  {key : PublicKey} {chain : SignatureChain}

theorem complete_eq_ok_iff :
    signer.complete service request = .ok chain ↔
      ∃ signature signed, service request.signingModule = .ok signature ∧
        request.signingModule.signedEntry signature signer.selector = .ok signed ∧
        request.keychain.append signed = .ok chain := by
  simp only [complete, bind_eq_ok_iff]
  constructor
  · rintro ⟨signature, gives, signed, signs, appends⟩
    exact ⟨signature, signed, gives, signs, appends⟩
  · rintro ⟨signature, signed, gives, signs, appends⟩
    exact ⟨signature, gives, signed, signs, appends⟩

/-- The entry that signing a key adds begins with what the service was asked to sign just if the
signature has the size of the slot it was made for. -/
theorem signKey_begins_iff (ran : signer.signKey disk service key = .ok chain) :
    ∃ keychain signingModule signature payload signed,
      signer.requestForKey disk key = .ok ⟨keychain, signingModule⟩ ∧
      signingModule.payload = .ok payload ∧ service signingModule = .ok signature ∧
      chain.entries.items = keychain.entries.items ++ [signed] ∧
      (payload <+: Fragment.toBytes signed ↔ signature.size = Size.signature) := by
  simp only [signKey, bind_eq_ok_iff, exists_unit_iff, pure_eq_ok_iff] at ran
  obtain ⟨⟨_, _⟩, asked, _, completed, -, rfl⟩ := ran
  obtain ⟨signature, signed, gives, signs, appends⟩ := complete_eq_ok_iff.mp completed
  have given := asked
  simp only [requestForKey, SigningModule.ofKey, ChainEntry.publicKey, bind_eq_ok_iff,
    pure_eq_ok_iff, require_eq_ok_iff, exists_unit_iff, Request.mk.injEq] at given
  obtain ⟨keychain, -, _, ⟨entry, ⟨-, built⟩, rfl⟩, rfl, rfl⟩ := given
  obtain ⟨headed, valid, -, slot, -⟩ := ChainEntry.headed_build built
  obtain ⟨long, front⟩ := SigningModule.take_signedEntry_iff headed valid signs
  refine ⟨keychain, _, signature, _, signed, asked, SigningModule.payload_publicKey
    (SigningModule.small_of_valid valid), gives, ?_, ?_⟩
  · simp only [SignatureChain.append, bind_eq_ok_iff, exists_unit_iff, Sequence.append_eq_ok_iff,
      pure_eq_ok_iff] at appends
    obtain ⟨-, _, ⟨-, -, rfl⟩, rfl⟩ := appends
    rfl
  · have sized : entry.slot.size = Size.signature := by
      rw [slot]
      exact Bytes.length_zeros _
    rw [List.prefix_iff_eq_take, long, ← sized, ← front]
    exact eq_comm

end Signer

namespace SigningModule

variable {signature : Signature}

/-- Storing a signature in a valid module keeps what was signed, the front of a signed key entry is
what was signed, and the entry that signing a key adds to the keychain begins with what the service
was asked to sign, each just if the signature has the size of the slot. -/
theorem payload_kept_iff (signature : Signature) :
    (∀ before after : SigningModule, before.Standard →
      before.validate = .ok () → setSignature signature before = .ok () after →
      ∃ payload, before.payload = .ok payload ∧
        (after.payload = .ok payload ↔ signature.size = before.slotBytes.length) ∧
        (signature.size = before.slotBytes.length → after.payloadHash = before.payloadHash)) ∧
    (∀ (entry signed : ChainEntry) (selector : HashSelector),
      (publicKey entry).Standard → (publicKey entry).validate = .ok () →
      (publicKey entry).signedEntry signature selector = .ok signed →
      ∃ payload, (publicKey entry).payload = .ok payload ∧
        ((Fragment.toBytes signed).take (signed.size - signature.size) = payload ↔
          signature.size = entry.slot.size)) ∧
    (∀ (signer : Signer) (disk : Files.Disk) (service : SigningService) (key : PublicKey)
      (chain : SignatureChain), signer.signKey disk service key = .ok chain →
      ∃ keychain signingModule signature payload signed,
        signer.requestForKey disk key = .ok ⟨keychain, signingModule⟩ ∧
        signingModule.payload = .ok payload ∧ service signingModule = .ok signature ∧
        chain.entries.items = keychain.entries.items ++ [signed] ∧
        (payload <+: Fragment.toBytes signed ↔ signature.size = Size.signature)) := by
  refine ⟨?_, ?_, ?_⟩
  · intro before after standard valid ran
    obtain ⟨payload, there, kept⟩ := payload_setSignature_iff standard valid ran
    refine ⟨payload, there, kept, fun fills => ?_⟩
    rw [payloadHash, payloadHash, there, kept.mpr fills]
  · intro entry signed selector standard valid ran
    have validEntry := validate_publicKey valid
    obtain ⟨-, front⟩ := take_signedEntry_iff standard validEntry ran
    exact ⟨_, payload_publicKey (small_of_valid validEntry), front⟩
  · intro signer disk service key chain ran
    exact Signer.signKey_begins_iff ran

/-- A valid module for a key, a valid signature with components of the given size, and the module
with the signature stored. -/
def storedSignature (size : Nat) :
    Except Failure (SigningModule × Signature × SigningModule) := do
  let signingModule ← ofKey (← SignatureChain.plainKey) .intel
  signingModule.validate
  let signature ← Signature.ofComponents (Bytes.zeros size) (Bytes.zeros size)
  signature.validate
  return (signingModule, signature, ← (setSignature signature).result signingModule)

/-- The keychain of a root entry extended by a key that is signed with such a signature. -/
def signedKey (size : Nat) : Except Failure SignatureChain := do
  let signer : Signer := { keychain := some (← SignatureChain.openChain) }
  signer.signKey (Files.Disk.empty [])
    (fun _ => Signature.ofComponents (Bytes.zeros size) (Bytes.zeros size))
    (← SignatureChain.plainKey)

theorem storedSignature_eq_ok {size : Nat} {before after : SigningModule}
    (ran : storedSignature size = .ok (before, signature, after)) :
    ∃ entry, before = publicKey entry ∧ entry.Headed ∧ before.validate = .ok () ∧
      signature.validate = .ok () ∧ setSignature signature before = .ok () after := by
  simp only [storedSignature, ofKey, ChainEntry.publicKey, bind_eq_ok_iff, pure_eq_ok_iff,
    require_eq_ok_iff, exists_unit_iff, Edit.result_eq_ok_iff, Prod.mk.injEq] at ran
  obtain ⟨key, -, _, ⟨entry, ⟨-, built⟩, rfl⟩, valid, _, -, validSignature, _, ran, rfl, rfl, rfl⟩ := ran
  obtain ⟨headed, -⟩ := ChainEntry.headed_build built
  exact ⟨entry, rfl, headed, valid, validSignature, ran⟩

/-- A signature with components of 48 bytes fills the slot. -/
theorem payload_kept_iff_full :
    (∃ before signature after, storedSignature 48 = .ok (before, signature, after) ∧
      before.validate = .ok () ∧ setSignature signature before = .ok () after ∧
      after.payload = before.payload ∧ after.payloadHash = before.payloadHash) ∧
    (∃ entry signature after signed, storedSignature 48 = .ok (publicKey entry, signature, after) ∧
      (publicKey entry).signedEntry signature .intel = .ok signed ∧
      (publicKey entry).payload =
        .ok ((Fragment.toBytes signed).take (signed.size - signature.size))) ∧
    (∃ chain, signedKey 48 = .ok chain ∧
      ∃ (signingModule : SigningModule) (payload : Bytes) (signed : ChainEntry),
        signingModule.payload = .ok payload ∧
        signed ∈ chain.entries.items ∧ payload <+: Fragment.toBytes signed) := by
  have sizes : ((storedSignature 48).toOption.map fun (before, signature, _) =>
      (signature.size, before.slotBytes.length)) = some (112, 112) := by decide +kernel
  obtain ⟨⟨before, signature, after⟩, ran, seen⟩ := exists_of_map_eq_some sizes
  obtain ⟨full, wide⟩ := Prod.mk.inj seen
  obtain ⟨entry, rfl, headed, valid, -, stores⟩ := storedSignature_eq_ok ran
  refine ⟨?_, ?_, ?_⟩
  · obtain ⟨payload, there, kept, hashed⟩ :=
      (payload_kept_iff signature).1 (publicKey entry) after headed valid stores
    have fills := full.trans wide.symm
    exact ⟨_, signature, after, ran, valid, stores, (kept.mpr fills).trans there.symm, hashed fills⟩
  · obtain ⟨signed, signs, rfl⟩ := setSignature_publicKey.mp stores
    have made : (publicKey entry).signedEntry signature .intel = .ok signed := by
      rw [signedEntry, bind_of_ok (Edit.result_eq_ok_iff.mpr ⟨(), stores⟩)]
      rfl
    obtain ⟨payload, there, front⟩ :=
      (payload_kept_iff signature).2.1 entry signed .intel headed valid made
    refine ⟨entry, signature, _, signed, ran, made, ?_⟩
    rw [there, front.mpr (full.trans wide.symm)]
  · have signs : ((signedKey 48).toOption.map fun _ => ()) = some () := by decide +kernel
    obtain ⟨chain, made, -⟩ := exists_of_map_eq_some signs
    have given := made
    simp only [signedKey, bind_eq_ok_iff] at given
    obtain ⟨keychain, -, key, -, ran⟩ := given
    obtain ⟨keychain, signingModule, signature, payload, signed, -, there, gives, items, begins⟩ :=
      (payload_kept_iff signature).2.2 _ _ _ key chain ran
    have size : signature.size = Size.signature := Signature.size_ofComponents gives
    refine ⟨chain, made, signingModule, payload, signed, there, ?_, begins.mpr size⟩
    rw [items]
    exact List.mem_append_right _ (List.mem_singleton_self _)

/-- A signature with components of 32 bytes is valid and is taken, and changes what was signed. -/
theorem payload_changed_by_short_signature :
    ∃ before signature after, storedSignature 32 = .ok (before, signature, after) ∧
      before.validate = .ok () ∧ signature.validate = .ok () ∧
      setSignature signature before = .ok () after ∧ after.payload ≠ before.payload := by
  have sizes : ((storedSignature 32).toOption.map fun (before, signature, _) =>
      (signature.size, before.slotBytes.length)) = some (80, 112) := by decide +kernel
  obtain ⟨⟨before, signature, after⟩, ran, seen⟩ := exists_of_map_eq_some sizes
  obtain ⟨short, wide⟩ := Prod.mk.inj seen
  obtain ⟨entry, rfl, headed, valid, validSignature, stores⟩ := storedSignature_eq_ok ran
  have standard : (publicKey entry).Standard := headed
  obtain ⟨payload, there, kept⟩ := payload_setSignature_iff standard valid stores
  refine ⟨_, signature, after, ran, valid, validSignature, stores, fun same => ?_⟩
  have fills := kept.mp (same.trans there)
  rw [short, wide] at fills
  exact absurd fills (by decide)

end SigningModule
end SecureBoot
