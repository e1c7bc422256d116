import SecureBoot.Container.Certificate
import SecureBoot.Container.Section
import SecureBoot.Proofs.Descriptor
import SecureBoot.Proofs.Header

/-!
Sections and certificates in a stream. A section that was refreshed is read back from its own bytes
just if they stand the checks of a header that is read; a header with other registrations than the
one that is read can pass its own checks and fail those.
-/

namespace SecureBoot

variable {rest : Bytes} {count : Nat} {left : Stream} {answer : Unit}

namespace Section

variable {sect changed : Section}

instance : Composite.Lawful Section where
  parts sect := by
    rw [show Composite.parts sect = [_, _, _] from rfl, List.forall_mem_cons, List.forall_mem_cons,
      List.forall_mem_singleton]
    exact ⟨Part.lawful_of sect.header fun header => { sect with header := header },
      Part.lawful_of sect.signatures fun signatures => { sect with signatures := signatures },
      Part.lawful_of sect.payload fun payload => { sect with payload := payload }⟩

instance : Fragment.Lawful Section where
  length_toBytes := Composite.length_toBytes
  readBytes_sound := Composite.readBytes_sound
  readBytes_inside := Composite.readBytes_inside
  writeBytes_same := Composite.writeBytes_same

theorem toBytes_eq (sect : Section) :
    Fragment.toBytes sect = sect.header.buffer.bytes ++
      (Fragment.toBytes sect.signatures ++ sect.payload.bytes) := by
  rw [show Fragment.toBytes sect = sect.header.buffer.bytes ++
    (Fragment.toBytes sect.signatures ++ (sect.payload.bytes ++ [])) from rfl, List.append_nil]

theorem size_eq (sect : Section) :
    Composite.size sect =
      sect.header.size + (Composite.size sect.signatures + sect.payload.size) :=
  rfl

theorem validateParts_eq_ok_iff :
    Composite.validateParts sect = .ok answer ↔
      sect.header.validate = .ok () ∧ sect.signatures.validate = .ok () ∧
        sect.payload.validate = .ok () := by
  rw [Composite.validateParts_eq_ok_iff, show Composite.parts sect = [_, _, _] from rfl,
    List.forall_mem_cons, List.forall_mem_cons, List.forall_mem_singleton]
  rfl

theorem validate_eq_ok_iff :
    sect.validate = .ok answer ↔
      (sect.header.validate = .ok () ∧ sect.signatures.validate = .ok () ∧
        sect.payload.validate = .ok ()) ∧
      sect.signatures.block0Hash = .ok (Fragment.sha384 sect.header) ∧
      ∃ length, sect.header.sectionLength = .ok length ∧ length.toNat = sect.payload.size := by
  simp only [validate, SignatureDescriptor.checkLink, bind_eq_ok_iff, exists_unit_iff,
    validateParts_eq_ok_iff, require_eq_ok_iff, exists_eq_right]

/-- The section as it is read from its own bytes: the payload has just the room it needs. -/
def reread (sect : Section) : Section where
  header := sect.header.reread
  signatures := sect.signatures
  payload := { Buffer.empty (some sect.payload.size) with bytes := sect.payload.bytes }

/-- A valid section is read back from its own bytes, whatever follows them, if they stand the checks
of a header that is read. -/
theorem takes_read (standard : sect.signatures.Standard) (padded : sect.signatures.table.Padded)
    (valid : sect.validate = .ok ()) (validHeader : sect.header.reread.validate = .ok ())
    (rest : Bytes) :
    Edit.Takes read empty (Fragment.toBytes sect) rest (Composite.size sect) sect.reread := by
  obtain ⟨⟨-, validSignatures, -⟩, linked, length, stated, exact⟩ := validate_eq_ok_iff.mp valid
  obtain ⟨whole, checked⟩ := SectionHeader.validate_eq_ok_iff.mp validHeader
  have size : sect.header.size = Size.header := whole
  let headed : Section := { empty with header := sect.header.reread }
  let signed : Section := { headed with signatures := sect.signatures }
  let payload : Buffer := Buffer.empty (some sect.payload.size)
  have followsHeader : (Buffered.buffer sect.header.reread).Follows
      (Buffered.buffer SectionHeader.empty) :=
    ⟨rfl, fun most bounded => Nat.le_of_eq (whole.trans (Option.some.inj bounded))⟩
  have readHeader (rest : Bytes) : Edit.Takes (Edit.readPart Section.header
      (fun sect header => { sect with header := header })) empty sect.header.buffer.bytes rest
        sect.header.size headed := by
    refine .readPart (Buffered.takes_read followsHeader rfl ?_ rfl validHeader rest)
    rw [show (Buffered.buffer sect.header.reread).size = Size.header from whole]
    rfl
  have readSignatures (rest : Bytes) : Edit.Takes (Edit.readPart Section.signatures
      (fun sect signatures => { sect with signatures := signatures })) headed
        (Fragment.toBytes sect.signatures) rest Size.signatureDescriptor signed :=
    .readPart (SignatureDescriptor.takes_read standard padded validSignatures rest)
  have follows : sect.reread.payload.Follows payload :=
    ⟨rfl, fun most bounded => Nat.le_of_eq (Option.some.inj bounded)⟩
  have plain := follows.validate_of_plain rfl rfl
  have readPayload : Edit.Takes (Edit.readPart Section.payload
      (fun sect payload => { sect with payload := payload })) { signed with payload := payload }
        sect.payload.bytes rest sect.payload.size sect.reread :=
    .readPart (follows.takes_read rfl rfl plain rest)
  have announces : sect.header.reread.sectionLength = .ok length := stated
  have validReread : sect.reread.validate = .ok () :=
    validate_eq_ok_iff.mpr ⟨⟨validHeader, validSignatures, plain⟩, linked, length, announces, exact⟩
  have total : Edit.Takes (pure (sect.header.size + Size.signatureDescriptor + sect.payload.size))
      sect.reread [] rest (Composite.size sect) sect.reread := by
    have filled : Composite.size sect.signatures = Size.signatureDescriptor :=
      (SignatureDescriptor.validate_eq_ok_iff.mp validSignatures).1
    rw [size_eq, filled, Nat.add_assoc]
    exact .pure _ _ rest
  have asked : Edit.ask (fun sect : Section => sect.header.sectionLength) signed =
      .ok length signed :=
    Edit.ask_eq_ok_iff.mpr ⟨announces, rfl⟩
  have announced (rest : Bytes) : Edit.Takes (Edit.onObject
      (Edit.ask fun sect : Section => sect.header.sectionLength)) signed [] rest length signed :=
    .onObject asked rest
  rw [toBytes_eq]
  refine .bind (readHeader _) (.look (.ask fun _ => require_of size) ?_)
  refine .bind (readSignatures _) (.look (announced _) (.look (.modify _ signed _) ?_))
  rw [exact]
  exact .last readPayload (.look (.check validReread _) total)

/-- Reading checks the header as it is read. -/
theorem read_checks_header (whole : sect.header.size = Size.header)
    (ran : read (empty, Stream.ofBytes (Fragment.toBytes sect ++ rest)) =
      .ok count (changed, left)) : sect.header.reread.validate = .ok () := by
  simp only [read, Edit.bind_eq_ok_iff] at ran
  obtain ⟨count, ⟨started, after⟩, readHeader, _, _, sized, -⟩ := ran
  obtain ⟨exact, -⟩ := Edit.ask_eq_ok_iff.mp sized
  have full := require_eq_ok_iff.mp exact
  obtain ⟨⟨header, between⟩, reads, put⟩ := Edit.within_eq_ok_iff.mp readHeader
  have blank : SectionHeader.empty.buffer.Follows SectionHeader.empty.buffer :=
    .self _ fun _ _ => Nat.zero_le _
  obtain ⟨taken, advances, counted, longer, follows, checked⟩ :=
    Buffered.read_sound blank (fun _ => rfl) (Stream.steady_ofBytes _) reads
  have size : taken.length = Size.header := counted ▸ full
  have own : taken = sect.header.buffer.bytes := by
    have split := advances.unread
    rw [Stream.unread_ofBytes, toBytes_eq, List.append_assoc] at split
    exact (List.append_inj split (whole.trans size.symm)).1.symm
  have bytes : header.buffer.bytes = sect.header.buffer.bytes := longer.trans own
  have standard : header.Standard := follows
  have same : sect.header.reread = header := by
    rw [SectionHeader.reread, ← bytes]
    exact standard.reread
  have complete : (Buffered.buffer header).isComplete = true := by
    refine Buffer.isComplete_iff.mpr fun most limited => ?_
    rw [follows.limit] at limited
    rw [← Option.some.inj limited, Buffer.size,
      show (Buffered.buffer header).bytes = sect.header.buffer.bytes from bytes]
    exact Nat.le_of_eq whole.symm
  rw [same]
  exact checked complete

/-- Refreshing a section refreshes its header and its signatures and links the two. -/
theorem update_eq_ok_iff :
    update sect = .ok answer changed ↔
      ∃ length measured header signatures signed,
        Bytes.encodeLength sect.payload.size = .ok length ∧
        sect.header.setSectionLength length = .ok measured ∧
        Fragment.update measured = .ok () header ∧
        SignatureDescriptor.update sect.signatures = .ok () signatures ∧
        SignatureDescriptor.setBlock0Hash (Fragment.sha384 header) signatures = .ok () signed ∧
        ⟨header, signed, sect.payload⟩ = changed := by
  simp only [update, Edit.bind_eq_ok_iff, Edit.ask_eq_ok_iff, Edit.get_eq_ok_iff, onHeader,
    onSignatures]
  constructor
  · rintro ⟨length, _, ⟨encoded, rfl⟩, _, _, measuring, _, _, refreshing, _, _, signing, _, _,
      ⟨rfl, rfl⟩, linking⟩
    obtain ⟨measured, measures, rfl⟩ := Edit.within_eq_ok_iff.mp measuring
    obtain ⟨header, refreshes, rfl⟩ := Edit.within_eq_ok_iff.mp refreshing
    obtain ⟨signatures, signs, rfl⟩ := Edit.within_eq_ok_iff.mp signing
    obtain ⟨signed, links, rfl⟩ := Edit.within_eq_ok_iff.mp linking
    exact ⟨length, measured, header, signatures, signed, encoded, Edit.change_eq_ok_iff.mp measures,
      refreshes, signs, links, rfl⟩
  · rintro ⟨length, measured, header, signatures, signed, encoded, measures, refreshes, signs, links,
      rfl⟩
    exact ⟨length, _, ⟨encoded, rfl⟩, (), _, Edit.within_eq_ok_iff.mpr ⟨measured,
      Edit.change_of_ok measures, rfl⟩, (), _, Edit.within_eq_ok_iff.mpr ⟨header, refreshes, rfl⟩, (),
      _, Edit.within_eq_ok_iff.mpr ⟨signatures, signs, rfl⟩, _, _, ⟨rfl, rfl⟩,
      Edit.within_eq_ok_iff.mpr ⟨signed, links, rfl⟩⟩

/-- Refreshing keeps the layout of a section and fills its chain table up with zeros. -/
theorem update_keeps (standard : sect.signatures.Standard)
    (ran : update sect = .ok answer changed) :
    changed.signatures.Standard ∧ changed.signatures.table.Padded ∧
      (sect.header.Standard → changed.header.Standard) := by
  obtain ⟨length, measured, header, signatures, signed, -, measures, refreshes, signs, links, rfl⟩ :=
    update_eq_ok_iff.mp ran
  obtain ⟨again, padded, -⟩ := standard.update signs
  obtain ⟨linked, table⟩ := again.setBlock0Hash links
  exact ⟨linked, table ▸ padded, fun fine => (fine.setSectionLength measures).update refreshes⟩

/-- A section of valid parts is refreshed to a valid one. -/
theorem update_exists_of_steady (steady : sect.signatures.Steady)
    (validHeader : sect.header.validate = .ok ()) (spares : sect.header.SparesLength)
    (valid : sect.signatures.validate = .ok ()) (payload : sect.payload.validate = .ok ())
    (short : sect.payload.size < 2 ^ 32) :
    ∃ changed, update sect = .ok () changed ∧ changed.validate = .ok () ∧
      changed.payload = sect.payload ∧
      ∀ start, start + 4 ≤ SectionHeader.sectionLengthOffset →
        changed.header.buffer.getWord start = sect.header.buffer.getWord start := by
  have exact : (UInt32.ofNat sect.payload.size).toNat = sect.payload.size :=
    UInt32.toNat_ofNat_of_lt' short
  obtain ⟨measured, header, measures, refreshes, validRefreshed, stated, kept⟩ :=
    SectionHeader.measure_exists validHeader spares (UInt32.ofNat sect.payload.size)
  obtain ⟨signatures, signed, signs, links, -, -, validSigned, linked⟩ :=
    steady.relink_exists valid header
  have encoded := Bytes.encodeLength_eq_ok_iff.mpr exact
  exact ⟨_, update_eq_ok_iff.mpr ⟨_, measured, header, signatures, signed, encoded, measures,
    refreshes, signs, links, rfl⟩, validate_eq_ok_iff.mpr ⟨⟨validRefreshed, validSigned, payload⟩,
    linked, _, stated, exact⟩, rfl, kept⟩

theorem update_exists (standard : sect.signatures.Standard)
    (validHeader : sect.header.validate = .ok ()) (spares : sect.header.SparesLength)
    (valid : sect.signatures.validate = .ok ()) (payload : sect.payload.validate = .ok ())
    (short : sect.payload.size < 2 ^ 32) :
    ∃ changed, update sect = .ok () changed ∧ changed.validate = .ok () ∧
      changed.payload = sect.payload ∧
      ∀ start, start + 4 ≤ SectionHeader.sectionLengthOffset →
        changed.header.buffer.getWord start = sect.header.buffer.getWord start :=
  update_exists_of_steady (standard.steady valid) validHeader spares valid payload short

/-- A new section is valid. -/
theorem create_exists (sectionType : UInt32) {payload : Bytes} (short : payload.length < 2 ^ 32)
    (format : ChainFormat) :
    ∃ sect, create sectionType payload format = .ok sect ∧ sect.header.Standard ∧
      sect.signatures.Standard ∧ sect.payload = { Buffer.empty none with bytes := payload } ∧
      sect.validate = .ok () := by
  obtain ⟨header, made, standardHeader, validHeader⟩ := SectionHeader.reset_exists sectionType
  obtain ⟨signatures, begun, standard, -, valid, -⟩ := SignatureDescriptor.create_exists format
  let sect : Section := ⟨header, signatures, { Buffer.empty none with bytes := payload }⟩
  have plain : sect.payload.validate = .ok () := Buffer.validate_unbounded payload
  have fits : sect.payload.size < 2 ^ 32 := short
  obtain ⟨changed, updated, validToo, same, -⟩ :=
    update_exists standard validHeader standardHeader.sparesLength valid plain fits
  obtain ⟨again, -, fine⟩ := update_keeps standard updated
  refine ⟨changed, ?_, fine standardHeader, again, same, validToo⟩
  have filled : Buffer.create payload none = .ok { Buffer.empty none with bytes := payload } := rfl
  simp only [create, bind_eq_ok_iff, Edit.result_eq_ok_iff]
  exact ⟨header, Edit.result_eq_ok_iff.mp made, signatures, begun, _, filled, (), updated⟩

end Section

namespace Certificate

variable {certificate changed : Certificate}

instance : Composite.Lawful Certificate where
  parts certificate := by
    rw [show Composite.parts certificate = [_, _] from rfl, List.forall_mem_cons,
      List.forall_mem_singleton]
    exact ⟨Part.lawful_of certificate.header fun header => { certificate with header := header },
      Part.lawful_of certificate.signatures fun signatures =>
        { certificate with signatures := signatures }⟩

instance : Fragment.Lawful Certificate where
  length_toBytes := Composite.length_toBytes
  readBytes_sound := Composite.readBytes_sound
  readBytes_inside := Composite.readBytes_inside
  writeBytes_same := Composite.writeBytes_same

theorem toBytes_eq (certificate : Certificate) :
    Fragment.toBytes certificate = certificate.header.buffer.bytes ++
      Fragment.toBytes certificate.signatures := by
  rw [show Fragment.toBytes certificate = certificate.header.buffer.bytes ++
    (Fragment.toBytes certificate.signatures ++ []) from rfl, List.append_nil]

theorem size_eq (certificate : Certificate) :
    Composite.size certificate = certificate.header.size + Composite.size certificate.signatures :=
  rfl

/-- The header and the signature descriptor are laid out as those of a certificate that is read. -/
structure Standard (certificate : Certificate) : Prop where
  header : certificate.header.Standard
  signatures : certificate.signatures.Standard

theorem validate_eq_ok_iff :
    certificate.validate = .ok answer ↔
      Composite.size certificate = Size.certificate ∧
      (certificate.header.validate = .ok () ∧ certificate.signatures.validate = .ok ()) ∧
      certificate.signatures.block0Hash = .ok (Fragment.sha384 certificate.header) := by
  have parts {answer : Unit} : Composite.validateParts certificate = .ok answer ↔
      certificate.header.validate = .ok () ∧ certificate.signatures.validate = .ok () := by
    rw [Composite.validateParts_eq_ok_iff, show Composite.parts certificate = [_, _] from rfl,
      List.forall_mem_cons, List.forall_mem_singleton]
    rfl
  simp only [validate, SignatureDescriptor.checkLink, bind_eq_ok_iff, exists_unit_iff, parts,
    require_eq_ok_iff, exists_eq_right]

/-- A valid certificate is read back from its own bytes, whatever follows them. -/
theorem takes_read (standard : certificate.Standard)
    (padded : certificate.signatures.table.Padded) (valid : certificate.validate = .ok ())
    (rest : Bytes) :
    Edit.Takes read empty (Fragment.toBytes certificate) rest Size.certificate certificate := by
  obtain ⟨-, ⟨validHeader, validSignatures⟩, -⟩ := validate_eq_ok_iff.mp valid
  have whole : certificate.header.size = Size.header :=
    (CertificateHeader.validate_eq_ok_iff.mp validHeader).1
  have follows : (Buffered.buffer certificate.header).Follows
      (Buffered.buffer CertificateHeader.empty) := standard.header
  let headed : Certificate := { empty with header := certificate.header }
  have readHeader (rest : Bytes) : Edit.Takes (Edit.readPart Certificate.header
      (fun certificate header => { certificate with header := header })) empty
        certificate.header.buffer.bytes rest certificate.header.size headed := by
    refine .readPart (Buffered.takes_read follows rfl ?_ rfl validHeader rest)
    rw [show (Buffered.buffer certificate.header).size = Size.header from whole]
    rfl
  have readSignatures : Edit.Takes (Edit.readPart Certificate.signatures
      (fun certificate signatures => { certificate with signatures := signatures })) headed
        (Fragment.toBytes certificate.signatures) rest Size.signatureDescriptor certificate :=
    .readPart (SignatureDescriptor.takes_read standard.signatures padded validSignatures rest)
  have total : Edit.Takes (pure (certificate.header.size + Size.signatureDescriptor)) certificate []
      rest Size.certificate certificate := by
    rw [whole]
    exact .pure _ _ rest
  rw [toBytes_eq]
  refine .bind (readHeader _) (.look (.ask fun _ => require_of whole) ?_)
  exact .last readSignatures (.look (.check valid _) total)

theorem update_eq_ok_iff :
    update certificate = .ok answer changed ↔
      ∃ header signatures signed, Fragment.update certificate.header = .ok () header ∧
        SignatureDescriptor.update certificate.signatures = .ok () signatures ∧
        SignatureDescriptor.setBlock0Hash (Fragment.sha384 header) signatures = .ok () signed ∧
        ⟨header, signed⟩ = changed := by
  simp only [update, Edit.bind_eq_ok_iff, Edit.get_eq_ok_iff, onSignatures]
  constructor
  · rintro ⟨_, _, refreshing, _, _, signing, _, _, ⟨rfl, rfl⟩, linking⟩
    obtain ⟨header, refreshes, rfl⟩ := Edit.within_eq_ok_iff.mp refreshing
    obtain ⟨signatures, signs, rfl⟩ := Edit.within_eq_ok_iff.mp signing
    obtain ⟨signed, links, rfl⟩ := Edit.within_eq_ok_iff.mp linking
    exact ⟨header, signatures, signed, refreshes, signs, links, rfl⟩
  · rintro ⟨header, signatures, signed, refreshes, signs, links, rfl⟩
    exact ⟨(), _, Edit.within_eq_ok_iff.mpr ⟨header, refreshes, rfl⟩, (), _,
      Edit.within_eq_ok_iff.mpr ⟨signatures, signs, rfl⟩, _, _, ⟨rfl, rfl⟩,
      Edit.within_eq_ok_iff.mpr ⟨signed, links, rfl⟩⟩

/-- Refreshing keeps the layout of a certificate and fills its chain table up with zeros. -/
theorem Standard.update (standard : certificate.Standard)
    (ran : Certificate.update certificate = .ok answer changed) :
    changed.Standard ∧ changed.signatures.table.Padded := by
  obtain ⟨header, signatures, signed, refreshes, signs, links, rfl⟩ := update_eq_ok_iff.mp ran
  obtain ⟨again, padded, -⟩ := standard.signatures.update signs
  obtain ⟨linked, table⟩ := again.setBlock0Hash links
  exact ⟨⟨standard.header.update refreshes, linked⟩, table ▸ padded⟩

/-- A certificate of valid parts is refreshed to a valid one. -/
theorem update_exists (steady : certificate.signatures.Steady)
    (validHeader : certificate.header.validate = .ok ())
    (valid : certificate.signatures.validate = .ok ()) :
    ∃ changed, update certificate = .ok () changed ∧ changed.validate = .ok () := by
  have refreshes : Fragment.update certificate.header = .ok () certificate.header :=
    CertificateHeader.update_of_valid validHeader
  obtain ⟨signatures, signed, signs, links, -, -, validSigned, linked⟩ :=
    steady.relink_exists valid certificate.header
  have size : certificate.header.size = Size.header :=
    (CertificateHeader.validate_eq_ok_iff.mp validHeader).1
  have whole : Composite.size signed = Size.signatureDescriptor :=
    (SignatureDescriptor.validate_eq_ok_iff.mp validSigned).1
  refine ⟨⟨certificate.header, signed⟩, update_eq_ok_iff.mpr ⟨_, signatures, signed, refreshes, signs,
    links, rfl⟩, validate_eq_ok_iff.mpr ⟨?_, ⟨validHeader, validSigned⟩, linked⟩⟩
  rw [size_eq, size, whole]
  rfl

/-- The certificate of a device is valid. -/
theorem create_exists {uid hmac keyHash : String} {device code hash : Bytes}
    (deviceField : Text.HexNumber.toField uid CertificateHeader.uidSize .little = .ok device)
    (codeField : Text.HexNumber.toField hmac CertificateHeader.hmacSize .little = .ok code)
    (hashField : Text.HexNumber.toField keyHash CertificateHeader.keyHashSize .little = .ok hash) :
    ∃ certificate, create uid hmac keyHash = .ok certificate ∧ certificate.Standard ∧
      certificate.validate = .ok () := by
  obtain ⟨header, made, standardHeader, validHeader⟩ :=
    CertificateHeader.reset_exists deviceField codeField hashField
  obtain ⟨signatures, begun, standardToo, -, valid, -⟩ := SignatureDescriptor.create_exists .classic
  have standard : (⟨header, signatures⟩ : Certificate).Standard := ⟨standardHeader, standardToo⟩
  obtain ⟨changed, updated, validChanged⟩ :=
    @update_exists ⟨header, signatures⟩ (standardToo.steady valid) validHeader valid
  refine ⟨changed, ?_, (standard.update updated).1, validChanged⟩
  simp only [create, bind_eq_ok_iff, Edit.result_eq_ok_iff]
  exact ⟨header, Edit.result_eq_ok_iff.mp made, signatures, begun, (), updated⟩

end Certificate

/-- What was refreshed and is valid ends where its bytes end, whatever follows them: a signature
descriptor and a certificate are read back as they are, and a section with its bytes just if these
stand the checks of a header that is read, which is so unless the header was given other
registrations. -/
theorem refreshed_delimit_themselves :
    (∀ (before descriptor : SignatureDescriptor) (rest : Bytes), before.Standard →
      SignatureDescriptor.update before = .ok () descriptor → descriptor.validate = .ok () →
      ∃ left, SignatureDescriptor.read (.empty, .ofBytes (Fragment.toBytes descriptor ++ rest)) =
        .ok Size.signatureDescriptor (descriptor, left) ∧ left.unread = rest) ∧
    (∀ (before sect : Section) (rest : Bytes), before.signatures.Standard →
      Section.update before = .ok () sect → sect.validate = .ok () →
      ((∃ read left, Section.read (.empty, .ofBytes (Fragment.toBytes sect ++ rest)) =
          .ok (Composite.size sect) (read, left) ∧ Fragment.toBytes read = Fragment.toBytes sect ∧
            left.unread = rest) ↔ sect.header.reread.validate = .ok ()) ∧
      (before.header.Standard → sect.header.reread.validate = .ok ())) ∧
    (∀ (before certificate : Certificate) (rest : Bytes), before.Standard →
      Certificate.update before = .ok () certificate → certificate.validate = .ok () →
      ∃ left, Certificate.read (.empty, .ofBytes (Fragment.toBytes certificate ++ rest)) =
        .ok (Composite.size certificate) (certificate, left) ∧ left.unread = rest) := by
  refine ⟨?_, ?_, ?_⟩
  · intro before descriptor rest standard updated valid
    obtain ⟨again, padded, -⟩ := standard.update updated
    obtain ⟨left, ran, advances⟩ := SignatureDescriptor.takes_read again padded valid rest
      (.ofBytes (Fragment.toBytes descriptor ++ rest)) (Stream.steady_ofBytes _) (by simp)
    exact ⟨left, ran, advances.unread_eq (by simp)⟩
  · intro before sect rest standard updated valid
    obtain ⟨again, padded, fine⟩ := Section.update_keeps standard updated
    obtain ⟨⟨validHeader, -⟩, -⟩ := Section.validate_eq_ok_iff.mp valid
    obtain ⟨whole, -⟩ := SectionHeader.validate_eq_ok_iff.mp validHeader
    refine ⟨⟨?_, fun checked => ?_⟩, fun header => ?_⟩
    · rintro ⟨read, left, ran, -⟩
      exact Section.read_checks_header whole ran
    · obtain ⟨left, ran, advances⟩ := Section.takes_read again padded valid checked rest
        (.ofBytes (Fragment.toBytes sect ++ rest)) (Stream.steady_ofBytes _) (by simp)
      refine ⟨sect.reread, left, ran, ?_, advances.unread_eq (by simp)⟩
      rw [Section.toBytes_eq, Section.toBytes_eq]
      rfl
    · rw [(fine header).reread]
      exact validHeader
  · intro before certificate rest standard updated valid
    obtain ⟨again, padded⟩ := standard.update updated
    obtain ⟨left, ran, advances⟩ := Certificate.takes_read again padded valid rest
      (.ofBytes (Fragment.toBytes certificate ++ rest)) (Stream.steady_ofBytes _) (by simp)
    rw [(Certificate.validate_eq_ok_iff.mp valid).1]
    exact ⟨left, ran, advances.unread_eq (by simp)⟩

/-- A descriptor with a closed chain between empty slots and an open one in the last slot, a new
section and a new certificate are such objects. -/
theorem refreshed_delimit_themselves_mixed :
    (∃ opened closed descriptor left, SignatureChain.openChain = .ok opened ∧
      SignatureChain.closedChain = .ok closed ∧
      descriptor.table.chains = [.empty, closed, .empty, opened, .empty, .empty, .empty, opened] ∧
      SignatureDescriptor.read (.empty, .ofBytes (Fragment.toBytes descriptor ++ [7])) =
        .ok Size.signatureDescriptor (descriptor, left) ∧ left.unread = [7]) ∧
    (∃ created sect read left, Section.create 1 [0, 17, 34, 51] .classic = .ok created ∧
      Section.update created = .ok () sect ∧
      Section.read (.empty, .ofBytes (Fragment.toBytes sect ++ [7])) =
        .ok (Composite.size sect) (read, left) ∧ Fragment.toBytes read = Fragment.toBytes sect ∧
      left.unread = [7]) ∧
    (∃ created certificate left, Certificate.create "1" "2" "3" = .ok created ∧
      Certificate.update created = .ok () certificate ∧
      Certificate.read (.empty, .ofBytes (Fragment.toBytes certificate ++ [7])) =
        .ok (Composite.size certificate) (certificate, left) ∧ left.unread = [7]) := by
  refine ⟨?_, ?_, ?_⟩
  · obtain ⟨opened, opens, -, -, openSize⟩ := SignatureChain.openChain_exists
    obtain ⟨closed, closes, -, -, closedSize⟩ := SignatureChain.closedChain_exists
    obtain ⟨created, -, standard, -, valid, format, -⟩ := SignatureDescriptor.create_exists .multiRoot
    have blank : SignatureChain.empty.Standard ∧ SignatureChain.empty.validate = .ok () :=
      ⟨SignatureChain.standard_expecting (some 0), SignatureChain.validate_empty⟩
    have fine : ∀ chain ∈ [SignatureChain.empty, closed, .empty, opened, .empty, .empty, .empty,
        opened], chain.Standard ∧ chain.validate = .ok () := by
      simp only [List.forall_mem_cons, List.not_mem_nil, false_implies, implies_true, and_true]
      exact ⟨blank, SignatureChain.standard_closedChain closes, blank,
        SignatureChain.standard_openChain opens, blank, blank, blank,
        SignatureChain.standard_openChain opens⟩
    have fits : Size.chainTableHeader + Fragment.totalSize [SignatureChain.empty, closed, .empty,
        opened, .empty, .empty, .empty, opened] ≤ SignatureDescriptor.tableSize := by
      have noBytes : Fragment.size SignatureChain.empty = 0 := rfl
      have whole : Fragment.size closed = 256 := closedSize
      have part : Fragment.size opened = 120 := openSize
      simp only [Fragment.totalSize, noBytes, whole, part]
      decide
    obtain ⟨before, descriptor, -, standardBefore, updated, chains, validToo⟩ :=
      standard.exchange_exists valid fine (by rw [format]; rfl) fits
    obtain ⟨left, ran, rest⟩ :=
      refreshed_delimit_themselves.1 before descriptor [7] standardBefore updated validToo
    exact ⟨opened, closed, descriptor, left, opens, closes, chains, ran, rest⟩
  · have short : ([0, 17, 34, 51] : Bytes).length < 2 ^ 32 := by decide
    obtain ⟨created, made, standardHeader, standard, payload, valid⟩ :=
      Section.create_exists 1 short .classic
    obtain ⟨⟨validHeader, validSignatures, validPayload⟩, -⟩ := Section.validate_eq_ok_iff.mp valid
    obtain ⟨sect, updated, validToo, -⟩ := Section.update_exists standard validHeader
      standardHeader.sparesLength validSignatures validPayload (by rw [payload]; exact short)
    obtain ⟨back, checked⟩ :=
      refreshed_delimit_themselves.2.1 created sect [7] standard updated validToo
    obtain ⟨read, left, ran, same, rest⟩ := back.mpr (checked standardHeader)
    exact ⟨created, sect, read, left, made, updated, ran, same, rest⟩
  · obtain ⟨created, made, standard, valid⟩ : ∃ created, Certificate.create "1" "2" "3" =
        .ok created ∧ created.Standard ∧ created.validate = .ok () :=
      Certificate.create_exists rfl rfl rfl
    obtain ⟨-, ⟨validHeader, validSignatures⟩, -⟩ := Certificate.validate_eq_ok_iff.mp valid
    obtain ⟨certificate, updated, validToo⟩ := Certificate.update_exists
      (standard.signatures.steady validSignatures) validHeader validSignatures
    obtain ⟨left, ran, rest⟩ :=
      refreshed_delimit_themselves.2.2 created certificate [7] standard updated validToo
    exact ⟨created, certificate, left, made, updated, ran, rest⟩

/-- A section whose header has no registrations, no magic number and no checksum. -/
def plainSection (signatures : SignatureDescriptor) : Section where
  header := ⟨{ Buffer.empty none with bytes := Bytes.zeros Size.header }⟩
  signatures := signatures
  payload := { Buffer.empty none with bytes := [0, 17, 34, 51] }

/-- Such a section is refreshed and valid, and is not read back. -/
theorem plainSection_not_read_back :
    ∃ signatures sect, SignatureDescriptor.create .classic = .ok signatures ∧
      Section.update (plainSection signatures) = .ok () sect ∧ sect.validate = .ok () ∧
      ¬ ∃ count read left,
        Section.read (.empty, .ofBytes (Fragment.toBytes sect)) = .ok count (read, left) := by
  obtain ⟨signatures, created, standard, -, valid, -⟩ := SignatureDescriptor.create_exists .classic
  have whole : (plainSection signatures).header.size = Size.header := Bytes.length_zeros _
  have validHeader : (plainSection signatures).header.validate = .ok () := by
    refine SectionHeader.validate_eq_ok_iff.mpr ⟨whole, ?_⟩
    exact Buffer.Follows.validate_of_plain ⟨rfl, fun most bounded => nomatch bounded⟩ rfl rfl
  have spares : (plainSection signatures).header.SparesLength :=
    ⟨by simp [plainSection, Buffer.empty], by simp [plainSection, Buffer.empty], .nil⟩
  have plain : (plainSection signatures).payload.validate = .ok () :=
    Buffer.Follows.validate_of_plain ⟨rfl, fun most bounded => nomatch bounded⟩ rfl rfl
  obtain ⟨sect, updated, validToo, -, kept⟩ :=
    Section.update_exists standard validHeader spares valid plain
      (show 4 < 2 ^ 32 by decide)
  refine ⟨signatures, sect, created, updated, validToo, ?_⟩
  rintro ⟨count, read, left, ran⟩
  obtain ⟨⟨validRefreshed, -⟩, -⟩ := Section.validate_eq_ok_iff.mp validToo
  obtain ⟨size, -⟩ := SectionHeader.validate_eq_ok_iff.mp validRefreshed
  rw [← List.append_nil (Fragment.toBytes sect)] at ran
  obtain ⟨-, checked⟩ := SectionHeader.validate_eq_ok_iff.mp (Section.read_checks_header size ran)
  obtain ⟨-, stand, -⟩ := Buffer.validate_eq_ok_iff.mp checked
  obtain ⟨inside, magic⟩ := stand (Magic.sectionDescriptor, 0) (List.mem_singleton_self _)
  have zero : sect.header.buffer.getWord 0 = .ok 0 := by
    rw [kept 0 (by decide)]
    refine Buffer.getWord_eq_ok_iff.mpr ⟨?_, rfl⟩
    rw [show (plainSection signatures).header.buffer.size = Size.header from whole]
    decide
  have word := (Buffer.getWord_eq_ok_iff.mp zero).2
  rw [show Bytes.wordAt sect.header.buffer.bytes 0 = Magic.sectionDescriptor from magic] at word
  exact absurd word (by decide)

end SecureBoot
