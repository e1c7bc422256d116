import SecureBoot.Proofs.ChainUpkeep
import SecureBoot.Proofs.Restoring

/-!
The upkeep of layouts in sections, certificates and configurations. Whatever the source of a stream
delivers, and however a call ends, an object registers what a new one does: reading adds bytes,
entries and sections, and checks them, but registers nothing.
-/

namespace SecureBoot

namespace Buffered

variable {α β : Type} [Buffered α] {blank : Buffer}

/-- Whatever is done to the buffer is done to the object. -/
theorem keeps_onBuffer {call : Edit Buffer β}
    (put : ∀ (object : α) other, buffer (withBuffer object other) = other)
    (keeps : Edit.Keeps (Buffer.Follows · blank) call) :
    Edit.Keeps (fun object : α => (buffer object).Follows blank) (onBuffer call) := by
  refine keeps.within (fun _ follows => follows) fun object other _ follows => ?_
  rwa [put]

theorem maintains (put : ∀ (object : α) other, buffer (withBuffer object other) = other) :
    @Fragment.Maintains α fragment fun object => (buffer object).Follows blank :=
  letI : Fragment α := fragment
  { writes := by
      intro object changed bytes offset follows ran
      simp only [Fragment.writeBytes, mapBuffer, bind_eq_ok_iff, pure_eq_ok_iff] at ran
      obtain ⟨other, written, rfl⟩ := ran
      rw [put]
      exact Buffer.Follows.setRaw follows written
    reads := by
      have filled : Edit.Keeps (Edit.First (Buffer.Follows · blank)) Buffer.fill :=
        Buffer.Follows.keeps_fill
      refine .bind (filled.within (fun _ follows => follows) fun pair other _ follows => ?_)
        fun count => .bind .get fun pair => ?_
      · rwa [Edit.First, put]
      · obtain ⟨object, stream⟩ := pair
        exact .ite (.bind (Edit.Keeps.onObject (.ask check)) fun _ => .pure count) (.pure count)
    updates := keeps_onBuffer put Buffer.Follows.keeps_updateCrc }

end Buffered

theorem SectionHeader.Standard.maintained : Fragment.Maintains SectionHeader.Standard :=
  Buffered.maintains fun _ _ => rfl

theorem CertificateHeader.Standard.maintained : Fragment.Maintains CertificateHeader.Standard :=
  Buffered.maintains fun _ _ => rfl

theorem ConfigurationHeader.Standard.maintained :
    Fragment.Maintains ConfigurationHeader.Standard :=
  Buffered.maintains fun _ _ => rfl

theorem SectionHeader.Standard.keeps_reset (sectionType : UInt32) :
    Edit.Keeps SectionHeader.Standard (SectionHeader.reset sectionType) :=
  Buffered.keeps_onBuffer (fun _ _ => rfl) (.bind (Buffer.Follows.keeps_reset _) fun _ =>
    .bind (Buffer.Follows.keeps_setWord _ _) fun _ => Buffer.Follows.keeps_updateCrc)

theorem SectionHeader.Standard.setSectionsRemaining {header changed : SectionHeader}
    {count : UInt32} (standard : header.Standard)
    (ran : header.setSectionsRemaining count = .ok changed) : changed.Standard := by
  obtain ⟨buffer, stored, rfl⟩ := setSectionsRemaining_eq_ok_iff.mp ran
  exact Buffer.Follows.setWord standard stored

theorem ConfigurationHeader.Standard.keeps_reset :
    Edit.Keeps ConfigurationHeader.Standard ConfigurationHeader.reset := by
  refine Buffered.keeps_onBuffer (fun _ _ => rfl) (.bind (Buffer.Follows.keeps_reset _) fun _ => ?_)
  refine .bind (Buffer.Follows.keeps_setWord _ _) fun _ => .bind (Buffer.Follows.keeps_setWord _ _)
    fun _ => .bind (Buffer.Follows.keeps_setWord _ _) fun _ => ?_
  exact .bind (Buffer.Follows.keeps_setWord _ _) fun _ => Buffer.Follows.keeps_updateCrc

theorem ConfigurationHeader.Standard.keeps_setFormat (format : DescriptorFormat) :
    Edit.Keeps ConfigurationHeader.Standard (ConfigurationHeader.setFormat format) := by
  refine Buffered.keeps_onBuffer (fun _ _ => rfl) (.bind (Buffer.Follows.keeps_setWord _ _)
    fun _ => ?_)
  cases format.requiredSha? with
  | none => exact .pure ()
  | some digest => exact Buffer.Follows.keeps_setWord _ _

theorem CertificateHeader.Standard.keeps_reset (uid hmac keyHash : String) :
    Edit.Keeps CertificateHeader.Standard (CertificateHeader.reset uid hmac keyHash) := by
  have stores (bytes : Bytes) (offset : Nat) : Edit.Keeps
      (Buffer.Follows · CertificateHeader.empty.buffer) (Edit.change (·.setRaw bytes offset)) :=
    .change fun _ _ follows ran => follows.setRaw ran
  refine .bind (.ask _) fun uid => .bind (.ask _) fun hmac => .bind (.ask _) fun keyHash =>
    Buffered.keeps_onBuffer (fun _ _ => rfl) (.bind (Buffer.Follows.keeps_reset _) fun _ => ?_)
  refine .bind (Buffer.Follows.keeps_setWord _ _) fun _ => .bind (stores uid _) fun _ => ?_
  exact .bind (stores hmac _) fun _ => .bind (stores keyHash _) fun _ =>
    Buffer.Follows.keeps_updateCrc

namespace Section

variable {sect : Section} {chain : SignatureChain} {header : SectionHeader}
  {signatures : SignatureDescriptor}

/-- The parts are laid out as those of a section that is read. -/
structure Standard (sect : Section) : Prop where
  header : sect.header.Standard
  signatures : sect.signatures.Standard

theorem Standard.registered (standard : sect.Standard) : sect.Registered :=
  ⟨Buffer.Follows.registers standard.header, standard.signatures⟩

theorem standard_empty : empty.Standard :=
  ⟨.self _ fun _ _ => Nat.zero_le _, SignatureDescriptor.standard_empty⟩

theorem Standard.withHeader (standard : sect.Standard) (headed : header.Standard) :
    ({ sect with header := header } : Section).Standard :=
  ⟨headed, standard.signatures⟩

theorem Standard.withSignatures (standard : sect.Standard) (signed : signatures.Standard) :
    ({ sect with signatures := signatures } : Section).Standard :=
  ⟨standard.header, signed⟩

theorem Standard.keeps_onHeader {α : Type} {call : Edit SectionHeader α}
    (keeps : Edit.Keeps SectionHeader.Standard call) : Edit.Keeps Standard (onHeader call) :=
  keeps.within (fun _ standard => standard.header) fun _ _ standard headed =>
    standard.withHeader headed

theorem Standard.keeps_onSignatures {α : Type} {call : Edit SignatureDescriptor α}
    (keeps : Edit.Keeps SignatureDescriptor.Standard call) : Edit.Keeps Standard (onSignatures call) :=
  keeps.within (fun _ standard => standard.signatures) fun _ _ standard signed =>
    standard.withSignatures signed

theorem Standard.keeps_update : Edit.Keeps Standard Section.update := by
  refine .bind (.ask _) fun length => .bind (keeps_onHeader (.change fun _ _ headed ran =>
    headed.setSectionLength ran)) fun _ => ?_
  refine .bind (keeps_onHeader SectionHeader.Standard.maintained.updates) fun _ => ?_
  refine .bind (keeps_onSignatures SignatureDescriptor.Standard.keeps_update) fun _ =>
    .bind .get fun sect => ?_
  exact keeps_onSignatures (SignatureDescriptor.Standard.keeps_setBlock0Hash _)

theorem Standard.keeps_addChain (fine : chain.Standard) :
    Edit.Keeps Standard (Section.addChain chain) :=
  .bind (keeps_onSignatures (SignatureDescriptor.Standard.keeps_addChain fine)) fun slot =>
    .bind keeps_update fun _ => .pure slot

theorem Standard.keeps_read :
    Edit.Keeps (Edit.First Standard) (Fragment.read : Edit (Section × Stream) Nat) := by
  refine .bind (.readPart SectionHeader.Standard.maintained.reads (fun _ standard =>
    standard.header) fun _ _ standard headed => standard.withHeader headed) fun header =>
      .bind (.ask _) fun _ => ?_
  refine .bind (.readPart SignatureDescriptor.Standard.keeps_read (fun _ standard =>
    standard.signatures) fun _ _ standard signed => standard.withSignatures signed)
      fun signatures => ?_
  refine .bind (Edit.Keeps.onObject (.ask _)) fun length => .bind (Edit.Keeps.onObject
    (.modify fun _ standard => ⟨standard.header, standard.signatures⟩)) fun _ => ?_
  refine .bind (.elsewhere _ fun _ _ standard => ⟨standard.header, standard.signatures⟩)
    fun payload => .bind (Edit.Keeps.onObject (.ask _)) fun _ => .pure _

theorem Standard.maintained : Fragment.Maintains Standard where
  writes := by
    intro sect changed bytes offset standard ran
    refine Part.writeSpan_leaves Standard standard ?_ ran
    refine List.forall_mem_cons.mpr ⟨?header, List.forall_mem_cons.mpr ⟨?signatures,
      List.forall_mem_singleton.mpr ?payload⟩⟩
    case header =>
      exact Part.leaves_of SectionHeader.Standard.maintained.writes standard.header
        fun _ headed => standard.withHeader headed
    case signatures =>
      exact Part.leaves_of SignatureDescriptor.Standard.writeKeeps standard.signatures
        fun _ signed => standard.withSignatures signed
    case payload =>
      exact Part.leaves_of (Buffer.writeKeeps_size _) rfl fun _ _ =>
        ⟨standard.header, standard.signatures⟩
  reads := keeps_read
  updates := keeps_update

theorem standard_create {sectionType : UInt32} {payload : Bytes} {format : ChainFormat}
    (ran : create sectionType payload format = .ok sect) : sect.Standard := by
  simp only [create, bind_eq_ok_iff, Edit.result_eq_ok_iff] at ran
  obtain ⟨header, ⟨_, resets⟩, signatures, created, _, -, _, updated⟩ := ran
  have headed := (SectionHeader.Standard.keeps_reset sectionType).of_ok standard_empty.header resets
  have signed := SignatureDescriptor.standard_create created
  exact Standard.keeps_update.of_ok ⟨headed, signed⟩ updated

end Section

namespace Certificate

variable {certificate : Certificate} {chain : SignatureChain} {header : CertificateHeader}
  {signatures : SignatureDescriptor}

theorem standard_empty : empty.Standard :=
  ⟨.self _ fun _ _ => Nat.zero_le _, SignatureDescriptor.standard_empty⟩

theorem Standard.withHeader (standard : certificate.Standard) (headed : header.Standard) :
    ({ certificate with header := header } : Certificate).Standard :=
  ⟨headed, standard.signatures⟩

theorem Standard.withSignatures (standard : certificate.Standard) (signed : signatures.Standard) :
    ({ certificate with signatures := signatures } : Certificate).Standard :=
  ⟨standard.header, signed⟩

theorem Standard.keeps_onSignatures {α : Type} {call : Edit SignatureDescriptor α}
    (keeps : Edit.Keeps SignatureDescriptor.Standard call) : Edit.Keeps Standard (onSignatures call) :=
  keeps.within (fun _ standard => standard.signatures) fun _ _ standard signed =>
    standard.withSignatures signed

theorem Standard.keeps_update : Edit.Keeps Standard Certificate.update := by
  refine .bind (CertificateHeader.Standard.maintained.updates.within (fun _ standard =>
    standard.header) fun _ _ standard headed => standard.withHeader headed) fun _ => ?_
  refine .bind (keeps_onSignatures SignatureDescriptor.Standard.keeps_update) fun _ =>
    .bind .get fun _ => ?_
  exact keeps_onSignatures (SignatureDescriptor.Standard.keeps_setBlock0Hash _)

theorem Standard.keeps_addChain (fine : chain.Standard) :
    Edit.Keeps Standard (Certificate.addChain chain) :=
  .bind (keeps_onSignatures (SignatureDescriptor.Standard.keeps_addChain fine)) fun slot =>
    .bind keeps_update fun _ => .pure slot

theorem Standard.maintained : Fragment.Maintains Standard where
  writes := by
    intro certificate changed bytes offset standard ran
    refine Part.writeSpan_leaves Standard standard ?_ ran
    refine List.forall_mem_cons.mpr ⟨?header, List.forall_mem_singleton.mpr ?signatures⟩
    case header =>
      exact Part.leaves_of CertificateHeader.Standard.maintained.writes standard.header
        fun _ headed => standard.withHeader headed
    case signatures =>
      exact Part.leaves_of SignatureDescriptor.Standard.writeKeeps standard.signatures
        fun _ signed => standard.withSignatures signed
  reads := by
    refine .bind (.readPart CertificateHeader.Standard.maintained.reads (fun _ standard =>
      standard.header) fun _ _ standard headed => standard.withHeader headed) fun header =>
        .bind (.ask _) fun _ => ?_
    refine .bind (.readPart SignatureDescriptor.Standard.keeps_read (fun _ standard =>
      standard.signatures) fun _ _ standard signed => standard.withSignatures signed)
        fun signatures => ?_
    exact .bind (Edit.Keeps.onObject (.ask _)) fun _ => .pure _
  updates := keeps_update

theorem standard_create {uid hmac keyHash : String}
    (ran : create uid hmac keyHash = .ok certificate) : certificate.Standard := by
  simp only [create, bind_eq_ok_iff, Edit.result_eq_ok_iff] at ran
  obtain ⟨header, ⟨_, resets⟩, signatures, created, _, updated⟩ := ran
  have headed := (CertificateHeader.Standard.keeps_reset uid hmac keyHash).of_ok
    standard_empty.header resets
  have signed := SignatureDescriptor.standard_create created
  exact Standard.keeps_update.of_ok ⟨headed, signed⟩ updated

end Certificate

namespace Configuration

variable {configuration changed : Configuration} {chain : SignatureChain} {sect : Section}
  {header : ConfigurationHeader} {signatures : SignatureDescriptor} {stream left : Stream}
  {count : Nat}

/-- The parts are laid out as those of a configuration that is read. -/
structure Standard (configuration : Configuration) : Prop where
  header : configuration.header.Standard
  signatures : configuration.signatures.Standard
  sections : ∀ sect ∈ configuration.sections, sect.Standard

theorem Standard.registered (standard : configuration.Standard) : configuration.Registered where
  header := Buffer.Follows.registers standard.header
  signatures := standard.signatures
  sections sect member := (standard.sections sect member).registered

theorem standard_empty : empty.Standard :=
  ⟨.self _ fun _ _ => Nat.zero_le _, SignatureDescriptor.standard_empty, fun _ => nofun⟩

theorem Standard.withHeader (standard : configuration.Standard) (headed : header.Standard) :
    ({ configuration with header := header } : Configuration).Standard :=
  ⟨headed, standard.signatures, standard.sections⟩

theorem Standard.withSignatures (standard : configuration.Standard) (signed : signatures.Standard) :
    ({ configuration with signatures := signatures } : Configuration).Standard :=
  ⟨standard.header, signed, standard.sections⟩

theorem Standard.withSections {sections : List Section} (standard : configuration.Standard)
    (each : ∀ sect ∈ sections, sect.Standard) :
    ({ configuration with sections := sections } : Configuration).Standard :=
  ⟨standard.header, standard.signatures, each⟩

theorem Standard.withPayload {payload : Buffer} (standard : configuration.Standard) :
    ({ configuration with payload := payload } : Configuration).Standard :=
  ⟨standard.header, standard.signatures, standard.sections⟩

theorem Standard.push (standard : configuration.Standard) (fine : sect.Standard) :
    ({ configuration with sections := configuration.sections ++ [sect] } : Configuration).Standard :=
  standard.withSections
    (List.forall_mem_append.mpr ⟨standard.sections, List.forall_mem_singleton.mpr fine⟩)

theorem Standard.keeps_onHeader {α : Type} {call : Edit ConfigurationHeader α}
    (keeps : Edit.Keeps ConfigurationHeader.Standard call) : Edit.Keeps Standard (onHeader call) :=
  keeps.within (fun _ standard => standard.header) fun _ _ standard headed =>
    standard.withHeader headed

theorem Standard.keeps_onSignatures {α : Type} {call : Edit SignatureDescriptor α}
    (keeps : Edit.Keeps SignatureDescriptor.Standard call) : Edit.Keeps Standard (onSignatures call) :=
  keeps.within (fun _ standard => standard.signatures) fun _ _ standard signed =>
    standard.withSignatures signed

/-- Tell a section how many follow it, and refresh it. -/
def renewal (count : Nat) : Edit Section Unit := do
  Section.onHeader (Edit.change (·.setSectionsRemaining (UInt32.ofNat count)))
  Section.update

/-- A section that is not renewed ends the renewing of those behind it. -/
theorem after_updateSections_of_error {first left : Section} {rest : List Section}
    {failure : Failure} (ran : renewal rest.length first = .error failure left) :
    Edit.after updateSections (first :: rest) = left :: rest := by
  rw [renewal] at ran
  simp only [Edit.after, updateSections, ran]

theorem after_updateSections_of_ok {first changed : Section} {rest : List Section}
    (ran : renewal rest.length first = .ok () changed) :
    Edit.after updateSections (first :: rest) = changed :: Edit.after updateSections rest := by
  rw [renewal] at ran
  simp only [Edit.after, updateSections, ran]
  cases updateSections rest with
  | error failure later => rfl
  | ok answer later => rfl

/-- What renewing keeps of each section, however many follow it, it keeps of all of them. -/
theorem keeps_updateSections {fine : Section → Prop}
    (renews : ∀ count, Edit.Keeps fine (renewal count)) :
    Edit.Keeps (fun sections => ∀ sect ∈ sections, fine sect) updateSections := by
  intro sections
  induction sections with
  | nil => exact fun held => held
  | cons first rest ih =>
    intro held
    obtain ⟨here, others⟩ := List.forall_mem_cons.mp held
    cases ran : renewal rest.length first with
    | error failure left =>
      rw [after_updateSections_of_error ran]
      exact List.forall_mem_cons.mpr ⟨(renews _).of_error here ran, others⟩
    | ok answer changed =>
      rw [after_updateSections_of_ok ran]
      exact List.forall_mem_cons.mpr ⟨(renews _).of_ok here ran, ih others⟩

theorem Standard.keeps_update : Edit.Keeps Standard Configuration.update := by
  have renews (count : Nat) : Edit.Keeps Section.Standard (renewal count) :=
    .bind (Section.Standard.keeps_onHeader (.change fun _ _ headed ran =>
      headed.setSectionsRemaining ran)) fun _ => Section.Standard.keeps_update
  refine .bind ((keeps_updateSections renews).within (fun _ standard => standard.sections)
    fun _ _ standard each => standard.withSections each) fun _ => .bind .get fun _ => ?_
  refine .bind (keeps_onHeader (.change fun _ _ headed ran => headed.setSectionsRemaining ran))
    fun _ => ?_
  refine .bind (keeps_onHeader ConfigurationHeader.Standard.maintained.updates) fun _ => ?_
  refine .bind (keeps_onSignatures SignatureDescriptor.Standard.keeps_update) fun _ =>
    .bind .get fun _ => ?_
  exact keeps_onSignatures (SignatureDescriptor.Standard.keeps_setBlock0Hash _)

theorem Standard.keeps_addChain (fine : chain.Standard) :
    Edit.Keeps Standard (Configuration.addChain chain) :=
  .bind (keeps_onSignatures (SignatureDescriptor.Standard.keeps_addChain fine)) fun slot =>
    .bind keeps_update fun _ => .pure slot

theorem Standard.keeps_pushSection (fine : sect.Standard) :
    Edit.Keeps Standard (pushSection sect) :=
  .bind (.modify fun _ standard => standard.push fine) fun _ => keeps_update

theorem Standard.keeps_readSections (rounds : Nat) (remaining : UInt32) :
    Edit.Keeps (Edit.First Standard) (readSections rounds remaining) := by
  induction rounds generalizing remaining with
  | zero => exact .pure 0
  | succ rounds ih =>
    unfold readSections
    refine .ite (.pure 0) (.bind (.fromStream _) fun exhausted => .bind .get fun _ => ?_)
    refine .bind (.ask _) fun _ => .bind_readNew Section.Standard.keeps_read Section.standard_empty
      fun count sect fine => ?_
    refine .bind (.ask _) fun next => .bind (.ask _) fun _ => .bind (Edit.Keeps.onObject
      (.modify fun _ standard => standard.push fine)) fun _ => .bind (ih next) fun more => .pure _

theorem Standard.keeps_read :
    Edit.Keeps (Edit.First Standard) (Fragment.read : Edit (Configuration × Stream) Nat) := by
  refine .bind (.readPart ConfigurationHeader.Standard.maintained.reads (fun _ standard =>
    standard.header) fun _ _ standard headed => standard.withHeader headed) fun header =>
      .bind (.ask _) fun _ => ?_
  refine .bind (.readPart SignatureDescriptor.Standard.keeps_read (fun _ standard =>
    standard.signatures) fun _ _ standard signed => standard.withSignatures signed)
      fun signatures => ?_
  refine .bind (Edit.Keeps.onObject (.modify fun _ standard => standard.withSections fun _ => nofun))
    fun _ => .bind (Edit.Keeps.onObject (.ask _)) fun remaining => .bind .get fun _ => ?_
  refine .bind (keeps_readSections _ _) fun sections => ?_
  refine .bind (Edit.Keeps.onObject (.modify fun _ standard => standard.withPayload)) fun _ => ?_
  refine .bind (.elsewhere _ fun _ _ standard => standard.withPayload) fun payload =>
    .bind (Edit.Keeps.onObject (.ask _)) fun _ => .pure _

theorem Standard.maintained : Fragment.Maintains Standard where
  writes := by
    intro configuration changed bytes offset standard ran
    refine Part.writeSpan_leaves Standard standard ?_ ran
    refine List.forall_mem_append.mpr ⟨List.forall_mem_append.mpr ⟨List.forall_mem_cons.mpr
      ⟨?header, List.forall_mem_singleton.mpr ?signatures⟩, ?sections⟩,
      List.forall_mem_singleton.mpr ?payload⟩
    case header =>
      exact Part.leaves_of ConfigurationHeader.Standard.maintained.writes standard.header
        fun _ headed => standard.withHeader headed
    case signatures =>
      exact Part.leaves_of SignatureDescriptor.Standard.writeKeeps standard.signatures
        fun _ signed => standard.withSignatures signed
    case sections =>
      exact Part.leaves_ofList Section.Standard.maintained.writes standard.sections
        fun _ _ each => standard.withSections each
    case payload =>
      exact Part.leaves_of (Buffer.writeKeeps_size _) rfl fun _ _ => standard.withPayload
  reads := keeps_read
  updates := keeps_update

theorem standard_ofHeader (headed : header.Standard) (ran : ofHeader header = .ok configuration) :
    configuration.Standard := by
  simp only [ofHeader, bind_eq_ok_iff, Edit.result_eq_ok_iff] at ran
  obtain ⟨format, -, signatures, created, _, updated⟩ := ran
  have signed := SignatureDescriptor.standard_create created
  exact Standard.keeps_update.of_ok ⟨headed, signed, List.forall_mem_nil _⟩ updated

theorem standard_create {format : DescriptorFormat} (ran : create format = .ok configuration) :
    configuration.Standard := by
  simp only [create, bind_eq_ok_iff, Edit.result_eq_ok_iff, Edit.bind_eq_ok_iff] at ran
  obtain ⟨header, ⟨_, _, blank, resets, formats⟩, made⟩ := ran
  have begun := ConfigurationHeader.Standard.keeps_reset.of_ok
    standard_empty.header resets
  exact standard_ofHeader ((ConfigurationHeader.Standard.keeps_setFormat format).of_ok begun formats)
    made

/-- What a configuration ends with when it was read is its check. -/
theorem validate_of_read
    (ran : Fragment.read (configuration, stream) = .ok count (changed, left)) :
    changed.validate = .ok () := by
  have ran : read (configuration, stream) = .ok count (changed, left) := ran
  simp only [read, Edit.bind_eq_ok_iff, Prod.exists, Edit.ask_onObject_eq_ok_iff,
    Edit.pure_eq_ok_iff, Prod.mk.injEq] at ran
  obtain ⟨_, _, _, -, _, _, _, -, _, _, _, -, _, _, _, -, ran⟩ := ran
  obtain ⟨_, _, _, -, _, _, _, _, -, _, _, _, -, _, _, _, -, _, _, _, -, ran⟩ := ran
  obtain ⟨_, _, _, ⟨valid, rfl, rfl⟩, -, rfl, rfl⟩ := ran
  exact valid

/-- Whatever was in a configuration before, the one that was read is laid out like a new one. -/
theorem Standard.read (standard : configuration.Standard)
    (ran : Fragment.read (configuration, stream) = .ok count (changed, left)) :
    changed.Standard ∧ changed.validate = .ok () := by
  have begun : Edit.First Standard (configuration, stream) := standard
  exact ⟨keeps_read.of_ok begun ran, validate_of_read ran⟩

end Configuration

end SecureBoot
