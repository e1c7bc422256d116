import SecureBoot.Proofs.Configuration
import SecureBoot.Proofs.Container
import SecureBoot.Proofs.Module
import SecureBoot.Proofs.Rereading

/-!
Reading structures that are made of parts. Whatever is read is valid and has just the bytes that
were taken from the stream, none of them looked at and lost.
-/

namespace SecureBoot

namespace Edit

variable {σ τ : Type} {object changed : σ} {stream left : Stream} {count : Nat}

@[simp] theorem readPart_eq_ok_iff [Fragment τ] {view : σ → τ} {put : σ → τ → σ} :
    readPart view put (object, stream) = .ok count (changed, left) ↔
      ∃ component, Fragment.read (view object, stream) = .ok count (component, left) ∧
        put object component = changed := by
  rw [readPart, within_eq_ok_iff]
  constructor
  · rintro ⟨⟨component, after⟩, ran, same⟩
    obtain ⟨rfl, rfl⟩ := Prod.mk.inj same
    exact ⟨component, ran, rfl⟩
  · rintro ⟨component, ran, rfl⟩
    exact ⟨(component, left), ran, rfl⟩

@[simp] theorem modify_onObject_eq_ok_iff {next : σ → σ} {answer : PUnit} :
    (onObject (modify next) : Edit (σ × Stream) PUnit) (object, stream) =
      .ok answer (changed, left) ↔ next object = changed ∧ stream = left := by
  rw [onObject_eq_ok_iff, modify_eq_ok_iff]

@[simp] theorem ask_onObject_eq_ok_iff {α : Type} {question : σ → Except Failure α} {answer : α} :
    (onObject (ask question) : Edit (σ × Stream) α) (object, stream) = .ok answer (changed, left) ↔
      question object = .ok answer ∧ object = changed ∧ stream = left := by
  rw [onObject_eq_ok_iff, ask_eq_ok_iff, and_assoc]

end Edit

/-- An empty buffer has just the bytes it took in the end. -/
theorem Buffer.blank_sound {blank changed : Buffer} {stream left : Stream} {count : Nat}
    (unfilled : blank.bytes = []) (steady : stream.Steady)
    (ran : Fragment.read (blank, stream) = .ok count (changed, left)) :
    stream.Advances left changed.bytes ∧ count = changed.size := by
  have follows : blank.Follows blank := .self _ fun most _ => by
    rw [size, unfilled]
    exact Nat.zero_le most
  obtain ⟨taken, advances, rfl, longer, -⟩ := read_sound follows steady ran
  rw [unfilled, List.nil_append] at longer
  rw [size, longer]
  exact ⟨advances, rfl⟩

theorem Buffered.blank_sound {α : Type} [Buffered α] {blank changed : α} {stream left : Stream}
    {count : Nat} (unfilled : (buffer blank).bytes = [])
    (put : ∀ other, buffer (withBuffer blank other) = other) (steady : stream.Steady)
    (ran : read (blank, stream) = .ok count (changed, left)) :
    stream.Advances left (buffer changed).bytes ∧ count = (buffer changed).size := by
  have follows : (buffer blank).Follows (buffer blank) := .self _ fun most _ => by
    rw [Buffer.size, unfilled]
    exact Nat.zero_le most
  obtain ⟨taken, advances, rfl, longer, -⟩ := read_sound follows put steady ran
  rw [unfilled, List.nil_append] at longer
  rw [Buffer.size, longer]
  exact ⟨advances, rfl⟩

/-- A buffer without a limit is read to the end of the stream. -/
theorem Buffer.takes_rest (bytes : Bytes) :
    Edit.Takes (Fragment.read : Edit (Buffer × Stream) Nat) (empty none) bytes [] bytes.length
      { empty none with bytes := bytes } := by
  have follows : { empty none with bytes := bytes }.Follows (empty none) :=
    (Follows.self _ fun _ _ => Nat.zero_le _).withBytes (by simp [empty])
  refine .last (takes_fill_all rfl (follows.append_blank rfl)) (.get_bind fun stream _ => ?_)
  exact .look (.check (follows.validate_of_plain rfl rfl) []) (.pure _ _ [])

namespace ChainTable

variable {table changed : ChainTable} {chain : SignatureChain} {stream left : Stream}
  {index count span limit : Nat} {indices : List Nat} {format : ChainFormat} {pending : Option Nat}

/-- A chain that has to fill some bytes is made of all of them. -/
theorem readBounded_sound (steady : stream.Steady)
    (ran : readBounded (.expecting pending) span stream = .ok (count, chain) left) :
    stream.Advances left (Fragment.toBytes chain) ∧ count = chain.size ∧ chain.Standard := by
  simp only [readBounded, Edit.bind_eq_ok_iff, Edit.ask_eq_ok_iff, Edit.answer_eq_ok_iff,
    require_eq_ok_iff, Edit.pure_eq_ok_iff, Prod.exists, Prod.mk.injEq] at ran
  obtain ⟨bytes, _, took, _, _, _, ⟨⟨rest, read⟩, rfl⟩, _, _, ⟨full, rfl⟩, ⟨rfl, rfl⟩, rfl⟩ := ran
  obtain ⟨exact, advances⟩ := Edit.takeExactly_sound steady took
  obtain ⟨-, standard, taken, counted, -⟩ :=
    SignatureChain.read_sound (Stream.steady_ofBytes bytes) (Edit.readNew_eq_ok_iff.mp read)
  have split := taken.unread
  rw [Stream.unread_ofBytes] at split
  have length := congrArg List.length split
  rw [List.length_append, Fragment.Lawful.length_toBytes, exact, ← full, counted] at length
  have none : rest.unread = [] := List.eq_nil_of_length_eq_zero (Nat.left_eq_add.mp length)
  rw [none, List.append_nil] at split
  rw [← split]
  exact ⟨advances, counted, standard⟩

theorem readSlot_sound (steady : stream.Steady)
    (ran : table.readSlot index stream = .ok (count, chain) left) :
    stream.Advances left (Fragment.toBytes chain) ∧ count = chain.size ∧ chain.Standard := by
  simp only [readSlot, Edit.bind_eq_ok_iff, Edit.ask_eq_ok_iff] at ran
  obtain ⟨pending, _, ⟨-, rfl⟩, span, _, ⟨-, rfl⟩, ran⟩ := ran
  cases span with
  | none =>
    obtain ⟨-, standard, advances, counted, -⟩ :=
      SignatureChain.read_sound steady (Edit.readNew_eq_ok_iff.mp ran)
    exact ⟨advances, counted, standard⟩
  | some span => exact readBounded_sound steady ran

theorem readSlots_sound (steady : stream.Steady)
    (ran : readSlots indices (table, stream) = .ok count (changed, left)) :
    ∃ chains, changed = { table with chains := table.chains ++ chains } ∧
      stream.Advances left (chains.flatMap Fragment.toBytes) ∧
      count = Fragment.totalSize chains ∧ ∀ chain ∈ chains, chain.Standard := by
  induction indices generalizing table stream count with
  | nil =>
    simp only [readSlots, Edit.pure_eq_ok_iff, Prod.mk.injEq] at ran
    obtain ⟨rfl, rfl, rfl⟩ := ran
    exact ⟨[], by rw [List.append_nil], .refl steady, rfl, List.forall_mem_nil _⟩
  | cons index rest ih =>
    simp only [readSlots, Edit.bind_eq_ok_iff, Edit.get_eq_ok_iff] at ran
    obtain ⟨_, _, ⟨rfl, rfl⟩, ran⟩ := ran
    simp only [Prod.exists, Edit.fromStream_eq_ok_iff, Edit.modify_onObject_eq_ok_iff,
      Edit.pure_eq_ok_iff, Prod.mk.injEq] at ran
    obtain ⟨first, chain, _, between, ⟨ranSlot, rfl⟩, _, _, _, ⟨rfl, rfl⟩, more, _, _, ranRest, rfl,
      rfl, rfl⟩ := ran
    obtain ⟨advances, rfl, standard⟩ := readSlot_sound steady ranSlot
    obtain ⟨chains, rfl, further, rfl, others⟩ := ih advances.steady ranRest
    refine ⟨chain :: chains, by simp, ?_, rfl, List.forall_mem_cons.mpr ⟨standard, others⟩⟩
    rw [List.flatMap_cons]
    exact advances.trans further

/-- Reading a table takes just the bytes of the valid table that comes of it. -/
theorem read_sound (steady : stream.Steady)
    (ran : Fragment.read (expecting format limit, stream) = .ok count (table, left)) :
    stream.Advances left (Fragment.toBytes table) ∧ count = Composite.size table ∧
      table.validate = .ok () ∧ ∀ chain ∈ table.chains, chain.Standard := by
  have ran : read (expecting format limit, stream) = .ok count (table, left) := ran
  simp only [read, Edit.bind_eq_ok_iff, Prod.exists, Edit.ask_eq_ok_iff, Prod.mk.injEq,
    Edit.readPart_eq_ok_iff, Edit.ask_onObject_eq_ok_iff, Edit.modify_onObject_eq_ok_iff,
    Edit.get_eq_ok_iff, Edit.pure_eq_ok_iff] at ran
  obtain ⟨_, _, _, ⟨-, rfl, rfl⟩, first, _, between, ⟨header, ranHeader, rfl⟩, ran⟩ := ran
  obtain ⟨_, _, _, ⟨-, rfl, rfl⟩, _, _, _, ⟨rfl, rfl⟩, _, _, _, _, ⟨⟨rfl, rfl⟩, rfl, rfl⟩, ran⟩ :=
    ran
  obtain ⟨second, _, middle, ranChains, room, _, _, ⟨-, rfl, rfl⟩, _, _, _, ⟨rfl, rfl⟩, ran⟩ := ran
  obtain ⟨third, _, after, ⟨padding, ranPadding, rfl⟩, _, _, _, ⟨valid, rfl, rfl⟩, rfl, rfl, rfl⟩ :=
    ran
  obtain ⟨headed, rfl⟩ := Buffer.blank_sound rfl steady ranHeader
  obtain ⟨chains, rfl, chained, rfl, standard⟩ := readSlots_sound headed.steady ranChains
  obtain ⟨padded, rfl⟩ := Buffer.blank_sound rfl chained.steady ranPadding
  refine ⟨?_, ?_, valid, standard⟩
  · rw [toBytes_eq]
    exact headed.trans (chained.trans padded)
  · rw [size_eq, Nat.add_assoc]
    rfl

end ChainTable

/-- Reading a descriptor takes just the bytes of the valid descriptor that comes of it. -/
theorem SignatureDescriptor.read_sound {descriptor blank : SignatureDescriptor}
    {stream left : Stream} {count : Nat} (unread : blank.header.bytes = [])
    (unsealed : blank.crc.bytes = []) (steady : stream.Steady)
    (ran : Fragment.read (blank, stream) = .ok count (descriptor, left)) :
    stream.Advances left (Fragment.toBytes descriptor) ∧ count = Composite.size descriptor ∧
      descriptor.validate = .ok () ∧ ∀ chain ∈ descriptor.table.chains, chain.Standard := by
  have ran : read (blank, stream) = .ok count (descriptor, left) := ran
  simp only [read, Edit.bind_eq_ok_iff, Prod.exists, Edit.readPart_eq_ok_iff,
    Edit.ask_onObject_eq_ok_iff, Edit.modify_onObject_eq_ok_iff, Edit.pure_eq_ok_iff,
    Prod.mk.injEq] at ran
  obtain ⟨first, _, between, ⟨header, ranHeader, rfl⟩, _, _, _, ⟨-, rfl, rfl⟩, format, _, _,
    ⟨-, rfl, rfl⟩, _, _, _, ⟨rfl, rfl⟩, ran⟩ := ran
  obtain ⟨second, _, middle, ⟨table, ranTable, rfl⟩, third, _, after, ⟨checksum, ranCrc, rfl⟩, _,
    _, _, ⟨valid, rfl, rfl⟩, rfl, rfl, rfl⟩ := ran
  obtain ⟨headed, rfl⟩ := Buffer.blank_sound unread steady ranHeader
  obtain ⟨laid, rfl, -, standard⟩ := ChainTable.read_sound headed.steady ranTable
  obtain ⟨closed, rfl⟩ := Buffer.blank_sound unsealed laid.steady ranCrc
  refine ⟨?_, ?_, valid, standard⟩
  · rw [toBytes_eq]
    exact headed.trans (laid.trans closed)
  · rw [size_eq, Nat.add_assoc]

/-- Reading a section takes just the bytes of the valid section that comes of it. -/
theorem Section.read_sound {sect : Section} {stream left : Stream} {count : Nat}
    (steady : stream.Steady) (ran : Fragment.read (empty, stream) = .ok count (sect, left)) :
    stream.Advances left (Fragment.toBytes sect) ∧ count = Composite.size sect ∧
      sect.validate = .ok () := by
  have ran : read (empty, stream) = .ok count (sect, left) := ran
  simp only [read, Edit.bind_eq_ok_iff, Prod.exists, Edit.readPart_eq_ok_iff, Edit.ask_eq_ok_iff,
    Edit.ask_onObject_eq_ok_iff, Edit.modify_onObject_eq_ok_iff, Edit.pure_eq_ok_iff,
    Prod.mk.injEq] at ran
  obtain ⟨first, _, between, ⟨header, ranHeader, rfl⟩, _, _, _, ⟨-, rfl, rfl⟩, ran⟩ := ran
  obtain ⟨second, _, middle, ⟨signatures, ranSignatures, rfl⟩, length, _, _, ⟨-, rfl, rfl⟩, _, _, _,
    ⟨rfl, rfl⟩, ran⟩ := ran
  obtain ⟨third, _, after, ⟨payload, ranPayload, rfl⟩, _, _, _, ⟨valid, rfl, rfl⟩, rfl, rfl, rfl⟩ :=
    ran
  obtain ⟨headed, rfl⟩ := Buffered.blank_sound rfl (fun _ => rfl) steady ranHeader
  obtain ⟨signed, rfl, -⟩ := SignatureDescriptor.read_sound rfl rfl headed.steady ranSignatures
  obtain ⟨filled, rfl⟩ := Buffer.blank_sound rfl signed.steady ranPayload
  refine ⟨?_, ?_, valid⟩
  · rw [toBytes_eq]
    exact headed.trans (signed.trans filled)
  · rw [size_eq, Nat.add_assoc]
    rfl

theorem Section.header_le {sect : Section} (valid : sect.validate = .ok ()) :
    Size.header ≤ (Fragment.toBytes sect).length := by
  obtain ⟨⟨validHeader, -⟩, -⟩ := validate_eq_ok_iff.mp valid
  have whole := (SectionHeader.validate_eq_ok_iff.mp validHeader).1
  rw [toBytes_eq, List.length_append, ← whole]
  exact Nat.le_add_right _ _

/-- Reading a certificate takes just the bytes of the valid certificate that comes of it. -/
theorem Certificate.read_sound {certificate : Certificate} {stream left : Stream} {count : Nat}
    (steady : stream.Steady)
    (ran : Fragment.read (empty, stream) = .ok count (certificate, left)) :
    stream.Advances left (Fragment.toBytes certificate) ∧ certificate.validate = .ok () := by
  have ran : read (empty, stream) = .ok count (certificate, left) := ran
  simp only [read, Edit.bind_eq_ok_iff, Prod.exists, Edit.readPart_eq_ok_iff, Edit.ask_eq_ok_iff,
    Edit.ask_onObject_eq_ok_iff, Edit.pure_eq_ok_iff, Prod.mk.injEq] at ran
  obtain ⟨first, _, between, ⟨header, ranHeader, rfl⟩, _, _, _, ⟨-, rfl, rfl⟩, ran⟩ := ran
  obtain ⟨second, _, middle, ⟨signatures, ranSignatures, rfl⟩, _, _, _, ⟨valid, rfl, rfl⟩, rfl, rfl,
    rfl⟩ := ran
  obtain ⟨headed, rfl⟩ := Buffered.blank_sound rfl (fun _ => rfl) steady ranHeader
  obtain ⟨signed, rfl, -⟩ := SignatureDescriptor.read_sound rfl rfl headed.steady ranSignatures
  refine ⟨?_, valid⟩
  rw [toBytes_eq]
  exact headed.trans signed

theorem Certificate.length_of_valid {certificate : Certificate}
    (valid : certificate.validate = .ok ()) :
    (Fragment.toBytes certificate).length = Size.certificate := by
  rw [Fragment.Lawful.length_toBytes]
  exact (validate_eq_ok_iff.mp valid).1

namespace Configuration

variable {configuration changed : Configuration} {sections : List Section} {stream left : Stream}
  {count rounds : Nat} {remaining : UInt32}

theorem toBytes_eq (configuration : Configuration) :
    Fragment.toBytes configuration = configuration.header.buffer.bytes ++
      (Fragment.toBytes configuration.signatures ++
        (configuration.sections.flatMap Fragment.toBytes ++ configuration.payload.bytes)) := by
  rw [show Fragment.toBytes configuration =
    Part.serialize ([_, _] ++ Part.ofList _ configuration.sections ++ [_]) from rfl]
  simp only [Part.serialize_append, Part.serialize_ofList, Part.serialize, List.append_nil,
    List.append_assoc]
  rfl

/-- The sections that are read are added behind those there are. -/
theorem readSections_sound (steady : stream.Steady)
    (ran : readSections rounds remaining (configuration, stream) = .ok count (changed, left)) :
    ∃ sections, changed = { configuration with sections := configuration.sections ++ sections } ∧
      stream.Advances left (sections.flatMap Fragment.toBytes) := by
  induction rounds generalizing remaining configuration stream count with
  | zero =>
    simp only [readSections, Edit.pure_eq_ok_iff, Prod.mk.injEq] at ran
    obtain ⟨rfl, rfl, rfl⟩ := ran
    exact ⟨[], by rw [List.append_nil], .refl steady⟩
  | succ rounds ih =>
    rw [readSections] at ran
    by_cases last : remaining = 0
    · simp only [last, if_true, Edit.pure_eq_ok_iff, Prod.mk.injEq] at ran
      obtain ⟨rfl, rfl, rfl⟩ := ran
      exact ⟨[], by rw [List.append_nil], .refl steady⟩
    · simp only [last, if_false, Edit.bind_eq_ok_iff, Prod.exists, Edit.fromStream_eq_ok_iff,
        Edit.get_eq_ok_iff, Edit.ask_eq_ok_iff, Prod.mk.injEq, Edit.readNew_eq_ok_iff,
        Edit.modify_onObject_eq_ok_iff, Edit.pure_eq_ok_iff] at ran
      obtain ⟨exhausted, _, looked, ⟨ranLook, rfl⟩, _, _, _, _, ⟨⟨rfl, rfl⟩, rfl, rfl⟩, ran⟩ := ran
      obtain ⟨_, _, _, ⟨-, rfl, rfl⟩, first, sect, _, between, ⟨ranSection, rfl⟩, ran⟩ := ran
      obtain ⟨next, _, _, ⟨-, rfl, rfl⟩, _, _, _, ⟨-, rfl, rfl⟩, _, _, _, ⟨rfl, rfl⟩, ran⟩ := ran
      obtain ⟨more, _, _, ranMore, rfl, rfl, rfl⟩ := ran
      obtain ⟨-, looks⟩ := Edit.isExhausted_sound steady ranLook
      obtain ⟨advances, -, -⟩ := Section.read_sound looks.steady ranSection
      obtain ⟨sections, rfl, further⟩ := ih advances.steady ranMore
      refine ⟨sect :: sections, by simp, ?_⟩
      rw [List.flatMap_cons]
      exact (looks.trans advances).trans further

/-- A configuration is read to the end of the stream, and is valid. -/
theorem read_sound (steady : stream.Steady)
    (ran : Fragment.read (empty, stream) = .ok count (configuration, left)) :
    stream.Advances left (Fragment.toBytes configuration) ∧ left.unread = [] ∧
      configuration.validate = .ok () := by
  have ran : read (empty, stream) = .ok count (configuration, left) := ran
  simp only [read, Edit.bind_eq_ok_iff, Prod.exists, Edit.readPart_eq_ok_iff, Edit.ask_eq_ok_iff,
    Edit.ask_onObject_eq_ok_iff, Edit.modify_onObject_eq_ok_iff, Edit.get_eq_ok_iff,
    Edit.pure_eq_ok_iff, Prod.mk.injEq] at ran
  obtain ⟨_, _, between, ⟨header, ranHeader, rfl⟩, _, _, _, ⟨-, rfl, rfl⟩, ran⟩ := ran
  obtain ⟨_, _, middle, ⟨signatures, ranSignatures, rfl⟩, _, _, _, ⟨rfl, rfl⟩, ran⟩ := ran
  obtain ⟨remaining, _, _, ⟨-, rfl, rfl⟩, _, _, _, _, ⟨⟨rfl, rfl⟩, rfl, rfl⟩, ran⟩ := ran
  obtain ⟨_, _, behind, ranSections, _, _, _, ⟨rfl, rfl⟩, ran⟩ := ran
  obtain ⟨_, _, after, ⟨payload, ranPayload, rfl⟩, _, _, _, ⟨valid, rfl, rfl⟩, rfl, rfl, rfl⟩ := ran
  obtain ⟨headed, rfl⟩ := Buffered.blank_sound rfl (fun _ => rfl) steady ranHeader
  obtain ⟨signed, rfl, -⟩ := SignatureDescriptor.read_sound rfl rfl headed.steady ranSignatures
  obtain ⟨sections, rfl, divided⟩ := readSections_sound signed.steady ranSections
  obtain ⟨rfl, rfl, filled⟩ := (Buffer.takes_rest behind.unread).sound divided.steady
    (List.append_nil _).symm ranPayload
  refine ⟨?_, filled.unread_eq (List.append_nil _).symm, valid⟩
  rw [toBytes_eq]
  exact headed.trans (signed.trans (divided.trans filled))

end Configuration

namespace SigningModule

variable {signingModule : SigningModule} {stream left : Stream} {count : Nat} {kind : ModuleKind}
  {format : KeyFormat}

theorem toBytes_cmfDescriptor (header : ConfigurationHeader) (slot : Buffer) :
    Fragment.toBytes (cmfDescriptor header slot) = header.buffer.bytes ++ slot.bytes := by
  rw [show Fragment.toBytes (cmfDescriptor header slot) =
    header.buffer.bytes ++ (slot.bytes ++ []) from rfl, List.append_nil]

theorem toBytes_certificateHeader (header : CertificateHeader) (slot : Buffer) :
    Fragment.toBytes (certificateHeader header slot) = header.buffer.bytes ++ slot.bytes := by
  rw [show Fragment.toBytes (certificateHeader header slot) =
    header.buffer.bytes ++ (slot.bytes ++ []) from rfl, List.append_nil]

theorem toBytes_publicKey (entry : ChainEntry) :
    Fragment.toBytes (publicKey entry) = Fragment.toBytes entry := by
  rw [show Fragment.toBytes (publicKey entry) = Fragment.toBytes entry ++ [] from rfl,
    List.append_nil]

private theorem readSigned_sound {α : Type} [Buffered α] {build : α → Buffer → SigningModule}
    {blank : α} {start : SigningModule} (unread : (Buffered.buffer blank).bytes = [])
    (put : ∀ other, Buffered.buffer (Buffered.withBuffer blank other) = other)
    (steady : stream.Steady)
    (ran : @readSigned _ Buffered.fragment build blank emptySlot (start, stream) =
      .ok count (signingModule, left)) :
    ∃ header slot, signingModule = build header slot ∧
      stream.Advances left ((Buffered.buffer header).bytes ++ slot.bytes) := by
  obtain ⟨_, header, between, _, slot, ranHeader, ranSlot, rfl, rfl⟩ :=
    (@readSigned_eq_ok_iff _ Buffered.fragment _ _ _ _ _ _ _ _).mp ran
  obtain ⟨headed, -⟩ := Buffered.blank_sound unread put steady ranHeader
  obtain ⟨filled, -⟩ := Buffer.blank_sound rfl headed.steady ranSlot
  exact ⟨header, slot, rfl, headed.trans filled⟩

/-- Reading the parts of a module takes just the bytes of the module that comes of it. -/
theorem readParts_sound (steady : stream.Steady)
    (ran : readParts (empty kind format, stream) = .ok count (signingModule, left)) :
    stream.Advances left (Fragment.toBytes signingModule) ∧ signingModule.kind = kind ∧
      ∀ entry, signingModule = publicKey entry → entry.kind = .publicKey := by
  cases kind with
  | cmfDescriptor =>
    have ran : readSigned cmfDescriptor ConfigurationHeader.empty emptySlot
      (empty .cmfDescriptor format, stream) = .ok count (signingModule, left) := ran
    obtain ⟨header, slot, rfl, advances⟩ := readSigned_sound rfl (fun _ => rfl) steady ran
    rw [toBytes_cmfDescriptor]
    exact ⟨advances, rfl, fun entry same => by cases same⟩
  | certificateHeader =>
    have ran : readSigned certificateHeader CertificateHeader.empty emptySlot
      (empty .certificateHeader format, stream) = .ok count (signingModule, left) := ran
    obtain ⟨header, slot, rfl, advances⟩ := readSigned_sound rfl (fun _ => rfl) steady ran
    rw [toBytes_certificateHeader]
    exact ⟨advances, rfl, fun entry same => by cases same⟩
  | publicKey =>
    obtain ⟨entry, ranEntry, rfl⟩ := readParts_publicKey_eq_ok_iff.mp ran
    obtain ⟨advances, -, -, -, keyed, -⟩ := ChainEntry.read_sound steady ranEntry
    rw [toBytes_publicKey]
    refine ⟨advances, rfl, fun other same => ?_⟩
    obtain rfl := publicKey.inj same
    exact keyed

/-- Reading a module takes just the bytes of the valid module that comes of it. -/
theorem read_sound (steady : stream.Steady)
    (ran : Fragment.read (empty kind format, stream) = .ok count (signingModule, left)) :
    stream.Advances left (Fragment.toBytes signingModule) ∧ signingModule.validate = .ok () ∧
      signingModule.kind = kind ∧
      ∀ entry, signingModule = publicKey entry → entry.kind = .publicKey := by
  have ran : read (empty kind format, stream) = .ok count (signingModule, left) := ran
  simp only [read, Edit.bind_eq_ok_iff, Prod.exists, Edit.ask_onObject_eq_ok_iff,
    Edit.pure_eq_ok_iff, Prod.mk.injEq] at ran
  obtain ⟨_, _, between, ranParts, _, _, _, ⟨-, rfl, rfl⟩, _, _, _, ⟨valid, rfl, rfl⟩, rfl, rfl,
    rfl⟩ := ran
  obtain ⟨advances, same⟩ := readParts_sound steady ranParts
  exact ⟨advances, valid, same⟩

/-- A valid module with a header is that header and a slot for a signature. -/
theorem length_of_headed (valid : signingModule.validate = .ok ())
    (headed : signingModule.kind ≠ .publicKey) :
    (Fragment.toBytes signingModule).length = Size.header + Size.signature := by
  obtain ⟨parts, sized, -⟩ := validate_eq_ok_iff.mp valid
  have checked := Composite.validateParts_eq_ok_iff.mp parts
  have joined {header slot : Buffer} (whole : header.size = Size.header)
      (sized : slot.size = Size.signature) :
      (header.bytes ++ slot.bytes).length = Size.header + Size.signature := by
    rw [List.length_append, ← whole, ← sized]
    rfl
  cases signingModule with
  | cmfDescriptor header slot =>
    have validHeader : header.validate = .ok () := checked _ List.mem_cons_self
    rw [toBytes_cmfDescriptor]
    exact joined (ConfigurationHeader.buffer_of_validate validHeader).1 sized
  | certificateHeader header slot =>
    have validHeader : header.validate = .ok () := checked _ List.mem_cons_self
    rw [toBytes_certificateHeader]
    exact joined (CertificateHeader.validate_eq_ok_iff.mp validHeader).1 sized
  | publicKey entry => exact absurd rfl headed

end SigningModule

namespace SignatureChain

/-- A valid chain without entries is the empty one. -/
theorem Standard.eq_empty {chain : SignatureChain} (standard : chain.Standard)
    (valid : chain.validate = .ok ()) (bare : chain.isEmpty = true) : chain = empty := by
  obtain ⟨settled, -⟩ := SignatureChain.validate_eq_ok_iff.mp valid
  have items : chain.entries.items = [] := List.isEmpty_iff.mp bare
  obtain ⟨entries, pending⟩ := chain
  have unbounded : entries = { (Sequence.empty none : Sequence ChainEntry) with
    items := entries.items } := standard.unbounded
  rw [unbounded, items]
  exact congrArg _ settled

theorem Standard.entryHeader_le {chain : SignatureChain} (standard : chain.Standard)
    (valid : chain.validate = .ok ()) (filled : chain.isEmpty = false) :
    Size.entryHeader ≤ (Fragment.toBytes chain).length := by
  obtain ⟨-, -, each⟩ := standard.validate_eq_ok_iff.mp valid
  have there : chain.entries.items ≠ [] := List.isEmpty_eq_false_iff.mp filled
  obtain ⟨first, rest, items⟩ := List.exists_cons_of_ne_nil there
  rw [items] at each
  have long := ChainEntry.le_size (each first List.mem_cons_self)
  rw [toBytes_eq, items, List.flatMap_cons, List.length_append, Fragment.Lawful.length_toBytes]
  exact Nat.le_add_right_of_le long

end SignatureChain

/-- A valid public key entry has at least the headers of the entry and of its key. -/
theorem ChainEntry.le_length_of_keyed {entry : ChainEntry} (valid : entry.validate = .ok ())
    (keyed : entry.kind = .publicKey) :
    Size.entryHeader + Size.publicKeyHeader ≤ (Fragment.toBytes entry).length := by
  obtain ⟨header, data, slot⟩ := entry
  cases data with
  | root | multiRoot | block0 => simp [ChainEntry.kind, EntryData.kind] at keyed
  | publicKey key =>
    obtain ⟨⟨-, validData, -⟩, -, ⟨selector, selected⟩, kindValid⟩ := validate_eq_ok_iff.mp valid
    obtain ⟨filled, -⟩ := filled_of_validateKind kindValid
    have there := filled key (by simp [EntryData.keys])
    obtain ⟨-, -, long, -⟩ :=
      PublicKey.validate_filled (EntryData.validate_publicKey.mp validData) there
    have inside := (hashSelector_eq_ok_iff.mp selected).1
    rw [toBytes_eq, EntryData.toBytes_publicKey, List.length_append, List.length_append]
    exact Nat.add_le_add inside (Nat.le_add_right_of_le long)

end SecureBoot
