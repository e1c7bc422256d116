import SecureBoot.Proofs.ContainerUpkeep
import SecureBoot.Proofs.MultiRoot

/-!
The calls that objects take. A call makes an object of the ones it is given, changes the one it is
called on, or hands out a part of it, and a call that fails may leave an object half changed. Whatever
a call is given that is laid out like new objects, so is what it makes or leaves. The buffer of a
header is edited in its place here, and never exchanged for one that registers other fields.
-/

namespace SecureBoot

/-- One call on a fragment of any kind. -/
inductive Fragment.Step {α : Type} [Fragment α] (fragment : α) : α → Prop
  | write {bytes : Bytes} {offset : Nat} {changed : α}
      (ran : writeBytes fragment bytes offset = .ok changed) : Step fragment changed
  | read (stream : Stream) : Step fragment (Edit.after Fragment.read (fragment, stream)).1
  | update : Step fragment (Edit.after Fragment.update fragment)

theorem Fragment.Maintains.step {α : Type} [Fragment α] {fine : α → Prop} {fragment changed : α}
    (maintains : Maintains fine) (held : fine fragment) (step : Step fragment changed) :
    fine changed := by
  cases step with
  | write ran => exact maintains.writes held ran
  | read stream => exact maintains.reads (fragment, stream) held
  | update => exact maintains.updates fragment held

/-- Loading reads a file that can be opened, and does nothing else to the object. -/
theorem Files.after_load {α : Type} [Fragment α] (disk : Disk) (path : String) (object : α) :
    (load disk path).after object = object ∨
      Fragment.Step object ((load disk path).after object) := by
  cases opened : disk.open? path with
  | error failure => exact .inl (by simp only [Edit.after, load, opened])
  | ok stream =>
    obtain ⟨checks, keeps, loads⟩ : ∃ checks : Edit (α × Stream) Unit,
        (∀ read : α, Edit.Keeps (Edit.First (· = read)) checks) ∧
          (load disk path).after object =
            (Edit.after (Fragment.read >>= fun _ => checks) (object, stream)).1 := by
      refine ⟨_, fun _ => .bind (.fromStream Stream.isExhausted) fun _ =>
        Edit.Keeps.onObject (.ask Fragment.validate), ?_⟩
      simp only [Edit.after, load, opened]
      cases (Fragment.read >>= fun _ => do
        let _ ← Edit.fromStream Stream.isExhausted
        Edit.onObject (Edit.ask Fragment.validate) : Edit (α × Stream) Unit) (object, stream) <;> rfl
    have same : (load disk path).after object = (Edit.after Fragment.read (object, stream)).1 := by
      rw [loads]
      cases ran : (Fragment.read : Edit (α × Stream) Nat) (object, stream) with
      | error failure left => rw [Edit.after_bind_of_error ran, Edit.after, ran]
      | ok count left =>
        rw [Edit.after_bind ran, keeps left.1 left rfl, Edit.after, ran]
    exact .inr (same ▸ .read stream)

/-- One call on a buffer. -/
inductive Buffer.Step (buffer : Buffer) : Buffer → Prop
  | fragment {changed : Buffer} (step : Fragment.Step buffer changed) : Step buffer changed
  | reset (size : Nat) : Step buffer ((Buffer.reset size).after buffer)
  | append {bytes : Bytes} {changed : Buffer} (ran : buffer.append bytes = .ok changed) :
      Step buffer changed
  | appendZeros {count : Nat} {changed : Buffer} (ran : buffer.appendZeros count = .ok changed) :
      Step buffer changed
  | setValue {value : UInt64} {offset size : Nat} {order : Endian} {changed : Buffer}
      (ran : buffer.setValue value offset size order = .ok changed) : Step buffer changed
  | updateMagic : Step buffer (Buffer.updateMagic.after buffer)
  | fill (stream : Stream) : Step buffer (Buffer.fill.after (buffer, stream)).1

theorem Buffer.Follows.step {buffer changed blank : Buffer} (follows : buffer.Follows blank)
    (step : buffer.Step changed) : changed.Follows blank := by
  cases step with
  | fragment step => exact (maintained blank).step follows step
  | reset size => exact keeps_reset size buffer follows
  | append ran => exact follows.append ran
  | appendZeros ran =>
    simp only [appendZeros, bind_eq_ok_iff, pure_eq_ok_iff, exists_unit_iff] at ran
    obtain ⟨-, fits, rfl⟩ := ran
    refine follows.withBytes fun most bounded => ?_
    rw [List.length_append, Bytes.length_zeros]
    exact checkBound_eq_ok_iff.mp fits most (follows.limit.trans bounded)
  | setValue ran =>
    simp only [setValue, bind_eq_ok_iff, exists_unit_iff] at ran
    obtain ⟨-, bytes, -, stored⟩ := ran
    exact follows.setRaw stored
  | updateMagic => exact keeps_updateMagic buffer follows
  | fill stream => exact keeps_fill (buffer, stream) follows

/-- An object that a caller holds. -/
inductive Object
  | key (key : PublicKey)
  | entry (entry : ChainEntry)
  | chain (chain : SignatureChain)
  | table (table : ChainTable)
  | signatures (signatures : SignatureDescriptor)
  | sectionHeader (header : SectionHeader)
  | configurationHeader (header : ConfigurationHeader)
  | sect (sect : Section)
  | certificate (certificate : Certificate)
  | configuration (configuration : Configuration)

namespace Object

variable {object other : Object}

/-- The object is laid out like a new one of its type. -/
def Standard : Object → Prop
  | key object => object.Standard
  | entry object => object.Standard
  | chain object => object.Standard
  | table object => object.Standard
  | signatures object => object.Standard
  | sectionHeader object => object.Standard
  | configurationHeader object => object.Standard
  | sect object => object.Standard
  | certificate object => object.Standard
  | configuration object => object.Standard

theorem standard_of_one (each : ∀ given ∈ [object], given.Standard) : object.Standard :=
  each object List.mem_cons_self

theorem standard_of_two (each : ∀ given ∈ [object, other], given.Standard) :
    object.Standard ∧ other.Standard :=
  ⟨each object List.mem_cons_self, each other (List.mem_cons_of_mem _ List.mem_cons_self)⟩

end Object

variable {given : List Object}

namespace PublicKey

variable {key : PublicKey} {format : KeyFormat} {options : KeyOptions}

/-- A call that makes or leaves a key. -/
inductive Call : List Object → PublicKey → Prop
  | empty (format : KeyFormat) : Call [] (PublicKey.empty format)
  | coordinates {format : KeyFormat} {curve : Curve} {x y : Bytes} {options : KeyOptions}
      {key : PublicKey} (ran : ofCoordinates format curve x y options = .ok key) : Call [] key
  | exported {format : KeyFormat} {input : Bytes} {options : KeyOptions} {key : PublicKey}
      (ran : ofExport format input options = .ok key) : Call [] key
  | fragment {key changed : PublicKey} (step : Fragment.Step key changed) : Call [.key key] changed
  | fuseEnable {key changed : PublicKey} {value : UInt32}
      (ran : key.setFuseEnable value = .ok changed) : Call [.key key] changed
  | contribution {key changed : PublicKey} {value : UInt32}
      (ran : key.setContribution value = .ok changed) : Call [.key key] changed
  | permission {key changed : PublicKey} {value : UInt32}
      (ran : key.setPermission value = .ok changed) : Call [.key key] changed
  | cancelId {key changed : PublicKey} {value : UInt32}
      (ran : key.setCancelId value = .ok changed) : Call [.key key] changed
  | ofEntry {entry : ChainEntry} {key : PublicKey} (member : key ∈ entry.keys) :
      Call [.entry entry] key

theorem standard_ofParameters {expression : Expression} {names : List (String × Curve)}
    (ran : ofParameters format expression options names = .ok key) : key.Standard := by
  induction names with
  | nil => cases ran
  | cons first rest ih =>
    rw [ofParameters] at ran
    cases found : expression.find? (Text.utf8 ("ecdsa-" ++ first.1 ++ "-sha384").toList) with
    | none =>
      rw [found] at ran
      exact ih ran
    | some items =>
      simp only [found, bind_eq_ok_iff] at ran
      obtain ⟨x, -, y, -, built⟩ := ran
      exact (standard_ofCoordinates built).1

theorem standard_ofExport {input : Bytes} (ran : ofExport format input options = .ok key) :
    key.Standard := by
  simp only [ofExport, bind_eq_ok_iff] at ran
  obtain ⟨tree, -, ran⟩ := ran
  cases found : tree.find? (Text.utf8 "public-key".toList) with
  | none =>
    rw [found] at ran
    cases ran
  | some items =>
    rw [found] at ran
    exact standard_ofParameters ran

theorem Call.standard (call : Call given key) (each : ∀ object ∈ given, object.Standard) :
    key.Standard := by
  cases call with
  | empty format => exact standard_empty format
  | coordinates ran => exact (standard_ofCoordinates ran).1
  | exported ran => exact standard_ofExport ran
  | @fragment key _ step =>
    have standard : key.Standard := Object.standard_of_one each
    exact Standard.maintained.step standard step
  | @fuseEnable key _ _ ran | @contribution key _ _ ran =>
    have standard : key.Standard := Object.standard_of_one each
    obtain ⟨-, -, stored⟩ := bind_eq_ok_iff.mp ran
    exact standard.setWord stored
  | @permission key _ _ ran | @cancelId key _ _ ran =>
    have standard : key.Standard := Object.standard_of_one each
    exact standard.setWord ran
  | @ofEntry entry _ member =>
    have standard : entry.Standard := Object.standard_of_one each
    exact standard.data.keys key member

end PublicKey

namespace ChainEntry

variable {entry : ChainEntry}

/-- A call that makes or leaves an entry. -/
inductive Call : List Object → ChainEntry → Prop
  | empty (kind : EntryKind) (format : KeyFormat) : Call [] (ChainEntry.empty kind format)
  | root {key : PublicKey} {selector : HashSelector} {entry : ChainEntry}
      (ran : ChainEntry.root key selector = .ok entry) : Call [.key key] entry
  | multiRoot {keys : List PublicKey} {selector : HashSelector} {entry : ChainEntry}
      (ran : ChainEntry.multiRoot keys selector = .ok entry) : Call (keys.map .key) entry
  | publicKey {key : PublicKey} {selector : HashSelector} {entry : ChainEntry}
      (ran : ChainEntry.publicKey key selector = .ok entry) : Call [.key key] entry
  | block0 {selector : HashSelector} {entry : ChainEntry}
      (ran : ChainEntry.block0 selector = .ok entry) : Call [] entry
  | fragment {entry changed : ChainEntry} (step : Fragment.Step entry changed) :
      Call [.entry entry] changed
  | setSignature (entry : ChainEntry) (signature : Signature) :
      Call [.entry entry] ((ChainEntry.setSignature signature).after entry)
  | ofChain {chain : SignatureChain} {index : Nat} {entry : ChainEntry}
      (there : chain.entry? index = some entry) : Call [.chain chain] entry

theorem Call.standard (call : Call given entry) (each : ∀ object ∈ given, object.Standard) :
    entry.Standard := by
  cases call with
  | empty kind format => exact standard_empty kind format
  | @root key _ _ ran =>
    have standard : key.Standard := Object.standard_of_one each
    exact (standard_root standard ran).1
  | @multiRoot keys _ _ ran =>
    have standard : ∀ key ∈ keys, key.Standard := fun key member =>
      each (.key key) (List.mem_map_of_mem member)
    exact (standard_multiRoot standard ran).1
  | @publicKey key _ _ ran =>
    have standard : key.Standard := Object.standard_of_one each
    exact (standard_publicKey standard ran).1
  | block0 ran => exact (standard_block0 ran).1
  | @fragment entry _ step =>
    have standard : entry.Standard := Object.standard_of_one each
    exact Standard.maintained.step standard step
  | setSignature entry signature =>
    exact Standard.keeps_setSignature signature entry (Object.standard_of_one each)
  | @ofChain chain _ _ there =>
    have standard : chain.Standard := Object.standard_of_one each
    exact standard.entries entry (List.mem_of_getElem? there)

end ChainEntry

namespace SignatureChain

variable {chain : SignatureChain}

/-- A call that makes or leaves a chain. -/
inductive Call : List Object → SignatureChain → Prop
  | expecting (pending : Option Nat) : Call [] (SignatureChain.expecting pending)
  | fragment {chain changed : SignatureChain} (step : Fragment.Step chain changed) :
      Call [.chain chain] changed
  | expect (chain : SignatureChain) (pending : Option Nat) :
      Call [.chain chain] { chain with pending := pending }
  | append {chain changed : SignatureChain} {entry : ChainEntry}
      (ran : chain.append entry = .ok changed) : Call [.chain chain, .entry entry] changed
  | extend {chain other changed : SignatureChain} (ran : chain.extend other = .ok changed) :
      Call [.chain chain, .chain other] changed
  | putEntry {chain changed : SignatureChain} {index : Nat} {entry : ChainEntry}
      (put : chain.putEntry? index entry = some changed) : Call [.chain chain, .entry entry] changed
  | ofTable {table : ChainTable} {index : Nat} {chain : SignatureChain}
      (there : table.chain? index = some chain) : Call [.table table] chain

theorem Call.standard (call : Call given chain) (each : ∀ object ∈ given, object.Standard) :
    chain.Standard := by
  cases call with
  | expecting pending => exact standard_expecting pending
  | @fragment chain _ step =>
    have standard : chain.Standard := Object.standard_of_one each
    exact Standard.maintained.step standard step
  | expect chain pending =>
    have standard : chain.Standard := Object.standard_of_one each
    exact ⟨standard.unbounded, standard.entries⟩
  | @append chain _ entry ran =>
    obtain ⟨standard, fine⟩ : chain.Standard ∧ entry.Standard := Object.standard_of_two each
    exact standard.append fine ran
  | @extend chain other _ ran =>
    obtain ⟨standard, fine⟩ : chain.Standard ∧ other.Standard := Object.standard_of_two each
    exact standard.extend fine.entries ran
  | @putEntry chain _ _ entry put =>
    obtain ⟨standard, fine⟩ : chain.Standard ∧ entry.Standard := Object.standard_of_two each
    exact standard.putEntry fine put
  | @ofTable table _ _ there =>
    have standard : table.Standard := Object.standard_of_one each
    exact standard.chains chain (List.mem_of_getElem? there)

end SignatureChain

namespace ChainTable

variable {table : ChainTable}

/-- A call that makes or leaves a table. -/
inductive Call : List Object → ChainTable → Prop
  | expecting (format : ChainFormat) (limit : Nat) : Call [] (ChainTable.expecting format limit)
  | create {format : ChainFormat} {limit : Nat} {table : ChainTable}
      (ran : ChainTable.create format limit = .ok table) : Call [] table
  | fragment {table changed : ChainTable} (step : Fragment.Step table changed) :
      Call [.table table] changed
  | updateHeader (table : ChainTable) : Call [.table table] (ChainTable.updateHeader.after table)
  | putChain {table changed : ChainTable} {index : Nat} {chain : SignatureChain}
      (put : table.putChain? index chain = some changed) : Call [.table table, .chain chain] changed
  | add {table changed : ChainTable} {chain : SignatureChain} {slot : Nat}
      (ran : table.add chain = .ok (slot, changed)) : Call [.table table, .chain chain] changed
  | ofSignatures (signatures : SignatureDescriptor) : Call [.signatures signatures] signatures.table

theorem Call.standard (call : Call given table) (each : ∀ object ∈ given, object.Standard) :
    table.Standard := by
  cases call with
  | expecting format limit => exact standard_expecting format limit
  | create ran => exact standard_create ran
  | @fragment table _ step =>
    have standard : table.Standard := Object.standard_of_one each
    exact Standard.maintained.step standard step
  | updateHeader table =>
    exact Standard.keeps_updateHeader table (Object.standard_of_one each)
  | @putChain table _ _ chain put =>
    obtain ⟨standard, fine⟩ : table.Standard ∧ chain.Standard := Object.standard_of_two each
    exact standard.putChain fine put
  | @add table _ chain _ ran =>
    obtain ⟨standard, fine⟩ : table.Standard ∧ chain.Standard := Object.standard_of_two each
    exact standard.add fine ran
  | ofSignatures signatures =>
    have standard : signatures.Standard := Object.standard_of_one each
    exact standard.table

end ChainTable

namespace SignatureDescriptor

variable {signatures : SignatureDescriptor}

/-- A call that makes or leaves a signature descriptor. -/
inductive Call : List Object → SignatureDescriptor → Prop
  | empty : Call [] SignatureDescriptor.empty
  | create {format : ChainFormat} {signatures : SignatureDescriptor}
      (ran : SignatureDescriptor.create format = .ok signatures) : Call [] signatures
  | fragment {signatures changed : SignatureDescriptor} (step : Fragment.Step signatures changed) :
      Call [.signatures signatures] changed
  | setBlock0Hash (signatures : SignatureDescriptor) (hash : Bytes) :
      Call [.signatures signatures] ((SignatureDescriptor.setBlock0Hash hash).after signatures)
  | putTable (signatures : SignatureDescriptor) (table : ChainTable) :
      Call [.signatures signatures, .table table] { signatures with table := table }
  | addChain (signatures : SignatureDescriptor) (chain : SignatureChain) :
      Call [.signatures signatures, .chain chain]
        ((SignatureDescriptor.addChain chain).after signatures)
  | ofSection (sect : Section) : Call [.sect sect] sect.signatures
  | ofCertificate (certificate : Certificate) : Call [.certificate certificate] certificate.signatures
  | ofConfiguration (configuration : Configuration) :
      Call [.configuration configuration] configuration.signatures

theorem Call.standard (call : Call given signatures) (each : ∀ object ∈ given, object.Standard) :
    signatures.Standard := by
  cases call with
  | empty => exact standard_empty
  | create ran => exact standard_create ran
  | @fragment signatures _ step =>
    have standard : signatures.Standard := Object.standard_of_one each
    exact Standard.maintained.step standard step
  | setBlock0Hash signatures hash =>
    exact Standard.keeps_setBlock0Hash hash signatures (Object.standard_of_one each)
  | putTable signatures table =>
    obtain ⟨standard, fine⟩ : signatures.Standard ∧ table.Standard := Object.standard_of_two each
    exact standard.withTable fine
  | addChain signatures chain =>
    obtain ⟨standard, fine⟩ : signatures.Standard ∧ chain.Standard := Object.standard_of_two each
    exact Standard.keeps_addChain fine signatures standard
  | ofSection sect =>
    have standard : sect.Standard := Object.standard_of_one each
    exact standard.signatures
  | ofCertificate certificate =>
    have standard : certificate.Standard := Object.standard_of_one each
    exact standard.signatures
  | ofConfiguration configuration =>
    have standard : configuration.Standard := Object.standard_of_one each
    exact standard.signatures

end SignatureDescriptor

namespace SectionHeader

variable {header : SectionHeader}

/-- A call that makes or leaves a section header. -/
inductive Call : List Object → SectionHeader → Prop
  | empty : Call [] SectionHeader.empty
  | fragment {header changed : SectionHeader} (step : Fragment.Step header changed) :
      Call [.sectionHeader header] changed
  | reset (header : SectionHeader) (sectionType : UInt32) :
      Call [.sectionHeader header] ((SectionHeader.reset sectionType).after header)
  | setSectionsRemaining {header changed : SectionHeader} {count : UInt32}
      (ran : header.setSectionsRemaining count = .ok changed) : Call [.sectionHeader header] changed
  | setSectionLength {header changed : SectionHeader} {length : UInt32}
      (ran : header.setSectionLength length = .ok changed) : Call [.sectionHeader header] changed
  | edit {header : SectionHeader} {buffer : Buffer} (step : header.buffer.Step buffer) :
      Call [.sectionHeader header] ⟨buffer⟩
  | ofSection (sect : Section) : Call [.sect sect] sect.header

theorem Call.standard (call : Call given header) (each : ∀ object ∈ given, object.Standard) :
    header.Standard := by
  cases call with
  | empty => exact .self _ fun _ _ => Nat.zero_le _
  | @fragment header _ step =>
    have standard : header.Standard := Object.standard_of_one each
    exact Standard.maintained.step standard step
  | reset header sectionType =>
    exact Standard.keeps_reset sectionType header (Object.standard_of_one each)
  | @setSectionsRemaining header _ _ ran =>
    have standard : header.Standard := Object.standard_of_one each
    exact standard.setSectionsRemaining ran
  | @setSectionLength header _ _ ran =>
    have standard : header.Standard := Object.standard_of_one each
    exact standard.setSectionLength ran
  | @edit header _ step =>
    have standard : header.Standard := Object.standard_of_one each
    exact Buffer.Follows.step standard step
  | ofSection sect =>
    have standard : sect.Standard := Object.standard_of_one each
    exact standard.header

end SectionHeader

namespace ConfigurationHeader

variable {header : ConfigurationHeader}

/-- A call that makes or leaves a configuration header. -/
inductive Call : List Object → ConfigurationHeader → Prop
  | empty : Call [] ConfigurationHeader.empty
  | bytes {bytes : Bytes} {header : ConfigurationHeader}
      (ran : ConfigurationHeader.ofBytes bytes = .ok header) : Call [] header
  | fragment {header changed : ConfigurationHeader} (step : Fragment.Step header changed) :
      Call [.configurationHeader header] changed
  | reset (header : ConfigurationHeader) :
      Call [.configurationHeader header] (ConfigurationHeader.reset.after header)
  | setFormat (header : ConfigurationHeader) (format : DescriptorFormat) :
      Call [.configurationHeader header] ((ConfigurationHeader.setFormat format).after header)
  | setSectionsRemaining {header changed : ConfigurationHeader} {count : UInt32}
      (ran : header.setSectionsRemaining count = .ok changed) :
      Call [.configurationHeader header] changed
  | edit {header : ConfigurationHeader} {buffer : Buffer} (step : header.buffer.Step buffer) :
      Call [.configurationHeader header] ⟨buffer⟩
  | ofConfiguration (configuration : Configuration) :
      Call [.configuration configuration] configuration.header

theorem standard_ofBytes {bytes : Bytes} (ran : ofBytes bytes = .ok header) : header.Standard := by
  simp only [ofBytes, Buffer.create, bind_eq_ok_iff, exists_unit_iff, pure_eq_ok_iff] at ran
  obtain ⟨_, ⟨fits, rfl⟩, rfl⟩ := ran
  exact ⟨rfl, checkBound_eq_ok_iff.mp fits⟩

theorem Call.standard (call : Call given header) (each : ∀ object ∈ given, object.Standard) :
    header.Standard := by
  cases call with
  | empty => exact .self _ fun _ _ => Nat.zero_le _
  | bytes ran => exact standard_ofBytes ran
  | @fragment header _ step =>
    have standard : header.Standard := Object.standard_of_one each
    exact Standard.maintained.step standard step
  | reset header => exact Standard.keeps_reset header (Object.standard_of_one each)
  | setFormat header format =>
    exact Standard.keeps_setFormat format header (Object.standard_of_one each)
  | @setSectionsRemaining header _ _ ran =>
    have standard : header.Standard := Object.standard_of_one each
    exact standard.setSectionsRemaining ran
  | @edit header _ step =>
    have standard : header.Standard := Object.standard_of_one each
    exact Buffer.Follows.step standard step
  | ofConfiguration configuration =>
    have standard : configuration.Standard := Object.standard_of_one each
    exact standard.header

end ConfigurationHeader

namespace Section

variable {sect : Section}

/-- A call that makes or leaves a section. -/
inductive Call : List Object → Section → Prop
  | empty : Call [] Section.empty
  | create {sectionType : UInt32} {payload : Bytes} {format : ChainFormat} {sect : Section}
      (ran : Section.create sectionType payload format = .ok sect) : Call [] sect
  | fragment {sect changed : Section} (step : Fragment.Step sect changed) : Call [.sect sect] changed
  | putHeader (sect : Section) (header : SectionHeader) :
      Call [.sect sect, .sectionHeader header] { sect with header := header }
  | putSignatures (sect : Section) (signatures : SignatureDescriptor) :
      Call [.sect sect, .signatures signatures] { sect with signatures := signatures }
  | addChain (sect : Section) (chain : SignatureChain) :
      Call [.sect sect, .chain chain] ((Section.addChain chain).after sect)
  | ofConfiguration {configuration : Configuration} {sect : Section}
      (member : sect ∈ configuration.sections) : Call [.configuration configuration] sect

theorem Call.standard (call : Call given sect) (each : ∀ object ∈ given, object.Standard) :
    sect.Standard := by
  cases call with
  | empty => exact standard_empty
  | create ran => exact standard_create ran
  | @fragment sect _ step =>
    have standard : sect.Standard := Object.standard_of_one each
    exact Standard.maintained.step standard step
  | putHeader sect header =>
    obtain ⟨standard, headed⟩ : sect.Standard ∧ header.Standard := Object.standard_of_two each
    exact standard.withHeader headed
  | putSignatures sect signatures =>
    obtain ⟨standard, signed⟩ : sect.Standard ∧ signatures.Standard := Object.standard_of_two each
    exact standard.withSignatures signed
  | addChain sect chain =>
    obtain ⟨standard, fine⟩ : sect.Standard ∧ chain.Standard := Object.standard_of_two each
    exact Standard.keeps_addChain fine sect standard
  | @ofConfiguration configuration _ member =>
    have standard : configuration.Standard := Object.standard_of_one each
    exact standard.sections sect member

end Section

namespace Certificate

variable {certificate : Certificate}

/-- A call that makes or leaves a certificate. -/
inductive Call : List Object → Certificate → Prop
  | empty : Call [] Certificate.empty
  | create {uid hmac keyHash : String} {certificate : Certificate}
      (ran : Certificate.create uid hmac keyHash = .ok certificate) : Call [] certificate
  | fragment {certificate changed : Certificate} (step : Fragment.Step certificate changed) :
      Call [.certificate certificate] changed
  | putSignatures (certificate : Certificate) (signatures : SignatureDescriptor) :
      Call [.certificate certificate, .signatures signatures]
        { certificate with signatures := signatures }
  | addChain (certificate : Certificate) (chain : SignatureChain) :
      Call [.certificate certificate, .chain chain] ((Certificate.addChain chain).after certificate)

theorem Call.standard (call : Call given certificate) (each : ∀ object ∈ given, object.Standard) :
    certificate.Standard := by
  cases call with
  | empty => exact standard_empty
  | create ran => exact standard_create ran
  | @fragment certificate _ step =>
    have standard : certificate.Standard := Object.standard_of_one each
    exact Standard.maintained.step standard step
  | putSignatures certificate signatures =>
    obtain ⟨standard, signed⟩ : certificate.Standard ∧ signatures.Standard :=
      Object.standard_of_two each
    exact standard.withSignatures signed
  | addChain certificate chain =>
    obtain ⟨standard, fine⟩ : certificate.Standard ∧ chain.Standard := Object.standard_of_two each
    exact Standard.keeps_addChain fine certificate standard

end Certificate

namespace Configuration

variable {configuration : Configuration}

/-- A call that makes or leaves a configuration. -/
inductive Call : List Object → Configuration → Prop
  | empty : Call [] Configuration.empty
  | create {format : DescriptorFormat} {configuration : Configuration}
      (ran : Configuration.create format = .ok configuration) : Call [] configuration
  | ofHeader {header : ConfigurationHeader} {configuration : Configuration}
      (ran : Configuration.ofHeader header = .ok configuration) :
      Call [.configurationHeader header] configuration
  | fragment {configuration changed : Configuration} (step : Fragment.Step configuration changed) :
      Call [.configuration configuration] changed
  | putHeader (configuration : Configuration) (header : ConfigurationHeader) :
      Call [.configuration configuration, .configurationHeader header]
        { configuration with header := header }
  | putSignatures (configuration : Configuration) (signatures : SignatureDescriptor) :
      Call [.configuration configuration, .signatures signatures]
        { configuration with signatures := signatures }
  | withPayload (configuration : Configuration) (payload : Bytes) :
      Call [.configuration configuration] (configuration.withPayload payload)
  | pushSection (configuration : Configuration) (sect : Section) :
      Call [.configuration configuration, .sect sect]
        ((Configuration.pushSection sect).after configuration)
  | addChain (configuration : Configuration) (chain : SignatureChain) :
      Call [.configuration configuration, .chain chain]
        ((Configuration.addChain chain).after configuration)

theorem Call.standard (call : Call given configuration) (each : ∀ object ∈ given, object.Standard) :
    configuration.Standard := by
  cases call with
  | empty => exact standard_empty
  | create ran => exact standard_create ran
  | ofHeader ran => exact standard_ofHeader (Object.standard_of_one each) ran
  | @fragment configuration _ step =>
    have standard : configuration.Standard := Object.standard_of_one each
    exact Standard.maintained.step standard step
  | putHeader configuration header =>
    obtain ⟨standard, headed⟩ : configuration.Standard ∧ header.Standard :=
      Object.standard_of_two each
    exact standard.withHeader headed
  | putSignatures configuration signatures =>
    obtain ⟨standard, signed⟩ : configuration.Standard ∧ signatures.Standard :=
      Object.standard_of_two each
    exact standard.withSignatures signed
  | withPayload configuration payload =>
    have standard : configuration.Standard := Object.standard_of_one each
    exact standard.withPayload
  | pushSection configuration sect =>
    obtain ⟨standard, fine⟩ : configuration.Standard ∧ sect.Standard := Object.standard_of_two each
    exact Standard.keeps_pushSection fine configuration standard
  | addChain configuration chain =>
    obtain ⟨standard, fine⟩ : configuration.Standard ∧ chain.Standard := Object.standard_of_two each
    exact Standard.keeps_addChain fine configuration standard

end Configuration

end SecureBoot
