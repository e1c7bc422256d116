import SecureBoot.Image
import SecureBoot.Proofs.Configuration
import SecureBoot.Proofs.Layout
import SecureBoot.Proofs.Parsing

/-!
The byte views of all kinds of fragments. The layout of every kind is written down beside the proof
that the kind is a view of its bytes: a kind that is one component in another shape inherits the
view of the component, and a kind made of parts has it from the parts.
-/

namespace SecureBoot

open Nested (layout)

/-- An object that is a component in another shape. -/
structure Fragment.Wraps {α β : Type} [Fragment α] [Nested α] [Fragment β] [Nested β]
    (wrap : β → α) : Prop where
  size (component : β) : Fragment.size (wrap component) = Fragment.size component
  toBytes (component : β) : Fragment.toBytes (wrap component) = Fragment.toBytes component
  readBytes (component : β) (offset count : Nat) :
    Fragment.readBytes (wrap component) offset count = Fragment.readBytes component offset count
  writeBytes (component : β) (bytes : Bytes) (offset : Nat) :
    Fragment.writeBytes (wrap component) bytes offset =
      (Fragment.writeBytes component bytes offset).map wrap
  layout (component : β) : Nested.layout (wrap component) = Nested.layout component

/-- An object that is a component in another shape is a view as the component is. -/
theorem Fragment.Wraps.viewsBytes {α β : Type} [Fragment α] [Nested α] [Fragment β] [Nested β]
    [Fragment.Viewed β] {wrap : β → α} (wraps : Wraps wrap) (component : β) :
    ViewsBytes (wrap component) where
  sized := by rw [wraps.size, wraps.toBytes, (Viewed.view component).sized]
  laid := by rw [wraps.layout, wraps.size, (Viewed.view component).laid]
  reads := by
    intro offset count fits
    rw [wraps.layout] at fits
    obtain ⟨inside, outside⟩ := (Viewed.view component).reads fits
    constructor
    · rwa [wraps.size, wraps.readBytes, wraps.toBytes]
    · rwa [wraps.size, wraps.readBytes]
  overflowed := by
    intro offset count overflows
    rw [wraps.layout] at overflows
    rw [wraps.readBytes]
    exact (Viewed.view component).overflowed overflows
  writable := by
    intro bytes offset
    rw [wraps.layout, ← (Viewed.view component).writable, wraps.writeBytes]
    constructor
    · rintro ⟨changed, written⟩
      obtain ⟨other, wrote, -⟩ := map_eq_ok_iff.mp written
      exact ⟨other, wrote⟩
    · rintro ⟨other, wrote⟩
      exact ⟨wrap other, map_eq_ok_iff.mpr ⟨other, wrote, rfl⟩⟩
  written := by
    intro bytes offset changed written
    rw [wraps.writeBytes] at written
    obtain ⟨other, wrote, rfl⟩ := map_eq_ok_iff.mp written
    obtain ⟨spliced, same⟩ := (Viewed.view component).written wrote
    rw [wraps.toBytes, wraps.toBytes, wraps.layout, wraps.layout]
    exact ⟨spliced, same⟩
  kept := by
    intro bytes offset failure refused
    exact Edit.after_change_of_error (Fragment.writeBytes · bytes offset) refused

instance : Nested Buffer where
  layout buffer := .buffer buffer.size

instance : Fragment.Viewed Buffer where
  view buffer :=
    { sized := rfl
      laid := Nat.add_zero _
      reads := by
        intro offset count _
        constructor
        · intro inside _
          exact Buffer.getRaw_eq_ok_iff.mpr ⟨inside, rfl⟩
        · intro outside
          have beyond : ¬ offset + count ≤ buffer.size := Nat.not_le.mpr outside
          exact ⟨buffer.size, require_bind_of_not beyond⟩
      overflowed := False.elim
      writable := by
        intro bytes offset
        rw [show layout buffer = .buffer buffer.size from rfl, Layout.accepts_buffer]
        constructor
        · rintro ⟨changed, written⟩
          exact (Buffer.setRaw_eq_ok_iff.mp written).1
        · exact fun inside => ⟨_, Buffer.setRaw_eq_ok_iff.mpr ⟨inside, rfl⟩⟩
      written := by
        intro bytes offset changed written
        obtain ⟨inside, rfl⟩ := Buffer.setRaw_eq_ok_iff.mp written
        exact ⟨rfl, congrArg Layout.buffer (Bytes.length_splice inside)⟩
      kept := by
        intro bytes offset failure refused
        exact Edit.after_change_of_error (Fragment.writeBytes · bytes offset) refused }

instance : Nested ConfigurationHeader where
  layout header := layout header.buffer

instance : Nested SectionHeader where
  layout header := layout header.buffer

instance : Nested CertificateHeader where
  layout header := layout header.buffer

instance : Nested Signature where
  layout signature := layout signature.buffer

instance : Nested PublicKey where
  layout key := layout key.buffer

/-- An object that is one buffer is a view as the buffer is. -/
theorem Buffered.viewed {α : Type} [Buffered α] [Nested α]
    (put : ∀ object : α, withBuffer object (buffer object) = object)
    (shown : ∀ (object : α) (changed : Buffer), buffer (withBuffer object changed) = changed)
    (again : ∀ (object : α) (first second : Buffer),
      withBuffer (withBuffer object first) second = withBuffer object second)
    (laid : ∀ object : α, layout object = layout (buffer object)) :
    @Fragment.Viewed α fragment _ :=
  letI : Fragment α := fragment
  have wraps (object : α) : Fragment.Wraps (withBuffer object) :=
    { size := fun component => congrArg Buffer.size (shown object component)
      toBytes := fun component => congrArg Buffer.bytes (shown object component)
      readBytes := by
        intro component offset count
        rw [show Fragment.readBytes (withBuffer object component) offset count =
          (buffer (withBuffer object component)).getRaw offset count from rfl, shown]
        rfl
      writeBytes := by
        intro component bytes offset
        rw [show Fragment.writeBytes (withBuffer object component) bytes offset =
          ((buffer (withBuffer object component)).setRaw bytes offset).map
            (withBuffer (withBuffer object component)) from rfl, shown, funext (again object component)]
        rfl
      layout := by
        intro component
        rw [laid, shown] }
  { view := by
      intro object
      rw [← put object]
      exact (wraps object).viewsBytes (buffer object) }

instance : Fragment.Viewed ConfigurationHeader :=
  Buffered.viewed (fun _ => rfl) (fun _ _ => rfl) (fun _ _ _ => rfl) fun _ => rfl

instance : Fragment.Viewed SectionHeader :=
  Buffered.viewed (fun _ => rfl) (fun _ _ => rfl) (fun _ _ _ => rfl) fun _ => rfl

instance : Fragment.Viewed CertificateHeader :=
  Buffered.viewed (fun _ => rfl) (fun _ _ => rfl) (fun _ _ _ => rfl) fun _ => rfl

instance : Fragment.Viewed Signature :=
  Buffered.viewed (fun _ => rfl) (fun _ _ => rfl) (fun _ _ _ => rfl) fun _ => rfl

theorem PublicKey.wraps (key : PublicKey) :
    Fragment.Wraps fun buffer => { key with buffer := buffer } where
  size _ := rfl
  toBytes _ := rfl
  readBytes _ _ _ := rfl
  writeBytes _ _ _ := rfl
  layout _ := rfl

instance : Fragment.Viewed PublicKey where
  view key := key.wraps.viewsBytes key.buffer

section Parts

/-- The layouts of members in order. -/
instance {α : Type} [Nested α] : Nested (Sequence α) where
  layout sequence := .parts (sequence.items.map layout)

instance {α : Type} [Fragment α] [Nested α] [Fragment.Viewed α] : Composite.Viewed (Sequence α) where
  placed sequence := by
    refine ⟨sequence.items.map layout, rfl, ?_⟩
    have placed : Part.Placed sequence [] (Part.ofList _ sequence.items ++ []) (_ ++ []) :=
      Part.placed_ofList [] [] sequence.items (fun items => { sequence with items := items })
        (fun items => ?_) (fun items same => congrArg Layout.parts same) .nil
    · rwa [List.append_nil, List.append_nil] at placed
    · rw [Sequence.toBytes_eq, List.nil_append, List.append_nil]

theorem Sequence.size_eq {α : Type} [Fragment α] (sequence : Sequence α) :
    Composite.size sequence = sequence.totalSize :=
  Part.totalSize_ofList _ _

instance {α : Type} [Fragment α] [Fragment.Lawful α] [Allocate α] [Nested α] [Fragment.Viewed α] :
    Fragment.Viewed (Sequence α) where
  view sequence := Composite.viewsBytes sequence sequence.size_eq.symm (fun _ => rfl)
    (fun _ _ => rfl) fun _ _ => rfl

instance : Nested EntryData where
  layout
    | .root reserved key => .parts [layout reserved, layout key]
    | .multiRoot reserved keys => .parts [layout reserved, layout keys]
    | .publicKey key => .parts [layout key]
    | .block0 => .parts []

/-- Two components of an object and nothing else. -/
theorem Part.placed_pair {σ α β : Type} [Composite σ] [Nested σ] [Fragment α] [Nested α]
    [Fragment.Viewed α] [Fragment β] [Nested β] [Fragment.Viewed β] (build : α → β → σ)
    (bytes : ∀ first second,
      Composite.toBytes (build first second) = Fragment.toBytes first ++ Fragment.toBytes second)
    (laid : ∀ first second, layout (build first second) = .parts [layout first, layout second])
    (first : α) (second : β) :
    Placed (build first second) []
      [of first (build · second), of second (build first ·)] [layout first, layout second] := by
  refine .cons ?_ (.cons ?_ .nil)
  · refine writes_of _ (Fragment.toBytes second) first (build · second)
      (fun other => bytes other second) fun other same => ?_
    rw [laid, laid, same]
  · refine writes_of _ [] second (build first ·) (fun other => ?_) fun other same => ?_
    · rw [bytes, List.append_nil]
      rfl
    · rw [laid, laid, same]

instance : Composite.Viewed EntryData where
  placed
    | .root reserved key => by
      refine ⟨_, rfl, Part.placed_pair EntryData.root (fun first second => ?_) (fun _ _ => rfl) _ _⟩
      exact EntryData.toBytes_root first second
    | .multiRoot reserved keys => by
      refine ⟨_, rfl, Part.placed_pair EntryData.multiRoot (fun first second => ?_) (fun _ _ => rfl)
        _ _⟩
      rw [show Fragment.toBytes second = _ from Sequence.toBytes_eq second]
      exact EntryData.toBytes_multiRoot first second
    | .publicKey key => by
      refine ⟨_, rfl, .cons ?_ .nil⟩
      refine Part.writes_of _ [] key EntryData.publicKey (fun other => rfl) fun other same => ?_
      exact congrArg (Layout.parts [·]) same
    | .block0 => ⟨[], rfl, .nil⟩

instance : Fragment.Viewed EntryData where
  view data := Composite.viewsBytes data rfl (fun _ => rfl) (fun _ _ => rfl) fun _ _ => rfl

/-- Three components of an object and nothing else. -/
theorem Part.placed_triple {σ α β γ : Type} [Composite σ] [Nested σ] [Fragment α] [Nested α]
    [Fragment.Viewed α] [Fragment β] [Nested β] [Fragment.Viewed β] [Fragment γ] [Nested γ]
    [Fragment.Viewed γ] (build : α → β → γ → σ)
    (bytes : ∀ first second third, Composite.toBytes (build first second third) =
      Fragment.toBytes first ++ (Fragment.toBytes second ++ Fragment.toBytes third))
    (laid : ∀ first second third,
      layout (build first second third) = .parts [layout first, layout second, layout third])
    (first : α) (second : β) (third : γ) :
    Placed (build first second third) []
      [of first (build · second third), of second (build first · third), of third (build first second ·)]
      [layout first, layout second, layout third] := by
  refine .cons ?_ (.cons ?_ (.cons ?_ .nil))
  · refine writes_of _ (Fragment.toBytes second ++ Fragment.toBytes third) first
      (build · second third) (fun other => bytes other second third) fun other same => ?_
    rw [laid, laid, same]
  · refine writes_of _ (Fragment.toBytes third) second (build first · third)
      (fun other => bytes first other third) fun other same => ?_
    rw [laid, laid, same]
  · refine writes_of _ [] third (build first second ·) (fun other => ?_)
      fun other same => ?_
    · rw [bytes, List.append_nil, ← List.append_assoc]
      rfl
    · rw [laid, laid, same]

instance : Nested ChainEntry where
  layout entry := .parts [layout entry.header, layout entry.data, layout entry.slot]

instance : Composite.Viewed ChainEntry where
  placed entry := by
    refine ⟨_, rfl, Part.placed_triple ChainEntry.mk (fun header data slot => ?_)
      (fun _ _ _ => rfl) _ _ _⟩
    exact ChainEntry.toBytes_eq _

instance : Fragment.Viewed ChainEntry where
  view entry := Composite.viewsBytes entry rfl (fun _ => rfl) (fun _ _ => rfl) fun _ _ => rfl

instance : Nested SignatureChain where
  layout chain := layout chain.entries

theorem SignatureChain.wraps (chain : SignatureChain) :
    Fragment.Wraps fun entries => { chain with entries := entries } where
  size _ := rfl
  toBytes _ := rfl
  readBytes _ _ _ := rfl
  writeBytes _ _ _ := rfl
  layout _ := rfl

instance : Fragment.Viewed SignatureChain where
  view chain := chain.wraps.viewsBytes chain.entries

instance : Nested ChainTable where
  layout table := .parts (layout table.header :: (table.chains.map layout ++ [layout table.padding]))

instance : Composite.Viewed ChainTable where
  placed table := by
    have whole (header : Buffer) (chains : List SignatureChain) (padding : Buffer) :
        Composite.toBytes { table with header := header, chains := chains, padding := padding } =
          header.bytes ++ (chains.flatMap Fragment.toBytes ++ padding.bytes) :=
      ChainTable.toBytes_eq _
    refine ⟨_, rfl, .cons ?_ (Part.placed_ofList _ table.padding.bytes table.chains
      (fun chains => { table with chains := chains }) (fun chains => ?_) (fun chains same => ?_)
      (.cons ?_ .nil))⟩
    · refine Part.writes_of [] (table.chains.flatMap Fragment.toBytes ++ table.padding.bytes)
        table.header (fun header => { table with header := header })
        (fun header => whole header table.chains table.padding) fun header same => ?_
      exact congrArg (fun first => Layout.parts (first :: _)) same
    · exact whole table.header chains table.padding
    · exact congrArg (fun members => Layout.parts (_ :: (members ++ _))) same
    · refine Part.writes_of _ [] table.padding
        (fun padding => { table with padding := padding }) (fun padding => ?_) fun padding same => ?_
      · rw [whole table.header table.chains padding, List.append_nil, ← List.append_assoc]
        rfl
      · exact congrArg (fun last => Layout.parts (_ :: (_ ++ [last]))) same

instance : Fragment.Viewed ChainTable where
  view table := Composite.viewsBytes table rfl (fun _ => rfl) (fun _ _ => rfl) fun _ _ => rfl

instance : Nested SignatureDescriptor where
  layout descriptor :=
    .parts [layout descriptor.header, layout descriptor.table, layout descriptor.crc]

instance : Composite.Viewed SignatureDescriptor where
  placed descriptor := by
    refine ⟨_, rfl, Part.placed_triple SignatureDescriptor.mk (fun header table crc => ?_)
      (fun _ _ _ => rfl) _ _ _⟩
    exact SignatureDescriptor.toBytes_eq _

instance : Fragment.Viewed SignatureDescriptor where
  view descriptor := Composite.viewsBytes descriptor rfl (fun _ => rfl) (fun _ _ => rfl) fun _ _ => rfl

instance : Nested Section where
  layout sect := .parts [layout sect.header, layout sect.signatures, layout sect.payload]

instance : Composite.Viewed Section where
  placed sect := by
    refine ⟨_, rfl, Part.placed_triple Section.mk (fun header signatures payload => ?_)
      (fun _ _ _ => rfl) _ _ _⟩
    exact Section.toBytes_eq _

instance : Fragment.Viewed Section where
  view sect := Composite.viewsBytes sect rfl (fun _ => rfl) (fun _ _ => rfl) fun _ _ => rfl

instance : Nested Certificate where
  layout certificate := .parts [layout certificate.header, layout certificate.signatures]

instance : Composite.Viewed Certificate where
  placed certificate := by
    refine ⟨_, rfl, Part.placed_pair Certificate.mk (fun header signatures => ?_)
      (fun _ _ => rfl) _ _⟩
    exact Certificate.toBytes_eq _

instance : Fragment.Viewed Certificate where
  view certificate :=
    Composite.viewsBytes certificate rfl (fun _ => rfl) (fun _ _ => rfl) fun _ _ => rfl

instance : Fragment.Lawful ConfigurationHeader :=
  Buffered.lawful fun _ => rfl

instance : Nested Configuration where
  layout configuration :=
    .parts (layout configuration.header :: layout configuration.signatures ::
      (configuration.sections.map layout ++ [layout configuration.payload]))

instance : Composite.Lawful Configuration where
  parts configuration := by
    rw [show Composite.parts configuration =
      Part.of configuration.header (fun header => { configuration with header := header }) ::
        Part.of configuration.signatures (fun signatures =>
          { configuration with signatures := signatures }) ::
        (Part.ofList (fun sections => { configuration with sections := sections })
          configuration.sections ++
        [Part.of configuration.payload fun payload => { configuration with payload := payload }])
      from rfl, List.forall_mem_cons, List.forall_mem_cons, List.forall_mem_append,
      List.forall_mem_singleton]
    exact ⟨Part.lawful_of configuration.header fun header => { configuration with header := header },
      Part.lawful_of configuration.signatures fun signatures =>
        { configuration with signatures := signatures },
      Part.lawful_ofList configuration.sections fun sections =>
        { configuration with sections := sections },
      Part.lawful_of configuration.payload fun payload => { configuration with payload := payload }⟩

instance : Composite.Viewed Configuration where
  placed configuration := by
    obtain ⟨header, signatures, sections, payload⟩ := configuration
    have whole (header : ConfigurationHeader) (signatures : SignatureDescriptor)
        (sections : List Section) (payload : Buffer) :
        Composite.toBytes (Configuration.mk header signatures sections payload) =
          header.buffer.bytes ++ (Fragment.toBytes signatures ++
            (sections.flatMap Fragment.toBytes ++ payload.bytes)) :=
      Configuration.toBytes_eq _
    refine ⟨_, rfl, .cons ?_ (.cons ?_ (Part.placed_ofList _ payload.bytes sections
      (fun sections => Configuration.mk header signatures sections payload) (fun sections => ?_)
      (fun sections same => ?_) (.cons ?_ .nil)))⟩
    · refine Part.writes_of [] (Fragment.toBytes signatures ++
        (sections.flatMap Fragment.toBytes ++ payload.bytes)) header
        (fun header => Configuration.mk header signatures sections payload)
        (fun header => whole header signatures sections payload) fun header same => ?_
      exact congrArg (fun first => Layout.parts (first :: _)) same
    · refine Part.writes_of _ (sections.flatMap Fragment.toBytes ++ payload.bytes) signatures
        (fun signatures => Configuration.mk header signatures sections payload)
        (fun signatures => whole header signatures sections payload) fun signatures same => ?_
      exact congrArg (fun second => Layout.parts (_ :: second :: _)) same
    · rw [whole, ← List.append_assoc]
      rfl
    · exact congrArg (fun members => Layout.parts (_ :: _ :: (members ++ _))) same
    · refine Part.writes_of _ [] payload
        (fun payload => Configuration.mk header signatures sections payload)
        (fun payload => ?_) fun payload same => ?_
      · rw [whole, List.append_nil, ← List.append_assoc, ← List.append_assoc]
        rfl
      · exact congrArg (fun last => Layout.parts (_ :: _ :: (_ ++ [last]))) same

instance : Fragment.Viewed Configuration where
  view configuration :=
    Composite.viewsBytes configuration rfl (fun _ => rfl) (fun _ _ => rfl) fun _ _ => rfl

instance : Nested SigningModule where
  layout
    | .cmfDescriptor header slot => .parts [layout header, layout slot]
    | .certificateHeader header slot => .parts [layout header, layout slot]
    | .publicKey entry => .parts [layout entry]

instance : Composite.Lawful SigningModule where
  parts
    | .cmfDescriptor header slot => by
      rw [show Composite.parts (SigningModule.cmfDescriptor header slot) = [_, _] from rfl,
        List.forall_mem_cons, List.forall_mem_singleton]
      exact ⟨Part.lawful_of header (SigningModule.cmfDescriptor · slot),
        Part.lawful_of slot (SigningModule.cmfDescriptor header ·)⟩
    | .certificateHeader header slot => by
      rw [show Composite.parts (SigningModule.certificateHeader header slot) = [_, _] from rfl,
        List.forall_mem_cons, List.forall_mem_singleton]
      exact ⟨Part.lawful_of header (SigningModule.certificateHeader · slot),
        Part.lawful_of slot (SigningModule.certificateHeader header ·)⟩
    | .publicKey entry => by
      rw [show Composite.parts (SigningModule.publicKey entry) = [_] from rfl,
        List.forall_mem_singleton]
      exact Part.lawful_of entry SigningModule.publicKey

instance : Composite.Viewed SigningModule where
  placed
    | .cmfDescriptor header slot => by
      refine ⟨_, rfl, Part.placed_pair SigningModule.cmfDescriptor (fun first second => ?_)
        (fun _ _ => rfl) _ _⟩
      exact SigningModule.toBytes_cmfDescriptor first second
    | .certificateHeader header slot => by
      refine ⟨_, rfl, Part.placed_pair SigningModule.certificateHeader (fun first second => ?_)
        (fun _ _ => rfl) _ _⟩
      exact SigningModule.toBytes_certificateHeader first second
    | .publicKey entry => by
      refine ⟨_, rfl, .cons ?_ .nil⟩
      refine Part.writes_of [] [] entry SigningModule.publicKey
        (fun other => rfl) fun other same => ?_
      exact congrArg (Layout.parts [·]) same

instance : Fragment.Viewed SigningModule where
  view signingModule :=
    Composite.viewsBytes signingModule rfl (fun _ => rfl) (fun _ _ => rfl) fun _ _ => rfl

instance : Nested Image where
  layout
    | .cmf object => layout object
    | .bareSection object => layout object
    | .certificate object => layout object
    | .chain object => layout object
    | .signingModule object => layout object
    | .raw object => layout object

/-- An image is a view as the object is that was recognised. -/
instance : Fragment.Viewed Image where
  view
    | .cmf object => by
      have wraps : Fragment.Wraps Image.cmf :=
        ⟨fun _ => rfl, fun _ => rfl, fun _ _ _ => rfl, fun _ _ _ => rfl, fun _ => rfl⟩
      exact wraps.viewsBytes object
    | .bareSection object => by
      have wraps : Fragment.Wraps Image.bareSection :=
        ⟨fun _ => rfl, fun _ => rfl, fun _ _ _ => rfl, fun _ _ _ => rfl, fun _ => rfl⟩
      exact wraps.viewsBytes object
    | .certificate object => by
      have wraps : Fragment.Wraps Image.certificate :=
        ⟨fun _ => rfl, fun _ => rfl, fun _ _ _ => rfl, fun _ _ _ => rfl, fun _ => rfl⟩
      exact wraps.viewsBytes object
    | .chain object => by
      have wraps : Fragment.Wraps Image.chain :=
        ⟨fun _ => rfl, fun _ => rfl, fun _ _ _ => rfl, fun _ _ _ => rfl, fun _ => rfl⟩
      exact wraps.viewsBytes object
    | .signingModule object => by
      have wraps : Fragment.Wraps Image.signingModule :=
        ⟨fun _ => rfl, fun _ => rfl, fun _ _ _ => rfl, fun _ _ _ => rfl, fun _ => rfl⟩
      exact wraps.viewsBytes object
    | .raw object => by
      have wraps : Fragment.Wraps Image.raw :=
        ⟨fun _ => rfl, fun _ => rfl, fun _ _ _ => rfl, fun _ _ _ => rfl, fun _ => rfl⟩
      exact wraps.viewsBytes object

end Parts

/-- The kinds of fragments. -/
inductive Fragment.Kind : (α : Type) → [Fragment α] → [Nested α] → Type
  | buffer : Kind Buffer
  | buffers : Kind (Sequence Buffer)
  | keys : Kind (Sequence PublicKey)
  | entries : Kind (Sequence ChainEntry)
  | key : Kind PublicKey
  | signature : Kind Signature
  | entryData : Kind EntryData
  | entry : Kind ChainEntry
  | chain : Kind SignatureChain
  | table : Kind ChainTable
  | signatures : Kind SignatureDescriptor
  | configurationHeader : Kind ConfigurationHeader
  | sectionHeader : Kind SectionHeader
  | certificateHeader : Kind CertificateHeader
  | configuration : Kind Configuration
  | sect : Kind Section
  | certificate : Kind Certificate
  | signingModule : Kind SigningModule
  | image : Kind Image

/-- Fragments of each kind are views of their bytes, by what was shown of its type. -/
theorem Fragment.Kind.view {α : Type} [Fragment α] [Nested α] (kind : Kind α) (fragment : α) :
    ViewsBytes fragment := by
  cases kind <;> exact Viewed.view fragment

/-- Every fragment is the view of its bytes, and a range of it is read as the serialization has it
just if reading it does not set aside room that there never is, which only parts do. -/
theorem Fragment.viewsBytes_of_every_kind {α : Type} [Fragment α] [Nested α] (kind : Kind α)
    (fragment : α) (offset count : Nat) :
    ViewsBytes fragment ∧
      (ReadsSerialized fragment offset count ↔ ¬ (layout fragment).Overflows offset count) := by
  have view := kind.view fragment
  exact ⟨view, view.readsSerialized_iff⟩

/-- A sequence of no members has not a single byte, and still does not refuse so large a range. -/
theorem Sequence.overflow_not_refused :
    ∃ (buffers : Sequence Buffer) (offset count : Nat), Fragment.size buffers < offset + count ∧
      ∀ length, Fragment.readBytes buffers offset count ≠
        .error (.outOfBounds offset count length) := by
  refine ⟨Sequence.empty none, 0, allocationLimit, by decide, fun length refused => ?_⟩
  have overflows : (layout (Sequence.empty none : Sequence Buffer)).Overflows 0 allocationLimit :=
    show 0 + allocationLimit < addressLimit ∧ allocationLimit ≤ allocationLimit by decide
  rw [(Fragment.Viewed.view _).overflowed overflows] at refused
  cases refused

end SecureBoot
