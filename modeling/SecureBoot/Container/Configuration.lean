import SecureBoot.Container.Section
import SecureBoot.Header.Configuration

/-!
Configuration memory files: a configuration header, the signature descriptor that signs it, the
sections that the header counts, and whatever follows the last of them as payload. Each section
says how many are still to come.
-/

namespace SecureBoot

/-- A configuration header, its signatures, the sections behind it and the rest of the file. -/
structure Configuration where
  header : ConfigurationHeader
  signatures : SignatureDescriptor
  sections : List Section
  payload : Buffer
  deriving DecidableEq, Repr

namespace Configuration

/-- A configuration to be read. -/
def empty : Configuration :=
  ⟨ConfigurationHeader.empty, SignatureDescriptor.empty, [], Buffer.empty none⟩

instance : Composite Configuration where
  parts configuration :=
    [Part.of configuration.header fun header => { configuration with header := header },
      Part.of configuration.signatures fun signatures =>
        { configuration with signatures := signatures }] ++
      Part.ofList (fun sections => { configuration with sections := sections })
        configuration.sections ++
      [Part.of configuration.payload fun payload => { configuration with payload := payload }]

/-- The section at an index. -/
def section? (configuration : Configuration) (index : Nat) : Option Section :=
  configuration.sections[index]?

/-- The configuration with other data behind its last section. -/
def withPayload (configuration : Configuration) (payload : Bytes) : Configuration :=
  { configuration with payload := { Buffer.empty none with bytes := payload } }

/-- Whether the format of the header calls for a signature before the configuration can be used;
SDM-lite configurations boot unsigned. -/
def isSignable (configuration : Configuration) : Except Failure Bool := do
  let format ← configuration.header.format
  return format = .sdmFull ∨ format = .fm

/-- Carry out a call on the header. -/
def onHeader {α : Type} (call : Edit ConfigurationHeader α) : Edit Configuration α :=
  Edit.within Configuration.header
    (fun configuration header => { configuration with header := header }) call

/-- Carry out a call on the signature descriptor. -/
def onSignatures {α : Type} (call : Edit SignatureDescriptor α) : Edit Configuration α :=
  Edit.within Configuration.signatures
    (fun configuration signatures => { configuration with signatures := signatures }) call

/-- Let each section announce the number of sections behind it, and refresh it. -/
def updateSections : List Section → EStateM.Result Failure (List Section) Unit
  | [] => .ok () []
  | first :: rest =>
    let renew : Edit Section Unit := do
      Section.onHeader (Edit.change (·.setSectionsRemaining (UInt32.ofNat rest.length)))
      Section.update
    match renew first with
    | .error failure first => .error failure (first :: rest)
    | .ok _ first =>
      match updateSections rest with
      | .error failure rest => .error failure (first :: rest)
      | .ok _ rest => .ok () (first :: rest)

/-- Refresh the section counts, every checksum and every digest of a header. -/
def update : Edit Configuration Unit := do
  Edit.within Configuration.sections
    (fun configuration sections => { configuration with sections := sections }) updateSections
  let count := UInt32.ofNat (← get).sections.length
  onHeader (Edit.change (·.setSectionsRemaining count))
  onHeader Fragment.update
  onSignatures SignatureDescriptor.update
  onSignatures (SignatureDescriptor.setBlock0Hash (Fragment.sha384 (← get).header))

/-- The unsigned configuration with a header, in the chain layout that goes with its format. -/
def ofHeader (header : ConfigurationHeader) : Except Failure Configuration := do
  let signatures ← SignatureDescriptor.create (.ofDescriptor (← header.format))
  update.result ⟨header, signatures, [], Buffer.empty none⟩

/-- The unsigned configuration of a format. -/
def create (format : DescriptorFormat) : Except Failure Configuration := do
  let header ← (do
    ConfigurationHeader.reset
    ConfigurationHeader.setFormat format :
      Edit ConfigurationHeader Unit).result ConfigurationHeader.empty
  ofHeader header

/-- Add a section behind the others and refresh the configuration. The section stays even if that
fails. -/
def pushSection (sect : Section) : Edit Configuration Unit := do
  modify fun configuration => { configuration with sections := configuration.sections ++ [sect] }
  update

/-- Store a chain in the first slot without entries, answering the slot, and refresh the
configuration. -/
def addChain (chain : SignatureChain) : Edit Configuration Nat := do
  let slot ← onSignatures (SignatureDescriptor.addChain chain)
  update
  return slot

/-- Check that sections, the first of which has the given index, are as many as announced. -/
def checkCounts (index announced : Nat) : List Section → Except Failure Unit
  | [] => require (announced = 0) (.invalidField (.sectionsAnnouncedAfterLast announced))
  | sect :: rest => do
    require (announced = rest.length + 1)
      (.invalidField (.sectionsAnnounced announced index (rest.length + 1)))
    checkCounts (index + 1) (← sect.sectionsRemaining).toNat rest

/-- Check every part, the digest of the header, the chain layout and the section counts. -/
def validate (configuration : Configuration) : Except Failure Unit := do
  Composite.validateParts configuration
  configuration.signatures.checkLink .cmfDescriptor (Fragment.sha384 configuration.header)
  let format ← configuration.header.format
  let actual ← configuration.signatures.format
  require (ChainFormat.ofDescriptor format = actual)
    (.invalidField (.chainsForDescriptor format actual))
  checkCounts 0 (← configuration.header.sectionsRemaining).toNat configuration.sections

/-- Read sections as long as more are announced; each has to announce fewer than the one before.
The first argument bounds the rounds; every section takes bytes from the stream. -/
def readSections : Nat → UInt32 → Edit (Configuration × Stream) Nat
  | 0, _ => pure 0
  | rounds + 1, remaining => do
    if remaining = 0 then return 0
    let exhausted ← Edit.fromStream Stream.isExhausted
    let known := (← get).1.sections.length
    Edit.ask fun _ => require (exhausted = false)
      (.lengthMismatch .cmfSections (known + remaining.toNat) known)
    let (count, sect) ← Edit.fromStream (Edit.readNew Section.empty)
    let next ← Edit.ask fun _ => sect.sectionsRemaining
    Edit.ask fun _ => require (next < remaining)
      (.invalidField (.sectionCountGrows next remaining))
    Edit.onObject (modify fun configuration =>
      { configuration with sections := configuration.sections ++ [sect] })
    return count + (← readSections rounds next)

/-- Read the header, the signature descriptor, the announced sections and the rest of the stream. -/
def read : Edit (Configuration × Stream) Nat := do
  let header ← Edit.readPart Configuration.header
    (fun configuration header => { configuration with header := header })
  Edit.ask fun _ => require (header = Size.header)
    (.lengthMismatch .cmfDescriptor Size.header header)
  let signatures ← Edit.readPart Configuration.signatures
    (fun configuration signatures => { configuration with signatures := signatures })
  Edit.onObject (modify fun configuration => { configuration with sections := [] })
  let remaining ← Edit.onObject (Edit.ask (·.header.sectionsRemaining))
  let sections ← readSections ((← get).2.unread.length + 1) remaining
  Edit.onObject (modify fun configuration =>
    { configuration with payload := Buffer.empty none })
  let payload ← Edit.readPart Configuration.payload
    (fun configuration payload => { configuration with payload := payload })
  Edit.onObject (Edit.ask validate)
  return header + signatures + sections + payload

instance : Fragment Configuration where
  size := Composite.size
  maxSize _ := none
  toBytes := Composite.toBytes
  readBytes := Composite.readBytes
  writeBytes := Composite.writeBytes
  validate := validate
  read := read
  update := update

instance : Describe Configuration where
  describe configuration :=
    " Cmf [Size=" ++ toString (Composite.size configuration) ++ "]\n" ++
      describe configuration.header ++ describe configuration.signatures ++
      String.join (configuration.sections.map describe) ++
      if configuration.payload.isEmpty then ""
      else "  Payload: " ++ toString configuration.payload.size ++ " bytes\n"

end Configuration
end SecureBoot
