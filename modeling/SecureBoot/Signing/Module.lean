import SecureBoot.Chain.Entry
import SecureBoot.Header.Certificate
import SecureBoot.Header.Configuration

/-!
Signing modules: what is handed to a signing service and comes back signed. A module is a header
followed by a slot for the signature, or a public key entry, which brings its own slot. The service
signs the payload: the header, or the entry without its slot.
-/

namespace SecureBoot

/-- What a module asks to be signed. -/
inductive ModuleKind
  | cmfDescriptor
  | certificateHeader
  | publicKey
  deriving DecidableEq, Repr

namespace ModuleKind

def name : ModuleKind → String
  | cmfDescriptor => "CmfDescriptor"
  | certificateHeader => "EngineeringCertHeader"
  | publicKey => "PublicKey"

end ModuleKind

/-- A module for a signing service. -/
inductive SigningModule
  | cmfDescriptor (header : ConfigurationHeader) (slot : Buffer)
  | certificateHeader (header : CertificateHeader) (slot : Buffer)
  | publicKey (entry : ChainEntry)
  deriving DecidableEq, Repr

namespace SigningModule

/-- A signature slot to be read. -/
def emptySlot : Buffer :=
  Buffer.empty (some Size.signature)

/-- A signature slot that is not signed yet. -/
def blankSlot : Buffer :=
  { emptySlot with bytes := Bytes.zeros Size.signature }

/-- The module of a kind that is to be read; the layout of the key matters to public keys only. -/
def empty (kind : ModuleKind) (format : KeyFormat) : SigningModule :=
  match kind with
  | .cmfDescriptor => cmfDescriptor ConfigurationHeader.empty emptySlot
  | .certificateHeader => certificateHeader CertificateHeader.empty emptySlot
  | .publicKey => publicKey (ChainEntry.empty .publicKey format)

/-- The module for a configuration header that is ready to be signed. -/
def ofConfiguration (header : ConfigurationHeader) : Except Failure SigningModule := do
  header.validateForSigning
  return cmfDescriptor header blankSlot

/-- The module for a valid certificate header. -/
def ofCertificate (header : CertificateHeader) : Except Failure SigningModule := do
  header.validate
  return certificateHeader header blankSlot

/-- The module for a public key. -/
def ofKey (key : PublicKey) (selector : HashSelector) : Except Failure SigningModule := do
  return publicKey (← ChainEntry.publicKey key selector)

def kind : SigningModule → ModuleKind
  | cmfDescriptor .. => .cmfDescriptor
  | certificateHeader .. => .certificateHeader
  | publicKey _ => .publicKey

/-- The bytes of the signature slot. -/
def slotBytes : SigningModule → Bytes
  | cmfDescriptor _ slot => slot.bytes
  | certificateHeader _ slot => slot.bytes
  | publicKey entry => entry.slot.bytes

/-- The bytes that the service signs. -/
def payload : SigningModule → Except Failure Bytes
  | cmfDescriptor header _ => .ok header.buffer.bytes
  | certificateHeader header _ => .ok header.buffer.bytes
  | publicKey entry => Fragment.readBytes entry 0 (entry.size - entry.slot.size)

/-- The SHA-384 digest of the payload. -/
def payloadHash (signingModule : SigningModule) : Except Failure Bytes := do
  return Bytes.sha384 (← signingModule.payload)

/-- The signature, or none while the slot holds zeros only. -/
def signature (signingModule : SigningModule) : Except Failure (Option Signature) :=
  Signature.ofSlot signingModule.slotBytes

/-- Whether anything was put into the signature slot. -/
def isSigned (signingModule : SigningModule) : Bool :=
  !Bytes.allZero signingModule.slotBytes

/-- Fill the signature slot behind a header, which takes signatures of one size only. -/
def fillSlot (signature : Signature) (slot : Buffer) : Except Failure Buffer := do
  require (signature.size = Size.signature)
    (.lengthMismatch .moduleSignature Size.signature signature.size)
  slot.setRaw signature.toBytes 0

/-- Store the signature that the service gave. -/
def setSignature (signature : Signature) : Edit SigningModule Unit
  | cmfDescriptor header slot =>
    match fillSlot signature slot with
    | .ok slot => .ok () (cmfDescriptor header slot)
    | .error failure => .error failure (cmfDescriptor header slot)
  | certificateHeader header slot =>
    match fillSlot signature slot with
    | .ok slot => .ok () (certificateHeader header slot)
    | .error failure => .error failure (certificateHeader header slot)
  | publicKey entry =>
    match ChainEntry.setSignature signature entry with
    | .ok _ entry => .ok () (publicKey entry)
    | .error failure entry => .error failure (publicKey entry)

/-- The chain entry that carries the signature the service gave: a block0 entry for a header, the
signed entry for a public key. -/
def signedEntry (signingModule : SigningModule) (signature : Signature)
    (selector : HashSelector) : Except Failure ChainEntry := do
  match ← (setSignature signature).result signingModule with
  | publicKey entry => return entry
  | cmfDescriptor .. | certificateHeader .. =>
    (ChainEntry.setSignature signature).result (← ChainEntry.block0 selector)

instance : Composite SigningModule where
  parts
    | cmfDescriptor header slot =>
      [Part.of header (cmfDescriptor · slot), Part.of slot (cmfDescriptor header ·)]
    | certificateHeader header slot =>
      [Part.of header (certificateHeader · slot), Part.of slot (certificateHeader header ·)]
    | publicKey entry => [Part.of entry publicKey]

/-- Check that a signature slot has its one size. -/
def checkSlot (slot : Buffer) : Except Failure Unit :=
  require (slot.size = Size.signature) (.lengthMismatch .moduleSignature Size.signature slot.size)

/-- Check every part and that the slot holds a valid signature or none. -/
def validate (signingModule : SigningModule) : Except Failure Unit := do
  Composite.validateParts signingModule
  match signingModule with
  | cmfDescriptor _ slot => checkSlot slot
  | certificateHeader _ slot => checkSlot slot
  | publicKey _ => .ok ()
  let _ ← signingModule.signature

/-- Read a header and the slot behind it. -/
def readSigned {α : Type} [Fragment α] (build : α → Buffer → SigningModule) (header : α)
    (slot : Buffer) : Edit (SigningModule × Stream) Nat := fun (_, stream) =>
  match Fragment.read (header, stream) with
  | .error failure (header, stream) => .error failure (build header slot, stream)
  | .ok count (header, stream) =>
    match Fragment.read (slot, stream) with
    | .error failure (slot, stream) => .error failure (build header slot, stream)
    | .ok more (slot, stream) => .ok (count + more) (build header slot, stream)

/-- Read every part in layout order. -/
def readParts : Edit (SigningModule × Stream) Nat := fun (signingModule, stream) =>
  match signingModule with
  | cmfDescriptor header slot => readSigned cmfDescriptor header slot (signingModule, stream)
  | certificateHeader header slot =>
    readSigned certificateHeader header slot (signingModule, stream)
  | publicKey entry =>
    match Fragment.read (entry, stream) with
    | .error failure (entry, stream) => .error failure (publicKey entry, stream)
    | .ok count (entry, stream) => .ok count (publicKey entry, stream)

/-- Check that a configuration header was read completely. -/
def checkHeaderSize : SigningModule → Except Failure Unit
  | cmfDescriptor header _ =>
    require (header.size = Size.header) (.lengthMismatch .cmfDescriptor Size.header header.size)
  | certificateHeader .. | publicKey _ => .ok ()

/-- Read every part and check the module. -/
def read : Edit (SigningModule × Stream) Nat := do
  let count ← readParts
  Edit.onObject (Edit.ask checkHeaderSize)
  Edit.onObject (Edit.ask validate)
  return count

/-- Refresh a header and its slot. -/
def updateSigned {α : Type} [Fragment α] (build : α → Buffer → SigningModule) (header : α)
    (slot : Buffer) : EStateM.Result Failure SigningModule Unit :=
  match Fragment.update header with
  | .error failure header => .error failure (build header slot)
  | .ok _ header =>
    match Fragment.update slot with
    | .error failure slot => .error failure (build header slot)
    | .ok _ slot => .ok () (build header slot)

/-- Refresh every part. -/
def update : Edit SigningModule Unit
  | cmfDescriptor header slot => updateSigned cmfDescriptor header slot
  | certificateHeader header slot => updateSigned certificateHeader header slot
  | publicKey entry =>
    match ChainEntry.update entry with
    | .error failure entry => .error failure (publicKey entry)
    | .ok _ entry => .ok () (publicKey entry)

instance : Fragment SigningModule where
  size := Composite.size
  maxSize _ := none
  toBytes := Composite.toBytes
  readBytes := Composite.readBytes
  writeBytes := Composite.writeBytes
  validate := validate
  read := read
  update := update

instance : Describe SigningModule where
  describe signingModule :=
    " CssModule [Kind=" ++ signingModule.kind.name ++ ", Size=" ++
      toString (Composite.size signingModule) ++ "]\n" ++
      (match signingModule.payloadHash with
        | .ok hash => "  Payload SHA-384: 0x" ++ Text.Hex.encode hash ++ "\n"
        | .error _ => "") ++
      (match signingModule with
        | cmfDescriptor header _ => describe header
        | certificateHeader header _ => describe header
        | publicKey entry => describe entry) ++
      (match signingModule.signature with
        | .ok (some signature) => describe signature
        | .ok none | .error _ => "  Signature: <unsigned>\n")

end SigningModule
end SecureBoot
