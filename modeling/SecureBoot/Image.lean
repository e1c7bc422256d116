import SecureBoot.Container.Certificate
import SecureBoot.Container.Configuration
import SecureBoot.Files
import SecureBoot.Signing.Module

/-!
Images: whatever a file of the format can hold. The leading magic number says what it is, for
section headers together with the section type, and for headers the word behind the header tells a
signing module from a signed structure. Bytes of no known kind are an image, too.
-/

namespace SecureBoot

/-- Anything that can be recognised in a stream. -/
inductive Image
  | cmf (object : Configuration)
  | bareSection (object : Section)
  | certificate (object : Certificate)
  | chain (object : SignatureChain)
  | signingModule (object : SigningModule)
  | raw (object : Buffer)
  deriving DecidableEq, Repr

namespace Image

/-- What kind of thing the image is. -/
def kind : Image → String
  | cmf _ => "cmf"
  | bareSection _ => "section"
  | certificate _ => "engineering certificate"
  | chain _ => "signature chain"
  | signingModule _ => "css module"
  | raw _ => "raw"

/-- Whether the image is a configuration that has to be signed and has no chain yet. -/
def needsSigning : Image → Except Failure Bool
  | cmf object => do
    return (← object.isSignable) && object.signatures.chains.isEmpty
  | bareSection _ | certificate _ | chain _ | signingModule _ | raw _ => .ok false

def size : Image → Nat
  | cmf object => Fragment.size object
  | bareSection object => Fragment.size object
  | certificate object => Fragment.size object
  | chain object => Fragment.size object
  | signingModule object => Fragment.size object
  | raw object => Fragment.size object

def maxSize : Image → Option Nat
  | cmf object => Fragment.maxSize object
  | bareSection object => Fragment.maxSize object
  | certificate object => Fragment.maxSize object
  | chain object => Fragment.maxSize object
  | signingModule object => Fragment.maxSize object
  | raw object => Fragment.maxSize object

def toBytes : Image → Bytes
  | cmf object => Fragment.toBytes object
  | bareSection object => Fragment.toBytes object
  | certificate object => Fragment.toBytes object
  | chain object => Fragment.toBytes object
  | signingModule object => Fragment.toBytes object
  | raw object => Fragment.toBytes object

def readBytes (image : Image) (offset size : Nat) : Except Failure Bytes :=
  match image with
  | cmf object => Fragment.readBytes object offset size
  | bareSection object => Fragment.readBytes object offset size
  | certificate object => Fragment.readBytes object offset size
  | chain object => Fragment.readBytes object offset size
  | signingModule object => Fragment.readBytes object offset size
  | raw object => Fragment.readBytes object offset size

def writeBytes (image : Image) (bytes : Bytes) (offset : Nat) : Except Failure Image :=
  match image with
  | cmf object => (Fragment.writeBytes object bytes offset).map cmf
  | bareSection object => (Fragment.writeBytes object bytes offset).map bareSection
  | certificate object => (Fragment.writeBytes object bytes offset).map certificate
  | chain object => (Fragment.writeBytes object bytes offset).map chain
  | signingModule object => (Fragment.writeBytes object bytes offset).map signingModule
  | raw object => (Fragment.writeBytes object bytes offset).map raw

/-- Check the object that was recognised. -/
def validate : Image → Except Failure Unit
  | cmf object => Fragment.validate object
  | bareSection object => Fragment.validate object
  | certificate object => Fragment.validate object
  | chain object => Fragment.validate object
  | signingModule object => Fragment.validate object
  | raw object => Fragment.validate object

/-- Refresh an object and wrap it again. -/
def updateAs {α : Type} [Fragment α] (wrap : α → Image) (object : α) :
    EStateM.Result Failure Image Unit :=
  match Fragment.update object with
  | .ok _ object => .ok () (wrap object)
  | .error failure object => .error failure (wrap object)

/-- Refresh the object that was recognised. -/
def update : Edit Image Unit
  | cmf object => updateAs cmf object
  | bareSection object => updateAs bareSection object
  | certificate object => updateAs Image.certificate object
  | chain object => updateAs Image.chain object
  | signingModule object => updateAs Image.signingModule object
  | raw object => updateAs raw object

/-- Whether the header that is next in a stream is followed by a signature, or a blank slot for
one, rather than by a signature descriptor. -/
def moduleFollows : Edit Stream Bool := do
  let head ← Stream.peek (Size.header + 4)
  if head.length < Size.header + 4 then return false
  let magic := Bytes.wordAt head Size.header
  return magic = Magic.signature || magic = 0

/-- Read a new object from the stream. -/
def readAs {α : Type} [Fragment α] (wrap : α → Image) (object : α) : Edit Stream Image := do
  let (_, object) ← Edit.readNew object
  return wrap object

/-- Read what begins with a section header. -/
def recogniseSection : Edit Stream Image := do
  let head ← Stream.peek 0x10
  Edit.ask fun _ => require (0x10 ≤ head.length) (.unknownStreamFormat .sectionWithoutType)
  if Bytes.wordAt head SectionHeader.sectionTypeOffset ≠ Magic.certificateSection then
    readAs bareSection Section.empty
  else if ← moduleFollows then
    readAs signingModule (.empty .certificateHeader .singleRoot)
  else readAs certificate Certificate.empty

/-- Read what begins with a public key entry. -/
def recogniseKeyEntry : Edit Stream Image := do
  match ← ChainEntry.sniff with
  | none => throw (.unknownStreamFormat .publicKeyEntryTruncated)
  | some entry =>
    let format := (entry.key?.map PublicKey.format).getD .singleRoot
    readAs signingModule (.empty .publicKey format)

/-- Read what a leading magic number announces. -/
def recogniseTag : Option StreamTag → Edit Stream Image
  | some .cmfDescriptor => do
    if ← moduleFollows then readAs signingModule (.empty .cmfDescriptor .singleRoot)
    else readAs cmf Configuration.empty
  | some .sectionDescriptor => recogniseSection
  | some .rootEntry | some .multiRootEntry => readAs chain (SignatureChain.expecting none)
  | some .publicKeyEntry => recogniseKeyEntry
  | none => do
    let bytes ← Stream.readToEnd
    return raw { Buffer.empty none with bytes := bytes }

/-- Read the image that is next in a stream, which may have more after it. -/
def recognise : Edit Stream Image := do
  let head ← Stream.peek 4
  Edit.ask fun _ => require (4 ≤ head.length) (.unknownStreamFormat (.noMagic head.length))
  let image ← recogniseTag (StreamTag.ofMagic? (Bytes.wordAt head 0))
  let _ ← Stream.isExhausted
  return image

/-- The image that bytes begin with. -/
def ofBytes (bytes : Bytes) : Except Failure Image :=
  recognise.answer (Stream.ofBytes bytes)

/-- The image that a file begins with. -/
def load (disk : Files.Disk) (path : String) : Except Failure Image := do
  recognise.answer (← disk.open? path)

/-- Put the image that is next in a stream in place of this one, answering the bytes it took. -/
def read : Edit (Image × Stream) Nat := do
  let start := (← get).2.position
  let image ← Edit.fromStream recognise
  modify fun (_, stream) => (image, stream)
  return (← get).2.position - start

instance : Fragment Image where
  size := size
  maxSize := maxSize
  toBytes := toBytes
  readBytes := readBytes
  writeBytes := writeBytes
  validate := validate
  read := read
  update := update

instance : Describe Image where
  describe
    | cmf object => describe object
    | bareSection object => describe object
    | certificate object => describe object
    | chain object => describe object
    | signingModule object => describe object
    | raw object => describe object

end Image
end SecureBoot
