import SecureBoot.Chain.Data
import SecureBoot.Signature

/-!
One entry of a signature chain: a header with the lengths of what follows and a hash selector, the
data block, and a signature. Root entries sign themselves and carry no signature; the others are
built with a slot of zeros that a signature fills later.
-/

namespace SecureBoot

/-- The header, the data and the signature slot of an entry. -/
structure ChainEntry where
  header : Buffer
  data : EntryData
  slot : Buffer
  deriving DecidableEq, Repr

namespace ChainEntry

def totalLengthOffset : Nat := 0x4

def dataLengthOffset : Nat := 0x8

def signatureLengthOffset : Nat := 0xC

def reservedOffset : Nat := 0x10

def hashSelectorOffset : Nat := 0x14

/-- How a multi-root entry splits the contribution between its first two keys. -/
def contributionSplit : List UInt32 := [0xFFFF0000, 0x0000FFFF]

/-- An entry with the given data, and nothing else yet. -/
def ofData (data : EntryData) : ChainEntry where
  header := ((Buffer.empty (some Size.entryHeader)).withMagic data.kind.magic 0).withDescription
    "signature chain entry header"
  data := data
  slot := Buffer.empty none

/-- An empty entry of a kind, to be read. -/
def empty (kind : EntryKind) (format : KeyFormat) : ChainEntry :=
  ofData (.empty kind format)

def kind (entry : ChainEntry) : EntryKind :=
  entry.data.kind

/-- The keys the entry holds, in order. -/
def keys (entry : ChainEntry) : List PublicKey :=
  entry.data.keys

/-- The key that signs what follows the entry: its first one. -/
def key? (entry : ChainEntry) : Option PublicKey :=
  entry.keys.head?

instance : Composite ChainEntry where
  parts entry :=
    [Part.of entry.header fun header => { entry with header := header },
      Part.of entry.data fun data => { entry with data := data },
      Part.of entry.slot fun slot => { entry with slot := slot }]

def size (entry : ChainEntry) : Nat :=
  Composite.size entry

/-- The leading magic number. -/
def magic (entry : ChainEntry) : Except Failure UInt32 :=
  entry.header.getWord 0

def totalLength (entry : ChainEntry) : Except Failure UInt32 :=
  entry.header.getWord totalLengthOffset

def dataLength (entry : ChainEntry) : Except Failure UInt32 :=
  entry.header.getWord dataLengthOffset

def signatureLength (entry : ChainEntry) : Except Failure UInt32 :=
  entry.header.getWord signatureLengthOffset

/-- The stored hash selector. -/
def hashSelector (entry : ChainEntry) : Except Failure HashSelector := do
  let value ← entry.header.getWord hashSelectorOffset
  match HashSelector.ofValue? value with
  | some selector => return selector
  | none => .error (.invalidField (.hashSelector value))

/-- The key hash word that a root entry stores. -/
def hashWord? (entry : ChainEntry) : Option Bytes :=
  entry.data.hashWord?

/-- The signature, or none while the slot holds zeros only. -/
def signature (entry : ChainEntry) : Except Failure (Option Signature) :=
  Signature.ofSlot entry.slot.bytes

/-- Check that a stored length is the length of what it describes. -/
def checkLength (field : LengthField) (stored : UInt32) (actual : Nat) : Except Failure Unit :=
  require (stored.toNat = actual) (.lengthMismatch field actual stored.toNat)

/-- Check the stored lengths, the reserved word and the alignment of the entry. -/
def validateLengths (entry : ChainEntry) : Except Failure Unit := do
  let total ← entry.totalLength
  let data ← entry.dataLength
  let signature ← entry.signatureLength
  checkLength .totalLength total entry.size
  checkLength .dataLength data (Fragment.size entry.data)
  checkLength .signatureLength signature entry.slot.size
  let reserved ← entry.header.getWord reservedOffset
  require (reserved = 0) (.reservedFieldNonzero reservedOffset reserved)
  require (entry.size % 8 = 0) (.misaligned entry.size)

/-- Check that a root key is there and cannot be cancelled. -/
def checkRootKey (kind : EntryKind) (key : PublicKey) : Except Failure Unit := do
  require (key.isEmpty = false) (.invalidField (.rootKeyMissing kind))
  let cancelId ← key.cancelId
  require (cancelId = unsetWord) (.invalidField (.rootKeyCancelled cancelId))

/-- Check several root keys. -/
def checkRootKeys (kind : EntryKind) : List PublicKey → Except Failure Unit
  | [] => .ok ()
  | key :: rest => do
    checkRootKey kind key
    checkRootKeys kind rest

/-- Check that a root entry carries no signature. -/
def checkUnsigned (entry : ChainEntry) (field : LengthField) : Except Failure Unit :=
  require (entry.slot.isEmpty = true) (.lengthMismatch field 0 entry.slot.size)

/-- Check that the stored key hash word is the one of the keys. -/
def checkHashWord (entry : ChainEntry) (expected : Bytes) : Except Failure Unit :=
  let stored := entry.hashWord?.getD (Bytes.zeros 4)
  require (stored = expected) (.hashChainMismatch (.rootKeyHash entry.kind stored expected))

/-- What the kind of an entry demands of its data and signature. -/
def validateKind (entry : ChainEntry) : Except Failure Unit :=
  match entry.data with
  | .root _ key => do
    entry.checkUnsigned .rootSignature
    checkRootKey entry.kind key
    entry.checkHashWord (← key.hashWord)
  | .multiRoot _ keys => do
    entry.checkUnsigned .multiRootSignature
    require (keys.isEmpty = false) (.invalidField .multiRootWithoutKeys)
    checkRootKeys entry.kind keys.items
    entry.checkHashWord (← EntryData.hashWordOf keys.items)
  | .publicKey key =>
    require (key.isEmpty = false) (.invalidField .publicKeyEntryWithoutKey)
  | .block0 => .ok ()

/-- Check the parts, the lengths, the hash selector and the demands of the kind. -/
def validate (entry : ChainEntry) : Except Failure Unit := do
  Composite.validateParts entry
  entry.validateLengths
  let _ ← entry.hashSelector
  entry.validateKind

/-- Carry out a call on the header. -/
def onHeader {α : Type} (call : Edit Buffer α) : Edit ChainEntry α :=
  Edit.within ChainEntry.header (fun entry header => { entry with header := header }) call

/-- Store the lengths and the magic number. -/
def update : Edit ChainEntry Unit := do
  let entry ← get
  let total ← Edit.ask fun _ => Bytes.encodeLength entry.size
  let data ← Edit.ask fun _ => Bytes.encodeLength (Fragment.size entry.data)
  let signature ← Edit.ask fun _ => Bytes.encodeLength entry.slot.size
  onHeader do
    Edit.change (·.setWord total totalLengthOffset)
    Edit.change (·.setWord data dataLengthOffset)
    Edit.change (·.setWord signature signatureLengthOffset)
    Buffer.updateMagic

/-- Put bytes into the signature slot and refresh the lengths. -/
def fillSlot (bytes : Bytes) : Edit ChainEntry Unit := do
  modify fun entry => { entry with slot := { Buffer.empty none with bytes := bytes } }
  update

/-- Store a signature, which root entries refuse. -/
def setSignature (signature : Signature) : Edit ChainEntry Unit := do
  Edit.ask fun entry => require (entry.kind.isRoot = false) (.invalidField .rootEntrySigned)
  fillSlot signature.toBytes

/-- The valid entry with the given data, slot contents and hash selector. -/
def build (data : EntryData) (slot : Bytes) (selector : HashSelector) :
    Except Failure ChainEntry := do
  let entry ← (do
    onHeader do
      Buffer.reset Size.entryHeader
      Edit.change (·.setWord selector.value hashSelectorOffset)
    fillSlot slot : Edit ChainEntry Unit).result (ofData data)
  entry.validate
  return entry

/-- The root entry of a key in the single-root layout. -/
def root (key : PublicKey) (selector : HashSelector) : Except Failure ChainEntry := do
  require (key.isEmpty = false ∧ key.format = .singleRoot) (.invalidField .rootNeedsSingleRootKey)
  build (.root (← EntryData.reservedFor (← key.hashWord)) key) [] selector

/-- Give each of the first keys its part of the contribution, unless it has one. -/
def splitContribution : List UInt32 → List PublicKey → Except Failure (List PublicKey)
  | share :: shares, key :: rest => do
    let contribution ← key.contribution
    let key ← if contribution = unsetWord then key.setContribution share else .ok key
    return key :: (← splitContribution shares rest)
  | _, keys => .ok keys

/-- The multi-root entry of one to three keys in the multi-root layout. Two keys or more share the
contribution. -/
def multiRoot (keys : List PublicKey) (selector : HashSelector) : Except Failure ChainEntry := do
  require (1 ≤ keys.length ∧ keys.length ≤ multiRootKeyLimit)
    (.invalidField (.multiRootKeyCount keys.length))
  require (∀ key ∈ keys, key.isEmpty = false ∧ key.format = .multiRoot)
    (.invalidField .multiRootNeedsMultiRootKeys)
  let keys ← if 2 ≤ keys.length then splitContribution contributionSplit keys else .ok keys
  let reserved ← EntryData.reservedFor (← EntryData.hashWordOf keys)
  build (.multiRoot reserved (← EntryData.keySlots.extend keys)) [] selector

/-- The unsigned entry of a public key. -/
def publicKey (key : PublicKey) (selector : HashSelector) : Except Failure ChainEntry := do
  require (key.isEmpty = false) (.invalidField .publicKeyEntryNeedsKey)
  build (.publicKey key) (Bytes.zeros Size.signature) selector

/-- The unsigned entry that closes a chain. -/
def block0 (selector : HashSelector) : Except Failure ChainEntry :=
  build .block0 (Bytes.zeros Size.signature) selector

/-- An empty entry of the kind that is next in a stream, or none if no entry is. The layout of the
key of a public key entry is looked up behind the entry's header. -/
def sniff : Edit Stream (Option ChainEntry) := do
  let head ← Stream.peek 8
  if head.length < 8 then return none
  match EntryKind.ofMagic? (Bytes.wordAt head 0) with
  | none => return none
  | some .publicKey =>
    let head ← Stream.peek (Size.entryHeader + 4)
    Edit.ask fun _ => require (Size.entryHeader + 4 ≤ head.length)
      (.unknownStreamFormat .publicKeyEntryTooShort)
    let format := KeyFormat.ofMagic? (Bytes.wordAt head Size.entryHeader)
    return some (empty .publicKey (format.getD .singleRoot))
  | some kind => return some (empty kind .singleRoot)

/-- Take the entry that is next in the stream: the header, exactly as much data and signature as it
announces, and nothing else. -/
def read : Edit (ChainEntry × Stream) Nat := do
  Edit.ask fun (entry, _) => require (entry.header.isEmpty = true)
    (.invariantViolation (.alreadyRead .entry))
  let header ← Edit.fromStream (Edit.takeExactly Size.entryHeader .entryHeader)
  Edit.onObject (onHeader (Edit.change (·.append header)))
  Edit.onObject (onHeader (Edit.ask Buffer.validate))
  let dataLength := (← Edit.onObject (Edit.ask dataLength)).toNat
  let data ← Edit.fromStream (Edit.takeExactly dataLength .entryData)
  let consumed ← Edit.onObject
    (Edit.readInside ChainEntry.data (fun entry data => { entry with data := data }) data)
  Edit.ask fun _ => require (consumed = dataLength)
    (.lengthMismatch .entryData dataLength consumed)
  let signatureLength := (← Edit.onObject (Edit.ask signatureLength)).toNat
  let signature ← Edit.fromStream (Edit.takeExactly signatureLength .entrySignature)
  Edit.onObject (Edit.change fun entry => do
    return { entry with slot := ← entry.slot.append signature })
  Edit.onObject (Edit.ask validate)
  return (← get).1.size

instance : Fragment ChainEntry where
  size := size
  maxSize _ := none
  toBytes := Composite.toBytes
  readBytes := Composite.readBytes
  writeBytes := Composite.writeBytes
  validate := validate
  read := read
  update := update

instance : Allocate ChainEntry where
  allocate _ := sniff

instance : Describe ChainEntry where
  describe entry :=
    " SignatureChainEntry [Kind=" ++ entry.kind.name ++ ", Size=" ++ toString entry.size ++
      "]\n" ++
      (match entry.hashSelector with
        | .ok selector => "  Hash Selector: " ++ selector.name ++ "\n"
        | .error _ => "") ++
      (match entry.hashWord? with
        | some word => "  MSW Key Hash: 0x" ++ Text.Hex.encode word ++ "\n"
        | none => "") ++
      String.join (entry.keys.map describe) ++
      (match entry.signature with
        | .ok (some signature) => describe signature
        | .ok none => if entry.slot.isEmpty then "" else "  Signature: <unsigned>\n"
        | .error _ => "")

end ChainEntry
end SecureBoot
