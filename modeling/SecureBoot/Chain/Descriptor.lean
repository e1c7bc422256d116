import SecureBoot.Chain.Table

/-!
The signature descriptor: the 4 KiB block behind every signed header. It holds the SHA-384 digest
of that header, the table of signature chains and a checksum over everything before the checksum.
-/

namespace SecureBoot

/-- The header, the chain table and the checksum word of a signature descriptor. -/
structure SignatureDescriptor where
  header : Buffer
  table : ChainTable
  crc : Buffer
  deriving DecidableEq, Repr

namespace SignatureDescriptor

def headerSize : Nat := 0x40

def formatOffset : Nat := 0x4

def lengthOffset : Nat := 0x8

def reservedOffset : Nat := 0xC

def block0HashOffset : Nat := 0x10

def block0HashSize : Nat := 48

def crcSize : Nat := 4

/-- Where the checksum stands, at the end of the descriptor. -/
def crcOffset : Nat := Size.signatureDescriptor - crcSize

/-- The size of the chain table, which fills the descriptor between header and checksum. -/
def tableSize : Nat := crcOffset - headerSize

/-- A descriptor to be read, whose chain layout the stream decides. -/
def empty : SignatureDescriptor where
  header := ((Buffer.empty (some headerSize)).withMagic Magic.signatureDescriptor
    0).withDescription "signature descriptor header"
  table := ChainTable.expecting .classic tableSize
  crc := Buffer.empty (some crcSize)

instance : Composite SignatureDescriptor where
  parts descriptor :=
    [Part.of descriptor.header fun header => { descriptor with header := header },
      Part.of descriptor.table fun table => { descriptor with table := table },
      Part.of descriptor.crc fun crc => { descriptor with crc := crc }]

/-- The stored chain layout. -/
def format (descriptor : SignatureDescriptor) : Except Failure ChainFormat := do
  let value ← descriptor.header.getWord formatOffset
  match ChainFormat.ofValue? value with
  | some format => return format
  | none => .error (.invalidField (.chainFormat value))

/-- The stored digest of the signed header. -/
def block0Hash (descriptor : SignatureDescriptor) : Except Failure Bytes :=
  descriptor.header.getRaw block0HashOffset block0HashSize

/-- The chains that have entries. -/
def chains (descriptor : SignatureDescriptor) : List SignatureChain :=
  descriptor.table.populated

def storedCrc (descriptor : SignatureDescriptor) : Except Failure UInt32 :=
  descriptor.crc.getWord 0

/-- The checksum of everything before the checksum word. -/
def computedCrc (descriptor : SignatureDescriptor) : Except Failure UInt32 := do
  return Bytes.crc32 (← Composite.readBytes descriptor 0 crcOffset)

/-- Carry out a call on the header. -/
def onHeader {α : Type} (call : Edit Buffer α) : Edit SignatureDescriptor α :=
  Edit.within SignatureDescriptor.header
    (fun descriptor header => { descriptor with header := header }) call

/-- Carry out a call on the chain table. -/
def onTable {α : Type} (call : Edit ChainTable α) : Edit SignatureDescriptor α :=
  Edit.within SignatureDescriptor.table
    (fun descriptor table => { descriptor with table := table }) call

/-- Carry out a call on the checksum word. -/
def onCrc {α : Type} (call : Edit Buffer α) : Edit SignatureDescriptor α :=
  Edit.within SignatureDescriptor.crc
    (fun descriptor crc => { descriptor with crc := crc }) call

/-- Refresh the checksum. -/
def updateCrc : Edit SignatureDescriptor Unit := do
  let crc ← Edit.ask computedCrc
  onCrc (Edit.change (·.setWord crc 0))

/-- Refresh the chain table and the checksum. -/
def update : Edit SignatureDescriptor Unit := do
  onTable ChainTable.update
  updateCrc

/-- Store the digest of the signed header and refresh the checksum. -/
def setBlock0Hash (hash : Bytes) : Edit SignatureDescriptor Unit := do
  onHeader (Edit.change (·.setRaw hash block0HashOffset))
  updateCrc

/-- Store a valid chain in the first slot without entries, answering the slot. -/
def addChain (chain : SignatureChain) : Edit SignatureDescriptor Nat := do
  let slot ← onTable (Edit.exchange (·.add chain))
  updateCrc
  return slot

/-- A descriptor with empty chains and a digest of zeros. -/
def create (format : ChainFormat) : Except Failure SignatureDescriptor := do
  let table ← ChainTable.create format tableSize
  (do
    onHeader do
      Buffer.reset headerSize
      Edit.change (·.setWord format.value formatOffset)
      Edit.change (·.setWord (UInt32.ofNat Size.signatureDescriptor) lengthOffset)
    onCrc (Buffer.reset crcSize)
    update : Edit SignatureDescriptor Unit).result { empty with table := table }

/-- Check the size, the header, the chain table and the checksum. -/
def validate (descriptor : SignatureDescriptor) : Except Failure Unit := do
  require (Composite.size descriptor = Size.signatureDescriptor)
    (.lengthMismatch .signatureDescriptor Size.signatureDescriptor (Composite.size descriptor))
  descriptor.header.validate
  let format ← descriptor.format
  require (format = descriptor.table.format)
    (.invalidField (.announcedChains format descriptor.table.format))
  let length ← descriptor.header.getWord lengthOffset
  require (length.toNat = Size.signatureDescriptor)
    (.lengthMismatch .signatureDescriptorLength Size.signatureDescriptor length.toNat)
  let reserved ← descriptor.header.getWord reservedOffset
  require (reserved = 0) (.reservedFieldNonzero reservedOffset reserved)
  descriptor.table.validate
  let expected ← descriptor.computedCrc
  let actual ← descriptor.storedCrc
  require (expected = actual) (.crcMismatch crcOffset expected actual)

/-- Check that the stored digest is the given digest of a signed header. -/
def checkLink (descriptor : SignatureDescriptor) (header : LinkedHeader) (expected : Bytes) :
    Except Failure Unit := do
  let stored ← descriptor.block0Hash
  require (stored = expected) (.hashChainMismatch (.block0Hash header stored expected))

/-- Check that the header was read completely. -/
def checkHeaderComplete (descriptor : SignatureDescriptor) : Except Failure Unit :=
  require (descriptor.header.isComplete = true)
    (.lengthMismatch .signatureDescriptorHeader headerSize descriptor.header.size)

/-- Read the header, the chain table in the layout it announces, and the checksum. -/
def read : Edit (SignatureDescriptor × Stream) Nat := do
  let header ← Edit.readPart SignatureDescriptor.header
    (fun descriptor header => { descriptor with header := header })
  Edit.onObject (Edit.ask checkHeaderComplete)
  let format ← Edit.onObject (Edit.ask format)
  Edit.onObject (modify fun descriptor =>
    { descriptor with table := ChainTable.expecting format tableSize })
  let table ← Edit.readPart SignatureDescriptor.table
    (fun descriptor table => { descriptor with table := table })
  let crc ← Edit.readPart SignatureDescriptor.crc
    (fun descriptor crc => { descriptor with crc := crc })
  Edit.onObject (Edit.ask validate)
  return header + table + crc

instance : Fragment SignatureDescriptor where
  size := Composite.size
  maxSize _ := some Size.signatureDescriptor
  toBytes := Composite.toBytes
  readBytes := Composite.readBytes
  writeBytes := Composite.writeBytes
  validate := validate
  read := read
  update := update

instance : Describe SignatureDescriptor where
  describe descriptor :=
    " SignatureDescriptor [Size=" ++ toString (Composite.size descriptor) ++ "]\n" ++
      (match descriptor.block0Hash with
        | .ok hash => "  Block0 Hash: 0x" ++ Text.Hex.encode hash ++ "\n"
        | .error _ => "") ++
      describe descriptor.table

end SignatureDescriptor
end SecureBoot
