import SecureBoot.Chain.Descriptor
import SecureBoot.Header.Section

/-!
Sections: what may follow a configuration in the same file. A section is a section header, the
signature descriptor that signs it, and a payload of the length that the header announces.
-/

namespace SecureBoot

/-- A section header, its signatures and its payload. -/
structure Section where
  header : SectionHeader
  signatures : SignatureDescriptor
  payload : Buffer
  deriving DecidableEq, Repr

namespace Section

/-- A section to be read. -/
def empty : Section :=
  ⟨SectionHeader.empty, SignatureDescriptor.empty, Buffer.empty none⟩

instance : Composite Section where
  parts sect :=
    [Part.of sect.header fun header => { sect with header := header },
      Part.of sect.signatures fun signatures => { sect with signatures := signatures },
      Part.of sect.payload fun payload => { sect with payload := payload }]

/-- The number of sections that still follow. -/
def sectionsRemaining (sect : Section) : Except Failure UInt32 :=
  sect.header.sectionsRemaining

/-- Carry out a call on the header. -/
def onHeader {α : Type} (call : Edit SectionHeader α) : Edit Section α :=
  Edit.within Section.header (fun sect header => { sect with header := header }) call

/-- Carry out a call on the signature descriptor. -/
def onSignatures {α : Type} (call : Edit SignatureDescriptor α) : Edit Section α :=
  Edit.within Section.signatures (fun sect signatures => { sect with signatures := signatures })
    call

/-- Refresh the section length, the checksums and the digest of the header. -/
def update : Edit Section Unit := do
  let length ← Edit.ask fun sect => Bytes.encodeLength sect.payload.size
  onHeader (Edit.change (·.setSectionLength length))
  onHeader Fragment.update
  onSignatures SignatureDescriptor.update
  onSignatures (SignatureDescriptor.setBlock0Hash (Fragment.sha384 (← get).header))

/-- An unsigned section of the given type and payload. -/
def create (sectionType : UInt32) (payload : Bytes) (format : ChainFormat) :
    Except Failure Section := do
  let header ← (SectionHeader.reset sectionType).result SectionHeader.empty
  let signatures ← SignatureDescriptor.create format
  update.result ⟨header, signatures, ← Buffer.create payload none⟩

/-- Store a chain in the first slot without entries, answering the slot, and refresh the section. -/
def addChain (chain : SignatureChain) : Edit Section Nat := do
  let slot ← onSignatures (SignatureDescriptor.addChain chain)
  update
  return slot

/-- Check every part, the digest of the header and the length of the payload. -/
def validate (sect : Section) : Except Failure Unit := do
  Composite.validateParts sect
  sect.signatures.checkLink .sectionDescriptor (Fragment.sha384 sect.header)
  let length ← sect.header.sectionLength
  require (length.toNat = sect.payload.size)
    (.lengthMismatch .sectionPayload length.toNat sect.payload.size)

/-- Read the header, the signature descriptor and as much payload as the header announces. -/
def read : Edit (Section × Stream) Nat := do
  let header ← Edit.readPart Section.header (fun sect header => { sect with header := header })
  Edit.ask fun _ => require (header = Size.header)
    (.lengthMismatch .sectionDescriptor Size.header header)
  let signatures ← Edit.readPart Section.signatures
    (fun sect signatures => { sect with signatures := signatures })
  let length ← Edit.onObject (Edit.ask (·.header.sectionLength))
  Edit.onObject (modify fun sect => { sect with payload := Buffer.empty (some length.toNat) })
  let payload ← Edit.readPart Section.payload
    (fun sect payload => { sect with payload := payload })
  Edit.onObject (Edit.ask validate)
  return header + signatures + payload

instance : Fragment Section where
  size := Composite.size
  maxSize _ := none
  toBytes := Composite.toBytes
  readBytes := Composite.readBytes
  writeBytes := Composite.writeBytes
  validate := validate
  read := read
  update := update

instance : Describe Section where
  describe sect :=
    " BitstreamSection [Size=" ++ toString (Composite.size sect) ++ "]\n" ++
      describe sect.header ++ describe sect.signatures ++
      "  Payload: " ++ toString sect.payload.size ++ " bytes\n"

end Section
end SecureBoot
