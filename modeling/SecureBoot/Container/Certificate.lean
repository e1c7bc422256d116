import SecureBoot.Chain.Descriptor
import SecureBoot.Header.Certificate

/-!
Engineering certificates: a certificate header that names a device, and the signature descriptor
that signs it, 8 KiB together.
-/

namespace SecureBoot

/-- A certificate header and its signatures. -/
structure Certificate where
  header : CertificateHeader
  signatures : SignatureDescriptor
  deriving DecidableEq, Repr

namespace Certificate

/-- A certificate to be read. -/
def empty : Certificate :=
  ⟨CertificateHeader.empty, SignatureDescriptor.empty⟩

instance : Composite Certificate where
  parts certificate :=
    [Part.of certificate.header fun header => { certificate with header := header },
      Part.of certificate.signatures fun signatures =>
        { certificate with signatures := signatures }]

/-- Carry out a call on the signature descriptor. -/
def onSignatures {α : Type} (call : Edit SignatureDescriptor α) : Edit Certificate α :=
  Edit.within Certificate.signatures
    (fun certificate signatures => { certificate with signatures := signatures }) call

/-- Refresh the checksums and the digest of the header. -/
def update : Edit Certificate Unit := do
  Edit.within Certificate.header (fun certificate header => { certificate with header := header })
    Fragment.update
  onSignatures SignatureDescriptor.update
  onSignatures (SignatureDescriptor.setBlock0Hash (Fragment.sha384 (← get).header))

/-- The unsigned certificate of a device, given three hexadecimal numbers. -/
def create (uid hmac keyHash : String) : Except Failure Certificate := do
  let header ← (CertificateHeader.reset uid hmac keyHash).result CertificateHeader.empty
  update.result ⟨header, ← SignatureDescriptor.create .classic⟩

/-- Store a chain in the first slot without entries, answering the slot, and refresh the
certificate. -/
def addChain (chain : SignatureChain) : Edit Certificate Nat := do
  let slot ← onSignatures (SignatureDescriptor.addChain chain)
  update
  return slot

/-- Check the size, both parts and the digest of the header. -/
def validate (certificate : Certificate) : Except Failure Unit := do
  require (Composite.size certificate = Size.certificate)
    (.lengthMismatch .certificate Size.certificate (Composite.size certificate))
  Composite.validateParts certificate
  certificate.signatures.checkLink .certificateHeader (Fragment.sha384 certificate.header)

/-- Read the header and the signature descriptor. -/
def read : Edit (Certificate × Stream) Nat := do
  let header ← Edit.readPart Certificate.header
    (fun certificate header => { certificate with header := header })
  Edit.ask fun _ => require (header = Size.header)
    (.lengthMismatch .certificateHeader Size.header header)
  let signatures ← Edit.readPart Certificate.signatures
    (fun certificate signatures => { certificate with signatures := signatures })
  Edit.onObject (Edit.ask validate)
  return header + signatures

instance : Fragment Certificate where
  size := Composite.size
  maxSize _ := some Size.certificate
  toBytes := Composite.toBytes
  readBytes := Composite.readBytes
  writeBytes := Composite.writeBytes
  validate := validate
  read := read
  update := update

instance : Describe Certificate where
  describe certificate :=
    " EngineeringCert [Size=" ++ toString (Composite.size certificate) ++ "]\n" ++
      describe certificate.header ++ describe certificate.signatures

end Certificate
end SecureBoot
