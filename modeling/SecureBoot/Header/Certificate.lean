import SecureBoot.Header.Section
import SecureBoot.Text.HexNumber

/-!
The 4 KiB header of an engineering certificate: a section header of type `CRT` whose body names
the device the certificate unlocks, by its unique id, an authentication code and the hash of a
public key, all stored little-endian.
-/

namespace SecureBoot

/-- The bytes of a certificate header. -/
structure CertificateHeader where
  buffer : Buffer
  deriving DecidableEq, Repr

namespace CertificateHeader

def magicOffset : Nat := 0x10

def uidOffset : Nat := 0x20

def uidSize : Nat := 8

def hmacOffset : Nat := 0x30

def hmacSize : Nat := 48

def keyHashOffset : Nat := 0x60

def keyHashSize : Nat := 48

/-- An empty header, to be read or initialized. -/
def empty : CertificateHeader :=
  ⟨((((Buffer.empty (some Size.header)).withMagic Magic.sectionDescriptor 0).withMagic
    Magic.engineeringCertificate magicOffset).withCrc SectionHeader.crcOffset).withDescription
    "engineering certificate header"⟩

def size (header : CertificateHeader) : Nat :=
  header.buffer.size

/-- The unique id of the device. -/
def uid (header : CertificateHeader) : Except Failure Bytes :=
  header.buffer.getRaw uidOffset uidSize

/-- The authentication code. -/
def hmac (header : CertificateHeader) : Except Failure Bytes :=
  header.buffer.getRaw hmacOffset hmacSize

/-- The hash of the public key. -/
def keyHash (header : CertificateHeader) : Except Failure Bytes :=
  header.buffer.getRaw keyHashOffset keyHashSize

/-- Check size, magic numbers, checksum and section type. -/
def validate (header : CertificateHeader) : Except Failure Unit := do
  require (header.size = Size.header)
    (.lengthMismatch .certificateHeader Size.header header.size)
  header.buffer.validate
  let sectionType ← header.buffer.getWord SectionHeader.sectionTypeOffset
  require (sectionType = Magic.certificateSection)
    (.invalidField (.certificateSectionType sectionType))

instance : Buffered CertificateHeader where
  buffer := CertificateHeader.buffer
  withBuffer _ buffer := ⟨buffer⟩
  check := validate

instance : Fragment CertificateHeader :=
  Buffered.fragment

/-- Reset to a header with the given hexadecimal numbers, each zero-extended to its field. -/
def reset (uid hmac keyHash : String) : Edit CertificateHeader Unit := do
  let uid ← Edit.ask fun _ => Text.HexNumber.toField uid uidSize .little
  let hmac ← Edit.ask fun _ => Text.HexNumber.toField hmac hmacSize .little
  let keyHash ← Edit.ask fun _ => Text.HexNumber.toField keyHash keyHashSize .little
  Buffered.onBuffer do
    Buffer.reset Size.header
    Edit.change (·.setWord Magic.certificateSection SectionHeader.sectionTypeOffset)
    Edit.change (·.setRaw uid uidOffset)
    Edit.change (·.setRaw hmac hmacOffset)
    Edit.change (·.setRaw keyHash keyHashOffset)
    Buffer.updateCrc

instance : Describe CertificateHeader where
  describe header :=
    " EngineeringCertHeader [Size=" ++ toString header.size ++ "]\n" ++
      match header.uid, header.hmac, header.keyHash with
      | .ok uid, .ok hmac, .ok keyHash =>
        "  UID: " ++ Text.HexNumber.ofField uid .little ++
          "\n  HMAC: " ++ Text.HexNumber.ofField hmac .little ++
          "\n  Public Key Hash: " ++ Text.HexNumber.ofField keyHash .little ++ "\n"
      | _, _, _ => ""

end CertificateHeader
end SecureBoot
