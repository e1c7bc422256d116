/-!
The magic numbers of the image format, each stored as a 32-bit little-endian word, and the fixed
sizes of its structures in bytes.
-/

namespace SecureBoot

namespace Magic

/-- Leads the header of a configuration memory file. -/
def cmfDescriptor : UInt32 := 0x62294895

/-- Leads every other section, and the description block inside a configuration header. -/
def sectionDescriptor : UInt32 := 0x97566593

/-- The section type `CMF`. -/
def cmfSection : UInt32 := 0x00464D43

/-- The section type `CRT` of engineering certificates. -/
def certificateSection : UInt32 := 0x00545243

/-- Leads the body of an engineering certificate. -/
def engineeringCertificate : UInt32 := 0x31F4E4C9

/-- Leads a signature descriptor. -/
def signatureDescriptor : UInt32 := 0x52B2C55D

/-- Leads a root entry with one key. -/
def rootEntry : UInt32 := 0x71050792

/-- Leads a root entry with up to three keys. -/
def multiRootEntry : UInt32 := 0x35336850

/-- Leads a public key entry. -/
def publicKeyEntry : UInt32 := 0x92540917

/-- Leads the entry that closes a chain. -/
def block0Entry : UInt32 := 0x15364367

/-- Leads a public key in the single-root layout. -/
def singleRootKey : UInt32 := 0x40656643

/-- Leads a public key in the multi-root layout. -/
def multiRootKey : UInt32 := 0x58700660

/-- Leads an ECDSA signature. -/
def signature : UInt32 := 0x74881520

/-- Names the curve secp256r1. -/
def secp256r1 : UInt32 := 0xC7B88C74

/-- Names the curve secp384r1. -/
def secp384r1 : UInt32 := 0x08F07B47

/-- Names the digest SHA-384. -/
def sha384 : UInt32 := 0x49303819

/-- Names the digest SHA-512. -/
def sha512 : UInt32 := 0x2E9D3A27

end Magic

namespace Size

/-- A header: configuration, section or certificate. -/
def header : Nat := 4096

/-- A signature descriptor. -/
def signatureDescriptor : Nat := 4096

/-- An engineering certificate: its header and its signature descriptor. -/
def certificate : Nat := header + signatureDescriptor

/-- The header of a chain entry. -/
def entryHeader : Nat := 0x18

/-- The block before the keys of a root entry: a key hash word and a reserved word. -/
def rootReserved : Nat := 8

/-- The largest public key. -/
def publicKeyLimit : Nat := 120

/-- The part of a public key before its coordinates. -/
def publicKeyHeader : Nat := 0x18

/-- The part of an ECDSA signature before `r` and `s`. -/
def signatureHeader : Nat := 0x10

/-- An ECDSA signature over the curve secp384r1. -/
def signature : Nat := signatureHeader + 2 * 48

/-- The header of a chain table. -/
def chainTableHeader : Nat := 32

end Size

/-- The most keys a multi-root entry holds. -/
def multiRootKeyLimit : Nat := 3

/-- The value of a permission, cancel id or contribution word that is not set. -/
def unsetWord : UInt32 := 0xFFFFFFFF

end SecureBoot
