import SecureBoot.Buffer

/-!
The 4 KiB header of a section that is no configuration: its type, the number of sections that
follow it, the length of its payload and a checksum.
-/

namespace SecureBoot

/-- The bytes of a section header. -/
structure SectionHeader where
  buffer : Buffer
  deriving DecidableEq, Repr

namespace SectionHeader

def versionOffset : Nat := 0x4

def sectionsRemainingOffset : Nat := 0x8

def sectionTypeOffset : Nat := 0xC

def sectionLengthOffset : Nat := 0x10

def crcOffset : Nat := 0xFFC

/-- An empty header, to be read or initialized. -/
def empty : SectionHeader :=
  ⟨(((Buffer.empty (some Size.header)).withMagic Magic.sectionDescriptor 0).withCrc
    crcOffset).withDescription "section descriptor"⟩

def size (header : SectionHeader) : Nat :=
  header.buffer.size

def version (header : SectionHeader) : Except Failure UInt32 :=
  header.buffer.getWord versionOffset

/-- The number of sections that still follow. -/
def sectionsRemaining (header : SectionHeader) : Except Failure UInt32 :=
  header.buffer.getWord sectionsRemainingOffset

def setSectionsRemaining (header : SectionHeader) (count : UInt32) :
    Except Failure SectionHeader := do
  return ⟨← header.buffer.setWord count sectionsRemainingOffset⟩

def sectionType (header : SectionHeader) : Except Failure UInt32 :=
  header.buffer.getWord sectionTypeOffset

/-- The length of the payload. -/
def sectionLength (header : SectionHeader) : Except Failure UInt32 :=
  header.buffer.getWord sectionLengthOffset

def setSectionLength (header : SectionHeader) (length : UInt32) :
    Except Failure SectionHeader := do
  return ⟨← header.buffer.setWord length sectionLengthOffset⟩

/-- Check size, magic number and checksum. -/
def validate (header : SectionHeader) : Except Failure Unit := do
  require (header.size = Size.header)
    (.lengthMismatch .sectionDescriptor Size.header header.size)
  header.buffer.validate

instance : Buffered SectionHeader where
  buffer := SectionHeader.buffer
  withBuffer _ buffer := ⟨buffer⟩
  check := validate

instance : Fragment SectionHeader :=
  Buffered.fragment

/-- Reset to a zeroed header of the given section type. -/
def reset (sectionType : UInt32) : Edit SectionHeader Unit := Buffered.onBuffer do
  Buffer.reset Size.header
  Edit.change (·.setWord sectionType sectionTypeOffset)
  Buffer.updateCrc

/-- The characters of a section type up to its first zero byte, a dot for each unprintable one. -/
def typeName (sectionType : UInt32) : String :=
  String.ofList (((Bytes.ofWord sectionType).takeWhile (· != 0)).map fun byte =>
    if 0x21 ≤ byte.toNat ∧ byte.toNat ≤ 0x7E then Char.ofNat byte.toNat else '.')

instance : Describe SectionHeader where
  describe header :=
    " SectionDescriptor [Size=" ++ toString header.size ++ "]\n" ++
      match header.sectionType, header.sectionLength with
      | .ok sectionType, .ok length =>
        "  Section Type: " ++ Text.hex sectionType.toNat ++ " (" ++ typeName sectionType ++
          ")\n  Section Length: " ++ toString length.toNat ++ "\n"
      | _, _ => ""

end SectionHeader
end SecureBoot
