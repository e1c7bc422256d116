import SecureBoot.Buffer
import SecureBoot.Failure.Message
import SecureBoot.Text.Utf8

/-!
The 4 KiB header of a configuration memory file: its format and digest, identification of the
device, a description block at 0x400 that counts the sections to come, and two checksums, the
inner one over the part the boot code reads and the outer one over everything before its end.
-/

namespace SecureBoot

/-- The bytes of a configuration header. -/
structure ConfigurationHeader where
  buffer : Buffer
  deriving DecidableEq, Repr

namespace ConfigurationHeader

def formatOffset : Nat := 0x4

def headerLengthOffset : Nat := 0x8

def flagsOffset : Nat := 0xC

def toolInformationOffset : Nat := 0x80

def toolInformationSize : Nat := 0x40

def oscillatorOffset : Nat := 0x94

def digestOffset : Nat := 0x13C

def jtagIdOffset : Nat := 0x180

def jtagMaskOffset : Nat := 0x184

def innerCrcOffset : Nat := 0x3B4

def descriptionOffset : Nat := 0x400

def releaseOffset : Nat := 0x404

def sectionsRemainingOffset : Nat := 0x408

def sectionTypeOffset : Nat := 0x40C

def versionOffset : Nat := 0x420

def buildNumberOffset : Nat := 0x42C

def physicalJtagOffset : Nat := 0x434

def processorFlagsOffset : Nat := 0x499

def configurationTypeOffset : Nat := 0x49B

def buildLabelOffset : Nat := 0xFE0

def buildLabelSize : Nat := 28

def outerCrcOffset : Nat := 0xFFC

/-- The length word of the part that the boot code reads. -/
def bootHeaderLength : UInt32 := 0x400

/-- The bit that marks a release. -/
def releaseFlag : UInt32 := 0x80000000

/-- Register the magic numbers and checksums of a configuration header. -/
def layout (buffer : Buffer) : Buffer :=
  ((((buffer.withMagic Magic.cmfDescriptor 0).withMagic Magic.sectionDescriptor
    descriptionOffset).withCrc outerCrcOffset).withCrc innerCrcOffset).withDescription
    "CMF descriptor"

/-- An empty header, to be read or initialized. -/
def empty : ConfigurationHeader :=
  ⟨layout (Buffer.empty (some Size.header))⟩

/-- The header that bytes serialize, unchecked but for their number. -/
def ofBytes (bytes : Bytes) : Except Failure ConfigurationHeader := do
  return ⟨layout (← Buffer.create bytes (some Size.header))⟩

def size (header : ConfigurationHeader) : Nat :=
  header.buffer.size

/-- The stored format. -/
def format (header : ConfigurationHeader) : Except Failure DescriptorFormat := do
  return .ofValue (← header.buffer.getWord formatOffset)

/-- The stored digest. -/
def digest (header : ConfigurationHeader) : Except Failure ShaType := do
  return .ofMagic (← header.buffer.getWord digestOffset)

/-- The block that tools may use. -/
def toolInformation (header : ConfigurationHeader) : Except Failure Bytes :=
  header.buffer.getRaw toolInformationOffset toolInformationSize

def buildNumber (header : ConfigurationHeader) : Except Failure UInt32 :=
  header.buffer.getWord buildNumberOffset

/-- The packed version: major, minor, update and patch from the top byte down. -/
def version (header : ConfigurationHeader) : Except Failure UInt32 :=
  header.buffer.getWord versionOffset

/-- The version as text; an update or patch of zero is left out. -/
def versionText (header : ConfigurationHeader) : Except Failure String := do
  let version := (← header.version).toNat
  let build := (← header.buildNumber).toNat
  let update := version / 0x100 % 256
  let patch := version % 256
  return toString (version / 0x1000000) ++ "." ++ toString (version / 0x10000 % 256) ++
    (if update = 0 then "" else "." ++ toString update) ++ " b" ++ toString build ++
    (if patch = 0 then "" else " p" ++ toString patch)

/-- The build label up to its first zero byte. -/
def buildLabel (header : ConfigurationHeader) : Except Failure String := do
  let bytes ← header.buffer.getRaw buildLabelOffset buildLabelSize
  return String.ofList (Text.chars (bytes.takeWhile (· != 0)))

def physicalJtag (header : ConfigurationHeader) : Except Failure String := do
  return "0x" ++ Text.upperHex 7 ' ' (← header.buffer.getWord physicalJtagOffset).toNat

/-- The lowest hexadecimal digits of a number, the highest of them first. -/
def lowNibbles : Nat → Nat → List Nat
  | 0, _ => []
  | count + 1, number => lowNibbles count (number / 16) ++ [number % 16]

/-- A nibble of the device id under a nibble of its mask: hidden ones show only whether they are
zero. -/
def maskedNibble (mask id : Nat) : Char :=
  if mask = 0 then (if id = 0 then 'X' else '&') else (Nat.digitChar id).toUpper

/-- The device id with its mask; an SDM-lite header may hold the id without its fixed bits. -/
def jtagId (header : ConfigurationHeader) : Except Failure String := do
  let id ← header.buffer.getWord jtagIdOffset
  let mask ← header.buffer.getWord jtagMaskOffset
  let format ← header.format
  let note :=
    if format = .sdmLite then
      if id &&& 0x0FF00FFF = 0x032000DD then "(raw)" else "(cooked)"
    else ""
  let nibbles := (lowNibbles 8 mask.toNat).zip (lowNibbles 8 id.toNat)
  let partly := nibbles.any fun (mask, _) => mask != 0 && mask != 15
  return String.ofList (nibbles.map fun (mask, id) => maskedNibble mask id) ++
    (if partly then "/" ++ Text.upperHex 8 '0' mask.toNat else "") ++ note

/-- The source of the oscillator clock. -/
def oscillator (header : ConfigurationHeader) : Except Failure String := do
  let value := (← header.buffer.getWord oscillatorOffset).toNat
  let frequency := value % 0x10000000
  return if 0x80000000 ≤ value then "Internal Oscillator"
    else if frequency = 0 then "Disabled"
    else toString frequency ++ "Hz"

/-- The byte stored at an offset. -/
def byteAt (header : ConfigurationHeader) (offset : Nat) : Except Failure Nat := do
  return Bytes.value (← header.buffer.getRaw offset 1)

/-- Where the device is configured from. -/
def configurationType (header : ConfigurationHeader) : Except Failure String := do
  return match ← header.byteAt configurationTypeOffset with
    | 0 => "other"
    | 8 => "AVSTx32"
    | 9 => "QSPI"
    | 10 => "NAND"
    | 12 => "SDMMC"
    | 13 => "AVSTx16"
    | 14 => "AVSTx8"
    | _ => "unknown"

/-- How the processor's debug port is connected. -/
def processorFlags (header : ConfigurationHeader) : Except Failure String := do
  return match (← header.byteAt processorFlagsOffset) % 4 with
    | 3 => "HPS-JTAG: Illegal Setting"
    | 1 => "HPS-JTAG & SDM-JTAG: Same Chain"
    | 2 => "HPS-JTAG & SDM-JTAG: Separate"
    | _ => "HPS-JTAG: Disabled"

def isRelease (header : ConfigurationHeader) : Except Failure Bool := do
  return (← header.buffer.getWord releaseOffset) &&& releaseFlag ≠ 0

/-- The number of sections that follow in the same file. -/
def sectionsRemaining (header : ConfigurationHeader) : Except Failure UInt32 :=
  header.buffer.getWord sectionsRemainingOffset

def setSectionsRemaining (header : ConfigurationHeader) (count : UInt32) :
    Except Failure ConfigurationHeader := do
  return ⟨← header.buffer.setWord count sectionsRemainingOffset⟩

/-- Check that a word holds one of the accepted values. -/
def checkWord (header : ConfigurationHeader) (word : HeaderWord) (offset : Nat)
    (accepted : List UInt32) : Except Failure Unit := do
  let value ← header.buffer.getWord offset
  require (value ∈ accepted) (.invalidField (.headerWord word offset value))

/-- Check size, magic numbers, checksums, format, digest and the words with fixed values. -/
def validate (header : ConfigurationHeader) : Except Failure Unit := do
  require (header.size = Size.header)
    (.lengthMismatch .cmfDescriptor Size.header header.size)
  header.buffer.validate
  let format ← header.format
  let digest ← header.digest
  match format.requiredSha? with
  | none => .error (.invalidField (.headerFormat format.value))
  | some required =>
    require (digest = required) (.invalidField (.headerDigest digest format))
    header.checkWord .headerLength headerLengthOffset [bootHeaderLength]
    header.checkWord .flags flagsOffset [0]
    header.checkWord .publicVersion releaseOffset [0, releaseFlag]
    header.checkWord .sectionType sectionTypeOffset [Magic.cmfSection]

/-- Check the header and that tools have left nothing in it. -/
def validateForSigning (header : ConfigurationHeader) : Except Failure Unit := do
  header.validate
  require (Bytes.allZero (← header.toolInformation) = true) (.invalidField .toolInformationSet)

instance : Buffered ConfigurationHeader where
  buffer := ConfigurationHeader.buffer
  withBuffer _ buffer := ⟨buffer⟩
  check := validate

instance : Fragment ConfigurationHeader :=
  Buffered.fragment

/-- Reset to a zeroed SDM-full header with valid magic numbers and checksums. -/
def reset : Edit ConfigurationHeader Unit := Buffered.onBuffer do
  Buffer.reset Size.header
  Edit.change (·.setWord DescriptorFormat.sdmFull.value formatOffset)
  Edit.change (·.setWord Magic.sha512 digestOffset)
  Edit.change (·.setWord bootHeaderLength headerLengthOffset)
  Edit.change (·.setWord Magic.cmfSection sectionTypeOffset)
  Buffer.updateCrc

/-- Store a format and the digest it requires; the checksums are stale afterwards. -/
def setFormat (format : DescriptorFormat) : Edit ConfigurationHeader Unit := Buffered.onBuffer do
  Edit.change (·.setWord format.value formatOffset)
  match format.requiredSha? with
  | some digest => Edit.change (·.setWord digest.magic digestOffset)
  | none => pure ()

/-- An answer as text, a failure by its message in angle brackets. -/
def showAnswer (answer : Except Failure String) : String :=
  match answer with
  | .ok text => text
  | .error failure => "<" ++ failure.message ++ ">"

instance : Describe ConfigurationHeader where
  describe header :=
    " CmfDescriptor [Size=" ++ toString header.size ++ "]\n" ++
      if header.size ≠ Size.header then ""
      else
        let line (label : String) (answer : Except Failure String) :=
          "  " ++ label ++ ": " ++ showAnswer answer ++ "\n"
        "  [Size: " ++ toString (header.size / 1024) ++ " KBytes]\n" ++
        line "Format" (header.format.map DescriptorFormat.name) ++
        line "SHA Type" (header.digest.map ShaType.name) ++
        line "Version" header.versionText ++
        line "Build Label" header.buildLabel ++
        line "Jtag Physical ID" header.physicalJtag ++
        line "Jtag ID/Mask" header.jtagId ++
        line "OSC Clock" header.oscillator ++
        line "HPS Flags" header.processorFlags ++
        line "Configuration Type" header.configurationType ++
        line "Release" (header.isRelease.map toString)

end ConfigurationHeader
end SecureBoot
