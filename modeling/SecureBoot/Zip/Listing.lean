import SecureBoot.Edit
import SecureBoot.Text.CodePage
import SecureBoot.Zip.Entry

/-!
What the directory of a container says of a member. Behind its name an entry may have extra fields,
each with a kind, a size and a body, which correct what stands before them: sizes and offsets that
need eight bytes, a name or a comment in UTF-8, and the method below a cipher. Extra fields that end
too early are left there; one that contradicts itself makes the directory unreadable.
-/

namespace SecureBoot.Zip

/-- What the directory says of a member. -/
structure Listing where
  name : String
  storedName : Bytes
  comment : String
  flags : Nat
  method : Nat
  crc : UInt32
  packedSize : Nat
  size : Nat
  offset : Nat
  ciphered : Bool
  deriving DecidableEq, Repr

/-- A listing that is being corrected, and the extra fields still to be read. -/
structure Correction where
  listing : Listing
  rest : Bytes
  deriving DecidableEq, Repr

namespace Correction

/-- The next `size` bytes. Having too few of them is a failure of input. -/
def take (size : Nat) : Edit Correction Bytes := fun correction =>
  if size ≤ correction.rest.length then
    .ok (correction.rest.take size) { correction with rest := correction.rest.drop size }
  else .error .inputOutput correction

/-- The number in the next `size` bytes. -/
def number (size : Nat) : Edit Correction Nat :=
  Bytes.value <$> take size

/-- Insist on a condition that the directory is unreadable without. -/
def insist (condition : Prop) [Decidable condition] : Edit Correction Unit :=
  Edit.ask fun _ => require condition .container

/-- Correct the listing. -/
def revise (change : Listing → Listing) : Edit Correction Unit :=
  modify fun correction => { correction with listing := change correction.listing }

/-- Read a number of eight bytes if it is there for sure or the listing asks for it; answer how many
bytes it took. -/
def widen (sure : Bool) (view : Listing → Nat) (put : Nat → Listing → Listing) :
    Edit Correction Nat := do
  if sure || view (← get).listing = largeMark then
    let value ← number 8
    revise (put value)
    return 8
  else return 0

/-- Read sizes and offset of eight bytes. A field of at least three such numbers has all of them. -/
def readLarge (size : Nat) : Edit Correction Unit := do
  let sure := 24 ≤ size
  let first ← widen sure Listing.size fun value listing => { listing with size := value }
  let second ← widen sure Listing.packedSize fun value listing =>
    { listing with packedSize := value }
  let third ← widen sure Listing.offset fun value listing => { listing with offset := value }
  insist (first + second + third ≤ size)
  let _ ← take (size - (first + second + third))

/-- Read the three times of one file system, which are of no further use. -/
def readFileTimes (size : Nat) : Edit Correction Unit := do
  insist (size = 32)
  let _ ← take 4
  insist ((← number 2) = 1)
  insist ((← number 2) = 24)
  let _ ← take 24

/-- Read what a cipher hides: who made it, how strong it is, and the method below it. -/
def readCipher (size : Nat) : Edit Correction Unit := do
  insist (size = 7)
  let version ← number 2
  let vendor ← number 2
  let strength ← number 1
  let method ← number 2
  insist (vendor = 0x4541)
  insist (version = 1 ∨ version = 2)
  insist (strength = 1 ∨ strength = 2 ∨ strength = 3)
  revise fun listing => { listing with ciphered := true, method := method }

/-- Read the times that flags announce, which are of no further use. A field of five bytes has the
first of them, whatever its flags say. -/
def readTimes (size : Nat) : Edit Correction Unit := do
  let flags ← number 1
  let announced := ((List.range 8).filter flags.testBit).length
  insist (size = 5 ∨ size = 1 + 4 * announced)
  insist (flags < 8)
  let _ ← take (size - 1)

/-- Read a text that stands for another one, which is known by its checksum. -/
def readText (size : Nat) (replaced : Listing → Bytes) : Edit Correction (Bytes × List Char) := do
  let _ ← take 1
  let known ← number 4
  insist (5 ≤ size)
  let bytes ← take (size - 5)
  insist (known = (checksum (replaced (← get).listing)).toNat)
  match Text.chars? bytes with
  | some text => return (bytes, text)
  | none => throw .container

/-- Read the next extra field. -/
def readField : Edit Correction Unit := do
  let kind ← number 2
  let size ← number 2
  match kind with
  | 0x0001 => readLarge size
  | 0x000A => readFileTimes size
  | 0x9901 => readCipher size
  | 0x5455 => readTimes size
  | 0x6375 =>
    let (_, text) ← readText size fun listing => Text.utf8 listing.comment.toList
    revise fun listing => { listing with comment := String.ofList text }
  | 0x7075 =>
    let (bytes, text) ← readText size Listing.storedName
    revise fun listing => { listing with name := String.ofList text, storedName := bytes }
  | _ => let _ ← take size

/-- Read extra fields until none is left. The first argument bounds their number. -/
def readFields : Nat → Edit Correction Unit
  | 0 => pure ()
  | count + 1 => do
    if (← get).rest.isEmpty then return
    readField
    readFields count

end Correction

namespace Listing

/-- The method that means a cipher. -/
def cipherMethod : Nat := 99

/-- The listing that extra fields correct. -/
def corrected? (listing : Listing) (extra : Bytes) : Option Listing := do
  let listing ← match Correction.readFields extra.length ⟨listing, extra⟩ with
    | .ok _ correction | .error .inputOutput correction => some correction.listing
    | .error _ _ => none
  if listing.method = cipherMethod ∧ !listing.ciphered then none else some listing

/-- The text in bytes: UTF-8 if the flags say so, else in the code page. -/
def text (flags : Nat) (bytes : Bytes) : String :=
  String.ofList (if flags.testBit 11 then Text.chars bytes else Text.CodePage.chars bytes)

/-- Read the directory entry at an offset; answer the offset behind it, too. -/
def at? (source : Array UInt8) (offset : Nat) : Option (Listing × Nat) := do
  if !Record.directoryEntry.isAt source offset then none
  let flags ← number? source (offset + 8) 2
  let method ← number? source (offset + 10) 2
  let crc ← number? source (offset + 16) 4
  let packedSize ← number? source (offset + 20) 4
  let size ← number? source (offset + 24) 4
  let nameSize ← number? source (offset + 28) 2
  let extraSize ← number? source (offset + 30) 2
  let commentSize ← number? source (offset + 32) 2
  let record ← number? source (offset + 42) 4
  let nameOffset := offset + Record.directoryEntry.size
  let name ← bytes? source nameOffset nameSize
  let extra ← bytes? source (nameOffset + nameSize) extraSize
  let comment ← bytes? source (nameOffset + nameSize + extraSize) commentSize
  let listing ← corrected? ⟨text flags name, name, text flags comment, flags, method,
    UInt32.ofNat crc, packedSize, size, record, false⟩ extra
  return (listing, nameOffset + nameSize + extraSize + commentSize)

end Listing
end SecureBoot.Zip
