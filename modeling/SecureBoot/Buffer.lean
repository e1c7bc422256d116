import SecureBoot.Bytes.Crc
import SecureBoot.Bytes.Field
import SecureBoot.Fragment
import SecureBoot.Text.Numeral

/-!
The buffer every structure of an image is built on: bytes with an optional limit on their number,
the magic numbers that must stand at given offsets, and the addresses of checksum words, each of
which covers everything before it. Checksums are refreshed from the lowest address up, because an
outer one covers the words of the inner ones.
-/

namespace SecureBoot

/-- Bytes with the metadata they are checked against. -/
structure Buffer where
  bytes : Bytes
  limit : Option Nat
  magics : List (UInt32 × Nat)
  crcAddresses : List Nat
  description : Option String
  deriving DecidableEq, Repr

namespace Buffer

/-- An empty buffer with the given limit. -/
def empty (limit : Option Nat) : Buffer :=
  ⟨[], limit, [], [], none⟩

/-- A buffer with initial bytes, which the limit has to admit. -/
def create (bytes : Bytes) (limit : Option Nat) : Except Failure Buffer := do
  checkBound bytes.length limit
  return { empty limit with bytes := bytes }

/-- Register a magic number that must stand at an offset. -/
def withMagic (buffer : Buffer) (magic : UInt32) (offset : Nat) : Buffer :=
  { buffer with magics := buffer.magics ++ [(magic, offset)] }

/-- Register the address of a checksum word, once. -/
def withCrc (buffer : Buffer) (address : Nat) : Buffer :=
  if address ∈ buffer.crcAddresses then buffer
  else { buffer with crcAddresses := buffer.crcAddresses ++ [address] }

/-- Attach a description. -/
def withDescription (buffer : Buffer) (description : String) : Buffer :=
  { buffer with description := some description }

def size (buffer : Buffer) : Nat :=
  buffer.bytes.length

def isEmpty (buffer : Buffer) : Bool :=
  buffer.bytes.isEmpty

/-- Whether the buffer takes no more bytes from a stream. -/
def isComplete (buffer : Buffer) : Bool :=
  match buffer.limit with
  | none => true
  | some limit => limit ≤ buffer.size

/-- Fail when a range does not lie inside the bytes. -/
def checkRange (buffer : Buffer) (offset size : Nat) : Except Failure Unit :=
  require (offset + size ≤ buffer.size) (.outOfBounds offset size buffer.size)

/-- The bytes of a range. -/
def getRaw (buffer : Buffer) (offset size : Nat) : Except Failure Bytes := do
  buffer.checkRange offset size
  return Bytes.slice buffer.bytes offset size

/-- The buffer with bytes written over a range. -/
def setRaw (buffer : Buffer) (bytes : Bytes) (offset : Nat) : Except Failure Buffer := do
  buffer.checkRange offset bytes.length
  return { buffer with bytes := Bytes.splice buffer.bytes offset bytes }

/-- The integer stored in a range of at most eight bytes. -/
def getValue (buffer : Buffer) (offset size : Nat) (order : Endian) : Except Failure UInt64 := do
  Bytes.decodeInteger (← buffer.getRaw offset size) order

/-- The buffer with an integer stored in a range of one to eight bytes. -/
def setValue (buffer : Buffer) (value : UInt64) (offset size : Nat) (order : Endian) :
    Except Failure Buffer := do
  buffer.checkRange offset size
  buffer.setRaw (← Bytes.encodeInteger value size order) offset

/-- The word stored at an offset. -/
def getWord (buffer : Buffer) (offset : Nat) : Except Failure UInt32 := do
  return Bytes.toWord (← buffer.getRaw offset 4)

/-- The buffer with a word stored at an offset. -/
def setWord (buffer : Buffer) (word : UInt32) (offset : Nat) : Except Failure Buffer :=
  buffer.setRaw (Bytes.ofWord word) offset

/-- The buffer with bytes added at its end. -/
def append (buffer : Buffer) (bytes : Bytes) : Except Failure Buffer := do
  checkBound (buffer.size + bytes.length) buffer.limit
  return { buffer with bytes := buffer.bytes ++ bytes }

/-- The buffer with at least one zero byte added at its end. -/
def appendZeros (buffer : Buffer) (count : Nat) : Except Failure Buffer := do
  require (count ≠ 0) (.invariantViolation .emptyAppend)
  checkBound (buffer.size + count) buffer.limit
  return { buffer with bytes := buffer.bytes ++ Bytes.zeros count }

/-- The word at the offset of the first registered magic number. -/
def magicNumber (buffer : Buffer) : Except Failure UInt32 :=
  match buffer.magics with
  | [] => .error (.invariantViolation .noMagic)
  | (_, offset) :: _ => buffer.getWord offset

/-- Store each of the given magic numbers. -/
def storeMagics : List (UInt32 × Nat) → Edit Buffer Unit
  | [] => pure ()
  | (magic, offset) :: rest => do
    Edit.change (·.setWord magic offset)
    storeMagics rest

/-- Store every registered magic number. -/
def updateMagic : Edit Buffer Unit := do
  storeMagics (← get).magics

/-- Replace the contents by zeros and the registered magic numbers. -/
def reset (size : Nat) : Edit Buffer Unit := do
  Edit.ask fun buffer => checkBound size buffer.limit
  modify fun buffer => { buffer with bytes := Bytes.zeros size }
  updateMagic

/-- Check that each of the given magic numbers stands at its offset. -/
def checkMagics (buffer : Buffer) : List (UInt32 × Nat) → Except Failure Unit
  | [] => .ok ()
  | (expected, offset) :: rest => do
    let actual ← buffer.getWord offset
    require (actual = expected) (.invalidMagic offset expected actual)
    buffer.checkMagics rest

/-- Check every registered magic number. -/
def validateMagic (buffer : Buffer) : Except Failure Unit :=
  buffer.checkMagics buffer.magics

/-- The checksum stored at a registered address. -/
def storedCrc (buffer : Buffer) (address : Nat) : Except Failure UInt32 := do
  require (address ∈ buffer.crcAddresses) (.invalidCrcAddress address)
  buffer.getWord address

/-- The checksum of everything before a registered address. -/
def computedCrc (buffer : Buffer) (address : Nat) : Except Failure UInt32 := do
  require (address ∈ buffer.crcAddresses) (.invalidCrcAddress address)
  return Bytes.crc32 (← buffer.getRaw 0 address)

/-- Compute and store the checksum at each of the given addresses in turn. -/
def storeCrcs : List Nat → Edit Buffer Unit
  | [] => pure ()
  | address :: rest => do
    let crc ← Edit.ask (·.computedCrc address)
    Edit.change (·.setWord crc address)
    storeCrcs rest

/-- Refresh every registered checksum, the lowest address first. -/
def updateCrc : Edit Buffer Unit := do
  storeCrcs ((← get).crcAddresses.mergeSort (· ≤ ·))

/-- Check the checksum at each of the given addresses in turn. -/
def checkCrcs (buffer : Buffer) : List Nat → Except Failure Unit
  | [] => .ok ()
  | address :: rest => do
    let expected ← buffer.computedCrc address
    let actual ← buffer.storedCrc address
    require (expected = actual) (.crcMismatch address expected actual)
    buffer.checkCrcs rest

/-- Check every registered checksum, the lowest address first. -/
def validateCrc (buffer : Buffer) : Except Failure Unit :=
  buffer.checkCrcs (buffer.crcAddresses.mergeSort (· ≤ ·))

/-- Check the limit, the magic numbers and the checksums. -/
def validate (buffer : Buffer) : Except Failure Unit := do
  checkBound buffer.size buffer.limit
  buffer.validateMagic
  buffer.validateCrc

/-- The SHA-256 digest of a range. -/
def sha256Range (buffer : Buffer) (offset size : Nat) : Except Failure Bytes := do
  return Bytes.sha256 (← buffer.getRaw offset size)

/-- The SHA-384 digest of a range. -/
def sha384Range (buffer : Buffer) (offset size : Nat) : Except Failure Bytes := do
  return Bytes.sha384 (← buffer.getRaw offset size)

/-- Add the bytes that a call on the stream answers with. -/
def appendFrom (call : Edit Stream Bytes) : Edit (Buffer × Stream) Nat := do
  let bytes ← Edit.fromStream call
  Edit.onObject (Edit.change (·.append bytes))
  return bytes.length

/-- Take the bytes that are missing from a stream: all it has if the buffer has no limit. -/
def fill : Edit (Buffer × Stream) Nat := do
  let (buffer, _) ← get
  match buffer.limit with
  | none => appendFrom Stream.readToEnd
  | some limit =>
    if limit ≤ buffer.size then return 0
    else appendFrom (Stream.readUpTo (limit - buffer.size))

/-- Take the missing bytes from a stream and check the buffer once it is complete. -/
def read : Edit (Buffer × Stream) Nat := do
  let count ← fill
  let (buffer, _) ← get
  if buffer.isComplete then
    Edit.onObject (Edit.ask validate)
  return count

instance : Fragment Buffer where
  size := size
  maxSize := Buffer.limit
  toBytes := Buffer.bytes
  readBytes := getRaw
  writeBytes := setRaw
  validate := validate
  read := read
  update := updateCrc

/-- The most bytes that a word dump shows. -/
def dumpLimit : Nat := 4096

/-- The lines of a word dump from the given offset on. -/
def dumpLines (offset : Nat) : Bytes → String
  | a :: b :: c :: d :: rest =>
    if dumpLimit < offset + 4 then
      "   " ++ Text.hexPadded 4 offset ++ ":   ...\n"
    else
      "   " ++ Text.hexPadded 4 offset ++ ":   " ++ Text.hexWord (Bytes.toWord [a, b, c, d]) ++
        "\n" ++ dumpLines (offset + 4) rest
  | _ => ""

instance : Describe Buffer where
  describe buffer :=
    " BinaryFragment [Size=" ++ toString buffer.size ++ "]\n" ++
      (match buffer.description with
        | some description => "  [Description: " ++ description ++ "]\n"
        | none => "") ++
      dumpLines 0 buffer.bytes

end Buffer

/-- Objects that are one buffer with checks of their own. -/
class Buffered (α : Type) where
  /-- The buffer. -/
  buffer : α → Buffer
  /-- The object with another buffer. -/
  withBuffer : α → Buffer → α
  /-- Accept exactly an object whose invariants all hold. -/
  check : α → Except Failure Unit

namespace Buffered

variable {α β : Type} [Buffered α]

/-- Carry out a call on the buffer. -/
def onBuffer (call : Edit Buffer β) : Edit α β :=
  Edit.within buffer withBuffer call

/-- The object after a change of its buffer. -/
def mapBuffer (object : α) (next : Buffer → Except Failure Buffer) : Except Failure α := do
  return withBuffer object (← next (buffer object))

/-- Take the missing bytes from the stream and check the object once it is complete. -/
def read : Edit (α × Stream) Nat := do
  let count ← Edit.within
    (fun (object, stream) => (buffer object, stream))
    (fun (object, _) (changed, stream) => (withBuffer object changed, stream)) Buffer.fill
  let (object, _) ← get
  if (buffer object).isComplete then
    Edit.onObject (Edit.ask check)
  return count

/-- The object as a fragment; refreshing it refreshes the checksums. -/
@[reducible] def fragment : Fragment α where
  size object := (buffer object).size
  maxSize object := (buffer object).limit
  toBytes object := (buffer object).bytes
  readBytes object := (buffer object).getRaw
  writeBytes object bytes offset := mapBuffer object (·.setRaw bytes offset)
  validate := check
  read := read
  update := onBuffer Buffer.updateCrc

end Buffered
end SecureBoot
