import SecureBoot.Bytes.Sha2
import SecureBoot.Stream

/-!
Fragments: the contiguous pieces an image is made of. A fragment has a size and serialized bytes,
can be read and written at an offset, takes bytes from a stream, refreshes the fields that derive
from its contents, and says whether it is valid. `Part` describes a fragment inside a larger
object, and the span functions read and write an object through its parts laid out in order.
-/

namespace SecureBoot

/-- Offsets and sizes fit into 64 bits; a range whose end does not is out of bounds everywhere. -/
def addressLimit : Nat := 0x10000000000000000

/-- Everything that is allocated at once has fewer bytes than this. -/
def allocationLimit : Nat := 0x8000000000000000

/-- Fail when a size is over its limit. -/
def checkBound (size : Nat) : Option Nat → Except Failure Unit
  | none => .ok ()
  | some limit => require (size ≤ limit) (.sizeExceeded size limit)

/-- A contiguous, serializable piece of an image. -/
class Fragment (α : Type) where
  /-- The number of serialized bytes. -/
  size : α → Nat
  /-- The largest size, if there is one. -/
  maxSize : α → Option Nat
  /-- The serialized bytes. -/
  toBytes : α → Bytes
  /-- The bytes of a range given by offset and size. -/
  readBytes : α → Nat → Nat → Except Failure Bytes
  /-- The fragment with bytes written at an offset. -/
  writeBytes : α → Bytes → Nat → Except Failure α
  /-- Accept exactly a fragment whose invariants all hold. -/
  validate : α → Except Failure Unit
  /-- Take bytes from a stream and answer how many were taken. -/
  read : Edit (α × Stream) Nat
  /-- Refresh the fields that derive from others. -/
  update : Edit α Unit

/-- Things that have a text for people to read. -/
class Describe (α : Type) where
  /-- The text, every line of it ended by a newline. -/
  describe : α → String

export Describe (describe)

namespace Fragment

variable {α : Type} [Fragment α]

/-- The size of fragments laid out one after the other. -/
def totalSize : List α → Nat
  | [] => 0
  | fragment :: rest => size fragment + totalSize rest

/-- The SHA-256 digest of the serialized bytes. -/
def sha256 (fragment : α) : Bytes :=
  Bytes.sha256 (toBytes fragment)

/-- The SHA-384 digest of the serialized bytes. -/
def sha384 (fragment : α) : Bytes :=
  Bytes.sha384 (toBytes fragment)

/-- The SHA-256 digest in the form manifests list it. -/
def sha256Sum (fragment : α) : String :=
  Text.Hex.encode (sha256 fragment)

end Fragment

/-- A part of an object of type `σ`: the fragment as the object's users see it, and the whole
object after the part has been written to. -/
structure Part (σ : Type) where
  size : Nat
  toBytes : Unit → Bytes
  readBytes : Nat → Nat → Except Failure Bytes
  writeBytes : Bytes → Nat → Except Failure σ
  validate : Unit → Except Failure Unit

namespace Part

variable {σ : Type}

/-- The part that a fragment is, given the object with another fragment in its place. -/
def of {α : Type} [Fragment α] (fragment : α) (put : α → σ) : Part σ where
  size := Fragment.size fragment
  toBytes := fun _ => Fragment.toBytes fragment
  readBytes := Fragment.readBytes fragment
  writeBytes := fun bytes offset => (Fragment.writeBytes fragment bytes offset).map put
  validate := fun _ => Fragment.validate fragment

/-- The parts that the members of a list are, given the object with another list in its place. -/
def ofList {α : Type} [Fragment α] (put : List α → σ) : List α → List (Part σ)
  | [] => []
  | first :: rest =>
    of first (fun changed => put (changed :: rest)) ::
      ofList (fun changed => put (first :: changed)) rest

/-- The size of all parts together. -/
def totalSize : List (Part σ) → Nat
  | [] => 0
  | part :: rest => part.size + totalSize rest

/-- The serialized bytes of all parts in order. -/
def serialize : List (Part σ) → Bytes
  | [] => []
  | part :: rest => part.toBytes () ++ serialize rest

/-- Check every part in order. -/
def validateAll : List (Part σ) → Except Failure Unit
  | [] => .ok ()
  | part :: rest => do
    part.validate ()
    validateAll rest

/-- The bytes that parts beginning at `start` contribute to the range from `offset` to `finish`. -/
def gather (offset finish : Nat) : Nat → List (Part σ) → Except Failure Bytes
  | _, [] => .ok []
  | start, part :: rest => do
    let stop := start + part.size
    let own ←
      if offset < stop ∧ start < finish then
        let first := max offset start - start
        part.readBytes first (min finish stop - start - first)
      else .ok []
    let others ← gather offset finish stop rest
    return own ++ others

/-- The bytes of a range that may span several parts. Room for them is set aside before it is known
whether they are there. -/
def readSpan (parts : List (Part σ)) (offset size : Nat) : Except Failure Bytes := do
  require (offset + size < addressLimit) (.outOfBounds offset size 0)
  require (size < allocationLimit) (.capacityOverflow size)
  let bytes ← gather offset (offset + size) 0 parts
  require (offset + size ≤ totalSize parts) (.outOfBounds offset size (totalSize parts))
  return bytes

/-- Write into the part, of those beginning at `start`, that holds the offset. -/
def scatter (bytes : Bytes) (offset : Nat) : Nat → List (Part σ) → Option (Except Failure σ)
  | _, [] => none
  | start, part :: rest =>
    if start ≤ offset ∧ offset < start + part.size then
      if start + part.size < offset + bytes.length then
        some (.error (.crossFragmentWrite offset bytes.length))
      else some (part.writeBytes bytes (offset - start))
    else scatter bytes offset (start + part.size) rest

/-- The object with bytes written inside one of its parts. -/
def writeSpan (object : σ) (parts : List (Part σ)) (bytes : Bytes) (offset : Nat) :
    Except Failure σ :=
  match scatter bytes offset 0 parts with
  | some outcome => outcome
  | none =>
    if bytes.isEmpty ∧ offset ≤ totalSize parts then .ok object
    else .error (.outOfBounds offset bytes.length (totalSize parts))

end Part

/-- Objects made of parts laid out one after the other. -/
class Composite (α : Type) where
  /-- The parts in layout order. -/
  parts : α → List (Part α)

namespace Composite

variable {α : Type} [Composite α]

def size (object : α) : Nat :=
  Part.totalSize (parts object)

def toBytes (object : α) : Bytes :=
  Part.serialize (parts object)

def readBytes (object : α) (offset size : Nat) : Except Failure Bytes :=
  Part.readSpan (parts object) offset size

def writeBytes (object : α) (bytes : Bytes) (offset : Nat) : Except Failure α :=
  Part.writeSpan object (parts object) bytes offset

/-- Check every part in layout order. -/
def validateParts (object : α) : Except Failure Unit :=
  Part.validateAll (parts object)

end Composite

namespace Edit

variable {σ τ α : Type}

/-- Take from the stream that an object is read from. -/
def fromStream (call : Edit Stream α) : Edit (σ × Stream) α :=
  within Prod.snd (fun (object, _) stream => (object, stream)) call

/-- Carry out a call on the object that is read. -/
def onObject (call : Edit σ α) : Edit (σ × Stream) α :=
  within Prod.fst (fun (_, stream) object => (object, stream)) call

/-- Read a component of the object from the object's stream. -/
def readPart [Fragment τ] (view : σ → τ) (put : σ → τ → σ) : Edit (σ × Stream) Nat :=
  within (fun (object, stream) => (view object, stream))
    (fun (object, _) (component, stream) => (put object component, stream)) Fragment.read

/-- Read a component of the object from bytes of its own. -/
def readInside [Fragment τ] (view : σ → τ) (put : σ → τ → σ) (bytes : Bytes) : Edit σ Nat :=
  fun object =>
    match Fragment.read (view object, Stream.ofBytes bytes) with
    | .ok count (component, _) => .ok count (put object component)
    | .error failure (component, _) => .error failure (put object component)

/-- Read a new fragment from a stream; it is lost if reading fails. -/
def readNew [Fragment τ] (fragment : τ) : Edit Stream (Nat × τ) := fun stream =>
  match Fragment.read (fragment, stream) with
  | .ok count (fragment, stream) => .ok (count, fragment) stream
  | .error failure (_, stream) => .error failure stream

/-- Take exactly `size` bytes from a stream, for a structure whose end they are. -/
def takeExactly (size : Nat) (field : LengthField) : Edit Stream Bytes := do
  let bytes ← Stream.readUpTo size
  ask fun _ => require (bytes.length = size) (.lengthMismatch field size bytes.length)
  return bytes

end Edit
end SecureBoot
