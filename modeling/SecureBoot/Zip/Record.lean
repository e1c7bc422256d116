import SecureBoot.Bytes.Integer

/-!
The records that a container is made of. Each kind begins with a number of its own, its magic; the
numbers inside have fixed sizes and stand least significant byte first. Records are read out of an
array of bytes, in which other data may surround them.
-/

namespace SecureBoot.Zip

/-- The kinds of records: the one before the contents of a member, the one for it in the directory,
and those behind the directory. The last two stand in for numbers too large for the end record. -/
inductive Record
  | member
  | directoryEntry
  | ending
  | largeEnding
  | largeEndingPointer
  deriving DecidableEq, Repr

namespace Record

/-- The number that a record begins with. -/
def magic : Record → Nat
  | member => 0x04034B50
  | directoryEntry => 0x02014B50
  | ending => 0x06054B50
  | largeEnding => 0x06064B50
  | largeEndingPointer => 0x07064B50

/-- The size of the part of a record that all of its kind have. -/
def size : Record → Nat
  | member => 30
  | directoryEntry => 46
  | ending => 22
  | largeEnding => 56
  | largeEndingPointer => 20

end Record

/-- What stands in the four bytes of a number that needs eight. -/
def largeMark : Nat := 0xFFFFFFFF

/-- Numbers of the given sizes one after the other. -/
def fields (values : List (Nat × Nat)) : Bytes :=
  values.flatMap fun (size, value) => Bytes.digits size value

/-- The `size` bytes at an offset; fewer where the source ends earlier. -/
def range (source : Array UInt8) (offset size : Nat) : Bytes :=
  (source.extract offset (offset + size)).toList

/-- The `size` bytes at an offset, if they are there. -/
def bytes? (source : Array UInt8) (offset size : Nat) : Option Bytes :=
  if offset + size ≤ source.size then some (range source offset size) else none

/-- The number in `size` bytes at an offset, if they are there. -/
def number? (source : Array UInt8) (offset size : Nat) : Option Nat :=
  (bytes? source offset size).map Bytes.value

namespace Record

/-- Whether the magic of a kind of record is at an offset. -/
def isAt (kind : Record) (source : Array UInt8) (offset : Nat) : Bool :=
  number? source offset 4 = some kind.magic

/-- The offsets at which records of a kind seem to begin, in order. -/
def offsets (kind : Record) (source : Array UInt8) : List Nat :=
  (List.range source.size).filter (kind.isAt source)

end Record
end SecureBoot.Zip
