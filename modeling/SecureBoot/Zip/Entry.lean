import SecureBoot.Failure
import SecureBoot.Text.Utf8
import SecureBoot.Zip.Deflate
import SecureBoot.Zip.Record

/-!
What goes into a container: byte strings under names, each with a checksum. Writing puts every entry
into a record before its contents and into a directory behind them all, which repeats the record and
gives its offset. What does not fit into the numbers of these records is refused: the larger records
that there are for it are read, but not written.
-/

namespace SecureBoot.Zip

/-- A named byte string for a container, and whether it is kept as it is. -/
structure Entry where
  name : String
  bytes : Bytes
  stored : Bool
  deriving DecidableEq, Repr

/-- One division step of the checksum, least significant bit first. -/
def checksumBit (register : UInt32) : UInt32 :=
  if register &&& 1 = 0 then register >>> 1 else (register >>> 1) ^^^ 0xEDB88320

/-- The register after one more byte. -/
def checksumByte (register : UInt32) (byte : UInt8) : UInt32 :=
  Nat.repeat checksumBit 8 (register ^^^ byte.toUInt32)

/-- The checksum of a byte string. -/
def checksum (bytes : Bytes) : UInt32 :=
  bytes.foldl checksumByte 0xFFFFFFFF ^^^ 0xFFFFFFFF

namespace Entry

/-- The contents as the container holds them. -/
def packed (entry : Entry) : Bytes :=
  if entry.stored then entry.bytes else Deflate.pack entry.bytes

/-- What the record of an entry and its place in the directory have in common: version, flags with
the mark of UTF-8 names, method, the first day that can be told, checksum, and the sizes of contents
and name. -/
def description (entry : Entry) : Bytes :=
  fields [(2, 20), (2, 0x0800), (2, if entry.stored then 0 else 8), (2, 0), (2, 0x21),
    (4, (checksum entry.bytes).toNat), (4, entry.packed.length), (4, entry.bytes.length),
    (2, (Text.utf8 entry.name.toList).length), (2, 0)]

/-- The record of an entry and its contents. -/
def record (entry : Entry) : Bytes :=
  fields [(4, Record.member.magic)] ++ entry.description ++ Text.utf8 entry.name.toList ++
    entry.packed

/-- The place in the directory of an entry whose record is at an offset. -/
def listing (entry : Entry) (offset : Nat) : Bytes :=
  fields [(4, Record.directoryEntry.magic), (2, 20)] ++ entry.description ++
    fields [(2, 0), (2, 0), (2, 0), (4, 0), (4, offset)] ++ Text.utf8 entry.name.toList

end Entry

/-- The directory of entries the first of which has its record at an offset. -/
def directory (offset : Nat) : List Entry → Bytes
  | [] => []
  | entry :: rest => entry.listing offset ++ directory (offset + entry.record.length) rest

/-- Check that no two entries have one name. -/
def checkNames : List Entry → Except Failure Unit
  | [] => .ok ()
  | entry :: rest => do
    require (entry.name ∉ rest.map Entry.name) .container
    checkNames rest

/-- A container with the given entries, whose names have to differ. -/
def encode (entries : List Entry) : Except Failure Bytes := do
  checkNames entries
  let records := entries.flatMap Entry.record
  let listing := directory 0 entries
  require (entries.length ≤ 0xFFFF ∧ records.length + listing.length ≤ 0xFFFFFFFF ∧
    ∀ entry ∈ entries, (Text.utf8 entry.name.toList).length ≤ 0xFFFF) .container
  return records ++ listing ++
    fields [(4, Record.ending.magic), (2, 0), (2, 0), (2, entries.length), (2, entries.length),
      (4, listing.length), (4, records.length), (2, 0)]

end SecureBoot.Zip
