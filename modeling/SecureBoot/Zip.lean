import SecureBoot.Zip.Directory

/-!
The ZIP container. It lists its members in a directory; what it holds of each of them stands behind
a record of its own. A member that is encrypted, packed in an unknown way or without a record cannot
be opened; one that can be is read in full and has to have the checksum that the directory gives.
-/

namespace SecureBoot.Zip

/-- A member of a container. It holds packed contents if its record is where the directory says. -/
structure Member where
  name : String
  encrypted : Bool
  method : Nat
  crc : UInt32
  packed : Option Bytes
  deriving DecidableEq, Repr

/-- The packed contents of a member: as many bytes as the directory says, behind the record with its
name and extra fields, or fewer if the source ends before. -/
def packed? (source : Array UInt8) (listing : Listing) : Option Bytes := do
  if !Record.member.isAt source listing.offset then none
  let nameSize ← number? source (listing.offset + 26) 2
  let extraSize ← number? source (listing.offset + 28) 2
  return range source (listing.offset + Record.member.size + nameSize + extraSize)
    listing.packedSize

/-- The members of a container. -/
def members (container : Bytes) : Except Failure (List Member) :=
  let source := container.toArray
  match listings? source with
  | some listings => .ok (listings.map fun listing =>
      ⟨listing.name, listing.flags % 2 = 1 || listing.ciphered, listing.method, listing.crc,
        packed? source listing⟩)
  | none => .error .container

namespace Member

/-- Whether the contents are kept as they are. -/
def isStored (member : Member) : Bool :=
  member.method = 0

/-- Check that the contents are there, are not encrypted and are packed in a known way. -/
def check (member : Member) : Except Failure Unit :=
  require (member.packed.isSome ∧ !member.encrypted ∧ (member.method = 0 ∨ member.method = 8))
    .container

/-- The contents, whose checksum has to be the one in the directory. -/
def contents (member : Member) : Except Failure Bytes :=
  let unpacked := if member.isStored then member.packed else member.packed.bind Deflate.unpack
  match unpacked with
  | none => .error .inputOutput
  | some bytes => do
    require (checksum bytes = member.crc) .inputOutput
    return bytes

/-- The entry that the member holds. -/
def entry (member : Member) : Except Failure Entry := do
  member.check
  return ⟨member.name, ← member.contents, member.isStored⟩

end Member

/-- The entries of a container. -/
def decode (container : Bytes) : Except Failure (List Entry) := do
  (← members container).mapM Member.entry

end SecureBoot.Zip
