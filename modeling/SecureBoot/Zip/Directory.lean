import SecureBoot.Zip.Listing

/-!
Where the directory of a container is, and what it lists. The end record, behind the directory, says
so; it may point to a larger end record with more room. Other data may stand before the container,
which shifts all offsets in it, and behind it, and an end record may be no such thing but look like
one: the last one that leads to a readable directory counts.
-/

namespace SecureBoot.Zip

/-- Where a directory starts, how many entries it has, and by how much all offsets are shifted. -/
structure Directory where
  start : Nat
  count : Nat
  shift : Nat
  deriving DecidableEq, Repr

namespace Directory

/-- Read entries one after the other. Every record has to stand before the directory. -/
def listingsFrom? (directory : Directory) (source : Array UInt8) :
    Nat → Nat → Option (List Listing)
  | 0, _ => some []
  | count + 1, offset => do
    let (listing, next) ← Listing.at? source offset
    if directory.start ≤ listing.offset + directory.shift then none
    let rest ← listingsFrom? directory source count next
    return { listing with offset := listing.offset + directory.shift } :: rest

/-- Put a listing in place of the one with the same name, or behind the others. -/
def enter (listing : Listing) : List Listing → List Listing
  | [] => [listing]
  | other :: rest =>
    if other.name = listing.name then listing :: rest else other :: enter listing rest

/-- What a directory lists, with the offsets in the source; of entries with one name the last
counts. -/
def listings? (directory : Directory) (source : Array UInt8) : Option (List Listing) :=
  (directory.listingsFrom? source directory.count directory.start).map fun listings =>
    listings.foldl (fun entered listing => enter listing entered) []

end Directory

/-- An end record at a position. -/
structure Ending where
  position : Nat
  disk : Nat
  directoryDisk : Nat
  diskCount : Nat
  count : Nat
  offset : Nat
  deriving DecidableEq, Repr

/-- The pointer to a large end record, which ends where the end record begins. -/
structure LargeEndingPointer where
  position : Nat
  disk : Nat
  target : Nat
  disks : Nat
  deriving DecidableEq, Repr

/-- A large end record at a position. -/
structure LargeEnding where
  position : Nat
  madeBy : Nat
  needed : Nat
  disk : Nat
  directoryDisk : Nat
  diskCount : Nat
  count : Nat
  offset : Nat
  deriving DecidableEq, Repr

namespace LargeEnding

/-- The large end record at a position, if it reaches up to a limit, lies on the disk given for it
and leaves room for its directory. -/
def at? (source : Array UInt8) (limit disk position : Nat) : Option LargeEnding := do
  if !Record.largeEnding.isAt source position then none
  let size ← number? source (position + 4) 8
  let ending : LargeEnding := ⟨position, ← number? source (position + 12) 2,
    ← number? source (position + 14) 2, ← number? source (position + 16) 4,
    ← number? source (position + 20) 4, ← number? source (position + 24) 8,
    ← number? source (position + 32) 8, ← number? source (position + 48) 8⟩
  if position + Record.largeEnding.size ≤ limit ∧ position + 12 + size = limit ∧
      ending.directoryDisk = disk ∧
      ending.count * Record.directoryEntry.size + ending.offset ≤ position then
    some ending
  else none

/-- The directory of a large end record, given the position at which it would be without a shift. -/
def directory? (ending : LargeEnding) (target : Nat) : Option Directory :=
  if ending.diskCount ≤ ending.count ∧ ending.needed ≤ ending.madeBy ∧
      ending.disk = ending.directoryDisk then
    let shift := ending.position - target
    some ⟨ending.offset + shift, ending.count, shift⟩
  else none

end LargeEnding

namespace LargeEndingPointer

/-- The pointer before an end record at a position. -/
def before? (source : Array UInt8) (ending : Nat) : Option LargeEndingPointer := do
  if ending < Record.largeEndingPointer.size then none
  let position := ending - Record.largeEndingPointer.size
  if !Record.largeEndingPointer.isAt source position then none
  return ⟨position, ← number? source (position + 4) 4, ← number? source (position + 8) 8,
    ← number? source (position + 16) 4⟩

/-- The directory that a pointer leads to: the first large end record from its target on and before
the pointer counts. -/
def directory? (pointer : LargeEndingPointer) (source : Array UInt8) : Option Directory := do
  if 1 < pointer.disks then none
  let positions := List.range' pointer.target (pointer.position - pointer.target)
  let ending ← positions.findSome? (LargeEnding.at? source pointer.position pointer.disk)
  ending.directory? pointer.target

end LargeEndingPointer

namespace Ending

/-- The end record at a position, if its comment is inside the source. -/
def at? (source : Array UInt8) (position : Nat) : Option Ending := do
  if !Record.ending.isAt source position then none
  let ending : Ending := ⟨position, ← number? source (position + 4) 2,
    ← number? source (position + 6) 2, ← number? source (position + 8) 2,
    ← number? source (position + 10) 2, ← number? source (position + 16) 4⟩
  let commentSize ← number? source (position + 20) 2
  if position + Record.ending.size + commentSize ≤ source.size then some ending else none

/-- Whether one of the numbers has no room in the end record. -/
def isFull (ending : Ending) : Bool :=
  ending.count = 0xFFFF || ending.offset = largeMark

/-- The directory of an end record, given where entries seem to begin: the first of them from the
offset in the record on and before the record starts it. A directory without entries ends where the
record begins. -/
def ownDirectory? (ending : Ending) (entries : List Nat) : Option Directory := do
  if ending.disk ≠ ending.directoryDisk then none
  let start ← if ending.count = 0 then some (max ending.position ending.offset)
    else entries.find? fun entry => ending.offset ≤ entry && entry < ending.position
  return ⟨start, ending.diskCount, start - ending.offset⟩

/-- The directory that an end record leads to, by way of a large one if there is one. -/
def directory? (ending : Ending) (source : Array UInt8) (entries : List Nat) : Option Directory :=
  match if ending.isFull then LargeEndingPointer.before? source ending.position else none with
  | some pointer => pointer.directory? source
  | none => ending.ownDirectory? entries

/-- What the directory lists that an end record at a position leads to. -/
def listingsAt? (source : Array UInt8) (entries : List Nat) (position : Nat) :
    Option (List Listing) := do
  let ending ← at? source position
  let directory ← ending.directory? source entries
  directory.listings? source

/-- What the last readable directory of a source lists that has an end record before a limit. -/
def listingsBefore? (source : Array UInt8) (entries : List Nat) : Nat → Option (List Listing)
  | 0 => none
  | limit + 1 =>
    match listingsAt? source entries limit with
    | some listings => some listings
    | none => listingsBefore? source entries limit

end Ending

/-- What a container lists. -/
def listings? (source : Array UInt8) : Option (List Listing) :=
  Ending.listingsBefore? source (Record.directoryEntry.offsets source) source.size

end SecureBoot.Zip
