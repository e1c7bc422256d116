import SecureBoot.Buffer

/-!
Sequences: fragments of one type laid out one after the other and seen as one run of bytes. A read
may span several of them, a write stays inside one. A sequence can bound its size, the size of a
fragment and the number of fragments that reading creates, and it has magic numbers and checksums
of its own on the run of bytes.
-/

namespace SecureBoot

/-- An ordered list of fragments with the bounds and the metadata they are checked against. -/
structure Sequence (α : Type) where
  items : List α
  limit : Option Nat
  itemLimit : Option Nat
  itemCountLimit : Option Nat
  magics : List (UInt32 × Nat)
  crcAddresses : List Nat
  deriving DecidableEq, Repr

/-- Fragments that reading a sequence can create. -/
class Allocate (α : Type) where
  /-- An empty fragment for the bytes to come, given the room that is left, or none to stop. -/
  allocate : Option Nat → Edit Stream (Option α)

instance : Allocate Buffer where
  allocate room := pure (some (Buffer.empty room))

namespace Sequence

variable {α : Type}

/-- An empty sequence with the given limit. -/
def empty (limit : Option Nat) : Sequence α :=
  ⟨[], limit, none, none, [], []⟩

/-- Bound the size of every fragment. -/
def withItemLimit (sequence : Sequence α) (limit : Nat) : Sequence α :=
  { sequence with itemLimit := some limit }

/-- Bound the number of fragments that reading creates. -/
def withItemCountLimit (sequence : Sequence α) (limit : Nat) : Sequence α :=
  { sequence with itemCountLimit := some limit }

/-- Register a magic number that must stand at an offset. -/
def withMagic (sequence : Sequence α) (magic : UInt32) (offset : Nat) : Sequence α :=
  { sequence with magics := sequence.magics ++ [(magic, offset)] }

/-- Register the address of a checksum word, once. -/
def withCrc (sequence : Sequence α) (address : Nat) : Sequence α :=
  if address ∈ sequence.crcAddresses then sequence
  else { sequence with crcAddresses := sequence.crcAddresses ++ [address] }

/-- The number of fragments. -/
def length (sequence : Sequence α) : Nat :=
  sequence.items.length

def isEmpty (sequence : Sequence α) : Bool :=
  sequence.items.isEmpty

/-- The fragment at an index. -/
def get? (sequence : Sequence α) (index : Nat) : Option α :=
  sequence.items[index]?

/-- The sequence with the fragment at an index overwritten, no bound checked, if there is one. -/
def put? (sequence : Sequence α) (index : Nat) (item : α) : Option (Sequence α) :=
  if index < sequence.length then some { sequence with items := sequence.items.set index item }
  else none

variable [Fragment α]

/-- The size of all fragments together. -/
def totalSize (sequence : Sequence α) : Nat :=
  Fragment.totalSize sequence.items

/-- Check a fragment against the bound on every fragment. -/
def checkItem (sequence : Sequence α) (item : α) : Except Failure Unit :=
  checkBound (Fragment.size item) sequence.itemLimit

/-- Check fragments against the bound on every fragment. -/
def checkItems (sequence : Sequence α) : List α → Except Failure Unit
  | [] => .ok ()
  | item :: rest => do
    sequence.checkItem item
    sequence.checkItems rest

/-- The sequence with a fragment added at its end. -/
def append (sequence : Sequence α) (item : α) : Except Failure (Sequence α) := do
  sequence.checkItem item
  checkBound (sequence.totalSize + Fragment.size item) sequence.limit
  return { sequence with items := sequence.items ++ [item] }

/-- The sequence with several fragments added at its end, all or none of them. -/
def extend (sequence : Sequence α) (items : List α) : Except Failure (Sequence α) := do
  sequence.checkItems items
  checkBound (sequence.totalSize + Fragment.totalSize items) sequence.limit
  return { sequence with items := sequence.items ++ items }

/-- The fragment at an index, and the sequence with another one in its place. -/
def replace (sequence : Sequence α) (index : Nat) (item : α) :
    Except Failure (α × Sequence α) :=
  match sequence.items[index]? with
  | none => .error (.invariantViolation (.noFragmentAt index))
  | some old => do
    sequence.checkItem item
    checkBound (sequence.totalSize - Fragment.size old + Fragment.size item) sequence.limit
    return (old, { sequence with items := sequence.items.set index item })

/-- The index of the fragment, of those beginning at `start`, that holds an offset, and the offset
inside it. -/
def locateFrom (offset : Nat) : Nat → List α → Option (Nat × Nat)
  | _, [] => none
  | start, item :: rest =>
    let stop := start + Fragment.size item
    if offset < stop then some (0, offset - start)
    else (locateFrom offset stop rest).map fun (index, inner) => (index + 1, inner)

/-- The index of the fragment that holds an offset, and the offset inside it. -/
def locate (sequence : Sequence α) (offset : Nat) : Option (Nat × Nat) :=
  locateFrom offset 0 sequence.items

instance : Composite (Sequence α) where
  parts sequence :=
    Part.ofList (fun items => { sequence with items := items }) sequence.items

/-- The bytes of a range, which may span fragments. -/
def getRaw (sequence : Sequence α) (offset size : Nat) : Except Failure Bytes :=
  Composite.readBytes sequence offset size

/-- The sequence with bytes written inside one fragment. -/
def setRaw (sequence : Sequence α) (bytes : Bytes) (offset : Nat) :
    Except Failure (Sequence α) :=
  Composite.writeBytes sequence bytes offset

/-- The integer stored in a range of at most eight bytes. -/
def getValue (sequence : Sequence α) (offset size : Nat) (order : Endian) :
    Except Failure UInt64 := do
  Bytes.decodeInteger (← sequence.getRaw offset size) order

/-- The word stored at an offset. -/
def getWord (sequence : Sequence α) (offset : Nat) : Except Failure UInt32 := do
  return Bytes.toWord (← sequence.getRaw offset 4)

/-- The sequence with a word stored at an offset. -/
def setWord (sequence : Sequence α) (word : UInt32) (offset : Nat) :
    Except Failure (Sequence α) :=
  sequence.setRaw (Bytes.ofWord word) offset

/-- The checksum stored at a registered address. -/
def storedCrc (sequence : Sequence α) (address : Nat) : Except Failure UInt32 := do
  require (address ∈ sequence.crcAddresses) (.invalidCrcAddress address)
  sequence.getWord address

/-- The checksum of everything before a registered address. -/
def computedCrc (sequence : Sequence α) (address : Nat) : Except Failure UInt32 := do
  require (address ∈ sequence.crcAddresses) (.invalidCrcAddress address)
  return Bytes.crc32 (← sequence.getRaw 0 address)

/-- Compute and store the checksum at each of the given addresses in turn. -/
def storeCrcs : List Nat → Edit (Sequence α) Unit
  | [] => pure ()
  | address :: rest => do
    let crc ← Edit.ask (·.computedCrc address)
    Edit.change (·.setWord crc address)
    storeCrcs rest

/-- Refresh every registered checksum, the lowest address first. -/
def updateCrc : Edit (Sequence α) Unit := do
  storeCrcs ((← get).crcAddresses.mergeSort (· ≤ ·))

/-- Store each of the given magic numbers. -/
def storeMagics : List (UInt32 × Nat) → Edit (Sequence α) Unit
  | [] => pure ()
  | (magic, offset) :: rest => do
    Edit.change (·.setWord magic offset)
    storeMagics rest

/-- Store every registered magic number. -/
def updateMagic : Edit (Sequence α) Unit := do
  storeMagics (← get).magics

/-- Check that each of the given magic numbers stands at its offset. -/
def checkMagics (sequence : Sequence α) : List (UInt32 × Nat) → Except Failure Unit
  | [] => .ok ()
  | (expected, offset) :: rest => do
    let actual ← sequence.getWord offset
    require (actual = expected) (.invalidMagic offset expected actual)
    sequence.checkMagics rest

/-- Check the checksum at each of the given addresses in turn. -/
def checkCrcs (sequence : Sequence α) : List Nat → Except Failure Unit
  | [] => .ok ()
  | address :: rest => do
    let expected ← sequence.computedCrc address
    let actual ← sequence.storedCrc address
    require (expected = actual) (.crcMismatch address expected actual)
    sequence.checkCrcs rest

/-- Check each fragment and then its bound. -/
def validateItems (sequence : Sequence α) : List α → Except Failure Unit
  | [] => .ok ()
  | item :: rest => do
    Fragment.validate item
    sequence.checkItem item
    sequence.validateItems rest

/-- Check the number of fragments. -/
def checkCount (sequence : Sequence α) : Except Failure Unit :=
  match sequence.itemCountLimit with
  | none => .ok ()
  | some limit =>
    require (sequence.length ≤ limit)
      (.invariantViolation (.tooManyFragments sequence.length limit))

/-- Check every fragment, the bounds, the magic numbers and the checksums. -/
def validate (sequence : Sequence α) : Except Failure Unit := do
  sequence.validateItems sequence.items
  checkBound sequence.totalSize sequence.limit
  sequence.checkCount
  sequence.checkMagics sequence.magics
  sequence.checkCrcs (sequence.crcAddresses.mergeSort (· ≤ ·))

/-- The room for one more fragment: the smaller of the two bounds that are set. -/
def roomFor (remaining itemLimit : Option Nat) : Option Nat :=
  match remaining, itemLimit with
  | some remaining, some limit => some (min remaining limit)
  | some remaining, none => some remaining
  | none, limit => limit

/-- Whether reading may create no more fragments. -/
def countReached (sequence : Sequence α) : Bool :=
  match sequence.itemCountLimit with
  | none => false
  | some limit => limit ≤ sequence.length

/-- The bytes that the size limit leaves. -/
def remaining (sequence : Sequence α) : Option Nat :=
  sequence.limit.map (· - sequence.totalSize)

/-- Create and read fragments until a bound is reached, the stream is at its end, no fragment
fits the bytes to come, or one consumes nothing. The first argument bounds the rounds; every
round but the last consumes a byte. -/
def readNew [Allocate α] : Nat → Edit (Sequence α × Stream) Nat
  | 0 => pure 0
  | rounds + 1 => do
    let (sequence, _) ← get
    if sequence.countReached then return 0
    if sequence.remaining = some 0 then return 0
    if ← Edit.fromStream Stream.isExhausted then return 0
    let allocated ← Edit.fromStream
      (Allocate.allocate (roomFor sequence.remaining sequence.itemLimit))
    match allocated with
    | none => return 0
    | some item =>
      let (count, item) ← Edit.fromStream (Edit.readNew item)
      if count = 0 then return 0
      Edit.onObject (Edit.change (·.append item))
      return count + (← readNew rounds)

/-- Read on into the fragments there are, then into new ones. -/
def read [Allocate α] : Edit (Sequence α × Stream) Nat := do
  let known ← Edit.within
    (fun (sequence, stream) => (sequence.items, stream))
    (fun (sequence, _) (items, stream) => ({ sequence with items := items }, stream))
    (Edit.eachWith Fragment.read)
  let (_, stream) ← get
  let new ← readNew (stream.unread.length + 1)
  return known + new

/-- Refresh every fragment, then the checksums. -/
def update : Edit (Sequence α) Unit := do
  Edit.within Sequence.items (fun sequence items => { sequence with items := items })
    (Edit.each Fragment.update)
  updateCrc

instance [Allocate α] : Fragment (Sequence α) where
  size := totalSize
  maxSize := Sequence.limit
  toBytes := Composite.toBytes
  readBytes := getRaw
  writeBytes := setRaw
  validate := validate
  read := read
  update := update

end Sequence

instance {α : Type} [Describe α] : Describe (Sequence α) where
  describe sequence :=
    " FragmentCollection [Fragments=" ++ toString sequence.items.length ++ "]\n" ++
      String.join ((sequence.items.zipIdx).map fun (item, index) =>
        "  [" ++ toString index ++ "]\n" ++ describe item)

end SecureBoot
