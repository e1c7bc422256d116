import SecureBoot.Chain

/-!
The table of signature chains inside a signature descriptor: a header with one slot for each chain,
the chains one after the other, and zeros up to the size of the table. A slot of the classic layout
holds the number of entries and the offset of its chain, a slot of the multi-root layout only the
offset; the slot of an empty chain is zero and the chain takes no space.
-/

namespace SecureBoot

/-- A table of chains of a fixed total size. -/
structure ChainTable where
  format : ChainFormat
  limit : Nat
  header : Buffer
  chains : List SignatureChain
  padding : Buffer
  deriving DecidableEq, Repr

namespace ChainTable

/-- A table that is to be read. -/
def expecting (format : ChainFormat) (limit : Nat) : ChainTable where
  format := format
  limit := limit
  header := (Buffer.empty (some Size.chainTableHeader)).withDescription
    "signature chain section header"
  chains := []
  padding := Buffer.empty none

/-- The chain in a slot. -/
def chain? (table : ChainTable) (index : Nat) : Option SignatureChain :=
  table.chains[index]?

/-- The table with the chain in a slot overwritten, if the slot is there. -/
def putChain? (table : ChainTable) (index : Nat) (chain : SignatureChain) : Option ChainTable :=
  if index < table.chains.length then some { table with chains := table.chains.set index chain }
  else none

/-- The chains that have entries. -/
def populated (table : ChainTable) : List SignatureChain :=
  table.chains.filter fun chain => !chain.isEmpty

/-- The stored offset of a chain. -/
def chainOffset (table : ChainTable) (index : Nat) : Except Failure UInt32 :=
  let slot := index * table.format.slotSize
  match table.format with
  | .classic => table.header.getWord (slot + 4)
  | .multiRoot => table.header.getWord slot

/-- The stored number of entries of a chain, which only the classic layout has. -/
def chainEntryCount (table : ChainTable) (index : Nat) : Except Failure (Option UInt32) :=
  match table.format with
  | .classic => do return some (← table.header.getWord (index * table.format.slotSize))
  | .multiRoot => .ok none

/-- The entry count and the offset of each chain, the first of which begins at `next`. -/
def layoutFrom (next : Nat) : List SignatureChain → List (UInt32 × UInt32)
  | [] => []
  | chain :: rest =>
    if chain.isEmpty then (0, 0) :: layoutFrom next rest
    else (UInt32.ofNat chain.length, UInt32.ofNat next) :: layoutFrom (next + chain.size) rest

/-- What the slots of the header should hold. -/
def layout (table : ChainTable) : List (UInt32 × UInt32) :=
  layoutFrom Size.chainTableHeader table.chains

/-- Store the slots from the given address on. -/
def storeSlots (format : ChainFormat) : Nat → List (UInt32 × UInt32) → Edit Buffer Unit
  | _, [] => pure ()
  | address, (count, offset) :: rest => do
    match format with
    | .classic =>
      Edit.change (·.setWord count address)
      Edit.change (·.setWord offset (address + 4))
    | .multiRoot => Edit.change (·.setWord offset address)
    storeSlots format (address + format.slotSize) rest

/-- Store what the slots of the header should hold. -/
def updateHeader : Edit ChainTable Unit := do
  let table ← get
  Edit.within ChainTable.header (fun table header => { table with header := header })
    (storeSlots table.format 0 table.layout)

/-- The size of everything but the padding. -/
def usedSize (table : ChainTable) : Nat :=
  table.header.size + Fragment.totalSize table.chains

/-- The size that is left for the padding. -/
def room (table : ChainTable) : Except Failure Nat := do
  require (table.usedSize ≤ table.limit) (.sizeExceeded table.usedSize table.limit)
  return table.limit - table.usedSize

/-- Fill the table up with zeros. -/
def pad : Edit ChainTable Unit := do
  let room ← Edit.ask room
  modify fun table => { table with padding := Buffer.empty (some room) }
  Edit.within ChainTable.padding (fun table padding => { table with padding := padding })
    (Buffer.reset room)

/-- Refresh every chain, then the header, then the padding. -/
def update : Edit ChainTable Unit := do
  Edit.within ChainTable.chains (fun table chains => { table with chains := chains })
    (Edit.each Fragment.update)
  updateHeader
  pad

/-- A table of empty chains. -/
def create (format : ChainFormat) (limit : Nat) : Except Failure ChainTable :=
  (do
    Edit.within ChainTable.header (fun table header => { table with header := header })
      (Buffer.reset Size.chainTableHeader)
    modify fun table =>
      { table with chains := List.replicate format.chainCount SignatureChain.empty }
    update : Edit ChainTable Unit).result (expecting format limit)

/-- The first slot without entries, and the table with a valid chain stored there. -/
def add (table : ChainTable) (chain : SignatureChain) : Except Failure (Nat × ChainTable) := do
  chain.validate
  match table.chains.findIdx? SignatureChain.isEmpty with
  | none => .error (.invalidField (.slotsInUse table.chains.length))
  | some index =>
    return (index, ← update.result { table with chains := table.chains.set index chain })

/-- The number of bytes between the chain at `index`, which begins at `offset`, and the first
populated one of the later slots. -/
def spanTo (table : ChainTable) (index : Nat) (offset : UInt32) :
    List Nat → Except Failure (Option Nat)
  | [] => .ok none
  | later :: rest => do
    let next ← table.chainOffset later
    if next = 0 then table.spanTo index offset rest
    else
      require (offset ≤ next) (.invalidField (.chainsOutOfOrder later next index offset))
      return some (next.toNat - offset.toNat)

/-- The size of a chain without an entry count, known if a later slot is populated. -/
def multiRootSpan (table : ChainTable) (index : Nat) : Except Failure (Option Nat) :=
  match table.format with
  | .classic => .ok none
  | .multiRoot => do
    let offset ← table.chainOffset index
    if offset = 0 then return none
    table.spanTo index offset
      (List.range' (index + 1) (table.format.chainCount - (index + 1)))

/-- The number of entries to read into a slot: unknown for a populated slot without a count. -/
def pendingEntries (table : ChainTable) (index : Nat) : Except Failure (Option Nat) := do
  match ← table.chainEntryCount index with
  | some count => return some count.toNat
  | none => return if (← table.chainOffset index) = 0 then some 0 else none

/-- Read a chain that has to fill exactly `span` bytes. -/
def readBounded (chain : SignatureChain) (span : Nat) : Edit Stream (Nat × SignatureChain) := do
  let bytes ← Edit.takeExactly span .chain
  let (count, chain) ← Edit.ask fun _ =>
    (Edit.readNew chain).answer (Stream.ofBytes bytes)
  Edit.ask fun _ => require (count = span) (.lengthMismatch .chain span count)
  return (count, chain)

/-- Read the chain of a slot. -/
def readSlot (table : ChainTable) (index : Nat) : Edit Stream (Nat × SignatureChain) := do
  let pending ← Edit.ask fun _ => table.pendingEntries index
  let chain := SignatureChain.expecting pending
  match ← Edit.ask fun _ => table.multiRootSpan index with
  | some span => readBounded chain span
  | none => Edit.readNew chain

/-- Read the chains of several slots in turn. -/
def readSlots : List Nat → Edit (ChainTable × Stream) Nat
  | [] => pure 0
  | index :: rest => do
    let (table, _) ← get
    let (count, chain) ← Edit.fromStream (table.readSlot index)
    Edit.onObject (modify fun table => { table with chains := table.chains ++ [chain] })
    return count + (← readSlots rest)

instance : Composite ChainTable where
  parts table :=
    [Part.of table.header fun header => { table with header := header }] ++
      Part.ofList (fun chains => { table with chains := chains }) table.chains ++
      [Part.of table.padding fun padding => { table with padding := padding }]

/-- Check that each slot, from the given index on, holds what it should. -/
def checkSlots (table : ChainTable) : Nat → List (UInt32 × UInt32) → Except Failure Unit
  | _, [] => .ok ()
  | index, (count, offset) :: rest => do
    let storedOffset ← table.chainOffset index
    let storedCount ← table.chainEntryCount index
    require (storedOffset = offset ∧ (storedCount = none ∨ storedCount = some count))
      (.invalidField (.tableSlot index storedCount storedOffset count offset))
    table.checkSlots (index + 1) rest

/-- Check the header size. -/
def checkHeaderSize (table : ChainTable) : Except Failure Unit :=
  require (table.header.size = Size.chainTableHeader)
    (.lengthMismatch .chainTableHeader Size.chainTableHeader table.header.size)

/-- Check the header, the number of chains, every chain, the slots and the total size. -/
def validate (table : ChainTable) : Except Failure Unit := do
  table.checkHeaderSize
  require (table.chains.length = table.format.chainCount)
    (.invariantViolation (.chainCount table.format table.chains.length))
  Composite.validateParts table
  table.checkSlots 0 table.layout
  require (Composite.size table = table.limit)
    (.lengthMismatch .chainTable table.limit (Composite.size table))

/-- Read the header, each chain as its slot announces it, and the padding. -/
def read : Edit (ChainTable × Stream) Nat := do
  Edit.ask fun (table, _) => require (table.header.isEmpty = true)
    (.invariantViolation (.alreadyRead .chainTable))
  let header ← Edit.readPart ChainTable.header (fun table header => { table with header := header })
  Edit.onObject (Edit.ask checkHeaderSize)
  Edit.onObject (modify fun table => { table with chains := [] })
  let chains ← readSlots (List.range (← get).1.format.chainCount)
  let room ← Edit.onObject (Edit.ask room)
  Edit.onObject (modify fun table => { table with padding := Buffer.empty (some room) })
  let padding ← Edit.readPart ChainTable.padding
    (fun table padding => { table with padding := padding })
  Edit.onObject (Edit.ask validate)
  return header + chains + padding

instance : Fragment ChainTable where
  size := Composite.size
  maxSize table := some table.limit
  toBytes := Composite.toBytes
  readBytes := Composite.readBytes
  writeBytes := Composite.writeBytes
  validate := validate
  read := read
  update := update

/-- The populated chains of slots from the given index on, each under its stored offset. -/
def describeSlots (table : ChainTable) : Nat → List SignatureChain → String
  | _, [] => ""
  | index, chain :: rest =>
    (if chain.isEmpty then ""
      else
        (match table.chainOffset index with
          | .ok offset => "  Chain " ++ toString index ++ " @ " ++ Text.hex offset.toNat ++ "\n"
          | .error _ => "") ++ describe chain) ++
      table.describeSlots (index + 1) rest

instance : Describe ChainTable where
  describe table :=
    " SignatureChainSection [Format=" ++ table.format.name ++ ", Chains=" ++
      toString table.populated.length ++ ", Size=" ++ toString (Composite.size table) ++
      "]\n" ++ table.describeSlots 0 table.chains

end ChainTable
end SecureBoot
