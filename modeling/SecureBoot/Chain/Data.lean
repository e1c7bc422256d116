import SecureBoot.Key

/-!
The data block of a chain entry, one layout for each kind of entry. A root entry holds one key and
a multi-root entry up to three, behind a reserved block that starts with the most significant word
of the hash of their coordinates; a public key entry holds one key and a block0 entry nothing.
-/

namespace SecureBoot

/-- What an entry holds between its header and its signature. -/
inductive EntryData
  | root (reserved : Buffer) (key : PublicKey)
  | multiRoot (reserved : Buffer) (keys : Sequence PublicKey)
  | publicKey (key : PublicKey)
  | block0
  deriving DecidableEq, Repr

namespace EntryData

/-- The empty block before the keys of a root entry. -/
def reservedBlock : Buffer :=
  Buffer.empty (some Size.rootReserved)

/-- The empty slots of a multi-root entry. -/
def keySlots : Sequence PublicKey :=
  ((Sequence.empty (some (multiRootKeyLimit * Size.publicKeyLimit))).withItemLimit
    Size.publicKeyLimit).withItemCountLimit multiRootKeyLimit

/-- Empty data of a kind, to be read; the layout of the key matters to public key entries only. -/
def empty (kind : EntryKind) (format : KeyFormat) : EntryData :=
  match kind with
  | .root => root reservedBlock (PublicKey.empty .singleRoot)
  | .multiRoot => multiRoot reservedBlock keySlots
  | .publicKey => publicKey (PublicKey.empty format)
  | .block0 => block0

/-- The kind of entry that the data belongs to. -/
def kind : EntryData → EntryKind
  | root .. => .root
  | multiRoot .. => .multiRoot
  | publicKey _ => .publicKey
  | block0 => .block0

@[simp] theorem kind_empty (kind : EntryKind) (format : KeyFormat) :
    (empty kind format).kind = kind := by
  cases kind <;> rfl

/-- The keys in order. -/
def keys : EntryData → List PublicKey
  | root _ key => [key]
  | multiRoot _ keys => keys.items
  | publicKey key => [key]
  | block0 => []

/-- The block before the keys of a root entry. -/
def reserved? : EntryData → Option Buffer
  | root reserved _ => some reserved
  | multiRoot reserved _ => some reserved
  | publicKey _ | block0 => none

/-- The key hash word that a root entry stores. -/
def hashWord? (data : EntryData) : Option Bytes :=
  match data.reserved? with
  | none => none
  | some reserved => (reserved.getRaw 0 4).toOption

/-- The coordinates of several keys one after the other. -/
def coordinatesOf : List PublicKey → Except Failure Bytes
  | [] => .ok []
  | key :: rest => do
    let first ← key.coordinates
    let others ← coordinatesOf rest
    return first ++ others

/-- The most significant word of the hash of all coordinates. -/
def hashWordOf (keys : List PublicKey) : Except Failure Bytes := do
  return (Bytes.sha384 (← coordinatesOf keys)).take 4

/-- A reserved block that stores a key hash word. -/
def reservedFor (word : Bytes) : Except Failure Buffer :=
  (do
    Buffer.reset Size.rootReserved
    Edit.change (·.setRaw word 0) : Edit Buffer Unit).result reservedBlock

instance : Composite EntryData where
  parts
    | root reserved key =>
      [Part.of reserved (root · key), Part.of key (root reserved ·)]
    | multiRoot reserved keys =>
      [Part.of reserved (multiRoot · keys), Part.of keys (multiRoot reserved ·)]
    | publicKey key => [Part.of key publicKey]
    | block0 => []

/-- Read two components of the data, the first before the second. -/
def readBoth {α β : Type} [Fragment α] [Fragment β] (build : α → β → EntryData) (first : α)
    (second : β) : Edit (EntryData × Stream) Nat := fun (_, stream) =>
  match Fragment.read (first, stream) with
  | .error failure (first, stream) => .error failure (build first second, stream)
  | .ok count (first, stream) =>
    match Fragment.read (second, stream) with
    | .error failure (second, stream) => .error failure (build first second, stream)
    | .ok more (second, stream) => .ok (count + more) (build first second, stream)

/-- Read every component in layout order. -/
def read : Edit (EntryData × Stream) Nat := fun (data, stream) =>
  match data with
  | root reserved key => readBoth root reserved key (data, stream)
  | multiRoot reserved keys => readBoth multiRoot reserved keys (data, stream)
  | publicKey key =>
    match Fragment.read (key, stream) with
    | .error failure (key, stream) => .error failure (publicKey key, stream)
    | .ok count (key, stream) => .ok count (publicKey key, stream)
  | block0 => .ok 0 (block0, stream)

instance : Fragment EntryData where
  size := Composite.size
  maxSize _ := none
  toBytes := Composite.toBytes
  readBytes := Composite.readBytes
  writeBytes := Composite.writeBytes
  validate := Composite.validateParts
  read := read
  update := pure ()

end EntryData
end SecureBoot
