import SecureBoot.Chain.Entry
import SecureBoot.Chain.Order

/-!
Signature chains. A chain is appended to in the order root, public keys, block0. It is read from a
stream either by a number of entries to come or, if that is not known, up to its block0 entry, the
first bytes that are no entry or the end of the stream; it is valid only when nothing is pending.
-/

namespace SecureBoot

/-- The entries of a chain, and the number of entries still to be read, if it is known. -/
structure SignatureChain where
  entries : Sequence ChainEntry
  pending : Option Nat
  deriving DecidableEq, Repr

namespace SignatureChain

/-- An empty chain from which the given number of entries is to be read. -/
def expecting (pending : Option Nat) : SignatureChain :=
  ⟨Sequence.empty none, pending⟩

/-- An empty chain to be built. -/
def empty : SignatureChain :=
  expecting (some 0)

/-- The number of entries. -/
def length (chain : SignatureChain) : Nat :=
  chain.entries.length

def isEmpty (chain : SignatureChain) : Bool :=
  chain.entries.isEmpty

def size (chain : SignatureChain) : Nat :=
  chain.entries.totalSize

/-- The kinds of the entries in order. -/
def kinds (chain : SignatureChain) : List EntryKind :=
  chain.entries.items.map ChainEntry.kind

def state (chain : SignatureChain) : ChainState :=
  .ofKinds chain.kinds

/-- Whether nothing may follow. -/
def isTerminated (chain : SignatureChain) : Bool :=
  chain.state = .terminated

/-- The entry at an index. -/
def entry? (chain : SignatureChain) (index : Nat) : Option ChainEntry :=
  chain.entries.get? index

/-- The chain with the entry at an index overwritten, if there is one. -/
def putEntry? (chain : SignatureChain) (index : Nat) (entry : ChainEntry) :
    Option SignatureChain :=
  (chain.entries.put? index entry).map fun entries => { chain with entries := entries }

/-- The first entry, if it is a root. -/
def rootEntry? (chain : SignatureChain) : Option ChainEntry :=
  chain.entries.items.head?.filter (·.kind.isRoot)

def lastEntry? (chain : SignatureChain) : Option ChainEntry :=
  chain.entries.items.getLast?

/-- The chain with an entry added at its end, if the order admits it. -/
def append (chain : SignatureChain) (entry : ChainEntry) : Except Failure SignatureChain := do
  chain.state.accept entry.kind
  return { chain with entries := ← chain.entries.append entry }

/-- The chain with the entries of another one added at its end, all or none of them. -/
def extend (chain other : SignatureChain) : Except Failure SignatureChain :=
  other.entries.items.foldlM append chain

/-- The entry whose key signs what follows the chain: the last one that is no closing block0. -/
def signingEntry : List ChainEntry → Except Failure (Option ChainEntry)
  | [] => .ok none
  | [entry] =>
    if entry.kind = .block0 then .error (.invalidChainOrder .block0WithoutKey)
    else .ok (some entry)
  | [before, last] => .ok (some (if last.kind = .block0 then before else last))
  | _ :: rest => signingEntry rest

/-- The key that signs what follows the chain, none if the chain is empty. -/
def lastKey (chain : SignatureChain) : Except Failure (Option PublicKey) := do
  match ← signingEntry chain.entries.items with
  | none => return none
  | some entry =>
    match entry.key? with
    | none => .error (.invalidChainOrder (.withoutKey entry.kind))
    | some key =>
      key.validate
      return some key

/-- Check that no entry is still to be read. -/
def checkSettled (chain : SignatureChain) : Except Failure Unit :=
  match chain.pending with
  | some 0 => .ok ()
  | some count => .error (.unfinishedRead (.entries count))
  | none => .error (.unfinishedRead .neverSettled)

/-- Check that nothing is pending, the order and every entry. -/
def validate (chain : SignatureChain) : Except Failure Unit := do
  chain.checkSettled
  checkOrder chain.kinds
  chain.entries.validate

/-- The chain after one more entry was read: one fewer is pending. -/
def countDown (chain : SignatureChain) : SignatureChain :=
  { chain with pending := chain.pending.map (· - 1) }

/-- Read entries until none is pending or, if their number is not known, until a block0 entry, the
first bytes that are no entry or the end of the stream. The first argument bounds the rounds; every
entry takes bytes from the stream. -/
def readEntries : Nat → Edit (SignatureChain × Stream) Nat
  | 0 => pure 0
  | rounds + 1 => do
    let (chain, _) ← get
    if chain.pending = some 0 then return 0
    let head ← Edit.fromStream (Stream.peek 8)
    if head.length < 8 then return 0
    match ← Edit.fromStream ChainEntry.sniff with
    | none =>
      if chain.pending.isNone then return 0
      throw (.unknownSignatureEntry (Bytes.wordAt head 0))
    | some entry =>
      let (count, entry) ← Edit.fromStream (Edit.readNew entry)
      Edit.onObject (Edit.change (·.append entry))
      Edit.onObject (modify countDown)
      if chain.pending.isNone ∧ entry.kind = .block0 then return count
      return count + (← readEntries rounds)

/-- A chain of unknown length is complete when reading has stopped. -/
def settle (chain : SignatureChain) : SignatureChain :=
  { chain with pending := some (chain.pending.getD 0) }

/-- Read the chain that is next in the stream into an empty chain. -/
def read : Edit (SignatureChain × Stream) Nat := do
  Edit.ask fun (chain, _) => require (chain.isEmpty = true)
    (.invariantViolation (.alreadyRead .chain))
  let count ← readEntries ((← get).2.unread.length + 1)
  Edit.onObject (modify settle)
  Edit.onObject (Edit.ask validate)
  return count

instance : Fragment SignatureChain where
  size := size
  maxSize _ := none
  toBytes chain := Composite.toBytes chain.entries
  readBytes chain := chain.entries.getRaw
  writeBytes chain bytes offset := do
    return { chain with entries := ← chain.entries.setRaw bytes offset }
  validate := validate
  read := read
  update := Edit.within SignatureChain.entries
    (fun chain entries => { chain with entries := entries }) Sequence.update

instance : Describe SignatureChain where
  describe chain :=
    " SignatureChain [Entries=" ++ toString chain.length ++ ", Size=" ++ toString chain.size ++
      "]\n" ++ String.join (chain.entries.items.map describe)

/-- The key layout of public key entries that follow the chain's root. -/
def keyFormatAfter (chain : SignatureChain) : KeyFormat :=
  match chain.rootEntry?.map ChainEntry.kind with
  | some .multiRoot => .multiRoot
  | _ => .singleRoot

end SignatureChain
end SecureBoot
