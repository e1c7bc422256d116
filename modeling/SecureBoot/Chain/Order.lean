import SecureBoot.Failure

/-!
The order of the entries of a chain: a root entry first, then public key entries, then at most one
block0 entry. `ChainState` says what may be appended next; `checkOrder` checks the kinds of a chain
that is already there.
-/

namespace SecureBoot

/-- How far a chain has been built. -/
inductive ChainState
  | empty
  | hasRoot
  | hasRootAndKeys (count : Nat)
  | terminated
  deriving DecidableEq, Repr

namespace ChainState

/-- The state of a chain with entries of the given kinds. -/
def ofKinds (kinds : List EntryKind) : ChainState :=
  match kinds.getLast? with
  | none => empty
  | some .block0 => terminated
  | some _ => if kinds.length = 1 then hasRoot else hasRootAndKeys (kinds.length - 1)

/-- Accept exactly a kind that may be appended in this state. -/
def accept (state : ChainState) (kind : EntryKind) : Except Failure Unit :=
  match state with
  | empty => require (kind.isRoot = true) (.invalidChainOrder (.startsWith kind))
  | terminated => .error .chainTerminated
  | hasRoot | hasRootAndKeys _ =>
    require (kind.isRoot = false) (.invalidChainOrder (.rootLater kind))

end ChainState

/-- Check that no kind after the first is a root. -/
def checkSingleRoot (rest : List EntryKind) : Except Failure Unit :=
  match rest.findIdx? EntryKind.isRoot with
  | none => .ok ()
  | some index => .error (.invalidChainOrder (.secondRoot (index + 1)))

/-- Check that the second of three kinds or more is a public key entry. -/
def checkSecond : List EntryKind → Except Failure Unit
  | kind :: _ :: _ => require (kind = .publicKey) (.invalidChainOrder (.second kind))
  | _ => .ok ()

/-- Check that no kind before the last is a block0 entry. -/
def checkEnd (kinds : List EntryKind) : Except Failure Unit :=
  match kinds.dropLast.findIdx? (· = .block0) with
  | none => .ok ()
  | some index => .error (.invalidChainOrder (.block0Inside index))

/-- Check the order of the kinds of a chain. -/
def checkOrder : List EntryKind → Except Failure Unit
  | [] => .ok ()
  | first :: rest => do
    require (first.isRoot = true) (.invalidChainOrder (.first first))
    checkSingleRoot rest
    checkSecond rest
    checkEnd (first :: rest)

end SecureBoot
