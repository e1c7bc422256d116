import SecureBoot.Edit

/-!
Containers: files that hold other files under names. An archive is kept in one, whatever its format
is. A format writes entries in their order, and shows the members of what it reads; each of them is
opened by itself, which may fail, and its contents are read later.
-/

namespace SecureBoot

/-- How the contents of an entry are kept. -/
inductive Packing
  | stored
  | deflated (level : Nat)
  deriving DecidableEq, Repr

namespace Container

/-- Contents that are to be kept under a name. -/
structure Entry where
  name : String
  bytes : Bytes
  packing : Packing
  deriving DecidableEq, Repr

/-- A member that was opened. -/
structure Member where
  name : String
  isDirectory : Bool
  contents : Except Failure Bytes

/-- Whether a name is that of a directory. -/
def isDirectoryName (name : String) : Bool :=
  match name.toList.getLast? with
  | some c => c = '/' || c = '\\'
  | none => false

/-- The member that an entry is when it comes back: a directory if its name says so. -/
def Entry.member (entry : Entry) : Member :=
  ⟨entry.name, isDirectoryName entry.name, .ok entry.bytes⟩

end Container

/-- A format of containers. -/
class Container where
  /-- Write entries to a file. If one of them cannot be written, what is in the file by then stays. -/
  write : List Container.Entry → Edit Bytes Unit
  /-- The members of a container in order, each as it is opened. -/
  members : Bytes → Except Failure (List (Except Failure Container.Member))

/-- The entries come back if the format can write them at all. -/
def Container.Restores [Container] (entries : List Container.Entry) : Prop :=
  ∀ bytes, write entries [] = .ok () bytes →
    members bytes = .ok (entries.map fun entry => .ok entry.member)

end SecureBoot
