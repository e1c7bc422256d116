import SecureBoot.Files.Disk
import SecureBoot.Fragment

/-!
Fragments in files. Only a valid fragment is saved; loading takes what the file starts with and
leaves the rest aside.
-/

namespace SecureBoot.Files

variable {α : Type} [Fragment α]

/-- Check a fragment and write its bytes to a file, creating the directories on the way. -/
def save (fragment : α) (path : String) : Edit Disk Unit := do
  Edit.ask fun _ => Fragment.validate fragment
  Disk.writeThrough path (Fragment.toBytes fragment)

/-- Read a fragment from the start of a file and check it. -/
def load (disk : Disk) (path : String) : Edit α Unit := fun object =>
  match disk.open? path with
  | .error failure => .error failure object
  | .ok stream =>
    let call : Edit (α × Stream) Unit := do
      let _ ← Fragment.read
      let _ ← Edit.fromStream Stream.isExhausted
      Edit.onObject (Edit.ask Fragment.validate)
    match call (object, stream) with
    | .ok _ (object, _) => .ok () object
    | .error failure (object, _) => .error failure object

end SecureBoot.Files
