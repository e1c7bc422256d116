import SecureBoot.Archive

/-!
Surveys: many files checked at once. Directories stand for the files below them whose extension says
that they hold an image or an archive, in the order of their paths.
-/

namespace SecureBoot.Survey

/-- The extensions of files that hold images or archives. -/
def extensions : List String := ["cmf", "cert", "qky", "zip"]

/-- Whether the extension of a path says that it holds an image or an archive. -/
def isArtifact (path : String) : Bool :=
  extensions.any (Files.hasExtension path)

/-- Whether the extension of a path says that it holds an archive. -/
def isArchive (path : String) : Bool :=
  Files.hasExtension path "zip"

/-- The files with images and archives below a path, in the order of their paths. -/
def collect (disk : Files.Disk) (path : String) : Except Failure (List String) := do
  return ((← disk.filesBelow path).filter isArtifact).mergeSort Files.pathsInOrder

/-- Paths with every directory replaced by the files it stands for. -/
def expand (disk : Files.Disk) : List String → Except Failure (List String)
  | [] => .ok []
  | path :: rest => do
    let files ← if disk.isDirectory path then collect disk path else .ok [path]
    let others ← expand disk rest
    return files ++ others

/-- What came out for a file: what it holds, if it could be recognised, and why it is not valid. -/
structure Report where
  path : String
  kind : Option String
  failure : Option Failure
  deriving DecidableEq, Repr

/-- The failure of a check. -/
def failureOf (outcome : Except Failure Unit) : Option Failure :=
  match outcome with
  | .ok _ => none
  | .error failure => some failure

/-- Check the file at a path. -/
def check [Container] (disk : Files.Disk) (path : String) : Report :=
  if isArchive path then
    ⟨path, some "zip", failureOf (Archive.load disk path >>= Archive.validate)⟩
  else
    match Image.load disk path with
    | .error failure => ⟨path, none, some failure⟩
    | .ok image => ⟨path, some image.kind, failureOf image.validate⟩

end SecureBoot.Survey
