import SecureBoot.Edit
import SecureBoot.Files.Path
import SecureBoot.Stream

/-!
A disk as a value: directories and files, each at the place that the names on the way to it spell.
Relative paths start at the working directory. A path leads to a place only if every segment before
its last one leads to a directory.
-/

namespace SecureBoot.Files

/-- What a place holds. -/
inductive Node
  | directory
  | file (bytes : Bytes)
  deriving DecidableEq, Repr

/-- The names on the way from the root. -/
abbrev Place := List String

/-- The nodes of a disk below its root, each at its place, and the working directory. -/
structure Disk where
  workingDirectory : Place
  nodes : List (Place × Node)
  deriving DecidableEq, Repr

namespace Disk

/-- The longest name in bytes. -/
def nameLimit : Nat := 255

/-- The longest path in bytes. -/
def pathLimit : Nat := 4095

/-- A disk with nothing but its working directory and the directories on the way to it. -/
def empty (workingDirectory : Place) : Disk :=
  ⟨workingDirectory,
    (List.range workingDirectory.length).map fun count =>
      (workingDirectory.take (count + 1), .directory)⟩

/-- What a place holds. -/
def node? (disk : Disk) (place : Place) : Option Node :=
  if place = [] then some .directory else disk.nodes.lookup place

/-- The disk with a node put at a place. -/
def put (disk : Disk) (place : Place) (node : Node) : Disk :=
  { disk with
    nodes := disk.nodes.filter (fun (other, _) => other != place) ++ [(place, node)] }

/-- Whether a file can have a name. -/
def isName (name : String) : Bool :=
  (Text.utf8 name.toList).length ≤ nameLimit

/-- Whether a text can lead to anything: it must not be empty or too long, nor have a NUL. -/
def isPath (path : String) : Bool :=
  path ≠ "" && (Text.utf8 path.toList).length ≤ pathLimit && !path.toList.contains '\x00'

/-- The place that one segment leads to from a directory. -/
def stepFrom (place : Place) (segment : String) : Option Place :=
  if segment = "" ∨ segment = "." then some place
  else if segment = ".." then some place.dropLast
  else if isName segment then some (place ++ [segment])
  else none

/-- The place that segments lead to, each but the last by way of a directory. -/
def walk (disk : Disk) : Place → List String → Option Place
  | place, [] => some place
  | place, segment :: rest =>
    if disk.node? place = some .directory then
      match stepFrom place segment with
      | some next => disk.walk next rest
      | none => none
    else none

/-- Where a path starts. -/
def startOf (disk : Disk) (path : String) : Place :=
  if path.toList.head? = some '/' then [] else disk.workingDirectory

/-- The place that a path leads to, whether something is there or not. -/
def resolve (disk : Disk) (path : String) : Option Place :=
  if isPath path then disk.walk (disk.startOf path) (segments path) else none

/-- What a path leads to. -/
def find? (disk : Disk) (path : String) : Option Node :=
  (disk.resolve path).bind disk.node?

/-- Whether something is at a path. -/
def contains (disk : Disk) (path : String) : Bool :=
  (disk.find? path).isSome

def isDirectory (disk : Disk) (path : String) : Bool :=
  disk.find? path = some .directory

/-- The bytes of the file at a path. -/
def read (disk : Disk) (path : String) : Except Failure Bytes :=
  match disk.find? path with
  | some (.file bytes) => .ok bytes
  | some .directory | none => .error .inputOutput

/-- A stream over the file at a path. A directory can be opened, but not read. -/
def open? (disk : Disk) (path : String) : Except Failure Stream :=
  match disk.find? path with
  | some (.file bytes) => .ok (Stream.ofBytes bytes)
  | some .directory => .ok (Stream.ofSource .unreadable)
  | none => .error .inputOutput

/-- Create the directories that segments lead through, as far as there are none yet. -/
def createDirectories : Place → List String → Edit Disk Unit
  | _, [] => pure ()
  | place, segment :: rest => do
    match stepFrom place segment with
    | none => throw .inputOutput
    | some next =>
      match (← get).node? next with
      | some .directory => createDirectories next rest
      | some (.file _) => throw .inputOutput
      | none =>
        modify fun disk => disk.put next .directory
        createDirectories next rest

/-- Create the directories on the way to a path. -/
def createParents (path : String) : Edit Disk Unit := do
  if parent path ≠ "" then
    if !isPath (parent path) then throw .inputOutput
    createDirectories ((← get).startOf path) (segments (parent path))

/-- Put a file at a path, in place of another one. -/
def write (path : String) (bytes : Bytes) : Edit Disk Unit := fun disk =>
  match disk.resolve path with
  | none => .error .inputOutput disk
  | some place =>
    match disk.node? place with
    | some .directory => .error .inputOutput disk
    | some (.file _) | none => .ok () (disk.put place (.file bytes))

/-- Put a file at a path, after creating the directories on the way. -/
def writeThrough (path : String) (bytes : Bytes) : Edit Disk Unit := do
  createParents path
  write path bytes

/-- Put a file at a path as a call leaves it that begins with an empty one, even if the call fails. -/
def writeBy (path : String) (call : Edit Bytes Unit) : Edit Disk Unit := do
  write path (call.after [])
  Edit.ask fun _ => call.answer []

/-- What a place has behind another one it lies below. -/
def below? : Place → Place → Option Place
  | [], rest => some rest
  | a :: above, b :: rest => if a = b then below? above rest else none
  | _ :: _, [] => none

/-- The paths of all files below a path, itself included, in no particular order. -/
def filesBelow (disk : Disk) (path : String) : Except Failure (List String) :=
  match disk.resolve path with
  | none => .error .inputOutput
  | some place =>
    match disk.node? place with
    | none => .error .inputOutput
    | some (.file _) => .ok [path]
    | some .directory =>
      .ok (disk.nodes.filterMap fun (other, node) =>
        match node, below? place other with
        | .file _, some rest => some (rest.foldl join path)
        | _, _ => none)

end Disk
end SecureBoot.Files
