import SecureBoot.Archive.Container
import SecureBoot.Archive.Manifest
import SecureBoot.Files.Disk
import SecureBoot.Image

/-!
Archives: images under names, kept in a container together with a manifest. A container is accepted
only if its files are the ones that the manifest lists; only then they are recognised.
-/

namespace SecureBoot

/-- How much effort goes into making the members of a container small. -/
structure CompressionLevel where
  value : Nat
  deriving DecidableEq, Repr

namespace CompressionLevel

/-- Members are kept as they are. -/
def none : CompressionLevel := ⟨0⟩

def default : CompressionLevel := ⟨6⟩

def max : CompressionLevel := ⟨9⟩

/-- The level of a number; numbers above the highest level mean that one. -/
def ofNat (number : Nat) : CompressionLevel :=
  ⟨min number 9⟩

/-- How members are kept. -/
def packing (level : CompressionLevel) : Packing :=
  if level.value = 0 then .stored else .deflated level.value

end CompressionLevel

/-- Images under names, no two of which are the same, in the order in which they were added. -/
structure Archive where
  entries : List (String × Image)
  distinct : (entries.map Prod.fst).Nodup
  deriving DecidableEq, Repr

namespace Archive

def empty : Archive :=
  ⟨[], .nil⟩

/-- The number of images. -/
def length (archive : Archive) : Nat :=
  archive.entries.length

/-- Put an image in place of the one with the same name, or behind the others. -/
def insertInto (name : String) (image : Image) : List (String × Image) → List (String × Image)
  | [] => [(name, image)]
  | (other, old) :: rest =>
    if other = name then (name, image) :: rest else (other, old) :: insertInto name image rest

theorem mem_insertInto {name other : String} {image : Image} {entries : List (String × Image)}
    (there : other ∈ (insertInto name image entries).map Prod.fst) :
    other = name ∨ other ∈ entries.map Prod.fst := by
  induction entries with
  | nil => exact .inl (List.mem_singleton.mp there)
  | cons entry rest ih =>
    obtain ⟨taken, old⟩ := entry
    rw [insertInto] at there
    split at there
    · rcases List.mem_cons.mp there with here | later
      · exact .inl here
      · exact .inr (List.mem_cons_of_mem _ later)
    · rcases List.mem_cons.mp there with here | later
      · exact .inr (here ▸ List.mem_cons_self)
      · exact (ih later).imp id (List.mem_cons_of_mem _)

theorem nodup_insertInto (name : String) (image : Image) {entries : List (String × Image)}
    (distinct : (entries.map Prod.fst).Nodup) :
    ((insertInto name image entries).map Prod.fst).Nodup := by
  induction entries with
  | nil => exact List.nodup_cons.mpr ⟨List.not_mem_nil, .nil⟩
  | cons entry rest ih =>
    obtain ⟨taken, old⟩ := entry
    obtain ⟨fresh, others⟩ := List.nodup_cons.mp distinct
    rw [insertInto]
    split
    · rename_i same
      exact List.nodup_cons.mpr ⟨same ▸ fresh, others⟩
    · rename_i differ
      refine List.nodup_cons.mpr ⟨fun there => ?_, ih others⟩
      exact (mem_insertInto there).elim differ fresh

/-- The archive with an image under a name. -/
def insert (archive : Archive) (name : String) (image : Image) : Archive :=
  ⟨insertInto name image archive.entries, nodup_insertInto name image archive.distinct⟩

/-- The image under a name. -/
def get? (archive : Archive) (name : String) : Option Image :=
  archive.entries.lookup name

/-- The image under a name, and the archive without it. -/
def remove? (archive : Archive) (name : String) : Option (Image × Archive) :=
  (archive.get? name).map fun image =>
    (image, ⟨archive.entries.eraseP fun (other, _) => other = name,
      (List.eraseP_sublist.map Prod.fst).nodup archive.distinct⟩)

/-- The names in order. -/
def names (archive : Archive) : List String :=
  archive.entries.map Prod.fst

/-- The manifest of the images. -/
def manifest (archive : Archive) : String :=
  String.join (archive.entries.map fun (name, image) =>
    Manifest.renderLine name (Fragment.sha256Sum image))

/-- Check images in order. -/
def validateEntries : List (String × Image) → Except Failure Unit
  | [] => .ok ()
  | (_, image) :: rest => do
    image.validate
    validateEntries rest

/-- Check every image. -/
def validate (archive : Archive) : Except Failure Unit :=
  validateEntries archive.entries

/-- The members for a container: the images and, behind them, the manifest under the given name. -/
def members (archive : Archive) (manifestName : String) (level : CompressionLevel) :
    List Container.Entry :=
  archive.entries.map (fun (name, image) => ⟨name, image.toBytes, level.packing⟩) ++
    [⟨manifestName, Text.utf8 archive.manifest.toList, level.packing⟩]

/-- The name of the manifest in a container at a path. No image may have it. -/
def manifestName (archive : Archive) (path : String) : Except Failure String :=
  match Files.stem? path with
  | none => .error (.invalidField (.noFileName path))
  | some stem => do
    let name := stem ++ Manifest.nameEnd
    require (archive.get? name = none) (.invalidField (.reservedName name))
    return name

/-- Check every image and write the archive to a file. -/
def save [Container] (archive : Archive) (path : String) (level : CompressionLevel) :
    Edit Files.Disk Unit := do
  Edit.ask fun _ => archive.validate
  let name ← Edit.ask fun _ => archive.manifestName path
  Files.Disk.writeThrough path []
  Files.Disk.writeBy path (Container.write (archive.members name level))

/-- Divide members into the manifest and the files, given what was found before; directories are
left out. -/
def divide (path : String) (manifest : Option Bytes) (files : List (String × Bytes)) :
    List (Except Failure Container.Member) →
      Except Failure (Option Bytes × List (String × Bytes))
  | [] => .ok (manifest, files.reverse)
  | opened :: rest => do
    let member ← opened
    if member.isDirectory then divide path manifest files rest
    else
      let bytes ← member.contents
      if Manifest.isManifestName member.name then
        require (manifest = none) (.manifestMismatch (.second member.name path))
        divide path (some bytes) files rest
      else divide path manifest ((member.name, bytes) :: files) rest

/-- Recognise files and add them to an archive. -/
def recogniseFiles (archive : Archive) : List (String × Bytes) → Except Failure Archive
  | [] => .ok archive
  | (name, bytes) :: rest => do
    recogniseFiles (archive.insert name (← Image.ofBytes bytes)) rest

/-- The archive that files make up if they are the ones a manifest lists. -/
def ofFiles (path : String) (manifest : Option Bytes) (files : List (String × Bytes)) :
    Except Failure Archive :=
  match manifest with
  | none => .error (.manifestMismatch (.missing path))
  | some manifest => do
    Manifest.verify (Text.chars manifest) files
    recogniseFiles empty files

/-- The bytes of the container at a path. A directory can be opened, but is no container. -/
def containerAt (disk : Files.Disk) (path : String) : Except Failure Bytes :=
  match disk.find? path with
  | some (.file bytes) => .ok bytes
  | some .directory => .error .container
  | none => .error .inputOutput

/-- The archive in a file. -/
def load [Container] (disk : Files.Disk) (path : String) : Except Failure Archive := do
  let opened ← Container.members (← containerAt disk path)
  let (manifest, files) ← divide path none [] opened
  ofFiles path manifest files

end Archive
end SecureBoot
