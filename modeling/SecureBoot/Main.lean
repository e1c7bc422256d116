import SecureBoot.Command

/-!
The program: what its arguments lead to is copied from the file system into a disk value, and the
command line runs on that.
-/

namespace SecureBoot.Main

open Files

/-- The place in the file system that names lead to, in the form in which it can be asked about. -/
def entryAt (place : Place) : IO.FS.DirEntry :=
  ⟨"/", "/".intercalate place⟩

/-- What kind of thing is at a place, if anything is. -/
def typeAt? (place : Place) : IO (Option IO.FS.FileType) := do
  try
    return some (← (entryAt place).path.metadata).type
  catch _ => return none

/-- Copy a file; one that cannot be read is left out. -/
def copyFile (place : Place) (disk : Disk) : IO Disk := do
  try
    let bytes ← IO.FS.readBinFile (entryAt place).path
    return disk.put place (.file bytes.data.toList)
  catch _ => return disk

/-- Copy a directory with everything below it but links. -/
partial def copyTree (place : Place) (disk : Disk) : IO Disk := do
  let mut disk := disk.put place .directory
  for entry in ← (entryAt place).path.readDir do
    let below := place ++ [entry.fileName]
    match (← entry.path.symlinkMetadata).type with
    | .dir => disk ← copyTree below disk
    | .file => disk ← copyFile below disk
    | .symlink | .other => pure ()
  return disk

/-- Copy what is on the way along segments, and the whole of what is at its end. -/
def copyAlong (place : Place) (disk : Disk) : List String → IO Disk
  | [] => do
    match ← typeAt? place with
    | some .dir => copyTree place disk
    | some .file => copyFile place disk
    | some .symlink | some .other | none => return disk
  | segment :: rest => do
    let disk ← match ← typeAt? place with
      | some .dir => pure (disk.put place .directory)
      | some .file => copyFile place disk
      | some .symlink | some .other | none => pure disk
    match Disk.stepFrom place segment with
    | some next => copyAlong next disk rest
    | none => return disk

/-- A disk with everything that arguments may lead to. -/
def diskFor (arguments : List String) : IO Disk := do
  let names := (segments (← IO.currentDir).toString).filter (· ≠ "")
  let mut disk := Disk.empty names
  for argument in arguments do
    if argument.toList.head? ≠ some '-' then
      disk ← copyAlong (disk.startOf argument) disk (segments argument)
  return disk

end SecureBoot.Main

/-- Run the program. -/
def main (arguments : List String) : IO UInt32 := do
  let outcome := SecureBoot.Command.run (← SecureBoot.Main.diskFor arguments) arguments
  IO.print outcome.text
  unless outcome.complaint.isEmpty do
    IO.eprintln ("Error: " ++ outcome.complaint)
  return UInt32.ofNat outcome.code
