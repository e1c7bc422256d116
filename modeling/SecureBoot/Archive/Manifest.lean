import SecureBoot.Bytes.Sha2
import SecureBoot.Failure
import SecureBoot.Text.Blank
import SecureBoot.Text.Hex

/-!
Manifests: one line for each file of an archive, with its SHA-256 digest, two spaces and its name.
Reading ignores blank lines and white space around names and digests, and the case of digits.
Checking demands that files and lines match one to one.
-/

namespace SecureBoot.Manifest

/-- A line of a manifest. -/
structure Line where
  name : List Char
  digest : List Char
  deriving DecidableEq, Repr

/-- What the name of every manifest ends with. -/
def nameEnd : String := "_sha256.chk"

/-- Whether a name is the name of a manifest. -/
def isManifestName (name : String) : Bool :=
  nameEnd.toList.isSuffixOf name.toList

/-- The line for a name and a digest. -/
def renderLine (name digest : String) : String :=
  digest ++ "  " ++ name ++ "\n"

/-- Read lines, given in reverse those read before. No name may be listed twice. -/
def parseLines (known : List Line) : List (List Char) → Except Failure (List Line)
  | [] => .ok known.reverse
  | text :: rest =>
    if (Text.trim text).isEmpty then parseLines known rest
    else
      match Text.splitAtTwoSpaces text with
      | none => .error (.manifestMismatch (.malformedLine (String.ofList text)))
      | some (digest, name) => do
        let line : Line := ⟨Text.trim name, Text.trim digest⟩
        require (line.name ∉ known.map Line.name)
          (.manifestMismatch (.listedTwice (String.ofList name)))
        parseLines (line :: known) rest

/-- The lines of a manifest. -/
def parse (text : List Char) : Except Failure (List Line) :=
  parseLines [] (Text.lines text)

/-- Take the line of a name out of a list of lines. -/
def takeLine (name : List Char) : List Line → Option (Line × List Line)
  | [] => none
  | line :: rest =>
    if line.name = name then some (line, rest)
    else (takeLine name rest).map fun (found, others) => (found, line :: others)

/-- Check files against lines, each of which stands for one file. -/
def checkFiles : List Line → List (String × Bytes) → Except Failure Unit
  | [], [] => .ok ()
  | line :: _, [] => .error (.manifestMismatch (.notArchived (String.ofList line.name)))
  | lines, (name, bytes) :: rest =>
    match takeLine name.toList lines with
    | none => .error (.manifestMismatch (.notListed name))
    | some (line, others) => do
      let actual := Text.Hex.encodeChars (Bytes.sha256 bytes)
      require (line.digest.map Char.toLower = actual)
        (.manifestMismatch (.digestDiffers name (String.ofList line.digest)
          (String.ofList actual)))
      checkFiles others rest

/-- Accept exactly files that a manifest lists, each once and with its digest, and no others. -/
def verify (manifest : List Char) (files : List (String × Bytes)) : Except Failure Unit := do
  checkFiles (← parse manifest) files

end SecureBoot.Manifest
