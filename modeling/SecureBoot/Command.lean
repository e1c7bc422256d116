import SecureBoot.Survey
import SecureBoot.Zip.Container

/-!
The command line: `info` shows what a file holds and `validate` checks files. The arguments are read
from left to right; a request for help ends the reading, and so does the first argument that does
not fit.
-/

namespace SecureBoot.Command

/-- What help is asked about. -/
inductive Topic
  | overview
  | info
  | validate
  | help
  deriving DecidableEq, Repr

/-- What the program is asked to do. -/
inductive Request
  | info (path : String) (hashes : Bool)
  | validate (paths : List String)
  deriving DecidableEq, Repr

/-- Why the reading of arguments ends early. -/
inductive Stop
  | help (topic : Topic)
  | refused
  deriving DecidableEq, Repr

/-- An argument that is no operand. -/
inductive Flag
  | verbose
  | hashes
  | help
  deriving DecidableEq, Repr

/-- The flag with a long name. -/
def longFlag? (name : String) : Option Flag :=
  if name = "--verbose" then some .verbose
  else if name = "--hashes" then some .hashes
  else if name = "--help" then some .help
  else none

/-- The flag with a short name. -/
def shortFlag? (name : Char) : Option Flag :=
  if name = 'v' then some .verbose
  else if name = 'h' then some .help
  else none

/-- The flags that an argument names, none in place of each unknown one; no list if the argument is
an operand. -/
def flags? (argument : String) : Option (List (Option Flag)) :=
  match argument.toList with
  | '-' :: '-' :: _ => some [longFlag? argument]
  | '-' :: c :: rest => some ((c :: rest).map shortFlag?)
  | _ => none

/-- The flags seen after some more, each of which has to be allowed and given once. -/
def takeFlags (topic : Topic) (allowed seen : List Flag) :
    List (Option Flag) → Except Stop (List Flag)
  | [] => .ok seen
  | none :: _ => .error .refused
  | some .help :: _ => .error (.help topic)
  | some flag :: rest =>
    if flag ∈ allowed ∧ flag ∉ seen then takeFlags topic allowed (flag :: seen) rest
    else .error .refused

/-- The operands after some more, given in reverse; none is empty and there are at most so many. -/
def takeOperand (limit : Option Nat) (operands : List String) (argument : String) :
    Except Stop (List String) :=
  if argument = "" ∨ limit = some operands.length then .error .refused
  else .ok (argument :: operands)

/-- The flags and the operands that the arguments of a command are. After two dashes everything is
an operand. -/
def takeArguments (topic : Topic) (allowed : List Flag) (limit : Option Nat) (seen : List Flag)
    (operands : List String) : List String → Except Stop (List Flag × List String)
  | [] => .ok (seen, operands.reverse)
  | argument :: rest => do
    if argument = "--" then
      return (seen, (← rest.foldlM (takeOperand limit) operands).reverse)
    match flags? argument with
    | some flags =>
      takeArguments topic allowed limit (← takeFlags topic allowed seen flags) operands rest
    | none =>
      takeArguments topic allowed limit seen (← takeOperand limit operands argument) rest

/-- The request that the arguments of `info` make. -/
def parseInfo (arguments : List String) : Except Stop Request := do
  let (seen, operands) ← takeArguments .info [.verbose, .hashes] (some 1) [] [] arguments
  match operands with
  | [path] => return .info path (Flag.hashes ∈ seen)
  | _ => .error .refused

/-- The request that the arguments of `validate` make. -/
def parseValidate (arguments : List String) : Except Stop Request := do
  let (_, operands) ← takeArguments .validate [.verbose] none [] [] arguments
  if operands.isEmpty then .error .refused else return .validate operands

/-- What the arguments of `help` ask about. -/
def helpTopic : List String → Stop
  | [] => .help .overview
  | ["info"] => .help .info
  | ["validate"] => .help .validate
  | ["help"] => .help .help
  | _ => .refused

/-- The request that arguments make, given the flags seen so far. -/
def parseFrom (seen : List Flag) : List String → Except Stop Request
  | [] => .error .refused
  | argument :: rest =>
    if argument = "--" then .error .refused
    else
      match flags? argument with
      | some flags => do parseFrom (← takeFlags .overview [.verbose] seen flags) rest
      | none =>
        if argument = "info" then parseInfo rest
        else if argument = "validate" then parseValidate rest
        else if argument = "help" then .error (helpTopic rest)
        else .error .refused

/-- The request that arguments make. -/
def parse (arguments : List String) : Except Stop Request :=
  parseFrom [] arguments

/-- The text of help about a topic. -/
def helpText : Topic → String
  | .overview =>
    "FPGA bitstream signing object inspector\n\nUsage: cmfsign [OPTIONS] <COMMAND>\n\n" ++
      "Commands:\n  info      Print the parsed structure of a file\n" ++
      "  validate  Validate files; directories are searched for .cmf, .cert, .qky and .zip\n" ++
      "  help      Print this message or the help of the given subcommand(s)\n\n" ++
      "Options:\n  -v, --verbose  Enable debug logging\n  -h, --help     Print help\n"
  | .info =>
    "Print the parsed structure of a file\n\nUsage: cmfsign info [OPTIONS] <FILE>\n\n" ++
      "Arguments:\n  <FILE>  \n\n" ++
      "Options:\n      --hashes   Also print SHA-256 and SHA-384 of the file contents\n" ++
      "  -v, --verbose  Enable debug logging\n  -h, --help     Print help\n"
  | .validate =>
    "Validate files; directories are searched for .cmf, .cert, .qky and .zip\n\n" ++
      "Usage: cmfsign validate [OPTIONS] <PATHS>...\n\nArguments:\n  <PATHS>...  \n\n" ++
      "Options:\n  -v, --verbose  Enable debug logging\n  -h, --help     Print help\n"
  | .help =>
    "Print this message or the help of the given subcommand(s)\n\n" ++
      "Usage: cmfsign help [COMMAND]...\n\n" ++
      "Arguments:\n  [COMMAND]...  Print help for the subcommand(s)\n"

/-- What a run of the program leaves behind: its exit code, what it printed, and what it has to
complain about. -/
structure Outcome where
  code : Nat
  text : String
  complaint : String
  deriving DecidableEq, Repr

namespace Outcome

/-- A run that did what it was asked to do. -/
def done (text : String) : Outcome :=
  ⟨0, text, ""⟩

/-- A run that failed after printing a text. -/
def failed (text complaint : String) : Outcome :=
  ⟨1, text, complaint⟩

/-- A run whose arguments make no request. -/
def refused : Outcome :=
  ⟨2, "", "for the arguments, try --help"⟩

end Outcome

/-- What `info` prints about an image under a name. -/
def showImage (name : String) (image : Image) : String :=
  name ++ ": " ++ image.kind ++ "\n" ++ describe image

/-- The digests of an image. -/
def showHashes (image : Image) : String :=
  "SHA-256: " ++ Fragment.sha256Sum image ++ "\nSHA-384: " ++
    Text.Hex.encode (Fragment.sha384 image) ++ "\n"

/-- Show what an archive holds. -/
def runInfoOnArchive (disk : Files.Disk) (path : String) : Outcome :=
  match Archive.load disk path with
  | .error failure => .failed "" failure.message
  | .ok archive =>
    .done (String.join (archive.entries.map fun (name, image) => showImage name image))

/-- Show what a file holds, on request with digests. -/
def runInfoOnImage (disk : Files.Disk) (path : String) (hashes : Bool) : Outcome :=
  match Image.load disk path with
  | .error failure => .failed "" failure.message
  | .ok image =>
    let text := showImage path image ++ if hashes then showHashes image else ""
    match image.needsSigning with
    | .error failure => .failed text failure.message
    | .ok _ => .done text

/-- The line that `validate` prints about a file. -/
def showReport (report : Survey.Report) : String :=
  match report.failure with
  | none => "ok      " ++ report.path ++ " (" ++ report.kind.getD "?" ++ ")\n"
  | some failure => "FAILED  " ++ report.path ++ ": " ++ failure.message ++ "\n"

/-- Check files, and the files below directories. -/
def runValidate (disk : Files.Disk) (paths : List String) : Outcome :=
  match Survey.expand disk paths with
  | .error failure => .failed "" failure.message
  | .ok [] => .failed "" "no bitstream files found"
  | .ok files =>
    let reports := files.map (Survey.check disk)
    let text := String.join (reports.map showReport)
    let failures := reports.countP fun report => report.failure.isSome
    if failures = 0 then .done text
    else .failed text (toString failures ++ " files failed validation")

/-- Run the program with arguments on a disk. -/
def run (disk : Files.Disk) (arguments : List String) : Outcome :=
  match parse arguments with
  | .error (.help topic) => .done (helpText topic)
  | .error .refused => .refused
  | .ok (.info path hashes) =>
    if Survey.isArchive path then runInfoOnArchive disk path
    else runInfoOnImage disk path hashes
  | .ok (.validate paths) => runValidate disk paths

end SecureBoot.Command
