import SecureBoot.Bytes
import SecureBoot.Text.Utf8

/-!
Paths as texts. A path is divided at slashes; read as a list of steps, repeated slashes and single
dots are left out, so that paths which differ in nothing else have the same name, extension, parent
and place in the order.
-/

namespace SecureBoot.Files

/-- One step of a path. -/
inductive Step
  | root
  | here
  | up
  | name (text : String)
  deriving DecidableEq, Repr

/-- The texts between the slashes of a text, of which there is always one. -/
def splitAtSlashes : List Char → List (List Char)
  | [] => [[]]
  | c :: rest =>
    match splitAtSlashes rest with
    | [] => [[c]]
    | first :: others => if c = '/' then [] :: first :: others else (c :: first) :: others

/-- The segments of a path, as they are walked one after the other. -/
def segments (path : String) : List String :=
  (splitAtSlashes path.toList).map String.ofList

/-- The step of a segment inside a path. -/
def stepOf (segment : String) : Option Step :=
  if segment = "" ∨ segment = "." then none
  else if segment = ".." then some .up
  else some (.name segment)

/-- The steps of a path. A leading slash and a leading dot count, empty segments and further dots do
not. -/
def steps (path : String) : List Step :=
  match segments path with
  | [] => []
  | first :: rest =>
    if first = "." then .here :: rest.filterMap stepOf
    else if first = "" ∧ rest ≠ [] then .root :: rest.filterMap stepOf
    else (first :: rest).filterMap stepOf

namespace Step

/-- The place of a kind of step in the order. -/
def rank : Step → Nat
  | root => 0
  | here => 1
  | up => 2
  | name _ => 3

/-- Whether one step comes strictly before another: by kind, and names by their characters. -/
def precedes (first second : Step) : Bool :=
  match first, second with
  | name a, name b => a < b
  | _, _ => first.rank < second.rank

end Step

/-- Whether a list of steps does not come after another: the first difference decides. -/
def stepsInOrder : List Step → List Step → Bool
  | [], _ => true
  | _ :: _, [] => false
  | a :: first, b :: second =>
    if a = b then stepsInOrder first second else a.precedes b

/-- Whether a path does not come after another in the order by steps. -/
def pathsInOrder (first second : String) : Bool :=
  stepsInOrder (steps first) (steps second)

/-- The segments of a path, last one first, without those at its end that are no steps. -/
def stepsBackward : List String → List String
  | [] => []
  | [first] => [first]
  | segment :: before =>
    if segment = "" ∨ segment = "." then stepsBackward before else segment :: before

/-- The path without its last step. -/
def parent (path : String) : String :=
  let before := stepsBackward (stepsBackward (segments path).reverse).tail
  "/".intercalate before.reverse

/-- The name a path ends with. -/
def fileName? (path : String) : Option String :=
  match (steps path).getLast? with
  | some (.name text) => some text
  | _ => none

/-- What a name has before and after its last dot; a dot at its start counts as part of the name. -/
def divideName (name : String) : String × Option String :=
  let reversed := name.toList.reverse
  let extension := (reversed.takeWhile (· ≠ '.')).reverse
  match reversed.dropWhile (· ≠ '.') with
  | _ :: (c :: before) => (String.ofList (c :: before).reverse, some (String.ofList extension))
  | _ => (name, none)

/-- The name a path ends with, without its extension. -/
def stem? (path : String) : Option String :=
  (fileName? path).map fun name => (divideName name).1

/-- The extension of the name a path ends with. -/
def extension? (path : String) : Option String :=
  (fileName? path).bind fun name => (divideName name).2

/-- Whether two texts are the same but for the case of ASCII letters. -/
def sameButCase (first second : String) : Bool :=
  first.toList.map Char.toLower = second.toList.map Char.toLower

/-- Whether the name a path ends with has an extension, in any case of its letters. -/
def hasExtension (path extension : String) : Bool :=
  match extension? path with
  | some found => sameButCase extension found
  | none => false

/-- A name appended to a path. -/
def join (path name : String) : String :=
  if path.toList.getLast? = some '/' then path ++ name else path ++ "/" ++ name

end SecureBoot.Files
