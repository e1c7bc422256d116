import SecureBoot.Failure

/-!
S-expressions, the form in which signing tokens export public keys: atoms of arbitrary bytes, and
lists. A keyword names the first list, depth first, that begins with it.
-/

namespace SecureBoot

/-- An atom or a list of expressions. -/
inductive Expression
  | atom (bytes : Bytes)
  | list (items : List Expression)

namespace Expression

/-- The bytes of an atom. -/
def atom? : Expression → Option Bytes
  | atom bytes => some bytes
  | list _ => none

mutual

/-- The members of the first list in an expression that begins with the keyword as an atom. -/
def find? (keyword : Bytes) : Expression → Option (List Expression)
  | atom _ => none
  | list items =>
    if items.head?.bind atom? = some keyword then some items else findAmong? keyword items

/-- The members of the first such list in a sequence of expressions. -/
def findAmong? (keyword : Bytes) : List Expression → Option (List Expression)
  | [] => none
  | first :: rest =>
    match find? keyword first with
    | some found => some found
    | none => findAmong? keyword rest

end

/-- The atom that follows the keyword in the first list that begins with it. -/
def valueOf? (keyword : Bytes) (expression : Expression) : Option Bytes := do
  let items ← find? keyword expression
  let value ← items[1]?
  value.atom?

end Expression
end SecureBoot
