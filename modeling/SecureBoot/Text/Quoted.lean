import SecureBoot.Text.Numeral
import SecureBoot.Text.Unprintable

/-!
Texts and single characters in quotation marks. Inside, the quotation mark in use and the
backslash follow a backslash, NUL, tab, newline and carriage return have letters of their own,
and a character without a picture is shown by its code point.
-/

namespace SecureBoot.Text.Quoted

/-- A character as it stands between two quotation marks of the given kind. -/
def escape (mark c : Char) : List Char :=
  if c = '\x00' then ['\\', '0']
  else if c = '\t' then ['\\', 't']
  else if c = '\n' then ['\\', 'n']
  else if c = '\x0d' then ['\\', 'r']
  else if c = mark ∨ c = '\\' then ['\\', c]
  else if isUnprintable c then ['\\', 'u', '\x7b'] ++ hexDigits c.toNat ++ ['\x7d']
  else [c]

/-- A text in double quotation marks. -/
def text (chars : List Char) : String :=
  String.ofList ('"' :: chars.flatMap (escape '"') ++ ['"'])

/-- A character in single quotation marks. -/
def char (c : Char) : String :=
  String.ofList ('\'' :: escape '\'' c ++ ['\''])

end SecureBoot.Text.Quoted
