/-!
Numbers as text: hexadecimal with the marker `0x`, and fixed-width hexadecimal for words.
-/

namespace SecureBoot.Text

/-- The characters of a text, filled up on the left to a width. -/
def padLeft (width : Nat) (fill : Char) (text : List Char) : List Char :=
  List.replicate (width - text.length) fill ++ text

/-- The lowercase hexadecimal digits of a number, none of them a leading zero. -/
def hexDigits (number : Nat) : List Char :=
  Nat.toDigits 16 number

/-- A number as `0x` and lowercase hexadecimal digits. -/
def hex (number : Nat) : String :=
  "0x" ++ String.ofList (hexDigits number)

/-- A number as `0x` and at least the given count of lowercase hexadecimal digits. -/
def hexPadded (count number : Nat) : String :=
  "0x" ++ String.ofList (padLeft count '0' (hexDigits number))

/-- A word as `0x` and eight lowercase hexadecimal digits. -/
def hexWord (word : UInt32) : String :=
  hexPadded 8 word.toNat

/-- Uppercase hexadecimal digits, filled up on the left to a width. -/
def upperHex (width : Nat) (fill : Char) (number : Nat) : String :=
  String.ofList (padLeft width fill ((hexDigits number).map Char.toUpper))

end SecureBoot.Text
