import SecureBoot.Bytes.Integer
import SecureBoot.Failure
import SecureBoot.Text.Blank
import SecureBoot.Text.Utf8

/-!
Numbers of any size as hexadecimal texts: white space around them and the marker `0x` are
optional, the digits may be of either case and any count of them may be leading zeros. A number is
zero-extended to the size of its field.
-/

namespace SecureBoot.Text.HexNumber

/-- The digits of a text after white space at its ends and one marker are removed. -/
def digitsOf (text : List Char) : List Char :=
  match trim text with
  | '0' :: 'x' :: digits => digits
  | '0' :: 'X' :: digits => digits
  | digits => digits

/-- The bytes of digits of which there are an even number once a zero is put before an odd
number of them. -/
def paired (digits : List Char) : Bytes :=
  let bytes := utf8 digits
  if bytes.length % 2 = 1 then 0x30 :: bytes else bytes

/-- The number that a text states, as a field of `size` bytes. -/
def toField (text : String) (size : Nat) (order : Endian) : Except Failure Bytes := do
  let digits := digitsOf text.toList
  require (digits ≠ []) (.invalidHex (.empty text))
  let decoded ← match Hex.decode (paired digits) with
    | .ok bytes => .ok bytes
    | .error fault => .error (.invalidHex (.number text fault))
  let significant := decoded.dropWhile (· == 0)
  require (significant.length ≤ size) (.sizeExceeded significant.length size)
  return order.arrange
    (significant.reverse ++ Bytes.zeros (size - significant.length))

/-- The text of the number that a field holds, with two digits for every byte. -/
def ofField (bytes : Bytes) (order : Endian) : String :=
  "0x" ++ Hex.encode (order.arrange bytes.reverse)

end SecureBoot.Text.HexNumber
