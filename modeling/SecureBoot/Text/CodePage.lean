import SecureBoot.Bytes

/-!
Code page 437, in which every byte is a character. The lower half is ASCII; the upper half has
accented letters, line drawing, Greek letters and mathematical signs.
-/

namespace SecureBoot.Text.CodePage

/-- The characters of the bytes from 0x80 on, sixteen in a row. -/
def upperHalf : List Char :=
  ["ÇüéâäàåçêëèïîìÄÅ",
    "ÉæÆôöòûùÿÖÜ¢£¥₧ƒ",
    "áíóúñÑªº¿⌐¬½¼¡«»",
    "░▒▓│┤╡╢╖╕╣║╗╝╜╛┐",
    "└┴┬├─┼╞╟╚╔╩╦╠═╬╧",
    "╨╤╥╙╘╒╓╫╪┘┌█▄▌▐▀",
    "αßΓπΣσ\u00b5τΦΘΩδ∞φε∩",
    "≡±≥≤⌠⌡÷≈°∙·√ⁿ²■\u00a0"].flatMap String.toList

/-- The character of a byte. -/
def char (byte : UInt8) : Char :=
  if byte.toNat < 0x80 then Char.ofNat byte.toNat else upperHalf[byte.toNat - 0x80]?.getD ' '

/-- The characters of a byte string. -/
def chars (bytes : Bytes) : List Char :=
  bytes.map char

end SecureBoot.Text.CodePage
