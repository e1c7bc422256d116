import SecureBoot.Bytes

/-!
UTF-8 in both directions. Reading never fails: every longest sequence of bytes that starts a
character but does not finish it, and every byte that starts none, reads as U+FFFD.
-/

namespace SecureBoot.Text

/-- The bytes of a text. -/
def utf8 (text : List Char) : Bytes :=
  text.flatMap String.utf8EncodeChar

/-- A character that bytes have begun: what they contribute to it so far, and the ranges of its
bytes still to come. -/
structure Begun where
  code : Nat
  owed : List (Nat × Nat)
  deriving DecidableEq, Repr

namespace Begun

/-- No character is begun. -/
def none : Begun := ⟨0, []⟩

/-- The characters that a byte completes where none is begun, and the one that it begins. -/
def first (byte : Nat) : List Char × Begun :=
  let tail := (0x80, 0xBF)
  if byte < 0x80 then ([Char.ofNat byte], none)
  else if 0xC2 ≤ byte ∧ byte ≤ 0xDF then ([], ⟨byte - 0xC0, [tail]⟩)
  else if byte = 0xE0 then ([], ⟨0, [(0xA0, 0xBF), tail]⟩)
  else if byte = 0xED then ([], ⟨0xD, [(0x80, 0x9F), tail]⟩)
  else if 0xE1 ≤ byte ∧ byte ≤ 0xEF then ([], ⟨byte - 0xE0, [tail, tail]⟩)
  else if byte = 0xF0 then ([], ⟨0, [(0x90, 0xBF), tail, tail]⟩)
  else if 0xF1 ≤ byte ∧ byte ≤ 0xF3 then ([], ⟨byte - 0xF0, [tail, tail, tail]⟩)
  else if byte = 0xF4 then ([], ⟨4, [(0x80, 0x8F), tail, tail]⟩)
  else (['\ufffd'], none)

/-- The characters that one more byte completes, and the one that is begun after it. -/
def next (begun : Begun) (byte : Nat) : List Char × Begun :=
  match begun.owed with
  | [] => first byte
  | (low, high) :: later =>
    if low ≤ byte ∧ byte ≤ high then
      let code := 64 * begun.code + byte % 64
      if later.isEmpty then ([Char.ofNat code], none) else ([], ⟨code, later⟩)
    else
      let (shown, begun) := first byte
      ('\ufffd' :: shown, begun)

/-- The characters of the bytes after those that have begun one. -/
def charsAfter (begun : Begun) : Bytes → List Char
  | [] => if begun.owed.isEmpty then [] else ['\ufffd']
  | byte :: rest =>
    let (shown, begun) := begun.next byte.toNat
    shown ++ begun.charsAfter rest

end Begun

/-- The characters of a byte string. -/
def chars (bytes : Bytes) : List Char :=
  Begun.none.charsAfter bytes

/-- The characters of a byte string that holds nothing but whole characters. -/
def chars? (bytes : Bytes) : Option (List Char) :=
  if utf8 (chars bytes) = bytes then some (chars bytes) else none

end SecureBoot.Text
