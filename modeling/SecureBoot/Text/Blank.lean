/-!
White space as Unicode defines it, the trimming of texts and their division into lines.
-/

namespace SecureBoot.Text

/-- Whether a character has the property White_Space. -/
def isBlank (c : Char) : Bool :=
  let code := c.toNat
  (9 ≤ code && code ≤ 13) || code == 0x20 || code == 0x85 || code == 0xA0 || code == 0x1680 ||
    (0x2000 ≤ code && code ≤ 0x200A) || code == 0x2028 || code == 0x2029 || code == 0x202F ||
    code == 0x205F || code == 0x3000

/-- A text without the white space at its two ends. -/
def trim (text : List Char) : List Char :=
  ((text.dropWhile isBlank).reverse.dropWhile isBlank).reverse

/-- The lines of a text after the reversed start of the first of them. -/
def linesAfter (start : List Char) : List Char → List (List Char)
  | [] => if start.isEmpty then [] else [start.reverse]
  | c :: rest =>
    if c = '\n' then
      let line := match start with
        | '\x0d' :: before => before
        | _ => start
      line.reverse :: linesAfter [] rest
    else linesAfter (c :: start) rest

/-- The lines of a text: a line ends at a newline, before which one carriage return is dropped. -/
def lines (text : List Char) : List (List Char) :=
  linesAfter [] text

/-- The texts before and after the first two consecutive spaces. -/
def splitAtTwoSpaces : List Char → Option (List Char × List Char)
  | [] => none
  | [_] => none
  | c :: next :: rest =>
    if c = ' ' ∧ next = ' ' then some ([], rest)
    else (splitAtTwoSpaces (next :: rest)).map fun (before, after) => (c :: before, after)

/-- Core's white space is white space here. -/
theorem isBlank_of_isWhitespace {c : Char} (white : c.isWhitespace = true) : isBlank c = true := by
  simp only [Char.isWhitespace, Bool.or_eq_true, decide_eq_true_eq] at white
  rcases white with ((rfl | rfl) | rfl) | rfl <;> rfl

end SecureBoot.Text
