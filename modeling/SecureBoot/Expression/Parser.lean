import SecureBoot.Expression
import SecureBoot.Text.Hex

/-!
Reading S-expressions. A list is written in parentheses with white space between its members. An
atom is written as its length, a colon and its bytes, as hexadecimal digits between two number
signs, or, where its bytes allow it, as the bytes themselves. Reading stops after the first
complete expression; a fault is reported with its place in the input.
-/

namespace SecureBoot.Expression

/-- Space, tab, newline, form feed and carriage return. -/
def isSpace (byte : UInt8) : Bool :=
  byte == 0x20 || byte == 0x09 || byte == 0x0A || byte == 0x0C || byte == 0x0D

def isDigit (byte : UInt8) : Bool :=
  0x30 ≤ byte && byte ≤ 0x39

/-- `(` -/
def leftParenthesis : UInt8 := 0x28

/-- `)` -/
def rightParenthesis : UInt8 := 0x29

/-- `#` -/
def numberSign : UInt8 := 0x23

/-- `:` -/
def colon : UInt8 := 0x3A

/-- Whether a byte ends a bare atom. -/
def isDelimiter (byte : UInt8) : Bool :=
  isSpace byte || byte == leftParenthesis || byte == rightParenthesis || byte == numberSign

/-- The number that decimal digits state. -/
def decimal (digits : Bytes) : Nat :=
  digits.foldl (fun number digit => 10 * number + (digit.toNat - 0x30)) 0

/-- The pieces that expressions are written with. -/
inductive Token
  | opening
  | closing
  | atom (bytes : Bytes)
  deriving DecidableEq, Repr

/-- A fault at a place of an input of `total` bytes, given the bytes from that place on. -/
def faultAt (total : Nat) (rest : Bytes) (fault : ExpressionFault) : Failure :=
  .invalidField (.expression fault (total - rest.length))

/-- The bytes up to the next number sign and those after it. -/
def hexAtom (total : Nat) (rest : Bytes) : Except Failure (Bytes × Bytes) :=
  match rest.dropWhile (· != numberSign) with
  | [] => .error (faultAt total rest .unterminatedHexAtom)
  | _ :: after =>
    let digits := (rest.takeWhile (· != numberSign)).filter fun byte => !isSpace byte
    match Text.Hex.decode digits with
    | .ok bytes => .ok (bytes, after)
    | .error fault => .error (.invalidHex (.atom (total - rest.length) fault))

/-- The bytes counted by the digits before the next colon and those after them. -/
def countedAtom (total : Nat) (input : Bytes) : Except Failure (Bytes × Bytes) :=
  let length := decimal (input.takeWhile isDigit)
  let rest := input.dropWhile isDigit
  if 0x10000000000000000 ≤ length then .error (faultAt total rest .badLengthPrefix)
  else
    let body := rest.drop 1
    if length ≤ body.length then .ok (body.take length, body.drop length)
    else .error (faultAt total body .lengthPastEnd)

/-- Whether the input begins with digits and a colon. -/
def beginsCounted (input : Bytes) : Bool :=
  match input with
  | [] => false
  | first :: _ => isDigit first && (input.dropWhile isDigit).head? == some colon

/-- The next token of an input that does not begin with white space, and what follows it. -/
def token (total : Nat) (input : Bytes) : Except Failure (Option (Token × Bytes)) :=
  match input with
  | [] => .ok none
  | first :: rest =>
    if first = leftParenthesis then .ok (some (.opening, rest))
    else if first = rightParenthesis then .ok (some (.closing, rest))
    else if first = numberSign then do
      let (bytes, after) ← hexAtom total rest
      return some (.atom bytes, after)
    else if beginsCounted input then do
      let (bytes, after) ← countedAtom total input
      return some (.atom bytes, after)
    else
      let more := rest.takeWhile fun byte => !isDelimiter byte
      .ok (some (.atom (first :: more), rest.dropWhile fun byte => !isDelimiter byte))

/-- The next token after white space, and what follows it. -/
def nextToken (total : Nat) (input : Bytes) : Except Failure (Option (Token × Bytes)) :=
  token total (input.dropWhile isSpace)

theorem length_dropWhile_le (accepts : UInt8 → Bool) (input : Bytes) :
    (input.dropWhile accepts).length ≤ input.length :=
  (List.dropWhile_sublist accepts).length_le

theorem hexAtom_shorter {total : Nat} {input bytes after : Bytes}
    (read : hexAtom total input = .ok (bytes, after)) : after.length < input.length := by
  have bound := length_dropWhile_le (· != numberSign) input
  revert read
  unfold hexAtom
  split
  · intro read
    cases read
  · rename_i sign tail dropped
    rw [dropped, List.length_cons] at bound
    dsimp only
    split
    · intro read
      cases read
      omega
    · intro read
      cases read

theorem countedAtom_shorter {total : Nat} {first : UInt8} {input bytes after : Bytes}
    (digit : isDigit first = true)
    (read : countedAtom total (first :: input) = .ok (bytes, after)) :
    after.length < (first :: input).length := by
  have bound := length_dropWhile_le isDigit input
  revert read
  unfold countedAtom
  rw [List.dropWhile_cons_of_pos digit]
  dsimp only
  split
  · intro read
    cases read
  · split
    · intro read
      cases read
      simp only [List.length_drop, List.length_cons]
      omega
    · intro read
      cases read

/-- A token takes up at least one byte. -/
theorem token_shorter {total : Nat} {input after : Bytes} {read : Token}
    (found : token total input = .ok (some (read, after))) : after.length < input.length := by
  cases input with
  | nil => simp [token] at found
  | cons first rest =>
    simp only [token] at found
    split at found
    · cases found
      simp
    · split at found
      · cases found
        simp
      · split at found
        · cases atom : hexAtom total rest with
          | error failure => simp [atom, bind, Except.bind] at found
          | ok answer =>
            obtain ⟨bytes, tail⟩ := answer
            simp only [atom, bind, Except.bind, pure, Except.pure, Except.ok.injEq,
              Option.some.injEq, Prod.mk.injEq] at found
            have shorter := hexAtom_shorter atom
            rw [List.length_cons, ← found.2]
            omega
        · split at found
          · rename_i counted
            have digit : isDigit first = true := by
              simp only [beginsCounted, Bool.and_eq_true] at counted
              exact counted.1
            cases atom : countedAtom total (first :: rest) with
            | error failure => simp [atom, bind, Except.bind] at found
            | ok answer =>
              obtain ⟨bytes, tail⟩ := answer
              simp only [atom, bind, Except.bind, pure, Except.pure, Except.ok.injEq,
                Option.some.injEq, Prod.mk.injEq] at found
              rw [← found.2]
              exact countedAtom_shorter digit atom
          · simp only [Except.ok.injEq, Option.some.injEq, Prod.mk.injEq] at found
            have bound := length_dropWhile_le (fun byte => !isDelimiter byte) rest
            rw [← found.2, List.length_cons]
            omega

theorem nextToken_shorter {total : Nat} {input after : Bytes} {read : Token}
    (found : nextToken total input = .ok (some (read, after))) : after.length < input.length :=
  Nat.lt_of_lt_of_le (token_shorter found) (length_dropWhile_le isSpace input)

/-- Read on inside the lists that are open, innermost first and the members of each in reverse
order, until the outermost expression is complete. -/
def build (total : Nat) (opened : List (List Expression)) (input : Bytes) :
    Except Failure Expression :=
  match _found : nextToken total input with
  | .error failure => .error failure
  | .ok none =>
    .error (faultAt total []
      (if opened.isEmpty then .unexpectedEnd else .unterminatedList))
  | .ok (some (.opening, rest)) => build total ([] :: opened) rest
  | .ok (some (.closing, rest)) =>
    match opened with
    | [] => .error (faultAt total (rightParenthesis :: rest) .emptyToken)
    | [items] => .ok (.list items.reverse)
    | items :: outer :: further =>
      build total ((.list items.reverse :: outer) :: further) rest
  | .ok (some (.atom bytes, rest)) =>
    match opened with
    | [] => .ok (.atom bytes)
    | items :: further => build total ((.atom bytes :: items) :: further) rest
termination_by input.length
decreasing_by all_goals exact nextToken_shorter _found

/-- The first complete expression of an input. -/
def parse (input : Bytes) : Except Failure Expression :=
  build input.length [] input

end SecureBoot.Expression
