import SecureBoot.Bytes

/-!
Bytes as pairs of hexadecimal digits. Writing uses lowercase digits; reading takes digits of
either case, given as the bytes of the text, and names the first byte that is no digit. What was
written reads back.
-/

namespace SecureBoot.Text.Hex

/-- Why a text is not a sequence of digit pairs. -/
inductive Fault
  | oddLength
  | badDigit (byte : UInt8) (position : Nat)
  deriving DecidableEq, Repr

/-- The lowercase digit of a number below 16. -/
def digit (number : Nat) : Char :=
  Nat.digitChar number

/-- The digits of a byte string, high half of each byte first. -/
def encodeChars (bytes : Bytes) : List Char :=
  bytes.flatMap fun byte => [digit (byte.toNat / 16), digit (byte.toNat % 16)]

/-- The digits of a byte string as a text. -/
def encode (bytes : Bytes) : String :=
  String.ofList (encodeChars bytes)

/-- The number a digit stands for, given the digit's byte. -/
def digitValue? (byte : UInt8) : Option Nat :=
  let code := byte.toNat
  if 0x30 ≤ code ∧ code ≤ 0x39 then some (code - 0x30)
  else if 0x41 ≤ code ∧ code ≤ 0x46 then some (code - 0x37)
  else if 0x61 ≤ code ∧ code ≤ 0x66 then some (code - 0x57)
  else none

/-- The bytes of digit pairs that begin at a position of the text. -/
def decodeFrom (position : Nat) : Bytes → Except Fault Bytes
  | [] => .ok []
  | [_] => .error .oddLength
  | high :: low :: rest =>
    match digitValue? high with
    | none => .error (.badDigit high position)
    | some highValue =>
      match digitValue? low with
      | none => .error (.badDigit low (position + 1))
      | some lowValue =>
        match decodeFrom (position + 2) rest with
        | .error fault => .error fault
        | .ok bytes => .ok (UInt8.ofNat (16 * highValue + lowValue) :: bytes)

/-- The bytes a text of digit pairs stands for. -/
def decode (text : Bytes) : Except Fault Bytes :=
  if text.length % 2 = 1 then .error .oddLength else decodeFrom 0 text

@[simp] theorem length_encodeChars (bytes : Bytes) :
    (encodeChars bytes).length = 2 * bytes.length := by
  induction bytes with
  | nil => rfl
  | cons byte rest ih =>
    simp only [encodeChars, List.flatMap_cons, List.length_append] at ih ⊢
    rw [ih]
    simp only [List.length_cons, List.length_nil]
    omega

private theorem digitValue?_digit (number : Fin 16) :
    digitValue? (digit number.val).val.toUInt8 = some number.val := by
  revert number
  decide

theorem decodeFrom_encodeChars (bytes : Bytes) (position : Nat) :
    decodeFrom position ((encodeChars bytes).map fun c => c.val.toUInt8) = .ok bytes := by
  induction bytes generalizing position with
  | nil => rfl
  | cons byte rest ih =>
    have small := byte.toNat_lt
    have high := digitValue?_digit ⟨byte.toNat / 16, by omega⟩
    have low := digitValue?_digit ⟨byte.toNat % 16, by omega⟩
    have joined : UInt8.ofNat (16 * (byte.toNat / 16) + byte.toNat % 16) = byte := by
      rw [Nat.div_add_mod, UInt8.ofNat_toNat]
    simp only [encodeChars, List.flatMap_cons, List.map_cons, List.cons_append,
      List.nil_append] at ih ⊢
    simp only [decodeFrom, high, low, ih, joined]

/-- Reading the digits of a byte string gives the byte string. -/
theorem decode_encodeChars (bytes : Bytes) :
    decode ((encodeChars bytes).map fun c => c.val.toUInt8) = .ok bytes := by
  have even : ¬ (2 * bytes.length) % 2 = 1 := by omega
  rw [decode, List.length_map, length_encodeChars, if_neg even, decodeFrom_encodeChars]

end SecureBoot.Text.Hex
