import SecureBoot.Bytes.Integer
import SecureBoot.Failure

/-!
Integers as the fields of an image hold them: one to eight bytes in either byte order, and lengths
in a 32-bit word. A value that does not fit its field is refused, never cut off.
-/

namespace SecureBoot.Bytes

/-- A value as a field of `size` bytes. -/
def encodeInteger (value : UInt64) (size : Nat) (order : Endian) : Except Failure Bytes := do
  require (1 ≤ size ∧ size ≤ 8) (.invariantViolation (.integerSize size))
  require (value.toNat < capacity size) (.invariantViolation (.integerTooLarge value.toNat size))
  return order.arrange (digits size value.toNat)

/-- The value of a field of at most eight bytes. -/
def decodeInteger (bytes : Bytes) (order : Endian) : Except Failure UInt64 := do
  require (bytes.length ≤ 8) (.invariantViolation (.tooManyBytes bytes.length))
  return UInt64.ofNat (value (order.arrange bytes))

/-- A length as a 32-bit field holds it. -/
def encodeLength (size : Nat) : Except Failure UInt32 := do
  require (size ≤ 0xFFFFFFFF) (.sizeExceeded size 0xFFFFFFFF)
  return UInt32.ofNat size

end SecureBoot.Bytes
