import SecureBoot.Bytes

/-!
Unsigned integers as bytes. `digits` writes a number in base 256, least significant byte first;
`value` reads it back. They undo each other for numbers below `capacity`, the number of values that
so many digits have.
-/

namespace SecureBoot

/-- The order in which the bytes of a field are stored. -/
inductive Endian
  | little
  | big
  deriving DecidableEq, Repr

namespace Endian

/-- Bytes given least significant first, put into this order; applied twice it changes nothing. -/
def arrange : Endian → Bytes → Bytes
  | .little, bytes => bytes
  | .big, bytes => bytes.reverse

@[simp] theorem arrange_arrange (order : Endian) (bytes : Bytes) :
    order.arrange (order.arrange bytes) = bytes := by
  cases order <;> simp [arrange]

@[simp] theorem length_arrange (order : Endian) (bytes : Bytes) :
    (order.arrange bytes).length = bytes.length := by
  cases order <;> simp [arrange]

end Endian

namespace Bytes

/-- The lowest `size` base-256 digits of a number, least significant first. -/
def digits : Nat → Nat → Bytes
  | 0, _ => []
  | size + 1, number => UInt8.ofNat number :: digits size (number / 256)

/-- The number whose base-256 digits are given least significant first. -/
def value : Bytes → Nat
  | [] => 0
  | byte :: rest => byte.toNat + 256 * value rest

/-- How many values a field of `size` bytes has. -/
def capacity : Nat → Nat
  | 0 => 1
  | size + 1 => 256 * capacity size

/-- A 32-bit word, least significant byte first. -/
def ofWord (word : UInt32) : Bytes :=
  digits 4 word.toNat

/-- The 32-bit word stored in four bytes, least significant first. -/
def toWord (bytes : Bytes) : UInt32 :=
  UInt32.ofNat (value bytes)

/-- The word stored at `offset`; callers see to it that four bytes are there. -/
def wordAt (bytes : Bytes) (offset : Nat) : UInt32 :=
  toWord (slice bytes offset 4)

@[simp] theorem length_digits (size number : Nat) : (digits size number).length = size := by
  induction size generalizing number with
  | zero => rfl
  | succ size ih => simp [digits, ih]

@[simp] theorem length_ofWord (word : UInt32) : (ofWord word).length = 4 :=
  length_digits 4 _

theorem value_digits (size number : Nat) :
    value (digits size number) = number % capacity size := by
  induction size generalizing number with
  | zero => simp [digits, value, capacity, Nat.mod_one]
  | succ size ih =>
    have first : (UInt8.ofNat number).toNat = number % 256 := UInt8.toNat_ofNat'
    rw [digits, value, ih, first, capacity, Nat.mod_mul]

theorem value_lt (bytes : Bytes) : value bytes < capacity bytes.length := by
  induction bytes with
  | nil => exact Nat.one_pos
  | cons byte rest ih =>
    have small := byte.toNat_lt
    rw [value, List.length_cons, capacity]
    omega

theorem digits_value (bytes : Bytes) : digits bytes.length (value bytes) = bytes := by
  induction bytes with
  | nil => rfl
  | cons byte rest ih =>
    have small := byte.toNat_lt
    have quotient : (byte.toNat + 256 * value rest) / 256 = value rest := by omega
    have first : UInt8.ofNat (byte.toNat + 256 * value rest) = byte := by
      apply UInt8.toNat_inj.mp
      rw [UInt8.toNat_ofNat']
      omega
    rw [List.length_cons, value, digits, quotient, ih, first]

@[simp] theorem toWord_ofWord (word : UInt32) : toWord (ofWord word) = word := by
  have small : word.toNat < capacity 4 := word.toNat_lt
  rw [toWord, ofWord, value_digits, Nat.mod_eq_of_lt small, UInt32.ofNat_toNat]

end Bytes
end SecureBoot
