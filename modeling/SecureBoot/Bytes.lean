/-!
Byte strings, and the two operations every structure of the format is read and written
through: `slice` copies a range out, `splice` writes one in place. A splice inside the bytes
keeps their number, shows the patch where it was written and nothing else elsewhere.
-/

namespace SecureBoot

/-- A string of bytes. -/
abbrev Bytes := List UInt8

namespace Bytes

/-- The `size` bytes from `offset` on; fewer where the bytes end earlier. -/
def slice (bytes : Bytes) (offset size : Nat) : Bytes :=
  (bytes.drop offset).take size

/-- The bytes with `patch` written over them from `offset` on. -/
def splice (bytes : Bytes) (offset : Nat) (patch : Bytes) : Bytes :=
  bytes.take offset ++ patch ++ bytes.drop (offset + patch.length)

/-- The given number of zero bytes. -/
def zeros (size : Nat) : Bytes :=
  List.replicate size 0

/-- Whether every byte is zero. -/
def allZero (bytes : Bytes) : Bool :=
  bytes.all (· == 0)

theorem length_slice {bytes : Bytes} {offset size : Nat} (inside : offset + size ≤ bytes.length) :
    (slice bytes offset size).length = size := by
  simp only [slice, List.length_take, List.length_drop]
  omega

@[simp] theorem slice_zero_length (bytes : Bytes) : slice bytes 0 bytes.length = bytes := by
  simp [slice]

@[simp] theorem length_zeros (size : Nat) : (zeros size).length = size := by
  simp [zeros]

theorem length_splice {bytes patch : Bytes} {offset : Nat}
    (inside : offset + patch.length ≤ bytes.length) :
    (splice bytes offset patch).length = bytes.length := by
  simp only [splice, List.length_append, List.length_take, List.length_drop]
  omega

/-- What was written is read back. -/
theorem slice_splice {bytes patch : Bytes} {offset : Nat}
    (inside : offset + patch.length ≤ bytes.length) :
    slice (splice bytes offset patch) offset patch.length = patch := by
  have front : (bytes.take offset).length = offset := by
    simp only [List.length_take]
    omega
  rw [slice, splice, List.append_assoc, List.drop_left' front, List.take_left' rfl]

/-- Writing back what is there changes nothing. -/
theorem splice_slice {bytes : Bytes} {offset size : Nat} (inside : offset + size ≤ bytes.length) :
    splice bytes offset (slice bytes offset size) = bytes := by
  rw [splice, length_slice inside, slice, List.append_assoc, ← List.drop_drop,
    List.take_append_drop, List.take_append_drop]

end Bytes
end SecureBoot
