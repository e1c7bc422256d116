import Mathlib.Algebra.Group.Nat.Defs
import Mathlib.Tactic.Common
import SecureBoot.Bytes.Crc
import SecureBoot.Bytes.Integer

/-!
Slices and splices of byte strings laid end to end: a slice that lies in one of them is a slice of
that one, and a splice shows in no slice that it does not touch. Words are stored and read back
without loss.
-/

namespace SecureBoot.Bytes

variable {bytes patch left right : Bytes} {offset start size : Nat}

theorem getElem?_slice (bytes : Bytes) (offset size index : Nat) :
    (slice bytes offset size)[index]? = if index < size then bytes[offset + index]? else none := by
  simp [slice, List.getElem?_take, List.getElem?_drop]

theorem getElem?_splice (inside : offset ≤ bytes.length) (index : Nat) :
    (splice bytes offset patch)[index]? =
      if index < offset then bytes[index]?
      else if index < offset + patch.length then patch[index - offset]? else bytes[index]? := by
  rw [splice, List.append_assoc]
  have front : (bytes.take offset).length = offset := List.length_take_of_le inside
  by_cases before : index < offset
  · rw [List.getElem?_append_left (by omega), if_pos before, List.getElem?_take_of_lt before]
  · rw [List.getElem?_append_right (by omega), if_neg before, front]
    by_cases within : index < offset + patch.length
    · rw [List.getElem?_append_left (by omega), if_pos within]
    · rw [List.getElem?_append_right (by omega), if_neg within, List.getElem?_drop]
      congr 1
      omega

/-- Writing changes no byte outside the patch. -/
theorem getElem?_splice_of_outside {index : Nat} (room : offset ≤ bytes.length)
    (outside : index < offset ∨ offset + patch.length ≤ index) :
    (splice bytes offset patch)[index]? = bytes[index]? := by
  rw [getElem?_splice room]
  rcases outside with before | behind
  · rw [if_pos before]
  · rw [if_neg (by omega), if_neg (by omega)]

theorem slice_append_left (inside : offset + size ≤ left.length) :
    slice (left ++ right) offset size = slice left offset size := by
  rw [slice, slice, List.drop_append_of_le_length (by omega), List.take_append_of_le_length]
  simp only [List.length_drop]
  omega

theorem slice_append_right (beyond : left.length ≤ offset) :
    slice (left ++ right) offset size = slice right (offset - left.length) size := by
  rw [slice, slice, List.drop_append, List.drop_eq_nil_of_le beyond, List.nil_append]

theorem slice_zero (bytes : Bytes) (size : Nat) : slice bytes 0 size = bytes.take size := by
  rw [slice, List.drop_zero]

theorem slice_zeros {count : Nat} (inside : offset + count ≤ size) :
    slice (zeros size) offset count = zeros count := by
  rw [slice, zeros, List.drop_replicate, List.take_replicate, Nat.min_eq_left (by omega), zeros]

/-- Two slices that meet are one slice. -/
theorem slice_append_slice (bytes : Bytes) (offset first second : Nat) :
    slice bytes offset first ++ slice bytes (offset + first) second =
      slice bytes offset (first + second) := by
  rw [slice, slice, slice, ← List.drop_drop, List.take_add]

theorem slice_slice (within : offset + size ≤ start) (bytes : Bytes) (base : Nat) :
    slice (slice bytes base start) offset size = slice bytes (base + offset) size := by
  rw [slice, slice, slice, List.drop_take, List.take_take, List.drop_drop, Nat.min_eq_left]
  omega

/-- What is written in one place shows in no other. -/
theorem slice_splice_of_disjoint (inside : offset + patch.length ≤ bytes.length)
    (apart : start + size ≤ offset ∨ offset + patch.length ≤ start) :
    slice (splice bytes offset patch) start size = slice bytes start size := by
  apply List.ext_getElem?
  intro index
  rw [getElem?_slice, getElem?_slice]
  by_cases within : index < size
  · rw [if_pos within, if_pos within, getElem?_splice_of_outside (Nat.le_of_add_right_le inside)]
    omega
  · rw [if_neg within, if_neg within]

theorem take_splice_of_le (inside : offset + patch.length ≤ bytes.length) (before : size ≤ offset) :
    (splice bytes offset patch).take size = bytes.take size := by
  rw [← slice_zero, ← slice_zero]
  exact slice_splice_of_disjoint inside (.inl (by omega))

/-- Writing what is there already changes nothing. -/
theorem splice_of_slice_eq (inside : offset + patch.length ≤ bytes.length)
    (same : slice bytes offset patch.length = patch) : splice bytes offset patch = bytes := by
  conv_lhs => rw [← same]
  exact splice_slice inside

/-- Two patches that meet are one patch. -/
theorem splice_splice_after {more : Bytes}
    (inside : offset + (patch.length + more.length) ≤ bytes.length) :
    splice (splice bytes offset patch) (offset + patch.length) more =
      splice bytes offset (patch ++ more) := by
  apply List.ext_getElem?
  intro index
  have long : (splice bytes offset patch).length = bytes.length := length_splice (by omega)
  rw [getElem?_splice (by omega), getElem?_splice (by omega), getElem?_splice (by omega),
    List.length_append, List.getElem?_append, Nat.sub_add_eq]
  grind

theorem splice_splice_before {more : Bytes}
    (inside : offset + (more.length + patch.length) ≤ bytes.length) :
    splice (splice bytes (offset + more.length) patch) offset more =
      splice bytes offset (more ++ patch) := by
  apply List.ext_getElem?
  intro index
  have long : (splice bytes (offset + more.length) patch).length = bytes.length :=
    length_splice (by omega)
  rw [getElem?_splice (by omega), getElem?_splice (by omega), getElem?_splice (by omega),
    List.length_append, List.getElem?_append, Nat.sub_add_eq]
  grind

theorem capacity_eq (size : Nat) : capacity size = 256 ^ size := by
  induction size with
  | zero => rfl
  | succ size ih => rw [capacity, ih, Nat.pow_succ, Nat.mul_comm]

theorem ofWord_toWord (four : bytes.length = 4) : ofWord (toWord bytes) = bytes := by
  have bounded := value_lt bytes
  rw [four] at bounded
  have small : value bytes < 2 ^ 32 := bounded
  rw [ofWord, toWord, UInt32.toNat_ofNat_of_lt' small, ← four, digits_value]

theorem wordAt_append_left (inside : offset + 4 ≤ left.length) :
    wordAt (left ++ right) offset = wordAt left offset := by
  rw [wordAt, wordAt, slice_append_left inside]

theorem wordAt_append_right (beyond : left.length ≤ offset) :
    wordAt (left ++ right) offset = wordAt right (offset - left.length) := by
  rw [wordAt, wordAt, slice_append_right beyond]

theorem wordAt_ofWord_append (word : UInt32) (rest : Bytes) : wordAt (ofWord word ++ rest) 0 = word := by
  have four : (ofWord word).length = 4 := length_ofWord word
  rw [wordAt_append_left (Nat.le_of_eq four.symm), wordAt, slice_zero,
    List.take_of_length_le (Nat.le_of_eq four), toWord_ofWord]

theorem wordAt_ofWord_append_add (word : UInt32) (rest : Bytes) (offset : Nat) :
    wordAt (ofWord word ++ rest) (offset + 4) = wordAt rest offset := by
  have four : (ofWord word).length = 4 := length_ofWord word
  rw [wordAt_append_right (by omega), four, Nat.add_sub_cancel]

theorem wordAt_take (within : offset + 4 ≤ size) (bytes : Bytes) :
    wordAt (bytes.take size) offset = wordAt bytes offset := by
  rw [wordAt, wordAt, ← slice_zero, slice_slice within, Nat.zero_add]

theorem wordAt_splice {word : UInt32} (inside : offset + 4 ≤ bytes.length) :
    wordAt (splice bytes offset (ofWord word)) offset = word := by
  have fits : offset + (ofWord word).length ≤ bytes.length := by
    rw [length_ofWord]
    exact inside
  have back := slice_splice fits
  rw [length_ofWord] at back
  rw [wordAt, back, toWord_ofWord]

@[simp] theorem length_splice_ofWord {word : UInt32} (inside : offset + 4 ≤ bytes.length) :
    (splice bytes offset (ofWord word)).length = bytes.length :=
  length_splice (by rw [length_ofWord]; exact inside)

theorem wordAt_splice_of_disjoint (inside : offset + patch.length ≤ bytes.length)
    (apart : start + 4 ≤ offset ∨ offset + patch.length ≤ start) :
    wordAt (splice bytes offset patch) start = wordAt bytes start := by
  rw [wordAt, wordAt, slice_splice_of_disjoint inside apart]

theorem wordAt_splice_ofWord_of_disjoint {word : UInt32} (inside : offset + 4 ≤ bytes.length)
    (apart : start + 4 ≤ offset ∨ offset + 4 ≤ start) :
    wordAt (splice bytes offset (ofWord word)) start = wordAt bytes start := by
  have four : (ofWord word).length = 4 := length_ofWord word
  exact wordAt_splice_of_disjoint (by rwa [four]) (by rwa [four])

theorem ofWord_wordAt (inside : offset + 4 ≤ bytes.length) :
    ofWord (wordAt bytes offset) = slice bytes offset 4 :=
  ofWord_toWord (length_slice inside)

/-- Storing the word that is there already changes nothing. -/
theorem splice_wordAt (inside : offset + 4 ≤ bytes.length) :
    splice bytes offset (ofWord (wordAt bytes offset)) = bytes := by
  rw [ofWord_wordAt inside]
  exact splice_slice inside

end SecureBoot.Bytes
