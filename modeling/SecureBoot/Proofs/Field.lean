import SecureBoot.Proofs.Buffer

/-!
Fields: integers of one to eight bytes that stand in a range of a buffer. Writing a field is the
inverse of reading it. A field is written just if its range lies inside the buffer and its size and
value are admitted, and then shows in no other byte; read in the opposite byte order, it is the
number with the same bytes the other way round.
-/

namespace SecureBoot

/-- The other byte order. -/
def Endian.opposite : Endian → Endian
  | .little => .big
  | .big => .little

theorem Endian.arrange_opposite (order : Endian) (bytes : Bytes) :
    order.opposite.arrange bytes = (order.arrange bytes).reverse := by
  cases order with
  | little => rfl
  | big => exact (List.reverse_reverse bytes).symm

namespace Bytes

variable {bytes : Bytes} {size : Nat} {order : Endian} {number : UInt64}

/-- Of two numbers, the second has the lowest `size` bytes of the first in reversed order, and no
others. -/
structure Mirrored (size first second : Nat) : Prop where
  fits : second < 256 ^ size
  digit : ∀ index < size, second / 256 ^ index % 256 = first / 256 ^ (size - 1 - index) % 256

/-- The digit of a number at a place is the byte there; behind the last byte it is zero. -/
theorem value_digit (bytes : Bytes) (index : Nat) :
    value bytes / 256 ^ index % 256 = (bytes[index]?.getD 0).toNat := by
  induction bytes generalizing index with
  | nil => simp [value]
  | cons byte rest ih =>
    have small := byte.toNat_lt
    cases index with
    | zero =>
      rw [value, Nat.pow_zero, Nat.div_one, List.getElem?_cons_zero, Option.getD_some]
      omega
    | succ index =>
      have quotient : (byte.toNat + 256 * value rest) / 256 = value rest := by omega
      rw [value, Nat.pow_succ', ← Nat.div_div_eq_div_mul, quotient, ih, List.getElem?_cons_succ]

theorem mirrored_reverse (bytes : Bytes) :
    Mirrored bytes.length (value bytes) (value bytes.reverse) where
  fits := by
    rw [← capacity_eq, ← List.length_reverse]
    exact value_lt bytes.reverse
  digit index inside := by
    rw [value_digit, value_digit, List.getElem?_reverse inside]

example : Mirrored 3 0x010203 0x030201 := ⟨by decide, by decide⟩

theorem encodeInteger_eq_ok_iff :
    encodeInteger number size order = .ok bytes ↔
      (1 ≤ size ∧ size ≤ 8) ∧ number.toNat < 256 ^ size ∧
        order.arrange (digits size number.toNat) = bytes := by
  simp [encodeInteger, capacity_eq, and_assoc]

theorem decodeInteger_eq_ok_iff :
    decodeInteger bytes order = .ok number ↔
      bytes.length ≤ 8 ∧ value (order.arrange bytes) = number.toNat := by
  simp only [decodeInteger, bind_eq_ok_iff, require_eq_ok_iff, exists_unit_iff, pure_eq_ok_iff]
  refine and_congr_right fun short => ?_
  -- so few bytes hold no number that 64 bits would cut off
  have small : value (order.arrange bytes) < 2 ^ 64 := by
    have bounded := value_lt (order.arrange bytes)
    rw [Endian.length_arrange, capacity_eq] at bounded
    exact Nat.lt_of_lt_of_le bounded (Nat.pow_le_pow_right (by decide) short)
  rw [← UInt64.toNat_inj, UInt64.toNat_ofNat_of_lt' small]

/-- Writing an integer is the inverse of reading it. -/
theorem encodeInteger_eq_ok_iff_decodeInteger :
    encodeInteger number size order = .ok bytes ↔
      1 ≤ size ∧ bytes.length = size ∧ decodeInteger bytes order = .ok number := by
  rw [encodeInteger_eq_ok_iff, decodeInteger_eq_ok_iff]
  constructor
  · rintro ⟨⟨positive, short⟩, fits, rfl⟩
    have long : (order.arrange (digits size number.toNat)).length = size := by
      rw [Endian.length_arrange, length_digits]
    have back : value (order.arrange (order.arrange (digits size number.toNat))) = number.toNat := by
      rw [Endian.arrange_arrange, value_digits, capacity_eq, Nat.mod_eq_of_lt fits]
    exact ⟨positive, long, Nat.le_trans (Nat.le_of_eq long) short, back⟩
  · rintro ⟨positive, rfl, short, same⟩
    have fits := value_lt (order.arrange bytes)
    have back := digits_value (order.arrange bytes)
    rw [same, Endian.length_arrange] at fits back
    rw [capacity_eq] at fits
    rw [back, Endian.arrange_arrange]
    exact ⟨⟨positive, short⟩, fits, rfl⟩

/-- Read in the opposite order, the bytes of a number are those of its mirror image. -/
theorem decodeInteger_opposite (read : decodeInteger bytes order = .ok number) :
    ∃ swapped, decodeInteger bytes order.opposite = .ok swapped ∧
      Mirrored bytes.length number.toNat swapped.toNat := by
  obtain ⟨short, same⟩ := decodeInteger_eq_ok_iff.mp read
  have other : decodeInteger bytes order.opposite =
      .ok (UInt64.ofNat (value (order.opposite.arrange bytes))) := by
    rw [decodeInteger, bind_of_ok (require_of short)]
    rfl
  have mirrored := mirrored_reverse (order.arrange bytes)
  rw [Endian.length_arrange, ← Endian.arrange_opposite, same,
    (decodeInteger_eq_ok_iff.mp other).2] at mirrored
  exact ⟨_, other, mirrored⟩

end Bytes

namespace Buffer

variable {buffer changed : Buffer} {offset size : Nat} {order : Endian} {value : UInt64}
  {failure : Failure}

theorem getValue_eq_ok_iff :
    buffer.getValue offset size order = .ok value ↔
      offset + size ≤ buffer.size ∧
        Bytes.decodeInteger (Bytes.slice buffer.bytes offset size) order = .ok value := by
  simp [getValue, and_assoc]

/-- A value is stored by writing the bytes from which it is read. -/
theorem setValue_eq_ok_iff :
    buffer.setValue value offset size order = .ok changed ↔
      1 ≤ size ∧ ∃ bytes, bytes.length = size ∧ Bytes.decodeInteger bytes order = .ok value ∧
        buffer.setRaw bytes offset = .ok changed := by
  simp only [setValue, checkRange, bind_eq_ok_iff, require_eq_ok_iff, exists_unit_iff,
    Bytes.encodeInteger_eq_ok_iff_decodeInteger]
  constructor
  · rintro ⟨-, bytes, ⟨positive, long, decoded⟩, written⟩
    exact ⟨positive, bytes, long, decoded, written⟩
  · rintro ⟨positive, bytes, rfl, decoded, written⟩
    -- the first check of the range is the one that writing makes again
    obtain ⟨inside, -⟩ := setRaw_eq_ok_iff.mp written
    exact ⟨inside, bytes, ⟨positive, rfl, decoded⟩, written⟩

theorem setValue_exists_iff :
    (∃ changed, buffer.setValue value offset size order = .ok changed) ↔
      offset + size ≤ buffer.size ∧ (1 ≤ size ∧ size ≤ 8) ∧ value.toNat < 256 ^ size := by
  constructor
  · rintro ⟨changed, stored⟩
    obtain ⟨positive, bytes, rfl, decoded, written⟩ := setValue_eq_ok_iff.mp stored
    obtain ⟨inside, -⟩ := setRaw_eq_ok_iff.mp written
    have encoded := Bytes.encodeInteger_eq_ok_iff_decodeInteger.mpr ⟨positive, rfl, decoded⟩
    obtain ⟨admitted, fits, -⟩ := Bytes.encodeInteger_eq_ok_iff.mp encoded
    exact ⟨inside, admitted, fits⟩
  · rintro ⟨inside, admitted, fits⟩
    have encoded : Bytes.encodeInteger value size order =
        .ok (order.arrange (Bytes.digits size value.toNat)) :=
      Bytes.encodeInteger_eq_ok_iff.mpr ⟨admitted, fits, rfl⟩
    obtain ⟨positive, long, decoded⟩ := Bytes.encodeInteger_eq_ok_iff_decodeInteger.mp encoded
    refine ⟨_, setValue_eq_ok_iff.mpr ⟨positive, _, long, decoded, setRaw_eq_ok_iff.mpr ⟨?_, rfl⟩⟩⟩
    rwa [long]

/-- A refused value is reported for its range first, then for its size, then for itself. -/
theorem failure_of_setValue (refused : buffer.setValue value offset size order = .error failure) :
    failure =
      if buffer.size < offset + size then .outOfBounds offset size buffer.size
      else if size = 0 ∨ 8 < size then .invariantViolation (.integerSize size)
      else .invariantViolation (.integerTooLarge value.toNat size) := by
  have unstored : ¬ ∃ changed, buffer.setValue value offset size order = .ok changed := by
    rintro ⟨changed, stored⟩
    cases refused.symm.trans stored
  rw [setValue, checkRange] at refused
  by_cases inside : offset + size ≤ buffer.size
  · rw [bind_of_ok (require_of inside), Bytes.encodeInteger] at refused
    rw [if_neg (Nat.not_lt.mpr inside)]
    by_cases admitted : 1 ≤ size ∧ size ≤ 8
    · have large : ¬ value.toNat < Bytes.capacity size := by
        rw [Bytes.capacity_eq]
        exact fun fits => unstored (setValue_exists_iff.mpr ⟨inside, admitted, fits⟩)
      rw [bind_of_ok (require_of admitted), require_bind_of_not large] at refused
      rw [if_neg (by omega)]
      exact (Except.error.inj refused).symm
    · rw [require_bind_of_not admitted] at refused
      rw [if_pos (by omega)]
      exact (Except.error.inj refused).symm
  · rw [require_bind_of_not inside] at refused
    rw [if_pos (Nat.not_le.mp inside)]
    exact (Except.error.inj refused).symm

/-- A stored value is read back. -/
theorem getValue_setValue (stored : buffer.setValue value offset size order = .ok changed) :
    changed.getValue offset size order = .ok value := by
  obtain ⟨-, bytes, rfl, decoded, written⟩ := setValue_eq_ok_iff.mp stored
  have sized := size_setRaw written
  obtain ⟨inside, rfl⟩ := setRaw_eq_ok_iff.mp written
  rw [getValue_eq_ok_iff, sized, Bytes.slice_splice inside]
  exact ⟨inside, decoded⟩

/-- Storing a value changes nothing but bytes. -/
theorem layout_setValue (stored : buffer.setValue value offset size order = .ok changed) :
    changed = { buffer with bytes := changed.bytes } := by
  obtain ⟨-, bytes, -, -, written⟩ := setValue_eq_ok_iff.mp stored
  obtain ⟨-, rfl⟩ := setRaw_eq_ok_iff.mp written
  rfl

theorem size_setValue (stored : buffer.setValue value offset size order = .ok changed) :
    changed.size = buffer.size := by
  obtain ⟨-, bytes, -, -, written⟩ := setValue_eq_ok_iff.mp stored
  exact size_setRaw written

/-- Storing a value shows in no byte outside its range. -/
theorem getElem?_setValue (stored : buffer.setValue value offset size order = .ok changed)
    {index : Nat} (outside : index < offset ∨ offset + size ≤ index) :
    changed.bytes[index]? = buffer.bytes[index]? := by
  obtain ⟨-, bytes, rfl, -, written⟩ := setValue_eq_ok_iff.mp stored
  obtain ⟨inside, rfl⟩ := setRaw_eq_ok_iff.mp written
  exact Bytes.getElem?_splice_of_outside (Nat.le_of_add_right_le inside) outside

/-- Storing the value that stands there changes nothing. -/
theorem setValue_of_getValue (positive : 1 ≤ size)
    (there : buffer.getValue offset size order = .ok value) :
    buffer.setValue value offset size order = .ok buffer := by
  obtain ⟨inside, decoded⟩ := getValue_eq_ok_iff.mp there
  have long : (Bytes.slice buffer.bytes offset size).length = size := Bytes.length_slice inside
  refine setValue_eq_ok_iff.mpr ⟨positive, _, long, decoded, ?_⟩
  rw [setRaw_eq_ok_iff, long, Bytes.splice_slice inside]
  exact ⟨inside, rfl⟩

/-- In the opposite order, the value is read with its bytes reversed. -/
theorem getValue_opposite (there : buffer.getValue offset size order = .ok value) :
    ∃ swapped, buffer.getValue offset size order.opposite = .ok swapped ∧
      Bytes.Mirrored size value.toNat swapped.toNat := by
  obtain ⟨inside, decoded⟩ := getValue_eq_ok_iff.mp there
  obtain ⟨swapped, opposite, mirrored⟩ := Bytes.decodeInteger_opposite decoded
  rw [Bytes.length_slice inside] at mirrored
  exact ⟨swapped, getValue_eq_ok_iff.mpr ⟨inside, opposite⟩, mirrored⟩

/-- A value is stored just if its range lies inside the buffer, its size is one to eight bytes and it
fits into so many. It is then read back in the same byte order, in the opposite order with its bytes
reversed, and shows nowhere else. A refused value changes nothing, and neither does storing what was
read. -/
theorem setValue_exact (buffer : Buffer) (value : UInt64) (offset size : Nat) (order : Endian) :
    ((∃ changed, buffer.setValue value offset size order = .ok changed) ↔
        offset + size ≤ buffer.size ∧ (1 ≤ size ∧ size ≤ 8) ∧ value.toNat < 256 ^ size) ∧
      (∀ changed, buffer.setValue value offset size order = .ok changed →
        changed.getValue offset size order = .ok value ∧
          (∃ swapped, changed.getValue offset size order.opposite = .ok swapped ∧
            Bytes.Mirrored size value.toNat swapped.toNat) ∧
          changed = { buffer with bytes := changed.bytes } ∧ changed.size = buffer.size ∧
          ∀ index, index < offset ∨ offset + size ≤ index →
            changed.bytes[index]? = buffer.bytes[index]?) ∧
      (∀ failure, buffer.setValue value offset size order = .error failure →
        (Edit.change (·.setValue value offset size order)).after buffer = buffer ∧
          failure =
            if buffer.size < offset + size then .outOfBounds offset size buffer.size
            else if size = 0 ∨ 8 < size then .invariantViolation (.integerSize size)
            else .invariantViolation (.integerTooLarge value.toNat size)) ∧
      ∀ current, 1 ≤ size → buffer.getValue offset size order = .ok current →
        buffer.setValue current offset size order = .ok buffer := by
  refine ⟨setValue_exists_iff, fun changed stored => ?_, fun failure refused => ?_,
    fun current positive there => setValue_of_getValue positive there⟩
  · have back := getValue_setValue stored
    have swapped := getValue_opposite back
    have layout := layout_setValue stored
    exact ⟨back, swapped, layout, size_setValue stored, fun index => getElem?_setValue stored⟩
  · exact ⟨Edit.after_change_of_error _ refused, failure_of_setValue refused⟩

/-- Six bytes, no two of them alike. -/
def sixBytes : Buffer :=
  { Buffer.empty none with bytes := [0x10, 0x20, 0x30, 0x40, 0x50, 0x60] }

/-- Three bytes are stored in the middle, then those that stood there, and then behind the end. -/
theorem setValue_exact_sixBytes :
    ∃ changed, sixBytes.setValue 0x010203 2 3 .big = .ok changed ∧
      changed.getValue 2 3 .big = .ok 0x010203 ∧
      (∃ swapped, changed.getValue 2 3 .little = .ok swapped ∧
        Bytes.Mirrored 3 0x010203 swapped.toNat) ∧
      changed.bytes[1]? = some 0x20 ∧ changed.bytes[5]? = some 0x60 ∧
      1 ≤ 3 ∧ sixBytes.getValue 2 3 .big = .ok 0x304050 ∧
      sixBytes.setValue 0x304050 2 3 .big = .ok sixBytes ∧
      sixBytes.setValue 0x010203 4 3 .big = .error (.outOfBounds 4 3 6) ∧
      (Edit.change (·.setValue 0x010203 4 3 .big)).after sixBytes = sixBytes := by
  obtain ⟨stores, holds, -, restores⟩ := setValue_exact sixBytes 0x010203 2 3 .big
  obtain ⟨changed, stored⟩ := stores.mpr (by decide)
  obtain ⟨back, swapped, -, -, beside⟩ := holds changed stored
  have there : sixBytes.getValue 2 3 .big = .ok 0x304050 := rfl
  have refused : sixBytes.setValue 0x010203 4 3 .big = .error (.outOfBounds 4 3 6) := rfl
  have kept := ((setValue_exact sixBytes 0x010203 4 3 .big).2.2.1 _ refused).1
  exact ⟨changed, stored, back, swapped, beside 1 (by decide), beside 5 (by decide), by decide, there,
    restores 0x304050 (by decide) there, refused, kept⟩

end Buffer
end SecureBoot
