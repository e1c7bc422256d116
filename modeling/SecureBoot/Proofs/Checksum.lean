import Mathlib.Data.FinEnum
import Mathlib.Data.Nat.Bitwise
import Mathlib.Logic.Function.Iterate
import SecureBoot.Bytes.Crc
import SecureBoot.Bytes.Integer

/-!
What the checksum tells apart. The register is divided by a polynomial whose lowest bit is set, so
that no step forgets anything, and a step takes an exclusive or to the exclusive or of the steps. Up
to four bytes fit into one register, where different bytes differ; whatever follows them, that
difference never vanishes.
-/

namespace SecureBoot.Bytes

namespace Crc

variable {register : UInt32} {byte : UInt8} {first second rest : Bytes} {count : Nat}

/-- The bit that the next step shifts out. -/
def leads (register : UInt32) : Bool :=
  register.toNat.testBit 31

theorem leads_eq_false_iff : leads register = false ↔ register &&& 0x80000000 = 0 := by
  have top : (0x80000000 : UInt32).toNat = 2 ^ 31 := rfl
  rw [leads, ← UInt32.toNat_inj, UInt32.toNat_and, top, Nat.and_two_pow]
  cases register.toNat.testBit 31 <;> simp

theorem leads_iff : leads register = true ↔ 0x80000000 ≤ register.toNat := by
  have bounded := register.toNat_lt
  unfold leads
  grind

theorem leads_xor (register other : UInt32) :
    leads (register ^^^ other) = (leads register ^^ leads other) := by
  rw [leads, UInt32.toNat_xor, Nat.testBit_xor, leads, leads]

/-- A step shifts, and takes the polynomial away if it shifts a bit out. -/
theorem stepBit_eq (register : UInt32) :
    stepBit register = register <<< 1 ^^^ if leads register then polynomial else 0 := by
  cases top : leads register with
  | false =>
    rw [stepBit, if_pos (leads_eq_false_iff.mp top)]
    simp
  | true =>
    have set : register &&& 0x80000000 ≠ 0 := by
      rw [ne_eq, ← leads_eq_false_iff, top]
      exact Bool.noConfusion
    rw [stepBit, if_neg set, if_pos rfl]

theorem stepBit_xor (register other : UInt32) :
    stepBit (register ^^^ other) = stepBit register ^^^ stepBit other := by
  have cancel : polynomial ^^^ polynomial = 0 := UInt32.xor_self
  rw [stepBit_eq, stepBit_eq, stepBit_eq, leads_xor, UInt32.shiftLeft_xor]
  cases leads register <;> cases leads other <;> simp <;> grind

theorem toNat_shift (register : UInt32) : (register <<< 1).toNat = 2 * register.toNat % 2 ^ 32 := by
  rw [UInt32.toNat_shiftLeft, Nat.shiftLeft_eq, Nat.mul_comm]
  rfl

/-- A bit that is shifted out comes back as the lowest one, so only zero steps to zero. -/
theorem eq_zero_of_stepBit (vanishes : stepBit register = 0) : register = 0 := by
  have bounded := register.toNat_lt
  rw [stepBit_eq, UInt32.xor_eq_zero_iff, ← UInt32.toNat_inj, toNat_shift] at vanishes
  rw [← UInt32.toNat_inj, UInt32.toNat_zero]
  cases top : leads register with
  | true =>
    have odd : polynomial.toNat = 0x04C11DB7 := rfl
    rw [top, if_pos rfl, odd] at vanishes
    omega
  | false =>
    have low : register.toNat < 0x80000000 := by
      rw [← Nat.not_le, ← leads_iff, top]
      exact Bool.noConfusion
    rw [top, if_neg Bool.noConfusion, UInt32.toNat_zero] at vanishes
    omega

theorem stepBit_injective : Function.Injective stepBit := by
  intro register other same
  rw [← UInt32.xor_eq_zero_iff, ← stepBit_xor] at same
  exact UInt32.xor_eq_zero_iff.mp (eq_zero_of_stepBit same)

theorem stepByte_eq (register : UInt32) : stepByte register = stepBit^[8] register :=
  rfl

/-- What takes an exclusive or to an exclusive or still does so when it is repeated. -/
theorem iterate_xor {step : UInt32 → UInt32}
    (splits : ∀ register other, step (register ^^^ other) = step register ^^^ step other)
    (count : Nat) (register other : UInt32) :
    step^[count] (register ^^^ other) = step^[count] register ^^^ step^[count] other := by
  induction count generalizing register other with
  | zero => rfl
  | succ count ih =>
    rw [Function.iterate_succ_apply, splits, ih]
    rfl

theorem stepByte_xor (register other : UInt32) :
    stepByte (register ^^^ other) = stepByte register ^^^ stepByte other :=
  iterate_xor stepBit_xor 8 register other

theorem stepByte_injective : Function.Injective stepByte :=
  stepBit_injective.iterate 8

/-- As long as no bit is shifted out, the steps only shift. -/
theorem toNat_steps (small : register.toNat * 2 ^ count < 2 ^ 32) :
    (stepBit^[count] register).toNat = register.toNat * 2 ^ count := by
  induction count generalizing register with
  | zero => rw [Nat.pow_zero, Nat.mul_one, Function.iterate_zero_apply]
  | succ count ih =>
    rw [Nat.pow_succ, ← Nat.mul_assoc] at small
    have low : register.toNat < 0x80000000 := by
      have := Nat.le_mul_of_pos_right register.toNat (Nat.two_pow_pos count)
      omega
    have clear : leads register = false := by
      rw [← Bool.not_eq_true, leads_iff]
      omega
    have shifted : (stepBit register).toNat = register.toNat * 2 := by
      rw [stepBit_eq, clear, if_neg Bool.noConfusion, UInt32.xor_zero, toNat_shift]
      omega
    have double : register.toNat * 2 * 2 ^ count = register.toNat * 2 ^ count * 2 :=
      Nat.mul_right_comm _ _ _
    rw [Function.iterate_succ_apply, ih, shifted, double, Nat.pow_succ, Nat.mul_assoc]
    rw [shifted, double]
    exact small

theorem stepByte_of_lt (small : register.toNat < 0x1000000) :
    stepByte register = register <<< 8 := by
  have shifted : (register <<< 8).toNat = register.toNat * 2 ^ 8 % 2 ^ 32 := by
    rw [UInt32.toNat_shiftLeft, Nat.shiftLeft_eq]
    rfl
  rw [stepByte_eq, ← UInt32.toNat_inj, toNat_steps (by omega), shifted]
  omega

/-- Up to four bytes in one register, the first of them at its top. -/
def block : Bytes → UInt32
  | [] => 0
  | byte :: rest => byte.toUInt32 <<< 24 ^^^ block rest >>> 8

theorem toNat_top (byte : UInt8) : (byte.toUInt32 <<< 24).toNat = byte.toNat * 2 ^ 24 := by
  have small := byte.toNat_lt
  have shifted : (byte.toUInt32 <<< 24).toNat = byte.toNat * 2 ^ 24 % 2 ^ 32 := by
    rw [UInt32.toNat_shiftLeft, Nat.shiftLeft_eq, UInt8.toNat_toUInt32]
    rfl
  rw [shifted]
  omega

theorem toNat_shiftRight_byte (register : UInt32) :
    (register >>> 8).toNat = register.toNat / 2 ^ 8 := by
  rw [UInt32.toNat_shiftRight, Nat.shiftRight_eq_div_pow]
  rfl

/-- The lowest bytes, for which a block has room left, are zero. -/
theorem block_mod (room : first.length + count ≤ 4) :
    (block first).toNat % 2 ^ (8 * count) = 0 := by
  induction first generalizing count with
  | nil => exact Nat.zero_mod _
  | cons byte rest ih =>
    rw [List.length_cons] at room
    have own : (byte.toUInt32 <<< 24).toNat % 2 ^ (8 * count) = 0 := by
      have few : 2 ^ (8 * count) ∣ 2 ^ 24 := Nat.pow_dvd_pow 2 (by omega)
      rw [toNat_top]
      exact Nat.mod_eq_zero_of_dvd (few.trans (Nat.dvd_mul_left _ _))
    have later : (block rest >>> 8).toNat % 2 ^ (8 * count) = 0 := by
      have more : (block rest).toNat % 2 ^ (8 * (count + 1)) = 0 := ih (by omega)
      rw [Nat.mul_succ, Nat.pow_add, Nat.mul_comm] at more
      rw [toNat_shiftRight_byte, ← Nat.mod_mul_right_div_self, more, Nat.zero_div]
    rw [block, UInt32.toNat_xor, Nat.xor_mod_two_pow, own, later, Nat.xor_self]

theorem shift_block (room : first.length < 4) : block first >>> 8 <<< 8 = block first := by
  have clear : (block first).toNat % 2 ^ (8 * 1) = 0 := block_mod room
  have bounded := (block first).toNat_lt
  have shifted : (block first >>> 8 <<< 8).toNat = (block first).toNat / 2 ^ 8 * 2 ^ 8 % 2 ^ 32 := by
    rw [UInt32.toNat_shiftLeft, Nat.shiftLeft_eq, toNat_shiftRight_byte]
    rfl
  rw [← UInt32.toNat_inj, shifted]
  omega

/-- Feeding up to four bytes comes to taking them into the register at once. -/
theorem foldl_feed (short : first.length ≤ 4) :
    first.foldl feed register = stepByte^[first.length] (register ^^^ block first) := by
  induction first generalizing register with
  | nil => rw [block, UInt32.xor_zero]; rfl
  | cons byte rest ih =>
    have room : rest.length < 4 := short
    have small : (block rest >>> 8).toNat < 0x1000000 := by
      have bounded := (block rest).toNat_lt
      rw [toNat_shiftRight_byte]
      omega
    have later : block rest = stepByte (block rest >>> 8) := by
      rw [stepByte_of_lt small, shift_block room]
    rw [List.foldl_cons, ih (Nat.le_of_lt room), feed, List.length_cons,
      Function.iterate_succ_apply, block, ← UInt32.xor_assoc,
      stepByte_xor (_ ^^^ _) (block rest >>> 8), ← later]

theorem top_block (byte : UInt8) (rest : Bytes) :
    block (byte :: rest) >>> 24 = byte.toUInt32 := by
  have top (register : UInt32) : (register >>> 24).toNat = register.toNat / 2 ^ 24 := by
    rw [UInt32.toNat_shiftRight, Nat.shiftRight_eq_div_pow]
    rfl
  have own : byte.toUInt32 <<< 24 >>> 24 = byte.toUInt32 := by
    rw [← UInt32.toNat_inj, top, toNat_top, UInt8.toNat_toUInt32]
    omega
  have later : block rest >>> 8 >>> 24 = 0 := by
    have bounded := (block rest).toNat_lt
    rw [← UInt32.toNat_inj, top, toNat_shiftRight_byte, UInt32.toNat_zero]
    omega
  rw [block, UInt32.shiftRight_xor, own, later, UInt32.xor_zero]

/-- Blocks of as many bytes tell them apart. -/
theorem block_injective (same : first.length = second.length) (short : first.length ≤ 4)
    (equal : block first = block second) : first = second := by
  induction first generalizing second with
  | nil => exact (List.eq_nil_of_length_eq_zero same.symm).symm
  | cons byte rest ih =>
    cases second with
    | nil => cases same
    | cons another others =>
      have together : rest.length = others.length := Nat.succ.inj same
      have room : rest.length < 4 := short
      have top : byte.toUInt32 = another.toUInt32 := by
        rw [← top_block byte rest, equal, top_block]
      obtain rfl : byte = another := UInt8.toUInt32_inj.mp top
      have low : block rest >>> 8 = block others >>> 8 := (UInt32.xor_right_inj _).mp equal
      have blocks : block rest = block others := by
        rw [← shift_block room, low, shift_block (together ▸ room)]
      rw [ih together (Nat.le_of_lt room) blocks]

/-- Fed into one register, different short messages of one length leave different registers. -/
theorem foldl_feed_injective (same : first.length = second.length) (short : first.length ≤ 4)
    (equal : first.foldl feed register = second.foldl feed register) : first = second := by
  rw [foldl_feed short, foldl_feed (same ▸ short), same] at equal
  have blocks := stepByte_injective.iterate _ equal
  exact block_injective same short ((UInt32.xor_right_inj register).mp blocks)

theorem feed_injective (byte : UInt8) : Function.Injective (feed · byte) := by
  intro register other same
  exact (UInt32.xor_left_inj _).mp (stepByte_injective same)

/-- Whatever is fed on, different registers stay different. -/
theorem foldl_feed_keeps_apart (rest : Bytes) : Function.Injective (rest.foldl feed) := by
  induction rest with
  | nil => exact Function.injective_id
  | cons byte rest ih => exact ih.comp (feed_injective byte)

end Crc

/-- Messages with one checksum that differ only in four bytes in a row do not differ there. -/
theorem crc32_burst {front first second back : Bytes} (same : first.length = second.length)
    (short : first.length ≤ 4)
    (equal : crc32 (front ++ (first ++ back)) = crc32 (front ++ (second ++ back))) :
    first = second := by
  rw [crc32, crc32, UInt32.xor_left_inj, Crc.run, Crc.run] at equal
  simp only [List.foldl_append] at equal
  exact Crc.foldl_feed_injective same short (Crc.foldl_feed_keeps_apart back equal)

theorem crc32_word_injective (front : Bytes) :
    Function.Injective fun word => crc32 (front ++ ofWord word) := by
  intro word other same
  have four (word : UInt32) : (ofWord word).length = 4 := length_ofWord word
  have equal : crc32 (front ++ (ofWord word ++ [])) = crc32 (front ++ (ofWord other ++ [])) := by
    rw [List.append_nil, List.append_nil]
    exact same
  have patches : ofWord word = ofWord other :=
    crc32_burst ((four word).trans (four other).symm) (Nat.le_of_eq (four word)) equal
  rw [← toWord_ofWord word, patches, toWord_ofWord]

/-- Every checksum is that of some last word. -/
theorem crc32_word_surjective (front : Bytes) :
    Function.Surjective fun word => crc32 (front ++ ofWord word) :=
  Finite.surjective_of_injective (crc32_word_injective front)

/-- A checksum that covers its own word does not match it whatever the word. -/
theorem exists_crc32_word_ne (front : Bytes) : ∃ word, crc32 (front ++ ofWord word) ≠ word := by
  by_contra always
  push Not at always
  let shared := Crc.stepByte^[4] (Crc.run front) ^^^ 0xFFFFFFFF
  let lag (word : UInt32) := Crc.stepByte^[4] (Crc.block (ofWord word))
  have own (word : UInt32) : shared ^^^ lag word = word := by
    have four : (ofWord word).length = 4 := length_ofWord word
    have stated := always word
    rw [crc32, Crc.run, List.foldl_append, Crc.foldl_feed (Nat.le_of_eq four), four,
      Crc.iterate_xor Crc.stepByte_xor] at stated
    rw [UInt32.xor_assoc, UInt32.xor_comm 0xFFFFFFFF, ← UInt32.xor_assoc]
    exact stated
  -- What stands before the word cancels out, and the words 0 and 1 do not part as they should.
  have parted : lag 0 ^^^ lag 1 = 0 ^^^ 1 := by
    calc lag 0 ^^^ lag 1
        = (shared ^^^ lag 0) ^^^ (shared ^^^ lag 1) := by
          rw [UInt32.xor_comm shared (lag 0), UInt32.xor_assoc, ← UInt32.xor_assoc shared,
            UInt32.xor_self, UInt32.zero_xor]
      _ = 0 ^^^ 1 := by rw [own 0, own 1]
  exact absurd parted (by decide +kernel)

end SecureBoot.Bytes
