import Mathlib.Tactic.Common
import SecureBoot.Proofs.Call
import SecureBoot.Zip.Deflate

/-!
Packing and unpacking. The bits of a byte spell that byte, so a number is read from the bytes it was
written in. A stored block gives its bytes back and leaves the bits behind it, and a run of them gives
back everything that was packed.
-/

namespace SecureBoot.Zip.Deflate

variable {bytes block : Bytes} {output : Array UInt8} {bits : List Bool} {count fuel : Nat}

@[simp] theorem length_bitsOf (bytes : Bytes) : (bitsOf bytes).length = 8 * bytes.length := by
  induction bytes with
  | nil => rfl
  | cons byte rest ih =>
    rw [bitsOf, List.flatMap_cons, List.length_append, ← bitsOf, ih, List.length_cons, bitsOfByte,
      List.length_map, List.length_range]
    omega

theorem bitsOf_append (first second : Bytes) :
    bitsOf (first ++ second) = bitsOf first ++ bitsOf second :=
  List.flatMap_append

/-- The lowest bits of a number that has no higher ones spell it. -/
theorem takeNumber_testBit (number : Nat) (whole : number >>> count = 0) (more : Nat) :
    takeNumber (more + count) ((List.range count).map number.testBit ++ bits) =
      (takeNumber more bits).map fun (high, rest) => (number + high <<< count, rest) := by
  induction count generalizing number with
  | zero =>
    obtain rfl : number = 0 := whole
    simp
  | succ count ih =>
    rw [Nat.shiftRight_succ_inside] at whole
    have halved : (List.range count).map (number.testBit ∘ Nat.succ) =
        (List.range count).map (number / 2).testBit :=
      List.map_congr_left fun place _ => Nat.testBit_succ number place
    have lowest : (number.testBit 0).toNat = number % 2 := by
      rw [Nat.testBit_zero]
      rcases Nat.mod_two_eq_zero_or_one number with even | odd
      · rw [even]
        rfl
      · rw [odd]
        rfl
    rw [List.range_succ_eq_map, List.map_cons, List.map_map, halved, List.cons_append,
      ← Nat.add_assoc, takeNumber, ih _ whole, Option.map_map]
    congr 1
    funext ⟨high, rest⟩
    simp only [Function.comp_apply, lowest, Nat.shiftLeft_succ, Prod.mk.injEq, and_true]
    omega

/-- The bits of a byte spell it. -/
theorem takeNumber_byte (byte : UInt8) (more : Nat) :
    takeNumber (more + 8) (bitsOfByte byte ++ bits) =
      (takeNumber more bits).map fun (high, rest) => (byte.toNat + 256 * high, rest) := by
  have small := byte.toNat_lt
  have whole : byte.toNat >>> 8 = 0 := by
    rw [Nat.shiftRight_eq_div_pow]
    omega
  rw [bitsOfByte, takeNumber_testBit _ whole]
  congr 1
  funext ⟨high, rest⟩
  simp only [Nat.shiftLeft_eq, Prod.mk.injEq, and_true]
  omega

/-- The bits of bytes spell the number in them. -/
theorem takeNumber_bitsOf (bytes : Bytes) :
    takeNumber (8 * bytes.length) (bitsOf bytes ++ bits) = some (Bytes.value bytes, bits) := by
  induction bytes with
  | nil => rfl
  | cons byte rest ih =>
    rw [List.length_cons, Nat.mul_add_one, bitsOf, List.flatMap_cons, List.append_assoc,
      takeNumber_byte, ← bitsOf, ih]
    rfl

theorem takeNumber_digits {number : Nat} (small : number ≤ storedLimit) :
    takeNumber 16 (bitsOf (Bytes.digits 2 number) ++ bits) = some (number, bits) := by
  have below : number < Bytes.capacity 2 := Nat.lt_succ_of_le small
  have spelled : _ = some (_, bits) := takeNumber_bitsOf (Bytes.digits 2 number)
  rwa [Bytes.length_digits, Bytes.value_digits, Nat.mod_eq_of_lt below] at spelled

theorem takeBytes_bitsOf (bytes : Bytes) (output : Array UInt8) :
    takeBytes bytes.length output (bitsOf bytes ++ bits) =
      some (bytes.foldl Array.push output, bits) := by
  induction bytes generalizing output with
  | nil => rfl
  | cons byte rest ih =>
    have spelled : takeNumber 8 (bitsOf [byte] ++ (bitsOf rest ++ bits)) =
        some (Bytes.value [byte], bitsOf rest ++ bits) := takeNumber_bitsOf [byte]
    have same : UInt8.ofNat (Bytes.value [byte]) = byte := by
      simp [Bytes.value]
    rw [← List.singleton_append, bitsOf_append, List.append_assoc, List.length_append, Nat.add_comm,
      List.length_singleton, takeBytes, spelled]
    simp only [Option.bind_eq_bind, Option.bind_some, same]
    exact ih _

/-- What a stored block has behind the bits that tell its kind. -/
def storedBody (block : Bytes) : Bytes :=
  Bytes.digits 2 block.length ++ Bytes.digits 2 (storedLimit - block.length) ++ block

/-- A stored block gives its bytes back. -/
theorem takeStored_block (fits : block.length ≤ storedLimit) (rest : Bytes) :
    takeStored output (List.replicate 5 false ++ bitsOf (storedBody block ++ rest)) =
      some (block.foldl Array.push output, bitsOf rest) := by
  have aligned : (List.replicate 5 false ++ bitsOf (storedBody block ++ rest)).drop
      ((List.replicate 5 false ++ bitsOf (storedBody block ++ rest)).length % 8) =
        bitsOf (storedBody block ++ rest) := by
    refine List.drop_left' ?_
    rw [List.length_append, length_bitsOf, List.length_replicate]
    omega
  have complement : storedLimit - block.length ≤ storedLimit := Nat.sub_le _ _
  rw [takeStored, aligned, storedBody, List.append_assoc, List.append_assoc, bitsOf_append,
    takeNumber_digits fits]
  simp only [Option.bind_eq_bind, Option.bind_some]
  rw [bitsOf_append, takeNumber_digits complement]
  simp only [Option.bind_some]
  rw [if_pos (Nat.add_sub_cancel' fits), bitsOf_append, takeBytes_bitsOf]

/-- The first byte of a stored block tells whether it is the last one, and that it is stored. -/
theorem takeNumber_head (last : Bool) :
    takeNumber 1 (bitsOfByte (if last then 1 else 0) ++ bits) =
      some (last.toNat, List.replicate 7 false ++ bits) := by
  cases last <;> rfl

theorem takeBlocks_stored (fits : block.length ≤ storedLimit) (last : Bool) (rest : Bytes) :
    takeBlocks (count + 1) output
        (bitsOf ((if last then 1 else 0) :: (storedBody block ++ rest))) =
      if last then some (block.foldl Array.push output)
      else takeBlocks count (block.foldl Array.push output) (bitsOf rest) := by
  have kind : takeNumber 2 (List.replicate 7 false ++ bitsOf (storedBody block ++ rest)) =
      some (0, List.replicate 5 false ++ bitsOf (storedBody block ++ rest)) := rfl
  rw [takeBlocks, bitsOf, List.flatMap_cons, ← bitsOf, takeNumber_head]
  simp only [Option.bind_eq_bind, Option.bind_some, kind, takeStored_block fits]
  cases last <;> rfl

/-- Blocks give back the bytes that they were made of. -/
theorem takeBlocks_storeBlocks (enough : bytes.length < storedLimit * count)
    (fueled : (storeBlocks count bytes).length ≤ fuel) (output : Array UInt8) :
    takeBlocks fuel output (bitsOf (storeBlocks count bytes)) =
      some (bytes.foldl Array.push output) := by
  induction count generalizing bytes fuel output with
  | zero => simp at enough
  | succ count ih =>
    have fits : (bytes.take storedLimit).length ≤ storedLimit := List.length_take_le _ _
    have blocks : storeBlocks (count + 1) bytes =
        (if decide (bytes.length ≤ storedLimit) then 1 else 0) ::
          (storedBody (bytes.take storedLimit) ++
            if bytes.length ≤ storedLimit then [] else storeBlocks count (bytes.drop storedLimit)) := by
      simp only [storeBlocks, storedBody, decide_eq_true_eq, List.cons_append, List.append_assoc]
    rw [blocks] at fueled ⊢
    cases fuel with
    | zero => simp at fueled
    | succ fuel =>
      rw [takeBlocks_stored fits]
      by_cases last : bytes.length ≤ storedLimit
      · rw [if_pos (decide_eq_true last), List.take_of_length_le last]
      · simp only [if_neg last, List.length_cons, List.length_append] at fueled
        have left : (bytes.drop storedLimit).length < storedLimit * count := by
          rw [List.length_drop]
          rw [Nat.mul_add_one] at enough
          omega
        rw [if_neg (by simpa using last), if_neg last, ih left (by omega), ← List.foldl_append,
          List.take_append_drop]

/-- Packing adds bytes. -/
theorem length_le_storeBlocks (enough : bytes.length < storedLimit * count) :
    bytes.length ≤ (storeBlocks count bytes).length := by
  induction count generalizing bytes with
  | zero => simp at enough
  | succ count ih =>
    rw [Nat.mul_add_one] at enough
    have kept : (bytes.take storedLimit).length + (bytes.drop storedLimit).length = bytes.length := by
      rw [← List.length_append, List.take_append_drop]
    by_cases last : bytes.length ≤ storedLimit
    · simp only [storeBlocks, if_pos last, List.length_cons, List.length_append]
      rw [List.drop_eq_nil_of_le last, List.length_nil] at kept
      omega
    · have left : (bytes.drop storedLimit).length < storedLimit * count := by
        rw [List.length_drop]
        omega
      have more := ih left
      simp only [storeBlocks, if_neg last, List.length_cons, List.length_append]
      omega

theorem length_le_pack (bytes : Bytes) : bytes.length ≤ (pack bytes).length :=
  length_le_storeBlocks (Nat.lt_mul_div_succ _ (by decide))

/-- What was packed is unpacked. -/
theorem unpack_pack (bytes : Bytes) : unpack (pack bytes) = some bytes := by
  have enough : bytes.length < storedLimit * (bytes.length / storedLimit + 1) :=
    Nat.lt_mul_div_succ _ (by decide)
  have fueled : (storeBlocks (bytes.length / storedLimit + 1) bytes).length ≤
      8 * (storeBlocks (bytes.length / storedLimit + 1) bytes).length := by omega
  rw [unpack, pack, takeBlocks_storeBlocks enough fueled, List.foldl_push_eq_append]
  simp

end SecureBoot.Zip.Deflate
