import SecureBoot.Bytes.Integer

/-!
The SHA-2 digests that link the structures of an image: SHA-256 over 32-bit words and SHA-384
over 64-bit words. Both pad the message to whole blocks, stretch each block into a message
schedule and mix the schedule into eight chaining words. Their digests have 32 and 48 bytes.
-/

namespace SecureBoot.Bytes

/-- The message with the bit 1, zeros up to a whole block, and its length in bits, big-endian. -/
def padded (blockSize lengthSize : Nat) (message : Bytes) : Bytes :=
  let fill := (2 * blockSize - 1 - lengthSize - message.length % blockSize) % blockSize
  message ++ 0x80 :: zeros fill ++ (digits lengthSize (8 * message.length)).reverse

/-- The number stored in the given bytes, most significant first. -/
def bigValue (bytes : Bytes) : Nat :=
  bytes.foldl (fun number byte => 256 * number + byte.toNat) 0

namespace Sha256

/-- The eight chaining words. -/
structure State where
  a : UInt32
  b : UInt32
  c : UInt32
  d : UInt32
  e : UInt32
  f : UInt32
  g : UInt32
  h : UInt32

/-- The fractional parts of the square roots of the first eight primes. -/
def initial : State := ⟨
  0x6a09e667, 0xbb67ae85, 0x3c6ef372, 0xa54ff53a,
  0x510e527f, 0x9b05688c, 0x1f83d9ab, 0x5be0cd19⟩

/-- The fractional parts of the cube roots of the first 64 primes. -/
def constants : List UInt32 := [
  0x428a2f98, 0x71374491, 0xb5c0fbcf, 0xe9b5dba5, 0x3956c25b, 0x59f111f1, 0x923f82a4, 0xab1c5ed5,
  0xd807aa98, 0x12835b01, 0x243185be, 0x550c7dc3, 0x72be5d74, 0x80deb1fe, 0x9bdc06a7, 0xc19bf174,
  0xe49b69c1, 0xefbe4786, 0x0fc19dc6, 0x240ca1cc, 0x2de92c6f, 0x4a7484aa, 0x5cb0a9dc, 0x76f988da,
  0x983e5152, 0xa831c66d, 0xb00327c8, 0xbf597fc7, 0xc6e00bf3, 0xd5a79147, 0x06ca6351, 0x14292967,
  0x27b70a85, 0x2e1b2138, 0x4d2c6dfc, 0x53380d13, 0x650a7354, 0x766a0abb, 0x81c2c92e, 0x92722c85,
  0xa2bfe8a1, 0xa81a664b, 0xc24b8b70, 0xc76c51a3, 0xd192e819, 0xd6990624, 0xf40e3585, 0x106aa070,
  0x19a4c116, 0x1e376c08, 0x2748774c, 0x34b0bcb5, 0x391c0cb3, 0x4ed8aa4a, 0x5b9cca4f, 0x682e6ff3,
  0x748f82ee, 0x78a5636f, 0x84c87814, 0x8cc70208, 0x90befffa, 0xa4506ceb, 0xbef9a3f7, 0xc67178f2]

/-- Rotation to the right. -/
def rotate (word amount : UInt32) : UInt32 :=
  (word >>> amount) ||| (word <<< (32 - amount))

/-- The schedule's mixing of the word fifteen places back. -/
def stretchLow (word : UInt32) : UInt32 :=
  rotate word 7 ^^^ rotate word 18 ^^^ (word >>> 3)

/-- The schedule's mixing of the word two places back. -/
def stretchHigh (word : UInt32) : UInt32 :=
  rotate word 17 ^^^ rotate word 19 ^^^ (word >>> 10)

/-- The schedule with the given number of words appended. -/
def extend (words : Array UInt32) : Nat → Array UInt32
  | 0 => words
  | count + 1 =>
    let back (distance : Nat) : UInt32 := words.getD (words.size - distance) 0
    extend (words.push (back 16 + stretchLow (back 15) + back 7 + stretchHigh (back 2))) count

/-- The words of the given number of four-byte groups. -/
def words : Nat → Bytes → List UInt32
  | 0, _ => []
  | count + 1, bytes =>
    UInt32.ofNat (bigValue (bytes.take 4)) :: words count (bytes.drop 4)

/-- One round of the compression function. -/
def round (s : State) (constant word : UInt32) : State :=
  let high := rotate s.e 6 ^^^ rotate s.e 11 ^^^ rotate s.e 25
  let choice := (s.e &&& s.f) ^^^ ((~~~ s.e) &&& s.g)
  let first := s.h + high + choice + constant + word
  let low := rotate s.a 2 ^^^ rotate s.a 13 ^^^ rotate s.a 22
  let majority := (s.a &&& s.b) ^^^ (s.a &&& s.c) ^^^ (s.b &&& s.c)
  ⟨first + low + majority, s.a, s.b, s.c, s.d + first, s.e, s.f, s.g⟩

/-- All rounds over a schedule. -/
def rounds (s : State) : List UInt32 → List UInt32 → State
  | constant :: constants, word :: words => rounds (round s constant word) constants words
  | _, _ => s

/-- The chaining words after one block. -/
def compress (s : State) (block : Bytes) : State :=
  let t := rounds s constants (extend (words 16 block).toArray 48).toList
  ⟨s.a + t.a, s.b + t.b, s.c + t.c, s.d + t.d, s.e + t.e, s.f + t.f, s.g + t.g, s.h + t.h⟩

/-- The chaining words after the given number of blocks. -/
def absorb (s : State) : Nat → Bytes → State
  | 0, _ => s
  | count + 1, bytes => absorb (compress s (bytes.take 64)) count (bytes.drop 64)

/-- A word, most significant byte first. -/
def wordBytes (word : UInt32) : Bytes :=
  (digits 4 word.toNat).reverse

end Sha256

/-- The SHA-256 digest. -/
def sha256 (message : Bytes) : Bytes :=
  let blocks := padded 64 8 message
  let s := Sha256.absorb Sha256.initial (blocks.length / 64) blocks
  [s.a, s.b, s.c, s.d, s.e, s.f, s.g, s.h].flatMap Sha256.wordBytes

namespace Sha384

/-- The eight chaining words. -/
structure State where
  a : UInt64
  b : UInt64
  c : UInt64
  d : UInt64
  e : UInt64
  f : UInt64
  g : UInt64
  h : UInt64

/-- The fractional parts of the square roots of the ninth to sixteenth primes. -/
def initial : State := ⟨
  0xcbbb9d5dc1059ed8, 0x629a292a367cd507, 0x9159015a3070dd17, 0x152fecd8f70e5939,
  0x67332667ffc00b31, 0x8eb44a8768581511, 0xdb0c2e0d64f98fa7, 0x47b5481dbefa4fa4⟩

/-- The fractional parts of the cube roots of the first 80 primes. -/
def constants : List UInt64 := [
  0x428a2f98d728ae22, 0x7137449123ef65cd, 0xb5c0fbcfec4d3b2f, 0xe9b5dba58189dbbc,
  0x3956c25bf348b538, 0x59f111f1b605d019, 0x923f82a4af194f9b, 0xab1c5ed5da6d8118,
  0xd807aa98a3030242, 0x12835b0145706fbe, 0x243185be4ee4b28c, 0x550c7dc3d5ffb4e2,
  0x72be5d74f27b896f, 0x80deb1fe3b1696b1, 0x9bdc06a725c71235, 0xc19bf174cf692694,
  0xe49b69c19ef14ad2, 0xefbe4786384f25e3, 0x0fc19dc68b8cd5b5, 0x240ca1cc77ac9c65,
  0x2de92c6f592b0275, 0x4a7484aa6ea6e483, 0x5cb0a9dcbd41fbd4, 0x76f988da831153b5,
  0x983e5152ee66dfab, 0xa831c66d2db43210, 0xb00327c898fb213f, 0xbf597fc7beef0ee4,
  0xc6e00bf33da88fc2, 0xd5a79147930aa725, 0x06ca6351e003826f, 0x142929670a0e6e70,
  0x27b70a8546d22ffc, 0x2e1b21385c26c926, 0x4d2c6dfc5ac42aed, 0x53380d139d95b3df,
  0x650a73548baf63de, 0x766a0abb3c77b2a8, 0x81c2c92e47edaee6, 0x92722c851482353b,
  0xa2bfe8a14cf10364, 0xa81a664bbc423001, 0xc24b8b70d0f89791, 0xc76c51a30654be30,
  0xd192e819d6ef5218, 0xd69906245565a910, 0xf40e35855771202a, 0x106aa07032bbd1b8,
  0x19a4c116b8d2d0c8, 0x1e376c085141ab53, 0x2748774cdf8eeb99, 0x34b0bcb5e19b48a8,
  0x391c0cb3c5c95a63, 0x4ed8aa4ae3418acb, 0x5b9cca4f7763e373, 0x682e6ff3d6b2b8a3,
  0x748f82ee5defb2fc, 0x78a5636f43172f60, 0x84c87814a1f0ab72, 0x8cc702081a6439ec,
  0x90befffa23631e28, 0xa4506cebde82bde9, 0xbef9a3f7b2c67915, 0xc67178f2e372532b,
  0xca273eceea26619c, 0xd186b8c721c0c207, 0xeada7dd6cde0eb1e, 0xf57d4f7fee6ed178,
  0x06f067aa72176fba, 0x0a637dc5a2c898a6, 0x113f9804bef90dae, 0x1b710b35131c471b,
  0x28db77f523047d84, 0x32caab7b40c72493, 0x3c9ebe0a15c9bebc, 0x431d67c49c100d4c,
  0x4cc5d4becb3e42b6, 0x597f299cfc657e2a, 0x5fcb6fab3ad6faec, 0x6c44198c4a475817]

/-- Rotation to the right. -/
def rotate (word amount : UInt64) : UInt64 :=
  (word >>> amount) ||| (word <<< (64 - amount))

/-- The schedule's mixing of the word fifteen places back. -/
def stretchLow (word : UInt64) : UInt64 :=
  rotate word 1 ^^^ rotate word 8 ^^^ (word >>> 7)

/-- The schedule's mixing of the word two places back. -/
def stretchHigh (word : UInt64) : UInt64 :=
  rotate word 19 ^^^ rotate word 61 ^^^ (word >>> 6)

/-- The schedule with the given number of words appended. -/
def extend (words : Array UInt64) : Nat → Array UInt64
  | 0 => words
  | count + 1 =>
    let back (distance : Nat) : UInt64 := words.getD (words.size - distance) 0
    extend (words.push (back 16 + stretchLow (back 15) + back 7 + stretchHigh (back 2))) count

/-- The words of the given number of eight-byte groups. -/
def words : Nat → Bytes → List UInt64
  | 0, _ => []
  | count + 1, bytes =>
    UInt64.ofNat (bigValue (bytes.take 8)) :: words count (bytes.drop 8)

/-- One round of the compression function. -/
def round (s : State) (constant word : UInt64) : State :=
  let high := rotate s.e 14 ^^^ rotate s.e 18 ^^^ rotate s.e 41
  let choice := (s.e &&& s.f) ^^^ ((~~~ s.e) &&& s.g)
  let first := s.h + high + choice + constant + word
  let low := rotate s.a 28 ^^^ rotate s.a 34 ^^^ rotate s.a 39
  let majority := (s.a &&& s.b) ^^^ (s.a &&& s.c) ^^^ (s.b &&& s.c)
  ⟨first + low + majority, s.a, s.b, s.c, s.d + first, s.e, s.f, s.g⟩

/-- All rounds over a schedule. -/
def rounds (s : State) : List UInt64 → List UInt64 → State
  | constant :: constants, word :: words => rounds (round s constant word) constants words
  | _, _ => s

/-- The chaining words after one block. -/
def compress (s : State) (block : Bytes) : State :=
  let t := rounds s constants (extend (words 16 block).toArray 64).toList
  ⟨s.a + t.a, s.b + t.b, s.c + t.c, s.d + t.d, s.e + t.e, s.f + t.f, s.g + t.g, s.h + t.h⟩

/-- The chaining words after the given number of blocks. -/
def absorb (s : State) : Nat → Bytes → State
  | 0, _ => s
  | count + 1, bytes => absorb (compress s (bytes.take 128)) count (bytes.drop 128)

/-- A word, most significant byte first. -/
def wordBytes (word : UInt64) : Bytes :=
  (digits 8 word.toNat).reverse

end Sha384

/-- The SHA-384 digest: six of the eight words that the 64-bit compression ends with. -/
def sha384 (message : Bytes) : Bytes :=
  let blocks := padded 128 16 message
  let s := Sha384.absorb Sha384.initial (blocks.length / 128) blocks
  [s.a, s.b, s.c, s.d, s.e, s.f].flatMap Sha384.wordBytes

@[simp] theorem length_sha256 (message : Bytes) : (sha256 message).length = 32 := by
  simp [sha256, Sha256.wordBytes]

@[simp] theorem length_sha384 (message : Bytes) : (sha384 message).length = 48 := by
  simp [sha384, Sha384.wordBytes]

end SecureBoot.Bytes
