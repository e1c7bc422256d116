import SecureBoot.Bytes.Integer

/-!
The DEFLATE format. Packing keeps the bytes as they are, in stored blocks; unpacking reads every
kind of block. Bits are taken from the least significant end of each byte, and the codes of a block
are canonical: ordered by length, then by symbol. A code has to use every word, unless it has a
single symbol of one bit, or none. What a copy takes from before the output is zero.
-/

namespace SecureBoot.Zip.Deflate

/-- The bits of a byte, least significant first. -/
def bitsOfByte (byte : UInt8) : List Bool :=
  (List.range 8).map byte.toNat.testBit

/-- The bits of a byte string in the order in which they are read. -/
def bitsOf (bytes : Bytes) : List Bool :=
  bytes.flatMap bitsOfByte

/-- The most bytes that a stored block holds. -/
def storedLimit : Nat := 65535

/-- Bytes as stored blocks, the last of them marked. The first argument bounds their number. -/
def storeBlocks : Nat → Bytes → Bytes
  | 0, _ => []
  | count + 1, bytes =>
    let block := bytes.take storedLimit
    let last := bytes.length ≤ storedLimit
    (if last then 1 else 0) :: Bytes.digits 2 block.length ++
      Bytes.digits 2 (storedLimit - block.length) ++ block ++
      if last then [] else storeBlocks count (bytes.drop storedLimit)

/-- Bytes in the format, none of them compressed. -/
def pack (bytes : Bytes) : Bytes :=
  storeBlocks (bytes.length / storedLimit + 1) bytes

/-- The number that the next `count` bits spell, least significant first, and the bits after
them. -/
def takeNumber : Nat → List Bool → Option (Nat × List Bool)
  | 0, bits => some (0, bits)
  | _ + 1, [] => none
  | count + 1, bit :: bits =>
    (takeNumber count bits).map fun (high, rest) => (bit.toNat + 2 * high, rest)

/-- A canonical code: for each length from one up, the symbols whose codes have it, in order. -/
abbrev Code := List (List Nat)

/-- The code in which each symbol has the given length, none if that is zero. -/
def codeOf (lengths : List Nat) : Code :=
  (List.range 15).map fun place =>
    lengths.zipIdx.filterMap fun (length, symbol) =>
      if length = place + 1 then some symbol else none

/-- How many words of the greatest length a code leaves unused, given how many words of the length
before the shortest are free. None if there are not enough words for the symbols. -/
def unusedWords : Nat → Code → Option Nat
  | free, [] => some free
  | free, symbols :: longer =>
    if 2 * free < symbols.length then none else unusedWords (2 * free - symbols.length) longer

/-- Whether a code uses every word once. -/
def isComplete (code : Code) : Bool :=
  unusedWords 1 code = some 0

/-- Whether a code has no symbols, or just one of a single bit. -/
def isTrivial : Code → Bool
  | [] => true
  | shortest :: longer => shortest.length ≤ 1 && longer.all List.isEmpty

/-- The next symbol of a code. `first` is the lowest code of the length at hand and `number` what
the bits so far spell, most significant first. -/
def takeSymbolFrom (first number : Nat) : Code → List Bool → Option (Nat × List Bool)
  | [], _ => none
  | _ :: _, [] => none
  | symbols :: longer, bit :: bits =>
    let number := number + bit.toNat
    match symbols[number - first]? with
    | some symbol => some (symbol, bits)
    | none => takeSymbolFrom (2 * (first + symbols.length)) (2 * number) longer bits

/-- The next symbol of a code. -/
def takeSymbol (code : Code) (bits : List Bool) : Option (Nat × List Bool) :=
  takeSymbolFrom 0 0 code bits

/-- The base and the number of extra bits of each length symbol, from symbol 257 on. -/
def lengthTable : List (Nat × Nat) :=
  [(3, 0), (4, 0), (5, 0), (6, 0), (7, 0), (8, 0), (9, 0), (10, 0), (11, 1), (13, 1), (15, 1),
    (17, 1), (19, 2), (23, 2), (27, 2), (31, 2), (35, 3), (43, 3), (51, 3), (59, 3), (67, 4),
    (83, 4), (99, 4), (115, 4), (131, 5), (163, 5), (195, 5), (227, 5), (258, 0)]

/-- The base and the number of extra bits of each distance symbol. -/
def distanceTable : List (Nat × Nat) :=
  [(1, 0), (2, 0), (3, 0), (4, 0), (5, 1), (7, 1), (9, 2), (13, 2), (17, 3), (25, 3), (33, 4),
    (49, 4), (65, 5), (97, 5), (129, 6), (193, 6), (257, 7), (385, 7), (513, 8), (769, 8),
    (1025, 9), (1537, 9), (2049, 10), (3073, 10), (4097, 11), (6145, 11), (8193, 12),
    (12289, 12), (16385, 13), (24577, 13)]

/-- The number that a symbol of a table and its extra bits stand for. -/
def takeExtended (table : List (Nat × Nat)) (symbol : Nat) (bits : List Bool) :
    Option (Nat × List Bool) := do
  let (base, extra) ← table[symbol]?
  let (offset, rest) ← takeNumber extra bits
  return (base + offset, rest)

/-- The byte `distance` before the end of the output, zero if that is before its start. -/
def byteBack (output : Array UInt8) (distance : Nat) : UInt8 :=
  if distance ≤ output.size then output[output.size - distance]?.getD 0 else 0

/-- The output with `count` bytes added, each a copy of the byte `distance` before it. -/
def copyBack (distance : Nat) : Nat → Array UInt8 → Array UInt8
  | 0, output => output
  | count + 1, output => copyBack distance count (output.push (byteBack output distance))

/-- Read the symbols of a block up to its end. The first argument bounds their number. -/
def takeSymbols (literals distances : Code) :
    Nat → Array UInt8 → List Bool → Option (Array UInt8 × List Bool)
  | 0, _, _ => none
  | count + 1, output, bits => do
    let (symbol, bits) ← takeSymbol literals bits
    if symbol < 256 then
      takeSymbols literals distances count (output.push (UInt8.ofNat symbol)) bits
    else if symbol = 256 then return (output, bits)
    else
      let (length, bits) ← takeExtended lengthTable (symbol - 257) bits
      let (distanceSymbol, bits) ← takeSymbol distances bits
      let (distance, bits) ← takeExtended distanceTable distanceSymbol bits
      takeSymbols literals distances count (copyBack distance length output) bits

/-- The code for literals and lengths that blocks without one of their own use. -/
def fixedLiterals : Code :=
  codeOf (List.replicate 144 8 ++ List.replicate 112 9 ++ List.replicate 24 7 ++
    List.replicate 8 8)

/-- The code for distances that blocks without one of their own use. -/
def fixedDistances : Code :=
  codeOf (List.replicate 32 5)

/-- The most symbols that a block can give lengths for, literals and lengths first. -/
def symbolLimits : Nat × Nat := (286, 30)

/-- The order in which a block gives the lengths of the code for code lengths. -/
def lengthOrder : List Nat :=
  [16, 17, 18, 0, 8, 7, 9, 6, 10, 5, 11, 4, 12, 3, 13, 2, 14, 1, 15]

/-- Read numbers of three bits each. -/
def takeTriples : Nat → List Bool → Option (List Nat × List Bool)
  | 0, bits => some ([], bits)
  | count + 1, bits => do
    let (number, bits) ← takeNumber 3 bits
    let (numbers, bits) ← takeTriples count bits
    return (number :: numbers, bits)

/-- Read code lengths, given in reverse those already read, until there are `wanted`. A symbol above
15 repeats the last length or zero. The first argument bounds the rounds. -/
def takeLengths (code : Code) (wanted : Nat) :
    Nat → List Nat → List Bool → Option (List Nat × List Bool)
  | 0, _, _ => none
  | rounds + 1, lengths, bits =>
    if wanted ≤ lengths.length then
      if lengths.length = wanted then some (lengths.reverse, bits) else none
    else do
      let (symbol, bits) ← takeSymbol code bits
      if symbol < 16 then takeLengths code wanted rounds (symbol :: lengths) bits
      else
        let (base, extra, length) ← match symbol with
          | 16 => lengths.head?.map fun last => (3, 2, last)
          | 17 => some (3, 3, 0)
          | _ => some (11, 7, 0)
        let (more, bits) ← takeNumber extra bits
        takeLengths code wanted rounds (List.replicate (base + more) length ++ lengths) bits

/-- The code in which each symbol has the given length, if a block can bring it with it. -/
def codeOf? (lengths : List Nat) : Option Code :=
  let code := codeOf lengths
  if isComplete code || isTrivial code then some code else none

/-- Read the codes for literals and distances that a block brings with it. -/
def takeCodes (bits : List Bool) : Option (Code × Code × List Bool) := do
  let (literals, bits) ← takeNumber 5 bits
  let (distances, bits) ← takeNumber 5 bits
  let literals := literals + 257
  let distances := distances + 1
  if symbolLimits.1 < literals ∨ symbolLimits.2 < distances then none
  let (lengths, bits) ← takeNumber 4 bits
  let (triples, bits) ← takeTriples (lengths + 4) bits
  let ordered := lengthOrder.zip triples
  let code := codeOf ((List.range 19).map fun symbol => (ordered.lookup symbol).getD 0)
  if !isComplete code then none
  let (all, bits) ← takeLengths code (literals + distances) (literals + distances + 1) [] bits
  return (← codeOf? (all.take literals), ← codeOf? (all.drop literals), bits)

/-- Read the given number of bytes. -/
def takeBytes : Nat → Array UInt8 → List Bool → Option (Array UInt8 × List Bool)
  | 0, output, bits => some (output, bits)
  | count + 1, output, bits => do
    let (byte, bits) ← takeNumber 8 bits
    takeBytes count (output.push (UInt8.ofNat byte)) bits

/-- Read a stored block, which starts at the next whole byte with its length, given twice. -/
def takeStored (output : Array UInt8) (bits : List Bool) : Option (Array UInt8 × List Bool) := do
  let (length, bits) ← takeNumber 16 (bits.drop (bits.length % 8))
  let (inverse, bits) ← takeNumber 16 bits
  if length + inverse = storedLimit then takeBytes length output bits else none

/-- Read blocks up to the one marked as the last. The first argument bounds their number. -/
def takeBlocks : Nat → Array UInt8 → List Bool → Option (Array UInt8)
  | 0, _, _ => none
  | count + 1, output, bits => do
    let (last, bits) ← takeNumber 1 bits
    let (kind, bits) ← takeNumber 2 bits
    let (output, bits) ← match kind with
      | 0 => takeStored output bits
      | 1 => takeSymbols fixedLiterals fixedDistances bits.length output bits
      | 2 => do
        let (literals, distances, bits) ← takeCodes bits
        takeSymbols literals distances bits.length output bits
      | _ => none
    if last = 1 then return output else takeBlocks count output bits

/-- The bytes that are packed in the format. -/
def unpack (packed : Bytes) : Option Bytes :=
  (takeBlocks (8 * packed.length) #[] (bitsOf packed)).map Array.toList

end SecureBoot.Zip.Deflate
