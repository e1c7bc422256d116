import SecureBoot.Buffer
import SecureBoot.Text.HexNumber

/-!
ECDSA signatures as chain entries and signing modules carry them: a header of four words, then the
big-endian components r and s, whose sizes the header states.
-/

namespace SecureBoot

/-- The bytes of a signature. -/
structure Signature where
  buffer : Buffer
  deriving DecidableEq, Repr

namespace Signature

def rSizeOffset : Nat := 0x4

def sSizeOffset : Nat := 0x8

def hashTypeOffset : Nat := 0xC

/-- The most bytes a component has when a signature is built. -/
def componentLimit : Nat := 66

/-- Write a signature with the given components into an empty buffer. -/
def fillIn (r s : Bytes) : Edit Buffer Unit := do
  Buffer.reset (Size.signatureHeader + r.length + s.length)
  Edit.change (·.setWord (UInt32.ofNat r.length) rSizeOffset)
  Edit.change (·.setWord (UInt32.ofNat s.length) sSizeOffset)
  Edit.change (·.setWord Magic.sha384 hashTypeOffset)
  Edit.change (·.setRaw r Size.signatureHeader)
  Edit.change (·.setRaw s (Size.signatureHeader + r.length))

/-- The SHA-384 signature with the given components, neither empty nor too long. -/
def ofComponents (r s : Bytes) : Except Failure Signature := do
  require (r ≠ [] ∧ s ≠ [] ∧ r.length ≤ componentLimit ∧ s.length ≤ componentLimit)
    (.invalidField (.signatureComponents r.length s.length))
  return ⟨← (fillIn r s).result ((Buffer.empty none).withMagic Magic.signature 0)⟩

def size (signature : Signature) : Nat :=
  signature.buffer.size

def toBytes (signature : Signature) : Bytes :=
  signature.buffer.bytes

/-- The size of r. -/
def rSize (signature : Signature) : Except Failure Nat := do
  return (← signature.buffer.getWord rSizeOffset).toNat

/-- The size of s. -/
def sSize (signature : Signature) : Except Failure Nat := do
  return (← signature.buffer.getWord sSizeOffset).toNat

/-- The magic number of the digest that was signed. -/
def hashType (signature : Signature) : Except Failure UInt32 :=
  signature.buffer.getWord hashTypeOffset

/-- The component r. -/
def r (signature : Signature) : Except Failure Bytes := do
  signature.buffer.getRaw Size.signatureHeader (← signature.rSize)

/-- The component s. -/
def s (signature : Signature) : Except Failure Bytes := do
  signature.buffer.getRaw (Size.signatureHeader + (← signature.rSize)) (← signature.sSize)

/-- Accept signatures over a known digest whose size is the one their header states. -/
def validate (signature : Signature) : Except Failure Unit := do
  signature.buffer.validate
  let hashType ← signature.hashType
  require (hashType = Magic.sha384 ∨ hashType = Magic.sha512)
    (.invalidField (.signatureHashType hashType))
  let expected := Size.signatureHeader + (← signature.rSize) + (← signature.sSize)
  require (expected = signature.size) (.lengthMismatch .ecdsaSignature expected signature.size)

/-- The valid signature that bytes serialize. -/
def ofBytes (bytes : Bytes) : Except Failure Signature := do
  let signature : Signature := ⟨(← Buffer.create bytes none).withMagic Magic.signature 0⟩
  signature.validate
  return signature

/-- The signature in a slot, which is unsigned while all its bytes are zero. -/
def ofSlot (bytes : Bytes) : Except Failure (Option Signature) :=
  if Bytes.allZero bytes then .ok none
  else do return some (← ofBytes bytes)

instance : Buffered Signature where
  buffer := Signature.buffer
  withBuffer _ buffer := ⟨buffer⟩
  check := validate

instance : Fragment Signature :=
  Buffered.fragment

instance : Describe Signature where
  describe signature :=
    " EcdsaSignature [Size=" ++ toString signature.size ++ "]\n" ++
      match signature.r, signature.s with
      | .ok r, .ok s =>
        "  R: " ++ Text.HexNumber.ofField r .big ++ "\n  S: " ++
          Text.HexNumber.ofField s .big ++ "\n"
      | _, _ => ""

end Signature
end SecureBoot
