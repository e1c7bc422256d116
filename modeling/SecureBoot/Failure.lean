import SecureBoot.Bytes
import SecureBoot.Format
import SecureBoot.Text.Hex

/-!
The causes for which building, reading, checking, signing or storing an image fails. A cause
carries the values that its message shows; the wording is in `SecureBoot.Failure.Message`.
-/

namespace SecureBoot

/-- A structure or field whose length is checked. -/
inductive LengthField
  | publicKeyHeader
  | publicKey
  | ecdsaSignature
  | cmfDescriptor
  | sectionDescriptor
  | certificateHeader
  | totalLength
  | dataLength
  | signatureLength
  | rootSignature
  | multiRootSignature
  | entryHeader
  | entryData
  | entrySignature
  | chain
  | chainTableHeader
  | chainTable
  | signatureDescriptor
  | signatureDescriptorHeader
  | signatureDescriptorLength
  | certificate
  | cmfSections
  | sectionPayload
  | moduleSignature
  deriving DecidableEq, Repr

/-- What is wrong with an S-expression. -/
inductive ExpressionFault
  | unterminatedList
  | unexpectedEnd
  | unterminatedHexAtom
  | badLengthPrefix
  | lengthPastEnd
  | emptyToken
  deriving DecidableEq, Repr

/-- One coordinate of a public key. -/
inductive Axis
  | x
  | y
  deriving DecidableEq, Repr

/-- A word of a configuration header that has to hold one of few values. -/
inductive HeaderWord
  | headerLength
  | flags
  | publicVersion
  | sectionType
  deriving DecidableEq, Repr

/-- A word that only the multi-root key layout has. -/
inductive MultiRootWord
  | fuseEnable
  | contribution
  deriving DecidableEq, Repr

/-- An object that is read from a stream at most once. -/
inductive ReadOnce
  | entry
  | chain
  | chainTable
  deriving DecidableEq, Repr

/-- A header that a signature descriptor is linked to. -/
inductive LinkedHeader
  | cmfDescriptor
  | sectionDescriptor
  | certificateHeader
  deriving DecidableEq, Repr

/-- A field or argument outside its allowed set. -/
inductive FieldFault
  | expression (fault : ExpressionFault) (position : Nat)
  | coordinateSizes (curve : Curve) (x y : Nat)
  | noPublicKey
  | noCoordinate (axis : Axis)
  | noSupportedKeyType
  | unknownCurve
  | toolInformationSet
  | headerWord (word : HeaderWord) (offset : Nat) (value : UInt32)
  | headerFormat (value : UInt32)
  | headerDigest (digest : ShaType) (format : DescriptorFormat)
  | certificateSectionType (value : UInt32)
  | signatureComponents (r s : Nat)
  | signatureHashType (value : UInt32)
  | rootNeedsSingleRootKey
  | multiRootKeyCount (count : Nat)
  | multiRootNeedsMultiRootKeys
  | publicKeyEntryNeedsKey
  | hashSelector (value : UInt32)
  | rootEntrySigned
  | rootKeyMissing (kind : EntryKind)
  | rootKeyCancelled (cancelId : UInt32)
  | multiRootWithoutKeys
  | publicKeyEntryWithoutKey
  | slotsInUse (count : Nat)
  | chainsOutOfOrder (later : Nat) (laterOffset : UInt32) (index : Nat) (offset : UInt32)
  | tableSlot (index : Nat) (storedCount : Option UInt32) (storedOffset count offset : UInt32)
  | chainFormat (value : UInt32)
  | announcedChains (announced actual : ChainFormat)
  | sectionsAnnounced (announced index expected : Nat)
  | sectionsAnnouncedAfterLast (announced : Nat)
  | sectionCountGrows (next remaining : UInt32)
  | chainsForDescriptor (format : DescriptorFormat) (chains : ChainFormat)
  | notSigned (format : DescriptorFormat)
  | twoKeychains
  | noKeychain
  | noFileName (path : String)
  | reservedName (name : String)
  | refused (reason : String)
  deriving DecidableEq, Repr

/-- A violation of the order root, public keys, block0. -/
inductive OrderFault
  | startsWith (kind : EntryKind)
  | rootLater (kind : EntryKind)
  | block0WithoutKey
  | withoutKey (kind : EntryKind)
  | first (kind : EntryKind)
  | secondRoot (index : Nat)
  | second (kind : EntryKind)
  | block0Inside (index : Nat)
  | keychainWithoutRoot
  deriving DecidableEq, Repr

/-- A stream too short to be classified. -/
inductive StreamFault
  | noMagic (available : Nat)
  | sectionWithoutType
  | publicKeyEntryTooShort
  | publicKeyEntryTruncated
  deriving DecidableEq, Repr

/-- A stored hash that differs from the hash of what it is to cover. -/
inductive LinkFault
  | rootKeyHash (kind : EntryKind) (stored expected : Bytes)
  | block0Hash (header : LinkedHeader) (stored expected : Bytes)
  deriving DecidableEq, Repr

/-- A text that is no hexadecimal number. -/
inductive HexFault
  | empty (text : String)
  | number (text : String) (fault : Text.Hex.Fault)
  | atom (position : Nat) (fault : Text.Hex.Fault)
  deriving DecidableEq, Repr

/-- A chain whose entries were not all read. -/
inductive PendingFault
  | entries (count : Nat)
  | neverSettled
  deriving DecidableEq, Repr

/-- A disagreement of an archive with its manifest. -/
inductive ManifestFault
  | second (name path : String)
  | missing (path : String)
  | malformedLine (line : String)
  | listedTwice (name : String)
  | notListed (name : String)
  | digestDiffers (name listed actual : String)
  | notArchived (name : String)
  deriving DecidableEq, Repr

/-- A call outside its conditions. -/
inductive InvariantFault
  | integerSize (size : Nat)
  | integerTooLarge (value size : Nat)
  | tooManyBytes (count : Nat)
  | emptyAppend
  | noMagic
  | noFragmentAt (index : Nat)
  | tooManyFragments (count limit : Nat)
  | multiRootOnly (word : MultiRootWord)
  | alreadyRead (object : ReadOnce)
  | chainCount (format : ChainFormat) (count : Nat)
  deriving DecidableEq, Repr

/-- Why a call failed. After `capacityOverflow` the program does not go on: room for so many bytes can
never be set aside. -/
inductive Failure
  | inputOutput
  | container
  | capacityOverflow (size : Nat)
  | sizeExceeded (size limit : Nat)
  | outOfBounds (offset size length : Nat)
  | invalidMagic (offset : Nat) (expected actual : UInt32)
  | crcMismatch (address : Nat) (expected actual : UInt32)
  | invalidCrcAddress (address : Nat)
  | crossFragmentWrite (offset size : Nat)
  | invalidChainOrder (fault : OrderFault)
  | chainTerminated
  | lengthMismatch (field : LengthField) (expected actual : Nat)
  | reservedFieldNonzero (offset : Nat) (value : UInt32)
  | misaligned (length : Nat)
  | unknownSignatureEntry (magic : UInt32)
  | unknownStreamFormat (fault : StreamFault)
  | hashChainMismatch (fault : LinkFault)
  | invalidField (fault : FieldFault)
  | invalidHex (fault : HexFault)
  | unfinishedRead (fault : PendingFault)
  | manifestMismatch (fault : ManifestFault)
  | invariantViolation (fault : InvariantFault)
  deriving DecidableEq, Repr

/-- Accept exactly when a condition holds. -/
def require (condition : Prop) [Decidable condition] (failure : Failure) : Except Failure Unit :=
  if condition then .ok () else .error failure

@[simp] theorem require_eq_ok_iff {condition : Prop} [Decidable condition] {failure : Failure}
    {answer : Unit} : require condition failure = .ok answer ↔ condition := by
  unfold require
  split <;> simp [*]

end SecureBoot
