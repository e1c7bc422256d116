import SecureBoot.Failure
import SecureBoot.Text.Quoted

/-!
The wording of failures. Offsets and lengths of structures are in hexadecimal, counts and sizes of
arguments in decimal; magic numbers and checksums have eight digits.
-/

namespace SecureBoot

namespace LengthField

/-- The words for a structure or field in a message. -/
def name : LengthField → String
  | publicKeyHeader => "public key header"
  | publicKey => "public key"
  | ecdsaSignature => "ecdsa signature"
  | cmfDescriptor => "cmf descriptor"
  | sectionDescriptor => "section descriptor"
  | certificateHeader => "engineering certificate header"
  | totalLength => "total length"
  | dataLength => "data length"
  | signatureLength => "signature length"
  | rootSignature => "root entry signature"
  | multiRootSignature => "multi-root entry signature"
  | entryHeader => "entry header"
  | entryData => "entry data"
  | entrySignature => "entry signature"
  | chain => "signature chain"
  | chainTableHeader => "signature chain section header"
  | chainTable => "signature chain section"
  | signatureDescriptor => "signature descriptor"
  | signatureDescriptorHeader => "signature descriptor header"
  | signatureDescriptorLength => "signature descriptor length"
  | certificate => "engineering certificate"
  | cmfSections => "cmf sections"
  | sectionPayload => "section payload"
  | moduleSignature => "module signature"

end LengthField

namespace ExpressionFault

def message : ExpressionFault → String
  | unterminatedList => "unterminated list"
  | unexpectedEnd => "unexpected end of input"
  | unterminatedHexAtom => "unterminated hex atom"
  | badLengthPrefix => "bad length prefix"
  | lengthPastEnd => "length prefix runs past end of input"
  | emptyToken => "empty token"

end ExpressionFault

namespace Axis

/-- The keyword of a coordinate in an exported key. -/
def keyword : Axis → String
  | x => "qx"
  | y => "qy"

end Axis

namespace HeaderWord

def name : HeaderWord → String
  | headerLength => "bootrom header length"
  | flags => "flags"
  | publicVersion => "public version"
  | sectionType => "section type"

end HeaderWord

namespace MultiRootWord

def name : MultiRootWord → String
  | fuseEnable => "fuse enable"
  | contribution => "contribution"

end MultiRootWord

namespace ReadOnce

def name : ReadOnce → String
  | entry => "signature chain entry"
  | chain => "signature chain"
  | chainTable => "signature chain section"

end ReadOnce

namespace LinkedHeader

def name : LinkedHeader → String
  | cmfDescriptor => "cmf descriptor"
  | sectionDescriptor => "section descriptor"
  | certificateHeader => "engineering certificate header"

end LinkedHeader

open Text (hex hexWord)

namespace FieldFault

private def showCount : Option UInt32 → String
  | none => "None"
  | some count => "Some(" ++ toString count.toNat ++ ")"

def message : FieldFault → String
  | expression fault position =>
    "s-expression: " ++ fault.message ++ " at byte " ++ toString position
  | coordinateSizes curve x y =>
    curve.name ++ " coordinates must be " ++ toString curve.coordinateSize ++ " bytes, got " ++
      toString x ++ " and " ++ toString y
  | noPublicKey => "no public-key in s-expression"
  | noCoordinate axis => "no " ++ axis.keyword ++ " coordinate in s-expression"
  | noSupportedKeyType => "no supported ecdsa key type in s-expression"
  | unknownCurve => "elliptic curve type is unknown"
  | toolInformationSet =>
    "cmf descriptor tool information at 0x80 must be zero before signing"
  | headerWord word offset value =>
    "cmf descriptor " ++ word.name ++ " at " ++ hex offset ++ " is " ++ hex value.toNat
  | headerFormat value =>
    "cmf descriptor format " ++ hex value.toNat ++ " is not SDM-lite, SDM-full or FM"
  | headerDigest digest format =>
    "SHA type " ++ digest.name ++ " at 0x13C is not valid for " ++ format.name
  | certificateSectionType value =>
    "engineering certificate section type is " ++ hex value.toNat
  | signatureComponents r s =>
    "signature components of " ++ toString r ++ " and " ++ toString s ++
      " bytes are not supported"
  | signatureHashType value => "unknown signature hash type " ++ hex value.toNat
  | rootNeedsSingleRootKey => "root entry requires a single-root public key"
  | multiRootKeyCount count =>
    "multi-root entry takes 1 to " ++ toString multiRootKeyLimit ++ " keys, got " ++
      toString count
  | multiRootNeedsMultiRootKeys => "multi-root entry requires multi-root format keys"
  | publicKeyEntryNeedsKey => "public key entry requires a public key"
  | hashSelector value => "hash selector " ++ toString value.toNat ++ " is not in 0..=5"
  | rootEntrySigned => "root entries are self-signed and carry no signature"
  | rootKeyMissing kind => kind.name ++ " entry is missing its public key"
  | rootKeyCancelled cancelId =>
    "root key cancel id is " ++ hex cancelId.toNat ++ ", root keys cannot be cancelled"
  | multiRootWithoutKeys => "multi-root entry requires at least one public key"
  | publicKeyEntryWithoutKey => "public key entry is missing its public key"
  | slotsInUse count => "all " ++ toString count ++ " signature chain slots are in use"
  | chainsOutOfOrder later laterOffset index offset =>
    "chain " ++ toString later ++ " offset " ++ hex laterOffset.toNat ++ " precedes chain " ++
      toString index ++ " offset " ++ hex offset.toNat
  | tableSlot index storedCount storedOffset count offset =>
    "chain " ++ toString index ++ " header slot (count " ++ showCount storedCount ++
      ", offset " ++ hex storedOffset.toNat ++ ") does not match its chain (count " ++
      toString count.toNat ++ ", offset " ++ hex offset.toNat ++ ")"
  | chainFormat value =>
    "signature chain section format " ++ toString value.toNat ++ " is unknown"
  | announcedChains announced actual =>
    "header announces " ++ announced.name ++ " chains but the section is " ++ actual.name
  | sectionsAnnounced announced index expected =>
    toString announced ++ " sections announced before section " ++ toString index ++
      ", found " ++ toString expected
  | sectionsAnnouncedAfterLast announced =>
    toString announced ++ " sections announced after the last section"
  | sectionCountGrows next remaining =>
    "section announces " ++ toString next.toNat ++ " more sections after " ++
      toString remaining.toNat ++ " were announced"
  | chainsForDescriptor format chains =>
    format.name ++ " descriptor carries " ++ chains.name ++ " signature chains"
  | notSigned format => format.name ++ " configurations are not signed"
  | twoKeychains => "cannot use both an in-memory keychain and a keychain file"
  | noKeychain => "no keychain configured"
  | noFileName path => path ++ " has no file name"
  | reservedName name => "entry name " ++ name ++ " is reserved for the manifest"
  | refused reason => reason

end FieldFault

namespace OrderFault

def message : OrderFault → String
  | startsWith kind => "a chain must start with a root entry, not a " ++ kind.name ++ " entry"
  | rootLater kind => "a " ++ kind.name ++ " entry can only start a chain"
  | block0WithoutKey => "a block0 entry has no preceding key"
  | withoutKey kind => kind.name ++ " entry carries no public key"
  | first kind => "entry 0 is a " ++ kind.name ++ " entry"
  | secondRoot index => "entry " ++ toString index ++ " is a second root entry"
  | second kind => "entry 1 is a " ++ kind.name ++ " entry"
  | block0Inside index => "block0 entry " ++ toString index ++ " is not the last entry"
  | keychainWithoutRoot => "keychain has no root entry"

end OrderFault

namespace StreamFault

def message : StreamFault → String
  | noMagic available =>
    "need 4 bytes to identify the stream, got " ++ toString available
  | sectionWithoutType => "section descriptor truncated before its type"
  | publicKeyEntryTooShort => "public key entry is too short"
  | publicKeyEntryTruncated => "public key entry truncated"

end StreamFault

namespace LinkFault

def message : LinkFault → String
  | rootKeyHash kind stored expected =>
    kind.name ++ " entry stores MSW key hash " ++ Text.Hex.encode stored ++
      " but the key hashes to " ++ Text.Hex.encode expected
  | block0Hash header stored expected =>
    "block0 hash " ++ Text.Hex.encode stored ++ " does not match the " ++ header.name ++
      " hash " ++ Text.Hex.encode expected

end LinkFault

namespace Text.Hex.Fault

def message : Fault → String
  | oddLength => "Odd number of digits"
  | badDigit byte position =>
    "Invalid character " ++ Quoted.char (Char.ofNat byte.toNat) ++ " at position " ++
      toString position

end Text.Hex.Fault

namespace HexFault

def message : HexFault → String
  | empty text => text
  | number text fault => text ++ ": " ++ fault.message
  | atom position fault => "hex atom at byte " ++ toString position ++ ": " ++ fault.message

end HexFault

namespace PendingFault

def message : PendingFault → String
  | entries count => toString count ++ " entries still pending"
  | neverSettled => "entry count was never settled"

end PendingFault

namespace ManifestFault

def message : ManifestFault → String
  | second name path => "second manifest " ++ name ++ " in " ++ path
  | missing path => path ++ " has no manifest"
  | malformedLine line => "malformed manifest line " ++ Text.Quoted.text line.toList
  | listedTwice name => name ++ " is listed twice in the manifest"
  | notListed name => name ++ " is not in the manifest"
  | digestDiffers name listed actual =>
    name ++ ": manifest has " ++ listed ++ ", content hashes to " ++ actual
  | notArchived name => name ++ " is listed in the manifest but missing from the archive"

end ManifestFault

namespace InvariantFault

def message : InvariantFault → String
  | integerSize size => "integer field size must be 1-8 bytes, got " ++ toString size
  | integerTooLarge value size =>
    "value " ++ hex value ++ " does not fit in " ++ toString size ++ " bytes"
  | tooManyBytes count =>
    "cannot decode " ++ toString count ++ " bytes into a 64-bit integer"
  | emptyAppend => "zero-sized append requested"
  | noMagic => "fragment does not have any magic numbers"
  | noFragmentAt index => "no fragment at index " ++ toString index
  | tooManyFragments count limit =>
    toString count ++ " fragments exceed the limit of " ++ toString limit
  | multiRootOnly word => word.name ++ " only exists on multi-root keys"
  | alreadyRead object => object.name ++ " has already been read"
  | chainCount format count =>
    format.name ++ " section holds " ++ toString count ++ " chains instead of " ++
      toString format.chainCount

end InvariantFault

namespace Failure

/-- The kind of a failure, one fixed word for programs that tell failures apart. -/
def kind : Failure → String
  | inputOutput => "Io"
  | container => "Zip"
  | capacityOverflow _ => "Panic"
  | sizeExceeded .. => "SizeExceeded"
  | outOfBounds .. => "OutOfBounds"
  | invalidMagic .. => "InvalidMagic"
  | crcMismatch .. => "CrcMismatch"
  | invalidCrcAddress .. => "InvalidCrcAddress"
  | crossFragmentWrite .. => "CrossFragmentWrite"
  | invalidChainOrder .. => "InvalidChainOrder"
  | chainTerminated => "ChainTerminated"
  | lengthMismatch .. => "LengthMismatch"
  | reservedFieldNonzero .. => "ReservedFieldNonzero"
  | misaligned .. => "Misaligned"
  | unknownSignatureEntry .. => "UnknownSignatureEntry"
  | unknownStreamFormat .. => "UnknownStreamFormat"
  | hashChainMismatch .. => "HashChainMismatch"
  | invalidField .. => "InvalidField"
  | invalidHex .. => "InvalidHex"
  | unfinishedRead .. => "UnfinishedRead"
  | manifestMismatch .. => "ManifestMismatch"
  | invariantViolation .. => "InvariantViolation"

/-- The message of a failure. -/
def message : Failure → String
  | inputOutput => "IO error"
  | container => "Zip error"
  | capacityOverflow _ => "capacity overflow"
  | sizeExceeded size limit =>
    "size " ++ toString size ++ " exceeds maximum of " ++ toString limit ++ " bytes"
  | outOfBounds offset size length =>
    "range " ++ hex offset ++ "+" ++ hex size ++ " is out of bounds for buffer of " ++
      hex length ++ " bytes"
  | invalidMagic offset expected actual =>
    "magic number at offset " ++ hex offset ++ " is not correct! Expected: " ++
      hexWord expected ++ ", Actual: " ++ hexWord actual
  | crcMismatch address expected actual =>
    "crc at offset " ++ hex address ++ " is not correct! Expected: " ++ hexWord expected ++
      ", Actual: " ++ hexWord actual
  | invalidCrcAddress address => hex address ++ " is not a registered crc address"
  | crossFragmentWrite offset size =>
    "write of " ++ toString size ++ " bytes at offset " ++ hex offset ++
      " spans more than one fragment"
  | invalidChainOrder fault => "invalid signature chain order: " ++ fault.message
  | chainTerminated => "signature chain is terminated by a block0 entry"
  | lengthMismatch field expected actual =>
    field.name ++ " is " ++ hex actual ++ " but should be " ++ hex expected
  | reservedFieldNonzero offset value =>
    "reserved field at offset " ++ hex offset ++ " must be zero, found " ++ hex value.toNat
  | misaligned length => "length " ++ hex length ++ " is not a multiple of 8"
  | unknownSignatureEntry magic => "unknown signature entry with magic " ++ hexWord magic
  | unknownStreamFormat fault => "unknown stream format: " ++ fault.message
  | hashChainMismatch fault => "hash chain mismatch: " ++ fault.message
  | invalidField fault => "invalid field: " ++ fault.message
  | invalidHex fault => "invalid hex string: " ++ fault.message
  | unfinishedRead fault => "signature chain read is unfinished: " ++ fault.message
  | manifestMismatch fault => "manifest mismatch: " ++ fault.message
  | invariantViolation fault => "invariant violation: " ++ fault.message

end Failure
end SecureBoot
