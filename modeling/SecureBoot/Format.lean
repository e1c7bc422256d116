import SecureBoot.Magic

/-!
The closed sets of values that fields of an image select from: hash selectors, key layouts,
curves, kinds of chain entry, header formats, digests and chain table formats. Each set has the
number stored for a member and the member stored as a number.
-/

namespace SecureBoot

/-- Which fused key hash a root entry is checked against. -/
inductive HashSelector
  | intel
  | user
  | engineering
  | manufacturing
  | upgrade
  | slot
  deriving DecidableEq, Repr

namespace HashSelector

/-- The stored value. -/
def value : HashSelector → UInt32
  | intel => 0
  | user => 1
  | engineering => 2
  | manufacturing => 3
  | upgrade => 4
  | slot => 5

/-- The selector stored as a value, none above five. -/
def ofValue? (value : UInt32) : Option HashSelector :=
  if value = 0 then some intel
  else if value = 1 then some user
  else if value = 2 then some engineering
  else if value = 3 then some manufacturing
  else if value = 4 then some upgrade
  else if value = 5 then some slot
  else none

def name : HashSelector → String
  | intel => "intel"
  | user => "user"
  | engineering => "engineering"
  | manufacturing => "manufacturing"
  | upgrade => "upgrade"
  | slot => "slot"

@[simp] theorem ofValue?_value (selector : HashSelector) :
    ofValue? selector.value = some selector := by
  cases selector <;> decide

end HashSelector

/-- What the leading magic number of a stream announces. -/
inductive StreamTag
  | cmfDescriptor
  | sectionDescriptor
  | rootEntry
  | multiRootEntry
  | publicKeyEntry
  deriving DecidableEq, Repr

namespace StreamTag

/-- The tag of a leading magic number. -/
def ofMagic? (magic : UInt32) : Option StreamTag :=
  if magic = Magic.cmfDescriptor then some cmfDescriptor
  else if magic = Magic.sectionDescriptor then some sectionDescriptor
  else if magic = Magic.rootEntry then some rootEntry
  else if magic = Magic.multiRootEntry then some multiRootEntry
  else if magic = Magic.publicKeyEntry then some publicKeyEntry
  else none

end StreamTag

/-- The layout of a public key. -/
inductive KeyFormat
  | singleRoot
  | multiRoot
  deriving DecidableEq, Repr

namespace KeyFormat

/-- The magic number that leads a key of this layout. -/
def magic : KeyFormat → UInt32
  | singleRoot => Magic.singleRootKey
  | multiRoot => Magic.multiRootKey

/-- The layout a magic number announces. -/
def ofMagic? (magic : UInt32) : Option KeyFormat :=
  if magic = Magic.singleRootKey then some singleRoot
  else if magic = Magic.multiRootKey then some multiRoot
  else none

@[simp] theorem ofMagic?_magic (format : KeyFormat) : ofMagic? format.magic = some format := by
  cases format <;> decide

end KeyFormat

/-- A supported elliptic curve. -/
inductive Curve
  | secp256r1
  | secp384r1
  deriving DecidableEq, Repr

namespace Curve

/-- The magic number of the curve. -/
def magic : Curve → UInt32
  | secp256r1 => Magic.secp256r1
  | secp384r1 => Magic.secp384r1

/-- The curve a magic number names. -/
def ofMagic? (magic : UInt32) : Option Curve :=
  if magic = Magic.secp256r1 then some secp256r1
  else if magic = Magic.secp384r1 then some secp384r1
  else none

/-- The number of bytes of one coordinate. -/
def coordinateSize : Curve → Nat
  | secp256r1 => 32
  | secp384r1 => 48

def name : Curve → String
  | secp256r1 => "prime256v1"
  | secp384r1 => "secp384r1"

@[simp] theorem ofMagic?_magic (curve : Curve) : ofMagic? curve.magic = some curve := by
  cases curve <;> decide

end Curve

/-- The kind of a chain entry. -/
inductive EntryKind
  | root
  | multiRoot
  | publicKey
  | block0
  deriving DecidableEq, Repr

namespace EntryKind

/-- The magic number that leads an entry of this kind. -/
def magic : EntryKind → UInt32
  | root => Magic.rootEntry
  | multiRoot => Magic.multiRootEntry
  | publicKey => Magic.publicKeyEntry
  | block0 => Magic.block0Entry

/-- The kind a magic number announces. -/
def ofMagic? (magic : UInt32) : Option EntryKind :=
  if magic = Magic.rootEntry then some root
  else if magic = Magic.multiRootEntry then some multiRoot
  else if magic = Magic.publicKeyEntry then some publicKey
  else if magic = Magic.block0Entry then some block0
  else none

/-- Whether entries of this kind start a chain. -/
def isRoot : EntryKind → Bool
  | root | multiRoot => true
  | publicKey | block0 => false

def name : EntryKind → String
  | root => "Root"
  | multiRoot => "MultiRoot"
  | publicKey => "PublicKey"
  | block0 => "Block0"

@[simp] theorem ofMagic?_magic (kind : EntryKind) : ofMagic? kind.magic = some kind := by
  cases kind <;> decide

end EntryKind

/-- The digest a configuration header announces. -/
inductive ShaType
  | sha384
  | sha512
  | unknown (magic : UInt32)
  deriving DecidableEq, Repr

namespace ShaType

/-- The stored magic number. -/
def magic : ShaType → UInt32
  | sha384 => Magic.sha384
  | sha512 => Magic.sha512
  | unknown magic => magic

/-- The digest a magic number names. -/
def ofMagic (magic : UInt32) : ShaType :=
  if magic = Magic.sha384 then sha384
  else if magic = Magic.sha512 then sha512
  else unknown magic

def name : ShaType → String
  | sha384 => "SHA-384"
  | sha512 => "SHA-512"
  | unknown _ => "unknown"

@[simp] theorem magic_ofMagic (number : UInt32) : (ofMagic number).magic = number := by
  unfold ofMagic
  split
  · simp [magic, *]
  · split <;> simp [magic, *]

end ShaType

/-- The format of a configuration header. -/
inductive DescriptorFormat
  | sdmLite
  | sdmFull
  | fm
  | unknown (value : UInt32)
  deriving DecidableEq, Repr

namespace DescriptorFormat

/-- The stored value. -/
def value : DescriptorFormat → UInt32
  | sdmLite => 0x0
  | sdmFull => 0x10
  | fm => 0x20
  | unknown value => value

/-- The format stored as a value. -/
def ofValue (value : UInt32) : DescriptorFormat :=
  if value = 0x0 then sdmLite
  else if value = 0x10 then sdmFull
  else if value = 0x20 then fm
  else unknown value

/-- The digest the boot code expects of the format. -/
def requiredSha? : DescriptorFormat → Option ShaType
  | sdmLite => some .sha384
  | sdmFull | fm => some .sha512
  | unknown _ => none

def name : DescriptorFormat → String
  | sdmLite => "SDM-lite"
  | sdmFull => "SDM-full"
  | fm => "FM"
  | unknown _ => "unknown"

@[simp] theorem value_ofValue (number : UInt32) : (ofValue number).value = number := by
  unfold ofValue
  split
  · simp [value, *]
  · split
    · simp [value, *]
    · split <;> simp [value, *]

end DescriptorFormat

/-- The layout of a chain table: four counted chains, or eight chains read to their last entry. -/
inductive ChainFormat
  | classic
  | multiRoot
  deriving DecidableEq, Repr

namespace ChainFormat

/-- The stored value. -/
def value : ChainFormat → UInt32
  | classic => 0
  | multiRoot => 1

/-- The layout stored as a value. -/
def ofValue? (value : UInt32) : Option ChainFormat :=
  if value = 0 then some classic
  else if value = 1 then some multiRoot
  else none

/-- The number of slots. -/
def chainCount : ChainFormat → Nat
  | classic => 4
  | multiRoot => 8

/-- The bytes of the table header that describe one slot. -/
def slotSize : ChainFormat → Nat
  | classic => 8
  | multiRoot => 4

/-- The layout that goes with a header format. -/
def ofDescriptor : DescriptorFormat → ChainFormat
  | .fm => multiRoot
  | .sdmLite | .sdmFull | .unknown _ => classic

def name : ChainFormat → String
  | classic => "classic"
  | multiRoot => "multi-root"

@[simp] theorem ofValue?_value (format : ChainFormat) : ofValue? format.value = some format := by
  cases format <;> decide

/-- The slots fill the table header. -/
theorem chainCount_mul_slotSize (format : ChainFormat) :
    format.chainCount * format.slotSize = Size.chainTableHeader := by
  cases format <;> rfl

end ChainFormat

end SecureBoot
