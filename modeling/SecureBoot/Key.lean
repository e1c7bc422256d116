import SecureBoot.Expression.Parser
import SecureBoot.Sequence
import SecureBoot.Text.HexNumber

/-!
ECDSA public keys as chain entries embed them. A key is a header of six words and the big-endian
coordinates X and Y. The single-root layout stores the sizes of the coordinates in its header; the
multi-root layout uses these words for fuse enables and contribution and takes the size from the
curve.
-/

namespace SecureBoot

/-- The bytes of a public key and the layout they are read by. -/
structure PublicKey where
  buffer : Buffer
  format : KeyFormat
  deriving DecidableEq, Repr

/-- The header words a key is built with. The contribution is picked by the layout if none is
given, and stays zero inside a public key entry. -/
structure KeyOptions where
  fuseEnable : UInt32 := 0
  contribution : Option UInt32 := none
  permission : UInt32 := unsetWord
  cancelId : UInt32 := unsetWord
  inPublicKeyEntry : Bool := false
  deriving DecidableEq, Repr

namespace PublicKey

def xSizeOffset : Nat := 0x4

def ySizeOffset : Nat := 0x8

def fuseEnableOffset : Nat := 0x4

def contributionOffset : Nat := 0x8

def curveOffset : Nat := 0xC

def permissionOffset : Nat := 0x10

def cancelIdOffset : Nat := 0x14

/-- An empty key, to be read. -/
def empty (format : KeyFormat) : PublicKey :=
  ⟨(Buffer.empty (some Size.publicKeyLimit)).withMagic format.magic 0, format⟩

/-- The two words that the layouts use differently. -/
def layoutWords (format : KeyFormat) (size : Nat) (options : KeyOptions) : UInt32 × UInt32 :=
  match format with
  | .singleRoot => (UInt32.ofNat size, UInt32.ofNat size)
  | .multiRoot =>
    (options.fuseEnable,
      if options.inPublicKeyEntry then 0 else options.contribution.getD unsetWord)

/-- Write a key with the given coordinates into an empty buffer. -/
def fillIn (format : KeyFormat) (curve : Curve) (x y : Bytes) (options : KeyOptions) :
    Edit Buffer Unit := do
  let size := curve.coordinateSize
  let (first, second) := layoutWords format size options
  Buffer.reset (Size.publicKeyHeader + 2 * size)
  Edit.change (·.setWord first xSizeOffset)
  Edit.change (·.setWord second ySizeOffset)
  Edit.change (·.setWord curve.magic curveOffset)
  Edit.change (·.setWord options.permission permissionOffset)
  Edit.change (·.setWord options.cancelId cancelIdOffset)
  Edit.change (·.setRaw x Size.publicKeyHeader)
  Edit.change (·.setRaw y (Size.publicKeyHeader + size))

/-- The key with the given big-endian coordinates, whose sizes have to be the curve's. -/
def ofCoordinates (format : KeyFormat) (curve : Curve) (x y : Bytes) (options : KeyOptions) :
    Except Failure PublicKey := do
  require (x.length = curve.coordinateSize ∧ y.length = curve.coordinateSize)
    (.invalidField (.coordinateSizes curve x.length y.length))
  let buffer ← (fillIn format curve x y options).result (empty format).buffer
  return ⟨buffer, format⟩

/-- The names of curves in exported keys, in the order in which they are looked for. -/
def exportNames : List (String × Curve) :=
  [("secp256r1", .secp256r1), ("secp384r1", .secp384r1), ("prime256v1", .secp256r1)]

/-- The coordinate that a list of parameters gives for an axis. -/
def coordinate (parameters : Expression) (axis : Axis) (keyword : String) :
    Except Failure Bytes :=
  match parameters.valueOf? (Text.utf8 keyword.toList) with
  | some bytes => .ok bytes
  | none => .error (.invalidField (.noCoordinate axis))

/-- The key of the first of the named curves for which there are parameters. -/
def ofParameters (format : KeyFormat) (key : Expression) (options : KeyOptions) :
    List (String × Curve) → Except Failure PublicKey
  | [] => .error (.invalidField .noSupportedKeyType)
  | (name, curve) :: rest =>
    match key.find? (Text.utf8 ("ecdsa-" ++ name ++ "-sha384").toList) with
    | none => ofParameters format key options rest
    | some items => do
      let x ← coordinate (.list items) .x "qx"
      let y ← coordinate (.list items) .y "qy"
      ofCoordinates format curve x y options

/-- The key that an exported S-expression describes. -/
def ofExport (format : KeyFormat) (input : Bytes) (options : KeyOptions) :
    Except Failure PublicKey := do
  let tree ← Expression.parse input
  match tree.find? (Text.utf8 "public-key".toList) with
  | none => .error (.invalidField .noPublicKey)
  | some items => ofParameters format (.list items) options exportNames

def size (key : PublicKey) : Nat :=
  key.buffer.size

def isEmpty (key : PublicKey) : Bool :=
  key.buffer.isEmpty

/-- The curve the key names, if it is known. -/
def curve? (key : PublicKey) : Except Failure (Option Curve) := do
  return Curve.ofMagic? (← key.buffer.getWord curveOffset)

/-- The coordinate size of the curve the key names. -/
def curveSize (key : PublicKey) : Except Failure Nat := do
  match ← key.curve? with
  | some curve => return curve.coordinateSize
  | none => .error (.invalidField .unknownCurve)

/-- The size of X. -/
def xSize (key : PublicKey) : Except Failure Nat :=
  match key.format with
  | .singleRoot => do return (← key.buffer.getWord xSizeOffset).toNat
  | .multiRoot => key.curveSize

/-- The size of Y. -/
def ySize (key : PublicKey) : Except Failure Nat :=
  match key.format with
  | .singleRoot => do return (← key.buffer.getWord ySizeOffset).toNat
  | .multiRoot => key.curveSize

/-- The coordinate X. -/
def x (key : PublicKey) : Except Failure Bytes := do
  key.buffer.getRaw Size.publicKeyHeader (← key.xSize)

/-- The coordinate Y. -/
def y (key : PublicKey) : Except Failure Bytes := do
  key.buffer.getRaw (Size.publicKeyHeader + (← key.xSize)) (← key.ySize)

/-- Both coordinates as they are stored. -/
def coordinates (key : PublicKey) : Except Failure Bytes := do
  key.buffer.getRaw Size.publicKeyHeader ((← key.xSize) + (← key.ySize))

/-- The SHA-384 digest of both coordinates. -/
def coordinateHash (key : PublicKey) : Except Failure Bytes := do
  return Bytes.sha384 (← key.coordinates)

/-- The most significant word of the coordinate hash. -/
def hashWord (key : PublicKey) : Except Failure Bytes := do
  return (← key.coordinateHash).take 4

/-- Refuse words that only the multi-root layout has. -/
def requireMultiRoot (key : PublicKey) (word : MultiRootWord) : Except Failure Unit :=
  require (key.format = .multiRoot) (.invariantViolation (.multiRootOnly word))

def fuseEnable (key : PublicKey) : Except Failure UInt32 := do
  key.requireMultiRoot .fuseEnable
  key.buffer.getWord fuseEnableOffset

def contribution (key : PublicKey) : Except Failure UInt32 := do
  key.requireMultiRoot .contribution
  key.buffer.getWord contributionOffset

def permission (key : PublicKey) : Except Failure UInt32 :=
  key.buffer.getWord permissionOffset

def cancelId (key : PublicKey) : Except Failure UInt32 :=
  key.buffer.getWord cancelIdOffset

/-- The key with a header word replaced. -/
def setWord (key : PublicKey) (value : UInt32) (offset : Nat) : Except Failure PublicKey := do
  return { key with buffer := ← key.buffer.setWord value offset }

def setFuseEnable (key : PublicKey) (value : UInt32) : Except Failure PublicKey := do
  key.requireMultiRoot .fuseEnable
  key.setWord value fuseEnableOffset

def setContribution (key : PublicKey) (value : UInt32) : Except Failure PublicKey := do
  key.requireMultiRoot .contribution
  key.setWord value contributionOffset

def setPermission (key : PublicKey) (value : UInt32) : Except Failure PublicKey :=
  key.setWord value permissionOffset

def setCancelId (key : PublicKey) (value : UInt32) : Except Failure PublicKey :=
  key.setWord value cancelIdOffset

/-- Accept the empty key, which is an unused slot, and keys of a known curve whose size is the
one their header and coordinates need. -/
def validate (key : PublicKey) : Except Failure Unit :=
  if key.isEmpty then .ok ()
  else do
    require ((← key.curve?).isSome) (.invalidField .unknownCurve)
    key.buffer.validate
    let expected := Size.publicKeyHeader + (← key.xSize) + (← key.ySize)
    require (expected = key.size) (.lengthMismatch .publicKey expected key.size)

/-- The size a key header announces to a reader that expects the given layout. -/
def announcedSize (format : KeyFormat) (header : Bytes) : Except Failure Nat :=
  match format with
  | .singleRoot =>
    .ok (Size.publicKeyHeader + ((Bytes.wordAt header xSizeOffset).toNat +
      (Bytes.wordAt header ySizeOffset).toNat))
  | .multiRoot =>
    match Curve.ofMagic? (Bytes.wordAt header curveOffset) with
    | some curve => .ok (Size.publicKeyHeader + 2 * curve.coordinateSize)
    | none => .error (.invalidField .unknownCurve)

/-- Take a key whose header is next in the stream. -/
def readAnnounced (format : KeyFormat) (header : Bytes) : Edit (PublicKey × Stream) Nat := do
  let total ← Edit.ask fun _ => announcedSize format header
  Edit.ask fun _ => require (total ≤ Size.publicKeyLimit)
    (.sizeExceeded total Size.publicKeyLimit)
  let bytes ← Edit.fromStream (Edit.takeExactly total .publicKey)
  Edit.onObject (Edit.change fun key => do
    return { key with buffer := ← key.buffer.append bytes })
  Edit.onObject (Edit.ask validate)
  return total

/-- Take exactly the key that is next in the stream, or nothing if none is, or if there is a key
already. -/
def read : Edit (PublicKey × Stream) Nat := do
  let (key, _) ← get
  if !key.isEmpty then return 0
  let header ← Edit.fromStream (Stream.peek Size.publicKeyHeader)
  if header.length < 4 then return 0
  if (KeyFormat.ofMagic? (Bytes.wordAt header 0)).isNone then return 0
  Edit.ask fun _ => require (header.length = Size.publicKeyHeader)
    (.lengthMismatch .publicKeyHeader Size.publicKeyHeader header.length)
  readAnnounced key.format header

instance : Fragment PublicKey where
  size := size
  maxSize key := key.buffer.limit
  toBytes key := key.buffer.bytes
  readBytes key := key.buffer.getRaw
  writeBytes key bytes offset := do
    return { key with buffer := ← key.buffer.setRaw bytes offset }
  validate := validate
  read := read
  update := pure ()

instance : Allocate PublicKey where
  allocate _ := do
    let head ← Stream.peek 4
    if head.length < 4 then return none
    return (KeyFormat.ofMagic? (Bytes.wordAt head 0)).map empty

/-- A line that shows an answer, or nothing if there is none. -/
def showLine {α : Type} (label : String) (answer : Except Failure α) (text : α → String) :
    String :=
  match answer with
  | .ok value => "  " ++ label ++ ": " ++ text value ++ "\n"
  | .error _ => ""

/-- The name of the key's curve. -/
def curveName (key : PublicKey) : String :=
  match key.curve? with
  | .ok (some curve) => curve.name
  | _ => "unknown"

instance : Describe PublicKey where
  describe key :=
    " EcdsaPublicKey [Size=" ++ toString key.size ++ "]\n" ++
      if key.isEmpty then ""
      else
        let number (bytes : Bytes) := Text.HexNumber.ofField bytes .big
        "  Curve Type: " ++ key.curveName ++ "\n" ++
        (match key.x, key.y with
          | .ok x, .ok y => "  X: " ++ number x ++ "\n  Y: " ++ number y ++ "\n"
          | _, _ => "") ++
        showLine "KeyHash (qX||qY)" key.coordinateHash number ++
        showLine "Permissions" key.permission (fun word => Text.hex word.toNat) ++
        showLine "Cancel ID" key.cancelId (fun word => Text.hex word.toNat)

end PublicKey
end SecureBoot
