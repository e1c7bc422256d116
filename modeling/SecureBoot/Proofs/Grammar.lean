import SecureBoot.Proofs.Entry

/-!
The grammar of chain entries. It is stated over bytes alone: key records, the data blocks they stand
in, and entries around these. An entry that is recognized in a stream and read succeeds exactly on
the bytes that the grammar describes, and takes no others.
-/

namespace SecureBoot

namespace PublicKey

variable {key : PublicKey} {format : KeyFormat} {bytes : Bytes}

/-- How many bytes of a record on a curve are coordinates, as its layout has it. -/
def coordinateBytes (format : KeyFormat) (curve : Curve) (bytes : Bytes) : Nat :=
  match format with
  | .singleRoot =>
    (Bytes.wordAt bytes xSizeOffset).toNat + (Bytes.wordAt bytes ySizeOffset).toNat
  | .multiRoot => 2 * curve.coordinateSize

/-- A string of bytes is one key record of a layout. -/
structure Record (format : KeyFormat) (bytes : Bytes) : Prop where
  bounded : bytes.length ≤ Size.publicKeyLimit
  magic : Bytes.wordAt bytes 0 = format.magic
  measured : ∃ curve, Curve.ofMagic? (Bytes.wordAt bytes curveOffset) = some curve ∧
    bytes.length = Size.publicKeyHeader + coordinateBytes format curve bytes

theorem Record.header_le (record : Record format bytes) : Size.publicKeyHeader ≤ bytes.length := by
  obtain ⟨curve, -, whole⟩ := record.measured
  rw [whole]
  exact Nat.le_add_right _ _

/-- The key whose bytes are a record. -/
def ofRecord (format : KeyFormat) (bytes : Bytes) : PublicKey :=
  ⟨{ (empty format).buffer with bytes := bytes }, format⟩

theorem Record.standard (record : Record format bytes) : (ofRecord format bytes).Standard :=
  (standard_empty format).withBytes fun most limited => by
    obtain rfl := Option.some.inj limited
    exact record.bounded

/-- The bytes of a key that is there and valid are a record. -/
theorem record_of_valid (standard : key.Standard) (valid : key.validate = .ok ())
    (filled : key.isEmpty = false) : Record key.format key.buffer.bytes := by
  obtain ⟨⟨curve, named⟩, buffer, -, announced⟩ := validate_filled valid filled
  obtain ⟨-, magic⟩ := magic_of_valid standard buffer
  have word {offset : Nat} (within : offset + 4 ≤ Size.publicKeyHeader) :=
    Bytes.wordAt_take within key.buffer.bytes
  refine ⟨standard.bounded _ rfl, magic, curve, named, ?_⟩
  cases layout : key.format with
  | singleRoot =>
    rw [layout, announcedSize, word (by decide), word (by decide)] at announced
    exact (Except.ok.inj announced).symm
  | multiRoot =>
    rw [layout, announcedSize, word (by decide), named] at announced
    exact (Except.ok.inj announced).symm

/-- A record makes a valid key. -/
theorem Record.valid (record : Record format bytes) :
    (ofRecord format bytes).validate = .ok () := by
  have long := record.header_le
  obtain ⟨curve, named, whole⟩ := record.measured
  have room {offset : Nat} (within : offset + 4 ≤ Size.publicKeyHeader) :
      (ofRecord format bytes).buffer.getWord offset = .ok (Bytes.wordAt bytes offset) :=
    Buffer.getWord_eq_ok_iff.mpr ⟨Nat.le_trans within long, rfl⟩
  have found : (ofRecord format bytes).curve? = .ok (some curve) := by
    rw [curve?, room (by decide), ← named]
    rfl
  have sound : (ofRecord format bytes).buffer.validate = .ok () := by
    refine Buffer.validate_eq_ok_iff.mpr ⟨record.standard.within, ?_, ?_⟩
    · intro magic member
      obtain rfl : magic = (format.magic, 0) := by
        simpa [ofRecord, empty, Buffer.withMagic, Buffer.empty] using member
      have four : 0 + 4 ≤ Size.publicKeyHeader := by decide
      exact ⟨Nat.le_trans four long, record.magic⟩
    · intro address member
      simp [ofRecord, empty, Buffer.withMagic, Buffer.empty] at member
  have there : (ofRecord format bytes).isEmpty = false :=
    filled_iff.mpr (Nat.lt_of_lt_of_le (by decide) long)
  simp only [validate, there, Bool.false_eq_true, if_false, bind_eq_ok_iff, require_eq_ok_iff]
  refine ⟨some curve, found, (), rfl, (), sound, ?_⟩
  cases format with
  | singleRoot =>
    refine ⟨(Bytes.wordAt bytes xSizeOffset).toNat, ?_,
      (Bytes.wordAt bytes ySizeOffset).toNat, ?_, ?_⟩
    · simp only [xSize, ofRecord] at room ⊢
      rw [room (by decide)]
      rfl
    · simp only [ySize, ofRecord] at room ⊢
      rw [room (by decide)]
      rfl
    · rw [Nat.add_assoc]
      exact whole.symm
  | multiRoot =>
    have sized : (ofRecord .multiRoot bytes).curveSize = .ok curve.coordinateSize := by
      rw [curveSize, found]
      rfl
    refine ⟨curve.coordinateSize, sized, curve.coordinateSize, sized, ?_⟩
    rw [Nat.add_assoc, ← Nat.two_mul]
    exact whole.symm

theorem Record.filled (record : Record format bytes) : (ofRecord format bytes).isEmpty = false :=
  filled_iff.mpr (Nat.lt_of_lt_of_le (by decide) record.header_le)

/-- The coordinates of a valid key are all that follows its header. -/
theorem coordinates_of_valid (valid : key.validate = .ok ()) (filled : key.isEmpty = false) :
    key.coordinates = .ok (key.buffer.bytes.drop Size.publicKeyHeader) := by
  rw [validate, filled] at valid
  simp only [Bool.false_eq_true, if_false, bind_eq_ok_iff, require_eq_ok_iff,
    exists_unit_iff] at valid
  obtain ⟨_, -, -, -, x, sizeX, y, sizeY, whole⟩ := valid
  have beyond : (key.buffer.bytes.drop Size.publicKeyHeader).length ≤ x + y := by
    rw [List.length_drop]
    simp only [size, Buffer.size] at whole
    omega
  rw [coordinates, sizeX, bind_of_ok rfl, sizeY, bind_of_ok rfl, Buffer.getRaw_eq_ok_iff]
  refine ⟨by simp only [size] at whole; omega, ?_⟩
  rw [Bytes.slice, List.take_of_length_le beyond]

end PublicKey

namespace EntryData

variable {data : EntryData} {kind : EntryKind} {bytes : Bytes} {records : List Bytes}

/-- What the data of an entry is made of: its bytes and, in order, the key records among them. -/
inductive Holds : EntryKind → Bytes → List Bytes → Prop
  | root {reserved record : Bytes} (whole : reserved.length = Size.rootReserved)
      (key : PublicKey.Record .singleRoot record) : Holds .root (reserved ++ record) [record]
  | multiRoot {reserved : Bytes} {records : List Bytes}
      (whole : reserved.length = Size.rootReserved) (keyed : records ≠ [])
      (few : records.length ≤ multiRootKeyLimit)
      (each : ∀ record ∈ records, ∃ format, PublicKey.Record format record) :
      Holds .multiRoot (reserved ++ records.flatten) records
  | publicKey {format : KeyFormat} {record : Bytes} (key : PublicKey.Record format record) :
      Holds .publicKey record [record]
  | block0 : Holds .block0 [] []

/-- The bytes of the keys in order. -/
def keyRecords (data : EntryData) : List Bytes :=
  data.keys.map (·.buffer.bytes)

/-- Every key that the data of this kind has to have is there. -/
def Complete (data : EntryData) : Prop :=
  data.Filled ∧ (data.kind = .block0 ∨ data.keys ≠ [])

/-- Valid data with all its keys holds their records. -/
theorem holds_of_valid (standard : data.Standard) (valid : Fragment.validate data = .ok ())
    (complete : data.Complete) : Holds data.kind (Fragment.toBytes data) data.keyRecords := by
  obtain ⟨filled, keyed⟩ := complete
  cases data with
  | root reserved key =>
    obtain ⟨-, standardKey, single, whole⟩ := standard
    have there := filled key (by simp [keys])
    have record := PublicKey.record_of_valid standardKey (validate_root.mp valid).2 there
    rw [single] at record
    rw [toBytes_root]
    exact .root (whole there) record
  | multiRoot reserved sequence =>
    obtain ⟨-, standardKeys, layout, whole⟩ := standard
    obtain ⟨each, -, counted⟩ := Sequence.validate_bounds (validate_multiRoot.mp valid).2
    rw [layout] at each counted
    have nonempty : sequence.items ≠ [] := by simpa [kind, keys] using keyed
    have flat : sequence.items.flatMap Fragment.toBytes =
        (keyRecords (multiRoot reserved sequence)).flatten := List.flatMap_def ..
    rw [toBytes_multiRoot, flat]
    refine .multiRoot (whole ?_) ?_ ?_ ?_
    · simpa [Sequence.isEmpty] using nonempty
    · simpa [keyRecords, keys] using nonempty
    · have most : sequence.length ≤ multiRootKeyLimit := counted _ rfl
      simpa [keyRecords, keys, Sequence.length] using most
    · intro record member
      obtain ⟨key, inside, rfl⟩ := List.mem_map.mp member
      exact ⟨_, PublicKey.record_of_valid (standardKeys key inside) (each key inside).1
        (filled key inside)⟩
  | publicKey key =>
    rw [toBytes_publicKey]
    exact .publicKey (PublicKey.record_of_valid standard (validate_publicKey.mp valid)
      (filled key (by simp [keys])))
  | block0 => exact .block0

/-- Records in some layout are the bytes of valid keys. -/
private theorem exists_keys (each : ∀ record ∈ records, ∃ format, PublicKey.Record format record) :
    ∃ keys : List PublicKey, keys.map (·.buffer.bytes) = records ∧
      ∀ key ∈ keys, key.Standard ∧ key.validate = .ok () ∧ key.isEmpty = false := by
  induction records with
  | nil => exact ⟨[], rfl, by simp⟩
  | cons first rest ih =>
    obtain ⟨⟨format, record⟩, later⟩ := List.forall_mem_cons.mp each
    obtain ⟨keys, rfl, fine⟩ := ih later
    exact ⟨PublicKey.ofRecord format first :: keys, rfl,
      List.forall_mem_cons.mpr ⟨⟨record.standard, record.valid, record.filled⟩, fine⟩⟩

theorem slots_valid {keys : List PublicKey} (few : keys.length ≤ multiRootKeyLimit)
    (fine : ∀ key ∈ keys, key.Standard ∧ key.validate = .ok () ∧ key.isEmpty = false) :
    { keySlots with items := keys }.validate = .ok () := by
  have small : ∀ key ∈ keys, Fragment.size key ≤ Size.publicKeyLimit := fun key member =>
    (fine key member).1.bounded _ rfl
  simp only [Sequence.validate, bind_eq_ok_iff, exists_unit_iff, checkBound_eq_ok_iff,
    Sequence.validateItems_eq_ok_iff, Sequence.checkCount_eq_ok_iff]
  refine ⟨fun key member => ⟨(fine key member).2.1, fun most limited => ?_⟩, fun most limited => ?_,
    fun most limited => ?_, rfl, ?_⟩
  · obtain rfl := Option.some.inj limited
    exact small key member
  · obtain rfl := Option.some.inj limited
    exact Nat.le_trans (Fragment.totalSize_le_mul small) (Nat.mul_le_mul_right _ few)
  · obtain rfl := Option.some.inj limited
    exact few
  · rw [show keySlots.crcAddresses = [] from rfl, List.mergeSort_nil]
    rfl

theorem reserved_exists {reserved : Bytes} (whole : reserved.length = Size.rootReserved) :
    { reservedBlock with bytes := reserved }.Follows reservedBlock ∧
      { reservedBlock with bytes := reserved }.validate = .ok () := by
  have blank : reservedBlock.Follows reservedBlock := .self _ fun _ _ => Nat.zero_le _
  have follows : { reservedBlock with bytes := reserved }.Follows reservedBlock :=
    blank.withBytes fun most limited => by
      obtain rfl := Option.some.inj limited
      exact Nat.le_of_eq whole
  exact ⟨follows, follows.validate_of_plain rfl rfl⟩

/-- Bytes that hold records are those of valid data. -/
theorem exists_of_holds (holds : Holds kind bytes records) :
    ∃ data : EntryData, data.Standard ∧ Fragment.validate data = .ok () ∧ data.Complete ∧
      data.kind = kind ∧ Fragment.toBytes data = bytes ∧ data.keyRecords = records := by
  cases holds with
  | @root reserved record whole key =>
    obtain ⟨follows, sound⟩ := reserved_exists whole
    exact ⟨.root { reservedBlock with bytes := reserved } (PublicKey.ofRecord .singleRoot record),
      ⟨follows, key.standard, rfl, fun _ => whole⟩, validate_root.mpr ⟨sound, key.valid⟩,
      ⟨by simpa [Filled, keys] using key.filled, .inr (by simp [keys])⟩, rfl, toBytes_root _ _, rfl⟩
  | @multiRoot reserved records whole keyed few each =>
    obtain ⟨follows, sound⟩ := reserved_exists whole
    obtain ⟨items, rfl, fine⟩ := exists_keys each
    rw [List.length_map] at few
    refine ⟨.multiRoot { reservedBlock with bytes := reserved } { keySlots with items := items },
      ⟨follows, fun key member => (fine key member).1, rfl, fun _ => whole⟩,
      validate_multiRoot.mpr ⟨sound, slots_valid few fine⟩,
      ⟨fun key member => (fine key member).2.2, .inr ?_⟩, rfl, ?_, rfl⟩
    · simpa [keys] using keyed
    · rw [toBytes_multiRoot, List.flatMap_def]
      rfl
  | @publicKey format _ key =>
    exact ⟨.publicKey (PublicKey.ofRecord format bytes), key.standard,
      validate_publicKey.mpr key.valid,
      ⟨by simpa [Filled, keys] using key.filled, .inr (by simp [keys])⟩, rfl,
      toBytes_publicKey _, rfl⟩
  | block0 => exact ⟨.block0, trivial, rfl, ⟨by simp [Filled, keys], .inl rfl⟩, rfl, rfl, rfl⟩

/-- The coordinates of valid keys are what follows the headers of their records. -/
theorem coordinatesOf_of_valid {keys : List PublicKey}
    (fine : ∀ key ∈ keys, key.validate = .ok () ∧ key.isEmpty = false) :
    coordinatesOf keys =
      .ok ((keys.map (·.buffer.bytes)).flatMap (·.drop Size.publicKeyHeader)) := by
  induction keys with
  | nil => rfl
  | cons first rest ih =>
    obtain ⟨⟨valid, filled⟩, later⟩ := List.forall_mem_cons.mp fine
    rw [coordinatesOf, PublicKey.coordinates_of_valid valid filled, bind_of_ok rfl, ih later]
    rfl

end EntryData

theorem HashSelector.ofValue?_isSome_iff {value : UInt32} :
    (∃ selector, HashSelector.ofValue? value = some selector) ↔ value.toNat ≤ 5 := by
  constructor
  · rintro ⟨selector, found⟩
    unfold HashSelector.ofValue? at found
    split_ifs at found <;> simp_all
  · intro small
    unfold HashSelector.ofValue?
    split_ifs <;> simp_all [← UInt32.toNat_inj]
    omega

theorem KeyFormat.magic_inj {format other : KeyFormat} :
    format.magic = other.magic ↔ format = other := by
  cases format <;> cases other <;> decide

theorem Curve.magic_of_ofMagic? {magic : UInt32} {curve : Curve}
    (found : Curve.ofMagic? magic = some curve) : magic = curve.magic := by
  unfold Curve.ofMagic? at found
  split_ifs at found <;> cases found <;> assumption

theorem EntryKind.magic_of_ofMagic? {magic : UInt32} {kind : EntryKind}
    (found : EntryKind.ofMagic? magic = some kind) : magic = kind.magic := by
  unfold EntryKind.ofMagic? at found
  split_ifs at found <;> cases found <;> assumption

namespace ChainEntry

variable {entry : ChainEntry} {kind : EntryKind} {bytes : Bytes} {stream between left : Stream}
  {blank : ChainEntry} {count : Nat} {answer : Unit}

/-- The digest of the coordinates of all records: the bytes behind their headers. -/
def recordHash (records : List Bytes) : Bytes :=
  Bytes.sha384 (records.flatMap (·.drop Size.publicKeyHeader))

theorem length_take_recordHash (records : List Bytes) : ((recordHash records).take 4).length = 4 := by
  rw [List.length_take, recordHash, Bytes.length_sha384]
  decide

/-- What a root entry demands: no signature, keys that cannot be cancelled, and at the front of its
data the first word of the digest of all coordinates. -/
structure Anchored (data : Bytes) (records : List Bytes) (signature : Nat) : Prop where
  unsigned : signature = 0
  lasting : ∀ record ∈ records, Bytes.wordAt record PublicKey.cancelIdOffset = unsetWord
  hashed : data.take 4 = (recordHash records).take 4

/-- The word that a root entry of valid keys stores. -/
theorem hashWordOf_of_valid {keys : List PublicKey}
    (fine : ∀ key ∈ keys, key.validate = .ok () ∧ key.isEmpty = false) :
    EntryData.hashWordOf keys = .ok ((recordHash (keys.map (·.buffer.bytes))).take 4) := by
  rw [EntryData.hashWordOf, EntryData.coordinatesOf_of_valid fine]
  rfl

theorem checkRootKey_eq_ok_iff {key : PublicKey} (valid : key.validate = .ok ()) :
    checkRootKey kind key = .ok answer ↔
      key.isEmpty = false ∧ Bytes.wordAt key.buffer.bytes PublicKey.cancelIdOffset = unsetWord := by
  simp only [checkRootKey, PublicKey.cancelId, bind_eq_ok_iff, require_eq_ok_iff, exists_unit_iff,
    Buffer.getWord_eq_ok_iff]
  constructor
  · rintro ⟨filled, _, ⟨-, rfl⟩, lasting⟩
    exact ⟨filled, lasting⟩
  · rintro ⟨filled, lasting⟩
    obtain ⟨-, -, long, -⟩ := PublicKey.validate_filled valid filled
    have four : PublicKey.cancelIdOffset + 4 ≤ Size.publicKeyHeader := by decide
    exact ⟨filled, _, ⟨Nat.le_trans four long, rfl⟩, lasting⟩

theorem checkRootKeys_eq_ok_iff {keys : List PublicKey}
    (valid : ∀ key ∈ keys, key.validate = .ok ()) :
    checkRootKeys kind keys = .ok answer ↔
      ∀ key ∈ keys, key.isEmpty = false ∧
        Bytes.wordAt key.buffer.bytes PublicKey.cancelIdOffset = unsetWord := by
  induction keys with
  | nil => simp [checkRootKeys]
  | cons first rest ih =>
    obtain ⟨here, later⟩ := List.forall_mem_cons.mp valid
    simp only [checkRootKeys, bind_eq_ok_iff, exists_unit_iff, checkRootKey_eq_ok_iff here,
      ih later, List.forall_mem_cons]

theorem checkUnsigned_eq_ok_iff {field : LengthField} :
    entry.checkUnsigned field = .ok answer ↔ entry.slot.size = 0 := by
  rw [checkUnsigned, require_eq_ok_iff, Buffer.isEmpty, List.isEmpty_iff, Buffer.size,
    List.length_eq_zero_iff]

/-- The key hash word that is stored is the front of the data. -/
theorem checkHashWord_eq_ok_iff {reserved : Buffer} {behind expected : Bytes}
    (there : entry.data.reserved? = some reserved) (whole : reserved.size = Size.rootReserved)
    (held : Fragment.toBytes entry.data = reserved.bytes ++ behind) :
    entry.checkHashWord expected = .ok answer ↔
      (Fragment.toBytes entry.data).take 4 = expected := by
  have four : 4 ≤ reserved.bytes.length := by
    rw [show reserved.bytes.length = _ from whole]
    decide
  have stored : reserved.getRaw 0 4 = .ok (reserved.bytes.take 4) :=
    Buffer.getRaw_eq_ok_iff.mpr ⟨four, Bytes.slice_zero _ _⟩
  rw [checkHashWord, require_eq_ok_iff, ChainEntry.hashWord?, EntryData.hashWord?, there, held,
    List.take_append_of_le_length four]
  simp only [stored, Except.toOption, Option.getD_some]

private theorem validateKind_root {header slot reserved : Buffer} {key : PublicKey}
    (standard : (EntryData.root reserved key).Standard)
    (valid : Fragment.validate (EntryData.root reserved key) = .ok ()) :
    validateKind ⟨header, .root reserved key, slot⟩ = .ok answer ↔
      (EntryData.root reserved key).Complete ∧
        Anchored (Fragment.toBytes (EntryData.root reserved key))
          (EntryData.root reserved key).keyRecords slot.size := by
  obtain ⟨-, -, -, whole⟩ := standard
  have validKey := (EntryData.validate_root.mp valid).2
  have complete : (EntryData.root reserved key).Complete ↔ key.isEmpty = false := by
    simp [EntryData.Complete, EntryData.Filled, EntryData.keys]
  have hash (filled : key.isEmpty = false) :
      key.hashWord = .ok ((recordHash [key.buffer.bytes]).take 4) := by
    rw [PublicKey.hashWord, PublicKey.coordinateHash,
      PublicKey.coordinates_of_valid validKey filled, recordHash, List.flatMap_singleton]
    rfl
  have front (filled : key.isEmpty = false) (expected : Bytes) :
      checkHashWord ⟨header, .root reserved key, slot⟩ expected = .ok () ↔
        (Fragment.toBytes (EntryData.root reserved key)).take 4 = expected :=
    checkHashWord_eq_ok_iff rfl (whole filled) (EntryData.toBytes_root reserved key)
  simp only [validateKind, bind_eq_ok_iff, exists_unit_iff, checkUnsigned_eq_ok_iff,
    checkRootKey_eq_ok_iff validKey, complete]
  constructor
  · rintro ⟨unsigned, ⟨filled, lasting⟩, word, computed, matching⟩
    obtain rfl := Except.ok.inj ((hash filled).symm.trans computed)
    exact ⟨filled, unsigned, List.forall_mem_singleton.mpr lasting, (front filled _).mp matching⟩
  · rintro ⟨filled, unsigned, lasting, hashed⟩
    exact ⟨unsigned, ⟨filled, lasting _ (List.mem_singleton_self _)⟩, _, hash filled,
      (front filled _).mpr hashed⟩

private theorem validateKind_multiRoot {header slot reserved : Buffer} {keys : Sequence PublicKey}
    (standard : (EntryData.multiRoot reserved keys).Standard)
    (valid : Fragment.validate (EntryData.multiRoot reserved keys) = .ok ()) :
    validateKind ⟨header, .multiRoot reserved keys, slot⟩ = .ok answer ↔
      (EntryData.multiRoot reserved keys).Complete ∧
        Anchored (Fragment.toBytes (EntryData.multiRoot reserved keys))
          (EntryData.multiRoot reserved keys).keyRecords slot.size := by
  obtain ⟨-, -, -, whole⟩ := standard
  have each := (Sequence.validate_bounds (EntryData.validate_multiRoot.mp valid).2).1
  have validKeys : ∀ key ∈ keys.items, key.validate = .ok () :=
    fun key member => (each key member).1
  have complete : (EntryData.multiRoot reserved keys).Complete ↔
      (∀ key ∈ keys.items, key.isEmpty = false) ∧ keys.isEmpty = false := by
    simp [EntryData.Complete, EntryData.Filled, EntryData.kind, EntryData.keys, Sequence.isEmpty]
  have hash (filled : ∀ key ∈ keys.items, key.isEmpty = false) :
      EntryData.hashWordOf keys.items =
        .ok ((recordHash (keys.items.map (·.buffer.bytes))).take 4) :=
    hashWordOf_of_valid fun key member => ⟨validKeys key member, filled key member⟩
  have front (nonempty : keys.isEmpty = false) (expected : Bytes) :
      checkHashWord ⟨header, .multiRoot reserved keys, slot⟩ expected = .ok () ↔
        (Fragment.toBytes (EntryData.multiRoot reserved keys)).take 4 = expected :=
    checkHashWord_eq_ok_iff rfl (whole nonempty) (EntryData.toBytes_multiRoot reserved keys)
  simp only [validateKind, bind_eq_ok_iff, exists_unit_iff, checkUnsigned_eq_ok_iff,
    require_eq_ok_iff, checkRootKeys_eq_ok_iff validKeys, complete]
  constructor
  · rintro ⟨unsigned, nonempty, fine, word, computed, matching⟩
    have filled key member := (fine key member).1
    obtain rfl := Except.ok.inj ((hash filled).symm.trans computed)
    exact ⟨⟨filled, nonempty⟩, unsigned,
      List.forall_mem_map.mpr fun key member => (fine key member).2, (front nonempty _).mp matching⟩
  · rintro ⟨⟨filled, nonempty⟩, unsigned, lasting, hashed⟩
    have lasts := List.forall_mem_map.mp lasting
    exact ⟨unsigned, nonempty, fun key member => ⟨filled key member, lasts key member⟩, _, hash filled,
      (front nonempty _).mpr hashed⟩

/-- What the kind of an entry demands comes to its keys being there and, of a root entry, to its
being anchored. -/
theorem validateKind_eq_ok_iff (standard : entry.data.Standard)
    (valid : Fragment.validate entry.data = .ok ()) :
    entry.validateKind = .ok answer ↔
      entry.data.Complete ∧ (entry.kind.isRoot = true →
        Anchored (Fragment.toBytes entry.data) entry.data.keyRecords entry.slot.size) := by
  obtain ⟨header, data, slot⟩ := entry
  cases data with
  | root reserved key =>
    rw [validateKind_root standard valid]
    simp [ChainEntry.kind, EntryData.kind, EntryKind.isRoot]
  | multiRoot reserved keys =>
    rw [validateKind_multiRoot standard valid]
    simp [ChainEntry.kind, EntryData.kind, EntryKind.isRoot]
  | publicKey key =>
    simp [validateKind, ChainEntry.kind, EntryData.kind, EntryKind.isRoot, EntryData.Complete,
      EntryData.Filled, EntryData.keys]
  | block0 =>
    simp [validateKind, ChainEntry.kind, EntryData.kind, EntryKind.isRoot, EntryData.Complete,
      EntryData.Filled, EntryData.keys]

/-- The data size that the header of an entry announces. -/
def dataSize (bytes : Bytes) : Nat :=
  (Bytes.wordAt bytes dataLengthOffset).toNat

/-- The signature size that the header of an entry announces. -/
def signatureSize (bytes : Bytes) : Nat :=
  (Bytes.wordAt bytes signatureLengthOffset).toNat

/-- The size of the entry whose header begins the bytes. -/
def announced (bytes : Bytes) : Nat :=
  Size.entryHeader + dataSize bytes + signatureSize bytes

/-- The bytes begin with an entry of the kind. -/
structure WellFormed (kind : EntryKind) (bytes : Bytes) : Prop where
  fits : announced bytes ≤ bytes.length
  total : (Bytes.wordAt bytes totalLengthOffset).toNat = announced bytes
  aligned : (Bytes.wordAt bytes totalLengthOffset).toNat % 8 = 0
  reserved : Bytes.wordAt bytes reservedOffset = 0
  selector : (Bytes.wordAt bytes hashSelectorOffset).toNat ≤ 5
  data : ∃ records,
    EntryData.Holds kind (Bytes.slice bytes Size.entryHeader (dataSize bytes)) records ∧
      (kind.isRoot = true → Anchored (Bytes.slice bytes Size.entryHeader (dataSize bytes)) records
        (signatureSize bytes))

/-- The header of an entry says how its bytes are split, whatever follows them. -/
private theorem announced_toBytes (whole : entry.header.size = Size.entryHeader)
    (measured : entry.Measured) (rest : Bytes) :
    dataSize (Fragment.toBytes entry ++ rest) = Fragment.size entry.data ∧
      signatureSize (Fragment.toBytes entry ++ rest) = entry.slot.size ∧
      announced (Fragment.toBytes entry ++ rest) = entry.size ∧
      ∀ offset, offset + 4 ≤ Size.entryHeader →
        Bytes.wordAt (Fragment.toBytes entry ++ rest) offset =
          Bytes.wordAt entry.header.bytes offset := by
  have words (offset : Nat) (within : offset + 4 ≤ Size.entryHeader) :
      Bytes.wordAt (Fragment.toBytes entry ++ rest) offset =
        Bytes.wordAt entry.header.bytes offset := by
    have inside : offset + 4 ≤ entry.header.bytes.length := by
      rwa [show entry.header.bytes.length = _ from whole]
    rw [toBytes_eq, List.append_assoc, Bytes.wordAt_append_left inside]
  have data : dataSize (Fragment.toBytes entry ++ rest) = Fragment.size entry.data := by
    rw [dataSize, words _ (by decide), measured.data]
  have signature : signatureSize (Fragment.toBytes entry ++ rest) = entry.slot.size := by
    rw [signatureSize, words _ (by decide), measured.signature]
  refine ⟨data, signature, ?_, words⟩
  rw [announced, data, signature, size_eq, whole, Nat.add_assoc]

/-- The bytes of a valid entry begin with an entry, whatever follows them. -/
theorem wellFormed_of_valid (standard : entry.Standard) (valid : entry.validate = .ok ())
    (rest : Bytes) : WellFormed entry.kind (Fragment.toBytes entry ++ rest) := by
  have whole := header_size standard.header valid
  obtain ⟨⟨-, validData, -⟩, measured, ⟨selector, selected⟩, kindValid⟩ :=
    validate_eq_ok_iff.mp valid
  obtain ⟨complete, anchored⟩ := (validateKind_eq_ok_iff standard.data validData).mp kindValid
  obtain ⟨data, signature, all, words⟩ := announced_toBytes whole measured rest
  have block : Bytes.slice (Fragment.toBytes entry ++ rest) Size.entryHeader
      (Fragment.size entry.data) = Fragment.toBytes entry.data := by
    have starts : entry.header.bytes.length = Size.entryHeader := whole
    rw [toBytes_eq, List.append_assoc, List.append_assoc,
      Bytes.slice_append_right (Nat.le_of_eq starts), starts, Nat.sub_self, Bytes.slice_zero,
      List.take_left' (Fragment.Lawful.length_toBytes _)]
  refine ⟨?_, ?_, ?_, ?_, ?_, entry.data.keyRecords, ?_, ?_⟩
  · rw [all, List.length_append, Fragment.Lawful.length_toBytes]
    exact Nat.le_add_right _ _
  · rw [all, words _ (by decide), measured.total]
  · rw [words _ (by decide), measured.total]
    exact measured.aligned
  · rw [words _ (by decide), measured.reserved]
  · rw [words _ (by decide)]
    exact HashSelector.ofValue?_isSome_iff.mp ⟨selector, (hashSelector_eq_ok_iff.mp selected).2⟩
  · rw [data, block]
    exact EntryData.holds_of_valid standard.data validData complete
  · rw [data, block, signature]
    exact anchored

/-- The entry around given data whose header and signature are cut out of bytes. -/
def cutFrom (bytes : Bytes) (data : EntryData) : ChainEntry where
  header := { (ofData data).header with bytes := bytes.take Size.entryHeader }
  data := data
  slot := { Buffer.empty none with
    bytes := Bytes.slice bytes (Size.entryHeader + dataSize bytes) (signatureSize bytes) }

/-- A header whose magic number is in its place is valid. -/
private theorem cutFrom_header_valid {data : EntryData} (long : Size.entryHeader ≤ bytes.length)
    (leads : Bytes.wordAt bytes 0 = data.kind.magic) :
    (cutFrom bytes data).Headed ∧ (cutFrom bytes data).header.validate = .ok () := by
  have size : (bytes.take Size.entryHeader).length = Size.entryHeader := List.length_take_of_le long
  have follows : (cutFrom bytes data).Headed :=
    (Buffer.Follows.self _ fun _ _ => Nat.zero_le _).withBytes fun most limited => by
      obtain rfl := Option.some.inj limited
      exact Nat.le_of_eq size
  refine ⟨follows, Buffer.validate_eq_ok_iff.mpr ⟨follows.within, ?_, ?_⟩⟩
  · intro magic member
    obtain rfl : magic = (data.kind.magic, 0) := by
      simpa [cutFrom, ofData, Buffer.withMagic, Buffer.withDescription, Buffer.empty] using member
    have four : 0 + 4 ≤ Size.entryHeader := by decide
    refine ⟨Nat.le_trans four (Nat.le_of_eq size.symm), ?_⟩
    rw [← leads]
    exact Bytes.wordAt_take four bytes
  · intro address member
    simp [cutFrom, ofData, Buffer.withMagic, Buffer.withDescription, Buffer.empty] at member

/-- The bytes that begin with an entry are those of a valid entry and a rest. -/
theorem exists_of_wellFormed (leads : Bytes.wordAt bytes 0 = kind.magic)
    (wellFormed : WellFormed kind bytes) :
    ∃ entry : ChainEntry, entry.Standard ∧ entry.validate = .ok () ∧ entry.kind = kind ∧
      Fragment.toBytes entry = bytes.take (announced bytes) := by
  have fits := wellFormed.fits
  have parted : announced bytes = Size.entryHeader + (dataSize bytes + signatureSize bytes) :=
    Nat.add_assoc _ _ _
  obtain ⟨records, holds, anchored⟩ := wellFormed.data
  obtain ⟨data, standardData, validData, complete, rfl, held, rfl⟩ :=
    EntryData.exists_of_holds holds
  obtain ⟨headed, validHeader⟩ := cutFrom_header_valid (by omega) leads
  have headerSize : (cutFrom bytes data).header.size = Size.entryHeader :=
    List.length_take_of_le (by omega)
  have dataSized : Fragment.size data = dataSize bytes := by
    rw [← Fragment.Lawful.length_toBytes, held]
    exact Bytes.length_slice (by omega)
  have slotSize : (cutFrom bytes data).slot.size = signatureSize bytes :=
    Bytes.length_slice (by omega)
  have followsSlot : (cutFrom bytes data).slot.Follows (Buffer.empty none) :=
    (Buffer.Follows.self _ fun _ _ => Nat.zero_le _).withBytes (by simp [Buffer.empty])
  have sized : (cutFrom bytes data).size = announced bytes := by
    rw [size_eq, parted, headerSize, slotSize, ← dataSized]
    rfl
  have word {offset : Nat} (within : offset + 4 ≤ Size.entryHeader) :
      Bytes.wordAt (cutFrom bytes data).header.bytes offset = Bytes.wordAt bytes offset :=
    Bytes.wordAt_take within bytes
  have measured : (cutFrom bytes data).Measured := by
    refine ⟨by rw [headerSize]; decide, ?_, ?_, ?_, ?_, ?_⟩
    · rw [word (by decide), wellFormed.total, sized]
    · rw [word (by decide)]
      exact dataSized.symm
    · rw [word (by decide)]
      exact slotSize.symm
    · rw [word (by decide), wellFormed.reserved]
    · rw [sized, ← wellFormed.total]
      exact wellFormed.aligned
  obtain ⟨selector, selected⟩ := HashSelector.ofValue?_isSome_iff.mpr wellFormed.selector
  have selects : (cutFrom bytes data).hashSelector = .ok selector := by
    refine hashSelector_eq_ok_iff.mpr ⟨Nat.le_of_eq headerSize.symm, ?_⟩
    rw [word (by decide), selected]
  have demands : (cutFrom bytes data).validateKind = .ok () := by
    refine (validateKind_eq_ok_iff standardData validData).mpr ⟨complete, fun leader => ?_⟩
    have whole := anchored leader
    rwa [← held, ← slotSize] at whole
  refine ⟨cutFrom bytes data, ⟨headed, standardData, followsSlot⟩,
    validate_eq_ok_iff.mpr ⟨⟨validHeader, validData, followsSlot.validate_of_plain rfl rfl⟩,
      measured, ⟨selector, selects⟩, demands⟩, rfl, ?_⟩
  have joined : bytes.take Size.entryHeader ++
      (Bytes.slice bytes Size.entryHeader (dataSize bytes) ++
        Bytes.slice bytes (Size.entryHeader + dataSize bytes) (signatureSize bytes)) =
          bytes.take (announced bytes) := by
    have pieces := Bytes.slice_append_slice bytes 0 Size.entryHeader
      (dataSize bytes + signatureSize bytes)
    rw [Nat.zero_add, Bytes.slice_zero, Bytes.slice_zero] at pieces
    rw [Bytes.slice_append_slice, pieces, parted]
  rw [toBytes_eq, ← joined, ← held]
  rfl

/-- An entry is recognized in a stream and read. -/
def Arrives (stream : Stream) (count : Nat) (entry : ChainEntry) (left : Stream) : Prop :=
  ∃ blank between, sniff stream = .ok (some blank) between ∧
    Fragment.read (blank, between) = .ok count (entry, left)

theorem Arrives.sound (arrives : Arrives stream count entry left) (steady : stream.Steady) :
    stream.Advances left (Fragment.toBytes entry) ∧ count = entry.size ∧
      entry.validate = .ok () ∧ entry.Standard := by
  obtain ⟨blank, between, sniffed, ran⟩ := arrives
  obtain ⟨looks, -, blanks⟩ := sniff_sound steady sniffed
  obtain ⟨kind, format, rfl⟩ := blanks blank rfl
  obtain ⟨advances, counted, valid, standard, -⟩ := read_sound looks.steady ran
  exact ⟨looks.trans advances, counted, valid, standard⟩

/-- A valid entry arrives from its own bytes. -/
theorem arrives_of_valid {rest : Bytes} (standard : entry.Standard)
    (valid : entry.validate = .ok ()) (steady : stream.Steady)
    (held : stream.unread = Fragment.toBytes entry ++ rest) :
    ∃ left, Arrives stream entry.size entry left := by
  obtain ⟨between, sniffed, looks⟩ := serves_sniff standard valid rest stream steady held
  obtain ⟨left, ran, -⟩ :=
    takes_read standard valid rest between looks.steady (looks.unread_eq held)
  exact ⟨left, _, between, sniffed, ran⟩

/-- An entry arrives exactly from bytes that begin with one, and it takes just these. -/
theorem arrives_iff_wellFormed (steady : stream.Steady)
    (leads : EntryKind.ofMagic? (Bytes.wordAt stream.unread 0) = some kind) :
    ((∃ count entry left, Arrives stream count entry left) ↔ WellFormed kind stream.unread) ∧
      ∀ count entry left, Arrives stream count entry left →
        entry.kind = kind ∧ count = announced stream.unread ∧
        Fragment.toBytes entry = stream.unread.take (announced stream.unread) ∧
        left.unread = stream.unread.drop (announced stream.unread) ∧
        left.position = stream.position + announced stream.unread := by
  have came {count : Nat} {entry : ChainEntry} {left : Stream}
      (arrives : Arrives stream count entry left) :
      WellFormed kind stream.unread ∧ entry.kind = kind ∧ count = announced stream.unread ∧
        stream.unread = Fragment.toBytes entry ++ left.unread ∧
        left.position = stream.position + announced stream.unread := by
    obtain ⟨advances, rfl, valid, standard⟩ := arrives.sound steady
    have whole := header_size standard.header valid
    have measured := (validate_eq_ok_iff.mp valid).2.1
    obtain ⟨-, -, all, words⟩ := announced_toBytes whole measured left.unread
    have formed := wellFormed_of_valid standard valid left.unread
    have first := words 0 (by decide)
    rw [← advances.unread] at formed first all
    have same : entry.kind = kind := by
      rw [first, header_magic standard.header valid, EntryKind.ofMagic?_magic] at leads
      exact Option.some.inj leads
    rw [same] at formed
    refine ⟨formed, same, all.symm, advances.unread, ?_⟩
    rw [advances.position, Fragment.Lawful.length_toBytes, all]
    rfl
  refine ⟨⟨fun ⟨_, _, _, arrives⟩ => (came arrives).1, fun formed => ?_⟩, ?_⟩
  · obtain ⟨entry, standard, valid, -, held⟩ :=
      exists_of_wellFormed (EntryKind.magic_of_ofMagic? leads) formed
    have split := (List.take_append_drop (announced stream.unread) stream.unread).symm
    rw [← held] at split
    obtain ⟨left, arrives⟩ := arrives_of_valid standard valid steady split
    exact ⟨_, entry, left, arrives⟩
  · intro count entry left arrives
    obtain ⟨-, same, counted, held, position⟩ := came arrives
    have length : (Fragment.toBytes entry).length = announced stream.unread := by
      obtain ⟨-, sized, -⟩ := arrives.sound steady
      rw [Fragment.Lawful.length_toBytes, ← counted, sized]
      rfl
    have taken : (Fragment.toBytes entry ++ left.unread).take (announced stream.unread) = _ :=
      List.take_left' length
    have dropped : (Fragment.toBytes entry ++ left.unread).drop (announced stream.unread) = _ :=
      List.drop_left' length
    rw [← held] at taken dropped
    exact ⟨same, counted, taken.symm, dropped.symm, position⟩

/-- The record of a key that cannot be cancelled, with the two words that its layout makes use of and
with coordinates of ones and of twos. -/
def recordOn (format : KeyFormat) (curve : Curve) (first second : UInt32) : Bytes :=
  [format.magic, first, second, curve.magic, unsetWord, unsetWord].flatMap Bytes.ofWord ++
    (List.replicate curve.coordinateSize 1 ++ List.replicate curve.coordinateSize 2)

/-- Records of both layouts, on both curves. -/
def twoRecords : List Bytes :=
  [recordOn .singleRoot .secp256r1 32 32, recordOn .multiRoot .secp384r1 0 unsetWord]

/-- The data of a multi-root entry with these records. -/
def twoKeyData : Bytes :=
  (recordHash twoRecords).take 4 ++ Bytes.zeros 4 ++ twoRecords.flatten

/-- The entry around this data. -/
def twoKeyEntry : Bytes :=
  [EntryKind.multiRoot.magic, 240, 216, 0, 0, 0].flatMap Bytes.ofWord ++ twoKeyData

theorem wellFormed_twoKeyEntry : WellFormed .multiRoot twoKeyEntry := by
  have four := length_take_recordHash twoRecords
  have front : ((recordHash twoRecords).take 4 ++ Bytes.zeros 4).length = Size.rootReserved := by
    rw [List.length_append, four]
    rfl
  have length : twoKeyData.length = 216 := by
    rw [twoKeyData, List.length_append, front]
    decide +kernel
  have size : dataSize twoKeyEntry = 216 := by decide
  have block : Bytes.slice twoKeyEntry Size.entryHeader (dataSize twoKeyEntry) = twoKeyData := by
    rw [size, Bytes.slice, twoKeyEntry, List.drop_left' (by decide),
      List.take_of_length_le (Nat.le_of_eq length)]
  have records : ∀ record ∈ twoRecords, ∃ format, PublicKey.Record format record :=
    List.forall_mem_cons.mpr
      ⟨⟨.singleRoot, by decide +kernel, by decide, .secp256r1, by decide, by decide +kernel⟩,
        List.forall_mem_singleton.mpr
          ⟨.multiRoot, by decide +kernel, by decide, .secp384r1, by decide, by decide +kernel⟩⟩
  refine ⟨?_, by decide, by decide, by decide, by decide, twoRecords, ?_, fun _ => ?_⟩
  · rw [twoKeyEntry, List.length_append, length]
    decide
  · rw [block]
    exact .multiRoot front (by decide) (by decide) records
  · rw [block]
    refine ⟨by decide, by decide, ?_⟩
    rw [twoKeyData, List.append_assoc, List.take_left' four]

/-- An entry with keys arrives. -/
theorem arrives_iff_wellFormed_twoKeyEntry :
    (Stream.ofBytes twoKeyEntry).Steady ∧
      EntryKind.ofMagic? (Bytes.wordAt (Stream.ofBytes twoKeyEntry).unread 0) = some .multiRoot ∧
      ∃ count entry left, Arrives (Stream.ofBytes twoKeyEntry) count entry left := by
  have steady := Stream.steady_ofBytes twoKeyEntry
  have leads : EntryKind.ofMagic? (Bytes.wordAt (Stream.ofBytes twoKeyEntry).unread 0) =
      some .multiRoot := by
    rw [Stream.unread_ofBytes]
    decide
  refine ⟨steady, leads, (arrives_iff_wellFormed steady leads).1.mpr ?_⟩
  rw [Stream.unread_ofBytes]
  exact wellFormed_twoKeyEntry

end ChainEntry
end SecureBoot
