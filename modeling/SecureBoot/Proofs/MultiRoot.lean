import SecureBoot.Proofs.Filling
import SecureBoot.Proofs.Proportions

/-!
Building multi-root entries. Validity and coordinates of a key in the multi-root layout do not
depend on its fuse enables, its contribution and its permission, so the contribution can be split
between the first two keys without touching what the entry is anchored in. What is built is valid
whenever the keys are: nothing is left for the last check to refuse.
-/

namespace SecureBoot

theorem Fragment.dvd_totalSize {α : Type} [Fragment α] {items : List α} {unit : Nat}
    (each : ∀ item ∈ items, unit ∣ Fragment.size item) : unit ∣ Fragment.totalSize items := by
  induction items with
  | nil => exact Nat.dvd_zero unit
  | cons first rest ih =>
    obtain ⟨here, later⟩ := List.forall_mem_cons.mp each
    exact Nat.dvd_add here (ih later)

namespace PublicKey

variable {key other : PublicKey} {offset count : Nat} {share : UInt32}

/-- The keys have one layout and the same bytes, but for the words that hold the fuse enables, the
contribution and the permission. -/
structure Alike (key other : PublicKey) : Prop where
  format : other.format = key.format
  bytes : ∀ index, ¬ (fuseEnableOffset ≤ index ∧ index < curveOffset) →
    ¬ (permissionOffset ≤ index ∧ index < cancelIdOffset) →
      other.buffer.bytes[index]? = key.buffer.bytes[index]?

/-- The key can be one of a multi-root entry. -/
structure Suitable (key : PublicKey) : Prop where
  filled : key.isEmpty = false
  format : key.format = .multiRoot
  valid : key.validate = .ok ()
  lasting : key.cancelId = .ok unsetWord

/-- The key with its part of the contribution, unless it has one. -/
def withShare (share : UInt32) (key : PublicKey) : PublicKey :=
  if Bytes.wordAt key.buffer.bytes contributionOffset = unsetWord then
    { key with buffer := { key.buffer with
        bytes := Bytes.splice key.buffer.bytes contributionOffset (Bytes.ofWord share) } }
  else key

namespace Alike

theorem refl (key : PublicKey) : key.Alike key :=
  ⟨rfl, fun _ _ _ => rfl⟩

theorem symm (alike : key.Alike other) : other.Alike key :=
  ⟨alike.format.symm, fun index outside apart => (alike.bytes index outside apart).symm⟩

/-- What lies beside the three words is the same. -/
theorem slice (alike : key.Alike other)
    (apart : offset + count ≤ fuseEnableOffset ∨
      curveOffset ≤ offset ∧ offset + count ≤ permissionOffset ∨ cancelIdOffset ≤ offset) :
    Bytes.slice other.buffer.bytes offset count = Bytes.slice key.buffer.bytes offset count := by
  have words : fuseEnableOffset < curveOffset ∧ curveOffset < permissionOffset ∧
      permissionOffset < cancelIdOffset := by decide
  refine List.ext_getElem? fun index => ?_
  rw [Bytes.getElem?_slice, Bytes.getElem?_slice]
  split
  · exact alike.bytes _ (by omega) (by omega)
  · rfl

theorem drop (alike : key.Alike other) (beyond : cancelIdOffset ≤ offset) :
    other.buffer.bytes.drop offset = key.buffer.bytes.drop offset := by
  have words : fuseEnableOffset < curveOffset ∧ curveOffset < permissionOffset ∧
      permissionOffset < cancelIdOffset := by decide
  refine List.ext_getElem? fun index => ?_
  rw [List.getElem?_drop, List.getElem?_drop]
  exact alike.bytes _ (by omega) (by omega)

theorem length (alike : key.Alike other) (long : Size.publicKeyHeader ≤ key.buffer.bytes.length) :
    other.buffer.bytes.length = key.buffer.bytes.length := by
  have behind := congrArg List.length (alike.drop (Nat.le_refl cancelIdOffset))
  have last : cancelIdOffset < Size.publicKeyHeader := by decide
  rw [List.length_drop, List.length_drop] at behind
  omega

/-- A record stays one when the three words are exchanged. -/
theorem record (alike : key.Alike other) (record : Record .multiRoot key.buffer.bytes) :
    Record .multiRoot other.buffer.bytes := by
  have size := alike.length record.header_le
  have magic : Bytes.wordAt other.buffer.bytes 0 = Bytes.wordAt key.buffer.bytes 0 := by
    rw [Bytes.wordAt, Bytes.wordAt, alike.slice (.inl (by decide))]
  have named : Bytes.wordAt other.buffer.bytes curveOffset =
      Bytes.wordAt key.buffer.bytes curveOffset := by
    rw [Bytes.wordAt, Bytes.wordAt, alike.slice (.inr (.inl (by decide)))]
  obtain ⟨curve, found, measured⟩ := record.measured
  exact ⟨size ▸ record.bounded, magic.trans record.magic, curve, named ▸ found, size.trans measured⟩

theorem withShare (inside : contributionOffset + 4 ≤ key.size) (share : UInt32) :
    key.Alike (key.withShare share) := by
  rw [PublicKey.withShare]
  split
  · refine ⟨rfl, fun index outside _ => ?_⟩
    have room : contributionOffset ≤ key.buffer.bytes.length := Nat.le_of_add_right_le inside
    have four : (Bytes.ofWord share).length = 4 := Bytes.length_ofWord share
    have words : fuseEnableOffset ≤ contributionOffset ∧ contributionOffset + 4 = curveOffset := by
      decide
    exact Bytes.getElem?_splice_of_outside room (by omega)
  · exact .refl key

end Alike

/-- A standard key is there and valid just if its bytes are a record of its layout. -/
theorem valid_iff_record (standard : key.Standard) :
    key.validate = .ok () ∧ key.isEmpty = false ↔ Record key.format key.buffer.bytes := by
  have same : ofRecord key.format key.buffer.bytes = key := by
    rw [ofRecord, ← standard.layout]
  constructor
  · rintro ⟨valid, filled⟩
    exact record_of_valid standard valid filled
  · intro record
    exact same ▸ ⟨record.valid, record.filled⟩

/-- Suitable keys are told by their bytes. -/
theorem suitable_iff (standard : key.Standard) :
    key.Suitable ↔ key.format = .multiRoot ∧ Record .multiRoot key.buffer.bytes ∧
      Bytes.wordAt key.buffer.bytes cancelIdOffset = unsetWord := by
  constructor
  · rintro ⟨filled, format, valid, lasting⟩
    have record := (valid_iff_record standard).mp ⟨valid, filled⟩
    exact ⟨format, format ▸ record, (Buffer.getWord_eq_ok_iff.mp lasting).2⟩
  · rintro ⟨format, record, lasting⟩
    obtain ⟨valid, filled⟩ := (valid_iff_record standard).mpr (format ▸ record)
    have last : cancelIdOffset + 4 ≤ Size.publicKeyHeader := by decide
    exact ⟨filled, format, valid,
      Buffer.getWord_eq_ok_iff.mpr ⟨Nat.le_trans last record.header_le, lasting⟩⟩

theorem Suitable.header_le (suitable : key.Suitable) : Size.publicKeyHeader ≤ key.size :=
  (validate_filled suitable.valid suitable.filled).2.2.1

/-- The coordinates of every curve take a multiple of eight bytes. -/
theorem Suitable.dvd_size (suitable : key.Suitable) (standard : key.Standard) : 8 ∣ key.size := by
  obtain ⟨-, record, -⟩ := (suitable_iff standard).mp suitable
  obtain ⟨curve, -, whole⟩ := record.measured
  rw [show key.size = _ from whole, coordinateBytes]
  cases curve <;> decide

/-- A key that is like a suitable one is suitable. -/
theorem Suitable.alike (suitable : key.Suitable) (standard : key.Standard) (alike : key.Alike other)
    (standardToo : other.Standard) : other.Suitable := by
  obtain ⟨format, record, lasting⟩ := (suitable_iff standard).mp suitable
  have word : Bytes.wordAt other.buffer.bytes cancelIdOffset =
      Bytes.wordAt key.buffer.bytes cancelIdOffset := by
    rw [Bytes.wordAt, Bytes.wordAt, alike.slice (.inr (.inr (Nat.le_refl _)))]
  exact (suitable_iff standardToo).mpr
    ⟨alike.format.trans format, alike.record record, word.trans lasting⟩

/-- What follows the header of a valid key is X and then Y. -/
theorem point_exists (valid : key.validate = .ok ()) (filled : key.isEmpty = false) :
    ∃ x y, key.x = .ok x ∧ key.y = .ok y ∧
      key.buffer.bytes.drop Size.publicKeyHeader = x ++ y := by
  obtain ⟨curve, x, y, -, storedX, storedY, sizeX, sizeY⟩ := coordinates_exist valid filled
  refine ⟨x, y, storedX, storedY, ?_⟩
  rw [PublicKey.x, sizeX, bind_of_ok rfl, Buffer.getRaw_eq_ok_iff] at storedX
  rw [PublicKey.y, sizeX, bind_of_ok rfl, sizeY, bind_of_ok rfl, Buffer.getRaw_eq_ok_iff] at storedY
  have both : key.coordinates = .ok (x ++ y) := by
    rw [coordinates, sizeX, bind_of_ok rfl, sizeY, bind_of_ok rfl, Buffer.getRaw_eq_ok_iff,
      ← Bytes.slice_append_slice, storedX.2, storedY.2]
    exact ⟨by simpa only [Nat.add_assoc] using storedY.1, rfl⟩
  exact Except.ok.inj ((coordinates_of_valid valid filled).symm.trans both)

theorem contribution_eq_ok_iff {word : UInt32} :
    key.contribution = .ok word ↔ key.format = .multiRoot ∧
      contributionOffset + 4 ≤ key.size ∧ Bytes.wordAt key.buffer.bytes contributionOffset = word := by
  simp only [contribution, requireMultiRoot, bind_eq_ok_iff, require_eq_ok_iff, exists_unit_iff,
    Buffer.getWord_eq_ok_iff]
  exact Iff.rfl

theorem setContribution_of_inside (format : key.format = .multiRoot)
    (inside : contributionOffset + 4 ≤ key.size) :
    key.setContribution share = .ok { key with buffer := { key.buffer with
      bytes := Bytes.splice key.buffer.bytes contributionOffset (Bytes.ofWord share) } } := by
  simp only [setContribution, requireMultiRoot, setWord, bind_eq_ok_iff, require_eq_ok_iff,
    exists_unit_iff, Buffer.setWord_eq_ok_iff, pure_eq_ok_iff]
  exact ⟨format, _, ⟨inside, rfl⟩, rfl⟩

theorem standard_withShare (standard : key.Standard)
    (inside : contributionOffset + 4 ≤ key.size) : (key.withShare share).Standard := by
  rw [withShare]
  split
  · refine Buffer.Follows.withBytes standard ?_
    rw [Bytes.length_splice_ofWord inside]
    exact standard.bounded
  · exact standard

end PublicKey

namespace ChainEntry

variable {keys split others : List PublicKey} {key : PublicKey} {share : UInt32}
  {shares : List UInt32} {selector : HashSelector} {entry : ChainEntry}

theorem splitContribution_cons (format : key.format = .multiRoot)
    (inside : PublicKey.contributionOffset + 4 ≤ key.size) :
    splitContribution (share :: shares) (key :: keys) = (do
      return key.withShare share :: (← splitContribution shares keys)) := by
  rw [splitContribution, bind_of_ok (PublicKey.contribution_eq_ok_iff.mpr ⟨format, inside, rfl⟩),
    PublicKey.withShare]
  split
  · rw [bind_of_ok (PublicKey.setContribution_of_inside format inside)]
  · rfl

/-- A key gets its part of the contribution if it has a word for it. -/
theorem splitContribution_cons_eq_ok_iff :
    splitContribution (share :: shares) (key :: keys) = .ok split ↔
      (key.format = .multiRoot ∧ PublicKey.contributionOffset + 4 ≤ key.size) ∧
        ∃ others, splitContribution shares keys = .ok others ∧
          key.withShare share :: others = split := by
  constructor
  · intro ran
    have begun := ran
    rw [splitContribution, bind_eq_ok_iff] at begun
    obtain ⟨_, found, -⟩ := begun
    obtain ⟨format, inside, -⟩ := PublicKey.contribution_eq_ok_iff.mp found
    rw [splitContribution_cons format inside] at ran
    simp only [bind_eq_ok_iff, pure_eq_ok_iff] at ran
    exact ⟨⟨format, inside⟩, ran⟩
  · rintro ⟨⟨format, inside⟩, others, later, rfl⟩
    rw [splitContribution_cons format inside, bind_of_ok later]
    rfl

/-- Every key stays as it is or gets a part of the contribution. -/
theorem forall₂_of_splitContribution {relation : PublicKey → PublicKey → Prop}
    (same : ∀ key, relation key key)
    (given : ∀ key share, PublicKey.contributionOffset + 4 ≤ key.size →
      relation key (key.withShare share))
    (ran : splitContribution shares keys = .ok split) : List.Forall₂ relation keys split := by
  induction shares generalizing keys split with
  | nil =>
    obtain rfl : keys = split := by simpa [splitContribution] using ran
    exact List.forall₂_same.mpr fun key _ => same key
  | cons share shares ih =>
    cases keys with
    | nil =>
      obtain rfl : [] = split := by simpa [splitContribution] using ran
      exact .nil
    | cons first rest =>
      obtain ⟨⟨-, inside⟩, others, later, rfl⟩ := splitContribution_cons_eq_ok_iff.mp ran
      exact .cons (given first share inside) (ih later)

/-- The keys that a multi-root entry holds: two or more share the contribution. -/
def shared : List PublicKey → List PublicKey
  | first :: second :: rest =>
    first.withShare 0xFFFF0000 :: second.withShare 0x0000FFFF :: rest
  | keys => keys

/-- The keys of a multi-root entry, once the contribution is split. -/
def sharedKeys (keys : List PublicKey) : Except Failure (List PublicKey) :=
  if 2 ≤ keys.length then splitContribution contributionSplit keys else .ok keys

theorem forall₂_of_sharedKeys {relation : PublicKey → PublicKey → Prop}
    (same : ∀ key, relation key key)
    (given : ∀ key share, PublicKey.contributionOffset + 4 ≤ key.size →
      relation key (key.withShare share))
    (ran : sharedKeys keys = .ok split) : List.Forall₂ relation keys split := by
  rw [sharedKeys] at ran
  split at ran
  · exact forall₂_of_splitContribution same given ran
  · obtain rfl := Except.ok.inj ran
    exact List.forall₂_same.mpr fun key _ => same key

theorem alike_of_sharedKeys (ran : sharedKeys keys = .ok split) :
    List.Forall₂ PublicKey.Alike keys split :=
  forall₂_of_sharedKeys .refl (fun _ share inside => .withShare inside share) ran

theorem standard_sharedKeys (standard : ∀ key ∈ keys, key.Standard)
    (ran : sharedKeys keys = .ok split) : ∀ key ∈ split, key.Standard := by
  have each : List.Forall₂ (fun key other => key.Standard → other.Standard) keys split :=
    forall₂_of_sharedKeys (fun _ => id)
      (fun _ _ inside standard => PublicKey.standard_withShare standard inside) ran
  exact Edit.forall_of_forall₂ (fun key member other keeps => keeps (standard key member)) each

theorem eq_shared_of_sharedKeys (ran : sharedKeys keys = .ok split) : split = shared keys := by
  match keys with
  | [] | [_] => exact (Except.ok.inj ran).symm
  | first :: second :: rest =>
    have two : 2 ≤ (first :: second :: rest).length := Nat.le_add_left 2 rest.length
    rw [sharedKeys, if_pos two, contributionSplit] at ran
    obtain ⟨-, _, later, rfl⟩ := splitContribution_cons_eq_ok_iff.mp ran
    obtain ⟨-, others, last, rfl⟩ := splitContribution_cons_eq_ok_iff.mp later
    obtain rfl : rest = others := by simpa [splitContribution] using last
    rfl

theorem sharedKeys_of_suitable (suitable : ∀ key ∈ keys, key.Suitable) :
    sharedKeys keys = .ok (shared keys) := by
  have inside (key : PublicKey) (member : key ∈ keys) :
      PublicKey.contributionOffset + 4 ≤ key.size :=
    Nat.le_trans (by decide : _ ≤ Size.publicKeyHeader) (suitable key member).header_le
  match keys with
  | [] | [_] => rfl
  | first :: second :: rest =>
    have two : 2 ≤ (first :: second :: rest).length := Nat.le_add_left 2 rest.length
    rw [sharedKeys, if_pos two, contributionSplit,
      splitContribution_cons (suitable first (by simp)).format (inside first (by simp)),
      splitContribution_cons (suitable second (by simp)).format (inside second (by simp))]
    rfl

theorem multiRoot_eq_ok_iff :
    multiRoot keys selector = .ok entry ↔
      (1 ≤ keys.length ∧ keys.length ≤ 3) ∧
        (∀ key ∈ keys, key.isEmpty = false ∧ key.format = .multiRoot) ∧
        ∃ split word reserved slots, sharedKeys keys = .ok split ∧
          EntryData.hashWordOf split = .ok word ∧ EntryData.reservedFor word = .ok reserved ∧
          EntryData.keySlots.extend split = .ok slots ∧
          build (.multiRoot reserved slots) [] selector = .ok entry := by
  simp only [multiRoot, bind_eq_ok_iff, require_eq_ok_iff, exists_unit_iff, sharedKeys,
    exists_and_left]
  refine and_congr_right fun _ => and_congr_right fun _ => ?_
  split
  · simp only [bind_eq_ok_iff]
  · simp only [bind_eq_ok_iff]

theorem standard_multiRoot (standard : ∀ key ∈ keys, key.Standard)
    (ran : multiRoot keys selector = .ok entry) :
    entry.Standard ∧ entry.validate = .ok () ∧ entry.kind = .multiRoot := by
  obtain ⟨-, -, split, word, reserved, slots, splits, -, reserves, extended, built⟩ :=
    multiRoot_eq_ok_iff.mp ran
  obtain ⟨follows, whole⟩ := reservedFor_eq_ok reserves
  obtain ⟨-, -, rfl⟩ := Sequence.extend_eq_ok_iff.mp extended
  have standardData : (EntryData.multiRoot reserved
      { EntryData.keySlots with items := EntryData.keySlots.items ++ split }).Standard :=
    ⟨follows, standard_sharedKeys standard splits, rfl, fun _ => whole⟩
  obtain ⟨again, valid, data⟩ := standard_build standardData built
  exact ⟨again, valid, by rw [kind, data]; rfl⟩

theorem take_reservedFor {word : Bytes} {reserved : Buffer} (four : word.length = 4)
    (ran : EntryData.reservedFor word = .ok reserved) : reserved.bytes.take 4 = word := by
  obtain ⟨short, rfl⟩ := reservedFor_eq_ok_iff.mp ran
  rw [← Bytes.slice_zero, ← four]
  exact Bytes.slice_splice (by simpa using short)

/-- The digest is one of what follows the headers, where keys that are alike are the same. -/
theorem recordHash_of_alike (alike : List.Forall₂ PublicKey.Alike keys others) :
    recordHash (others.map (·.buffer.bytes)) = recordHash (keys.map (·.buffer.bytes)) := by
  have behind : (others.map (·.buffer.bytes)).flatMap (·.drop Size.publicKeyHeader) =
      (keys.map (·.buffer.bytes)).flatMap (·.drop Size.publicKeyHeader) := by
    induction alike with
    | nil => rfl
    | cons first _ ih =>
      rw [List.map_cons, List.flatMap_cons, List.map_cons, List.flatMap_cons, ih,
        first.drop (by decide)]
  rw [recordHash, recordHash, behind]

theorem suitable_of_alike (alike : List.Forall₂ PublicKey.Alike keys others)
    (standard : ∀ key ∈ keys, key.Standard) (standardToo : ∀ key ∈ others, key.Standard)
    (suitable : ∀ key ∈ keys, key.Suitable) : ∀ key ∈ others, key.Suitable := by
  have each : ∀ other ∈ others, other.Standard → other.Suitable :=
    Edit.forall_of_forall₂ (fun key member other same standardOther =>
      (suitable key member).alike (standard key member) same standardOther) alike
  exact fun other member => each other member (standardToo other member)

theorem slots_extend (few : keys.length ≤ 3) (standard : ∀ key ∈ keys, key.Standard)
    (suitable : ∀ key ∈ keys, key.Suitable) :
    EntryData.keySlots.extend keys = .ok { EntryData.keySlots with items := keys } ∧
      { EntryData.keySlots with items := keys }.validate = .ok () ∧
      Fragment.totalSize keys ≤ 3 * Size.publicKeyLimit := by
  have valid := EntryData.slots_valid few fun key member =>
    ⟨standard key member, (suitable key member).valid, (suitable key member).filled⟩
  obtain ⟨each, whole, -⟩ := Sequence.validate_bounds valid
  have bounded (most : Nat) (limited : EntryData.keySlots.limit = some most) :
      EntryData.keySlots.totalSize + Fragment.totalSize keys ≤ most :=
    (Nat.zero_add _).symm ▸ whole most limited
  exact ⟨Sequence.extend_eq_ok_iff.mpr ⟨fun key member => (each key member).2, bounded, rfl⟩, valid,
    whole _ rfl⟩

/-- Data of suitable keys that begins with their key hash word is built into an entry. -/
theorem build_multiRoot_exists {reserved : Buffer} (selector : HashSelector) (keyed : keys ≠ [])
    (few : keys.length ≤ 3) (standard : ∀ key ∈ keys, key.Standard)
    (suitable : ∀ key ∈ keys, key.Suitable)
    (reserves : EntryData.reservedFor ((recordHash (keys.map (·.buffer.bytes))).take 4) =
      .ok reserved) :
    ∃ entry, build (.multiRoot reserved { EntryData.keySlots with items := keys }) [] selector =
      .ok entry := by
  obtain ⟨-, valid, small⟩ := slots_extend few standard suitable
  obtain ⟨follows, whole⟩ := reservedFor_eq_ok reserves
  let data : EntryData := .multiRoot reserved { EntryData.keySlots with items := keys }
  have standardData : data.Standard := ⟨follows, standard, rfl, fun _ => whole⟩
  have validData : Fragment.validate data = .ok () :=
    EntryData.validate_multiRoot.mpr ⟨follows.validate_of_plain rfl rfl, valid⟩
  have complete : data.Complete := ⟨fun key member => (suitable key member).filled, .inr keyed⟩
  have lasting : ∀ record ∈ data.keyRecords,
      Bytes.wordAt record PublicKey.cancelIdOffset = unsetWord :=
    List.forall_mem_map.mpr fun key member =>
      (Buffer.getWord_eq_ok_iff.mp (suitable key member).lasting).2
  have hashed : (Fragment.toBytes data).take 4 = (recordHash data.keyRecords).take 4 := by
    have four : 4 ≤ reserved.bytes.length := by
      rw [show reserved.bytes.length = _ from whole]
      decide
    rw [EntryData.toBytes_multiRoot, List.take_append_of_le_length four,
      take_reservedFor (length_take_recordHash _) reserves]
    rfl
  have size : Fragment.size data = Size.rootReserved + Fragment.totalSize keys := by
    rw [← whole]
    rfl
  have aligned : 8 ∣ Fragment.totalSize keys :=
    Fragment.dvd_totalSize fun key member => (suitable key member).dvd_size (standard key member)
  have fits : Size.entryHeader + Size.rootReserved + 3 * Size.publicKeyLimit < 2 ^ 32 := by decide
  have even : 8 ∣ Size.entryHeader + Size.rootReserved := by decide
  refine build_exists selector validData ?_ ?_ fun header =>
    (validateKind_eq_ok_iff standardData validData).mpr ⟨complete, fun _ => ⟨rfl, lasting, hashed⟩⟩
  · rw [size, List.length_nil]
    omega
  · rw [size, List.length_nil]
    omega

theorem multiRoot_exists (selector : HashSelector) (few : 1 ≤ keys.length ∧ keys.length ≤ 3)
    (standard : ∀ key ∈ keys, key.Standard) (suitable : ∀ key ∈ keys, key.Suitable) :
    ∃ entry, multiRoot keys selector = .ok entry := by
  have splits := sharedKeys_of_suitable suitable
  have alike := alike_of_sharedKeys splits
  have standardToo := standard_sharedKeys standard splits
  have suitableToo := suitable_of_alike alike standard standardToo suitable
  have counted := alike.length_eq ▸ few
  obtain ⟨extended, -⟩ := slots_extend counted.2 standardToo suitableToo
  have short : ((recordHash ((shared keys).map (·.buffer.bytes))).take 4).length ≤
      Size.rootReserved := by
    rw [length_take_recordHash]
    decide
  have reserves := reservedFor_eq_ok_iff.mpr ⟨short, rfl⟩
  obtain ⟨entry, built⟩ := build_multiRoot_exists selector
    (List.ne_nil_of_length_pos counted.1) counted.2 standardToo suitableToo reserves
  exact ⟨entry, multiRoot_eq_ok_iff.mpr ⟨few, fun key member =>
    ⟨(suitable key member).filled, (suitable key member).format⟩, _, _, _, _, splits,
      hashWordOf_of_valid fun key member =>
        ⟨(suitableToo key member).valid, (suitableToo key member).filled⟩,
      reserves, extended, built⟩⟩

/-- The keys of a valid root entry are there, valid and not to be cancelled. -/
theorem rootKeys_of_valid (standard : entry.Standard) (valid : entry.validate = .ok ())
    (root : entry.kind.isRoot = true) :
    ∀ key ∈ entry.keys,
      key.isEmpty = false ∧ key.validate = .ok () ∧ key.cancelId = .ok unsetWord := by
  obtain ⟨⟨-, validData, -⟩, -, -, kindValid⟩ := validate_eq_ok_iff.mp valid
  obtain ⟨complete, anchored⟩ := (validateKind_eq_ok_iff standard.data validData).mp kindValid
  intro key member
  have filled := complete.1 key member
  have validKey := (EntryData.keys_sound standard.data validData key member).2
  have lasting := (anchored root).lasting _ (List.mem_map_of_mem member)
  have inside : PublicKey.cancelIdOffset + 4 ≤ key.size :=
    Nat.le_trans (by decide : _ ≤ Size.publicKeyHeader)
      (PublicKey.validate_filled validKey filled).2.2.1
  exact ⟨filled, validKey, Buffer.getWord_eq_ok_iff.mpr ⟨inside, lasting⟩⟩

/-- The keys that a multi-root entry was built from are suitable: the checks at the end are about
keys that are like them. -/
theorem suitable_of_multiRoot (standard : ∀ key ∈ keys, key.Standard)
    (ran : multiRoot keys selector = .ok entry) :
    entry.keys = shared keys ∧ List.Forall₂ PublicKey.Alike keys (shared keys) ∧
      (∀ key ∈ shared keys, key.Standard) ∧ ∀ key ∈ keys, key.Suitable := by
  obtain ⟨standardEntry, valid, kind⟩ := standard_multiRoot standard ran
  obtain ⟨-, layouts, split, _, _, _, splits, -, -, extended, built⟩ := multiRoot_eq_ok_iff.mp ran
  obtain ⟨-, -, data, -⟩ := headed_build built
  obtain ⟨-, -, rfl⟩ := Sequence.extend_eq_ok_iff.mp extended
  have keyed : entry.keys = split := by
    rw [ChainEntry.keys, data]
    rfl
  have alike := alike_of_sharedKeys splits
  have standardSplit := standard_sharedKeys standard splits
  have format : ∀ key ∈ split, key.format = .multiRoot :=
    Edit.forall_of_forall₂ (fun key member other same =>
      same.format.trans (layouts key member).2) alike
  have suitable (key : PublicKey) (member : key ∈ split) : key.Suitable := by
    obtain ⟨filled, validKey, lasting⟩ :=
      rootKeys_of_valid standardEntry valid (by rw [kind]; rfl) key (keyed ▸ member)
    exact ⟨filled, format key member, validKey, lasting⟩
  obtain rfl := eq_shared_of_sharedKeys splits
  have back : List.Forall₂ PublicKey.Alike (shared keys) keys :=
    (alike.imp fun _ _ same => same.symm).flip
  exact ⟨keyed, alike, standardSplit, suitable_of_alike back standardSplit standard suitable⟩

/-- The key hash word of a multi-root entry is that of the keys it was built from. -/
theorem hashWord?_multiRoot (standard : ∀ key ∈ keys, key.Standard)
    (ran : multiRoot keys selector = .ok entry) :
    entry.hashWord? = some ((recordHash (keys.map (·.buffer.bytes))).take 4) := by
  obtain ⟨-, alike, standardToo, suitable⟩ := suitable_of_multiRoot standard ran
  obtain ⟨-, -, split, word, reserved, slots, splits, hashed, reserves, -, built⟩ :=
    multiRoot_eq_ok_iff.mp ran
  obtain ⟨-, -, data, -⟩ := headed_build built
  obtain rfl := eq_shared_of_sharedKeys splits
  have suitableToo := suitable_of_alike alike standard standardToo suitable
  rw [hashWordOf_of_valid fun key member =>
    ⟨(suitableToo key member).valid, (suitableToo key member).filled⟩] at hashed
  obtain rfl := Except.ok.inj hashed
  have stored : reserved.getRaw 0 4 = .ok (reserved.bytes.take 4) := by
    obtain ⟨-, whole⟩ := reservedFor_eq_ok reserves
    refine Buffer.getRaw_eq_ok_iff.mpr ⟨?_, Bytes.slice_zero _ _⟩
    rw [whole]
    decide
  rw [ChainEntry.hashWord?, data, EntryData.hashWord?]
  simp only [EntryData.reserved?, stored, Except.toOption]
  rw [take_reservedFor (length_take_recordHash _) reserves, recordHash_of_alike alike]

/-- A multi-root entry of the given keys with the hash selector: it is valid and comes back from a
stream, holds the keys in order with the contribution split, and stores the first word of the digest
of their coordinates. -/
structure RootOf (given : List PublicKey) (selector : HashSelector) (entry : ChainEntry) : Prop where
  valid : entry.validate = .ok ()
  kind : entry.kind = .multiRoot
  selects : entry.hashSelector = .ok selector
  keys : entry.keys = shared given
  anchor : ∃ points : List (Bytes × Bytes),
    List.Forall₂ (fun key point => key.x = .ok point.1 ∧ key.y = .ok point.2) given points ∧
      entry.hashWord? =
        some ((Bytes.sha384 (points.flatMap fun point => point.1 ++ point.2)).take 4)
  arrives : ∀ stream rest, stream.Steady → stream.unread = Fragment.toBytes entry ++ rest →
    ∃ left, Arrives stream entry.size entry left ∧ left.unread = rest

theorem points_exist (suitable : ∀ key ∈ keys, key.Suitable) :
    ∃ points : List (Bytes × Bytes),
      List.Forall₂ (fun key point => key.x = .ok point.1 ∧ key.y = .ok point.2) keys points ∧
        (keys.map (·.buffer.bytes)).flatMap (·.drop Size.publicKeyHeader) =
          points.flatMap fun point => point.1 ++ point.2 := by
  induction keys with
  | nil => exact ⟨[], .nil, rfl⟩
  | cons first rest ih =>
    obtain ⟨here, later⟩ := List.forall_mem_cons.mp suitable
    obtain ⟨x, y, storedX, storedY, held⟩ := PublicKey.point_exists here.valid here.filled
    obtain ⟨points, stored, joined⟩ := ih later
    refine ⟨(x, y) :: points, .cons ⟨storedX, storedY⟩ stored, ?_⟩
    rw [List.map_cons, List.flatMap_cons, List.flatMap_cons, held, joined]

/-- One to three suitable keys are what a multi-root entry can be built from, and no other keys. The
entry keeps its key hash word when the fuse enables, the contribution and the permission of the keys
are others. -/
theorem multiRoot_exists_iff (selector : HashSelector) (standard : ∀ key ∈ keys, key.Standard) :
    ((∃ entry, multiRoot keys selector = .ok entry) ↔
        (1 ≤ keys.length ∧ keys.length ≤ 3) ∧ ∀ key ∈ keys, key.Suitable) ∧
      ∀ entry, multiRoot keys selector = .ok entry →
        RootOf keys selector entry ∧
          ∀ others other, List.Forall₂ PublicKey.Alike keys others →
            (∀ key ∈ others, key.Standard) →
              ∃ again, multiRoot others other = .ok again ∧ again.hashWord? = entry.hashWord? := by
  refine ⟨⟨?_, fun ⟨few, suitable⟩ => multiRoot_exists selector few standard suitable⟩,
    fun entry ran => ⟨?_, fun others other alike standardToo => ?_⟩⟩
  · rintro ⟨entry, ran⟩
    exact ⟨(multiRoot_eq_ok_iff.mp ran).1, (suitable_of_multiRoot standard ran).2.2.2⟩
  · obtain ⟨standardEntry, valid, kind⟩ := standard_multiRoot standard ran
    obtain ⟨keyed, -, -, suitable⟩ := suitable_of_multiRoot standard ran
    obtain ⟨-, -, _, _, _, _, -, -, -, -, built⟩ := multiRoot_eq_ok_iff.mp ran
    obtain ⟨-, -, -, -, selects⟩ := headed_build built
    obtain ⟨points, stored, joined⟩ := points_exist suitable
    refine ⟨valid, kind, selects, keyed, ⟨points, stored, ?_⟩, fun stream rest steady held => ?_⟩
    · rw [hashWord?_multiRoot standard ran, recordHash, joined]
    · obtain ⟨left, arrives⟩ := arrives_of_valid standardEntry valid steady held
      obtain ⟨advances, -⟩ := arrives.sound steady
      exact ⟨left, arrives, List.append_cancel_left (advances.unread.symm.trans held)⟩
  · obtain ⟨few, -⟩ := multiRoot_eq_ok_iff.mp ran
    obtain ⟨-, -, -, suitable⟩ := suitable_of_multiRoot standard ran
    obtain ⟨again, built⟩ := multiRoot_exists other (alike.length_eq ▸ few)
      standardToo (suitable_of_alike alike standard standardToo suitable)
    refine ⟨again, built, ?_⟩
    rw [hashWord?_multiRoot standardToo built, hashWord?_multiRoot standard ran,
      recordHash_of_alike alike]

/-- A key on the curve as it is built for a multi-root entry. -/
def rootKey (curve : Curve) : Except Failure PublicKey :=
  PublicKey.ofCoordinates .multiRoot curve (List.replicate curve.coordinateSize 1)
    (List.replicate curve.coordinateSize 2) {}

theorem rootKey_suitable (curve : Curve) :
    ∃ key, rootKey curve = .ok key ∧ key.Standard ∧ key.Suitable := by
  have there : (rootKey curve).toOption.map
      (fun key => (key.isEmpty, key.format, key.validate, key.cancelId)) =
        some (false, .multiRoot, .ok (), .ok unsetWord) := by
    cases curve <;> decide +kernel
  obtain ⟨key, built, facts⟩ := exists_of_map_eq_some there
  simp only [Prod.mk.injEq] at facts
  obtain ⟨filled, format, valid, lasting⟩ := facts
  exact ⟨key, built, (PublicKey.standard_ofCoordinates built).1, filled, format, valid, lasting⟩

/-- Keys on both curves make a multi-root entry, in which they share the contribution. Built again
from the keys it holds, it keeps its key hash word. -/
theorem multiRoot_exists_iff_twoCurves :
    ∃ first second entry, rootKey .secp256r1 = .ok first ∧ rootKey .secp384r1 = .ok second ∧
      multiRoot [first, second] .intel = .ok entry ∧ RootOf [first, second] .intel entry ∧
      ∃ again, multiRoot [first.withShare 0xFFFF0000, second.withShare 0x0000FFFF] .user =
        .ok again ∧ again.hashWord? = entry.hashWord? := by
  obtain ⟨first, builtFirst, standardFirst, suitableFirst⟩ := rootKey_suitable .secp256r1
  obtain ⟨second, builtSecond, standardSecond, suitableSecond⟩ := rootKey_suitable .secp384r1
  have standard : ∀ key ∈ [first, second], key.Standard :=
    List.forall_mem_cons.mpr ⟨standardFirst, List.forall_mem_singleton.mpr standardSecond⟩
  have suitable : ∀ key ∈ [first, second], key.Suitable :=
    List.forall_mem_cons.mpr ⟨suitableFirst, List.forall_mem_singleton.mpr suitableSecond⟩
  obtain ⟨buildable, made⟩ := multiRoot_exists_iff .intel standard
  obtain ⟨entry, built⟩ := buildable.mpr ⟨by simp, suitable⟩
  obtain ⟨rooted, independent⟩ := made entry built
  obtain ⟨-, alike, standardShared, -⟩ := suitable_of_multiRoot standard built
  exact ⟨first, second, entry, builtFirst, builtSecond, built, rooted,
    independent _ .user alike standardShared⟩

end ChainEntry
end SecureBoot
