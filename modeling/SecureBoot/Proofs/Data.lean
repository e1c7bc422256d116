import SecureBoot.Chain.Data
import SecureBoot.Proofs.Key

/-!
The data blocks of chain entries in a stream. A data block is `Standard` when its parts are laid out
as empty data of its kind; then it is read back from its own bytes, and whatever is read is standard
and has just the bytes that were taken.
-/

namespace SecureBoot.EntryData

variable {data changed : EntryData} {kind : EntryKind} {format : KeyFormat} {bytes more rest : Bytes}
  {count : Nat} {stream left : Stream} {answer : Unit}

instance : Composite.Lawful EntryData where
  parts
    | root reserved key => by
      rw [show Composite.parts (root reserved key) = [_, _] from rfl, List.forall_mem_cons]
      exact ⟨Part.lawful_of reserved (root · key), by simpa using Part.lawful_of key (root reserved ·)⟩
    | multiRoot reserved keys => by
      rw [show Composite.parts (multiRoot reserved keys) = [_, _] from rfl, List.forall_mem_cons]
      exact ⟨Part.lawful_of reserved (multiRoot · keys),
        by simpa using Part.lawful_of keys (multiRoot reserved ·)⟩
    | publicKey key => by
      rw [show Composite.parts (publicKey key) = [_] from rfl]
      simpa using Part.lawful_of key publicKey
    | block0 => by simp [Composite.parts]

instance : Fragment.Lawful EntryData where
  length_toBytes := Composite.length_toBytes
  readBytes_sound := Composite.readBytes_sound
  readBytes_inside := Composite.readBytes_inside
  writeBytes_same := Composite.writeBytes_same

/-- The key layout that reading the data has to start with. -/
def keyFormat : EntryData → KeyFormat
  | publicKey key => key.format
  | root .. | multiRoot .. | block0 => .singleRoot

/-- The parts of the data are laid out as in empty data, and the reserved block is there whenever a
key is. -/
def Standard : EntryData → Prop
  | root reserved key =>
    reserved.Follows reservedBlock ∧ key.Standard ∧ key.format = .singleRoot ∧
      (key.isEmpty = false → reserved.size = Size.rootReserved)
  | multiRoot reserved keys =>
    reserved.Follows reservedBlock ∧ (∀ key ∈ keys.items, key.Standard) ∧
      keys = { keySlots with items := keys.items } ∧
      (keys.isEmpty = false → reserved.size = Size.rootReserved)
  | publicKey key => key.Standard
  | block0 => True

/-- No key is missing. -/
def Filled (data : EntryData) : Prop :=
  ∀ key ∈ data.keys, key.isEmpty = false

theorem toBytes_root (reserved : Buffer) (key : PublicKey) :
    Fragment.toBytes (root reserved key) = reserved.bytes ++ key.buffer.bytes := by
  rw [show Fragment.toBytes (root reserved key) = reserved.bytes ++ (key.buffer.bytes ++ []) from rfl,
    List.append_nil]

theorem toBytes_multiRoot (reserved : Buffer) (keys : Sequence PublicKey) :
    Fragment.toBytes (multiRoot reserved keys) =
      reserved.bytes ++ keys.items.flatMap Fragment.toBytes := by
  rw [show Fragment.toBytes (multiRoot reserved keys) =
    reserved.bytes ++ (Composite.toBytes keys ++ []) from rfl, List.append_nil, Sequence.toBytes_eq]

theorem toBytes_publicKey (key : PublicKey) :
    Fragment.toBytes (publicKey key) = key.buffer.bytes := by
  rw [show Fragment.toBytes (publicKey key) = key.buffer.bytes ++ [] from rfl, List.append_nil]

theorem validate_root {reserved : Buffer} {key : PublicKey} :
    Fragment.validate (root reserved key) = .ok answer ↔
      reserved.validate = .ok () ∧ key.validate = .ok () := by
  rw [show Fragment.validate (root reserved key) = Composite.validateParts _ from rfl,
    Composite.validateParts_eq_ok_iff]
  simp [Composite.parts, Part.of, Fragment.validate]

theorem validate_multiRoot {reserved : Buffer} {keys : Sequence PublicKey} :
    Fragment.validate (multiRoot reserved keys) = .ok answer ↔
      reserved.validate = .ok () ∧ keys.validate = .ok () := by
  rw [show Fragment.validate (multiRoot reserved keys) = Composite.validateParts _ from rfl,
    Composite.validateParts_eq_ok_iff]
  simp [Composite.parts, Part.of, Fragment.validate]

theorem validate_publicKey {key : PublicKey} :
    Fragment.validate (publicKey key) = .ok answer ↔ key.validate = .ok () := by
  rw [show Fragment.validate (publicKey key) = Composite.validateParts _ from rfl,
    Composite.validateParts_eq_ok_iff]
  simp [Composite.parts, Part.of, Fragment.validate]

/-- The keys of valid data are valid each. -/
theorem keys_sound (standard : data.Standard)
    (valid : Fragment.validate data = .ok ()) :
    ∀ key ∈ data.keys, key.Standard ∧ key.validate = .ok () := by
  cases data with
  | root reserved key =>
    obtain ⟨-, standardKey, -⟩ := standard
    exact List.forall_mem_singleton.mpr ⟨standardKey, (validate_root.mp valid).2⟩
  | multiRoot reserved sequence =>
    obtain ⟨-, standardKeys, -⟩ := standard
    obtain ⟨each, -⟩ := Sequence.validate_bounds (validate_multiRoot.mp valid).2
    exact fun key member => ⟨standardKeys key member, (each key member).1⟩
  | publicKey key => exact List.forall_mem_singleton.mpr ⟨standard, validate_publicKey.mp valid⟩
  | block0 => exact fun _ => nofun

/-- Reading two components is reading the one and then the other. -/
private theorem takes_readBoth {α β : Type} [Fragment α] [Fragment β] {build : α → β → EntryData}
    {first newFirst : α} {second newSecond : β} {countFirst countSecond : Nat} (data : EntryData)
    (one : Edit.Takes Fragment.read first bytes (more ++ rest) countFirst newFirst)
    (two : Edit.Takes Fragment.read second more rest countSecond newSecond) :
    Edit.Takes (readBoth build first second) data (bytes ++ more) rest (countFirst + countSecond)
      (build newFirst newSecond) := by
  intro stream steady held
  rw [List.append_assoc] at held
  obtain ⟨between, ran, advances⟩ := one stream steady held
  obtain ⟨left, ranOn, further⟩ := two between advances.steady (advances.unread_eq held)
  exact ⟨left, by simp only [readBoth, ran, ranOn], advances.trans further⟩

private theorem readBoth_sound {α β : Type} [Fragment α] [Fragment β] {build : α → β → EntryData}
    {first : α} {second : β} {start : EntryData}
    (ran : readBoth build first second (start, stream) = .ok count (changed, left)) :
    ∃ countFirst newFirst between countSecond newSecond,
      Fragment.read (first, stream) = .ok countFirst (newFirst, between) ∧
        Fragment.read (second, between) = .ok countSecond (newSecond, left) ∧
        count = countFirst + countSecond ∧ changed = build newFirst newSecond := by
  rw [readBoth] at ran
  cases one : Fragment.read (first, stream) with
  | error failure pair => simp [one] at ran
  | ok countFirst pair =>
    obtain ⟨newFirst, between⟩ := pair
    cases two : Fragment.read (second, between) with
    | error failure pair => simp [one, two] at ran
    | ok countSecond pair =>
      obtain ⟨newSecond, after⟩ := pair
      simp only [one, two, EStateM.Result.ok.injEq, Prod.mk.injEq] at ran
      obtain ⟨rfl, rfl, rfl⟩ := ran
      exact ⟨countFirst, newFirst, between, countSecond, newSecond, rfl, two, rfl, rfl⟩

private theorem takes_reserved {reserved : Buffer} (follows : reserved.Follows reservedBlock)
    (whole : reserved.size = Size.rootReserved) (valid : reserved.validate = .ok ()) (rest : Bytes) :
    Edit.Takes Buffer.read reservedBlock reserved.bytes rest reserved.size reserved :=
  follows.takes_read rfl (by rw [whole]; rfl) valid rest

/-- Reading a single key is reading the data that it makes up. -/
private theorem takes_readKey {key newKey : PublicKey}
    (takes : Edit.Takes Fragment.read key bytes rest count newKey) :
    Edit.Takes read (publicKey key) bytes rest count (publicKey newKey) := by
  intro stream steady held
  obtain ⟨left, ran, advances⟩ := takes stream steady held
  exact ⟨left, by simp only [read, ran], advances⟩

/-- Data with all its keys is read back from its own bytes. -/
theorem takes_read (standard : data.Standard) (valid : Fragment.validate data = .ok ())
    (filled : data.Filled) (keyed : data.kind = .block0 ∨ data.keys ≠ []) :
    Edit.Takes Fragment.read (empty data.kind data.keyFormat) (Fragment.toBytes data) []
      (Fragment.size data) data := by
  cases data with
  | root reserved key =>
    obtain ⟨follows, standardKey, single, whole⟩ := standard
    obtain ⟨validReserved, validKey⟩ := validate_root.mp valid
    have there := filled key (by simp [keys])
    have one := takes_reserved follows (whole there) validReserved (key.buffer.bytes ++ [])
    have two := PublicKey.takes_read standardKey validKey there []
    rw [single] at two
    rw [toBytes_root]
    exact takes_readBoth (empty .root .singleRoot) one two
  | multiRoot reserved sequence =>
    obtain ⟨follows, standardKeys, layout, whole⟩ := standard
    obtain ⟨validReserved, validKeys⟩ := validate_multiRoot.mp valid
    obtain ⟨each, bounded, counted⟩ := Sequence.validate_bounds validKeys
    rw [layout] at each bounded counted
    have there : sequence.isEmpty = false := by
      simpa [Sequence.isEmpty, kind, keys] using keyed
    have readable : ∀ key ∈ sequence.items, Sequence.Readable key := fun key member =>
      PublicKey.readable (standardKeys key member) (each key member).1 (filled key member)
    have two : Edit.Takes Fragment.read keySlots (sequence.items.flatMap Fragment.toBytes) []
        (Fragment.totalSize sequence.items) { keySlots with items := sequence.items } :=
      Sequence.takes_read rfl readable (fun key member => (each key member).2) bounded counted
    rw [← layout] at two
    have one := takes_reserved follows (whole there) validReserved
      (sequence.items.flatMap Fragment.toBytes ++ [])
    rw [toBytes_multiRoot]
    exact takes_readBoth (empty .multiRoot .singleRoot) one two
  | publicKey key =>
    have there := filled key (by simp [keys])
    rw [toBytes_publicKey]
    exact takes_readKey (PublicKey.takes_read standard (validate_publicKey.mp valid) there [])
  | block0 => exact .pure 0 block0 []

private theorem reserved_sound {reserved : Buffer} (steady : stream.Steady)
    (ran : Buffer.read (reservedBlock, stream) = .ok count (reserved, left)) :
    stream.Advances left reserved.bytes ∧ count = reserved.size ∧ reserved.Follows reservedBlock ∧
      (reserved.size = Size.rootReserved ∨ left.unread = []) := by
  have blank : reservedBlock.Follows reservedBlock := .self _ fun _ _ => Nat.zero_le _
  obtain ⟨taken, advances, counted, longer, follows, ended⟩ := Buffer.read_sound blank steady ran
  have same : reserved.bytes = taken := longer
  subst same
  refine ⟨advances, counted, follows, ended.imp_left ?_⟩
  rintro ⟨complete, -⟩
  have full := Buffer.isComplete_iff.mp complete _ follows.limit
  exact Nat.le_antisymm (follows.bounded _ rfl) full

/-- Reading empty data takes just the bytes it has in the end. -/
theorem read_sound (steady : stream.Steady)
    (ran : Fragment.read (empty kind format, stream) = .ok count (data, left)) :
    stream.Advances left (Fragment.toBytes data) ∧ count = Fragment.size data ∧
      data.kind = kind ∧ data.Standard := by
  have whole := Fragment.Lawful.length_toBytes data
  suffices took : stream.Advances left (Fragment.toBytes data) ∧
      count = (Fragment.toBytes data).length ∧ data.kind = kind ∧ data.Standard by
    rwa [whole] at took
  cases kind with
  | root =>
    have ran : readBoth root reservedBlock (PublicKey.empty .singleRoot)
      (empty .root format, stream) = .ok count (data, left) := ran
    obtain ⟨countFirst, reserved, between, countSecond, key, ranFirst, ranSecond, rfl, rfl⟩ :=
      readBoth_sound ran
    obtain ⟨advances, rfl, follows, ended⟩ := reserved_sound steady ranFirst
    obtain ⟨further, rfl, standard, single⟩ := PublicKey.read_sound advances.steady ranSecond
    rw [toBytes_root]
    refine ⟨advances.trans further, by rw [List.length_append]; rfl, rfl, follows, standard,
      single, fun there => ended.resolve_right fun nothing => ?_⟩
    have short := further.unread
    rw [nothing] at short
    have none : key.buffer.bytes = [] := (List.append_eq_nil_iff.mp short.symm).1
    simp [PublicKey.isEmpty, Buffer.isEmpty, none] at there
  | multiRoot =>
    have ran : readBoth multiRoot reservedBlock keySlots (empty .multiRoot format, stream) =
      .ok count (data, left) := ran
    obtain ⟨countFirst, reserved, between, countSecond, sequence, ranFirst, ranSecond, rfl, rfl⟩ :=
      readBoth_sound ran
    obtain ⟨advances, rfl, follows, ended⟩ := reserved_sound steady ranFirst
    obtain ⟨items, rfl, further, rfl, good⟩ :=
      Sequence.read_sound PublicKey.sound rfl advances.steady ranSecond
    rw [toBytes_multiRoot]
    refine ⟨advances.trans further, by rw [List.length_append]; rfl, rfl, follows,
      fun key member => (good key member).1, rfl, fun there => ended.resolve_right fun nothing => ?_⟩
    have short := further.unread
    rw [nothing] at short
    have none := (List.append_eq_nil_iff.mp short.symm).1
    cases items with
    | nil => simp [Sequence.isEmpty] at there
    | cons first others =>
      rw [List.flatMap_cons, List.append_eq_nil_iff] at none
      exact (good first (by simp)).2 none.1
  | publicKey =>
    have ran : read (publicKey (PublicKey.empty format), stream) = .ok count (data, left) := ran
    rw [read] at ran
    cases took : Fragment.read (PublicKey.empty format, stream) with
    | error failure pair => simp [took] at ran
    | ok counted pair =>
      obtain ⟨key, after⟩ := pair
      simp only [took, EStateM.Result.ok.injEq, Prod.mk.injEq] at ran
      obtain ⟨rfl, rfl, rfl⟩ := ran
      obtain ⟨advances, rfl, standard, -⟩ := PublicKey.read_sound steady took
      rw [toBytes_publicKey]
      exact ⟨advances, rfl, rfl, standard⟩
  | block0 =>
    obtain ⟨rfl, rfl, rfl⟩ : 0 = count ∧ block0 = data ∧ stream = left := by
      simpa [Fragment.read, read, empty, and_assoc] using ran
    exact ⟨.refl steady, rfl, rfl, trivial⟩

end SecureBoot.EntryData
